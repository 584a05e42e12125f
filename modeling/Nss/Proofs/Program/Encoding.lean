/-
# What an assembly writes

Both passes of the encoder find a number for every operand and then encode the instructions with
those numbers.  `resolveAll` is the first half of that, for the start as well as for functions.  The
code of the loader and that of the other functions are collected apart, and written one after the
other in the end.
-/
import Nss.Proofs.Program.Layout
import Nss.Proofs.Unit.Records

namespace Nss

open Steps Listing

namespace Program

/-! ## Numbers for operands -/

/-- Instructions from an offset on with the numbers that take the places of their operands, as far as
there are such numbers. -/
def resolveAll (number : Nat → Operand → Except Error Int32) :
    Nat → List Instruction → Except Error (List (Instruction × Int32))
  | _, [] => .ok []
  | at_, i :: rest => do
    let resolved ← number at_ i.operand
    return (i, resolved) :: (← resolveAll number (at_ + i.size) rest)

/-- The number for an operand of the start of a script. -/
def startNumber (placed : List Placed) (at_ : Nat) : Operand → Except Error Int32
  | .call f => callDistance placed at_ f
  | _ => .ok 0

theorem encodeStart_eq (placed : List Placed) :
    ∀ (code : List Instruction) (at_ : Nat),
      encodeStart placed at_ code = (resolveAll (startNumber placed) at_ code).map encodeAll
  | [], _ => rfl
  | i :: rest, at_ => by
      have hstep : encodeStart placed at_ (i :: rest) = do
          let resolved ← startNumber placed at_ i.operand
          return i.encode resolved ++ (← encodeStart placed (at_ + i.size) rest) := by
        rw [encodeStart, Instruction.callee?]
        cases i.operand <;> rfl
      rw [hstep, resolveAll, encodeStart_eq placed rest]
      cases startNumber placed at_ i.operand with
      | error e => rfl
      | ok resolved =>
          cases resolveAll (startNumber placed) (at_ + i.size) rest with
          | error e => rfl
          | ok rc => rfl

/-- The code of a function is encoded as far as its operands have numbers. -/
theorem encodeCode_eq (globals : Nat) (placed : List Placed) (p : Placed) :
    ∀ (code : List Instruction) (at_ : Nat),
      (encodeCode globals placed p (code.zip (place at_ code))).2
          = (resolveAll (resolve globals placed p) at_ code).map (fun _ => ()) ∧
        ∀ rc, resolveAll (resolve globals placed p) at_ code = .ok rc →
          (encodeCode globals placed p (code.zip (place at_ code))).1 = encodeAll rc
  | [], _ => by
      refine ⟨rfl, ?_⟩
      intro rc hrc
      obtain rfl := Except.ok.inj hrc
      rfl
  | i :: rest, at_ => by
      obtain ⟨houtcome, hbytes⟩ := encodeCode_eq globals placed p rest (at_ + i.size)
      rw [place, List.zip_cons_cons, encodeCode, resolveAll]
      cases resolve globals placed p at_ i.operand with
      | error e =>
          refine ⟨rfl, ?_⟩
          intro rc hrc
          cases hrc
      | ok resolved =>
          refine ⟨?_, ?_⟩
          · refine houtcome.trans ?_
            cases resolveAll (resolve globals placed p) (at_ + i.size) rest with
            | error e => rfl
            | ok rc => rfl
          · intro rc hrc
            obtain ⟨_, hresolved, hrc⟩ := except_bind_eq_ok.mp hrc
            obtain ⟨after, hafter, hrc⟩ := except_bind_eq_ok.mp hrc
            obtain rfl := Except.ok.inj hresolved
            obtain rfl := Except.ok.inj hrc
            exact congrArg (i.encode resolved ++ ·) (hbytes after hafter)

/-! ## Functions -/

/-- The same for functions one after the other, each from its own offset on. -/
def resolveFunctions (globals : Nat) (placed : List Placed) :
    List Placed → Except Error (List (List (Instruction × Int32)))
  | [] => .ok []
  | p :: rest => do
    let rc ← resolveAll (resolve globals placed p) (p.offsets.headD 0) p.code
    return rc :: (← resolveFunctions globals placed rest)

/-- The table with the code of a function. -/
def addSection (t : OutputTables) (name : String) (bytes : Bytes) : OutputTables :=
  if name = globalsLoader then t.add bytes [] else t.add [] bytes

/-- The table with the code of functions. -/
def addSections (t : OutputTables) (l : List (Placed × List (Instruction × Int32))) :
    OutputTables :=
  l.foldl (fun t (p, rc) => addSection t p.symbol.name (encodeAll rc)) t

theorem modifyTables_modifyTables (i : Instance) (f g : OutputTables → OutputTables) :
    (i.modifyTables f).modifyTables g = i.modifyTables fun t => g (f t) := by
  rw [Instance.modifyTables, Instance.modifyTables, Instance.modifyTables, Option.map_map]
  rfl

/-- Functions are encoded if their operands have numbers. -/
theorem encodeFunctions_of_ok {globals : Nat} {placed : List Placed} :
    ∀ {l : List Placed} {rcs : List (List (Instruction × Int32))} (i : Instance),
      (∀ p ∈ l, p.offsets = place (p.offsets.headD 0) p.code) →
      resolveFunctions globals placed l = .ok rcs →
      encodeFunctions globals placed l i = .ok () (i.modifyTables (addSections · (l.zip rcs)))
  | [], rcs, i, _, h => by
      obtain rfl := Except.ok.inj h
      have hsame : i.modifyTables (addSections · []) = i := by
        show ({ i with tables := i.tables.map id } : Instance) = i
        rw [Option.map_id]
        rfl
      exact congrArg (EStateM.Result.ok ()) hsame.symm
  | p :: rest, rcs, i, hl, h => by
      obtain ⟨rc, hrc, h⟩ := except_bind_eq_ok.mp h
      obtain ⟨after, hafter, h⟩ := except_bind_eq_ok.mp h
      obtain rfl := Except.ok.inj h
      obtain ⟨houtcome, hbytes⟩ := encodeCode_eq globals placed p p.code (p.offsets.headD 0)
      rw [← hl p List.mem_cons_self] at houtcome hbytes
      have hcode : encodeCode globals placed p (p.code.zip p.offsets)
          = (encodeAll rc, .ok ()) := by
        rw [hrc] at houtcome
        exact Prod.ext (hbytes rc hrc) houtcome
      have hrest := encodeFunctions_of_ok
        (i.modifyTables (addSection · p.symbol.name (encodeAll rc)))
        (fun q hq => hl q (.tail _ hq)) hafter
      rw [modifyTables_modifyTables] at hrest
      rw [encodeFunctions, hcode]
      exact hrest

/-- Functions are only encoded if their operands have numbers. -/
theorem resolveFunctions_of_ok {globals : Nat} {placed : List Placed} :
    ∀ {l : List Placed} {i i' : Instance},
      (∀ p ∈ l, p.offsets = place (p.offsets.headD 0) p.code) →
      encodeFunctions globals placed l i = .ok () i' →
      ∃ rcs, resolveFunctions globals placed l = .ok rcs
  | [], _, _, _, _ => ⟨[], rfl⟩
  | p :: rest, i, i', hl, h => by
      obtain ⟨houtcome, -⟩ := encodeCode_eq globals placed p p.code (p.offsets.headD 0)
      rw [← hl p List.mem_cons_self] at houtcome
      rw [encodeFunctions] at h
      obtain ⟨_, j, -, h⟩ := bind_eq_ok.mp h
      obtain ⟨_, k, hstop, h⟩ := bind_eq_ok.mp h
      obtain ⟨rcs, hrcs⟩ := resolveFunctions_of_ok (fun q hq => hl q (.tail _ hq)) h
      rw [houtcome] at hstop
      rw [resolveFunctions, hrcs]
      cases hrc : resolveAll (resolve globals placed p) (p.offsets.headD 0) p.code with
      | error e =>
          rw [hrc] at hstop
          cases hstop
      | ok rc => exact ⟨rc :: rcs, rfl⟩

/-- The code of the first function may go to another table than that of the others; written one behind
the other, both tables hold the code in order. -/
theorem sections_addSections {t : OutputTables} (hglobals : t.globals = [])
    (hfunctions : t.functions = []) {l : List (Placed × List (Instruction × Int32))}
    (hl : ∀ pr ∈ l.tail, pr.1.symbol.name ≠ globalsLoader) :
    (addSections t l).globals ++ (addSections t l).functions = encodeAll (l.flatMap Prod.snd) := by
  have hothers : ∀ {l : List (Placed × List (Instruction × Int32))} (t : OutputTables),
      (∀ pr ∈ l, pr.1.symbol.name ≠ globalsLoader) →
      (addSections t l).globals ++ (addSections t l).functions
        = t.globals ++ t.functions ++ encodeAll (l.flatMap Prod.snd) := by
    intro l
    induction l with
    | nil =>
        intro t _
        exact (List.append_nil _).symm
    | cons pr rest ih =>
        intro t hl
        obtain ⟨hpr, hrest⟩ := List.forall_mem_cons.mp hl
        rw [List.flatMap_cons, encodeAll_append]
        refine (ih (addSection t pr.1.symbol.name (encodeAll pr.2)) hrest).trans ?_
        rw [addSection, if_neg hpr]
        simp [OutputTables.add]
  cases l with
  | nil => simp [addSections, hglobals, hfunctions, encodeAll]
  | cons pr rest =>
      rw [List.flatMap_cons, encodeAll_append]
      refine (hothers (addSection t pr.1.symbol.name (encodeAll pr.2)) hl).trans ?_
      rw [addSection]
      split
      · simp [OutputTables.add, hglobals, hfunctions]
      · simp [OutputTables.add, hglobals, hfunctions]

/-- Together, the tables hold as many bytes as the code of all functions takes. -/
theorem length_addSections (t : OutputTables) (l : List (Placed × List (Instruction × Int32))) :
    (addSections t l).globals.length + (addSections t l).functions.length
      = t.globals.length + t.functions.length + codeSize ((l.flatMap Prod.snd).map Prod.fst) := by
  induction l generalizing t with
  | nil => rfl
  | cons pr rest ih =>
      have hadded : (addSection t pr.1.symbol.name (encodeAll pr.2)).globals.length
          + (addSection t pr.1.symbol.name (encodeAll pr.2)).functions.length
            = t.globals.length + t.functions.length + codeSize (pr.2.map Prod.fst) := by
        rw [← length_encodeAll, addSection]
        split
        · simp only [OutputTables.add, List.length_append, List.length_nil]
          omega
        · simp only [OutputTables.add, List.length_append, List.length_nil]
          omega
      rw [List.flatMap_cons, List.map_append, codeSize_append, ← Nat.add_assoc, ← hadded]
      exact ih _

/-- The flags of a unit are not written. -/
theorem addSections_congr {t t' : OutputTables} (hglobals : t.globals = t'.globals)
    (hfunctions : t.functions = t'.functions) (l : List (Placed × List (Instruction × Int32))) :
    (addSections t l).globals = (addSections t' l).globals ∧
      (addSections t l).functions = (addSections t' l).functions := by
  induction l generalizing t t' with
  | nil => exact ⟨hglobals, hfunctions⟩
  | cons pr rest ih =>
      have hglobals' : (addSection t pr.1.symbol.name (encodeAll pr.2)).globals
          = (addSection t' pr.1.symbol.name (encodeAll pr.2)).globals := by
        rw [addSection, addSection]
        split <;> simp [OutputTables.add, hglobals]
      have hfunctions' : (addSection t pr.1.symbol.name (encodeAll pr.2)).functions
          = (addSection t' pr.1.symbol.name (encodeAll pr.2)).functions := by
        rw [addSection, addSection]
        split <;> simp [OutputTables.add, hfunctions]
      exact ih hglobals' hfunctions'

theorem length_resolveFunctions {globals : Nat} {placed : List Placed} :
    ∀ {l : List Placed} {rcs : List (List (Instruction × Int32))},
      resolveFunctions globals placed l = .ok rcs → rcs.length = l.length
  | [], rcs, h => by
      obtain rfl := Except.ok.inj h
      rfl
  | p :: rest, rcs, h => by
      obtain ⟨rc, -, h⟩ := except_bind_eq_ok.mp h
      obtain ⟨after, hafter, h⟩ := except_bind_eq_ok.mp h
      obtain rfl := Except.ok.inj h
      rw [List.length_cons, length_resolveFunctions hafter, List.length_cons]

/-- The tables hold the code of all functions in the end. -/
theorem sections_resolveFunctions {globals : Nat} {placed : List Placed}
    {rcs : List (List (Instruction × Int32))}
    (h : resolveFunctions globals placed placed = .ok rcs)
    (hnames : ∀ p ∈ placed.tail, p.symbol.name ≠ globalsLoader) (tables : OutputTables) :
    (addSections tables.reset (placed.zip rcs)).globals
      ++ (addSections tables.reset (placed.zip rcs)).functions = encodeAll rcs.flatten := by
  have hsnd : (placed.zip rcs).map Prod.snd = rcs :=
    List.map_snd_zip (Nat.le_of_eq (length_resolveFunctions h))
  rw [sections_addSections rfl rfl, List.flatMap_def, hsnd]
  intro pr hpr
  cases placed with
  | nil => cases hpr
  | cons p rest =>
      cases rcs with
      | nil => cases hpr
      | cons rc rcs => exact hnames pr.1 (List.of_mem_zip hpr).1

/-! ## The output window -/

/-- A window has room for a script of a number of bytes, or can be made large enough. -/
def HasRoom (capacity size : Nat) : Prop :=
  max regionSize size ≤ capacity ∨ addressable (max regionSize size) = true

/-- The number of bytes of a script. -/
def fileSize (start : Bytes) (t : OutputTables) : Nat :=
  headerSize + (start.length + t.globals.length + t.functions.length)

theorem fileSize_eq {start code : List (Instruction × Int32)} {t : OutputTables}
    (ht : t.globals ++ t.functions = encodeAll code) :
    fileSize (encodeAll start) t = headerSize + codeSize ((start ++ code).map Prod.fst) := by
  have hlength := congrArg List.length ht
  rw [List.length_append, length_encodeAll] at hlength
  rw [fileSize, length_encodeAll, List.map_append, codeSize_append, ← hlength, Nat.add_assoc]

theorem growTo_of_room {capacity size : Nat} (h : HasRoom capacity size) :
    ∃ capacity', size ≤ capacity' ∧
      Window.growTo addressable ⟨[], capacity⟩ (max regionSize size) = .ok ⟨[], capacity'⟩ := by
  rw [Window.growTo]
  by_cases hle : max regionSize size ≤ capacity
  · exact ⟨capacity, Nat.le_trans (Nat.le_max_right _ _) hle, if_pos hle⟩
  · have hgranted := h.resolve_left hle
    refine ⟨max regionSize size, Nat.le_max_right _ _, ?_⟩
    rw [if_neg hle, if_pos hgranted]

theorem write_of_room {bytes data : Bytes} {capacity : Nat}
    (h : bytes.length + data.length ≤ capacity) :
    Window.write ⟨bytes, capacity⟩ data = .ok ⟨bytes ++ data, capacity⟩ := by
  have hroom : ¬ capacity - bytes.length < data.length := by omega
  exact if_neg hroom

/-- The size comes behind the characters that the file begins with, in place of four zeros. -/
theorem patch_size (rest : Bytes) (capacity n : Nat) :
    Window.patch ⟨fileMagic ++ [0, 0, 0, 0] ++ rest, capacity⟩ sizeOffset
        (Bytes.ofUInt32Reversed (UInt32.ofNat n)) = .ok ⟨fileHeader n ++ rest, capacity⟩ := by
  have hsize : (Bytes.ofUInt32Reversed (UInt32.ofNat n)).length = 4 := rfl
  have hfront : (fileMagic ++ [0, 0, 0, 0] : Bytes).length = sizeOffset + 4 := rfl
  have htake : (fileMagic ++ [0, 0, 0, 0] ++ rest).take sizeOffset = fileMagic := by
    rw [show sizeOffset = fileMagic.length from rfl, List.append_assoc, List.take_left]
  have hdrop : (fileMagic ++ [0, 0, 0, 0] ++ rest).drop (sizeOffset + 4) = rest := by
    rw [← hfront, List.drop_left]
  have hlong : ¬ (fileMagic ++ [0, 0, 0, 0] ++ rest).length < sizeOffset + 4 := by
    rw [List.length_append, hfront]
    omega
  rw [Window.patch, hsize, htake, hdrop]
  exact if_neg hlong

/-- A script is written behind its header, if there is room. -/
theorem fill_of_room {capacity : Nat} {start : Bytes} {t : OutputTables}
    (h : HasRoom capacity (fileSize start t)) :
    ∃ w, fill ⟨[], capacity⟩ start t = .ok w ∧
      w.bytes = fileHeader (fileSize start t) ++ (start ++ t.globals ++ t.functions) := by
  obtain ⟨capacity', hle, hgrow⟩ := growTo_of_room h
  have hheader : fileMagic.length + 4 = headerSize := rfl
  have hsize : (fileMagic ++ [0, 0, 0, 0] ++ (start ++ t.globals ++ t.functions)).length
      = fileSize start t := by
    rw [List.length_append, List.length_append, List.length_append, List.length_append]
    rfl
  rw [fileSize, ← hheader] at hle
  refine ⟨⟨_, capacity'⟩, ?_, rfl⟩
  refine except_bind_eq_ok.mpr ⟨_, hgrow, ?_⟩
  refine except_bind_eq_ok.mpr ⟨_, write_of_room (by simp; omega), ?_⟩
  refine except_bind_eq_ok.mpr ⟨_, write_of_room (by simp; omega), ?_⟩
  refine except_bind_eq_ok.mpr ⟨_, write_of_room (by simp; omega), ?_⟩
  refine except_bind_eq_ok.mpr ⟨_, write_of_room (by simp; omega), ?_⟩
  refine except_bind_eq_ok.mpr ⟨_, write_of_room (by simp; omega), ?_⟩
  rw [List.nil_append, List.append_assoc _ start, List.append_assoc _ (start ++ _), Window.length,
    hsize]
  exact patch_size _ _ _

/-- Without room, the window is refused before anything is written. -/
theorem fill_of_not_room {capacity : Nat} {start : Bytes} {t : OutputTables}
    (h : ¬ HasRoom capacity (fileSize start t)) :
    fill ⟨[], capacity⟩ start t = .error (Window.tooSmall (max regionSize (fileSize start t))) := by
  obtain ⟨hsmall, hrefused⟩ := not_or.mp h
  have hgrow : Window.growTo addressable ⟨[], capacity⟩ (max regionSize (fileSize start t))
      = .error (Window.tooSmall (max regionSize (fileSize start t))) := by
    rw [Window.growTo, if_neg hsmall, if_neg hrefused]
  exact except_bind_eq_error.mpr (.inl hgrow)

/-- A script is only written if there is room. -/
theorem room_of_fill {capacity : Nat} {start : Bytes} {t : OutputTables} {w : Window}
    (h : fill ⟨[], capacity⟩ start t = .ok w) : HasRoom capacity (fileSize start t) := by
  obtain ⟨w', hgrow, -⟩ := except_bind_eq_ok.mp h
  rw [Window.growTo] at hgrow
  split at hgrow
  · next hle => exact .inl hle
  · split at hgrow
    · next hgranted => exact .inr hgranted
    · cases hgrow

/-- The bytes of a script are its header and its instructions. -/
theorem bytes_of_fill {capacity n : Nat} {start code : List (Instruction × Int32)}
    {t : OutputTables} {w : Window} (ht : t.globals ++ t.functions = encodeAll code)
    (hn : n = headerSize + codeSize ((start ++ code).map Prod.fst))
    (h : fill ⟨[], capacity⟩ (encodeAll start) t = .ok w) :
    w.bytes = fileHeader n ++ encodeAll (start ++ code) ∧ w.bytes.length = n := by
  obtain ⟨w', hw, hbytes⟩ := fill_of_room (room_of_fill h)
  obtain rfl := Except.ok.inj (h.symm.trans hw)
  rw [fileSize_eq ht, ← hn, List.append_assoc, ht, ← encodeAll_append] at hbytes
  refine ⟨hbytes, ?_⟩
  rw [hbytes, List.length_append, length_encodeAll, hn]
  rfl

end Program

end Nss
