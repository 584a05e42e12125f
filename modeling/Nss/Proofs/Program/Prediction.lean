/-
# The layout foretells the script

An assembly goes over a program twice.  The first pass adds up the sizes of instructions, the second
one encodes them, in loops of its own over the start, the loader and the other functions, and puts
them behind one another in the end.  Whatever the symbols and the instructions are, an operation with
an operand that it does not take, bodies that overlap, or texts that are too long, both come to the
same: once all labels and calls lead somewhere (`Program.Resolvable`), the script has as many bytes
as were foreseen, and every function lies where the layout says (`Program.Foretold`).
-/
import Nss.Proofs.Program.Success

namespace Nss

open Steps Listing

namespace Program

/-! ## What the first pass comes to -/

/-- The layout of a program: the function that it begins with and the places of all functions. -/
structure Planned (symbols : Symbols) (records : Array Instruction) (entry : FunctionSymbol)
    (placed : List Placed) : Prop where
  begins : symbols.entryPoint = .ok entry
  placed : ∃ reached, reachable symbols records entry = .ok reached ∧
    layOut records (endOf headerSize (startCode symbols entry))
      ((loaderOf? symbols).toList ++ reached) = .ok placed

/-- Whether an operand of a placed function leads somewhere: a label stands before an instruction of
the function or at its end, and what is called has a place. -/
def leads (placed : List Placed) (p : Placed) : Operand → Bool
  | .label l => (p.body.labels[l]?.join).any fun n => n ≤ p.code.length
  | .call id => placed.any fun q => q.symbol.id = id
  | _ => true

/-- All labels and calls of placed functions lead somewhere. -/
def Resolvable (placed : List Placed) : Prop :=
  ∀ p ∈ placed, ∀ i ∈ p.code, leads placed p i.operand = true

/-- The offset behind the last of some functions, or the given one if there are none. -/
def offsetBehind : Nat → List Placed → Nat
  | at_, [] => at_
  | at_, p :: rest => offsetBehind (p.offsets.getLastD at_) rest

/-- The number of bytes that the layout comes to. -/
def plannedSize (symbols : Symbols) (entry : FunctionSymbol) (placed : List Placed) : Nat :=
  offsetBehind (endOf headerSize (startCode symbols entry)) placed

/-- No instruction calls the loader of the global variables. -/
def LoaderUncalled (symbols : Symbols) (records : Array Instruction) : Prop :=
  ∀ i ∈ records.toList, ∀ f ∈ symbols.functions, f.name = globalsLoader → i.callee? ≠ some f.id

/-- The second pass comes to what the first one says. -/
structure Foretold (symbols : Symbols) (records : Array Instruction) (entry : FunctionSymbol)
    (placed : List Placed) (artifact : Artifact) : Prop where
  length : artifact.bytes.length = plannedSize symbols entry placed
  sizeField : sizeField artifact.bytes = plannedSize symbols entry placed % 2 ^ 32
  layout : artifact.layout = placed.map layoutOf
  code : LoaderUncalled symbols records → ∀ p ∈ placed, ∃ rc,
    resolveAll (resolve symbols.globals.length placed p) (layoutOf p).offset
      (p.body.code records.toList) = .ok rc ∧
    (artifact.bytes.drop (layoutOf p).offset).take (layoutOf p).length = encodeAll rc

variable {symbols : Symbols} {records : Array Instruction} {entry : FunctionSymbol}
  {placed : List Placed}

theorem offsetBehind_eq {records : List Instruction} {at_ : Nat}
    (h : LaidOut records at_ placed) :
    offsetBehind at_ placed = at_ + codeSize (allCode placed) := by
  induction placed generalizing at_ with
  | nil => rfl
  | cons p rest ih =>
      have hne : place at_ p.code ≠ [] := by
        intro hnil
        have hlength := length_place p.code at_
        rw [hnil] at hlength
        cases hlength
      have hlast : p.offsets.getLastD at_ = endOf at_ p.code := by
        rw [h.1.offsets, ← getLastD_place at_ p.code, List.getLastD_eq_getLast?,
          List.getLastD_eq_getLast?, List.getLast?_eq_some_getLast hne]
        rfl
      rw [offsetBehind, hlast, ih h.2, codeSize_allCode_cons, endOf, Nat.add_assoc]

/-! ## Functions that were reached -/

/-- What was looked at besides the first functions is called. -/
theorem called_of_visit : ∀ {code : List Instruction} {seen seen' : List Nat}
    {pending pending' : List FunctionSymbol},
    visit symbols seen pending code = .ok (seen', pending') →
      ∀ id ∈ seen', id ∈ seen ∨ ∃ i ∈ code, i.callee? = some id
  | [], seen, seen', pending, pending', h => by
      obtain ⟨rfl, -⟩ := Prod.mk.inj (Except.ok.inj h)
      exact fun _ => .inl
  | i :: rest, seen, seen', pending, pending', h => by
      have hrest : ∀ {id : Nat}, (∃ j ∈ rest, j.callee? = some id) →
          ∃ j ∈ i :: rest, j.callee? = some id := by
        rintro id ⟨j, hj, hid⟩
        exact ⟨j, .tail _ hj, hid⟩
      rw [visit] at h
      cases hcallee : i.callee? with
      | none =>
          rw [hcallee] at h
          exact fun id hid => (called_of_visit h id hid).imp_right hrest
      | some callee =>
          simp only [hcallee] at h
          split at h
          · exact fun id hid => (called_of_visit h id hid).imp_right hrest
          · split at h
            · intro id hid
              rcases called_of_visit h id hid with hseen | hcalled
              · rcases List.mem_cons.mp hseen with rfl | hseen
                · exact .inr ⟨i, List.mem_cons_self, hcallee⟩
                · exact .inl hseen
              · exact .inr (hrest hcalled)
            · cases h

theorem called_of_explore : ∀ {fuel : Nat} {seen seen' : List Nat} {pending : List FunctionSymbol},
    explore symbols records fuel seen pending = .ok seen' →
      ∀ id ∈ seen', id ∈ seen ∨ ∃ i ∈ records.toList, i.callee? = some id
  | 0, seen, seen', pending, h => by
      obtain rfl := Except.ok.inj h
      exact fun _ => .inl
  | _ + 1, seen, seen', [], h => by
      obtain rfl := Except.ok.inj h
      exact fun _ => .inl
  | fuel + 1, seen, seen', f :: pending, h => by
      obtain ⟨b, hb, h⟩ := except_bind_eq_ok.mp h
      obtain ⟨code, hcode, h⟩ := except_bind_eq_ok.mp h
      obtain ⟨⟨seen'', pending'⟩, hvisit, hrest⟩ := except_bind_eq_ok.mp h
      obtain ⟨-, rfl⟩ := codeOf_eq_ok.mp hcode
      intro id hid
      rcases called_of_explore hrest id hid with hseen | hcalled
      · rcases called_of_visit hvisit id hseen with hseen | ⟨i, hi, hcallee⟩
        · exact .inl hseen
        · exact .inr ⟨i, FunctionBody.mem_of_mem_code hi, hcallee⟩
      · exact .inr hcalled

namespace Planned

theorem exists_others (h : Planned symbols records entry placed) :
    ∃ others, placed.map Placed.symbol = (loaderOf? symbols).toList ++ entry :: others ∧
      LaidOut records.toList (endOf headerSize (startCode symbols entry)) placed ∧
      ∀ f ∈ others, f ∈ symbols.functions ∧ f.id ≠ entry.id ∧
        ∃ i ∈ records.toList, i.callee? = some f.id := by
  obtain ⟨reached, hreached, hplaced⟩ := h.placed
  obtain ⟨seen, hseen, hreached⟩ := except_bind_eq_ok.mp hreached
  obtain rfl := Except.ok.inj hreached
  obtain ⟨hsymbols, hlaid⟩ := layOut_eq_ok.mp hplaced
  refine ⟨_, hsymbols, hlaid, ?_⟩
  intro f hf
  obtain ⟨hmem, hkept⟩ := List.mem_filter.mp hf
  obtain ⟨hne, hid⟩ := of_decide_eq_true hkept
  rcases called_of_explore hseen f.id hid with hentry | hcalled
  · exact absurd (List.mem_singleton.mp hentry) hne
  · exact ⟨hmem, hne, hcalled⟩

theorem laidOut (h : Planned symbols records entry placed) :
    LaidOut records.toList (endOf headerSize (startCode symbols entry)) placed := by
  obtain ⟨_, _, hlaid, _⟩ := h.exists_others
  exact hlaid

/-- What the start calls has a place. -/
theorem called_placed (h : Planned symbols records entry placed) :
    ((loaderOf? symbols).getD entry).id ∈ placed.map (·.symbol.id) := by
  obtain ⟨others, hsymbols, -, -⟩ := h.exists_others
  have hmem : (loaderOf? symbols).getD entry ∈ placed.map Placed.symbol := by
    rw [hsymbols]
    cases loaderOf? symbols with
    | none | some _ => exact List.mem_cons_self
  obtain ⟨p, hp, hsymbol⟩ := List.mem_map.mp hmem
  exact List.mem_map.mpr ⟨p, hp, congrArg FunctionSymbol.id hsymbol⟩

/-- If no instruction calls the loader, it has a place only before the others. -/
theorem tail_unloaded (h : Planned symbols records entry placed)
    (hloader : LoaderUncalled symbols records) :
    ∀ p ∈ placed.tail, p.symbol.name ≠ globalsLoader := by
  obtain ⟨others, hsymbols, -, hothers⟩ := h.exists_others
  have hnames : ∀ f ∈ entry :: others, f.name ≠ globalsLoader := by
    refine List.forall_mem_cons.mpr ⟨name_ne_of_entryPoint h.begins, ?_⟩
    intro f hf hname
    obtain ⟨hmem, -, i, hi, hcallee⟩ := hothers f hf
    exact hloader i hi f hmem hname hcallee
  refine Program.tail_unloaded hsymbols ?_
  intro f hf
  cases hload : loaderOf? symbols with
  | none =>
      rw [hload] at hf
      exact hnames f (List.mem_of_mem_tail hf)
  | some loader =>
      rw [hload] at hf
      exact hnames f hf

theorem plannedSize_eq (h : Planned symbols records entry placed) :
    plannedSize symbols entry placed
      = headerSize + codeSize (startCode symbols entry ++ allCode placed) := by
  rw [plannedSize, offsetBehind_eq h.laidOut, endOf, codeSize_append, Nat.add_assoc]

end Planned

/-! ## Operands -/

/-- Every operand that leads somewhere has a number. -/
theorem Resolvable.exists_resolve {records : List Instruction} {at_ : Nat}
    (h : Resolvable placed) (hlaid : LaidOut records at_ placed) (globals : Nat) :
    ∀ p ∈ placed, ∀ i ∈ p.code, ∀ n, ∃ v, resolve globals placed p n i.operand = .ok v := by
  intro p hp i hi n
  have hleads := h p hp i hi
  cases hoperand : i.operand with
  | label l =>
      rw [hoperand, leads] at hleads
      obtain ⟨first, hat, -⟩ := hlaid.of_mem hp
      cases hlabel : p.body.labels[l]?.join with
      | none =>
          rw [hlabel] at hleads
          cases hleads
      | some m =>
          rw [hlabel] at hleads
          have hm : m ≤ p.code.length := of_decide_eq_true hleads
          refine ⟨distance n (first + codeSize (p.code.take m)), ?_⟩
          rw [resolve, jumpDistance, hlabel, hat.offsets, Option.bind_some, getElem?_place first hm]
  | call id =>
      rw [hoperand] at hleads
      obtain ⟨q, hq, hid⟩ := List.any_eq_true.mp hleads
      exact exists_callDistance hlaid (List.mem_map.mpr ⟨q, hq, of_decide_eq_true hid⟩)
  | none | int _ | float _ | str _ | object _ | stack _ _ | offset _ | global _ => exact ⟨_, rfl⟩

/-! ## What the second pass writes -/

/-- Both passes count the same bytes. -/
theorem fileSize_eq_plannedSize {globals : Nat} {start : List (Instruction × Int32)}
    {rcs : List (List (Instruction × Int32))} (h : Planned symbols records entry placed)
    (hstart : resolveAll (startNumber placed) headerSize (startCode symbols entry) = .ok start)
    (hrcs : resolveFunctions globals placed placed = .ok rcs) (tables : OutputTables) :
    fileSize (encodeAll start) (addSections tables.reset (placed.zip rcs))
      = plannedSize symbols entry placed := by
  have hsnd : (placed.zip rcs).map Prod.snd = rcs :=
    List.map_snd_zip (Nat.le_of_eq (length_resolveFunctions hrcs))
  have hflat : (placed.zip rcs).flatMap Prod.snd = rcs.flatten := by
    rw [List.flatMap_def, hsnd]
  have hlength := length_addSections tables.reset (placed.zip rcs)
  rw [hflat] at hlength
  have hcode := congrArg codeSize (map_fst_script h.laidOut hstart hrcs)
  rw [List.map_append, codeSize_append] at hcode
  have hempty : tables.reset.globals.length + tables.reset.functions.length = 0 := rfl
  rw [hempty] at hlength
  rw [fileSize, h.plannedSize_eq, ← hcode, length_encodeAll]
  omega

/-- Behind what lies before the first of them, every function lies where the layout says. -/
theorem code_of_laidOut {globals : Nat} {records : List Instruction} :
    ∀ {l : List Placed} {rcs : List (List (Instruction × Int32))} (front : Bytes),
      LaidOut records front.length l → resolveFunctions globals placed l = .ok rcs →
      ∀ p ∈ l, ∃ rc,
        resolveAll (resolve globals placed p) (layoutOf p).offset (p.body.code records) = .ok rc ∧
        ((front ++ encodeAll rcs.flatten).drop (layoutOf p).offset).take (layoutOf p).length
          = encodeAll rc
  | [], _, _, _, _ => List.forall_mem_nil _
  | q :: rest, rcs, front, hlaid, h => by
      obtain ⟨rc, hrc, h⟩ := except_bind_eq_ok.mp h
      obtain ⟨after, hafter, h⟩ := except_bind_eq_ok.mp h
      obtain rfl := Except.ok.inj h
      have hsize : (encodeAll rc).length = codeSize q.code := by
        rw [length_encodeAll, (resolveAll_eq_ok hrc).1]
      rw [List.flatten_cons, encodeAll_append, ← List.append_assoc]
      refine List.forall_mem_cons.mpr ⟨⟨rc, ?_, ?_⟩, ?_⟩
      · rw [hlaid.1.offsets, headD_place] at hrc
        rw [layoutOf_eq hlaid.1, ← hlaid.1.code]
        exact hrc
      · rw [layoutOf_eq hlaid.1, ← hsize, List.append_assoc, List.drop_left, List.take_left]
      · refine code_of_laidOut (front ++ encodeAll rc) ?_ hafter
        rw [List.length_append, hsize]
        exact hlaid.2

/-- Whatever a table holds and whatever the instructions are, if the layout of its program comes to
an end and every label and every call leads somewhere, the script is what the layout says.  It takes
no more than the window, or the memory, that its size needs: growing the window once is the only
step that can be refused. -/
theorem assemble_foretold {i : Instance} {tables : OutputTables} {capacity : Nat}
    (htables : i.tables = some tables) (houtput : i.output = some ⟨[], capacity⟩)
    (hplan : Planned symbols (i.buffer.getD .empty).records entry placed)
    (hresolvable : Resolvable placed) :
    (HasRoom capacity (plannedSize symbols entry placed) →
      ∃ artifact i', assemble symbols i = .ok artifact i' ∧
        Foretold symbols (i.buffer.getD .empty).records entry placed artifact) ∧
    (¬ HasRoom capacity (plannedSize symbols entry placed) →
      ∃ i', assemble symbols i
        = .error (Window.tooSmall (max regionSize (plannedSize symbols entry placed))) i') := by
  obtain ⟨reached, hreached, hplaced⟩ := hplan.placed
  obtain ⟨start, hstart⟩ := exists_start hplan.laidOut hplan.called_placed
  obtain ⟨rcs, hrcs⟩ := exists_resolveFunctions
    (hresolvable.exists_resolve hplan.laidOut symbols.globals.length)
  have hsize := fileSize_eq_plannedSize hplan hstart hrcs tables
  obtain ⟨i', hassemble⟩ :=
    assemble_of_resolved htables houtput hplan.begins hreached hplaced hstart hrcs
  rw [← hsize]
  constructor
  · intro hroom
    obtain ⟨filled, hfill, hbytes⟩ := fill_of_room hroom
    rw [hfill] at hassemble
    refine ⟨_, i', hassemble, ?_, ?_, rfl, ?_⟩
    · show filled.bytes.length = _
      rw [← hsize, hbytes, fileSize]
      simp only [List.length_append]
      rfl
    · show Listing.sizeField filled.bytes = _
      rw [hbytes, sizeField_fileHeader_mod, hsize]
    · intro hloader
      have htail := hplan.tail_unloaded hloader
      have hlast : (fileHeader (fileSize (encodeAll start)
          (addSections tables.reset (placed.zip rcs))) ++ encodeAll start).length
            = endOf headerSize (startCode symbols entry) := by
        rw [List.length_append, length_encodeAll, (resolveAll_eq_ok hstart).1]
        rfl
      show ∀ p ∈ placed, ∃ rc, _ ∧ (filled.bytes.drop _).take _ = _
      rw [hbytes, List.append_assoc, sections_resolveFunctions hrcs htail tables,
        ← List.append_assoc]
      exact code_of_laidOut _ (hlast ▸ hplan.laidOut) hrcs
  · intro hroom
    rw [fill_of_not_room hroom] at hassemble
    exact ⟨i', hassemble⟩

/-! ### Bodies that overlap -/

/-- A table in which the body of one function is the end of that of another one. -/
def overlapTable : Symbols :=
  ⟨[⟨0, "main", .void, [], "Main", some ⟨0, 3, [some 3]⟩⟩,
    ⟨1, "Tail", .int, [], "Main", some ⟨1, 2, [some 0]⟩⟩], []⟩

/-- Instructions with operands that their operations do not take. -/
def oddRecords : Array Instruction :=
  #[⟨.jsr, .call 1⟩, ⟨.add .intInt, .str "é"⟩, ⟨.const .void, .label 0⟩]

/-- The layout of the two functions. -/
def overlapPlaced : List Placed :=
  [⟨⟨0, "main", .void, [], "Main", some ⟨0, 3, [some 3]⟩⟩, ⟨0, 3, [some 3]⟩,
      oddRecords.toList, [21, 27, 33, 39]⟩,
    ⟨⟨1, "Tail", .int, [], "Main", some ⟨1, 2, [some 0]⟩⟩, ⟨1, 2, [some 0]⟩,
      oddRecords.toList.drop 1, [39, 45, 51]⟩]

/-- Each of the two bodies is encoded, and the script has as many bytes as the layout says. -/
theorem assemble_foretold_overlap :
    ∃ artifact i', assemble overlapTable
        { (default : Instance) with
          output := some ⟨[], 0⟩, buffer := some ⟨oddRecords, 4, true⟩, tables := some (.ofFlags 0) }
        = .ok artifact i' ∧
      artifact.bytes.length = 51 ∧
      artifact.layout = [⟨"main", 21, 18⟩, ⟨"Tail", 39, 12⟩] ∧
      (artifact.bytes.drop 39).take 12
        = [0x14, 0x20, 0, 2, 0xC3, 0xA9, 0x04, 0, 0xFF, 0xFF, 0xFF, 0xFA] := by
  have hplan : Planned overlapTable oddRecords
      ⟨0, "main", .void, [], "Main", some ⟨0, 3, [some 3]⟩⟩ overlapPlaced :=
    ⟨rfl, _, rfl, rfl⟩
  have hresolvable : Resolvable overlapPlaced := by
    show ∀ p ∈ _, ∀ i ∈ _, _
    decide
  have hloader : LoaderUncalled overlapTable oddRecords := by
    show ∀ i ∈ _, ∀ f ∈ _, _
    decide
  obtain ⟨artifact, i', hassemble, hforetold⟩ := (assemble_foretold (i := { (default : Instance) with
      output := some ⟨[], 0⟩, buffer := some ⟨oddRecords, 4, true⟩, tables := some (.ofFlags 0) })
    rfl rfl hplan hresolvable).1 (.inr (by decide))
  obtain ⟨rc, hrc, hcode⟩ := hforetold.code hloader _ (.tail _ List.mem_cons_self)
  obtain rfl := Except.ok.inj hrc
  exact ⟨artifact, i', hassemble, hforetold.length, hforetold.layout, hcode⟩

end Program

end Nss
