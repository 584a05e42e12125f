/-
# Compiled scripts that are read back

A compiled script is read back as its start and its functions, one behind the other, each with the
instructions in the window of its body.  `ReadBack.Of` says what becomes of their operands: a jump
leads to the instruction that its label stands before, a call to the place of the function in the
layout, a global variable lies at its distance from the base pointer, and everything else is what it
was.  The two passes of an assembly and the reader count offsets apart from each other; that they
agree is what `assemble_readsBack` comes down to.
-/
import Nss.Proofs.Program.Linking
import Nss.Proofs.Program.Reachable
import Nss.Proofs.Bytecode.Reading
import Nss.Proofs.Unit.Root
import Mathlib.Data.List.Nodup

namespace Nss

open Steps Listing

/-! ## What is read back -/

/-- The operand that is read back for one that is not symbolic. -/
def Operand.plain? : Operand → Option DecodedOperand
  | .none => some .none
  | .int v | .object v | .offset v => some (.int v)
  | .float v => some (.float v)
  | .str text => some (.str text)
  | .stack distance size => some (.stack distance size)
  | .label _ | .call _ | .global _ => Option.none

/-- A function in a compiled script: where it lies, and the instructions that are read there. -/
structure Section where
  symbol : FunctionSymbol
  body : FunctionBody
  layout : FunctionLayout
  listing : List Decoded

/-- `d` is read back for the instruction `i` of the function `s`, among all functions of a script. -/
structure Section.Reads (globals : Nat) (sections : List Section) (s : Section) (i : Instruction)
    (d : Decoded) : Prop where
  op : d.op = i.op
  plain : ∀ x, i.operand.plain? = some x → d.operand = x
  jump : ∀ l, i.operand = .label l → ∃ n e, s.body.labels[l]? = some (some n) ∧
    s.listing[n]? = some e ∧ d.target? = some e.offset
  call : ∀ id, i.operand = .call id → ∃ callee ∈ sections, callee.symbol.id = id ∧
    d.target? = some callee.layout.offset
  global : ∀ slot, i.operand = .global slot → ∃ offset, d.operand = .stack offset 4 ∧
    offset = Int32.ofInt (-4 * ((globals : Int) - slot)) ∧
    (slot ≤ globals → globals ≤ 2 ^ 29 → offset.toInt = -4 * ((globals : Int) - slot))

/-- All instructions of a function are read back, each behind those before it. -/
structure Section.Of (globals : Nat) (records : List Instruction) (sections : List Section)
    (s : Section) : Prop where
  body : s.symbol.body = some s.body
  inside : s.body.start + s.body.length ≤ records.length
  name : s.layout.name = s.symbol.name
  size : s.layout.length = codeSize (s.body.code records)
  length : s.listing.length = s.body.length
  reads : ∀ n i, (s.body.code records)[n]? = some i → ∃ d, s.listing[n]? = some d ∧
    d.offset = s.layout.offset + codeSize ((s.body.code records).take n) ∧
    s.Reads globals sections i d

/-- A compiled script: the function that it begins with, the others that the program is made of, the
call in the start, and where the functions lie. -/
structure ReadBack where
  entry : FunctionSymbol
  others : List FunctionSymbol
  call : Decoded
  sections : List Section

namespace ReadBack

/-- The start: a cell for an integer result, the call, and the end. -/
def start (r : ReadBack) : List Decoded :=
  (if r.entry.result = .int then [⟨headerSize, .rsAdd .int, .none⟩] else [])
    ++ [r.call, ⟨r.call.offset + 6, .retn, .none⟩]

/-- All instructions of a script. -/
def listing (r : ReadBack) : List Decoded := r.start ++ r.sections.flatMap Section.listing

/-- An artifact is what became of a program. -/
structure Of (symbols : Symbols) (records : List Instruction) (artifact : Artifact)
    (r : ReadBack) : Prop where
  entry : symbols.entryPoint = .ok r.entry
  loader : symbols.globals ≠ [] → ∃ loader, symbols.lookup? globalsLoader = some loader ∧
    Program.loaderOf? symbols = some loader
  order : r.sections.map Section.symbol
    = (Program.loaderOf? symbols).toList ++ r.entry :: r.others
  declared : r.others.Sublist symbols.functions
  distinct : (r.sections.map fun s => s.symbol.id).Nodup
  size : sizeField artifact.bytes = artifact.bytes.length
  reads : ofFile artifact.bytes = .ok r.listing
  begins : r.call.offset = headerSize + if r.entry.result = .int then 2 else 0
  calls : r.call.op = .jsr ∧ ∃ s ∈ r.sections,
    s.symbol = (Program.loaderOf? symbols).getD r.entry ∧ r.call.target? = some s.layout.offset
  functions : ∀ s ∈ r.sections, s.Of symbols.globals.length records r.sections
  layout : artifact.layout = r.sections.map Section.layout
  contiguous : Program.Contiguous (r.call.offset + 8) artifact.layout artifact.bytes.length

end ReadBack

namespace Program

/-! ## Distances -/

/-- A distance leads back to where it was taken to, as long as no offset is too great. -/
theorem target?_distance {op : Op} {at_ target : Nat} (hop : op.isJump = true)
    (hat : at_ < 2 ^ 31) (htarget : target < 2 ^ 31) :
    Decoded.target? ⟨at_, op, .int (distance at_ target)⟩ = some target := by
  have hdistance : (distance at_ target).toInt = (target : Int) - at_ := by
    refine Int32.toInt_ofInt_of_le ?_ ?_
    · show -2147483648 ≤ _
      omega
    · show _ < 2147483648
      omega
  have hsum : (at_ : Int) + ((target : Int) - at_) = target := by omega
  show (if op.isJump then ((at_ : Int) + (distance at_ target).toInt).toNat? else none) = _
  rw [if_pos hop, hdistance, hsum]
  rfl

theorem callDistance_eq_ok {placed : List Placed} {at_ id : Nat} {v : Int32} :
    callDistance placed at_ id = .ok v ↔
      ∃ target, entryOffset? placed id = some target ∧ v = distance at_ target := by
  rw [callDistance]
  cases entryOffset? placed id with
  | none => simp
  | some target => simp [eq_comm]

theorem label?_eq_some {i : Instruction} {l : Nat} (hi : i.WellFormed)
    (h : i.operand = .label l) : i.label? = some l ∧ i.op.isJump = true := by
  cases hi with
  | jump _ | jumpIfZero _ =>
      obtain rfl := Operand.label.inj h
      exact ⟨rfl, rfl⟩
  | _ => cases h

theorem isJump_of_call {i : Instruction} {id : Nat} (hi : i.WellFormed)
    (h : i.operand = .call id) : i.op.isJump = true := by
  cases hi with
  | call _ => rfl
  | _ => cases h

/-- A jump goes to the instruction that its label stands before. -/
theorem jumpDistance_eq {records : List Instruction} {first l : Nat} {p : Placed}
    (hat : p.At records first) (hsound : p.body.Sound records) {i : Instruction}
    (hi : i ∈ p.code) (hwell : i.WellFormed) (hl : i.operand = .label l) :
    ∃ m, p.body.labels[l]? = some (some m) ∧ m < p.code.length ∧
      ∀ n, jumpDistance p n l = .ok (distance n (first + codeSize (p.code.take m))) := by
  rw [hat.code] at hi
  obtain ⟨m, hm, hlt⟩ := hsound.target i hi l (label?_eq_some hwell hl).1
  have hlength : p.code.length = p.body.length := by
    rw [hat.code, FunctionBody.length_code hat.inside]
  rw [← hlength] at hlt
  have hoffset : p.offsets[m]? = some (first + codeSize (p.code.take m)) := by
    rw [hat.offsets]
    exact getElem?_place first (Nat.le_of_lt hlt)
  refine ⟨m, hm, hlt, ?_⟩
  intro n
  rw [jumpDistance, hm]
  simp only [Option.join_some, Option.bind_some, hoffset]

/-- The distance to a global variable. -/
theorem globalOffset_eq (globals slot : Nat) :
    globalOffset globals slot = Int32.ofInt (-4 * ((globals : Int) - slot)) ∧
      (slot ≤ globals → globals ≤ 2 ^ 29 →
        (globalOffset globals slot).toInt = -4 * ((globals : Int) - slot)) := by
  have hcells : globalOffset globals slot = Int32.ofInt (-4 * ((globals : Int) - slot)) := by
    rw [globalOffset, Instruction.cells]
    refine congrArg Int32.ofInt ?_
    show (4 : Int) * _ = _
    omega
  refine ⟨hcells, ?_⟩
  intro hslot hglobals
  rw [hcells]
  refine Int32.toInt_ofInt_of_le ?_ ?_
  · show -2147483648 ≤ _
    omega
  · show _ < 2147483648
    omega

/-! ## One function -/

/-- What is read back for instructions whose operands have numbers: each with the number that was
found for its operand at its offset. -/
theorem resolveAll_eq_ok {number : Nat → Operand → Except Error Int32} :
    ∀ {code : List Instruction} {at_ : Nat} {rc : List (Instruction × Int32)},
      resolveAll number at_ code = .ok rc →
        rc.map Prod.fst = code ∧
        ∀ n i, code[n]? = some i → ∃ v,
          number (at_ + codeSize (code.take n)) i.operand = .ok v ∧
          (decodedAll at_ rc)[n]? = some ⟨at_ + codeSize (code.take n), i.op, i.operand.decoded v⟩
  | [], at_, rc, h => by
      obtain rfl := Except.ok.inj h
      refine ⟨rfl, ?_⟩
      intro n i hi
      cases hi
  | j :: rest, at_, rc, h => by
      obtain ⟨v, hv, h⟩ := except_bind_eq_ok.mp h
      obtain ⟨after, hafter, h⟩ := except_bind_eq_ok.mp h
      obtain rfl := Except.ok.inj h
      obtain ⟨hmap, hreads⟩ := resolveAll_eq_ok hafter
      refine ⟨by rw [List.map_cons, hmap], ?_⟩
      intro n i hi
      cases n with
      | zero =>
          obtain rfl := Option.some.inj hi
          exact ⟨v, hv, rfl⟩
      | succ n =>
          obtain ⟨v', hv', hread⟩ := hreads n i hi
          have hsum : at_ + codeSize ((j :: rest).take (n + 1))
              = at_ + j.size + codeSize (rest.take n) := by
            rw [List.take_succ_cons, codeSize, Nat.add_assoc]
          rw [hsum]
          exact ⟨v', hv', hread⟩

/-- A placed function in a compiled script. -/
def sectionOf (p : Placed) (rc : List (Instruction × Int32)) : Section where
  symbol := p.symbol
  body := p.body
  layout := layoutOf p
  listing := decodedAll (p.offsets.headD 0) rc

/-- Functions one behind the other are read back one behind the other. -/
theorem exists_sections {globals : Nat} {placed : List Placed} {records : List Instruction} :
    ∀ {l : List Placed} {at_ : Nat} {rcs : List (List (Instruction × Int32))},
      LaidOut records at_ l → resolveFunctions globals placed l = .ok rcs →
      ∃ sections : List Section,
        sections.map (fun s => (s.symbol, s.layout)) = l.map (fun p => (p.symbol, layoutOf p)) ∧
        rcs.flatten.map Prod.fst = allCode l ∧
        decodedAll at_ rcs.flatten = sections.flatMap Section.listing ∧
        ∀ s ∈ sections, ∃ p ∈ l, ∃ rc,
          resolveAll (resolve globals placed p) (p.offsets.headD 0) p.code = .ok rc ∧
          s = sectionOf p rc
  | [], at_, rcs, _, h => by
      obtain rfl := Except.ok.inj h
      exact ⟨[], rfl, rfl, rfl, List.forall_mem_nil _⟩
  | p :: rest, at_, rcs, hlaid, h => by
      obtain ⟨rc, hrc, h⟩ := except_bind_eq_ok.mp h
      obtain ⟨after, hafter, h⟩ := except_bind_eq_ok.mp h
      obtain rfl := Except.ok.inj h
      obtain ⟨sections, hmap, hcode, hlisting, hsections⟩ := exists_sections hlaid.2 hafter
      have hfst := (resolveAll_eq_ok hrc).1
      have hfirst : p.offsets.headD 0 = at_ := by rw [hlaid.1.offsets, headD_place]
      refine ⟨sectionOf p rc :: sections, ?_, ?_, ?_, ?_⟩
      · rw [List.map_cons, List.map_cons, hmap]
        rfl
      · rw [List.flatten_cons, List.map_append, hfst, hcode]
        rfl
      · rw [List.flatten_cons, decodedAll_append, hfst, List.flatMap_cons, ← hlisting, sectionOf,
          hfirst]
        rfl
      · refine List.forall_mem_cons.mpr ⟨⟨p, List.mem_cons_self, rc, hrc, rfl⟩, ?_⟩
        intro s hs
        obtain ⟨q, hq, hread⟩ := hsections s hs
        exact ⟨q, .tail _ hq, hread⟩

section Sections

variable {globals at_ size : Nat} {placed : List Placed} {records : List Instruction}
  {sections : List Section}

/-- A function that is called is one of the functions of the script. -/
theorem exists_callee {id target : Nat} (hlaid : LaidOut records at_ placed)
    (hmap : sections.map (fun s => (s.symbol, s.layout))
      = placed.map (fun p => (p.symbol, layoutOf p)))
    (h : entryOffset? placed id = some target) :
    ∃ s ∈ sections, s.symbol.id = id ∧ s.layout.offset = target ∧
      target ≤ at_ + codeSize (allCode placed) := by
  obtain ⟨p, hp, hid, htarget⟩ := exists_of_entryOffset? h
  have hmem : (p.symbol, layoutOf p) ∈ sections.map (fun s => (s.symbol, s.layout)) := by
    rw [hmap]
    exact List.mem_map_of_mem hp
  obtain ⟨s, hs, heq⟩ := List.mem_map.mp hmem
  obtain ⟨hsymbol, hlayout⟩ := Prod.mk.inj heq
  obtain ⟨first, hfirst, hle⟩ := hlaid.of_mem hp
  rw [hfirst.offsets, head?_place] at htarget
  have hhead : first = target := Option.some.inj htarget
  refine ⟨s, hs, by rw [hsymbol, hid], ?_, ?_⟩
  · rw [hlayout, layoutOf_eq hfirst, hhead]
  · rw [endOf] at hle
    omega

/-- An operand that is not symbolic is read back as it is. -/
theorem decoded_of_plain? {o : Operand} {x : DecodedOperand} (h : o.plain? = some x) (v : Int32) :
    o.decoded v = x := by
  cases o with
  | label _ | call _ | global _ => cases h
  | none | int _ | float _ | str _ | object _ | stack _ _ | offset _ => exact Option.some.inj h

/-- A placed function is read back. -/
theorem sectionOf_of {symbols : Symbols} (hs : symbols.Backed records)
    (hlaid : LaidOut records at_ placed) (hsize : at_ + codeSize (allCode placed) < 2 ^ 31)
    (hmap : sections.map (fun s => (s.symbol, s.layout))
      = placed.map (fun p => (p.symbol, layoutOf p)))
    {p : Placed} (hp : p ∈ placed) (hmem : p.symbol ∈ symbols.functions)
    {rc : List (Instruction × Int32)}
    (hrc : resolveAll (resolve globals placed p) (p.offsets.headD 0) p.code = .ok rc) :
    (sectionOf p rc).Of globals records sections := by
  obtain ⟨first, hat, hend⟩ := hlaid.of_mem hp
  have hlayout := layoutOf_eq hat
  have hfirst : p.offsets.headD 0 = first := by rw [hat.offsets, headD_place]
  obtain ⟨hfst, hreads⟩ := resolveAll_eq_ok hrc
  have hlisting : (sectionOf p rc).listing = decodedAll first rc := congrArg (decodedAll · rc) hfirst
  -- no instruction lies behind the end of the script
  have hwithin : ∀ n, first + codeSize (p.code.take n) < 2 ^ 31 := by
    intro n
    have hle := codeSize_take_le p.code n
    rw [endOf] at hend
    omega
  rw [hfirst] at hreads
  refine ⟨hat.body, hat.inside, congrArg FunctionLayout.name hlayout, ?_, ?_, ?_⟩
  · show (layoutOf p).length = _
    rw [hlayout, hat.code]
    rfl
  · rw [hlisting, length_decodedAll, ← List.length_map Prod.fst, hfst, hat.code]
    exact FunctionBody.length_code hat.inside
  intro n i hi
  change (p.body.code records)[n]? = some i at hi
  show ∃ d : Decoded,
    _ ∧ d.offset = (layoutOf p).offset + codeSize ((p.body.code records).take n) ∧ _
  rw [← hat.code] at hi ⊢
  obtain ⟨v, hv, hread⟩ := hreads n i hi
  rw [← hlisting] at hread
  have hmemCode : i ∈ p.code := List.mem_of_getElem? hi
  have hwell := hs.wellFormed i (FunctionBody.mem_of_mem_code (hat.code ▸ hmemCode))
  refine ⟨_, hread, by rw [hlayout], rfl, fun x hx => decoded_of_plain? hx v, ?_, ?_, ?_⟩
  · intro l hl
    obtain ⟨m, hm, hlt, hjump⟩ :=
      jumpDistance_eq hat (hs.bodies p.symbol hmem p.body hat.body) hmemCode hwell hl
    obtain ⟨w, -, htarget⟩ := hreads m _ (List.getElem?_eq_getElem hlt)
    rw [← hlisting] at htarget
    refine ⟨m, _, hm, htarget, ?_⟩
    rw [hl, resolve, hjump] at hv
    obtain rfl := Except.ok.inj hv
    rw [hl]
    exact target?_distance (label?_eq_some hwell hl).2 (hwithin n) (hwithin m)
  · intro id hid
    rw [hid, resolve] at hv
    obtain ⟨target, htarget, rfl⟩ := callDistance_eq_ok.mp hv
    obtain ⟨s, hsmem, hsid, hsoffset, hle⟩ := exists_callee hlaid hmap htarget
    refine ⟨s, hsmem, hsid, ?_⟩
    rw [hsoffset, hid]
    exact target?_distance (isJump_of_call hwell hid) (hwithin n) (by omega)
  · intro slot hslot
    rw [hslot] at hv ⊢
    obtain rfl := Except.ok.inj hv
    exact ⟨_, rfl, globalOffset_eq globals slot⟩

end Sections

/-! ## The start -/

/-- The start is read back as a cell for an integer result, the call, and the end. -/
theorem start_eq {symbols : Symbols} {entry : FunctionSymbol} {placed : List Placed}
    {start : List (Instruction × Int32)} (hresult : entry.result = .void ∨ entry.result = .int)
    (h : resolveAll (startNumber placed) headerSize (startCode symbols entry) = .ok start) :
    ∃ at_ target, at_ = headerSize + (if entry.result = .int then 2 else 0) ∧
      endOf headerSize (startCode symbols entry) = at_ + 8 ∧
      entryOffset? placed ((loaderOf? symbols).getD entry).id = some target ∧
      decodedAll headerSize start
        = (if entry.result = .int then [⟨headerSize, .rsAdd .int, .none⟩] else [])
          ++ [⟨at_, .jsr, .int (distance at_ target)⟩, ⟨at_ + 6, .retn, .none⟩] := by
  have hcall : ∀ {at_ : Nat} {rc : List (Instruction × Int32)},
      resolveAll (startNumber placed) at_
        [.callTo ((loaderOf? symbols).getD entry).id, .ending] = .ok rc →
      ∃ target, entryOffset? placed ((loaderOf? symbols).getD entry).id = some target ∧
        decodedAll at_ rc
          = [⟨at_, .jsr, .int (distance at_ target)⟩, ⟨at_ + 6, .retn, .none⟩] := by
    intro at_ rc hrc
    obtain ⟨v, hv, hrc⟩ := except_bind_eq_ok.mp hrc
    obtain ⟨after, hafter, hrc⟩ := except_bind_eq_ok.mp hrc
    obtain rfl := Except.ok.inj hrc
    obtain rfl := Except.ok.inj hafter
    obtain ⟨target, htarget, rfl⟩ := callDistance_eq_ok.mp hv
    exact ⟨target, htarget, rfl⟩
  rw [startCode] at h ⊢
  rcases hresult with hvoid | hint
  · rw [hvoid] at h ⊢
    obtain ⟨target, htarget, hread⟩ := hcall h
    exact ⟨_, target, rfl, rfl, htarget, hread⟩
  · rw [hint] at h ⊢
    obtain ⟨v, -, h⟩ := except_bind_eq_ok.mp h
    obtain ⟨after, hafter, h⟩ := except_bind_eq_ok.mp h
    obtain rfl := Except.ok.inj h
    obtain ⟨target, htarget, hread⟩ := hcall hafter
    exact ⟨_, target, rfl, rfl, htarget, congrArg (_ :: ·) hread⟩

/-! ## The whole script -/

theorem startCode_wellFormed {symbols : Symbols} {entry : FunctionSymbol} :
    ∀ i ∈ startCode symbols entry, i.WellFormed := by
  rw [startCode]
  refine List.forall_mem_append.mpr ⟨?_, ?_⟩
  · split
    · exact List.forall_mem_nil _
    · next hvoid => exact List.forall_mem_singleton.mpr (.reserve (ValueType.isVoid_iff.not.mp hvoid))
  · exact List.forall_mem_cons.mpr ⟨.call _, List.forall_mem_singleton.mpr .ending⟩

/-- All instructions of placed functions can be read back. -/
theorem allCode_wellFormed {symbols : Symbols} {records : List Instruction} {at_ : Nat}
    {placed : List Placed} (hs : symbols.Backed records) (hlaid : LaidOut records at_ placed) :
    ∀ i ∈ allCode placed, i.WellFormed := by
  intro i hi
  obtain ⟨p, hp, hip⟩ := List.mem_flatMap.mp hi
  obtain ⟨first, hfirst, -⟩ := hlaid.of_mem hp
  rw [hfirst.code] at hip
  exact hs.wellFormed i (FunctionBody.mem_of_mem_code hip)

/-- If there are global variables, the start calls their loader. -/
theorem exists_loaderOf? {symbols : Symbols} {records : List Instruction}
    (hs : symbols.Linkable records) (hglobals : symbols.globals ≠ []) :
    ∃ loader, symbols.lookup? globalsLoader = some loader ∧
      loaderOf? symbols = some loader := by
  obtain ⟨loader, b, hlookup, -⟩ := hs.loader hglobals
  refine ⟨loader, hlookup, ?_⟩
  rw [loaderOf?, if_neg (mt List.isEmpty_iff.mp hglobals), hlookup]

/-- Only the first of the functions that are placed can be the loader. -/
theorem tail_unloaded {placed : List Placed} {fs : List FunctionSymbol}
    (hsymbols : placed.map Placed.symbol = fs) (hnames : ∀ f ∈ fs.tail, f.name ≠ globalsLoader) :
    ∀ p ∈ placed.tail, p.symbol.name ≠ globalsLoader := by
  intro p hp
  refine hnames _ ?_
  rw [← hsymbols, ← List.map_tail]
  exact List.mem_map_of_mem hp

/-- The instructions of a script are those of its start and those of its functions. -/
theorem map_fst_script {symbols : Symbols} {entry : FunctionSymbol} {records : List Instruction}
    {globals at_ : Nat} {placed : List Placed} {start : List (Instruction × Int32)}
    {rcs : List (List (Instruction × Int32))} (hlaid : LaidOut records at_ placed)
    (hstart : resolveAll (startNumber placed) headerSize (startCode symbols entry) = .ok start)
    (hrcs : resolveFunctions globals placed placed = .ok rcs) :
    (start ++ rcs.flatten).map Prod.fst = startCode symbols entry ++ allCode placed := by
  obtain ⟨-, -, hcode, -⟩ := exists_sections hlaid hrcs
  rw [List.map_append, (resolveAll_eq_ok hstart).1, hcode]

/-- The functions that are placed are those of the table, and the one that the start calls is among
them. -/
theorem mem_functions_of_placed {symbols : Symbols} (hs : symbols.Numbered)
    {entry : FunctionSymbol} (hentry : symbols.function? entry.id = some entry)
    {others : List FunctionSymbol} (hsublist : others.Sublist symbols.functions) :
    (∀ f ∈ (loaderOf? symbols).toList ++ entry :: others, f ∈ symbols.functions) ∧
      (loaderOf? symbols).getD entry ∈ (loaderOf? symbols).toList ++ entry :: others := by
  refine ⟨List.forall_mem_append.mpr ⟨?_, ?_⟩, ?_⟩
  · intro f hf
    exact List.mem_of_getElem? (loaderOf?_eq_some hs (Option.mem_toList.mp hf)).1
  · exact List.forall_mem_cons.mpr ⟨List.mem_of_getElem? hentry, fun f hf => hsublist.subset hf⟩
  · cases hloader : loaderOf? symbols with
    | none => exact List.mem_cons_self
    | some loader => exact List.mem_cons_self

/-- A script that was put together is read back as the program that it was made of. -/
theorem assemble_readsBack {symbols : Symbols} {i i' : Instance} {artifact : Artifact}
    (h : FromScript symbols i) (hok : assemble symbols i = .ok artifact i')
    (hsize : artifact.bytes.length < 2 ^ 31) :
    ∃ r : ReadBack, r.Of symbols i.records artifact := by
  obtain ⟨hs, htables, capacity, houtput⟩ := h.linkable
  obtain ⟨tables, htables⟩ := Option.isSome_iff_exists.mp htables
  obtain @⟨entry, reached, placed, start, rcs, filled, hentry, hreached, hplaced, hstart, hrcs,
    hfilled, rfl⟩ := links_of_assemble htables houtput hok
  change filled.bytes.length < 2 ^ 31 at hsize
  obtain ⟨hfun, -, hresult⟩ := entryPoint_eq_ok hs.toNumbered hentry
  obtain ⟨others, rfl, hsublist, hothers, -⟩ := reachable_eq_ok hs.toNumbered hfun hreached
  obtain ⟨hsymbols, hlaid⟩ := layOut_eq_ok.mp hplaced
  obtain ⟨hnames, hnodup⟩ := placed_functions hs hentry hsublist
    fun f hf => ((hothers f).mp hf).2
  have htail := tail_unloaded hsymbols hnames
  obtain ⟨sections, hmap, -, hlisting, hsections⟩ := exists_sections hlaid hrcs
  obtain ⟨at_, target, hat, hend, htarget, hread⟩ := start_eq hresult hstart
  have hfst := map_fst_script hlaid hstart hrcs
  have hsum : at_ + 8 + codeSize (allCode placed)
      = headerSize + codeSize ((start ++ rcs.flatten).map Prod.fst) := by
    rw [hfst, codeSize_append, ← hend, endOf, Nat.add_assoc]
  obtain ⟨hbytes, hlength⟩ :=
    bytes_of_fill (sections_resolveFunctions hrcs htail tables) hsum hfilled
  rw [hlength] at hsize
  have hwell : ∀ p ∈ start ++ rcs.flatten, p.1.WellFormed := by
    intro p hp
    have hmem := List.mem_map_of_mem (f := Prod.fst) hp
    rw [hfst] at hmem
    exact List.forall_mem_append.mpr
      ⟨startCode_wellFormed, allCode_wellFormed hs.toBacked hlaid⟩ p.1 hmem
  have hsmall : at_ + 8 + codeSize (allCode placed) < 2 ^ 32 := Nat.lt_trans hsize (by decide)
  have hfile := ofFile_encodeAll hwell hsmall hsum.symm
  rw [decodedAll_append, (resolveAll_eq_ok hstart).1, hread, ← hbytes] at hfile
  change _ = Except.ok (_ ++ decodedAll (endOf headerSize (startCode symbols entry)) _) at hfile
  rw [hlisting] at hfile
  rw [hend] at hlaid
  have hsymbolsOf : sections.map Section.symbol = placed.map Placed.symbol := by
    have hproj := congrArg (List.map Prod.fst) hmap
    rwa [List.map_map, List.map_map] at hproj
  have hlayouts : sections.map Section.layout = placed.map layoutOf := by
    have hproj := congrArg (List.map Prod.snd) hmap
    rwa [List.map_map, List.map_map] at hproj
  have horder := hsymbolsOf.trans hsymbols
  have hids : sections.map (fun s => s.symbol.id)
      = (sections.map Section.symbol).map FunctionSymbol.id := by
    rw [List.map_map]
    rfl
  obtain ⟨hmemFunctions, hmemCalled⟩ :=
    mem_functions_of_placed hs.toNumbered hfun hsublist
  rw [← horder] at hmemFunctions hmemCalled hnodup
  refine ⟨⟨entry, others, ⟨at_, .jsr, .int (distance at_ target)⟩, sections⟩, hentry,
    exists_loaderOf? hs, horder, hsublist, ?_, ?_, hfile, hat, ⟨rfl, ?_⟩, ?_,
    hlayouts.symm, ?_⟩
  · show (sections.map fun s => s.symbol.id).Nodup
    rw [hids]
    exact hnodup
  · show sizeField filled.bytes = filled.bytes.length
    rw [hlength, hbytes]
    exact sizeField_fileHeader hsmall _
  · obtain ⟨s, hmem, hid, hoffset, hle⟩ := exists_callee hlaid hmap htarget
    refine ⟨s, hmem, ?_, ?_⟩
    · exact List.inj_on_of_nodup_map hnodup (List.mem_map_of_mem hmem) hmemCalled hid
    · rw [hoffset]
      exact target?_distance rfl (by omega) (by omega)
  · intro s hmem
    have hfunction := hmemFunctions s.symbol (List.mem_map_of_mem hmem)
    obtain ⟨p, hp, rc, hrc, rfl⟩ := hsections s hmem
    exact sectionOf_of hs.toBacked hlaid hsize hmap hp hfunction hrc
  · show Contiguous (at_ + 8) (placed.map layoutOf) filled.bytes.length
    rw [hlength]
    exact hlaid.contiguous

/-! ### A loop over a global variable -/

/-- A script with a global variable, a call and a loop. -/
def doubling : String :=
  "int n = 3; int Twice(int x) { return x + x; } void main() { while (n < 9) n = Twice(n); }"

/-- How putting a program together ends. -/
def outcome (symbols : Symbols) (i : Instance) : Except Error Artifact :=
  match assemble symbols i with
  | .ok artifact _ => .ok artifact
  | .error e _ => .error e

theorem exists_of_outcome_eq_ok {symbols : Symbols} {i : Instance} {artifact : Artifact}
    (h : outcome symbols i = .ok artifact) : ∃ i', assemble symbols i = .ok artifact i' := by
  rw [outcome] at h
  split at h
  · next artifact' i' hok =>
      obtain rfl := Except.ok.inj h
      exact ⟨i', hok⟩
  · cases h

theorem exists_of_outcome_eq_error {symbols : Symbols} {i : Instance} {e : Error}
    (h : outcome symbols i = .error e) : ∃ i', assemble symbols i = .error e i' := by
  rw [outcome] at h
  split at h
  · cases h
  · next e' i' herror =>
      obtain rfl := Except.error.inj h
      exact ⟨i', herror⟩

theorem assemble_readsBack_doubling :
    FromScript (emitText doubling).symbols (emitText doubling).unit ∧
      ∃ artifact i', assemble (emitText doubling).symbols (emitText doubling).unit
          = .ok artifact i' ∧ artifact.bytes.length < 2 ^ 31 ∧
        ∃ r : ReadBack, r.Of (emitText doubling).symbols (emitText doubling).unit.records artifact := by
  have hscript := FromScript.ofText doubling (by decide +kernel)
  have hfits : ((outcome (emitText doubling).symbols (emitText doubling).unit).toOption.any
      fun artifact => artifact.bytes.length < 2 ^ 31) = true := by decide +kernel
  cases houtcome : outcome (emitText doubling).symbols (emitText doubling).unit with
  | error e =>
      rw [houtcome] at hfits
      cases hfits
  | ok artifact =>
      rw [houtcome] at hfits
      obtain ⟨i', hok⟩ := exists_of_outcome_eq_ok houtcome
      have hsize := of_decide_eq_true hfits
      exact ⟨hscript, artifact, i', hok, hsize, assemble_readsBack hscript hok hsize⟩

end Program

end Nss
