/-
# Programs that can be put together

The start of a script enters the loader of the global variables, if there are any, and that calls the
function that the script begins with.  What is placed, though, are the functions that can be reached
from the latter.  A function that only the first values of global variables call has no place, and so
the loader cannot be encoded.  `assemble_exists_iff` says that nothing else keeps a script without
errors, all of whose functions have bodies, from being put together.
-/
import Nss.Proofs.Program.ReadBack
import Mathlib.Algebra.Order.BigOperators.Group.List
import Mathlib.Algebra.Order.Group.Nat
import Mathlib.Algebra.Ring.Nat
import Mathlib.Data.List.Perm.Subperm

namespace Nss

open Steps Listing

namespace Program

variable {symbols : Symbols} {records : List Instruction} {entry : FunctionSymbol}

/-! ## What a script comes to -/

/-- The functions that a script can come to from its start: it enters the loader, if there are global
variables, and the function that it begins with. -/
inductive Entered (symbols : Symbols) (records : List Instruction) (entry : FunctionSymbol)
    (id : Nat) : Prop
  | loader {loader : FunctionSymbol} :
      loaderOf? symbols = some loader → Reaches symbols records loader.id id →
      Entered symbols records entry id
  | entry : Reaches symbols records entry.id id → Entered symbols records entry id

/-- Everything that the loader calls can be reached from the function that a script begins with. -/
def LoaderCovered (symbols : Symbols) (records : List Instruction) (entry : FunctionSymbol) : Prop :=
  ∀ loader, loaderOf? symbols = some loader →
    ∀ id, Calls symbols records loader.id id → Reaches symbols records entry.id id

/-- A script comes to the loader and to what the function that it begins with can reach, if these are
the functions that the loader calls. -/
theorem entered_iff (h : LoaderCovered symbols records entry) {id : Nat} :
    Entered symbols records entry id ↔
      (∃ loader, loaderOf? symbols = some loader ∧ loader.id = id) ∨
        Reaches symbols records entry.id id := by
  refine ⟨?_, ?_⟩
  · rintro (⟨hloader, hreach⟩ | hreach)
    · rcases Relation.ReflTransGen.cases_head hreach with heq | ⟨callee, hcalls, hrest⟩
      · exact .inl ⟨_, hloader, heq⟩
      · exact .inr ((h _ hloader callee hcalls).trans hrest)
    · exact .inr hreach
  · rintro (⟨loader, hloader, rfl⟩ | hreach)
    · exact .loader hloader .refl
    · exact .entry hreach

/-- If all functions of a program have bodies, so have those that a script comes to. -/
theorem body?_of_entered (hs : symbols.Linkable records) (hentry : symbols.entryPoint = .ok entry)
    (hall : ∀ f ∈ symbols.functions, f.body.isSome = true) {id : Nat}
    (h : Entered symbols records entry id) : ∃ b, symbols.body? id = some b := by
  have hhas : ∀ {f : FunctionSymbol}, symbols.function? f.id = some f →
      ∃ b, symbols.body? f.id = some b := by
    intro f hf
    obtain ⟨b, hb⟩ := Option.isSome_iff_exists.mp (hall f (List.mem_of_getElem? hf))
    exact ⟨b, by rw [Symbols.body?, hf, Option.bind_some, hb]⟩
  have hreached : ∀ {f : FunctionSymbol}, symbols.function? f.id = some f →
      Reaches symbols records f.id id → ∃ b, symbols.body? id = some b := by
    intro f hf hreach
    rcases Relation.ReflTransGen.cases_tail hreach with rfl | ⟨caller, -, b, -, i, hi, hcallee⟩
    · exact hhas hf
    · obtain ⟨g, hg, -⟩ := hs.callee i (FunctionBody.mem_of_mem_code hi) id hcallee
      obtain rfl := hs.id_of_function? hg
      exact hhas hg
  rcases h with ⟨hloader, hreach⟩ | hreach
  · exact hreached (loaderOf?_eq_some hs.toNumbered hloader).1 hreach
  · exact hreached (entryPoint_eq_ok hs.toNumbered hentry).1 hreach

/-! ## Operands that have numbers -/

theorem exists_resolveAll {number : Nat → Operand → Except Error Int32} :
    ∀ {code : List Instruction} (at_ : Nat),
      (∀ i ∈ code, ∀ n, ∃ v, number n i.operand = .ok v) →
      ∃ rc, resolveAll number at_ code = .ok rc
  | [], _, _ => ⟨[], rfl⟩
  | i :: rest, at_, h => by
      obtain ⟨hi, hrest⟩ := List.forall_mem_cons.mp h
      obtain ⟨v, hv⟩ := hi at_
      obtain ⟨rc, hrc⟩ := exists_resolveAll (at_ + i.size) hrest
      exact ⟨(i, v) :: rc, except_bind_eq_ok.mpr ⟨v, hv, except_bind_eq_ok.mpr ⟨rc, hrc, rfl⟩⟩⟩

theorem exists_resolveFunctions {globals : Nat} {placed : List Placed} :
    ∀ {l : List Placed},
      (∀ p ∈ l, ∀ i ∈ p.code, ∀ n, ∃ v, resolve globals placed p n i.operand = .ok v) →
      ∃ rcs, resolveFunctions globals placed l = .ok rcs
  | [], _ => ⟨[], rfl⟩
  | p :: rest, h => by
      obtain ⟨hp, hrest⟩ := List.forall_mem_cons.mp h
      obtain ⟨rc, hrc⟩ := exists_resolveAll (p.offsets.headD 0) hp
      obtain ⟨rcs, hrcs⟩ := exists_resolveFunctions hrest
      exact ⟨rc :: rcs,
        except_bind_eq_ok.mpr ⟨rc, hrc, except_bind_eq_ok.mpr ⟨rcs, hrcs, rfl⟩⟩⟩

theorem resolveAll_of_mem {globals : Nat} {placed : List Placed} :
    ∀ {l : List Placed} {rcs : List (List (Instruction × Int32))},
      resolveFunctions globals placed l = .ok rcs → ∀ p ∈ l, ∃ rc,
        resolveAll (resolve globals placed p) (p.offsets.headD 0) p.code = .ok rc
  | [], _, _ => List.forall_mem_nil _
  | p :: rest, rcs, h => by
      obtain ⟨rc, hrc, h⟩ := except_bind_eq_ok.mp h
      obtain ⟨after, hafter, -⟩ := except_bind_eq_ok.mp h
      exact List.forall_mem_cons.mpr ⟨⟨rc, hrc⟩, resolveAll_of_mem hafter⟩

/-- A call has a number if the function that it goes to has a place. -/
theorem exists_callDistance {at_ n id : Nat} {placed : List Placed}
    (hlaid : LaidOut records at_ placed) (hid : id ∈ placed.map (·.symbol.id)) :
    ∃ v, callDistance placed n id = .ok v := by
  obtain ⟨target, htarget⟩ := exists_entryOffset? hlaid hid
  exact ⟨_, callDistance_eq_ok.mpr ⟨target, htarget, rfl⟩⟩

/-- A call has no number if the function that it goes to has no place. -/
theorem mem_of_callDistance {placed : List Placed} {n id : Nat} {v : Int32}
    (h : callDistance placed n id = .ok v) : id ∈ placed.map (·.symbol.id) := by
  obtain ⟨target, htarget, -⟩ := callDistance_eq_ok.mp h
  obtain ⟨p, hp, hid, -⟩ := exists_of_entryOffset? htarget
  exact List.mem_map.mpr ⟨p, hp, hid⟩

/-- The start has numbers if the function that it calls has a place. -/
theorem exists_start {at_ : Nat} {placed : List Placed} (hlaid : LaidOut records at_ placed)
    (hid : ((loaderOf? symbols).getD entry).id ∈ placed.map (·.symbol.id)) :
    ∃ start, resolveAll (startNumber placed) headerSize (startCode symbols entry) = .ok start := by
  refine exists_resolveAll _ ?_
  rw [startCode]
  refine List.forall_mem_append.mpr ⟨?_, ?_⟩
  · split
    · exact List.forall_mem_nil _
    · exact List.forall_mem_singleton.mpr fun _ => ⟨0, rfl⟩
  · refine List.forall_mem_cons.mpr ⟨fun _ => exists_callDistance hlaid hid, ?_⟩
    exact List.forall_mem_singleton.mpr fun _ => ⟨0, rfl⟩

/-- The operands of a placed function have numbers if all that it calls has a place. -/
theorem exists_resolve {at_ globals : Nat} {placed : List Placed} (hs : symbols.Backed records)
    (hlaid : LaidOut records at_ placed) {p : Placed} (hp : p ∈ placed)
    (hmem : p.symbol ∈ symbols.functions)
    (hcalls : ∀ i ∈ p.code, ∀ id, i.callee? = some id → id ∈ placed.map (·.symbol.id)) :
    ∀ i ∈ p.code, ∀ n, ∃ v, resolve globals placed p n i.operand = .ok v := by
  intro i hi n
  obtain ⟨first, hat, -⟩ := hlaid.of_mem hp
  have hmemCode : i ∈ p.body.code records := hat.code ▸ hi
  have hwell := hs.wellFormed i (FunctionBody.mem_of_mem_code hmemCode)
  cases hoperand : i.operand with
  | label l =>
      obtain ⟨m, -, -, hjump⟩ := jumpDistance_eq hat (hs.bodies _ hmem _ hat.body) hi hwell hoperand
      exact ⟨_, hjump n⟩
  | call id =>
      refine exists_callDistance hlaid (hcalls i hi id ?_)
      rw [Instruction.callee?, hoperand]
  | none | int _ | float _ | str _ | object _ | stack _ _ | offset _ | global _ => exact ⟨_, rfl⟩

/-! ## Room -/

/-- The bytes of the code of a function. -/
def bodyBytes (records : List Instruction) (f : FunctionSymbol) : Nat :=
  (f.body.map fun b => codeSize (b.code records)).getD 0

/-- The bytes of the code of all functions together. -/
def codeBytes (symbols : Symbols) (records : List Instruction) : Nat :=
  (symbols.functions.map (bodyBytes records)).sum

theorem codeSize_allCode {at_ : Nat} {placed : List Placed} (hlaid : LaidOut records at_ placed) :
    codeSize (allCode placed) = ((placed.map Placed.symbol).map (bodyBytes records)).sum := by
  induction placed generalizing at_ with
  | nil => rfl
  | cons p rest ih =>
      have hp : bodyBytes records p.symbol = codeSize p.code := by
        rw [bodyBytes, hlaid.1.body, hlaid.1.code]
        rfl
      rw [codeSize_allCode_cons, ih hlaid.2, List.map_cons, List.map_cons, List.sum_cons, hp]

/-- Different functions take no more bytes than all functions. -/
theorem sum_bodyBytes_le {fs : List FunctionSymbol} (hnodup : (fs.map FunctionSymbol.id).Nodup)
    (hsubset : ∀ f ∈ fs, f ∈ symbols.functions) :
    (fs.map (bodyBytes records)).sum ≤ codeBytes symbols records := by
  obtain ⟨gs, hperm, hsub⟩ := List.subperm_of_subset (List.Nodup.of_map _ hnodup) hsubset
  rw [← (hperm.map (bodyBytes records)).sum_eq]
  exact (hsub.map (bodyBytes records)).sum_le_sum fun _ _ => Nat.zero_le _

theorem codeSize_startCode_le : codeSize (startCode symbols entry) ≤ 10 := by
  rw [startCode]
  split
  · exact Nat.le_of_ble_eq_true rfl
  · exact Nat.le_of_ble_eq_true rfl

/-! ## What is called has a place -/

/-- If a program was put together, what the loader calls has a place, and so can be reached from the
function that the script begins with. -/
theorem loaderCovered_of_placed {globals : Nat} {others : List FunctionSymbol}
    {placed : List Placed} {rcs : List (List (Instruction × Int32))}
    (hs : symbols.Linkable records)
    (hothers : ∀ f ∈ others, Reaches symbols records entry.id f.id)
    (hsymbols : placed.map Placed.symbol = (loaderOf? symbols).toList ++ entry :: others)
    {at_ : Nat} (hlaid : LaidOut records at_ placed)
    (hrcs : resolveFunctions globals placed placed = .ok rcs) :
    LoaderCovered symbols records entry := by
  intro loader hloader id hcalls
  have hload := loaderOf?_eq_some hs.toNumbered hloader
  have hmem : loader ∈ placed.map Placed.symbol := by
    rw [hsymbols, hloader]
    exact List.mem_cons_self
  obtain ⟨p, hp, rfl⟩ := List.mem_map.mp hmem
  obtain ⟨first, hat, -⟩ := hlaid.of_mem hp
  obtain ⟨j, hj, hcallee⟩ := (Search.calls_iff hload.1 hat.body).mp hcalls
  -- the call has a number, so that what is called has a place
  obtain ⟨rc, hrc⟩ := resolveAll_of_mem hrcs p hp
  obtain ⟨n, hn⟩ := List.mem_iff_getElem?.mp (hat.code ▸ hj)
  obtain ⟨v, hv, -⟩ := (resolveAll_eq_ok hrc).2 n j hn
  have hoperand : j.operand = .call id := by
    rw [Instruction.callee?] at hcallee
    split at hcallee
    · next f hf => rw [hf, Option.some.inj hcallee]
    · cases hcallee
  rw [hoperand, resolve] at hv
  obtain ⟨q, hq, rfl⟩ := List.mem_map.mp (mem_of_callDistance hv)
  have hqmem : q.symbol ∈ (loaderOf? symbols).toList ++ entry :: others :=
    hsymbols ▸ List.mem_map_of_mem hq
  rw [hloader] at hqmem
  rcases List.mem_cons.mp hqmem with heq | hqmem
  · -- the loader is never called
    have hname := name_ne_of_calls hs.toBacked (heq ▸ hload.1) hcalls
    rw [heq] at hname
    exact absurd hload.2 hname
  · rcases List.mem_cons.mp hqmem with heq | hqmem
    · rw [heq]
      exact .refl
    · exact hothers _ hqmem

/-- If what the loader calls can be reached from the function that the script begins with, all that
the functions of a program call has a place. -/
theorem callees_placed {others : List FunctionSymbol} {placed : List Placed}
    (hs : symbols.Linkable records) (hentry : symbols.function? entry.id = some entry)
    (hothers : ∀ f, f ∈ others ↔
      f ∈ symbols.functions ∧ f.id ≠ entry.id ∧ Reaches symbols records entry.id f.id)
    (hsymbols : placed.map Placed.symbol = (loaderOf? symbols).toList ++ entry :: others)
    {at_ : Nat} (hlaid : LaidOut records at_ placed) (hcovered : LoaderCovered symbols records entry)
    {p : Placed} (hp : p ∈ placed) :
    ∀ i ∈ p.code, ∀ id, i.callee? = some id → id ∈ placed.map (·.symbol.id) := by
  intro i hi id hcallee
  obtain ⟨first, hat, -⟩ := hlaid.of_mem hp
  rw [hat.code] at hi
  obtain ⟨g, hg, -⟩ := hs.callee i (FunctionBody.mem_of_mem_code hi) id hcallee
  obtain rfl := hs.id_of_function? hg
  have hpmem : p.symbol ∈ (loaderOf? symbols).toList ++ entry :: others :=
    hsymbols ▸ List.mem_map_of_mem hp
  have hcalls (hpf : symbols.function? p.symbol.id = some p.symbol) :
      Calls symbols records p.symbol.id g.id :=
    (Search.calls_iff hpf hat.body).mpr ⟨i, hi, hcallee⟩
  have hreach : Reaches symbols records entry.id g.id := by
    rcases List.mem_append.mp hpmem with hload | hother
    · have hloader := Option.mem_toList.mp hload
      exact hcovered _ hloader _ (hcalls (loaderOf?_eq_some hs.toNumbered hloader).1)
    · rcases List.mem_cons.mp hother with heq | hother
      · have hstep := hcalls (heq ▸ hentry)
        rw [heq] at hstep
        exact .single hstep
      · obtain ⟨hmem, -, hreach⟩ := (hothers _).mp hother
        exact hreach.tail (hcalls (hs.function?_of_mem hmem))
  have hgmem : g ∈ placed.map Placed.symbol := by
    rw [hsymbols]
    refine List.mem_append_right _ ?_
    by_cases heq : g.id = entry.id
    · rw [heq, hentry] at hg
      obtain rfl := Option.some.inj hg
      exact List.mem_cons_self
    · exact .tail _ ((hothers g).mpr ⟨List.mem_of_getElem? hg, heq, hreach⟩)
  obtain ⟨q, hq, rfl⟩ := List.mem_map.mp hgmem
  exact List.mem_map.mpr ⟨q, hq, rfl⟩

/-! ## The parts of a script -/

/-- A script before it is written: its functions, the place of each, and the numbers for the operands
of its instructions. -/
structure Script (symbols : Symbols) (records : Array Instruction) where
  entry : FunctionSymbol
  others : List FunctionSymbol
  placed : List Placed
  start : List (Instruction × Int32)
  code : List (List (Instruction × Int32))
  begins : symbols.entryPoint = .ok entry
  reached : reachable symbols records entry = .ok (entry :: others)
  functions : placed.map Placed.symbol = (loaderOf? symbols).toList ++ entry :: others
  laid : LaidOut records.toList (endOf headerSize (startCode symbols entry)) placed
  starts : resolveAll (startNumber placed) headerSize (startCode symbols entry) = .ok start
  resolved : resolveFunctions symbols.globals.length placed placed = .ok code

namespace Script

variable {records : Array Instruction} {capacity : Nat}

/-- The number of bytes of a script. -/
def size (r : Script symbols records) : Nat :=
  headerSize + codeSize (startCode symbols r.entry ++ allCode r.placed)

/-- The code of the loader and that of the other functions. -/
def sections (r : Script symbols records) : OutputTables :=
  addSections (.ofFlags 0) (r.placed.zip r.code)

/-- A script as it is written. -/
def artifact (r : Script symbols records) : Artifact where
  bytes := fileHeader r.size ++ (encodeAll r.start ++ r.sections.globals ++ r.sections.functions)
  layout := r.placed.map layoutOf

theorem function?_entry (hs : symbols.Numbered) (r : Script symbols records) :
    symbols.function? r.entry.id = some r.entry :=
  (entryPoint_eq_ok hs r.begins).1

theorem others_of (hs : symbols.Numbered) (r : Script symbols records) :
    Others symbols records.toList r.entry r.others := by
  obtain ⟨others, heq, hothers⟩ := reachable_eq_ok hs (r.function?_entry hs) r.reached
  obtain ⟨-, rfl⟩ := List.cons.inj heq
  exact hothers

/-- What is placed are functions of the table, each of them once. -/
theorem mem_functions (hs : symbols.Numbered) (r : Script symbols records) :
    ∀ p ∈ r.placed, p.symbol ∈ symbols.functions := by
  intro p hp
  refine (mem_functions_of_placed hs (r.function?_entry hs) (r.others_of hs).declared).1 _ ?_
  exact r.functions ▸ List.mem_map_of_mem hp

/-- What is written is as long as the instructions take. -/
theorem fileSize_eq (r : Script symbols records) (tables : OutputTables) :
    fileSize (encodeAll r.start) (addSections tables.reset (r.placed.zip r.code)) = r.size := by
  have hsnd : (r.placed.zip r.code).map Prod.snd = r.code :=
    List.map_snd_zip (Nat.le_of_eq (length_resolveFunctions r.resolved))
  have hlength := length_addSections tables.reset (r.placed.zip r.code)
  have hnone : tables.reset.globals.length + tables.reset.functions.length = 0 := rfl
  rw [List.flatMap_def, hsnd, hnone, Nat.zero_add] at hlength
  rw [fileSize, size, ← map_fst_script r.laid r.starts r.resolved, List.map_append,
    codeSize_append, length_encodeAll, Nat.add_assoc _ _ (List.length _), hlength]

/-- A script is written if there is room for it. -/
theorem fill_eq_ok (r : Script symbols records) (tables : OutputTables)
    (hroom : HasRoom capacity r.size) :
    ∃ w, fill ⟨[], capacity⟩ (encodeAll r.start)
        (addSections tables.reset (r.placed.zip r.code)) = .ok w ∧ w.bytes = r.artifact.bytes := by
  rw [← r.fileSize_eq tables] at hroom
  obtain ⟨w, hw, hbytes⟩ := fill_of_room hroom
  have hempty : tables.reset.globals = (OutputTables.ofFlags 0).globals := rfl
  have hempty' : tables.reset.functions = (OutputTables.ofFlags 0).functions := rfl
  obtain ⟨hglobals, hfunctions⟩ := addSections_congr hempty hempty' (r.placed.zip r.code)
  refine ⟨w, hw, ?_⟩
  rw [hbytes, r.fileSize_eq tables, hglobals, hfunctions]
  rfl

theorem links (r : Script symbols records) (hroom : HasRoom capacity r.size)
    (tables : OutputTables) : Links symbols records tables capacity r.artifact := by
  obtain ⟨w, hw, hbytes⟩ := r.fill_eq_ok tables hroom
  refine ⟨r.begins, r.reached, layOut_eq_ok.mpr ⟨r.functions, r.laid⟩, r.starts, r.resolved, hw, ?_⟩
  rw [hbytes]
  rfl

/-- What was put together is a script, for which there was room. -/
theorem of_links (hs : symbols.Numbered) {tables : OutputTables} {artifact : Artifact}
    (h : Links symbols records tables capacity artifact) :
    ∃ r : Script symbols records, HasRoom capacity r.size ∧ artifact = r.artifact := by
  obtain @⟨entry, reached, placed, start, code, filled, hentry, hreached, hplaced, hstart, hcode,
    hfilled, rfl⟩ := h
  obtain ⟨hfun, -, -⟩ := entryPoint_eq_ok hs hentry
  obtain ⟨others, rfl, -⟩ := reachable_eq_ok hs hfun hreached
  obtain ⟨hsymbols, hlaid⟩ := layOut_eq_ok.mp hplaced
  let r : Script symbols records :=
    ⟨entry, others, placed, start, code, hentry, hreached, hsymbols, hlaid, hstart, hcode⟩
  have hroom := room_of_fill hfilled
  rw [r.fileSize_eq tables] at hroom
  obtain ⟨w, hw, hbytes⟩ := r.fill_eq_ok tables hroom
  obtain rfl := Except.ok.inj (hw.symm.trans hfilled)
  refine ⟨r, hroom, ?_⟩
  rw [hbytes]
  rfl

/-- A script takes no more bytes than all functions. -/
theorem size_le (hs : symbols.Linkable records.toList) (r : Script symbols records) :
    r.size ≤ headerSize + 10 + codeBytes symbols records.toList := by
  have hothers := r.others_of hs.toNumbered
  obtain ⟨-, hnodup⟩ := placed_functions hs r.begins hothers.declared
    fun f hf => ((hothers.reached f).mp hf).2
  have hmem := (mem_functions_of_placed hs.toNumbered (r.function?_entry hs.toNumbered)
    hothers.declared).1
  have hplaced : codeSize (allCode r.placed) ≤ codeBytes symbols records.toList := by
    rw [codeSize_allCode r.laid, r.functions]
    exact sum_bodyBytes_le hnodup hmem
  have hstart : codeSize (startCode symbols r.entry) ≤ 10 := codeSize_startCode_le
  rw [size, codeSize_append]
  omega

/-- In a script, the functions that the loader calls can be reached from the one that the script
begins with. -/
theorem loaderCovered (hs : symbols.Linkable records.toList) (r : Script symbols records) :
    LoaderCovered symbols records.toList r.entry :=
  loaderCovered_of_placed hs
    (fun f hf => (((r.others_of hs.toNumbered).reached f).mp hf).2.2) r.functions r.laid r.resolved

/-- The functions of a script are those that it can come to. -/
theorem mem_iff (hs : symbols.Linkable records.toList) (r : Script symbols records)
    (f : FunctionSymbol) :
    f ∈ (loaderOf? symbols).toList ++ r.entry :: r.others ↔
      f ∈ symbols.functions ∧ Entered symbols records.toList r.entry f.id := by
  have hfun := r.function?_entry hs.toNumbered
  rw [entered_iff (r.loaderCovered hs), List.mem_append, List.mem_cons, Option.mem_toList,
    (r.others_of hs.toNumbered).reached]
  refine ⟨?_, ?_⟩
  · rintro (hloader | rfl | ⟨hmem, -, hreach⟩)
    · exact ⟨List.mem_of_getElem? (loaderOf?_eq_some hs.toNumbered hloader).1,
        .inl ⟨f, hloader, rfl⟩⟩
    · exact ⟨List.mem_of_getElem? hfun, .inr .refl⟩
    · exact ⟨hmem, .inr hreach⟩
  · rintro ⟨hmem, ⟨loader, hloader, hid⟩ | hreach⟩
    · have hload := (loaderOf?_eq_some hs.toNumbered hloader).1
      rw [hid, hs.function?_of_mem hmem] at hload
      obtain rfl := Option.some.inj hload
      exact .inl hloader
    · by_cases hid : f.id = r.entry.id
      · rw [← hid, hs.function?_of_mem hmem] at hfun
        exact .inr (.inl (Option.some.inj hfun))
      · exact .inr (.inr ⟨hmem, hid, hreach⟩)

end Script

/-- There is a script if all functions that it comes to have bodies, and if the function that it
begins with comes to everything that the loader calls. -/
theorem exists_script {records : Array Instruction} (hs : symbols.Linkable records.toList)
    (hentry : symbols.entryPoint = .ok entry)
    (hbodies : ∀ id, Entered symbols records.toList entry id → ∃ b, symbols.body? id = some b)
    (hcovered : LoaderCovered symbols records.toList entry) :
    Nonempty (Script symbols records) := by
  obtain ⟨hfun, -, -⟩ := entryPoint_eq_ok hs.toNumbered hentry
  have hinside (id : Nat) (hid : Entered symbols records.toList entry id) :
      HasBody symbols records.toList id := by
    obtain ⟨b, hb⟩ := hbodies id hid
    obtain ⟨f, hf, hbody⟩ := Option.bind_eq_some_iff.mp hb
    exact ⟨f, b, hf, hbody, (hs.bodies f (List.mem_of_getElem? hf) b hbody).inside⟩
  obtain ⟨reached, hreached⟩ : ∃ reached, reachable symbols records entry = .ok reached :=
    exists_reachable hs.toNumbered hfun fun id hreach => hinside id (.entry hreach)
  obtain ⟨others, rfl, hsublist, hothers, -⟩ := reachable_eq_ok hs.toNumbered hfun hreached
  obtain ⟨hmemFunctions, hmemCalled⟩ := mem_functions_of_placed hs.toNumbered hfun hsublist
  -- every function that is placed has a body in the instructions
  have hplaced : ∀ f ∈ (loaderOf? symbols).toList ++ entry :: others,
      ∃ b, f.body = some b ∧ b.start + b.length ≤ records.toList.length := by
    intro f hf
    have hentered : Entered symbols records.toList entry f.id := by
      rw [entered_iff hcovered]
      rcases List.mem_append.mp hf with hloader | hf
      · exact .inl ⟨f, Option.mem_toList.mp hloader, rfl⟩
      · rcases List.mem_cons.mp hf with rfl | hf
        · exact .inr .refl
        · exact .inr ((hothers f).mp hf).2.2
    obtain ⟨g, b, hg, hb, hle⟩ := hinside f.id hentered
    obtain rfl := Option.some.inj ((hs.function?_of_mem (hmemFunctions f hf)).symm.trans hg)
    exact ⟨b, hb, hle⟩
  obtain ⟨placed, hsymbols, hlaid⟩ :=
    exists_laidOut (endOf headerSize (startCode symbols entry)) hplaced
  have hids : placed.map (·.symbol.id)
      = ((loaderOf? symbols).toList ++ entry :: others).map FunctionSymbol.id := by
    rw [← hsymbols, List.map_map]
    rfl
  obtain ⟨start, hstart⟩ := exists_start hlaid (hids ▸ List.mem_map_of_mem hmemCalled)
  obtain ⟨code, hcode⟩ :
      ∃ code, resolveFunctions symbols.globals.length placed placed = .ok code := by
    refine exists_resolveFunctions ?_
    intro p hp
    exact exists_resolve hs.toBacked hlaid hp (hmemFunctions _ (hsymbols ▸ List.mem_map_of_mem hp))
      (callees_placed hs hfun hothers hsymbols hlaid hcovered hp)
  exact ⟨⟨entry, others, placed, start, code, hentry, hreached, hsymbols, hlaid, hstart, hcode⟩⟩

/-! ## Putting a program together -/

section Assembly

variable {i i' : Instance} {artifact : Artifact}

/-- What was put together is a script. -/
theorem script_of_assemble (hs : symbols.Numbered) {tables : OutputTables} {capacity : Nat}
    (htables : i.tables = some tables) (houtput : i.output = some ⟨[], capacity⟩)
    (hok : assemble symbols i = .ok artifact i') :
    ∃ r : Script symbols (i.buffer.getD .empty).records, HasRoom capacity r.size ∧ artifact = r.artifact :=
  Script.of_links hs (links_of_assemble htables houtput hok)

/-- A script is put together if there is room for it. -/
theorem exists_assemble_script {tables : OutputTables} {capacity : Nat}
    (htables : i.tables = some tables) (houtput : i.output = some ⟨[], capacity⟩)
    (r : Script symbols (i.buffer.getD .empty).records) (hroom : HasRoom capacity r.size) :
    ∃ i', assemble symbols i = .ok r.artifact i' :=
  assemble_of_links htables houtput (r.links hroom tables)

/-- What was put together holds the functions that the script can come to, and those include all that
the loader calls. -/
theorem assemble_places (h : FromScript symbols i) (hentry : symbols.entryPoint = .ok entry)
    (hok : assemble symbols i = .ok artifact i') :
    LoaderCovered symbols i.records entry ∧
      ∃ fs : List FunctionSymbol, (fs.map FunctionSymbol.id).Nodup ∧
        artifact.layout.map FunctionLayout.name = fs.map FunctionSymbol.name ∧
        ∀ f, f ∈ fs ↔ f ∈ symbols.functions ∧ Entered symbols i.records entry f.id := by
  obtain ⟨hs, htables, capacity, houtput⟩ := h.linkable
  obtain ⟨tables, htables⟩ := Option.isSome_iff_exists.mp htables
  obtain ⟨r, -, rfl⟩ := script_of_assemble hs.toNumbered htables houtput hok
  obtain rfl := Except.ok.inj (r.begins.symm.trans hentry)
  have hothers := r.others_of hs.toNumbered
  obtain ⟨-, hnodup⟩ := placed_functions hs hentry hothers.declared
    fun f hf => ((hothers.reached f).mp hf).2
  refine ⟨r.loaderCovered hs, _, hnodup, ?_, r.mem_iff hs⟩
  show (r.placed.map layoutOf).map FunctionLayout.name = _
  rw [← r.functions, List.map_map, List.map_map]
  rfl

/-- A script without errors can be put together if its functions have bodies and the function that it
begins with comes to everything that the loader calls. -/
theorem exists_assemble (h : FromScript symbols i) (hentry : symbols.entryPoint = .ok entry)
    (hbodies : ∀ id, Entered symbols i.records entry id → ∃ b, symbols.body? id = some b)
    (hroom : headerSize + 10 + codeBytes symbols i.records < 2 ^ 63)
    (hcovered : LoaderCovered symbols i.records entry) :
    ∃ artifact i', assemble symbols i = .ok artifact i' := by
  obtain ⟨hs, htables, capacity, houtput⟩ := h.linkable
  obtain ⟨tables, htables⟩ := Option.isSome_iff_exists.mp htables
  obtain ⟨r⟩ : Nonempty (Script symbols (i.buffer.getD .empty).records) :=
    exists_script hs hentry hbodies hcovered
  have hsize := r.size_le hs
  obtain ⟨i', hok⟩ := exists_assemble_script htables houtput r
    (.inr (decide_eq_true (max_lt (by decide) (Nat.lt_of_le_of_lt hsize hroom))))
  exact ⟨_, i', hok⟩

/-- A script without errors whose functions have bodies is put together exactly if the function that
it begins with comes to everything that the loader calls.  The functions that are placed are then
those that the script can come to. -/
theorem assemble_exists_iff (h : FromScript symbols i) (hentry : symbols.entryPoint = .ok entry)
    (hbodies : ∀ id, Entered symbols i.records entry id → ∃ b, symbols.body? id = some b)
    (hroom : headerSize + 10 + codeBytes symbols i.records < 2 ^ 63) :
    ((∃ artifact i', assemble symbols i = .ok artifact i') ↔
        LoaderCovered symbols i.records entry) ∧
      ∀ artifact i', assemble symbols i = .ok artifact i' →
        ∃ fs : List FunctionSymbol, (fs.map FunctionSymbol.id).Nodup ∧
          artifact.layout.map FunctionLayout.name = fs.map FunctionSymbol.name ∧
          ∀ f, f ∈ fs ↔ f ∈ symbols.functions ∧ Entered symbols i.records entry f.id := by
  refine ⟨⟨?_, exists_assemble h hentry hbodies hroom⟩, ?_⟩
  · rintro ⟨artifact, i', hok⟩
    exact (assemble_places h hentry hok).1
  · intro artifact i' hok
    exact (assemble_places h hentry hok).2

/-! ### First values that call -/

/-- A script with a function that both its loader and the function that it begins with call. -/
def sharedCall : String := "int F() { return 1; } int g = F(); void main() { g = F(); }"

theorem assemble_exists_iff_sharedCall :
    ∃ symbols i entry, FromScript symbols i ∧ symbols.entryPoint = .ok entry ∧
      (∀ id, Entered symbols i.records entry id → ∃ b, symbols.body? id = some b) ∧
      headerSize + 10 + codeBytes symbols i.records < 2 ^ 63 ∧
      LoaderCovered symbols i.records entry := by
  have hscript := FromScript.ofText sharedCall (by decide +kernel)
  obtain ⟨entry, hentry⟩ : ∃ entry, (emitText sharedCall).symbols.entryPoint = .ok entry :=
    ⟨(emitText sharedCall).symbols.functions[1]!, by decide +kernel⟩
  have hbodies : ∀ id, Entered (emitText sharedCall).symbols (emitText sharedCall).unit.records
      entry id → ∃ b, (emitText sharedCall).symbols.body? id = some b :=
    fun id hid => body?_of_entered hscript.linkable.1 hentry (by decide +kernel) hid
  have hroom : headerSize + 10
      + codeBytes (emitText sharedCall).symbols (emitText sharedCall).unit.records < 2 ^ 63 := by
    decide +kernel
  have hok : (outcome (emitText sharedCall).symbols (emitText sharedCall).unit).isOk = true := by
    decide +kernel
  cases houtcome : outcome (emitText sharedCall).symbols (emitText sharedCall).unit with
  | error e =>
      rw [houtcome] at hok
      cases hok
  | ok artifact =>
      obtain ⟨i', hok⟩ := exists_of_outcome_eq_ok houtcome
      exact ⟨_, _, entry, hscript, hentry, hbodies, hroom,
        (assemble_exists_iff hscript hentry hbodies hroom).1.mp ⟨artifact, i', hok⟩⟩

/-- A script with a function that only its loader calls. -/
def loaderCall : String := "int F() { return 1; } int g = F(); void main() { }"

/-- A script without errors whose functions all have bodies may be refused all the same. -/
theorem assemble_loaderCall :
    ∃ symbols i entry, FromScript symbols i ∧ symbols.entryPoint = .ok entry ∧
      (∀ id, Entered symbols i.records entry id → ∃ b, symbols.body? id = some b) ∧
      headerSize + 10 + codeBytes symbols i.records < 2 ^ 63 ∧
      ∃ i', assemble symbols i = .error (.unresolvedCall "#0") i' := by
  have hscript := FromScript.ofText loaderCall (by decide +kernel)
  obtain ⟨entry, hentry⟩ : ∃ entry, (emitText loaderCall).symbols.entryPoint = .ok entry :=
    ⟨(emitText loaderCall).symbols.functions[1]!, by decide +kernel⟩
  refine ⟨_, _, entry, hscript, hentry, ?_, by decide +kernel, ?_⟩
  · intro id hid
    exact body?_of_entered hscript.linkable.1 hentry (by decide +kernel) hid
  · exact exists_of_outcome_eq_error (by decide +kernel)

end Assembly

end Program

end Nss
