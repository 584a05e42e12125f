/-
# When an assembly succeeds

An assembly succeeds if every function that it places can be placed, every operand has a number that
takes its place, and there is room in the output window.  `Program.Links` collects these conditions
with the script that comes of them, and `assemble_eq_ok` says that nothing else matters.
-/
import Nss.Proofs.Program.Encoding

namespace Nss

open Steps Listing

namespace Program

variable {symbols : Symbols} {i i' : Instance} {artifact : Artifact}

theorem orStop_eq_ok {α : Type} {x : Except Error α} {a : α} :
    orStop x i = .ok a i' ↔ x = .ok a ∧ i = i' := by
  cases x with
  | error e => simp [orStop, throw_apply]
  | ok b => simp [orStop, pure_apply]

/-- An assembly takes the instructions out. -/
theorem takeRecords_apply (i : Instance) :
    takeRecords i = .ok (i.buffer.getD .empty).records i.takeBuffer.2 := rfl

/-- An assembly takes the output window out. -/
theorem takeWindow_apply {w : Window} (houtput : i.output = some w) :
    takeWindow i = .ok w i.takeOutput.2 := by
  refine bind_eq_ok.mpr ⟨_, _, get_apply i, ?_⟩
  refine bind_eq_ok.mpr ⟨w, i, orStop_eq_ok.mpr ⟨?_, rfl⟩, rfl⟩
  rw [Instance.openOutput, houtput]

theorem offsets_of_laidOut {records : List Instruction} {at_ : Nat} {placed : List Placed}
    (h : LaidOut records at_ placed) :
    ∀ p ∈ placed, p.offsets = place (p.offsets.headD 0) p.code := by
  intro p hp
  obtain ⟨first, hfirst, -⟩ := h.of_mem hp
  rw [hfirst.offsets, headD_place]

/-- All that an assembly needs, and what comes of it. -/
inductive Links (symbols : Symbols) (records : Array Instruction) (tables : OutputTables)
    (capacity : Nat) (artifact : Artifact) : Prop
  | intro {entry : FunctionSymbol} {reached : List FunctionSymbol} {placed : List Placed}
      {start : List (Instruction × Int32)} {rcs : List (List (Instruction × Int32))}
      {filled : Window} :
      symbols.entryPoint = .ok entry →
      reachable symbols records entry = .ok reached →
      layOut records (endOf headerSize (startCode symbols entry))
        ((loaderOf? symbols).toList ++ reached) = .ok placed →
      resolveAll (startNumber placed) headerSize (startCode symbols entry) = .ok start →
      resolveFunctions symbols.globals.length placed placed = .ok rcs →
      fill ⟨[], capacity⟩ (encodeAll start) (addSections tables.reset (placed.zip rcs))
        = .ok filled →
      artifact = ⟨filled.bytes, placed.map layoutOf⟩ →
      Links symbols records tables capacity artifact

theorem links_of_assemble {tables : OutputTables} {capacity : Nat}
    (htables : i.tables = some tables) (houtput : i.output = some ⟨[], capacity⟩)
    (h : assemble symbols i = .ok artifact i') :
    Links symbols (i.buffer.getD .empty).records tables capacity artifact := by
  rw [assemble] at h
  obtain ⟨entry, _, hstep, h⟩ := bind_eq_ok.mp h
  obtain ⟨hentry, rfl⟩ := orStop_eq_ok.mp hstep
  obtain ⟨_, _, hstep, h⟩ := bind_eq_ok.mp h
  obtain ⟨rfl, rfl⟩ := EStateM.Result.ok.inj hstep
  rw [htables] at h
  obtain ⟨records, j, hstep, h⟩ := bind_eq_ok.mp h
  obtain ⟨rfl, rfl⟩ := EStateM.Result.ok.inj hstep
  obtain ⟨reached, _, hstep, h⟩ := bind_eq_ok.mp h
  obtain ⟨hreached, rfl⟩ := orStop_eq_ok.mp hstep
  obtain ⟨placed, _, hstep, h⟩ := bind_eq_ok.mp h
  obtain ⟨hplaced, rfl⟩ := orStop_eq_ok.mp hstep
  obtain ⟨startBytes, _, hstep, h⟩ := bind_eq_ok.mp h
  obtain ⟨hstart, rfl⟩ := orStop_eq_ok.mp hstep
  rw [encodeStart_eq] at hstart
  obtain ⟨start, hresolved, rfl⟩ := except_map_eq_ok.mp hstart
  obtain ⟨window, _, hstep, h⟩ := bind_eq_ok.mp h
  obtain ⟨rfl, rfl⟩ := EStateM.Result.ok.inj
    ((takeWindow_apply (i := i.takeBuffer.2) houtput).symm.trans hstep)
  obtain ⟨_, _, hstep, h⟩ := bind_eq_ok.mp h
  obtain rfl := (EStateM.Result.ok.inj hstep).2
  obtain ⟨_, _, hstep, h⟩ := bind_eq_ok.mp h
  have hoffsets := offsets_of_laidOut (layOut_eq_ok.mp hplaced).2
  obtain ⟨rcs, hrcs⟩ := resolveFunctions_of_ok hoffsets hstep
  rw [encodeFunctions_of_ok _ hoffsets hrcs] at hstep
  obtain rfl := (EStateM.Result.ok.inj hstep).2
  obtain ⟨_, _, hstep, h⟩ := bind_eq_ok.mp h
  obtain ⟨rfl, rfl⟩ := EStateM.Result.ok.inj hstep
  simp only [Instance.modifyTables, Instance.takeOutput,
    Instance.takeBuffer, htables, Option.map_some] at h
  obtain ⟨filled, _, hstep, h⟩ := bind_eq_ok.mp h
  obtain ⟨hfilled, rfl⟩ := orStop_eq_ok.mp hstep
  obtain ⟨rfl, -⟩ := EStateM.Result.ok.inj h
  exact ⟨hentry, hreached, hplaced, hresolved, hrcs, hfilled, rfl⟩

/-- Once all operands have numbers, an assembly comes to what filling the window does. -/
theorem assemble_of_resolved {tables : OutputTables} {capacity : Nat} {entry : FunctionSymbol}
    {reached : List FunctionSymbol} {placed : List Placed} {start : List (Instruction × Int32)}
    {rcs : List (List (Instruction × Int32))}
    (htables : i.tables = some tables) (houtput : i.output = some ⟨[], capacity⟩)
    (hentry : symbols.entryPoint = .ok entry)
    (hreached : reachable symbols (i.buffer.getD .empty).records entry = .ok reached)
    (hplaced : layOut (i.buffer.getD .empty).records (endOf headerSize (startCode symbols entry))
      ((loaderOf? symbols).toList ++ reached) = .ok placed)
    (hstart : resolveAll (startNumber placed) headerSize (startCode symbols entry) = .ok start)
    (hrcs : resolveFunctions symbols.globals.length placed placed = .ok rcs) :
    ∃ i', assemble symbols i =
      match fill ⟨[], capacity⟩ (encodeAll start) (addSections tables.reset (placed.zip rcs)) with
      | .ok filled => .ok ⟨filled.bytes, placed.map layoutOf⟩ i'
      | .error e => .error e i' := by
  have hoffsets := offsets_of_laidOut (layOut_eq_ok.mp hplaced).2
  have hstart := (encodeStart_eq _ _ headerSize).trans (congrArg (Except.map encodeAll) hstart)
  rw [assemble, bind_of_ok (orStop_eq_ok.mpr ⟨hentry, rfl⟩), bind_of_ok (get_apply i), htables]
  simp only [Option.isNone_some, Bool.false_eq_true, if_false]
  rw [bind_of_ok (takeRecords_apply i), bind_of_ok (orStop_eq_ok.mpr ⟨hreached, rfl⟩),
    bind_of_ok (orStop_eq_ok.mpr ⟨hplaced, rfl⟩), bind_of_ok (orStop_eq_ok.mpr ⟨hstart, rfl⟩),
    bind_of_ok (takeWindow_apply (i := i.takeBuffer.2) houtput), bind_of_ok (modify_apply _ _),
    bind_of_ok (encodeFunctions_of_ok _ hoffsets hrcs), bind_of_ok (get_apply _)]
  simp only [Instance.modifyTables, Instance.takeOutput, Instance.takeBuffer, htables,
    Option.map_some]
  cases fill ⟨[], capacity⟩ (encodeAll start) (addSections tables.reset (placed.zip rcs)) with
  | ok filled => exact ⟨_, rfl⟩
  | error e => exact ⟨_, rfl⟩

theorem assemble_of_links {tables : OutputTables} {capacity : Nat}
    (htables : i.tables = some tables) (houtput : i.output = some ⟨[], capacity⟩)
    (h : Links symbols (i.buffer.getD .empty).records tables capacity artifact) :
    ∃ i', assemble symbols i = .ok artifact i' := by
  obtain ⟨hentry, hreached, hplaced, hstart, hrcs, hfilled, rfl⟩ := h
  obtain ⟨i', h⟩ := assemble_of_resolved htables houtput hentry hreached hplaced hstart hrcs
  rw [hfilled] at h
  exact ⟨i', h⟩

/-- An assembly succeeds exactly if all that it needs is there. -/
theorem assemble_eq_ok {tables : OutputTables} {capacity : Nat} (htables : i.tables = some tables)
    (houtput : i.output = some ⟨[], capacity⟩) :
    (∃ i', assemble symbols i = .ok artifact i') ↔
      Links symbols (i.buffer.getD .empty).records tables capacity artifact := by
  refine ⟨?_, assemble_of_links htables houtput⟩
  rintro ⟨i', h⟩
  exact links_of_assemble htables houtput h

end Program

end Nss
