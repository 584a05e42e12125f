/-
# Assembly in view

What is assembled from a unit depends only on what is seen of the unit and of the symbol table.  Of the
table only the functions and the number of the global variables matter.  How large the source was
matters for the output window alone: one that is too small for a script grows, and what it grows to is
what any other one would.
-/
import Nss.Proofs.Places.View
import Nss.Proofs.Program.Encoding

namespace Nss

open Steps

namespace Program

variable (v : View)

/-! ## Windows -/

/-- What is written into an empty window does not depend on its room, as long as that can be had. -/
theorem fill_roomless (w : Window) (start : Bytes) (t : OutputTables) :
    (fill (View.roomless w) start t).map Window.bytes = (fill w start t).map Window.bytes := by
  rw [View.roomless]
  split
  · next h =>
      have hempty := h.1
      have hheld := h.2
      obtain ⟨bytes, capacity⟩ := w
      dsimp only at hempty hheld
      subst hempty
      have hroom : HasRoom 0 (fileSize start t) ↔ HasRoom capacity (fileSize start t) := by
        refine ⟨?_, ?_⟩
        · rintro (hzero | hgranted)
          · exact .inl (Nat.le_trans hzero (Nat.zero_le _))
          · exact .inr hgranted
        · rintro (hle | hgranted)
          · refine .inr ?_
            rw [addressable, decide_eq_true_eq] at hheld ⊢
            exact Nat.lt_of_le_of_lt hle hheld
          · exact .inr hgranted
      by_cases h : HasRoom capacity (fileSize start t)
      · obtain ⟨w, hw, hbytes⟩ := fill_of_room h
        obtain ⟨w', hw', hbytes'⟩ := fill_of_room (hroom.mpr h)
        rw [hw, hw']
        exact congrArg Except.ok (hbytes'.trans hbytes.symm)
      · rw [fill_of_not_room h, fill_of_not_room (mt hroom.mp h)]
  · rfl

theorem fill_viewed (w : Window) (start : Bytes) (t : OutputTables) :
    (fill (v.window w) start t.flagless).map Window.bytes = (fill w start t).map Window.bytes := by
  cases v with
  | whole => rfl
  | unplaced => exact fill_roomless w start t

/-! ## Steps -/

variable {α β : Type}

/-- The second of two steps is the first one in view. -/
def Views (v : View) (u : α → β) (p : Assemble α) (q : Assemble β) : Prop :=
  Seen id (Instance.viewed v) u p q

variable {v} {symbols : Symbols}

theorem views_orStop (x : Except Error α) : Views v id (orStop x) (orStop x) := by
  cases x with
  | ok a => exact Seen.pure a
  | error e => exact Seen.throw e

theorem views_takeRecords : Views v id takeRecords takeRecords := fun _ => rfl

theorem views_takeWindow : Views v v.window takeWindow takeWindow := by
  intro i
  have houtput : (i.viewed v).output = i.output.map v.window := rfl
  simp only [takeWindow, bind_apply, get_apply, Instance.openOutput, houtput]
  cases i.output with
  | none => rfl
  | some w => rfl

theorem views_addToTable (name : String) (bytes : Bytes) :
    Views v id (addToTable name bytes) (addToTable name bytes) := by
  refine Seen.update fun i => ?_
  have htables : (i.viewed v).tables = i.tables.map OutputTables.flagless := rfl
  simp only [Instance.modifyTables, Instance.viewed, Option.map_map]
  congr 2
  funext t
  simp only [Function.comp]
  split
  · rfl
  · rfl

theorem views_encodeFunctions (globals : Nat) (placed : List Placed) (ps : List Placed) :
    Views v id (encodeFunctions globals placed ps) (encodeFunctions globals placed ps) := by
  induction ps with
  | nil => exact Seen.pure ()
  | cons p rest ih =>
      exact Seen.bind (views_addToTable _ _) fun _ => Seen.bind (views_orStop _) fun _ => ih

/-! ## Symbol tables -/

theorem entryPoint_symbols (v : View) (s : Symbols) : (v.symbols s).entryPoint = s.entryPoint := by
  cases v <;> rfl

theorem loaderOf?_symbols (v : View) (s : Symbols) : loaderOf? (v.symbols s) = loaderOf? s := by
  rw [loaderOf?, loaderOf?, View.isEmpty_globals_symbols, View.lookup?_symbols]

theorem startCode_symbols (v : View) (s : Symbols) (entry : FunctionSymbol) :
    startCode (v.symbols s) entry = startCode s entry := by
  rw [startCode, startCode, loaderOf?_symbols]

/-- Of a table, only its functions matter for what can be reached. -/
theorem visit_congr {s t : Symbols} (h : t.functions = s.functions) (code : List Instruction) :
    ∀ seen pending, visit t seen pending code = visit s seen pending code := by
  have hfunction : ∀ id, t.function? id = s.function? id := by
    intro id
    rw [Symbols.function?, Symbols.function?, h]
  induction code with
  | nil => exact fun _ _ => rfl
  | cons i rest ih =>
      intro seen pending
      simp only [visit, hfunction, ih]

theorem explore_congr {s t : Symbols} (h : t.functions = s.functions) (records : Array Instruction) :
    ∀ (fuel : Nat) (seen : List Nat) (pending : List FunctionSymbol),
      explore t records fuel seen pending = explore s records fuel seen pending
  | 0, _, _ => by rw [explore, explore]
  | _ + 1, _, [] => by rw [explore, explore]
  | fuel + 1, seen, f :: pending => by
      simp only [explore, visit_congr h, explore_congr h records fuel]

theorem reachable_symbols (v : View) (s : Symbols) (records : Array Instruction)
    (entry : FunctionSymbol) : reachable (v.symbols s) records entry = reachable s records entry := by
  simp only [reachable, explore_congr (v.functions_symbols s), View.functions_symbols]

/-! ## Assembly -/

/-- The same is assembled from what is seen of a unit. -/
theorem views_assemble : Views v id (assemble symbols) (assemble (v.symbols symbols)) := by
  rw [assemble, assemble, entryPoint_symbols]
  refine Seen.bind (views_orStop _) fun entry => Seen.read fun i => ?_
  have htables : (i.viewed v).tables.isNone = i.tables.isNone := Option.isNone_map
  simp only [id, htables, reachable_symbols, loaderOf?_symbols, startCode_symbols,
    View.length_globals_symbols]
  cases i.tables.isNone with
  | true => exact fun _ => rfl
  | false =>
      refine Seen.bind views_takeRecords fun records => ?_
      refine Seen.bind (views_orStop _) fun reached => Seen.bind (views_orStop _) fun placed => ?_
      refine Seen.bind (views_orStop _) fun startBytes => Seen.bind views_takeWindow fun window => ?_
      refine Seen.bind (Seen.update fun i => ?_) fun _ => ?_
      · simp only [Instance.modifyTables, Instance.viewed, Option.map_map]
        rfl
      refine Seen.bind (views_encodeFunctions _ _ _) fun _ => Seen.read fun j => ?_
      have htables : (j.viewed v).tables = j.tables.map OutputTables.flagless := rfl
      rw [htables]
      cases j.tables with
      | none => exact Seen.throw _
      | some tables =>
          have hfill := fill_viewed v window startBytes tables
          dsimp only [id, Option.map_some]
          generalize fill (v.window window) startBytes tables.flagless = x at hfill
          generalize fill window startBytes tables = y at hfill
          cases x with
          | error e =>
              cases y with
              | error e' =>
                  obtain rfl := Except.error.inj hfill
                  exact Seen.throw e
              | ok w => cases hfill
          | ok w' =>
              cases y with
              | error e' => cases hfill
              | ok w =>
                  have hbytes : w'.bytes = w.bytes := Except.ok.inj hfill
                  intro k
                  show EStateM.Result.ok _ _ = EStateM.Result.ok _ _
                  simp [hbytes]

/-- The same is written. -/
theorem write_viewed (name path : Option String) (i : Instance) (files : FileTree) :
    write (v.symbols symbols) name path (i.viewed v) files
      = ((write symbols name path i files).1.viewed v, (write symbols name path i files).2) := by
  have hassemble : assemble (v.symbols symbols) (i.viewed v)
      = mapResult id (Instance.viewed v) id (assemble symbols i) := views_assemble i
  rw [write, write, hassemble]
  cases assemble symbols i with
  | error e j => rfl
  | ok artifact j =>
      simp only [mapResult]
      split
      · rfl
      · simp only [id]
        split
        · rfl
        · rfl

end Program

end Nss
