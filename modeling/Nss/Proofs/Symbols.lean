/-
# Symbol tables are numbered

The number of a function or of a global variable is its place in the table.  No table has another
order: `Symbols.Numbered` holds of the empty table, and whatever is done to a table preserves it.

What a table accepts is told by `declareFunction_eq_ok` and `declareGlobal_eq_ok`.
-/
import Nss.Symbols
import Mathlib.Tactic.Common

namespace Nss

/-- Functions and global variables are numbered by their places. -/
structure Symbols.Numbered (s : Symbols) : Prop where
  function : ∀ (i : Nat) (f : FunctionSymbol), s.functions[i]? = some f → f.id = i
  global : ∀ (i : Nat) (g : GlobalSymbol), s.globals[i]? = some g → g.slot = i

namespace Symbols

variable {s s' : Symbols}

/-! ## Finding -/

theorem name_of_lookup? {name : String} {f : FunctionSymbol} (h : s.lookup? name = some f) :
    f.name = name := by
  rw [lookup?] at h
  simpa using List.find?_some h

theorem lookup?_eq_none_iff {name : String} :
    s.lookup? name = none ↔ ∀ f ∈ s.functions, f.name ≠ name := by
  rw [lookup?, List.find?_eq_none]
  exact forall₂_congr fun f _ => not_congr decide_eq_true_iff

theorem lookupGlobal?_eq_none_iff {name : String} :
    s.lookupGlobal? name = none ↔ ∀ g ∈ s.globals, g.name ≠ name := by
  rw [lookupGlobal?, List.find?_eq_none]
  exact forall₂_congr fun g _ => not_congr decide_eq_true_iff

namespace Numbered

theorem function?_of_mem (hs : s.Numbered) {f : FunctionSymbol} (h : f ∈ s.functions) :
    s.function? f.id = some f := by
  obtain ⟨i, hi⟩ := List.mem_iff_getElem?.mp h
  rw [function?, hs.function i f hi, hi]

/-- A function that is found by its name is found by its number. -/
theorem function?_of_lookup? (hs : s.Numbered) {name : String} {f : FunctionSymbol}
    (h : s.lookup? name = some f) : s.function? f.id = some f :=
  hs.function?_of_mem (List.mem_of_find?_eq_some h)

theorem id_of_function? (hs : s.Numbered) {id : Nat} {f : FunctionSymbol}
    (h : s.function? id = some f) : f.id = id :=
  hs.function id f h

/-- The numbers of the functions are those of their places. -/
theorem map_id (hs : s.Numbered) :
    s.functions.map FunctionSymbol.id = List.range s.functions.length := by
  refine List.ext_getElem (by simp) ?_
  intro i h₁ h₂
  rw [List.getElem_map, List.getElem_range]
  rw [List.length_map] at h₁
  exact hs.function i _ (List.getElem?_eq_getElem h₁)

/-- No two functions have the same number. -/
theorem nodup_ids (hs : s.Numbered) : (s.functions.map FunctionSymbol.id).Nodup := by
  rw [hs.map_id]
  exact List.nodup_range

/-- A global variable that is found by its name is found by its number. -/
theorem getElem?_of_lookupGlobal? (hs : s.Numbered) {name : String} {g : GlobalSymbol}
    (h : s.lookupGlobal? name = some g) : s.globals[g.slot]? = some g := by
  obtain ⟨i, hi⟩ := List.mem_iff_getElem?.mp (List.mem_of_find?_eq_some h)
  rw [hs.global i g hi, hi]

end Numbered

/-! ## Declaring -/

/-- A function was declared before in the same way, and it is not given a second body. -/
structure Redeclares (s : Symbols) (decl : FunctionDecl) (f : FunctionSymbol) : Prop where
  found : s.lookup? decl.name = some f
  result : f.result = decl.result
  params : f.params = decl.params.map Param.type
  body : decl.body.isSome = true → f.body = none

/-- A function is accepted if it was declared in the same way before, or if its name is new. -/
theorem declareFunction_eq_ok {decl : FunctionDecl} {unit : String} {id : Nat}
    (h : s.declareFunction decl unit = .ok (s', id)) :
    s.lookupGlobal? decl.name = none ∧
      ((∃ f, s.Redeclares decl f ∧ id = f.id ∧ s' = s) ∨
        (s.lookup? decl.name = none ∧ id = s.functions.length ∧
          s' = (s.insert decl.name decl.result (decl.params.map Param.type) unit).1)) := by
  simp only [declareFunction] at h
  split at h
  · cases h
  · next hglobal =>
      refine ⟨by simpa using hglobal, ?_⟩
      split at h
      · next f hf =>
          split at h
          · cases h
          · next hsignature =>
              split at h
              · cases h
              · next hbody =>
                  obtain ⟨rfl, rfl⟩ := Prod.mk.inj (Except.ok.inj h)
                  push Not at hsignature
                  refine .inl ⟨f, ⟨hf, hsignature.1, hsignature.2, fun hnew => ?_⟩, rfl, rfl⟩
                  exact Option.not_isSome_iff_eq_none.mp fun hold => hbody ⟨hold, hnew⟩
      · next hnone =>
          obtain ⟨rfl, rfl⟩ := Prod.mk.inj (Except.ok.inj h)
          exact .inr ⟨hnone, rfl, rfl⟩

theorem Redeclares.declareFunction {decl : FunctionDecl} {f : FunctionSymbol}
    (h : s.Redeclares decl f) (hglobal : s.lookupGlobal? decl.name = none) (unit : String) :
    s.declareFunction decl unit = .ok (s, f.id) := by
  have hbody : ¬ (f.body.isSome = true ∧ decl.body.isSome = true) := by
    rintro ⟨hold, hnew⟩
    rw [h.body hnew] at hold
    cases hold
  rw [Symbols.declareFunction, hglobal, h.found]
  simp [h.result, h.params, hbody]

/-- A global variable is accepted if its name is new. -/
theorem declareGlobal_eq_ok {decl : VarDecl} {unit : String} {slot : Nat}
    (h : s.declareGlobal decl unit = .ok (s', slot)) :
    s.lookupGlobal? decl.name = none ∧ s.lookup? decl.name = none ∧ slot = s.globals.length ∧
      s' = { s with globals := s.globals ++ [⟨slot, decl, unit⟩] } := by
  simp only [declareGlobal] at h
  split at h
  · cases h
  · next hnew =>
      obtain ⟨rfl, rfl⟩ := Prod.mk.inj (Except.ok.inj h)
      simpa using hnew

/-! ## Changing -/

/-- A function behind those of a table. -/
def withFunction (s : Symbols) (f : FunctionSymbol) : Symbols :=
  { s with functions := s.functions ++ [f] }

theorem numbered_empty : empty.Numbered where
  function i f h := by cases h
  global i g h := by cases h

namespace Numbered

theorem modifyFunction (hs : s.Numbered) (id : Nat) {change : FunctionSymbol → FunctionSymbol}
    (hid : ∀ f, (change f).id = f.id) : (s.modifyFunction id change).Numbered where
  function i f h := by
    rw [Symbols.modifyFunction, List.getElem?_modify] at h
    obtain ⟨g, hg, rfl⟩ := Option.map_eq_some_iff.mp h
    split
    · rw [hid, hs.function i g hg]
    · exact hs.function i g hg
  global := hs.global

theorem withFunction (hs : s.Numbered) {f : FunctionSymbol} (hf : f.id = s.functions.length) :
    (s.withFunction f).Numbered where
  function i g h := by
    rw [Symbols.withFunction, List.getElem?_append] at h
    split at h
    · exact hs.function i g h
    · next hi =>
        obtain ⟨hlt, rfl⟩ := List.getElem?_eq_some_iff.mp h
        rw [List.length_singleton] at hlt
        rw [List.getElem_singleton, hf]
        omega
  global := hs.global

theorem insert (hs : s.Numbered) (name : String) (result : ValueType) (params : List ValueType)
    (unit : String) : (s.insert name result params unit).1.Numbered :=
  hs.withFunction rfl

theorem declareFunction (hs : s.Numbered) {decl : FunctionDecl} {unit : String} {id : Nat}
    (h : s.declareFunction decl unit = .ok (s', id)) : s'.Numbered := by
  obtain ⟨-, ⟨f, -, -, rfl⟩ | ⟨-, -, rfl⟩⟩ := declareFunction_eq_ok h
  · exact hs
  · exact hs.insert _ _ _ _

theorem declareGlobal (hs : s.Numbered) {decl : VarDecl} {unit : String} {slot : Nat}
    (h : s.declareGlobal decl unit = .ok (s', slot)) : s'.Numbered := by
  obtain ⟨-, -, rfl, rfl⟩ := declareGlobal_eq_ok h
  refine ⟨hs.function, ?_⟩
  intro i g hg
  rw [List.getElem?_append] at hg
  split at hg
  · exact hs.global i g hg
  · next hi =>
      obtain ⟨hlt, rfl⟩ := List.getElem?_eq_some_iff.mp hg
      rw [List.length_singleton] at hlt
      rw [List.getElem_singleton]
      show s.globals.length = i
      omega

theorem declareLoader (hs : s.Numbered) (result : ValueType) (unit : String) :
    (s.declareLoader result unit).1.Numbered := by
  rw [Symbols.declareLoader]
  split
  · exact hs.modifyFunction _ fun _ => rfl
  · exact hs.insert _ _ _ _

theorem attachBody (hs : s.Numbered) (id : Nat) (body : FunctionBody) :
    (s.attachBody id body).Numbered :=
  hs.modifyFunction id fun _ => rfl

theorem rebase (hs : s.Numbered) (ids : List Nat) (offset : Nat) :
    (s.rebase ids offset).Numbered := by
  rw [Symbols.rebase]
  induction ids generalizing s with
  | nil => exact hs
  | cons id ids ih => exact ih (hs.modifyFunction id fun _ => rfl)

end Numbered

/-- A table seeded from any other one is numbered. -/
theorem numbered_seededFrom (s : Symbols) : s.seededFrom.Numbered where
  function i f h := by
    rw [seededFrom, List.getElem?_mapIdx] at h
    obtain ⟨g, -, rfl⟩ := Option.map_eq_some_iff.mp h
    rfl
  global i g h := by cases h

end Symbols

end Nss
