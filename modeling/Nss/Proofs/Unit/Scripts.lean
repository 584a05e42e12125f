/-
# Symbol tables of scripts

While a script is emitted, its symbol table is numbered, knows no `void` variable, and does not know
the loader of the global variables, which only comes in the end.  Whatever emission does to a table
keeps it that way.
-/
import Nss.Proofs.Unit.Bodies
import Nss.Proofs.Syntax.Declarations

namespace Nss

namespace Symbols

/-- The symbol tables that the declarations of scripts make. -/
structure Scripted (s : Symbols) : Prop extends s.Numbered, s.NonVoid where
  unloaded : ∀ f ∈ s.functions, f.name ≠ globalsLoader

variable {s s' : Symbols}

theorem scripted_empty : empty.Scripted where
  toNumbered := numbered_empty
  toNonVoid := ⟨List.forall_mem_nil _, List.forall_mem_nil _⟩
  unloaded := List.forall_mem_nil _

/-- A table is seeded without the loader. -/
theorem scripted_seededFrom (hs : s.NonVoid) : s.seededFrom.Scripted := by
  have hkept : ∀ f ∈ s.seededFrom.functions,
      ∃ g ∈ s.functions, g.name ≠ globalsLoader ∧ f.params = g.params ∧ f.name = g.name := by
    intro f hf
    obtain ⟨i, hi⟩ := List.mem_iff_getElem?.mp hf
    rw [seededFrom, List.getElem?_mapIdx] at hi
    obtain ⟨g, hg, rfl⟩ := Option.map_eq_some_iff.mp hi
    obtain ⟨hmem, hname⟩ := List.mem_filter.mp (List.mem_of_getElem? hg)
    exact ⟨g, hmem, of_decide_eq_true hname, rfl, rfl⟩
  refine ⟨numbered_seededFrom s, ⟨?_, List.forall_mem_nil _⟩, ?_⟩
  · intro f hf
    obtain ⟨g, hg, -, hparams, -⟩ := hkept f hf
    rw [hparams]
    exact hs.params g hg
  · intro f hf
    obtain ⟨g, -, hne, -, hname⟩ := hkept f hf
    rw [hname]
    exact hne

theorem mem_modifyFunction {id : Nat} {change : FunctionSymbol → FunctionSymbol}
    {f : FunctionSymbol} (h : f ∈ (s.modifyFunction id change).functions) :
    ∃ g ∈ s.functions, f = g ∨ f = change g := by
  obtain ⟨i, hi⟩ := List.mem_iff_getElem?.mp h
  rw [modifyFunction, List.getElem?_modify] at hi
  obtain ⟨g, hg, rfl⟩ := Option.map_eq_some_iff.mp hi
  refine ⟨g, List.mem_of_getElem? hg, ?_⟩
  split
  · exact .inr rfl
  · exact .inl rfl

theorem NonVoid.insert (hs : s.NonVoid) (name : String) (result : ValueType)
    {params : List ValueType} (hparams : ∀ t ∈ params, t ≠ .void) (unit : String) :
    (s.insert name result params unit).1.NonVoid where
  params := List.forall_mem_append.mpr ⟨hs.params, List.forall_mem_singleton.mpr hparams⟩
  globals := hs.globals

theorem NonVoid.modifyFunction (hs : s.NonVoid) (id : Nat)
    {change : FunctionSymbol → FunctionSymbol} (hchange : ∀ f, (change f).params = f.params) :
    (s.modifyFunction id change).NonVoid where
  params f hf := by
    obtain ⟨g, hg, heq | heq⟩ := mem_modifyFunction hf
    · rw [heq]
      exact hs.params g hg
    · rw [heq, hchange]
      exact hs.params g hg
  globals := hs.globals

namespace Scripted

theorem insert (hs : s.Scripted) {name : String} (hname : name ≠ globalsLoader)
    (result : ValueType) {params : List ValueType} (hparams : ∀ t ∈ params, t ≠ .void)
    (unit : String) : (s.insert name result params unit).1.Scripted where
  toNumbered := hs.toNumbered.insert name result params unit
  toNonVoid := hs.toNonVoid.insert name result hparams unit
  unloaded := List.forall_mem_append.mpr ⟨hs.unloaded, List.forall_mem_singleton.mpr hname⟩

theorem modifyFunction (hs : s.Scripted) (id : Nat) {change : FunctionSymbol → FunctionSymbol}
    (hid : ∀ f, (change f).id = f.id) (hparams : ∀ f, (change f).params = f.params)
    (hname : ∀ f, (change f).name = f.name) : (s.modifyFunction id change).Scripted where
  toNumbered := hs.toNumbered.modifyFunction id hid
  toNonVoid := hs.toNonVoid.modifyFunction id hparams
  unloaded f hf := by
    obtain ⟨g, hg, heq | heq⟩ := mem_modifyFunction hf
    · rw [heq]
      exact hs.unloaded g hg
    · rw [heq, hname]
      exact hs.unloaded g hg

theorem attachBody (hs : s.Scripted) (id : Nat) (body : FunctionBody) :
    (s.attachBody id body).Scripted :=
  hs.modifyFunction id (fun _ => rfl) (fun _ => rfl) fun _ => rfl

theorem rebase (hs : s.Scripted) (ids : List Nat) (offset : Nat) :
    (s.rebase ids offset).Scripted := by
  rw [Symbols.rebase]
  induction ids generalizing s with
  | nil => exact hs
  | cons id ids ih => exact ih (hs.modifyFunction id (fun _ => rfl) (fun _ => rfl) fun _ => rfl)

theorem declareGlobal (hs : s.Scripted) {decl : VarDecl} (hdecl : decl.type ≠ .void)
    {unit : String} {slot : Nat} (h : s.declareGlobal decl unit = .ok (s', slot)) :
    s'.Scripted := by
  have hnumbered := hs.toNumbered.declareGlobal h
  obtain ⟨-, -, -, rfl⟩ := declareGlobal_eq_ok h
  refine ⟨hnumbered, ⟨hs.params, ?_⟩, hs.unloaded⟩
  exact List.forall_mem_append.mpr ⟨hs.globals, List.forall_mem_singleton.mpr hdecl⟩

end Scripted

/-! ## Declarations -/

theorem functions_declareGlobal {decl : VarDecl} {unit : String} {slot : Nat}
    (h : s.declareGlobal decl unit = .ok (s', slot)) : s'.functions = s.functions := by
  obtain ⟨-, -, -, rfl⟩ := declareGlobal_eq_ok h
  rfl

/-- What is known of a function that was declared: no function has another body than before, and if
the declaration has a body, the function had none. -/
structure Declared (s s' : Symbols) (decl : FunctionDecl) (id : Nat) : Prop where
  known : id < s'.functions.length
  length : s.functions.length ≤ s'.functions.length
  bodies : ∀ id', s'.body? id' = s.body? id'
  fresh : decl.body.isSome = true → s.body? id = none

theorem Numbered.declared (hs : s.Numbered) {decl : FunctionDecl} {unit : String} {id : Nat}
    (h : s.declareFunction decl unit = .ok (s', id)) : s.Declared s' decl id := by
  obtain ⟨-, ⟨f, hf, rfl, rfl⟩ | ⟨-, rfl, rfl⟩⟩ := declareFunction_eq_ok h
  · have hfunction := hs.function?_of_lookup? hf.found
    refine ⟨(List.getElem?_eq_some_iff.mp hfunction).1, Nat.le_refl _, fun _ => rfl, ?_⟩
    intro hnew
    rw [body?, hfunction, Option.bind_some, hf.body hnew]
  · have hlength : (s.insert decl.name decl.result (decl.params.map Param.type)
        unit).1.functions.length = s.functions.length + 1 := List.length_append
    refine ⟨?_, ?_, ?_, ?_⟩
    · exact Nat.lt_of_lt_of_eq (Nat.lt_succ_self _) hlength.symm
    · exact Nat.le_trans (Nat.le_succ _) (Nat.le_of_eq hlength.symm)
    · exact fun id' => body?_insert _ _ _ _ id'
    · intro _
      rw [body?, function?]
      show (s.functions[s.functions.length]?).bind _ = none
      rw [List.getElem?_eq_none (Nat.le_refl _)]
      rfl

theorem Scripted.declareFunction (hs : s.Scripted) {decl : FunctionDecl}
    (hdecl : decl.NonVoid) (hname : decl.name ≠ globalsLoader) {unit : String} {id : Nat}
    (h : s.declareFunction decl unit = .ok (s', id)) : s'.Scripted ∧ s.Declared s' decl id := by
  refine ⟨?_, hs.declared h⟩
  obtain ⟨-, ⟨f, -, -, rfl⟩ | ⟨-, -, rfl⟩⟩ := declareFunction_eq_ok h
  · exact hs
  · refine hs.insert hname _ ?_ _
    intro t ht
    obtain ⟨p, hp, rfl⟩ := List.mem_map.mp ht
    exact hdecl.params p hp

end Symbols

end Nss
