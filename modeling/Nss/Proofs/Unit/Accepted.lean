/-
# Declarations that are accepted

What an act does to a symbol table is told by names here: which function a name stands for
afterwards, and which global variables there are.

    a function that is accepted      its name stands for it, with the body that is added, if any
    a global variable with a new name    comes behind the others
    anything else                    nothing is changed

A function is accepted exactly if it fits the function and the variable of its name that are known
already.  Whatever adds no error was accepted.
-/
import Nss.Proofs.Unit.Seeded
import Mathlib.Data.List.Nodup

namespace Nss

namespace Symbols

variable {s s' : Symbols}

/-! ## Functions by their names -/

/-- The names of the functions, in the order of their numbers. -/
def names (s : Symbols) : List String := s.functions.map FunctionSymbol.name

theorem mem_names {name : String} : name ∈ s.names ↔ (s.lookup? name).isSome = true := by
  rw [lookup?, List.find?_isSome, names, List.mem_map]
  exact exists_congr fun f => and_congr Iff.rfl decide_eq_true_iff.symm

/-- If no name stands for two functions, every function is found by its name. -/
theorem lookup?_of_mem (hs : s.names.Nodup) {f : FunctionSymbol} (h : f ∈ s.functions) :
    s.lookup? f.name = some f := by
  obtain ⟨g, hg⟩ := Option.isSome_iff_exists.mp (mem_names.mp (List.mem_map_of_mem h))
  have hsame : g = f :=
    List.inj_on_of_nodup_map hs (List.mem_of_find?_eq_some hg) h (name_of_lookup? hg)
  rw [hg, hsame]

theorem functions_modifyFunction (hs : s.Numbered) (id : Nat)
    (change : FunctionSymbol → FunctionSymbol) :
    (s.modifyFunction id change).functions
      = s.functions.map fun f => if f.id = id then change f else f := by
  refine List.ext_getElem? fun i => ?_
  rw [modifyFunction, List.getElem?_modify, List.getElem?_map]
  cases hf : s.functions[i]? with
  | none => rfl
  | some f =>
      simp only [Option.map_eq_map, Option.map_some, hs.function i f hf, eq_comm]

theorem names_modifyFunction {change : FunctionSymbol → FunctionSymbol}
    (hchange : ∀ f, (change f).name = f.name) (hs : s.Numbered) (id : Nat) :
    (s.modifyFunction id change).names = s.names := by
  rw [names, functions_modifyFunction hs, List.map_map]
  refine List.map_congr_left fun f _ => ?_
  show FunctionSymbol.name (if f.id = id then change f else f) = f.name
  split
  · exact hchange f
  · rfl

/-- A function that is changed is found changed, and the others are found as they were. -/
theorem lookup?_modifyFunction {change : FunctionSymbol → FunctionSymbol}
    (hchange : ∀ f, (change f).name = f.name) (hs : s.Numbered) {name : String} {f : FunctionSymbol}
    (h : s.lookup? name = some f) (other : String) :
    (s.modifyFunction f.id change).lookup? other
      = if other = name then some (change f) else s.lookup? other := by
  have hname (g : FunctionSymbol) : (if g.id = f.id then change g else g).name = g.name := by
    split
    · exact hchange g
    · rfl
  have hmap : (s.modifyFunction f.id change).lookup? other
      = (s.lookup? other).map fun g => if g.id = f.id then change g else g := by
    rw [lookup?, functions_modifyFunction hs, List.find?_map, lookup?]
    simp only [Function.comp_def, hname]
  rw [hmap]
  split
  · next heq => rw [heq, h, Option.map_some, if_pos rfl]
  · next hne =>
      cases hg : s.lookup? other with
      | none => rfl
      | some g =>
          -- functions with different names have different numbers
          have hid : g.id ≠ f.id := by
            intro hid
            have hsame := hs.function?_of_lookup? hg
            rw [hid, hs.function?_of_lookup? h] at hsame
            rw [← name_of_lookup? hg, ← name_of_lookup? h, Option.some.inj hsame] at hne
            exact hne rfl
          rw [Option.map_some, if_neg hid]

theorem names_insert (s : Symbols) (name : String) (result : ValueType) (params : List ValueType)
    (unit : String) : (s.insert name result params unit).1.names = s.names ++ [name] := by
  rw [names, insert, List.map_append]
  rfl

/-- A function that is added is found, and the others are found as they were. -/
theorem lookup?_insert {name : String} (h : s.lookup? name = none) (result : ValueType)
    (params : List ValueType) (unit : String) (other : String) :
    (s.insert name result params unit).1.lookup? other
      = if other = name then some ⟨s.functions.length, name, result, params, unit, none⟩
        else s.lookup? other := by
  rw [lookup?, insert, List.find?_append, ← lookup?, List.find?_singleton]
  by_cases heq : other = name
  · rw [if_pos heq, heq, h, Option.none_or, if_pos (decide_eq_true rfl)]
  · rw [if_neg heq, if_neg (by simpa using Ne.symm heq), Option.or_none]

/-! ## Functions that are accepted -/

/-- A function fits what is known under its name: no variable, and no function with another result or
other parameters, or with a body if it has one itself. -/
structure Accepts (s : Symbols) (decl : FunctionDecl) : Prop where
  apart : s.lookupGlobal? decl.name = none
  result : ∀ f, s.lookup? decl.name = some f → f.result = decl.result
  params : ∀ f, s.lookup? decl.name = some f → f.params = decl.params.map Param.type
  body : ∀ f, s.lookup? decl.name = some f → decl.body.isSome = true → f.body = none

/-- The function that a declaration is of: the one that is known, or a new one. -/
def subject (s : Symbols) (decl : FunctionDecl) (unit : String) : FunctionSymbol :=
  (s.lookup? decl.name).getD
    ⟨s.functions.length, decl.name, decl.result, decl.params.map Param.type, unit, none⟩

/-- A table that knows a function that is declared. -/
def declared (s : Symbols) (decl : FunctionDecl) (unit : String) : Symbols :=
  if (s.lookup? decl.name).isSome then s
  else (s.insert decl.name decl.result (decl.params.map Param.type) unit).1

/-- What the body of a function is lowered to once the function is declared: nothing if there is no
body. -/
def lowered (s : Symbols) (decl : FunctionDecl) (unit : String) : Lowering :=
  if decl.body.isSome then Lowering.ofFunction decl (s.declared decl unit) else ⟨#[], [], []⟩

variable {decl : FunctionDecl} {unit : String}

theorem declareFunction_of_accepts (h : s.Accepts decl) (unit : String) :
    s.declareFunction decl unit = .ok (s.declared decl unit, (s.subject decl unit).id) := by
  rw [declared, subject]
  cases hf : s.lookup? decl.name with
  | none =>
      rw [declareFunction, h.apart, hf]
      rfl
  | some f =>
      have hdeclared : s.Redeclares decl f := ⟨hf, h.result f hf, h.params f hf, h.body f hf⟩
      exact hdeclared.declareFunction h.apart unit

theorem accepts_of_declareFunction {id : Nat} (h : s.declareFunction decl unit = .ok (s', id)) :
    s.Accepts decl := by
  obtain ⟨hapart, ⟨f, hf, -, -⟩ | ⟨hnone, -, -⟩⟩ := declareFunction_eq_ok h
  · have honly (g : FunctionSymbol) (hg : s.lookup? decl.name = some g) : f = g :=
      Option.some.inj (hf.found.symm.trans hg)
    exact ⟨hapart, fun g hg => honly g hg ▸ hf.result, fun g hg => honly g hg ▸ hf.params,
      fun g hg => honly g hg ▸ hf.body⟩
  · have hnot (g : FunctionSymbol) (hg : s.lookup? decl.name = some g) : False := by
      rw [hnone] at hg
      cases hg
    exact ⟨hapart, fun g hg => (hnot g hg).elim, fun g hg => (hnot g hg).elim,
      fun g hg => (hnot g hg).elim⟩

/-- The name of a function that is declared stands for it. -/
theorem lookup?_declared (s : Symbols) (decl : FunctionDecl) (unit name : String) :
    (s.declared decl unit).lookup? name
      = if name = decl.name then some (s.subject decl unit) else s.lookup? name := by
  rw [declared, subject]
  cases hf : s.lookup? decl.name with
  | none =>
      rw [Option.isSome_none, if_neg Bool.false_ne_true, lookup?_insert hf]
      rfl
  | some f =>
      rw [Option.isSome_some, if_pos rfl, Option.getD_some]
      split
      · next heq => rw [heq, hf]
      · rfl

theorem names_declared (s : Symbols) (decl : FunctionDecl) (unit : String) :
    (s.declared decl unit).names
      = s.names ++ (if (s.lookup? decl.name).isSome then [] else [decl.name]) := by
  rw [declared]
  split
  · exact (List.append_nil _).symm
  · exact names_insert _ _ _ _ _

theorem globals_declared (s : Symbols) (decl : FunctionDecl) (unit : String) :
    (s.declared decl unit).globals = s.globals := by
  rw [declared]
  split
  · rfl
  · rfl

end Symbols

/-- The effect of a function that is accepted. -/
theorem FunctionDecl.effect_of_accepts {s : Symbols} {decl : FunctionDecl} (h : s.Accepts decl)
    (unit : String) :
    decl.effect unit s
      = ⟨s.declared decl unit, (s.lowered decl unit).diagnostics,
          if decl.body.isSome then some ((s.subject decl unit).id, s.lowered decl unit)
          else none⟩ := by
  rw [effect, Symbols.declareFunction_of_accepts h unit, Symbols.lowered]
  dsimp only
  split
  · rfl
  · rfl

namespace EmitState

variable {s s' : EmitState} {u : Emit.UnitText}

/-! ## Acts without errors -/

/-- The function that the name of a declaration stands for once its body is added. -/
def defined (s : EmitState) (decl : FunctionDecl) (unit : String) : FunctionSymbol :=
  let l := s.symbols.lowered decl unit
  { s.symbols.subject decl unit with
    body := if decl.body.isSome then some ⟨s.current.code.size, l.code.size, l.labels⟩
      else (s.symbols.subject decl unit).body }

/-- What a function that is accepted leaves. -/
structure Defines (s : EmitState) (decl : FunctionDecl) (unit : String) (s' : EmitState) : Prop where
  lookup : ∀ name, s'.symbols.lookup? name
    = if name = decl.name then some (s.defined decl unit) else s.symbols.lookup? name
  names : s'.symbols.names
    = s.symbols.names ++ (if (s.symbols.lookup? decl.name).isSome then [] else [decl.name])
  globals : s'.symbols.globals = s.symbols.globals
  records : s'.current.records
    = s.current.records ++ (s.symbols.lowered decl unit).code.toList
  entrySeen : s'.entrySeen = (s.entrySeen || isEntryName decl.name)
  errors : s'.current.errors
    = s.current.errors + Diagnostic.errorCount (s.symbols.lowered decl unit).diagnostics

/-- What a global variable that is accepted leaves. -/
structure Extends (s : EmitState) (decl : VarDecl) (unit : String) (s' : EmitState) : Prop where
  functions : s'.symbols.functions = s.symbols.functions
  globals : s'.symbols.globals = s.symbols.globals ++ [⟨s.symbols.globals.length, decl, unit⟩]
  records : s'.current.records = s.current.records
  entrySeen : s'.entrySeen = (s.entrySeen || isEntryName decl.name)
  errors : s'.current.errors
    = s.current.errors + Diagnostic.errorCount (Lowering.checkGlobal s.symbols.globals.length s'.symbols)

theorem errors_takes {e : Effect} (h : s.takes u e = some s') :
    s'.current.errors = s.current.errors + Diagnostic.errorCount e.diagnostics := by
  rcases takes_eq_some h with ⟨-, rfl⟩ | ⟨id, l, -, -, rfl⟩
  · exact Emit.errors_reports _ u _
  · exact Emit.errors_reports { s with symbols := e.symbols } u _

/-- A function that adds no error is accepted. -/
theorem accepts_of_perform {decl : FunctionDecl}
    (h : s.perform (.declaration u (.function decl)) = some s')
    (herrors : s'.current.errors = s.current.errors) : s.symbols.Accepts decl := by
  have hadd := errors_takes h
  rw [herrors, Declaration.effect, FunctionDecl.effect] at hadd
  cases hdeclare : s.symbols.declareFunction decl u.name with
  | error d =>
      rw [hdeclare] at hadd
      exact absurd (Nat.left_eq_add.mp hadd)
        (Diagnostic.errorCount_pos List.mem_cons_self (Symbols.isError_declareFunction hdeclare))
  | ok declared => exact Symbols.accepts_of_declareFunction hdeclare

/-- What a function leaves that is not accepted. -/
theorem symbols_of_not_accepts {decl : FunctionDecl} (hnot : ¬ s.symbols.Accepts decl)
    (h : s.perform (.declaration u (.function decl)) = some s') :
    s'.symbols = s.symbols ∧ s'.current.records = s.current.records ∧
      s'.entrySeen = (s.entrySeen || isEntryName decl.name) := by
  rw [perform, Declaration.effect, FunctionDecl.effect] at h
  cases hdeclare : s.symbols.declareFunction decl u.name with
  | error d =>
      rw [hdeclare] at h
      obtain rfl := Option.some.inj h
      exact ⟨rfl, rfl, rfl⟩
  | ok declared => exact absurd (Symbols.accepts_of_declareFunction hdeclare) hnot

/-- What is left by a function that is accepted. -/
theorem defines_of_accepts {decl : FunctionDecl} (hs : s.symbols.Numbered)
    (h : s.perform (.declaration u (.function decl)) = some s') (haccepts : s.symbols.Accepts decl) :
    s.Defines decl u.name s' := by
  have herrors := errors_takes h
  have heffect := FunctionDecl.effect_of_accepts haccepts u.name
  rw [perform, Declaration.effect, heffect] at h
  rw [Declaration.effect, heffect] at herrors
  have hnumbered : (s.symbols.declared decl u.name).Numbered :=
    hs.declareFunction (Symbols.declareFunction_of_accepts haccepts u.name)
  have hfound := s.symbols.lookup?_declared decl u.name
  have hself := hfound decl.name
  rw [if_pos rfl] at hself
  by_cases hbody : decl.body.isSome = true
  · rw [if_pos hbody] at h
    obtain ⟨hnone, -⟩ | ⟨id, l, hadded, -, rfl⟩ := takes_eq_some h
    · cases hnone
    · obtain ⟨rfl, rfl⟩ := Prod.mk.inj (Option.some.inj hadded)
      let body : FunctionBody := ⟨s.current.code.size, (s.symbols.lowered decl u.name).code.size,
        (s.symbols.lowered decl u.name).labels⟩
      let change (f : FunctionSymbol) : FunctionSymbol := { f with body := some body }
      have hchange (f : FunctionSymbol) : (change f).name = f.name := rfl
      have hlookup := Symbols.lookup?_modifyFunction hchange hnumbered hself
      refine ⟨?_, ?_, s.symbols.globals_declared decl u.name, ?_, rfl, herrors⟩
      · intro name
        refine (hlookup name).trans ?_
        rw [hfound, defined, if_pos hbody]
        split
        · rfl
        · rfl
      · rw [← Symbols.names_declared s.symbols decl u.name]
        exact Symbols.names_modifyFunction hchange hnumbered _
      · exact Array.toList_append
  · rw [if_neg hbody] at h
    obtain ⟨-, rfl⟩ | ⟨id, l, hadded, -⟩ := takes_eq_some h
    · have hcode : (s.symbols.lowered decl u.name).code.toList = [] := by
        rw [Symbols.lowered, if_neg hbody]
      refine ⟨?_, s.symbols.names_declared decl u.name, s.symbols.globals_declared decl u.name, ?_,
        rfl, herrors⟩
      · intro name
        refine (hfound name).trans ?_
        rw [defined, if_neg hbody]
      · rw [hcode, List.append_nil]
        rfl
    · cases hadded

/-- A global variable that adds no error has a new name. -/
theorem new_of_perform {decl : VarDecl}
    (h : s.perform (.declaration u (.global decl)) = some s')
    (herrors : s'.current.errors = s.current.errors) :
    s.symbols.lookupGlobal? decl.name = none ∧ s.symbols.lookup? decl.name = none := by
  have hadd := errors_takes h
  rw [herrors, Declaration.effect, VarDecl.effect] at hadd
  cases hdeclare : s.symbols.declareGlobal decl u.name with
  | error d =>
      rw [hdeclare] at hadd
      exact absurd (Nat.left_eq_add.mp hadd)
        (Diagnostic.errorCount_pos List.mem_cons_self (Symbols.isError_declareGlobal hdeclare))
  | ok declared =>
      obtain ⟨hglobal, hfunction, -⟩ := Symbols.declareGlobal_eq_ok hdeclare
      exact ⟨hglobal, hfunction⟩

/-- What is left by a global variable with a new name. -/
theorem extends_of_new {decl : VarDecl} (h : s.perform (.declaration u (.global decl)) = some s')
    (hglobal : s.symbols.lookupGlobal? decl.name = none)
    (hfunction : s.symbols.lookup? decl.name = none) : s.Extends decl u.name s' := by
  have herrors := errors_takes h
  have hdeclare : s.symbols.declareGlobal decl u.name
      = .ok ({ s.symbols with
          globals := s.symbols.globals ++ [⟨s.symbols.globals.length, decl, u.name⟩] },
        s.symbols.globals.length) := by
    rw [Symbols.declareGlobal, hglobal, hfunction]
    rfl
  rw [perform, Declaration.effect, VarDecl.effect, hdeclare] at h
  rw [Declaration.effect, VarDecl.effect, hdeclare] at herrors
  obtain ⟨-, rfl⟩ | ⟨id, l, hadded, -⟩ := takes_eq_some h
  · exact ⟨rfl, rfl, rfl, rfl, herrors⟩
  · cases hadded

/-! ## Names -/

/-- No act makes a name stand for two functions. -/
theorem nodup_names_perform {a : Act} (hs : s.symbols.Numbered) (hnames : s.symbols.names.Nodup)
    (h : s.perform a = some s') : s'.symbols.names.Nodup := by
  cases a with
  | problem u d =>
      obtain rfl := Option.some.inj h
      exact hnames
  | registered key =>
      obtain rfl := Option.some.inj h
      exact hnames
  | declaration u decl =>
      cases decl with
      | function decl =>
          by_cases haccepts : s.symbols.Accepts decl
          · rw [(defines_of_accepts hs h haccepts).names]
            split
            · rwa [List.append_nil]
            · next hnew =>
                refine List.Nodup.append hnames (List.nodup_singleton _) ?_
                exact List.disjoint_singleton.mpr fun hmem => hnew (Symbols.mem_names.mp hmem)
          · rwa [(symbols_of_not_accepts haccepts h).1]
      | global decl =>
          have hfunctions : (decl.effect u.name s.symbols).symbols.functions = s.symbols.functions := by
            rw [VarDecl.effect]
            cases hdeclare : s.symbols.declareGlobal decl u.name with
            | error d => rfl
            | ok declared => exact Symbols.functions_declareGlobal hdeclare
          have hsame : s'.symbols.functions = s.symbols.functions := by
            rcases takes_eq_some h with ⟨-, rfl⟩ | ⟨id, l, hbody, -⟩
            · exact hfunctions
            · rw [Declaration.effect, VarDecl.effect] at hbody
              split at hbody
              · cases hbody
              · cases hbody
          rwa [Symbols.names, hsame]

theorem nodup_names_performAll {acts : List Act} (hs : s.Ready) (hnames : s.symbols.names.Nodup)
    (h : s.performAll acts = some s') : s'.symbols.names.Nodup := by
  induction acts generalizing s with
  | nil =>
      obtain rfl := Option.some.inj h
      exact hnames
  | cons a rest ih =>
      obtain ⟨t, ht, h⟩ := Option.bind_eq_some_iff.mp h
      exact ih (hs.perform ht) (nodup_names_perform hs.numbered hnames ht) h

end EmitState

end Nss
