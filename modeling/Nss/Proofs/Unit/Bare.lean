/-
# Emission apart from the names of units

The unit that something belongs to is kept with every function, global variable and diagnostic, but
nothing is decided by it.  `bare` takes it away, and with it the lines of diagnostics and the
registry.  Acts that are the same apart from their units, performed in states that are the same
apart from units, leave such states again, and end for want of memory in the same place; to
register a key is then no act at all.

Each part of an act is brought to its bare form first, where the unit is the empty one; the run lemma
`performAll_bare` puts them together.
-/
import Nss.Proofs.Unit.Flat

namespace Nss

/-! ## Taking units away -/

/-- A diagnostic without its unit and its line. -/
def Diagnostic.bare (d : Diagnostic) : Diagnostic := { d with unit := none, line := none }

/-- A function without its unit. -/
def FunctionSymbol.bare (f : FunctionSymbol) : FunctionSymbol := { f with unit := "" }

/-- A global variable without its unit. -/
def GlobalSymbol.bare (g : GlobalSymbol) : GlobalSymbol := { g with unit := "" }

/-- A symbol table without units. -/
def Symbols.bare (s : Symbols) : Symbols :=
  ⟨s.functions.map FunctionSymbol.bare, s.globals.map GlobalSymbol.bare⟩

/-- A unit under compilation whose diagnostics have no units. -/
def Instance.bare (i : Instance) : Instance :=
  { i with diagnostics := i.diagnostics.map Diagnostic.bare }

/-- A state of an emission without units and registry. -/
def EmitState.bare (s : EmitState) : EmitState :=
  { s with current := s.current.bare, registry := .empty, symbols := s.symbols.bare }

/-- An act without its unit.  To register a key is none. -/
def Act.bare? : Act → Option Act
  | .problem _ d => some (.problem ⟨"", ""⟩ d)
  | .declaration _ decl => some (.declaration ⟨"", ""⟩ decl)
  | .registered _ => none

theorem Diagnostic.bare_located (d : Diagnostic) (unit source : String) :
    (d.located unit source).bare = d.bare := by
  rw [located]
  split
  · rfl
  · rfl

/-! ## Symbol tables -/

namespace Symbols

variable {s s' : Symbols}

theorem lookup?_bare (s : Symbols) (name : String) :
    s.bare.lookup? name = (s.lookup? name).map FunctionSymbol.bare := by
  rw [lookup?, lookup?, bare, List.find?_map]
  rfl

theorem entries_bare (s : Symbols) :
    s.bare.globals.map GlobalSymbol.entry = s.globals.map GlobalSymbol.entry := by
  rw [bare, List.map_map]
  rfl

theorem insert_bare (s : Symbols) (name : String) (result : ValueType) (params : List ValueType)
    (unit : String) :
    s.bare.insert name result params ""
      = ((s.insert name result params unit).1.bare, s.functions.length) := by
  rw [insert, insert, bare, bare]
  simp only [List.length_map, List.map_append]
  rfl

/-- A declaration does not see the units in a table. -/
theorem unseen_bare (unit : String) : Unseen bare unit "" where
  lookup s name := by
    rw [lookup?_bare]
    cases s.lookup? name with
    | none => exact .none
    | some f => exact .some ⟨⟨rfl, rfl, rfl⟩, rfl⟩
  globals := entries_bare
  insert s name result params := s.insert_bare name result params unit
  extend s decl := by
    simp only [bare, List.map_append, List.map_cons, List.map_nil, GlobalSymbol.bare]

/-- What is made of every element is made of a changed one, if that is changed likewise. -/
theorem map_modify {α β : Type} {f : α → β} {change : α → α} {change' : β → β}
    (h : ∀ a, f (change a) = change' (f a)) (l : List α) (i : Nat) :
    (l.modify i change).map f = (l.map f).modify i change' := by
  refine List.ext_getElem? fun j => ?_
  rw [List.getElem?_map, List.getElem?_modify, List.getElem?_modify, List.getElem?_map]
  cases l[j]? with
  | none => rfl
  | some a =>
      show some (f (if i = j then change a else a)) = some (if i = j then change' (f a) else f a)
      split
      · rw [h]
      · rfl

theorem modifyFunction_bare (change : FunctionSymbol → FunctionSymbol)
    (h : ∀ f, (change f).bare = change f.bare) (s : Symbols) (id : Nat) :
    (s.modifyFunction id change).bare = s.bare.modifyFunction id change :=
  congrArg (Symbols.mk · (s.globals.map GlobalSymbol.bare)) (map_modify h s.functions id)

theorem attachBody_bare (s : Symbols) (id : Nat) (b : FunctionBody) :
    (s.attachBody id b).bare = s.bare.attachBody id b :=
  modifyFunction_bare (fun f => { f with body := some b }) (fun _ => rfl) s id

theorem bare_bare (s : Symbols) : s.bare.bare = s.bare := by
  rw [bare, bare, List.map_map, List.map_map]
  rfl

/-- The loader gets the same number, whatever unit it is added in. -/
theorem declareLoader_bare (s : Symbols) (result : ValueType) (unit unit' : String) :
    (s.bare.declareLoader result unit').1.bare = (s.declareLoader result unit).1.bare ∧
      (s.bare.declareLoader result unit').2 = (s.declareLoader result unit).2 := by
  rw [declareLoader, declareLoader, lookup?_bare]
  cases s.lookup? globalsLoader with
  | none =>
      have hbare := s.bare.insert_bare globalsLoader result [] unit'
      rw [bare_bare, s.insert_bare globalsLoader result [] unit] at hbare
      obtain ⟨hsymbols, -⟩ := Prod.mk.inj hbare
      exact ⟨hsymbols.symm, List.length_map _⟩
  | some f =>
      let reset (f : FunctionSymbol) : FunctionSymbol := { f with result, body := none }
      have hreset (s : Symbols) := modifyFunction_bare reset (fun _ => rfl) s f.id
      refine ⟨?_, rfl⟩
      show (s.bare.modifyFunction f.id reset).bare = (s.modifyFunction f.id reset).bare
      rw [hreset, hreset, bare_bare]

theorem startFunction?_bare (s : Symbols) :
    s.bare.startFunction? = s.startFunction?.map FunctionSymbol.bare := by
  rw [startFunction?, startFunction?, lookup?_bare, lookup?_bare]
  cases s.lookup? mainName with
  | none =>
      cases s.lookup? conditionName with
      | none => rfl
      | some f =>
          show (some f.bare).filter _ = ((some f).filter _).map FunctionSymbol.bare
          rw [Option.filter_some, Option.filter_some]
          show (if decide (f.result = .int) then _ else _) = _
          split
          · rfl
          · rfl
  | some f =>
      show (if f.result.isVoid then some f.bare else none) = _
      dsimp only
      split
      · rfl
      · rfl

end Symbols

/-! ## Acts -/

theorem Diagnostic.errorCount_bare (ds : List Diagnostic) :
    errorCount (ds.map Diagnostic.bare) = errorCount ds := by
  rw [errorCount, errorCount, List.countP_map]
  rfl

namespace EmitState

variable {s s' : EmitState}

theorem bare_bare (s : EmitState) : s.bare.bare = s.bare := by
  rw [bare, bare, Instance.bare, Instance.bare, Symbols.bare_bare]
  simp only [List.map_map]
  rfl

/-- Another symbol table, in a state with units and in one without. -/
theorem bare_with (s : EmitState) {symbols symbols' : Symbols} (h : symbols'.bare = symbols.bare) :
    { s with symbols }.bare = { s.bare with symbols := symbols' }.bare := by
  have hbare : { s.bare with symbols := symbols' }.bare
      = { s.bare.bare with symbols := symbols'.bare } :=
    rfl
  rw [hbare, bare_bare, h]
  rfl

theorem bare_reports (s : EmitState) (u : Emit.UnitText) (ds : List Diagnostic) :
    (s.reports u ds).bare
      = { s.bare with current := s.bare.current.reports (ds.map Diagnostic.bare) } := by
  have hds : (ds.map fun d => d.located u.name u.text).map Diagnostic.bare
      = ds.map Diagnostic.bare := by
    rw [List.map_map]
    exact List.map_congr_left fun d _ => d.bare_located u.name u.text
  have hcount : Diagnostic.errorCount (ds.map fun d => d.located u.name u.text)
      = Diagnostic.errorCount (ds.map Diagnostic.bare) := by
    rw [← hds, Diagnostic.errorCount_bare]
  rw [bare, reports, Instance.bare, Instance.reports, List.map_append, hds, hcount]
  rfl

theorem bare_adds (s : EmitState) (id : Nat) (l : Lowering) :
    (s.adds id l).bare = s.bare.adds id l := by
  rw [bare, adds, Symbols.attachBody_bare]
  rfl

theorem takes_bare (s : EmitState) (u v : Emit.UnitText) (e : Effect) :
    (s.takes u e).map bare = (s.bare.takes v (e.map Symbols.bare)).map bare := by
  have hsame : ({ s with symbols := e.symbols }.reports u e.diagnostics).bare
      = ({ s.bare with symbols := e.symbols.bare }.reports v e.diagnostics).bare := by
    rw [bare_reports, bare_reports, s.bare_with e.symbols.bare_bare]
  rw [takes, takes, Effect.map]
  dsimp only
  cases e.body with
  | none => exact congrArg some hsame
  | some added =>
      obtain ⟨id, l⟩ := added
      have hadds : (({ s with symbols := e.symbols }.reports u e.diagnostics).adds id l).bare
          = (({ s.bare with symbols := e.symbols.bare }.reports v e.diagnostics).adds id l).bare := by
        rw [bare_adds, bare_adds, hsame]
      dsimp only
      have hsize : s.bare.current.code.size = s.current.code.size := rfl
      rw [hsize]
      split
      · exact congrArg some hadds
      · rfl

theorem perform_bare (s : EmitState) {a b : Act} (h : a.bare? = some b) :
    (s.perform a).map bare = (s.bare.perform b).map bare := by
  cases a with
  | problem u d =>
      obtain rfl := Option.some.inj h
      refine congrArg some ?_
      rw [bare_reports, bare_reports, bare_bare]
  | declaration u decl =>
      obtain rfl := Option.some.inj h
      have heffect : decl.effect "" s.bare.symbols = (decl.effect u.name s.symbols).map Symbols.bare :=
        (Symbols.unseen_bare u.name).effect s.symbols decl
      rw [perform, perform, heffect]
      exact (s.notes decl).takes_bare u _ _
  | registered key => cases h

/-- The same act apart from units, in states that are the same apart from units. -/
theorem perform_congr (h : s'.bare = s.bare) {a b : Act} (hab : a.bare? = some b) :
    (s.perform a).map bare = (s'.perform b).map bare := by
  have hb : b.bare? = some b := by
    cases a with
    | problem u d | declaration u decl =>
        obtain rfl := Option.some.inj hab
        rfl
    | registered key => cases hab
  rw [s.perform_bare hab, s'.perform_bare hb, h]

/-- Steps that leave the same apart from units are followed by the same. -/
theorem bind_congr {x y : Option EmitState} {k k' : EmitState → Option EmitState}
    (h : x.map bare = y.map bare)
    (hk : ∀ {t t' : EmitState}, t'.bare = t.bare → (k t).map bare = (k' t').map bare) :
    (x.bind k).map bare = (y.bind k').map bare := by
  cases x with
  | none =>
      obtain rfl := Option.map_eq_none_iff.mp h.symm
      rfl
  | some t =>
      obtain ⟨t', rfl, heq⟩ := Option.map_eq_some_iff.mp h.symm
      exact hk heq

/-- Acts may be performed without their units. -/
theorem performAll_bare : ∀ (acts : List Act) {s s' : EmitState}, s'.bare = s.bare →
    (s.performAll acts).map bare = (s'.performAll (acts.filterMap Act.bare?)).map bare
  | [], _, _, h => congrArg some h.symm
  | .problem _ _ :: rest, _, _, h => bind_congr (perform_congr h rfl) (performAll_bare rest)
  | .declaration _ _ :: rest, _, _, h => bind_congr (perform_congr h rfl) (performAll_bare rest)
  | .registered key :: rest, s, _, h =>
      performAll_bare rest (s := { s with registry := (s.registry.register key).2 }) h

/-- Acts that are the same apart from units leave the same apart from units. -/
theorem performAll_congr {acts acts' : List Act}
    (hacts : acts'.filterMap Act.bare? = acts.filterMap Act.bare?) (h : s'.bare = s.bare) :
    (s'.performAll acts').map bare = (s.performAll acts).map bare := by
  have hrefl : s'.bare = s'.bare := rfl
  rw [performAll_bare acts' hrefl, performAll_bare acts h, hacts]

/-! ### The end of the outermost unit -/

theorem concluded_bare (s : EmitState) : s.concluded.bare = s.bare.concluded := by
  have hlookup (name : String) :
      (s.bare.symbols.lookup? name).isSome = (s.symbols.lookup? name).isSome := by
    show (s.symbols.bare.lookup? name).isSome = _
    rw [Symbols.lookup?_bare, Option.isSome_map]
  have hseen : s.bare.entrySeen = s.entrySeen := rfl
  rw [concluded, concluded, hlookup, hlookup, hseen]
  split
  · simp only [bare, Instance.bare, Instance.markInclude, Instance.report, List.map_append,
      List.map_cons, List.map_nil]
    rfl
  · rfl

theorem loads_bare (s : EmitState) : s.loads.map bare = s.bare.loads.map bare := by
  have hstart : s.bare.symbols.startFunction? = s.symbols.startFunction?.map FunctionSymbol.bare :=
    s.symbols.startFunction?_bare
  have hresult : s.bare.loaderResult = s.loaderResult := by
    rw [loaderResult, loaderResult, hstart]
    cases s.symbols.startFunction? with
    | none | some f => rfl
  have hlowering : Lowering.ofGlobals s.bare.symbols s.bare.symbols.startFunction?
      = Lowering.ofGlobals s.symbols s.symbols.startFunction? := by
    have hunseen := Symbols.unseen_bare ""
    refine Lowering.ofGlobals_congr (hunseen.within _) (hunseen.within_back _) ?_
    rw [hstart]
    cases s.symbols.startFunction? with
    | none => exact .none
    | some f => exact .some ⟨rfl, rfl, rfl⟩
  have hempty : s.bare.symbols.globals.isEmpty = s.symbols.globals.isEmpty := List.isEmpty_map
  rw [loads, loads, hempty]
  split
  · exact congrArg some s.bare_bare.symm
  · obtain ⟨hsymbols, hid⟩ :=
      s.symbols.declareLoader_bare s.loaderResult s.current.name s.current.name
    have hadds (l : Lowering) :
        ({ s with symbols := (s.symbols.declareLoader s.loaderResult s.current.name).1 }.adds
          (s.symbols.declareLoader s.loaderResult s.current.name).2 l).bare
        = ({ s.bare with symbols := (s.symbols.bare.declareLoader s.loaderResult s.current.name).1
            }.adds (s.symbols.bare.declareLoader s.loaderResult s.current.name).2 l).bare := by
      rw [bare_adds, bare_adds, hid, s.bare_with hsymbols]
    have hsize : s.bare.current.code.size = s.current.code.size := rfl
    rw [hresult, hlowering, hsize]
    dsimp only
    split
    · exact congrArg some (hadds _)
    · rfl

end EmitState

end Nss
