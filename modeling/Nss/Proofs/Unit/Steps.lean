/-
# Steps of an emission

What the steps of an emission leave, and the errors that they stop with: one equation for each of
them.  Proofs about emissions go by these equations and open no step.

    reportAll     the diagnostics are added to the unit at hand
    addBody       code comes behind that of the unit at hand, as the body of a function
    declare       the effect of a declaration is carried out (`Emit.carry`)
    part          each part of a unit is one of these
    nested        a key is registered, and a unit is begun, emitted and taken over
    addLoader     the loader of the global variables is added, if there are any
    finish        a unit without an entry point is marked before that
    root          the parts of the outermost unit come before its end
-/
import Nss.Unit.Emission
import Nss.Proofs.Unit.Effects

namespace Nss

open Steps

/-! ## States -/

/-- A unit with more diagnostics. -/
def Instance.reports (i : Instance) (ds : List Diagnostic) : Instance :=
  { i with errors := i.errors + Diagnostic.errorCount ds, diagnostics := i.diagnostics ++ ds }

namespace EmitState

/-- A state with more diagnostics of a unit. -/
def reports (s : EmitState) (u : Emit.UnitText) (ds : List Diagnostic) : EmitState :=
  { s with current := s.current.reports (ds.map fun d => d.located u.name u.text) }

/-- A state in which the name of a declaration was seen. -/
def notes (s : EmitState) (decl : Declaration) : EmitState :=
  { s with entrySeen := s.entrySeen || isEntryName decl.name }

/-- A state in which a key is registered. -/
def registering (s : EmitState) (key : String) : EmitState :=
  { s with registry := (s.registry.register key).2 }

/-- A state in which an opened unit is at hand. -/
def entering (s : EmitState) (key : String) (child : Instance) : EmitState :=
  { s with
    current := child
    outer := s.current :: s.outer
    registry := (s.registry.register key).2 }

/-- A state at the end of the outermost unit: one without an entry point can only be included. -/
def concluded (s : EmitState) : EmitState :=
  let declared := (s.symbols.lookup? Symbols.mainName).isSome
    || (s.symbols.lookup? Symbols.conditionName).isSome
  if !declared && !s.entrySeen then
    { s with current := (s.current.report (.error .noEntryPoint .origin)).markInclude }
  else s

/-- The type of the value that the loader of the global variables passes on. -/
def loaderResult (s : EmitState) : ValueType :=
  match s.symbols.startFunction? with
  | some f => f.result
  | none => .void

end EmitState

namespace Emit

open EmitState

variable {u : UnitText}

/-! ## Diagnostics -/

theorem reports_cons (i : Instance) (d : Diagnostic) (ds : List Diagnostic) :
    i.reports (d :: ds) = (i.report d).reports ds := by
  rw [Instance.reports, Instance.reports, Instance.report, Diagnostic.errorCount,
    Diagnostic.errorCount, List.countP_cons, List.append_assoc]
  split
  · rw [Nat.add_assoc, Nat.add_comm 1]
    rfl
  · rfl

theorem reports_nil (i : Instance) : i.reports [] = i := by
  rw [Instance.reports, List.append_nil]
  rfl

theorem reports_none (s : EmitState) : s.reports u [] = s := by
  rw [EmitState.reports, List.map_nil, reports_nil]

theorem reportAll_apply : ∀ (ds : List Diagnostic) (s : EmitState),
    reportAll u ds s = .ok () (s.reports u ds)
  | [], s => by
      rw [reports_none]
      rfl
  | d :: rest, s => by
      rw [reportAll, bind_apply, report, modify_apply]
      dsimp only
      rw [reportAll_apply rest, EmitState.reports, EmitState.reports, List.map_cons, reports_cons]

theorem isError_located (d : Diagnostic) (unit source : String) :
    (d.located unit source).isError = d.isError := by
  rw [Diagnostic.located]
  cases d.unit with
  | none | some _ => rfl

theorem errorCount_located (u : UnitText) (ds : List Diagnostic) :
    Diagnostic.errorCount (ds.map fun d => d.located u.name u.text) = Diagnostic.errorCount ds := by
  rw [Diagnostic.errorCount, Diagnostic.errorCount, List.countP_map]
  refine List.countP_congr fun d _ => ?_
  rw [Function.comp_apply, isError_located]

theorem errors_reports (s : EmitState) (u : UnitText) (ds : List Diagnostic) :
    (s.reports u ds).current.errors = s.current.errors + Diagnostic.errorCount ds :=
  congrArg (s.current.errors + ·) (errorCount_located u ds)

/-! ## Code -/

theorem addBody_apply (id : Nat) (l : Lowering) (s : EmitState) :
    addBody id l s = match s.current.appendCode addressable l with
      | (i, .error e) => .error e { s with current := i }
      | (i, .ok body) =>
        .ok () { s with current := i.define id, symbols := s.symbols.attachBody id body } := by
  rw [addBody, bind_apply, get_apply]
  dsimp only
  rcases s.current.appendCode addressable l with ⟨i, e | body⟩
  · rfl
  · rfl

theorem absorb_apply (child : Instance) (s : EmitState) :
    absorb child s = match s.current.absorb addressable child with
      | (i, _, .error e) => .error e { s with current := i }
      | (i, _, .ok offset) =>
        .ok () { s with current := i, symbols := s.symbols.rebase child.defined offset } := by
  rw [absorb, bind_apply, get_apply]
  dsimp only
  rcases s.current.absorb addressable child with ⟨i, left, e | offset⟩
  · rfl
  · rfl

/-- A finished unit is taken over by the instance at hand, and its bodies are moved along. -/
theorem absorb_eq_ok {child : Instance} {s s' : EmitState} :
    absorb child s = .ok () s' ↔
      ∃ i left offset, s.current.absorb addressable child = (i, left, .ok offset) ∧
        s' = { s with current := i, symbols := s.symbols.rebase child.defined offset } := by
  rw [absorb_apply]
  rcases s.current.absorb addressable child with ⟨i, left, e | offset⟩
  · simp
  · simp [eq_comm]

/-! ## Declarations -/

/-- An effect is carried out: the table and the diagnostics first, then the code. -/
def carry (u : UnitText) (e : Effect) (s : EmitState) : EStateM.Result Error EmitState Unit :=
  let t := { s with symbols := e.symbols }.reports u e.diagnostics
  match e.body with
  | some (id, l) => addBody id l t
  | none => .ok () t

/-- To make a declaration is to carry out its effect. -/
theorem declare_apply (decl : Declaration) (s : EmitState) :
    declare u decl s = carry u (decl.effect u.name s.symbols) s := by
  cases decl with
  | global decl =>
      show declareGlobal u decl s = carry u (decl.effect u.name s.symbols) s
      rw [declareGlobal, bind_apply, get_apply, VarDecl.effect]
      dsimp only
      cases s.symbols.declareGlobal decl u.name with
      | error d => exact reportAll_apply [d] s
      | ok declared => exact reportAll_apply _ { s with symbols := declared.1 }
  | function decl =>
      show declareFunction u decl s = carry u (decl.effect u.name s.symbols) s
      rw [declareFunction, bind_apply, get_apply, FunctionDecl.effect]
      dsimp only
      cases s.symbols.declareFunction decl u.name with
      | error d => exact reportAll_apply [d] s
      | ok declared =>
          dsimp only
          rw [bind_apply, modify_apply]
          dsimp only
          cases hbody : decl.body.isSome with
          | false =>
              simp only [Bool.false_eq_true, if_false]
              rw [pure_apply, carry]
              dsimp only
              rw [reports_none]
          | true =>
              rw [if_pos rfl, if_pos rfl, bind_apply, reportAll_apply]
              rfl

/-! ## Parts of units -/

theorem part_problem_apply (mode : EmitMode) (u : UnitText) (d : Diagnostic) (s : EmitState) :
    part mode u (.problem d) s = .ok () (s.reports u [d]) := by
  rw [part, reportAll_apply]

theorem part_declaration_apply (mode : EmitMode) (u : UnitText) (decl : Declaration)
    (s : EmitState) :
    part mode u (.declaration decl) s = match mode with
      | .full => carry u (decl.effect u.name s.symbols) (s.notes decl)
      | .scanOnly => .ok () (s.notes decl) := by
  rw [part.eq_def]
  dsimp only
  rw [noteEntry, bind_apply, modify_apply]
  cases mode with
  | full => exact declare_apply decl (s.notes decl)
  | scanOnly => rfl

theorem part_repeated_apply (mode : EmitMode) (u : UnitText) (key : String) (s : EmitState) :
    part mode u (.repeated key) s = .ok () s := by
  rw [part, pure_apply]

theorem part_missing_apply (mode : EmitMode) (u : UnitText) (key path : String) (span : Span)
    (s : EmitState) :
    part mode u (.missing key path span) s
      = .ok () ((s.registering key).reports u [.error (.cannotOpenInclude path) span]) := by
  rw [part, register, bind_apply, modify_apply]
  dsimp only
  rw [reportAll_apply]
  rfl

theorem nested_apply (key : String) (source : Bytes) (content : Emit Unit) (s : EmitState) :
    nested key source content s =
      match Instance.begin? addressable key source s.current.debug false with
      | .error e => .error e (s.registering key)
      | .ok child =>
        match content (s.entering key child) with
        | .ok _ t => absorb t.current { t with current := s.current, outer := s.outer }
        | .error e t => .error e { t with current := s.current, outer := s.outer } := by
  rw [nested, register, bind_apply, modify_apply]
  dsimp only
  rw [bind_apply, get_apply]
  dsimp only
  cases Instance.begin? addressable key source s.current.debug false with
  | error e => rfl
  | ok child =>
      dsimp only
      rw [bind_apply, inside, entering]
      dsimp only
      cases content { s with
        current := child
        outer := s.current :: s.outer
        registry := (s.registry.register key).2 } with
      | ok _ t => rfl
      | error e t => rfl

/-- A unit of its own is begun, emitted and taken over. -/
theorem nested_eq_ok {key : String} {source : Bytes} {content : Emit Unit} {s s' : EmitState} :
    nested key source content s = .ok () s' ↔
      ∃ child t, Instance.begin? addressable key source s.current.debug false = .ok child ∧
        content (s.entering key child) = .ok () t ∧
        absorb t.current { t with current := s.current, outer := s.outer } = .ok () s' := by
  rw [nested_apply]
  cases Instance.begin? addressable key source s.current.debug false with
  | error e => simp
  | ok child =>
      cases hcontent : content (s.entering key child) with
      | error e t => simp [hcontent]
      | ok _ t => simp [hcontent]

/-! ## The outermost unit -/

theorem addLoader_apply (s : EmitState) :
    addLoader s = if s.symbols.globals.isEmpty then .ok () s else
      addBody (s.symbols.declareLoader s.loaderResult s.current.name).2
        (Lowering.ofGlobals s.symbols s.symbols.startFunction?)
        { s with symbols := (s.symbols.declareLoader s.loaderResult s.current.name).1 } := by
  rw [addLoader, bind_apply, get_apply]
  dsimp only
  split
  · rfl
  · rw [bind_apply, set_apply]
    rfl

theorem finish_apply (mode : EmitMode) (s : EmitState) :
    finish mode s = match mode with
      | .full => addLoader s.concluded
      | .scanOnly => .ok () s.concluded := by
  rw [finish.eq_def, bind_apply, get_apply, concluded]
  dsimp only
  cases mode with
  | full =>
      split
      · rfl
      · rfl
  | scanOnly =>
      split
      · rfl
      · rfl

theorem root_apply (front : FrontEnd) (loader : Loader) (mode : EmitMode) (s : EmitState) :
    root front loader mode s = match s.current.source.bytes? with
      | none => .error .instanceDestroyed { s with entrySeen := false }
      | some source =>
        (parts mode ⟨s.current.name, Bytes.toText source⟩
          (content front loader mode s.registry s.current.name source) >>= fun _ => finish mode)
          { s with entrySeen := false } := by
  rw [root, bind_apply, modify_apply]
  dsimp only
  rw [bind_apply, get_apply]
  dsimp only
  cases s.current.source.bytes? with
  | none | some source => rfl

end Emit

end Nss
