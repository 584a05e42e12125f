/-
# Views of a compilation

Two compilations are compared by what is seen of them.  No view shows whether a unit is compiled in
debug mode: not who holds its source, nor its flags.  The `whole` view shows all the rest.  The
`unplaced` one leaves out the places in the scripts as well, and how large these are.

    instance, state    `viewed v`, what is seen of it
    anything else      `v.of unplaced`, which is `unplaced` in the second view only
-/
import Nss.Proofs.Places.Lowering
import Nss.Unit.Emission

namespace Nss

/-- What is seen of a compilation. -/
inductive View where
  /-- Everything that does not depend on debug mode. -/
  | whole
  /-- That without the places in the scripts and their sizes. -/
  | unplaced
deriving DecidableEq, Repr

namespace View

/-- What is seen of a thing, given what is left of it without places. -/
def of {α : Type} : View → (α → α) → α → α
  | whole, _, x => x
  | unplaced, f, x => f x

/-- What is seen of a diagnostic. -/
def diagnostic (v : View) : Diagnostic → Diagnostic := v.of Diagnostic.unplaced

/-- What is seen of a declaration. -/
def declaration (v : View) : Declaration → Declaration := v.of Declaration.unplaced

/-- What is seen of a symbol table. -/
def symbols (v : View) : Symbols → Symbols := v.of Symbols.unplaced

/-- What is seen of the result of lowering. -/
def lowering (v : View) : Lowering → Lowering := v.of Lowering.unplaced

/-- A source that can be held, forgotten. -/
def forgotten (source : Bytes) : Bytes := if addressable source.length then [] else source

/-- What is seen of a source. -/
def source (v : View) : Bytes → Bytes := v.of forgotten

/-- The room of an empty window that can be held, forgotten. -/
def roomless (w : Window) : Window :=
  if w.bytes = [] ∧ addressable w.capacity = true then ⟨[], 0⟩ else w

/-- What is seen of a window. -/
def window (v : View) : Window → Window := v.of roomless

variable (v : View)

@[simp] theorem map_diagnostic_whole (ds : List Diagnostic) : ds.map whole.diagnostic = ds :=
  List.map_id ds

@[simp] theorem isError_diagnostic (d : Diagnostic) : (v.diagnostic d).isError = d.isError := by
  cases v <;> rfl

@[simp] theorem diagnostic_error_origin (problem : Problem) :
    v.diagnostic (.error problem .origin) = .error problem .origin := by
  cases v <;> rfl

@[simp] theorem name_declaration (decl : Declaration) : (v.declaration decl).name = decl.name := by
  cases v
  · rfl
  · exact decl.name_unplaced

@[simp] theorem code_lowering (l : Lowering) : (v.lowering l).code = l.code := by
  cases v <;> rfl

@[simp] theorem labels_lowering (l : Lowering) : (v.lowering l).labels = l.labels := by
  cases v <;> rfl

@[simp] theorem diagnostics_lowering (l : Lowering) :
    (v.lowering l).diagnostics = l.diagnostics.map v.diagnostic := by
  cases v
  · exact (map_diagnostic_whole _).symm
  · rfl

/-! ## Symbol tables -/

@[simp] theorem functions_symbols (s : Symbols) : (v.symbols s).functions = s.functions := by
  cases v <;> rfl

@[simp] theorem lookup?_symbols (s : Symbols) (name : String) :
    (v.symbols s).lookup? name = s.lookup? name := by
  cases v <;> rfl

@[simp] theorem length_globals_symbols (s : Symbols) :
    (v.symbols s).globals.length = s.globals.length := by
  cases v
  · rfl
  · exact List.length_map _

@[simp] theorem isEmpty_globals_symbols (s : Symbols) :
    (v.symbols s).globals.isEmpty = s.globals.isEmpty := by
  cases v
  · rfl
  · exact List.isEmpty_map

theorem attachBody_symbols (s : Symbols) (id : Nat) (body : FunctionBody) :
    (v.symbols s).attachBody id body = v.symbols (s.attachBody id body) := by
  cases v <;> rfl

theorem rebase_symbols (ids : List Nat) (offset : Nat) :
    ∀ s : Symbols, (v.symbols s).rebase ids offset = v.symbols (s.rebase ids offset) := by
  induction ids with
  | nil => exact fun _ => rfl
  | cons id rest ih =>
      intro s
      have hshift : (v.symbols s).shift id offset = v.symbols (s.shift id offset) := by
        cases v <;> rfl
      rw [Symbols.rebase, List.foldl_cons, hshift]
      exact ih _

theorem seededFrom_symbols (s : Symbols) : (v.symbols s).seededFrom = s.seededFrom := by
  cases v <;> rfl

theorem declareLoader_symbols (s : Symbols) (result : ValueType) (unit : String) :
    (v.symbols s).declareLoader result unit
      = (v.symbols (s.declareLoader result unit).1, (s.declareLoader result unit).2) := by
  rw [Symbols.declareLoader, Symbols.declareLoader, lookup?_symbols]
  cases v with
  | whole => rfl
  | unplaced =>
      cases s.lookup? globalsLoader with
      | none => rfl
      | some f => rfl

/-- What is seen of the outcome of a declaration. -/
def declared (v : View) : Except Diagnostic (Symbols × Nat) → Except Diagnostic (Symbols × Nat)
  | .ok (t, id) => .ok (v.symbols t, id)
  | .error d => .error (v.diagnostic d)

theorem declared_whole (x : Except Diagnostic (Symbols × Nat)) : whole.declared x = x := by
  cases x <;> rfl

theorem declareFunction_symbols (s : Symbols) (decl : FunctionDecl) (unit : String) :
    (v.symbols s).declareFunction (v.of FunctionDecl.unplaced decl) unit
      = v.declared (s.declareFunction decl unit) := by
  cases v with
  | whole => exact (declared_whole _).symm
  | unplaced =>
      refine (s.declareFunction_unplaced decl unit).trans ?_
      cases s.declareFunction decl unit <;> rfl

theorem declareGlobal_symbols (s : Symbols) (decl : VarDecl) (unit : String) :
    (v.symbols s).declareGlobal (v.of VarDecl.unplaced decl) unit
      = v.declared (s.declareGlobal decl unit) := by
  cases v with
  | whole => exact (declared_whole _).symm
  | unplaced =>
      refine (s.declareGlobal_unplaced decl unit).trans ?_
      cases s.declareGlobal decl unit <;> rfl

/-! ## Lowering -/

theorem ofFunction_viewed (decl : FunctionDecl) (s : Symbols) :
    Lowering.ofFunction (v.of FunctionDecl.unplaced decl) (v.symbols s)
      = v.lowering (Lowering.ofFunction decl s) := by
  cases v with
  | whole => rfl
  | unplaced => exact Lowering.ofFunction_unplaced decl s

theorem checkGlobal_viewed (slot : Nat) (s : Symbols) :
    Lowering.checkGlobal slot (v.symbols s) = (Lowering.checkGlobal slot s).map v.diagnostic := by
  cases v with
  | whole => exact (map_diagnostic_whole _).symm
  | unplaced => exact Lowering.checkGlobal_unplaced slot s

theorem ofGlobals_viewed (s : Symbols) (entry : Option FunctionSymbol) :
    Lowering.ofGlobals (v.symbols s) entry = v.lowering (Lowering.ofGlobals s entry) := by
  cases v with
  | whole => rfl
  | unplaced => exact Lowering.ofGlobals_unplaced s entry

/-! ## Sources -/

/-- A source can be held if what is seen of it can. -/
theorem addressable_source (source : Bytes) :
    addressable (v.source source).length = addressable source.length := by
  cases v with
  | whole => rfl
  | unplaced =>
      show addressable (forgotten source).length = _
      rw [forgotten]
      split
      · next h => exact h.symm
      · rfl

theorem source_of_not_addressable {source : Bytes} (h : ¬ addressable source.length = true) :
    v.source source = source := by
  cases v with
  | whole => rfl
  | unplaced => exact if_neg h

theorem window_ofSource {source : Bytes} (h : addressable source.length = true) :
    v.window ⟨[], source.length⟩ = ⟨[], (v.source source).length⟩ := by
  cases v with
  | whole => rfl
  | unplaced =>
      show roomless _ = Window.mk [] (forgotten source).length
      rw [roomless, forgotten, if_pos ⟨rfl, h⟩, if_pos h]
      rfl

end View

/-! ## Instances -/

/-- What is seen of the source that a unit holds. -/
def SourceHold.viewed (v : View) : SourceHold → SourceHold
  | .owned b | .borrowed b => .borrowed (v.source b)
  | .released => .released

/-- The code of a main script without its flags. -/
def OutputTables.flagless (t : OutputTables) : OutputTables := { t with flags := [] }

/-- What is seen of a unit. -/
def Instance.viewed (v : View) (i : Instance) : Instance :=
  { i with
    source := i.source.viewed v
    output := i.output.map v.window
    debug := false
    diagnostics := i.diagnostics.map v.diagnostic
    settings := ⟨false, 0⟩
    tables := i.tables.map OutputTables.flagless }

namespace Instance

variable (v : View)

/-- A unit is begun in the same way, in debug mode or not. -/
theorem begin?_viewed (name : String) (source : Bytes) (debug owns : Bool) :
    begin? addressable name (v.source source) false owns
      = (begin? addressable name source debug owns).map (viewed v) := by
  simp only [begin?, Window.ofCapacity, View.addressable_source]
  by_cases h : addressable source.length = true
  · have hwindow := View.window_ofSource v h
    cases debug with
    | false | true =>
        simp [h, bind, Except.bind, pure, Except.pure, Except.map, viewed, SourceHold.viewed, hwindow]
  · rw [View.source_of_not_addressable v h]
    simp [h, bind, Except.bind, Except.map]

theorem report_viewed (i : Instance) (d : Diagnostic) :
    (i.viewed v).report (v.diagnostic d) = (i.report d).viewed v := by
  simp [viewed, report]

theorem markInclude_viewed (i : Instance) : (i.viewed v).markInclude = i.markInclude.viewed v := rfl

theorem openBuffer_viewed (i : Instance) : (i.viewed v).openBuffer = i.openBuffer := rfl

theorem appendCode_viewed (i : Instance) (l : Lowering) :
    (i.viewed v).appendCode addressable (v.lowering l)
      = ((i.appendCode addressable l).1.viewed v, (i.appendCode addressable l).2) := by
  simp only [appendCode, openBuffer_viewed, View.code_lowering, View.labels_lowering]
  cases i.openBuffer with
  | error e => rfl
  | ok b =>
      cases hroom : b.ensureCapacity addressable (b.length + l.code.size) with
      | error e => simp only [hroom]; rfl
      | ok roomy => simp only [hroom]; rfl

theorem absorb_viewed (i child : Instance) :
    (i.viewed v).absorb addressable (child.viewed v)
      = ((i.absorb addressable child).1.viewed v, (i.absorb addressable child).2.1.viewed v,
          (i.absorb addressable child).2.2) := by
  have hoffset : (i.viewed v).codeLength = i.codeLength := rfl
  have hbuffer : (child.viewed v).buffer = child.buffer := rfl
  simp only [absorb, hoffset, hbuffer, openBuffer_viewed]
  cases child.buffer with
  | none => simp [viewed]
  | some records =>
      cases i.openBuffer with
      | error e => rfl
      | ok b =>
          cases hroom : b.appendBuffer addressable records with
          | error e => simp only [hroom]; rfl
          | ok b' => simp [hroom, viewed]

end Instance

/-! ## Emissions -/

/-- What is seen of an emission. -/
def EmitState.viewed (v : View) (s : EmitState) : EmitState :=
  { s with
    current := s.current.viewed v
    outer := s.outer.map (Instance.viewed v)
    symbols := v.symbols s.symbols }

namespace Expanded

mutual

/-- What is seen of a part of a unit. -/
def viewed (v : View) : Expanded → Expanded
  | problem d => problem (v.diagnostic d)
  | declaration decl => declaration (v.declaration decl)
  | repeated key => repeated key
  | missing key path span => missing key path (v.of (fun _ => .origin) span)
  | opened key source content => opened key (v.source source) (allViewed v content)

/-- What is seen of the parts of a unit. -/
def allViewed (v : View) : List Expanded → List Expanded
  | [] => []
  | x :: rest => viewed v x :: allViewed v rest

end

end Expanded

end Nss
