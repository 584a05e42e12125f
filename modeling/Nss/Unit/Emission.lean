/-
# Emitting units

Emission walks over what a unit consists of: it declares functions and variables, lowers each
function into the buffer of the unit that defines it, and keeps every diagnostic.  A unit that is
opened gets an instance of its own; when it is finished, the instance around it takes over its code
and its diagnostics.  At the end of the outermost unit, the loader of the global variables is added.
-/
import Nss.Unit.Instance
import Nss.Include.Expansion

namespace Nss

/-- How much of a unit is emitted. -/
inductive EmitMode where
  /-- Everything, with includes. -/
  | full
  /-- Nothing: only diagnostics and the names of entry points are looked for. -/
  | scanOnly
deriving DecidableEq, Repr, Inhabited

/-- The state of an emission: the instance of the unit at hand, those around it from the inside out,
and what they share. -/
structure EmitState where
  current : Instance
  outer : List Instance
  registry : Registry
  symbols : Symbols
  /-- Whether a declaration had the name of an entry point. -/
  entrySeen : Bool
deriving Repr, Inhabited

/-- A step of an emission.  An error leaves what was emitted before it. -/
abbrev Emit := EStateM Error EmitState

/-- Whether a name is that of an entry point. -/
def isEntryName (name : String) : Bool := name = Symbols.mainName || name = Symbols.conditionName

namespace Emit

/-- The unit at hand: its name, and its text for finding lines in it. -/
structure UnitText where
  name : String
  text : String

/-- Keeps a diagnostic. -/
def report (d : Diagnostic) : Emit Unit :=
  modify fun s => { s with current := s.current.report d }

/-- Keeps diagnostics as parts of a unit. -/
def reportAll (u : UnitText) : List Diagnostic → Emit Unit
  | [] => return ()
  | d :: rest => do
    report (d.located u.name u.text)
    reportAll u rest

/-- Adds code to the buffer of the unit at hand, as the body of a function. -/
def addBody (id : Nat) (l : Lowering) : Emit Unit := do
  let s ← get
  match s.current.appendCode addressable l with
  | (i, .error e) =>
    set { s with current := i }
    throw e
  | (i, .ok body) =>
    set { s with current := i.define id, symbols := s.symbols.attachBody id body }

/-! ## Declarations -/

/-- Declares a global variable and checks its first value. -/
def declareGlobal (u : UnitText) (decl : VarDecl) : Emit Unit := do
  match (← get).symbols.declareGlobal decl u.name with
  | .error d => reportAll u [d]
  | .ok (symbols, slot) =>
    modify fun s => { s with symbols }
    reportAll u (Lowering.checkGlobal slot symbols)

/-- Declares a function, and lowers it if it has a body. -/
def declareFunction (u : UnitText) (decl : FunctionDecl) : Emit Unit := do
  match (← get).symbols.declareFunction decl u.name with
  | .error d => reportAll u [d]
  | .ok (symbols, id) =>
    modify fun s => { s with symbols }
    if decl.body.isSome then
      let l := Lowering.ofFunction decl symbols
      reportAll u l.diagnostics
      addBody id l

/-- Makes a declaration. -/
def declare (u : UnitText) : Declaration → Emit Unit
  | .global decl => declareGlobal u decl
  | .function decl => declareFunction u decl

/-- Notes whether a declaration has the name of an entry point. -/
def noteEntry (decl : Declaration) : Emit Unit :=
  modify fun s => { s with entrySeen := s.entrySeen || isEntryName decl.name }

/-! ## Included units -/

/-- Registers a key. -/
def register (key : String) : Emit Unit :=
  modify fun s => { s with registry := (s.registry.register key).2 }

/-- Runs a part of the emission in an instance of its own, and gives that instance as it is
afterwards.  The instance at hand is the same again, also after an error. -/
def inside (child : Instance) (part : Emit Unit) : Emit Instance := fun s =>
  match part { s with current := child, outer := s.current :: s.outer } with
  | .ok _ s' => .ok s'.current { s' with current := s.current, outer := s.outer }
  | .error e s' => .error e { s' with current := s.current, outer := s.outer }

/-- Takes over what a finished instance holds. -/
def absorb (child : Instance) : Emit Unit := do
  let s ← get
  match s.current.absorb addressable child with
  | (i, _, .error e) =>
    set { s with current := i }
    throw e
  | (i, _, .ok offset) =>
    set { s with current := i, symbols := s.symbols.rebase child.defined offset }

/-- Emits a unit that is opened by a directive. -/
def nested (key : String) (source : Bytes) (content : Emit Unit) : Emit Unit := do
  register key
  let s ← get
  match Instance.begin? addressable key source s.current.debug false with
  | .error e => throw e
  | .ok child => absorb (← inside child content)

mutual

/-- Emits a part of a unit. -/
def part (mode : EmitMode) (u : UnitText) : Expanded → Emit Unit
  | .problem d => reportAll u [d]
  | .declaration decl => do
    noteEntry decl
    match mode with
    | .full => declare u decl
    | .scanOnly => return ()
  | .repeated _ => return ()
  | .missing key path span => do
    register key
    reportAll u [.error (.cannotOpenInclude path) span]
  | .opened key source content =>
    nested key source (parts mode ⟨key, Bytes.toText source⟩ content)

/-- Emits parts of a unit one after the other. -/
def parts (mode : EmitMode) (u : UnitText) : List Expanded → Emit Unit
  | [] => return ()
  | x :: rest => do
    part mode u x
    parts mode u rest

end

/-! ## The outermost unit -/

/-- Adds the loader of the global variables, if there are any. -/
def addLoader : Emit Unit := do
  let s ← get
  if s.symbols.globals.isEmpty then return ()
  else
    let entry := s.symbols.startFunction?
    let result := match entry with
      | some f => f.result
      | none => .void
    let l := Lowering.ofGlobals s.symbols entry
    let (symbols, id) := s.symbols.declareLoader result s.current.name
    set { s with symbols }
    addBody id l

/-- Ends the outermost unit.  One without an entry point can only be included. -/
def finish (mode : EmitMode) : Emit Unit := do
  let s ← get
  let declared := (s.symbols.lookup? Symbols.mainName).isSome
    || (s.symbols.lookup? Symbols.conditionName).isSome
  if !declared && !s.entrySeen then
    set { s with current := (s.current.report (.error .noEntryPoint .origin)).markInclude }
  match mode with
  | .full => addLoader
  | .scanOnly => return ()

/-- What the unit at hand consists of. -/
def content (front : FrontEnd) (loader : Loader) (mode : EmitMode) (registry : Registry)
    (unit : String) (source : Bytes) : List Expanded :=
  match mode with
  | .full => Expanded.ofRoot front loader registry unit source
  | .scanOnly => Expanded.scan front unit source

/-- Emits the outermost unit. -/
def root (front : FrontEnd) (loader : Loader) (mode : EmitMode) : Emit Unit := do
  modify fun s => { s with entrySeen := false }
  let s ← get
  match s.current.source.bytes? with
  | none => throw .instanceDestroyed
  | some source =>
    let name := s.current.name
    parts mode ⟨name, Bytes.toText source⟩ (content front loader mode s.registry name source)
    finish mode

end Emit

/-- What an emission leaves: the instances, innermost first, the registry, the symbol table, and
whether it came to its end. -/
structure Emitted where
  stack : List Instance
  registry : Registry
  symbols : Symbols
  outcome : Except Error Unit

/-- Emits the unit of the innermost of some instances. -/
def emitRoot (front : FrontEnd) (loader : Loader) (mode : EmitMode) (stack : List Instance)
    (registry : Registry) (symbols : Symbols) : Emitted :=
  match stack with
  | [] => { stack, registry, symbols, outcome := .error .instanceDestroyed }
  | current :: outer =>
    match Emit.root front loader mode { current, outer, registry, symbols, entrySeen := false } with
    | .ok _ s =>
      { stack := s.current :: s.outer, registry := s.registry, symbols := s.symbols,
        outcome := .ok () }
    | .error e s =>
      { stack := s.current :: s.outer, registry := s.registry, symbols := s.symbols,
        outcome := .error e }

end Nss
