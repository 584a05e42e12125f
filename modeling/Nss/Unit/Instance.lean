/-
# Units under compilation

An instance is what is known of one unit while it is compiled: its source, the instructions and
diagnostics so far, and the place for its output.  It ends by being destroyed, which gives its
resources back; after that it takes no more.

The keys of included units are kept in a registry that the instance shares with others, or that is
its own.
-/
import Nss.Bytecode.Window
import Nss.Include.Registry
import Nss.Symbols
import Nss.Lowering.Function

namespace Nss

/-- The source of a unit: a copy of its own, someone else's, or a copy given back. -/
inductive SourceHold where
  | owned (bytes : Bytes)
  | borrowed (bytes : Bytes)
  | released
deriving DecidableEq, Repr, Inhabited

/-- The bytes of a source. -/
def SourceHold.bytes? : SourceHold → Option Bytes
  | owned b | borrowed b => some b
  | released => none

/-- Whether a source is a copy of the unit's own. -/
def SourceHold.isOwned : SourceHold → Bool
  | owned _ => true
  | _ => false

/-- How a unit is to be parsed. -/
structure ParseSettings where
  debugParsing : Bool
  flags : UInt8
deriving DecidableEq, Repr, Inhabited

/-- The encoded loader of the global variables and the encoded functions of a main script, and the
flags of its unit. -/
structure OutputTables where
  globals : Bytes
  functions : Bytes
  flags : List UInt8
deriving DecidableEq, Repr, Inhabited

namespace OutputTables

/-- The number of times that the flags of a unit are kept. -/
def flagSlots : Nat := 11

/-- The flag of debug mode. -/
def debugFlag : UInt8 := 1

/-- Tables without code. -/
def ofFlags (flags : UInt8) : OutputTables := ⟨[], [], List.replicate flagSlots flags⟩

/-- Whether the flag of debug mode is set. -/
def isDebug (t : OutputTables) : Bool := t.flags.any fun f => f &&& debugFlag != 0

/-- Tables with more code behind what they hold. -/
def add (t : OutputTables) (globals functions : Bytes) : OutputTables :=
  { t with globals := t.globals ++ globals, functions := t.functions ++ functions }

/-- Tables with their code taken out. -/
def reset (t : OutputTables) : OutputTables := { t with globals := [], functions := [] }

end OutputTables

/-- A unit under compilation. -/
structure Instance where
  name : String
  source : SourceHold
  output : Option Window
  debug : Bool
  errors : Nat
  diagnostics : List Diagnostic
  settings : ParseSettings
  /-- Whether the registry of included units is the instance's own. -/
  ownsRegistry : Bool
  registration : Option Registration
  buffer : Option Buffer
  /-- The functions whose code lies in the buffer. -/
  defined : List Nat
  isInclude : Bool
  tables : Option OutputTables
  isDestroyed : Bool
deriving Repr, Inhabited

namespace Instance

/-! ## Beginning and end -/

/-- An instance for a unit that is not registered. -/
def begin? (granted : Memory) (name : String) (source : Bytes) (debug ownsRegistry : Bool) :
    Except Error Instance := do
  let output ← Window.ofCapacity granted source.length
  if debug ∧ ¬ granted source.length then throw (.outOfMemory "source buffer" source.length)
  return {
    name, debug, ownsRegistry
    source := if debug then .owned source else .borrowed source
    output := some output
    errors := 0
    diagnostics := []
    settings := ⟨false, 0⟩
    registration := none
    buffer := none
    defined := []
    isInclude := false
    tables := none
    isDestroyed := false }

/-- An instance for a unit.  If it comes with a path, its key is registered. -/
def create (granted : Memory) (name : String) (source : Bytes) (path : Option String)
    (debug ownsRegistry : Bool) (registry : Registry) : Except Error (Instance × Registry) := do
  let i ← begin? granted name source debug ownsRegistry
  match path with
  | none => return (i, registry)
  | some path =>
    let (registration, registry') := registry.register (IncludeKey.ofPath path)
    return ({ i with registration := some registration }, registry')

/-- Whether destroying an instance clears its registry. -/
def clearsRegistry (i : Instance) : Bool := i.ownsRegistry && !i.isDestroyed

/-- The end of an instance, and whether a copy of the source was given back. -/
def destroy (i : Instance) : Bool × Instance :=
  if i.isDestroyed then (false, i)
  else
    (i.source.isOwned,
      { i with
        isDestroyed := true
        source := if i.source.isOwned then .released else i.source
        buffer := none
        output := none
        tables := none })

/-! ## Properties and diagnostics -/

/-- The text of the source. -/
def sourceText (i : Instance) : Except Error String :=
  match i.source.bytes? with
  | some b => .ok (Bytes.toText b)
  | none => .error .instanceDestroyed

/-- Sets the flags of the unit. -/
def applyFlags (i : Instance) (flags : UInt8) : Instance :=
  { i with settings := ⟨flags != 0, flags⟩ }

/-- Adds a diagnostic. -/
def report (i : Instance) (d : Diagnostic) : Instance :=
  { i with
    errors := if d.isError then i.errors + 1 else i.errors
    diagnostics := i.diagnostics ++ [d] }

/-- Takes the diagnostics out.  They are still counted. -/
def takeDiagnostics (i : Instance) : List Diagnostic × Instance :=
  (i.diagnostics, { i with diagnostics := [] })

/-- Takes the unit for one that is only included. -/
def markInclude (i : Instance) : Instance := { i with isInclude := true }

/-- Notes that the code of a function lies in the buffer. -/
def define (i : Instance) (function : Nat) : Instance :=
  { i with defined := i.defined ++ [function] }

/-! ## Code -/

/-- The buffer of the instance, which comes into being when it is first used. -/
def openBuffer (i : Instance) : Except Error Buffer :=
  if i.isDestroyed then .error .instanceDestroyed else .ok (i.buffer.getD .empty)

/-- Adds an instruction to the buffer. -/
def append (granted : Memory) (i : Instance) (x : Instruction) : Instance × Except Error Nat :=
  match i.openBuffer with
  | .error e => (i, .error e)
  | .ok b =>
    match b.append granted x with
    | .error e => ({ i with buffer := some b }, .error e)
    | .ok b' => ({ i with buffer := some b' }, .ok b'.length)

/-- Closes the buffer. -/
def closeBuffer (i : Instance) : Except Error Instance := do
  return { i with buffer := some (← i.openBuffer).close }

/-- Takes the buffer out. -/
def takeBuffer (i : Instance) : Option Buffer × Instance := (i.buffer, { i with buffer := none })

/-- Adds the code of a function to the buffer and gives its place there. -/
def appendCode (granted : Memory) (i : Instance) (l : Lowering) :
    Instance × Except Error FunctionBody :=
  match i.openBuffer with
  | .error e => (i, .error e)
  | .ok b =>
    match b.ensureCapacity granted (b.length + l.code.size) with
    | .error e => ({ i with buffer := some b }, .error e)
    | .ok roomy =>
      let (filled, outcome) := roomy.appendAll granted l.code.toList
      ({ i with buffer := some filled },
        outcome.map fun _ => { start := b.length, length := l.code.size, labels := l.labels })

/-- The number of instructions in the buffer. -/
def codeLength (i : Instance) : Nat :=
  match i.buffer with
  | some b => b.length
  | none => 0

/-- Takes over the code, the functions and the diagnostics of a finished instance, and gives the
place where its code begins.  Its buffer is used up in any case. -/
def absorb (granted : Memory) (i child : Instance) : Instance × Instance × Except Error Nat :=
  let offset := i.codeLength
  let take (i : Instance) : Instance × Instance × Except Error Nat :=
    ({ i with
        defined := i.defined ++ child.defined
        errors := i.errors + child.errors
        diagnostics := i.diagnostics ++ child.diagnostics },
      { child with buffer := none, defined := [], errors := 0, diagnostics := [] },
      .ok offset)
  match child.buffer with
  | none => take i
  | some records =>
    match i.openBuffer with
    | .error e => (i, { child with buffer := none }, .error e)
    | .ok b =>
      match b.appendBuffer granted records with
      | .error e => ({ i with buffer := some b }, { child with buffer := none }, .error e)
      | .ok b' => take { i with buffer := some b' }

/-! ## Output -/

/-- The output window. -/
def openOutput (i : Instance) : Except Error Window :=
  match i.output with
  | some w => .ok w
  | none => .error .instanceDestroyed

/-- Takes the output window out. -/
def takeOutput (i : Instance) : Option Window × Instance := (i.output, { i with output := none })

/-- Makes room for the output of a main script, once. -/
def finalize (i : Instance) (flags : UInt8) : Except Error Instance :=
  if i.isDestroyed then .error .instanceDestroyed
  else if i.tables.isSome then .error .alreadyFinalized
  else .ok { i with tables := some (.ofFlags flags) }

/-- Changes the tables of a main script. -/
def modifyTables (i : Instance) (change : OutputTables → OutputTables) : Instance :=
  { i with tables := i.tables.map change }

end Instance
end Nss
