/-
# Compiled scripts

A compiled script is laid out in this order:

| offset | content |
| :-- | :-- |
| 0 | `NCS V1.0B` |
| 9 | the size of the file, 32 bits, least significant byte first |
| 13 | the start: it reserves a cell for the result if there is one, calls, and ends |
| then | the loader of the global variables, if there are any |
| then | the function that the script begins with, and every function reachable from it |

The start calls the loader, which calls the function that the script begins with; without globals it
calls that function itself.  A first pass finds the offset of every instruction; a second one encodes
them, with the distances of jumps and calls known.
-/
import Nss.Program.Reachable
import Nss.Bytecode.Listing
import Nss.Unit.Instance
import Nss.Files.Tree

namespace Nss

/-- Where a function lies in a compiled script. -/
structure FunctionLayout where
  name : String
  offset : Nat
  length : Nat
deriving DecidableEq, Repr, Inhabited

/-- A compiled script, and where its functions lie in it. -/
structure Artifact where
  bytes : Bytes
  layout : List FunctionLayout
deriving DecidableEq, Repr, Inhabited

/-- A function at its place: its instructions and the offset of each, with the offset of its end
behind them. -/
structure Placed where
  symbol : FunctionSymbol
  body : FunctionBody
  code : List Instruction
  offsets : List Nat
deriving Repr, Inhabited

namespace Program

/-- The room that an output window has at least. -/
def regionSize : Nat := 512 * 1024

/-! ## Layout -/

/-- The offsets of instructions from a given one on, and that of the end. -/
def place : Nat → List Instruction → List Nat
  | at_, [] => [at_]
  | at_, i :: rest => at_ :: place (at_ + i.size) rest

/-- The offset behind instructions that begin at a given one. -/
def endOf (at_ : Nat) (code : List Instruction) : Nat := at_ + codeSize code

/-- The loader of the global variables, if there are any. -/
def loaderOf? (symbols : Symbols) : Option FunctionSymbol :=
  if symbols.globals.isEmpty then none else symbols.lookup? globalsLoader

/-- The instructions that a script starts with. -/
def startCode (symbols : Symbols) (entry : FunctionSymbol) : List Instruction :=
  (if entry.result.isVoid then [] else [.reserve entry.result])
    ++ [.callTo ((loaderOf? symbols).getD entry).id, .ending]

/-- Places functions one behind the other. -/
def layOut (records : Array Instruction) : Nat → List FunctionSymbol → Except Error (List Placed)
  | _, [] => .ok []
  | at_, f :: rest => do
    let body ← bodyOf f
    let code ← codeOf records f body
    let after ← layOut records (endOf at_ code) rest
    return { symbol := f, body, code, offsets := place at_ code } :: after

/-- Where the function with a number begins.  Of two places of one function the later one counts. -/
def entryOffset? (placed : List Placed) (id : Nat) : Option Nat :=
  (placed.reverse.find? fun p => p.symbol.id = id).bind fun p => p.offsets.head?

/-! ## Encoding -/

/-- The distance from one offset to another one. -/
def distance (start stop : Nat) : Int32 := Int32.ofInt ((stop : Int) - start)

/-- The distance from an instruction to the function that it calls. -/
def callDistance (placed : List Placed) (at_ id : Nat) : Except Error Int32 :=
  match entryOffset? placed id with
  | some target => .ok (distance at_ target)
  | none => .error (.unresolvedCall (unknownFunction id))

/-- The distance from an instruction to the one that a label stands before. -/
def jumpDistance (p : Placed) (at_ label : Nat) : Except Error Int32 :=
  match (p.body.labels[label]?.join).bind fun record => p.offsets[record]? with
  | some target => .ok (distance at_ target)
  | none => .error (.unresolvedJump p.symbol.name label)

/-- The distance from the saved base pointer down to a global variable. -/
def globalOffset (globals slot : Nat) : Int32 := Instruction.cells ((slot : Int) - globals)

/-- The number that takes the place of a symbolic operand at an offset. -/
def resolve (globals : Nat) (placed : List Placed) (p : Placed) (at_ : Nat) :
    Operand → Except Error Int32
  | .label l => jumpDistance p at_ l
  | .call f => callDistance placed at_ f
  | .global s => .ok (globalOffset globals s)
  | _ => .ok 0

/-- The instructions that a script starts with as bytes. -/
def encodeStart (placed : List Placed) : Nat → List Instruction → Except Error Bytes
  | _, [] => .ok []
  | at_, i :: rest => do
    let resolved ← match i.callee? with
      | some f => callDistance placed at_ f
      | none => pure 0
    return i.encode resolved ++ (← encodeStart placed (at_ + i.size) rest)

/-- Instructions with their offsets as bytes, as far as their operands can be resolved. -/
def encodeCode (globals : Nat) (placed : List Placed) (p : Placed) :
    List (Instruction × Nat) → Bytes × Except Error Unit
  | [] => ([], .ok ())
  | (i, at_) :: rest =>
    match resolve globals placed p at_ i.operand with
    | .error e => ([], .error e)
    | .ok resolved =>
      let (after, outcome) := encodeCode globals placed p rest
      (i.encode resolved ++ after, outcome)

/-- The place of a function in the layout. -/
def layoutOf (p : Placed) : FunctionLayout :=
  let first := p.offsets.headD 0
  { name := p.symbol.name, offset := first, length := p.offsets.getLastD 0 - first }

/-! ## Assembly -/

/-- A step of an assembly.  An error leaves the instance as far as it was used up. -/
abbrev Assemble := EStateM Error Instance

/-- Goes on with a result, or stops with an error. -/
def orStop {α : Type} : Except Error α → Assemble α
  | .ok a => return a
  | .error e => throw e

/-- Takes the instructions out of the instance. -/
def takeRecords : Assemble (Array Instruction) := do
  let (buffer, i) := (← get).takeBuffer
  set i
  return (buffer.getD .empty).records

/-- Takes the output window out of the instance. -/
def takeWindow : Assemble Window := do
  let w ← orStop (← get).openOutput
  modify fun i => i.takeOutput.2
  return w

/-- Adds bytes to the table that the code of a function goes to. -/
def addToTable (name : String) (bytes : Bytes) : Assemble Unit :=
  modify fun i => i.modifyTables fun t =>
    if name = globalsLoader then t.add bytes [] else t.add [] bytes

/-- Encodes functions into the tables. -/
def encodeFunctions (globals : Nat) (placed : List Placed) : List Placed → Assemble Unit
  | [] => return ()
  | p :: rest => do
    let (bytes, outcome) := encodeCode globals placed p (p.code.zip p.offsets)
    addToTable p.symbol.name bytes
    orStop outcome
    encodeFunctions globals placed rest

/-- Writes a compiled script into a window. -/
def fill (w : Window) (start : Bytes) (t : OutputTables) : Except Error Window := do
  let size := headerSize + (start.length + t.globals.length + t.functions.length)
  let w ← w.growTo addressable (max regionSize size)
  let w ← w.write fileMagic
  let w ← w.write [0, 0, 0, 0]
  let w ← w.write start
  let w ← w.write t.globals
  let w ← w.write t.functions
  w.patch sizeOffset (Bytes.ofUInt32Reversed (UInt32.ofNat w.length))

/-- Assembles the program of an instance that was finalized. -/
def assemble (symbols : Symbols) : Assemble Artifact := do
  let entry ← orStop symbols.entryPoint
  if (← get).tables.isNone then throw .notFinalized
  let records ← takeRecords
  let reached ← orStop (reachable symbols records entry)
  let start := startCode symbols entry
  let placed ← orStop (layOut records (endOf headerSize start)
    ((loaderOf? symbols).toList ++ reached))
  let startBytes ← orStop (encodeStart placed headerSize start)
  let window ← takeWindow
  modify fun i => i.modifyTables OutputTables.reset
  encodeFunctions symbols.globals.length placed placed
  match (← get).tables with
  | none => throw .notFinalized
  | some tables =>
    let filled ← orStop (fill window startBytes tables)
    return { bytes := filled.bytes, layout := placed.map layoutOf }

/-! ## Writing -/

/-- Writes a file. -/
def writeFile (t : FileTree) (path : String) (bytes : Bytes) : Except Error FileTree :=
  match t.write path bytes with
  | .ok t' => .ok t'
  | .error cause => .error (.outputIo path cause)

/-- Assembles the program of an instance and writes it to a file, given by its name or else by its
path.  Gives the instance and the files afterwards, and the script with the path that it was written
to. -/
def write (symbols : Symbols) (name path : Option String) (i : Instance) (files : FileTree) :
    Instance × FileTree × Except Error (Artifact × String) :=
  match assemble symbols i with
  | .error e i' => (i', files, .error e)
  | .ok artifact i' =>
    match name.or path with
    | none => (i', files, .error .noOutputName)
    | some target =>
      match writeFile files target artifact.bytes with
      | .error e => (i', files, .error e)
      | .ok files' => (i', files', .ok (artifact, target))

end Program
end Nss
