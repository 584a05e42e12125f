/-
# Frames

While a function is lowered, a `Frame` keeps the instructions so far and what is known of the stack
at that point.  Cells are counted from the frame's base: the first local variable has position 0, and
the parameters lie below, the first one at position -1, with the cell for the result under the last
of them.  `depth` counts the cells above the base, so that the cell at position `p` is `p - depth`
cells from the top.

A caller reserves the cell for the result, pushes the arguments from the last to the first, and
calls; the function takes its own parameters from the stack before it ends.
-/
import Nss.Symbols
import Nss.Bytecode.Instruction

namespace Nss

/-- A variable on the stack. -/
structure StackVariable where
  name : String
  type : ValueType
  position : Int
deriving DecidableEq, Repr, Inhabited

/-- The instructions so far, and the stack at that point. -/
structure Frame where
  code : Array Instruction
  /-- The instruction that each label stands before, as far as they are bound. -/
  labels : List (Option Nat)
  /-- The variables of the innermost scope, the latest first. -/
  scope : List StackVariable
  /-- The scopes around it, from the inside out. -/
  enclosing : List (List StackVariable)
  depth : Nat
  diagnostics : List Diagnostic
deriving Repr, Inhabited

/-- What does not change while a function is lowered. -/
structure LoweringContext where
  symbols : Symbols
  params : List StackVariable
  result : ValueType
  /-- The loader of the globals runs before they can be reached through the base pointer. -/
  globalsVisible : Bool
deriving Repr, Inhabited

/-- Where a variable lies. -/
inductive Place where
  | stack (position : Int) (type : ValueType)
  | global (slot : Nat) (type : ValueType)
deriving DecidableEq, Repr, Inhabited

/-- The type of the variable at a place. -/
def Place.type : Place → ValueType
  | stack _ t | global _ t => t

/-- The parameters of a function as variables. -/
def paramVariables (params : List Param) : List StackVariable :=
  params.mapIdx fun i p => { name := p.name, type := p.type, position := -((i : Int) + 1) }

namespace LoweringContext

/-- The context of the body of a function. -/
def ofFunction (symbols : Symbols) (decl : FunctionDecl) : LoweringContext :=
  { symbols, params := paramVariables decl.params, result := decl.result, globalsVisible := true }

/-- The context of the loader of the global variables. -/
def ofLoader (symbols : Symbols) (result : ValueType) : LoweringContext :=
  { symbols, params := [], result, globalsVisible := false }

/-- The position of the cell for the result. -/
def resultPosition (Γ : LoweringContext) : Int := -(Γ.params.length : Int) - 1

end LoweringContext

/-- Adding instructions to a frame.  A failure keeps what was added before it. -/
abbrev Lower := EStateM Diagnostic Frame

/-- The frame at the beginning of a function. -/
def Frame.start : Frame :=
  { code := #[], labels := [], scope := [], enclosing := [], depth := 0, diagnostics := [] }

/-- The frame that lowering ends with. -/
def Frame.after (f : Frame) (p : Lower Unit) : Frame :=
  match p f with
  | .ok _ g => g
  | .error d g => { g with diagnostics := g.diagnostics ++ [d] }

namespace Lower

/-- Fails. -/
def fail {α : Type} (problem : Problem) (span : Span) : Lower α := throw (.error problem span)

/-- Adds an instruction that leaves the number of cells as it is. -/
def emit (i : Instruction) : Lower Unit := modify fun f => { f with code := f.code.push i }

/-- Adds an instruction that pushes a cell. -/
def emitPush (i : Instruction) : Lower Unit :=
  modify fun f => { f with code := f.code.push i, depth := f.depth + 1 }

/-- Adds an instruction that takes `n` cells. -/
def emitTake (n : Nat) (i : Instruction) : Lower Unit :=
  modify fun f => { f with code := f.code.push i, depth := f.depth - n }

/-- Takes `n` cells from the stack, by an instruction if there are any. -/
def popCells (n : Nat) : Lower Unit :=
  if 0 < n then emitTake n (.pop n) else return ()

/-- The number of cells above the base. -/
def depth : Lower Nat := return (← get).depth

/-- A position as its distance from the top. -/
def fromTop (position : Int) : Lower Int := return position - (← depth)

/-- A new label, which is not bound yet. -/
def newLabel : Lower Nat := do
  let f ← get
  set { f with labels := f.labels ++ [none] }
  return f.labels.length

/-- Binds a label to the next instruction. -/
def bindLabel (label : Nat) : Lower Unit :=
  modify fun f => { f with labels := f.labels.set label (some f.code.size) }

/-- Puts a variable at the top of the stack into the innermost scope.  Its cell is the next one that
is pushed. -/
def declare (name : String) (type : ValueType) : Lower Unit :=
  modify fun f => { f with scope := { name, type, position := f.depth } :: f.scope }

/-- Opens a scope. -/
def openScope : Lower Unit :=
  modify fun f => { f with scope := [], enclosing := f.scope :: f.enclosing }

/-- Closes the innermost scope and takes its variables from the stack. -/
def closeScope : Lower Unit := do
  let f ← get
  set { f with scope := f.enclosing.headD [], enclosing := f.enclosing.tail }
  popCells f.scope.length

/-- Where the variable with a name lies: in the innermost scope that has one, else among the
parameters, else among the globals. -/
def resolve? (Γ : LoweringContext) (f : Frame) (name : String) : Option Place :=
  match (f.scope :: f.enclosing).flatten.find? (·.name = name) with
  | some v => some (.stack v.position v.type)
  | none =>
    match Γ.params.find? (·.name = name) with
    | some v => some (.stack v.position v.type)
    | none =>
      if Γ.globalsVisible then
        (Γ.symbols.lookupGlobal? name).map fun g => .global g.slot g.type
      else none

/-- Where the variable with a name lies. -/
def resolve (Γ : LoweringContext) (name : String) (span : Span) : Lower Place := do
  match resolve? Γ (← get) name with
  | some place => return place
  | none => fail (.undeclaredIdentifier name) span

/-- Demands that a value has the right type. -/
def expectType (wanted found : ValueType) (span : Span) : Lower Unit :=
  if wanted = found then return () else fail (.typeMismatch wanted found) span

/-- Adds what a statement is lowered to.  If it fails, its diagnostic is kept, and the stack is taken
to hold what it held before and the variables that the statement declared. -/
def settle (p : Lower Unit) : Lower Unit := fun f =>
  match p f with
  | .ok _ g => .ok () g
  | .error d g =>
    .ok () { g with
      diagnostics := g.diagnostics ++ [d]
      depth := f.depth + (g.scope.length - f.scope.length) }

end Lower
end Nss
