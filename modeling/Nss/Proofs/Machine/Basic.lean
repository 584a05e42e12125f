/-
# The stack machine

The machine that the bytecode is for, as far as the code of one function uses it: a stack of cells,
the first one being the top, and the cells of the global variables.  What cells are, what the
operators do with them and what a function that is called does is left open: an `Interpretation`
fixes it.  It may be partial, and the machine stops where it gives nothing.

    machine:  Machine.step I symbols R : State → Option State
    runs:     Machine.Runs, any number of such steps
-/
import Nss.Proofs.Lowering.Height
import Nss.Proofs.Operators
import Mathlib.Logic.Relation

namespace Nss

/-- The cells of the global variables, by their numbers. -/
abbrev Globals (Cell : Type) := Nat → Cell

/-- What cells are, and what is done with them. -/
structure Interpretation (Cell : Type) where
  /-- The value that a reserved cell of a type has. -/
  initial : ValueType → Cell
  int : Int32 → Cell
  float : Binary32 → Cell
  string : String → Cell
  object : Int32 → Cell
  isZero : Cell → Bool
  unary : UnaryOp → ValueType → Cell → Option Cell
  /-- The value of an operator for its left and its right operand. -/
  binary : BinaryOp → TypePair → Cell → Cell → Option Cell
  /-- What a function with a result makes of its arguments, the cell reserved for the result, and
  the global variables. -/
  value : Nat → List Cell → Cell → Globals Cell → Option (Cell × Globals Cell)
  /-- What a function without a result makes of its arguments and the global variables. -/
  effect : Nat → List Cell → Globals Cell → Option (Globals Cell)

namespace Machine

/-- The next instruction, the stack and the global variables. -/
structure State (Cell : Type) where
  pc : Nat
  stack : List Cell
  globals : Globals Cell

variable {Cell : Type} (I : Interpretation Cell) (symbols : Symbols)

/-! ## Steps -/

/-- Global variables with another value for one of them. -/
def update (globals : Globals Cell) (slot : Nat) (x : Cell) : Globals Cell :=
  fun n => if n = slot then x else globals n

/-- The state behind an instruction that leaves a stack. -/
def State.next (s : State Cell) (stack : List Cell) : State Cell := { s with pc := s.pc + 1, stack }

/-- The constant in an operand, if it is of a type. -/
def constant? : ValueType → Operand → Option Cell
  | .int, .int v => some (I.int v)
  | .float, .float v => some (I.float v)
  | .string, .str v => some (I.string v)
  | .object, .object v => some (I.object v)
  | _, _ => none

/-- What is on the stack after an operation of an operator. -/
def operate? (op : Op) (stack : List Cell) : Option (List Cell) :=
  match op.unary?, op.binary?, stack with
  | some (o, t), _, x :: rest => (I.unary o t x).map (· :: rest)
  | none, some (o, p), y :: x :: rest => (I.binary o p x y).map (· :: rest)
  | _, _, _ => none

/-- The stack and the global variables after a call: the arguments are taken, the first one being
on top, and the cell below them holds the result if there is one. -/
def call? (id : Nat) (stack : List Cell) (globals : Globals Cell) :
    Option (List Cell × Globals Cell) :=
  match symbols.function? id with
  | none => none
  | some f =>
    if stack.length < f.params.length then none
    else
      let args := stack.take f.params.length
      match f.result.isVoid, stack.drop f.params.length with
      | true, rest => (I.effect id args globals).map fun g => (rest, g)
      | false, cell :: rest => (I.value id args cell globals).map fun (x, g) => (x :: rest, g)
      | false, [] => none

/-- What an instruction does; `RETN` leaves the function. -/
def execute (labels : List (Option Nat)) (i : Instruction) (s : State Cell) :
    Option (State Cell) :=
  match i.op, i.operand, s.stack with
  | .rsAdd t, .none, stack => some (s.next (I.initial t :: stack))
  | .const t, x, stack => (constant? I t x).map fun c => s.next (c :: stack)
  | .cpTopSp, x, stack => x.cell?.bind fun k => stack[k]?.map fun c => s.next (c :: stack)
  | .cpDownSp, x, c :: rest =>
    x.cell?.bind fun k =>
      if k < (c :: rest).length then some (s.next ((c :: rest).set k c)) else none
  | .cpTopBp, .global slot, stack => some (s.next (s.globals slot :: stack))
  | .cpDownBp, .global slot, c :: rest =>
    some { s.next (c :: rest) with globals := update s.globals slot c }
  | .movSp, x, stack =>
    x.taken?.bind fun n => if n ≤ stack.length then some (s.next (stack.drop n)) else none
  | .jmp, .label l, _ => labels[l]?.join.map fun target => { s with pc := target }
  | .jz, .label l, c :: rest =>
    if I.isZero c then labels[l]?.join.map fun target => { s with pc := target, stack := rest }
    else some (s.next rest)
  | .jsr, .call id, stack =>
    (call? I symbols id stack s.globals).map fun (stack', g) =>
      { s.next stack' with globals := g }
  | op, .none, stack => (operate? I op stack).map s.next
  | _, _, _ => none

/-- One step in the code of a function. -/
def step (R : Routine) (s : State Cell) : Option (State Cell) :=
  R.code[s.pc]?.bind fun i => execute I symbols R.labels i s

/-- Any number of steps in the code of a function. -/
def Runs (R : Routine) : State Cell → State Cell → Prop :=
  Relation.ReflTransGen fun s s' => step I symbols R s = some s'

end Machine

end Nss
