/-
# Operators

The operators of expressions, with the sign that stands for each and how tightly it binds.
-/

namespace Nss

/-- An operator before its operand. -/
inductive UnaryOp where
  | neg
  | not
deriving DecidableEq, Repr, Inhabited

/-- The sign of an operator. -/
def UnaryOp.sign : UnaryOp → String
  | .neg => "-"
  | .not => "!"

/-- An operator between its operands. -/
inductive BinaryOp where
  | mul
  | div
  | mod
  | add
  | sub
  | less
  | lessEq
  | greater
  | greaterEq
  | eq
  | notEq
  | and
  | or
deriving DecidableEq, Repr, Inhabited

namespace BinaryOp

/-- The sign of an operator. -/
def sign : BinaryOp → String
  | mul => "*"
  | div => "/"
  | mod => "%"
  | add => "+"
  | sub => "-"
  | less => "<"
  | lessEq => "<="
  | greater => ">"
  | greaterEq => ">="
  | eq => "=="
  | notEq => "!="
  | and => "&&"
  | or => "||"

/-- How loosely an operator binds: the operands of one are made of those that bind tighter, and on
the left also of its own kind. -/
def looseness : BinaryOp → Nat
  | mul | div | mod => 0
  | add | sub => 1
  | less | lessEq | greater | greaterEq => 2
  | eq | notEq => 3
  | and => 4
  | or => 5

theorem looseness_lt (op : BinaryOp) : op.looseness < 6 := by
  cases op <;> decide

/-- Whether an operator compares its operands. -/
def isComparison : BinaryOp → Bool
  | less | lessEq | greater | greaterEq | eq | notEq => true
  | _ => false

end BinaryOp
end Nss
