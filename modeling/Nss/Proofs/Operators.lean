/-
# What operations compute

An operation is an operator on operands of the types that its name says.  `Op.unary?` and
`Op.binary?` read that off an operation; the operation that lowering takes for an operator computes
that operator.
-/
import Nss.Lowering.Expression
import Mathlib.Tactic.Common

namespace Nss

/-- The operator before an operand that an operation computes. -/
def Op.unary? : Op → Option (UnaryOp × ValueType)
  | neg t => some (.neg, t)
  | not => some (.not, .int)
  | _ => none

/-- The operator between operands that an operation computes. -/
def Op.binary? : Op → Option (BinaryOp × TypePair)
  | logAnd => some (.and, .intInt)
  | logOr => some (.or, .intInt)
  | equal p => some (.eq, p)
  | notEqual p => some (.notEq, p)
  | geq p => some (.greaterEq, p)
  | gt p => some (.greater, p)
  | lt p => some (.less, p)
  | leq p => some (.lessEq, p)
  | add p => some (.add, p)
  | sub p => some (.sub, p)
  | mul p => some (.mul, p)
  | div p => some (.div, p)
  | mod => some (.mod, .intInt)
  | _ => none

/-- The type of the value of an operator. -/
def BinaryOp.resultType (op : BinaryOp) (pair : TypePair) : ValueType :=
  match op with
  | .add | .sub | .mul | .div => pair.arithmeticResult
  | .mod | .less | .lessEq | .greater | .greaterEq | .eq | .notEq | .and | .or => .int

/-! ## The operations for operators -/

/-- The operation for an operator before an operand computes that operator. -/
theorem UnaryOp.unary?_of_operation? {op : UnaryOp} {t : ValueType} {o : Op}
    (h : op.operation? t = some o) : o.unary? = some (op, t) := by
  cases op <;> cases t <;> cases h <;> rfl

/-- The operation for an operator between operands computes that operator. -/
theorem BinaryOp.binary?_of_operation? {op : BinaryOp} {l r t : ValueType} {o : Op}
    (h : op.operation? l r = some (o, t)) :
    ∃ pair, TypePair.of? l r = some pair ∧ o.binary? = some (op, pair) ∧ o.unary? = none := by
  rw [operation?] at h
  obtain ⟨pair, hpair, h⟩ := Option.bind_eq_some_iff.mp h
  refine ⟨pair, hpair, ?_⟩
  cases op <;> cases pair <;> first
    | cases h; exact ⟨rfl, rfl⟩
    | cases h

/-- The value of an operator is of the type that lowering gives it. -/
theorem BinaryOp.resultType_of_operation? {op : BinaryOp} {l r t : ValueType} {o : Op}
    {pair : TypePair} (h : op.operation? l r = some (o, t)) (hpair : TypePair.of? l r = some pair) :
    t = op.resultType pair := by
  rw [operation?, hpair, Option.bind_some] at h
  cases op <;> cases pair <;> first
    | cases h; rfl
    | cases h

/-- The operands of an operator are values. -/
theorem UnaryOp.ne_void_of_operation? {op : UnaryOp} {t : ValueType} {o : Op}
    (h : op.operation? t = some o) : t ≠ .void := by
  rintro rfl
  cases op <;> cases h

theorem BinaryOp.ne_void_of_operation? {op : BinaryOp} {l r t : ValueType} {o : Op}
    (h : op.operation? l r = some (o, t)) : l ≠ .void ∧ r ≠ .void ∧ t ≠ .void := by
  cases l <;> cases r <;>
    simp [BinaryOp.operation?, TypePair.of?] at h ⊢ <;>
    (cases op <;> simp [BinaryOp.ofPair?, TypePair.arithmeticResult, TypePair.left,
      TypePair.right] at h <;> simp [← h])

end Nss
