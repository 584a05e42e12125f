/-
# Lowering expressions

The instructions for an expression leave its value in one new cell on top of the stack; those for a
call of a function without result leave none.
-/
import Nss.Lowering.Frame

namespace Nss

/-- The operation for an operator before an operand of a type. -/
def UnaryOp.operation? : UnaryOp → ValueType → Option Op
  | .neg, .int => some (.neg .int)
  | .neg, .float => some (.neg .float)
  | .not, .int => some .not
  | _, _ => none

/-- The operation for an operator between operands of some types, and the type of its result. -/
def BinaryOp.ofPair? (op : BinaryOp) (pair : TypePair) : Option (Op × ValueType) :=
  let numeric := pair.left ∈ [.int, .float] ∧ pair.right ∈ [.int, .float]
  let ordered := pair = .intInt ∨ pair = .floatFloat
  let same := pair.left = pair.right
  match op with
  | .add =>
    if numeric ∨ pair = .stringString then some (.add pair, pair.arithmeticResult) else none
  | .sub => if numeric then some (.sub pair, pair.arithmeticResult) else none
  | .mul => if numeric then some (.mul pair, pair.arithmeticResult) else none
  | .div => if numeric then some (.div pair, pair.arithmeticResult) else none
  | .mod => if pair = .intInt then some (.mod, .int) else none
  | .and => if pair = .intInt then some (.logAnd, .int) else none
  | .or => if pair = .intInt then some (.logOr, .int) else none
  | .eq => if same then some (.equal pair, .int) else none
  | .notEq => if same then some (.notEqual pair, .int) else none
  | .less => if ordered then some (.lt pair, .int) else none
  | .lessEq => if ordered then some (.leq pair, .int) else none
  | .greater => if ordered then some (.gt pair, .int) else none
  | .greaterEq => if ordered then some (.geq pair, .int) else none

/-- The operation for an operator between operands of two types, and the type of its result. -/
def BinaryOp.operation? (op : BinaryOp) (left right : ValueType) : Option (Op × ValueType) :=
  (TypePair.of? left right).bind op.ofPair?

namespace Expr

open Lower

/-- Pushes a constant. -/
def lowerConst (type : ValueType) (x : Operand) : Lower ValueType := do
  emitPush ⟨.const type, x⟩
  return type

/-- Pushes the value of a variable. -/
def lowerIdent (Γ : LoweringContext) (name : String) (span : Span) : Lower ValueType := do
  let place ← resolve Γ name span
  match place with
  | .stack position _ => emitPush (.loadCell (← fromTop position))
  | .global slot _ => emitPush (.loadGlobal slot)
  return place.type

/-- The function that a call is of, if it takes so many arguments. -/
def callee (Γ : LoweringContext) (name : String) (given : Nat) (span : Span) :
    Lower FunctionSymbol := do
  match Γ.symbols.lookup? name with
  | none => fail (.undeclaredFunction name) span
  | some f =>
    if f.params.length = given then return f
    else fail (.argumentCount name f.params.length given) span

mutual

/-- Adds the instructions for an expression, and gives its type. -/
def lower (Γ : LoweringContext) : Expr → Lower ValueType
  | int v _ => lowerConst .int (.int v)
  | float v _ => lowerConst .float (.float v)
  | string v span =>
    if Instruction.maxString < (Bytes.ofText v).length then fail .stringTooLong span
    else lowerConst .string (.str v)
  | object v _ => lowerConst .object (.object v)
  | ident name span => lowerIdent Γ name span
  | call name args span => do
    let f ← callee Γ name args.length span
    if ¬ f.result.isVoid then
      emitPush (.reserve f.result)
    lowerArgs Γ args f.params
    emitTake args.length (.callTo f.id)
    return f.result
  | unary op x span => do
    let type ← lower Γ x
    match op.operation? type with
    | some o =>
      emit (.simple o)
      return type
    | none => fail (.unaryOperand op type) span
  | binary op l r span => do
    let left ← lower Γ l
    let right ← lower Γ r
    match op.operation? left right with
    | some (o, type) =>
      emitTake 1 (.simple o)
      return type
    | none => fail (.binaryOperands op left right) span

/-- Adds the instructions for arguments, from the last to the first. -/
def lowerArgs (Γ : LoweringContext) : List Expr → List ValueType → Lower Unit
  | arg :: args, type :: types => do
    lowerArgs Γ args types
    let found ← lower Γ arg
    expectType type found arg.span
  | _, _ => return ()

end

end Expr
end Nss
