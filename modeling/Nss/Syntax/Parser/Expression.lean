/-
# Reading expressions

Binary operators bind in six degrees of looseness, each to the left.  `Expr.operations operand n`
reads what the `n` tightest of them make of operands; all six make an expression.  An operand is a
chain of unary operators before a literal, a name, a call or an expression in parentheses.

Operands within operands are counted, and statements within statements with them: `Expr.operand n`
reads one in which `n` of them can stand one within the other.  So the recursion is on that number,
and every other loop on the number of tokens left.
-/
import Nss.Syntax.Parser.Literal

namespace Nss

/-- The binary operator that a token stands for. -/
def BinaryOp.ofToken? : TokenKind → Option BinaryOp
  | .orOr => some .or
  | .andAnd => some .and
  | .eqEq => some .eq
  | .notEq => some .notEq
  | .less => some .less
  | .lessEq => some .lessEq
  | .greater => some .greater
  | .greaterEq => some .greaterEq
  | .plus => some .add
  | .minus => some .sub
  | .star => some .mul
  | .slash => some .div
  | .percent => some .mod
  | _ => none

/-- The unary operator that a token stands for. -/
def UnaryOp.ofToken? : TokenKind → Option UnaryOp
  | .minus => some .neg
  | .bang => some .not
  | _ => none

/-- How deep operands and statements can be nested. -/
def maxNesting : Nat := 128

namespace Expr

/-- The expression that an operator before an operand makes.  A minus sign before a number makes a
number, so that a negative constant is one constant. -/
def applyUnary (op : UnaryOp) (operand : Expr) (span : Span) : Expr :=
  match op, operand with
  | .neg, int v _ => int (-v) span
  | .neg, float v _ => float v.neg span
  | op, x => unary op x span

open ScriptParser

/-- Reads on behind the first operand of operators of one looseness, as long as one follows. -/
def chain (looseness : Nat) (tighter : ScriptParser Expr) : Nat → Expr → ScriptParser Expr
  | 0, left => return left
  | fuel + 1, left => do
    match BinaryOp.ofToken? (← peek).kind with
    | some op =>
      if op.looseness = looseness then
        let _ ← advance
        let right ← tighter
        chain looseness tighter fuel (binary op left right (left.span.cover right.span))
      else return left
    | none => return left

/-- Reads what the operators of looseness below `n` make of operands. -/
def operations (operand : ScriptParser Expr) : Nat → ScriptParser Expr
  | 0 => operand
  | n + 1 => do
    let left ← operations operand n
    chain n (operations operand n) (← remaining) left

/-- Reads an expression made of operands. -/
def ofOperands (operand : ScriptParser Expr) : ScriptParser Expr := operations operand 6

/-- Reads the arguments of a call behind the first ones, up to the closing parenthesis. -/
def argsLoop (expr : ScriptParser Expr) : Nat → List Expr → ScriptParser (List Expr)
  | 0, args => return args
  | fuel + 1, args => do
    let args := args ++ [← expr]
    if ← eat .rParen then return args
    else
      let _ ← expect .comma "\",\" or \")\" in argument list"
      argsLoop expr fuel args

/-- Reads the arguments of a call behind the opening parenthesis. -/
def args (expr : ScriptParser Expr) : ScriptParser (List Expr) := do
  if ← eat .rParen then return []
  else argsLoop expr ((← remaining) + 1) []

/-- Reads what begins with a word: a constant, a call or a variable. -/
def ofWord (expr : ScriptParser Expr) (t : Token) : ScriptParser Expr := do
  match Literal.word? t with
  | some constant => return constant
  | none =>
    if ← eat .lParen then
      let arguments ← args expr
      return call t.text arguments (t.span.cover (← previousSpan))
    else return ident t.text t.span

/-- Reads an operand without operators before it.  Whatever its first token is, it is read. -/
def primary (expr : ScriptParser Expr) : ScriptParser Expr := do
  let t ← advance
  match t.kind with
  | .intLiteral => Literal.int t
  | .hexLiteral => Literal.hex t
  | .floatLiteral => Literal.float t
  | .stringLiteral => return Literal.string t
  | .ident => ofWord expr t
  | .lParen =>
    let inner ← expr
    let _ ← expect .rParen "\")\""
    return inner.withSpan (t.span.cover (← previousSpan))
  | .eof => fail .endInExpression t.span
  | _ => fail (.unexpectedToken t.text) t.span

/-- Reads an operand in which others can be nested `n - 1` deep. -/
def operand : Nat → ScriptParser Expr
  | 0 => do fail .expressionTooDeep (← peek).span
  | n + 1 => do
    match UnaryOp.ofToken? (← peek).kind with
    | some op =>
      let sign ← advance
      let x ← operand n
      return applyUnary op x (sign.span.cover x.span)
    | none => primary (ofOperands (operand n))

/-- Reads an expression whose operands can be nested `n` deep. -/
def parser (n : Nat) : ScriptParser Expr := ofOperands (operand n)

end Expr
end Nss
