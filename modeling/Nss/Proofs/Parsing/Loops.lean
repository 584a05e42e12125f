/-
# The parser as loops over a row of tokens

A parser at work has all the tokens of a unit in a row, the end last.  It knows its position in the
row, counts the levels that it is in, and adds to a list of events.  Its loops and recursions go on as
long as the tokens make them: no number bounds them beforehand.  So nothing comes of a `TokenWalk` that
does not end.  Nothing comes of one, either, that asks for a token where there is none, or that steps
past the end: that a walk comes to something says that neither happened.

Failing is something else.  A `LoopParser` that fails stays where it is, and what it read and counted
stands.
-/
import Nss.Syntax.Parser.Event

namespace Nss

/-- How far a parser has come. -/
structure Cursor where
  /-- The number of tokens read. -/
  position : Nat
  /-- The number of operands and statements that are being read, one within the other. -/
  depth : Nat
  events : List Event

/-- A walk along a row of tokens. -/
abbrev TokenWalk := StateT Cursor Option

/-- A walk that can fail with a diagnostic. -/
abbrev LoopParser := ExceptT Diagnostic TokenWalk

/-- How tight an operator binds. -/
def BinaryOp.level (op : BinaryOp) : Nat := 5 - op.looseness

/-- The tokens that the loops of a parser go along, the end last. -/
abbrev Loops := List Token

namespace Loops

/-! ## Tokens -/

/-- The token `n` places further on, or the end. -/
def peekNth (ts : Loops) (n : Nat) : TokenWalk Token := do
  match ts[min ((← get).position + n) (ts.length - 1)]? with
  | some t => return t
  | none => failure

/-- The next token. -/
def peek (ts : Loops) : TokenWalk Token := peekNth ts 0

/-- The next token, which is thereby read if it is not the end. -/
def advance (ts : Loops) : TokenWalk Token := do
  let t ← peek ts
  if t.kind = .eof then return t
  else
    let c ← get
    if c.position + 1 < ts.length then
      set { c with position := c.position + 1 }
      return t
    else failure

/-- The span of the token read last. -/
def previousSpan (ts : Loops) : TokenWalk Span := do
  match ts[(← get).position - 1]? with
  | some t => return t.span
  | none => failure

/-- Whether the next token is of a kind. -/
def isAt (ts : Loops) (kind : TokenKind) : TokenWalk Bool := return (← peek ts).kind = kind

/-- Whether the next token is a given word. -/
def isAtWord (ts : Loops) (word : String) : TokenWalk Bool := do
  let t ← peek ts
  return t.kind = .ident && t.text = word

/-- Whether the next token names a type. -/
def isAtType (ts : Loops) : TokenWalk Bool := do
  let t ← peek ts
  return t.kind = .ident && (ValueType.ofName? t.text).isSome

/-- Reads the next token if it is of a kind, and says whether it was. -/
def eat (ts : Loops) (kind : TokenKind) : TokenWalk Bool := do
  if ← isAt ts kind then
    let _ ← advance ts
    return true
  else
    return false

/-- Adds an event. -/
def note (e : Event) : TokenWalk Unit := modify fun c => { c with events := c.events ++ [e] }

/-- Fails. -/
def fail {α : Type} (problem : Problem) (span : Span) : LoopParser α := throw (.error problem span)

/-- Reads a token of a kind, and fails at any other one. -/
def expect (ts : Loops) (kind : TokenKind) (what : String) : LoopParser Token := do
  if ← isAt ts kind then advance ts
  else fail (.expected what) (← peek ts).span

/-- Reads the name of a type. -/
def valueType (ts : Loops) : LoopParser ValueType := do
  let t ← peek ts
  match (if t.kind = .ident then ValueType.ofName? t.text else none) with
  | some type =>
    let _ ← advance ts
    return type
  | none => fail (.expectedType t.text) t.span

/-- What a literal stands for.  Its token is all that it takes. -/
def literal (read : Token → ScriptParser Expr) (t : Token) : LoopParser Expr :=
  match read t (ParseState.start ⟨[], t, []⟩) with
  | .ok e _ => return e
  | .error d _ => throw d

/-- Goes one level down, if there are levels left. -/
def enter (ts : Loops) (problem : Problem) : LoopParser Unit := do
  if maxNesting ≤ (← get).depth then fail problem (← peek ts).span
  else modify fun c => { c with depth := c.depth + 1 }

/-- Goes one level up. -/
def leave : TokenWalk Unit := modify fun c => { c with depth := c.depth - 1 }

/-! ## Expressions -/

mutual

/-- Reads an expression whose operators bind at least as tight as `least`. -/
def binary (ts : Loops) (least : Nat) : LoopParser Expr := do
  let left ← (ts |>.unary : LoopParser Expr)
  ts |>.binaryLoop least left
partial_fixpoint

/-- Reads on behind the left operand, as long as an operator follows that binds tight enough. -/
def binaryLoop (ts : Loops) (least : Nat) (left : Expr) : LoopParser Expr := do
  match BinaryOp.ofToken? (← peek ts).kind with
  | some op =>
    if op.level < least then return left
    else
      let _ ← advance ts
      let right ← ts |>.binary (op.level + 1)
      ts |>.binaryLoop least (.binary op left right (left.span.cover right.span))
  | none => return left
partial_fixpoint

/-- Reads an operand, one level down. -/
def unary (ts : Loops) : TokenWalk (Except Diagnostic Expr) := do
  match ← (enter ts .expressionTooDeep).run with
  | .error d => return .error d
  | .ok () =>
    let result ← ts |>.unaryInner.run
    leave
    return result
partial_fixpoint

/-- Reads an operand with the operators before it. -/
def unaryInner (ts : Loops) : LoopParser Expr := do
  match UnaryOp.ofToken? (← peek ts).kind with
  | some op =>
    let sign ← advance ts
    let x ← (ts |>.unary : LoopParser Expr)
    return Expr.applyUnary op x (sign.span.cover x.span)
  | none => ts |>.primary
partial_fixpoint

/-- Reads an operand without operators before it. -/
def primary (ts : Loops) : LoopParser Expr := do
  let t ← advance ts
  match t.kind with
  | .intLiteral => literal Literal.int t
  | .hexLiteral => literal Literal.hex t
  | .floatLiteral => literal Literal.float t
  | .stringLiteral => return Literal.string t
  | .ident => ts |>.ofWord t
  | .lParen =>
    let inner ← ts |>.binary 0
    let _ ← expect ts .rParen "\")\""
    return inner.withSpan (t.span.cover (← previousSpan ts))
  | .eof => fail .endInExpression t.span
  | _ => fail (.unexpectedToken t.text) t.span
partial_fixpoint

/-- Reads what begins with a word. -/
def ofWord (ts : Loops) (t : Token) : LoopParser Expr := do
  match Literal.word? t with
  | some constant => return constant
  | none =>
    if ← eat ts .lParen then
      let arguments ← ts |>.args
      return Expr.call t.text arguments (t.span.cover (← previousSpan ts))
    else return Expr.ident t.text t.span
partial_fixpoint

/-- Reads the arguments of a call. -/
def args (ts : Loops) : LoopParser (List Expr) := do
  if ← eat ts .rParen then return []
  else ts |>.argsLoop []
partial_fixpoint

/-- Reads the arguments of a call behind the first ones. -/
def argsLoop (ts : Loops) (before : List Expr) : LoopParser (List Expr) := do
  let all := before ++ [← ts |>.binary 0]
  if ← eat ts .rParen then return all
  else
    let _ ← expect ts .comma "\",\" or \")\" in argument list"
    ts |>.argsLoop all
partial_fixpoint

end

/-- Reads an expression. -/
def expr (ts : Loops) : LoopParser Expr := binary ts 0

/-! ## Statements -/

/-- Skips to just behind the next semicolon, or to the brace that closes the block. -/
def skipStatement (ts : Loops) : TokenWalk Unit := do
  if ← isAt ts .eof then return ()
  else if ← isAt ts .rBrace then return ()
  else if (← advance ts).kind = .semi then return ()
  else ts |>.skipStatement
partial_fixpoint

/-- Reads a condition in its parentheses. -/
def condition (ts : Loops) (after : String) : LoopParser Expr := do
  let _ ← expect ts .lParen ("\"(\" after " ++ after)
  let cond ← expr ts
  let _ ← expect ts .rParen "\")\""
  return cond

/-- Reads the end of a function. -/
def returned (ts : Loops) : LoopParser Stmt := do
  let first ← advance ts
  let value ← if ← isAt ts .semi then pure none else some <$> expr ts
  let _ ← expect ts .semi "\";\" after return"
  return .ret value (first.span.cover (← previousSpan ts))

/-- Reads the value that a variable begins with, if one is given. -/
def initializer (ts : Loops) : LoopParser (Option Expr) := do
  if ← eat ts .assign then some <$> expr ts else return none

/-- Reads the declaration of a local variable. -/
def localVariable (ts : Loops) : LoopParser Stmt := do
  let start := (← peek ts).span
  let type ← valueType ts
  if type.isVoid then fail .voidLocal start
  else
    let name ← expect ts .ident "variable name"
    let init ← initializer ts
    let _ ← expect ts .semi "\";\" after declaration"
    return .var { type, name := name.text, init, span := start.cover (← previousSpan ts) }

/-- Reads an assignment. -/
def assignment (ts : Loops) : LoopParser Stmt := do
  let target ← advance ts
  let _ ← advance ts
  let value ← expr ts
  let _ ← expect ts .semi "\";\" after assignment"
  return .assign target.text value (target.span.cover (← previousSpan ts))

/-- Reads an expression used as a statement. -/
def expression (ts : Loops) : LoopParser Stmt := do
  let value ← expr ts
  let _ ← expect ts .semi "\";\" after expression"
  return .expr value

mutual

/-- Reads a block with its braces. -/
def blockBody (ts : Loops) : LoopParser (List Stmt) := do
  let _ ← expect ts .lBrace "\"\x7b\""
  (ts |>.blockLoop [] : LoopParser (List Stmt))
partial_fixpoint

/-- Reads the statements of a block behind the first ones, up to the closing brace. -/
def blockLoop (ts : Loops) (body : List Stmt) : TokenWalk (Except Diagnostic (List Stmt)) := do
  let t ← peek ts
  if t.kind = .rBrace then
    let _ ← advance ts
    return .ok body
  else if t.kind = .eof then return .error (.error .endInBlock t.span)
  else
    let read ← ts |>.blockTurn
    ts |>.blockLoop (body ++ read.toList)
partial_fixpoint

/-- One turn of the loop over a block: reads a statement, or skips it if it is broken. -/
def blockTurn (ts : Loops) : TokenWalk (Option Stmt) := do
  match ← (ts |>.stmt : TokenWalk (Except Diagnostic Stmt)) with
  | .ok s => return some s
  | .error d =>
    note (.problem d)
    skipStatement ts
    return none
partial_fixpoint

/-- Reads a statement, one level down. -/
def stmt (ts : Loops) : TokenWalk (Except Diagnostic Stmt) := do
  match ← (enter ts .statementTooDeep).run with
  | .error d => return .error d
  | .ok () =>
    let result ← ts |>.stmtInner.run
    leave
    return result
partial_fixpoint

/-- Reads a statement. -/
def stmtInner (ts : Loops) : LoopParser Stmt := do
  let t ← peek ts
  match t.kind with
  | .lBrace => Stmt.block <$> (ts |>.blockBody)
  | .semi =>
    let _ ← advance ts
    return .block []
  | .ifWord => ts |>.conditional
  | .whileWord => ts |>.whileLoop
  | .returnWord => returned ts
  | .ident =>
    if ← isAtType ts then localVariable ts
    else if (← peekNth ts 1).kind = .assign then assignment ts
    else expression ts
  | _ => expression ts
partial_fixpoint

/-- Reads a conditional statement. -/
def conditional (ts : Loops) : LoopParser Stmt := do
  let _ ← advance ts
  let cond ← condition ts "if"
  let body ← (ts |>.stmt : LoopParser Stmt)
  if ← eat ts .elseWord then
    let other ← (ts |>.stmt : LoopParser Stmt)
    return .ifElse cond body other
  else return .ifThen cond body
partial_fixpoint

/-- Reads a loop. -/
def whileLoop (ts : Loops) : LoopParser Stmt := do
  let _ ← advance ts
  let cond ← condition ts "while"
  let body ← (ts |>.stmt : LoopParser Stmt)
  return .loop cond body
partial_fixpoint

end

/-! ## Units -/

/-- Reads a directive to include another unit. -/
def directive (ts : Loops) : LoopParser Event := do
  let hash ← advance ts
  let name ← expect ts .stringLiteral "include file name"
  return .inclusion name.text (hash.span.cover name.span)

/-- Reads parameters behind the first ones, up to the closing parenthesis. -/
def paramsLoop (ts : Loops) (params : List Param) : LoopParser (List Param) := do
  let type ← valueType ts
  if type.isVoid then fail .voidParameter (← previousSpan ts)
  else
    let name ← expect ts .ident "parameter name"
    let params := params ++ [{ type, name := name.text }]
    if ← eat ts .rParen then return params
    else
      let _ ← expect ts .comma "\",\" or \")\""
      ts |>.paramsLoop params
partial_fixpoint

/-- Reads the parameters of a function behind the opening parenthesis. -/
def params (ts : Loops) : LoopParser (List Param) := do
  if ← eat ts .rParen then return []
  else if (← isAtWord ts "void") && (← peekNth ts 1).kind = .rParen then
    let _ ← advance ts
    let _ ← advance ts
    return []
  else paramsLoop ts []

/-- Reads a function behind its opening parenthesis. -/
def function (ts : Loops) (start : Span) (result : ValueType) (name : String) : LoopParser Declaration := do
  let params ← params ts
  let body ← if ← eat ts .semi then pure none else some <$> blockBody ts
  return .function { result, name, params, body, span := start.cover (← previousSpan ts) }

/-- Reads a global variable behind its name. -/
def globalVariable (ts : Loops) (start : Span) (type : ValueType) (name : Token) :
    LoopParser Declaration := do
  if type.isVoid then fail (.voidGlobal name.text) name.span
  else
    let init ← initializer ts
    let _ ← expect ts .semi "\";\" after declaration"
    return .global { type, name := name.text, init, span := start.cover (← previousSpan ts) }

/-- Reads a declaration. -/
def declared (ts : Loops) : LoopParser Declaration := do
  if ← isAtWord ts "const" then
    let _ ← advance ts
  let start := (← peek ts).span
  let type ← valueType ts
  let name ← expect ts .ident "identifier"
  if ← eat ts .lParen then function ts start type name.text
  else globalVariable ts start type name

/-- Reads a directive or a declaration. -/
def next (ts : Loops) : LoopParser Event := do
  if ← isAt ts .hashInclude then directive ts else Event.declaration <$> declared ts

/-- Skips to just behind the next semicolon outside braces, or behind the brace that closes the
outermost open one; `depth` of them are open. -/
def skipDeclaration (ts : Loops) (depth : Nat) : TokenWalk Unit := do
  if ← isAt ts .eof then return ()
  else
    match (← advance ts).kind with
    | .lBrace => ts |>.skipDeclaration (depth + 1)
    | .rBrace => if depth - 1 = 0 then return () else ts |>.skipDeclaration (depth - 1)
    | .semi => if depth = 0 then return () else ts |>.skipDeclaration depth
    | _ => ts |>.skipDeclaration depth
partial_fixpoint

/-- One turn of the loop over a unit: reads a directive or a declaration, or skips it if it is
broken. -/
def unitTurn (ts : Loops) : TokenWalk Unit := do
  match ← (next ts).run with
  | .ok e => note e
  | .error d =>
    note (.problem d)
    skipDeclaration ts 0

/-- Reads a unit up to its end. -/
def unitLoop (ts : Loops) : TokenWalk Unit := do
  if ← isAt ts .eof then return ()
  else
    unitTurn ts
    ts |>.unitLoop
partial_fixpoint

end Loops
end Nss
