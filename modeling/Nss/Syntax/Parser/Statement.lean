/-
# Reading statements

`Stmt.parser n` reads a statement in which statements and operands can be nested `n - 1` deep.
Where a statement in a block is broken, the problem is noted and reading goes on behind its
semicolon, or before the brace that closes the block.
-/
import Nss.Syntax.Parser.Expression

namespace Nss
namespace Stmt

open ScriptParser

/-- Passes over tokens up to and including a semicolon, but not over a closing brace. -/
def skipTo : List Token → ScriptParser Unit
  | [] => return ()
  | t :: rest => do
    if t.kind = .rBrace then return ()
    else
      let _ ← advance
      if t.kind = .semi then return () else skipTo rest

/-- Looks for the end of a broken statement. -/
def synchronize : ScriptParser Unit := do skipTo (← get).ahead

/-- Reads the statements of a block behind the first ones, up to the closing brace. -/
def blockLoop (stmt : ScriptParser Stmt) : Nat → List Stmt → ScriptParser (List Stmt)
  | 0, body => return body
  | fuel + 1, body => do
    let t ← peek
    if t.kind = .rBrace then
      let _ ← advance
      return body
    else if t.kind = .eof then fail .endInBlock t.span
    else
      let read ← recover stmt synchronize
      blockLoop stmt fuel (body ++ read.toList)

/-- Reads a block with its braces. -/
def blockBody (stmt : ScriptParser Stmt) : ScriptParser (List Stmt) := do
  let _ ← expect .lBrace "\"\x7b\""
  blockLoop stmt ((← remaining) + 1) []

/-- Reads a condition in its parentheses. -/
def condition (expr : ScriptParser Expr) (after : String) : ScriptParser Expr := do
  let _ ← expect .lParen ("\"(\" after " ++ after)
  let cond ← expr
  let _ ← expect .rParen "\")\""
  return cond

/-- Reads a conditional statement. -/
def conditional (stmt : ScriptParser Stmt) (expr : ScriptParser Expr) : ScriptParser Stmt := do
  let _ ← advance
  let cond ← condition expr "if"
  let body ← stmt
  if ← eat .elseWord then
    let other ← stmt
    return ifElse cond body other
  else return ifThen cond body

/-- Reads a loop. -/
def whileLoop (stmt : ScriptParser Stmt) (expr : ScriptParser Expr) : ScriptParser Stmt := do
  let _ ← advance
  let cond ← condition expr "while"
  let body ← stmt
  return loop cond body

/-- Reads the end of a function. -/
def returned (expr : ScriptParser Expr) : ScriptParser Stmt := do
  let first ← advance
  let value ← if ← isAt .semi then pure none else some <$> expr
  let _ ← expect .semi "\";\" after return"
  return ret value (first.span.cover (← previousSpan))

/-- Reads the value that a variable begins with, if one is given. -/
def initializer (expr : ScriptParser Expr) : ScriptParser (Option Expr) := do
  if ← eat .assign then some <$> expr else return none

/-- Reads the declaration of a local variable. -/
def localVariable (expr : ScriptParser Expr) : ScriptParser Stmt := do
  let start := (← peek).span
  let type ← valueType
  if type.isVoid then fail .voidLocal start
  else
    let name ← expect .ident "variable name"
    let init ← initializer expr
    let _ ← expect .semi "\";\" after declaration"
    return var { type, name := name.text, init, span := start.cover (← previousSpan) }

/-- Reads an assignment. -/
def assignment (expr : ScriptParser Expr) : ScriptParser Stmt := do
  let target ← advance
  let _ ← advance
  let value ← expr
  let _ ← expect .semi "\";\" after assignment"
  return assign target.text value (target.span.cover (← previousSpan))

/-- Reads an expression used as a statement. -/
def expression (expr : ScriptParser Expr) : ScriptParser Stmt := do
  let value ← expr
  let _ ← expect .semi "\";\" after expression"
  return Stmt.expr value

/-- Reads a statement whose parts are read by the given parsers. -/
def ofParts (stmt : ScriptParser Stmt) (expr : ScriptParser Expr) : ScriptParser Stmt := do
  let t ← peek
  match t.kind with
  | .lBrace => block <$> blockBody stmt
  | .semi =>
    let _ ← advance
    return block []
  | .ifWord => conditional stmt expr
  | .whileWord => whileLoop stmt expr
  | .returnWord => returned expr
  | .ident =>
    if ← isAtType then localVariable expr
    else if (← peekSecond).kind = .assign then assignment expr
    else expression expr
  | _ => expression expr

/-- Reads a statement in which statements and operands can be nested `n - 1` deep. -/
def parser : Nat → ScriptParser Stmt
  | 0 => do fail .statementTooDeep (← peek).span
  | n + 1 => ofParts (parser n) (Expr.parser n)

end Stmt
end Nss
