/-
# Reading a unit

A unit is read as a list of events: the problems of its characters first, then in order the
directives, declarations and problems of its tokens.  Behind a broken declaration, reading goes on
after the next semicolon outside braces or after the brace that closes the outermost open one.
-/
import Nss.Syntax.Parser.Statement

namespace Nss
namespace Event

open ScriptParser

/-- Passes over tokens up to the end of a broken declaration, `depth` braces being open. -/
def skipTo : Nat → List Token → ScriptParser Unit
  | _, [] => return ()
  | depth, t :: rest => do
    let _ ← advance
    match t.kind with
    | .lBrace => skipTo (depth + 1) rest
    | .rBrace => if depth ≤ 1 then return () else skipTo (depth - 1) rest
    | .semi => if depth = 0 then return () else skipTo depth rest
    | _ => skipTo depth rest

/-- Looks for the end of a broken declaration. -/
def synchronize : ScriptParser Unit := do skipTo 0 (← get).ahead

/-- Reads a directive to include another unit. -/
def directive : ScriptParser Event := do
  let hash ← advance
  let name ← expect .stringLiteral "include file name"
  return inclusion name.text (hash.span.cover name.span)

/-- Reads parameters behind the first ones, up to the closing parenthesis. -/
def paramsLoop : Nat → List Param → ScriptParser (List Param)
  | 0, params => return params
  | fuel + 1, params => do
    let type ← valueType
    if type.isVoid then fail .voidParameter (← previousSpan)
    else
      let name ← expect .ident "parameter name"
      let params := params ++ [{ type, name := name.text }]
      if ← eat .rParen then return params
      else
        let _ ← expect .comma "\",\" or \")\""
        paramsLoop fuel params

/-- Reads the parameters of a function behind the opening parenthesis.  The word `void` alone stands
for none. -/
def params : ScriptParser (List Param) := do
  if ← eat .rParen then return []
  else if (← isAtWord "void") && (← peekSecond).kind = .rParen then
    let _ ← advance
    let _ ← advance
    return []
  else paramsLoop ((← remaining) + 1) []

/-- Reads a function behind its opening parenthesis. -/
def function (start : Span) (result : ValueType) (name : String) : ScriptParser Declaration := do
  let params ← params
  let body ← if ← eat .semi then pure none else some <$> Stmt.blockBody (Stmt.parser maxNesting)
  return .function { result, name, params, body, span := start.cover (← previousSpan) }

/-- Reads a global variable behind its name. -/
def globalVariable (start : Span) (type : ValueType) (name : Token) : ScriptParser Declaration := do
  if type.isVoid then fail (.voidGlobal name.text) name.span
  else
    let init ← Stmt.initializer (Expr.parser maxNesting)
    let _ ← expect .semi "\";\" after declaration"
    return .global { type, name := name.text, init, span := start.cover (← previousSpan) }

/-- Reads a declaration.  The word `const` may stand before it and means nothing. -/
def declared : ScriptParser Declaration := do
  if ← isAtWord "const" then
    let _ ← advance
  let start := (← peek).span
  let type ← valueType
  let name ← expect .ident "identifier"
  if ← eat .lParen then function start type name.text
  else globalVariable start type name

/-- Reads a directive or a declaration. -/
def next : ScriptParser Event := do
  if ← isAt .hashInclude then directive else declaration <$> declared

/-- The events of a unit from a place on.  The problems noted while an event was read come before
it. -/
def loop : Nat → ParseState → List Event
  | 0, _ => []
  | fuel + 1, s =>
    match s.ahead with
    | [] => []
    | _ :: _ =>
      match recover next synchronize { s with noted := [] } with
      | .ok event s' => s'.noted.map problem ++ event.toList ++ loop fuel s'
      | .error d _ => [problem d]

/-- The events of a unit. -/
def ofSource (source : String) : List Event :=
  let lexed := Lexed.ofSource source
  lexed.troubles.map problem ++ loop lexed.tokens.length (ParseState.start lexed)

end Event
end Nss
