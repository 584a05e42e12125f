/-
# Reading tokens

A `ScriptParser` reads tokens from the front of what is left of a unit.  It gives a result or fails
with a diagnostic; either way it leaves the place that it has come to, so that reading can go on
behind a mistake.  Problems that do not stop the parser are noted in the order of their discovery.
The end of the unit is a token that is never used up.
-/
import Nss.Token.Lexer

namespace Nss

/-- A place in a unit, and the problems noted on the way there. -/
structure ParseState where
  /-- The tokens to come, without the end. -/
  ahead : List Token
  ending : Token
  /-- The span of the token read last, or before the first one is read, of that one. -/
  previous : Span
  noted : List Diagnostic
deriving Repr

/-- A reader of tokens. -/
abbrev ScriptParser := EStateM Diagnostic ParseState

/-- The beginning of a unit. -/
def ParseState.start (l : Lexed) : ParseState :=
  { ahead := l.tokens, ending := l.ending, previous := (l.tokens.headD l.ending).span, noted := [] }

namespace ScriptParser

/-- The next token. -/
def peek : ScriptParser Token := do
  let s ← get
  return s.ahead.headD s.ending

/-- The token after the next one. -/
def peekSecond : ScriptParser Token := do
  let s ← get
  return s.ahead.getD 1 s.ending

/-- The next token, which is thereby read. -/
def advance : ScriptParser Token := do
  let s ← get
  match s.ahead with
  | [] => return s.ending
  | t :: rest =>
    set { s with ahead := rest, previous := t.span }
    return t

/-- The number of tokens to come, which bounds what a loop can read. -/
def remaining : ScriptParser Nat := return (← get).ahead.length

/-- The span of the token read last. -/
def previousSpan : ScriptParser Span := return (← get).previous

/-- Whether the next token is of a kind. -/
def isAt (kind : TokenKind) : ScriptParser Bool := return (← peek).kind = kind

/-- Whether the next token is a given word. -/
def isAtWord (word : String) : ScriptParser Bool := do
  let t ← peek
  return t.kind = .ident && t.text = word

/-- Fails. -/
def fail {α : Type} (problem : Problem) (span : Span) : ScriptParser α :=
  throw (.error problem span)

/-- Reads the next token if it is of a kind, and says whether it was. -/
def eat (kind : TokenKind) : ScriptParser Bool := do
  if ← isAt kind then
    let _ ← advance
    return true
  else
    return false

/-- Reads a token of a kind, and fails at any other one. -/
def expect (kind : TokenKind) (what : String) : ScriptParser Token := do
  if ← isAt kind then advance
  else fail (.expected what) (← peek).span

/-- Notes a problem. -/
def note (d : Diagnostic) : ScriptParser Unit :=
  modify fun s => { s with noted := s.noted ++ [d] }

/-- Runs a parser.  If it fails, its diagnostic is noted and `resume` looks for a place to go on
from. -/
def recover {α : Type} (p : ScriptParser α) (resume : ScriptParser Unit) :
    ScriptParser (Option α) := fun s =>
  match p s with
  | .ok a s' => .ok (some a) s'
  | .error d s' => (do note d; resume; return none : ScriptParser (Option α)) s'

/-- Whether the next token names a type. -/
def isAtType : ScriptParser Bool := do
  let t ← peek
  return t.kind = .ident && (ValueType.ofName? t.text).isSome

/-- Reads the name of a type. -/
def valueType : ScriptParser ValueType := do
  let t ← peek
  match (if t.kind = .ident then ValueType.ofName? t.text else none) with
  | some type =>
    let _ ← advance
    return type
  | none => fail (.expectedType t.text) t.span

end ScriptParser
end Nss
