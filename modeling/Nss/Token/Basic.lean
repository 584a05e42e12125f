/-
# Tokens

The words that a script is made of.  Type names and constants such as `TRUE` are identifiers here;
what they mean is decided where they stand.
-/
import Nss.Source.Span

namespace Nss

/-- The kind of a token. -/
inductive TokenKind where
  /-- The end of the script. -/
  | eof
  | ident
  | intLiteral
  | hexLiteral
  | floatLiteral
  | stringLiteral
  | hashInclude
  | lParen
  | rParen
  | lBrace
  | rBrace
  | comma
  | semi
  | assign
  | plus
  | minus
  | star
  | slash
  | percent
  | bang
  | less
  | greater
  | lessEq
  | greaterEq
  | eqEq
  | notEq
  | andAnd
  | orOr
  | ifWord
  | elseWord
  | whileWord
  | returnWord
deriving DecidableEq, Repr, Inhabited

/-- The kind of a word: one of the four keywords or an identifier. -/
def TokenKind.ofWord : String → TokenKind
  | "if" => ifWord
  | "else" => elseWord
  | "while" => whileWord
  | "return" => returnWord
  | _ => ident

/-- A token at its place.  The text leaves out the quotes of a string literal and the letter that
may end a floating point literal; `textSpan` is where it stands. -/
structure Token where
  kind : TokenKind
  span : Span
  textSpan : Span
  text : String
deriving DecidableEq, Repr, Inhabited

/-- The token that ends a script of `n` bytes. -/
def Token.ending (n : Nat) : Token := ⟨.eof, ⟨n, n⟩, ⟨n, n⟩, ""⟩

end Nss
