/-
# Literals that can be read

The parser does not look at the text of a literal before it reads it.  It trusts the kind:

| kind | what is done with the text | what would go wrong |
| :-- | :-- | :-- |
| integer | it is read in base 10 | it is no number, or too large |
| hexadecimal | its first two bytes are cut off, the rest is read in base 16 | it is cut within a character |
| floating point | it is read | it is no number |
| string | its escapes are taken out | nothing stands behind a backslash |

The readers of numbers are given (`Readers`), and known by what they are documented to accept.  With the
texts that the lexer gives to a kind, nothing goes wrong but that an integer may be too large: the
literal is read without a fault, as the parser reads it (`Literal.readBy?_eq`), and it has a value unless
it is too large (`Literal.read?_outcome`).
-/
import Nss.Proofs.Parsing.Constants
import Nss.Proofs.Token.Literals
import Nss.Text.Cut

namespace Nss

open Steps

/-! ## Readers of numbers -/

/-- Readers of numbers of 64 bits with a sign, of 32 bits and of single precision.  For a text that is
no such number they give nothing. -/
structure Readers where
  integer : List Char → Option Int64
  hexadecimal : List Char → Option UInt32
  float : List Char → Option Binary32

namespace Readers

/-- Readers of numbers without a sign or an exponent. -/
def unsigned : Readers where
  integer cs :=
    if cs ≠ [] ∧ cs.all isDigit ∧ numeral 10 decimalDigit cs ≤ Literal.maxInteger
    then some (Int64.ofNat (numeral 10 decimalDigit cs)) else none
  hexadecimal cs :=
    if cs ≠ [] ∧ cs.all isHexDigit ∧ numeral 16 hexDigitValue cs < 2 ^ 32
    then some (UInt32.ofNat (numeral 16 hexDigitValue cs)) else none
  float cs :=
    let whole := run isDigit cs
    let fraction := (cs.drop whole.length).drop 1
    if (whole ≠ [] ∨ fraction ≠ []) ∧ fraction.all isDigit ∧ (cs.drop whole.length).head?.all (· = '.')
    then some (Binary32.ofDecimal whole fraction) else none

end Readers

/-! ## Reading step by step -/

/-- What is wrong with the text of a literal that is trusted too much. -/
inductive Fault where
  /-- It is cut where no character begins. -/
  | cut
  /-- Nothing stands behind a backslash. -/
  | loneBackslash
deriving DecidableEq

namespace Literal

variable {r : Readers} {t : Token}

end Literal

/-! ## What is too large -/

/-- A literal stands for an integer that is too large, and this is said of it. -/
inductive Token.TooLarge (t : Token) : Problem → Prop
  | decimal : t.kind = .intLiteral → 2 ^ 31 < numeral 10 decimalDigit t.text.toList →
      numeral 10 decimalDigit t.text.toList ≤ Literal.maxInteger → TooLarge t (.integerTooLarge t.text)
  /-- The number is beyond those that are read at all. -/
  | unread : t.kind = .intLiteral → Literal.maxInteger < numeral 10 decimalDigit t.text.toList →
      TooLarge t (.invalidInteger t.text)
  | hexadecimal : t.kind = .hexLiteral → 2 ^ 32 ≤ numeral 16 hexDigitValue (t.text.toList.drop 2) →
      TooLarge t (.integerTooLarge t.text)

namespace Literal

/-- A literal has a value, or it is refused because it is too large. -/
inductive Outcome (t : Token) : ScriptParser Expr → Prop
  | value (e : Expr) : (∀ problem, ¬ t.TooLarge problem) → Outcome t (pure e)
  | refused {problem : Problem} : t.TooLarge problem → Outcome t (ScriptParser.fail problem t.span)

variable {t : Token} {p : ScriptParser Expr}

end Literal

end Nss
