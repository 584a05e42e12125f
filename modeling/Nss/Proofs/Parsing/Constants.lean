/-
# Integer constants

A row of digits stands for a number, and minus signs before it are part of the constant.  What the parser
makes of it is that number as long as it is one of 32 bits with a sign, and there is a diagnostic for the
digits that are beyond 2^31.  But 2^31 itself is let through, since with a minus sign before it it is the
least constant; where its sign is not changed, or changed back, it is silently taken for that one, too.

    -2147483648   the least constant          2147483648, --2147483648   the least constant as well

The digits may stand at any place of a script, and the signs may be apart from each other.  How the text is
cut into tokens is the first part, and what is read from the tokens the second one.
-/
import Nss.Proofs.Token.Spacing
import Nss.Proofs.Parsing.Expressions
import Mathlib

namespace Nss

/-! ## Numbers -/

/-- The number that a row of digits stands for in a base. -/
def numeral (base : Nat) (digit : Char → Nat) (digits : List Char) : Nat :=
  Nat.ofDigits base (digits.map digit).reverse

/-- The value of a decimal digit. -/
def decimalDigit (c : Char) : Nat := c.toNat - '0'.toNat

/-- The number that a row of decimal digits with `n` minus signs before it stands for. -/
def signed (n : Nat) (digits : List Char) : Int := (-1) ^ n * numeral 10 decimalDigit digits

namespace Lexeme

/-- In front of `after`, the text `cs` is cut into some tokens, and there is no problem in it. -/
structure Finds (start : Nat) (cs after : List Char) (ts : List Token) : Prop where
  tokens : (all start (cs ++ after)).filterMap Yield.token?
    = ts ++ (all (start + utf8Width cs) after).filterMap Yield.token?
  troubles : (all start (cs ++ after)).filterMap Yield.trouble?
    = (all (start + utf8Width cs) after).filterMap Yield.trouble?

namespace Finds

variable {start : Nat} {c : Char} {cs more after : List Char} {t : Token} {ts : List Token}

/-- One token is found where it is read. -/
theorem one (hread : read start c (more ++ after) = ⟨more.length, .token t⟩) :
    Finds start (c :: more) after [t] := by
  have hall : all start (c :: more ++ after)
      = .token t :: all (start + utf8Width (c :: more)) after := all_cons hread
  constructor
  · rw [hall]
    rfl
  · rw [hall]
    rfl

theorem cons (hfirst : Finds start more (cs ++ after) [t])
    (hrest : Finds (start + utf8Width more) cs after ts) : Finds start (more ++ cs) after (t :: ts) := by
  constructor
  · rw [List.append_assoc, hfirst.tokens, hrest.tokens, utf8Width_append, Nat.add_assoc]
    rfl
  · rw [List.append_assoc, hfirst.troubles, hrest.troubles, utf8Width_append, Nat.add_assoc]

/-- A gap is no token. -/
theorem gap {gap : List Char} (hgap : IsGap gap) (hrest : Finds (start + utf8Width gap) cs after ts) :
    Finds start (gap ++ cs) after ts := by
  obtain ⟨n, hall⟩ := all_gap hgap start (cs ++ after)
  constructor
  · rw [List.append_assoc, hall, filterMap_skipped Yield.token? rfl, hrest.tokens, utf8Width_append,
      Nat.add_assoc]
  · rw [List.append_assoc, hall, filterMap_skipped Yield.trouble? rfl, hrest.troubles,
      utf8Width_append, Nat.add_assoc]

end Finds

variable {start : Nat} {digits after : List Char}

end Lexeme

/-! ## Tokens -/

/-- The state behind a token. -/
def ParseState.behind (s : ParseState) (t : Token) (rest : List Token) : ParseState :=
  { s with ahead := rest, previous := t.span }

namespace Expr

open Steps

variable {s : ParseState} {t : Token} {rest : List Token} {levels : Nat}

theorem operations_of_error {operand : ScriptParser Expr} {d : Diagnostic} {s' : ParseState}
    (h : operand s = .error d s') : ∀ m, operations operand m s = .error d s'
  | 0 => h
  | m + 1 => by rw [operations, bind_apply, operations_of_error h m]

variable {digits : List Char} {m : Nat}

open Lexeme

end Expr

end Nss
