/-
# Cutting texts

Splitting a text at the last character of a kind, and cutting a text at byte offsets into its UTF-8
form, which is possible only between two characters.
-/
import Nss.Text.Bytes

namespace Nss.Text

/-- What stands before and after the last character of a kind. -/
def splitLast? (p : Char → Bool) (cs : List Char) : Option (List Char × List Char) :=
  let after := (cs.reverse.takeWhile fun c => !p c).reverse
  if after.length = cs.length then none
  else some (cs.take (cs.length - after.length - 1), after)

/-- What is left of a text behind its first `n` bytes. -/
def dropBytes? : Nat → List Char → Option (List Char)
  | 0, cs => some cs
  | _ + 1, [] => none
  | n + 1, c :: cs => if c.utf8Size ≤ n + 1 then dropBytes? (n + 1 - c.utf8Size) cs else none

/-- The first `n` bytes of a text. -/
def takeBytes? : Nat → List Char → Option (List Char)
  | 0, _ => some []
  | _ + 1, [] => none
  | n + 1, c :: cs =>
    if c.utf8Size ≤ n + 1 then (takeBytes? (n + 1 - c.utf8Size) cs).map (c :: ·) else none

theorem dropBytes?_append (as bs : List Char) :
    dropBytes? (utf8Width as) (as ++ bs) = some bs := by
  induction as with
  | nil => simp [dropBytes?]
  | cons a as ih =>
    have ha := a.utf8Size_pos
    obtain ⟨n, hn⟩ : ∃ n, utf8Width (a :: as) = n + 1 :=
      ⟨_, (Nat.succ_pred (by simp; omega)).symm⟩
    have hle : a.utf8Size ≤ n + 1 := by rw [← hn]; simp
    have hsub : n + 1 - a.utf8Size = utf8Width as := by rw [← hn]; simp
    simp [hn, dropBytes?, hle, hsub, ih]

theorem takeBytes?_append (as bs : List Char) :
    takeBytes? (utf8Width as) (as ++ bs) = some as := by
  induction as with
  | nil => simp [takeBytes?]
  | cons a as ih =>
    have ha := a.utf8Size_pos
    obtain ⟨n, hn⟩ : ∃ n, utf8Width (a :: as) = n + 1 :=
      ⟨_, (Nat.succ_pred (by simp; omega)).symm⟩
    have hle : a.utf8Size ≤ n + 1 := by rw [← hn]; simp
    have hsub : n + 1 - a.utf8Size = utf8Width as := by rw [← hn]; simp
    simp [hn, takeBytes?, hle, hsub, ih]

end Nss.Text
