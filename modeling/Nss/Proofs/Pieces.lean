/-
# Pieces of lists

`SliceAt whole first piece` says that `piece` stands in `whole` from the place `first` on.
-/
import Mathlib.Tactic.Common

namespace Nss

/-- A list stands in another one from a place on. -/
def SliceAt {α : Type} (whole : List α) (first : Nat) (piece : List α) : Prop :=
  ∀ k a, piece[k]? = some a → whole[first + k]? = some a

namespace SliceAt

variable {α : Type} {whole l l' : List α} {first : Nat} {a : α}

theorem left (h : SliceAt whole first (l ++ l')) : SliceAt whole first l := by
  intro k a hk
  have hlt := (List.getElem?_eq_some_iff.mp hk).1
  exact h k a (by rw [List.getElem?_append_left hlt, hk])

theorem right (h : SliceAt whole first (l ++ l')) : SliceAt whole (first + l.length) l' := by
  intro k a hk
  rw [Nat.add_assoc]
  exact h (l.length + k) a (by
    rw [List.getElem?_append_right (Nat.le_add_right _ _), Nat.add_sub_cancel_left, hk])

theorem head (h : SliceAt whole first (a :: l)) : whole[first]? = some a := h 0 a rfl

theorem tail (h : SliceAt whole first (a :: l)) : SliceAt whole (first + 1) l := by
  rw [← List.singleton_append] at h
  exact h.right

theorem last (h : SliceAt whole first (l ++ [a])) : whole[first + l.length]? = some a :=
  h.right.head

theorem cast (h : SliceAt whole first l) {first' : Nat} (hfirst : first = first') :
    SliceAt whole first' l :=
  hfirst ▸ h

theorem self (whole : List α) : SliceAt whole 0 whole := by
  intro k a hk
  rwa [Nat.zero_add]

end SliceAt

end Nss
