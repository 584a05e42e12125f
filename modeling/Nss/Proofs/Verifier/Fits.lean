/-
# Code that fits its shapes

`Fits` is the verifier on a piece of code: it goes from one shape to another, with a shape for each
instruction, and jumps go where the labels have the shape that is left.  Pieces fit together if one
begins with the shape that the other one ends with.  After a jump that is always taken, any shape may
follow.
-/
import Nss.Proofs.Verifier.Basic
import Nss.Proofs.Pieces
import Mathlib.Data.List.Forall2

namespace Nss

namespace Verifier

/-- `Fits symbols stop targets S c shapes S'`: the code `c` has the shapes `shapes` and goes from `S`
to `S'`, if each label stands before an instruction with its shape in `targets`. -/
inductive Fits (symbols : Symbols) (stop : Shape) (targets : List Shape) :
    Shape → List Instruction → List Shape → Shape → Prop
  | nil {S : Shape} : Fits symbols stop targets S [] [] S
  | cons {S S' T U : Shape} {i : Instruction} {c : List Instruction} {shapes : List Shape} :
      Leaves symbols stop i S S' → (i.fallsThrough = true → T = S') →
      (∀ l, i.label? = some l → targets[l]? = some S') →
      Fits symbols stop targets T c shapes U →
      Fits symbols stop targets S (i :: c) (S :: shapes) U

namespace Fits

variable {symbols : Symbols} {stop : Shape} {targets : List Shape} {S T U : Shape}
  {i : Instruction} {c c' : List Instruction} {shapes shapes' : List Shape}

/-- An instruction that does not jump. -/
theorem single (h : transfer? symbols stop i S = some T) (hi : i.label? = none) :
    Fits symbols stop targets S [i] [S] T := by
  refine .cons (.inl h) (fun _ => rfl) ?_ .nil
  intro l hl
  rw [hi] at hl
  cases hl

/-- A reserved cell for a variable. -/
theorem declared (h : declare? i S = some T) (hi : i.label? = none) :
    Fits symbols stop targets S [i] [S] T := by
  refine .cons (.inr h) (fun _ => rfl) ?_ .nil
  intro l hl
  rw [hi] at hl
  cases hl

theorem jump {l : Nat} (hl : targets[l]? = some S) :
    Fits symbols stop targets S [.jump l] [S] T := by
  refine .cons (.inl rfl) nofun ?_ .nil
  intro l' hl'
  obtain rfl := Option.some.inj hl'
  exact hl

theorem jumpIfZero {l : Nat} {values frame : List ValueType}
    (hl : targets[l]? = some ⟨values, frame⟩) :
    Fits symbols stop targets ⟨.int :: values, frame⟩ [.jumpIfZero l] [⟨.int :: values, frame⟩]
      ⟨values, frame⟩ := by
  refine .cons (.inl transfer?_jumpIfZero) (fun _ => rfl) ?_ .nil
  intro l' hl'
  obtain rfl := Option.some.inj hl'
  exact hl

theorem append (h : Fits symbols stop targets S c shapes T)
    (h' : Fits symbols stop targets T c' shapes' U) :
    Fits symbols stop targets S (c ++ c') (shapes ++ shapes') U := by
  induction h with
  | nil => exact h'
  | cons hleaves hnext hlabel _ ih => exact .cons hleaves hnext hlabel (ih h')

/-- Taking cells from the top, by an instruction if there are any. -/
theorem popCode {n : Nat} (hrep : cellSize * n ≤ 2 ^ 31) (hn : n ≤ S.cells.length) :
    ∃ shapes, Fits symbols stop targets S (Nss.popCode n) shapes (S.drop n) := by
  cases n with
  | zero =>
      rw [Shape.drop_zero]
      exact ⟨[], .nil⟩
  | succ n => exact ⟨[S], .single (transfer?_pop hrep hn) rfl⟩

/-! ## What is known of code that fits -/

theorem length_eq (h : Fits symbols stop targets S c shapes T) : shapes.length = c.length := by
  induction h with
  | nil => rfl
  | cons _ _ _ _ ih => exact congrArg (· + 1) ih

/-- The shape at the beginning stands before the shapes at the end. -/
theorem head (h : Fits symbols stop targets S c shapes T) (hT : shapes'[0]? = some T) :
    (shapes ++ shapes')[0]? = some S := by
  cases h with
  | nil => exact hT
  | cons _ _ _ _ => rfl

/-- Every instruction fits its shape, and leaves the shapes that come next. -/
theorem step (h : Fits symbols stop targets S c shapes T) {n : Nat} (hi : (c)[n]? = some i) :
    ∃ U V, shapes[n]? = some U ∧ Leaves symbols stop i U V ∧
      (i.fallsThrough = true → (shapes ++ [T])[n + 1]? = some V) ∧
      (∀ l, i.label? = some l → targets[l]? = some V) := by
  induction h generalizing n with
  | nil => cases hi
  | @cons S S' T U _ _ shapes hleaves hnext hlabel hrest ih =>
      cases n with
      | zero =>
          obtain rfl := Option.some.inj hi
          refine ⟨S, S', rfl, hleaves, ?_, hlabel⟩
          intro hfalls
          rw [← hnext hfalls]
          exact hrest.head rfl
      | succ n => exact ih hi

end Fits

/-! ## Labels -/

/-- The labels of a piece of code stand before instructions of the piece, or at its end, and the
shapes there are known. -/
def Marks (next : Nat) (shapes : List Shape) : List Nat → List Shape → Prop :=
  List.Forall₂ fun place S => ∃ m, place = next + m ∧ shapes[m]? = some S

namespace Marks

variable {next : Nat} {shapes shapes' : List Shape} {ls : List Nat} {targets : List Shape}

/-- More shapes may follow if they begin with the one at the end. -/
theorem left {S : Shape} (h : Marks next (shapes ++ [S]) ls targets)
    (hS : shapes'[0]? = some S) : Marks next (shapes ++ shapes') ls targets := by
  refine List.Forall₂.imp ?_ h
  rintro place T ⟨m, rfl, hm⟩
  refine ⟨m, rfl, ?_⟩
  rcases Nat.lt_or_ge m shapes.length with hlt | hge
  · rwa [List.getElem?_append_left hlt] at hm ⊢
  · rw [List.getElem?_append_right hge] at hm ⊢
    cases hk : m - shapes.length with
    | zero =>
        rw [hk] at hm
        exact hS.trans hm
    | succ k =>
        rw [hk] at hm
        cases hm

/-- Other shapes may stand before. -/
theorem right (h : Marks (next + shapes.length) shapes' ls targets) :
    Marks next (shapes ++ shapes') ls targets := by
  refine List.Forall₂.imp ?_ h
  rintro place T ⟨m, rfl, hm⟩
  exact ⟨shapes.length + m, by rw [Nat.add_assoc],
    by rw [List.getElem?_append_right (Nat.le_add_right _ _), Nat.add_sub_cancel_left, hm]⟩

/-- The shape at a label. -/
theorem shape_at (h : Marks next shapes ls targets) {l : Nat} {S : Shape}
    (hl : targets[l]? = some S) : ∃ m, ls[l]? = some (next + m) ∧ shapes[m]? = some S := by
  induction h generalizing l with
  | nil => cases hl
  | cons hfirst _ ih =>
      cases l with
      | zero =>
          obtain rfl := Option.some.inj hl
          obtain ⟨m, rfl, hm⟩ := hfirst
          exact ⟨m, rfl, hm⟩
      | succ l => exact ih hl

/-- No label stands beyond the shapes. -/
theorem lt_of_mem (h : Marks next shapes ls targets) {place : Nat} (hplace : place ∈ ls) :
    place < next + shapes.length := by
  induction h with
  | nil => cases hplace
  | cons hfirst _ ih =>
      rcases List.mem_cons.mp hplace with rfl | hrest
      · obtain ⟨m, rfl, hm⟩ := hfirst
        exact Nat.add_lt_add_left (List.getElem?_eq_some_iff.mp hm).1 next
      · exact ih hrest

end Marks

/-- Code that fits its shapes, with its labels where they say, and with an instruction at its end
that nothing follows, is verified. -/
theorem Fits.verified {symbols : Symbols} {R : Routine} {start stop T : Shape}
    {shapes targets : List Shape} {c : List Instruction} {i : Instruction} {ls : List Nat}
    (h : Fits symbols stop targets start R.code shapes T) (hmarks : Marks 0 shapes ls targets)
    (hlabels : R.labels = ls.map some) (hcode : R.code = c ++ [i])
    (hi : i.fallsThrough = false) : Verified symbols R start stop shapes where
  length := h.length_eq
  start := by
    rw [hcode] at h
    cases c with
    | nil =>
        cases h with
        | cons _ _ _ _ => rfl
    | cons _ _ =>
        cases h with
        | cons _ _ _ _ => rfl
  step n j hj := by
    obtain ⟨U, V, hU, hleaves, hnext, hlabel⟩ := h.step hj
    refine ⟨U, V, hU, hleaves, ?_, ?_⟩
    · intro hfalls
      have hlen := h.length_eq
      have hlt := (List.getElem?_eq_some_iff.mp hj).1
      have hne : n + 1 ≠ R.code.length := by
        intro hlast
        rw [hcode, List.length_append, List.length_singleton] at hlast
        obtain rfl := Nat.succ.inj hlast
        rw [hcode, List.getElem?_append_right (Nat.le_refl _), Nat.sub_self] at hj
        obtain rfl := Option.some.inj hj
        rw [hi] at hfalls
        cases hfalls
      rw [← hnext hfalls, List.getElem?_append_left (by omega)]
    · intro l hl
      obtain ⟨m, hm, hshape⟩ := hmarks.shape_at (hlabel l hl)
      rw [Nat.zero_add] at hm
      exact ⟨m, by rw [hlabels, List.getElem?_map, hm]; rfl, hshape⟩
  labels label hlabel := by
    rw [hlabels] at hlabel
    obtain ⟨place, hplace, rfl⟩ := List.mem_map.mp hlabel
    refine ⟨place, rfl, ?_⟩
    have hlt := hmarks.lt_of_mem hplace
    rwa [Nat.zero_add, h.length_eq] at hlt

/-- A piece of code between two shapes.  It stands at `next`, and the labels it binds stand before
the instructions `ls`, which have the shapes `bound`. -/
def Accepted (symbols : Symbols) (stop : Shape) (targets : List Shape) (next : Nat)
    (c : List Instruction) (ls : List Nat) (bound : List Shape) (S T : Shape) : Prop :=
  ∃ shapes, Fits symbols stop targets S c shapes T ∧ Marks next (shapes ++ [T]) ls bound

namespace Accepted

variable {symbols : Symbols} {stop S T U : Shape} {targets : List Shape} {next : Nat}
  {c c' : List Instruction} {ls ls' : List Nat} {bound bound' : List Shape}

/-- A piece of code without labels. -/
theorem ofFits {shapes : List Shape} (h : Fits symbols stop targets S c shapes T) :
    Accepted symbols stop targets next c [] [] S T :=
  ⟨shapes, h, .nil⟩

theorem length_eq (h : Accepted symbols stop targets next c ls bound S T) :
    ls.length = bound.length := by
  obtain ⟨_, _, hmarks⟩ := h
  exact List.Forall₂.length_eq hmarks

theorem append (h : Accepted symbols stop targets next c ls bound S T)
    (h' : Accepted symbols stop targets (next + c.length) c' ls' bound' T U) :
    Accepted symbols stop targets next (c ++ c') (ls ++ ls') (bound ++ bound') S U := by
  obtain ⟨shapes, hfits, hmarks⟩ := h
  obtain ⟨shapes', hfits', hmarks'⟩ := h'
  refine ⟨shapes ++ shapes', hfits.append hfits', ?_⟩
  rw [List.append_assoc]
  rw [← hfits.length_eq] at hmarks'
  exact List.rel_append (hmarks.left (hfits'.head rfl)) hmarks'.right

/-- A label before the first instruction. -/
theorem labelled (h : Accepted symbols stop targets next c ls bound S T) :
    Accepted symbols stop targets next c (next :: ls) (S :: bound) S T := by
  obtain ⟨shapes, hfits, hmarks⟩ := h
  exact ⟨shapes, hfits, .cons ⟨0, rfl, hfits.head rfl⟩ hmarks⟩

/-- A label behind the last instruction. -/
theorem ended (h : Accepted symbols stop targets next c ls bound S T) :
    Accepted symbols stop targets next c ((next + c.length) :: ls) (T :: bound) S T := by
  obtain ⟨shapes, hfits, hmarks⟩ := h
  refine ⟨shapes, hfits, .cons ⟨c.length, rfl, ?_⟩ hmarks⟩
  rw [← hfits.length_eq, List.getElem?_append_right (Nat.le_refl _), Nat.sub_self]
  rfl

/-- The place of a piece of code can be written in another way. -/
theorem cast (h : Accepted symbols stop targets next c ls bound S T) {next' : Nat}
    (hnext : next = next') : Accepted symbols stop targets next' c ls bound S T :=
  hnext ▸ h

end Accepted

end Verifier

end Nss
