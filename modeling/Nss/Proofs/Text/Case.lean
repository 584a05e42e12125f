/-
# Lowercase text stays as it is

No small letter is itself the capital letter of another pair, so that a text in small letters is not
changed by lowercasing it again.  For the table this is checked run against run: the small letters
of one run lie before or behind the capital letters of the other, or in between them.
-/
import Nss.Text.Case
import Mathlib.Tactic.Common

namespace Nss.Text

/-! ## The table -/

namespace CapitalRun

/-- A code point is one of a run. -/
def Holds (r : CapitalRun) (n : Nat) : Prop :=
  r.first ≤ n ∧ n ≤ r.last ∧ (n - r.first) % r.step = 0

/-- The code points of a run are all even or all odd. -/
def hasParity (r : CapitalRun) : Bool := r.step % 2 == 0 || r.first == r.last

/-- No small letter of a run is a capital letter of another one. -/
def clears (r r' : CapitalRun) : Bool :=
  let first := ((r.first : Int) + r.shift).toNat
  let last := ((r.last : Int) + r.shift).toNat
  Nat.blt last r'.first || Nat.blt r'.last first
    || (r.hasParity && r'.hasParity && (0 ≤ (r.first : Int) + r.shift) && (first + r'.first) % 2 == 1)

theorem even_of_hasParity {r : CapitalRun} {n : Nat} (h : r.hasParity = true) (hn : r.Holds n) :
    (n - r.first) % 2 = 0 := by
  obtain ⟨hfirst, hlast, hstep⟩ := hn
  rw [hasParity, Bool.or_eq_true, beq_iff_eq, beq_iff_eq] at h
  rcases h with h | h
  · exact Nat.mod_eq_zero_of_dvd
      (Nat.dvd_trans (Nat.dvd_of_mod_eq_zero h) (Nat.dvd_of_mod_eq_zero hstep))
  · omega

theorem not_holds_of_clears {r r' : CapitalRun} {n : Nat} (h : r.clears r' = true)
    (hn : r.Holds n) : ¬ r'.Holds ((n : Int) + r.shift).toNat := by
  intro hsmall
  simp only [clears, Bool.or_eq_true, Bool.and_eq_true, Nat.blt_eq, decide_eq_true_eq,
    beq_iff_eq] at h
  obtain ⟨hfirst, hlast, -⟩ := id hn
  obtain ⟨hfirst', hlast', -⟩ := id hsmall
  rcases h with (h | h) | ⟨⟨⟨hparity, hparity'⟩, hnonneg⟩, hodd⟩
  · omega
  · omega
  · have heven := even_of_hasParity hparity hn
    have heven' := even_of_hasParity hparity' hsmall
    omega

end CapitalRun

/-- The capital I with a dot above, which has a rule of its own. -/
def dottedRun : CapitalRun := ⟨0x130, 0x130, 2, 0⟩

theorem capitalRuns_clear :
    (capitalRuns.all fun r => (dottedRun :: capitalRuns).all r.clears) = true := by
  decide +kernel

theorem holds_of_capitalRun? {n : Nat} {r : CapitalRun} (h : capitalRun? n = some r) :
    r ∈ capitalRuns ∧ r.Holds n := by
  have hholds := List.find?_some h
  simp only [Bool.and_eq_true, decide_eq_true_eq, beq_iff_eq] at hholds
  exact ⟨List.mem_of_find?_eq_some h, hholds.1.1, hholds.1.2, hholds.2⟩

theorem capitalRun?_eq_none {n : Nat} (h : ∀ r ∈ capitalRuns, ¬ r.Holds n) :
    capitalRun? n = none := by
  cases hrun : capitalRun? n with
  | none => rfl
  | some r =>
      obtain ⟨hr, hholds⟩ := holds_of_capitalRun? hrun
      exact absurd hholds (h r hr)

/-! ## Characters -/

/-- A code point is that of no capital letter. -/
structure IsSmall (n : Nat) : Prop where
  undotted : n ≠ 0x130
  noRun : capitalRun? n = none

/-- Lowercasing leaves a character as it is, wherever it stands. -/
structure Small (c : Char) : Prop where
  noSigma : c ≠ capitalSigma
  same : lowercaseChar c = [c]

theorem small_of_isSmall {c : Char} (h : IsSmall c.toNat) : Small c where
  noSigma := by
    rintro rfl
    have hsigma : capitalRun? capitalSigma.toNat ≠ none := by decide +kernel
    exact hsigma h.noRun
  same := by rw [lowercaseChar, if_neg h.undotted, h.noRun]

theorem small_ofNat {n : Nat} (h : IsSmall n) : Small (Char.ofNat n) := by
  have hnat : (Char.ofNat n).toNat = n ∨ (Char.ofNat n).toNat = 0 := by
    by_cases hvalid : n.isValidChar
    · rw [Char.ofNat, dif_pos hvalid]
      exact .inl rfl
    · rw [Char.ofNat, dif_neg hvalid]
      exact .inr rfl
  refine small_of_isSmall ?_
  rcases hnat with hnat | hnat
  · rwa [hnat]
  · rw [hnat]
    exact ⟨by decide, by decide +kernel⟩

/-- The small letter of a pair is not a capital letter. -/
theorem isSmall_shift {n : Nat} {r : CapitalRun} (h : capitalRun? n = some r) :
    IsSmall ((n : Int) + r.shift).toNat := by
  obtain ⟨hr, hholds⟩ := holds_of_capitalRun? h
  have hclear := List.all_eq_true.mp (List.all_eq_true.mp capitalRuns_clear r hr)
  refine ⟨?_, capitalRun?_eq_none fun r' hr' => ?_⟩
  · intro hdotted
    refine CapitalRun.not_holds_of_clears (hclear dottedRun List.mem_cons_self) hholds ?_
    rw [hdotted]
    exact ⟨Nat.le_refl _, Nat.le_refl _, rfl⟩
  · exact CapitalRun.not_holds_of_clears (hclear r' (.tail _ hr')) hholds

theorem small_of_mem_lowercaseChar {c d : Char} (hc : c ≠ capitalSigma)
    (h : d ∈ lowercaseChar c) : Small d := by
  rw [lowercaseChar] at h
  split at h
  · rcases List.mem_cons.mp h with rfl | h
    · exact small_of_isSmall ⟨by decide, by decide +kernel⟩
    · rw [List.mem_singleton.mp h]
      exact small_ofNat ⟨by decide, by decide +kernel⟩
  · next hdotted =>
      split at h
      · next r hr =>
          rw [List.mem_singleton.mp h]
          exact small_ofNat (isSmall_shift hr)
      · next hnone =>
          rw [List.mem_singleton.mp h]
          exact ⟨hc, by rw [lowercaseChar, if_neg hdotted, hnone]⟩

theorem small_smallSigma (before after : List Char) : Small (smallSigma before after) := by
  rw [smallSigma]
  split
  · exact small_ofNat ⟨by decide, by decide +kernel⟩
  · exact small_ofNat ⟨by decide, by decide +kernel⟩

/-! ## Texts -/

theorem small_of_mem_lowercaseAfter :
    ∀ {cs before : List Char} {d : Char}, d ∈ lowercaseAfter before cs → Small d
  | [], before, d, h => by cases h
  | c :: cs, before, d, h => by
      rw [lowercaseAfter] at h
      rcases List.mem_append.mp h with h | h
      · split at h
        · rw [List.mem_singleton.mp h]
          exact small_smallSigma before cs
        · next hc => exact small_of_mem_lowercaseChar hc h
      · exact small_of_mem_lowercaseAfter h

theorem lowercaseAfter_of_small :
    ∀ {cs : List Char} (before : List Char), (∀ c ∈ cs, Small c) → lowercaseAfter before cs = cs
  | [], _, _ => rfl
  | c :: cs, before, h => by
      have hc := h c List.mem_cons_self
      rw [lowercaseAfter, if_neg hc.noSigma, hc.same,
        lowercaseAfter_of_small _ fun d hd => h d (.tail _ hd)]
      rfl

/-- A text in small letters stays as it is. -/
theorem lowercase_lowercase (s : String) : lowercase (lowercase s) = lowercase s := by
  rw [lowercase, lowercase, String.toList_ofList,
    lowercaseAfter_of_small [] fun c hc => small_of_mem_lowercaseAfter hc]

theorem small_of_mem_lowercase {s : String} {c : Char} (h : c ∈ (lowercase s).toList) : Small c := by
  rw [lowercase, String.toList_ofList] at h
  exact small_of_mem_lowercaseAfter h

/-! ## The letters from a to z -/

/-- A small letter of the table does not come before `a`. -/
theorem capitalRuns_ge : (capitalRuns.all fun r => 97 ≤ (r.first : Int) + r.shift) = true := by
  decide +kernel

theorem toNat_ofNat_ge {n : Nat} (h : 97 ≤ n) :
    (Char.ofNat n).toNat = 0 ∨ 97 ≤ (Char.ofNat n).toNat := by
  by_cases hvalid : n.isValidChar
  · rw [Char.ofNat, dif_pos hvalid]
    exact .inr h
  · rw [Char.ofNat, dif_neg hvalid]
    exact .inl rfl

theorem mem_of_mem_lowercaseChar {c d : Char} (hzero : d.toNat ≠ 0) (hlow : d.toNat < 97)
    (h : d ∈ lowercaseChar c) : d = c := by
  have hnot {n : Nat} (hn : 97 ≤ n) : d ≠ Char.ofNat n := by
    rintro rfl
    rcases toNat_ofNat_ge hn with h | h
    · exact hzero h
    · exact absurd hlow (Nat.not_lt_of_le h)
  rw [lowercaseChar] at h
  split at h
  · rcases List.mem_cons.mp h with rfl | h
    · exact absurd rfl (hnot (n := 105) (by decide))
    · exact absurd (List.mem_singleton.mp h) (hnot (by decide))
  · split at h
    · next r hr =>
        obtain ⟨hmem, hfirst, -⟩ := holds_of_capitalRun? hr
        have hge := List.all_eq_true.mp capitalRuns_ge r hmem
        rw [decide_eq_true_eq] at hge
        exact absurd (List.mem_singleton.mp h) (hnot (by omega))
    · exact List.mem_singleton.mp h

/-- Characters before `a` are no small letters, and so they were there before. -/
theorem mem_of_mem_lowercase {s : String} {d : Char} (hzero : d.toNat ≠ 0) (hlow : d.toNat < 97)
    (h : d ∈ (lowercase s).toList) : d ∈ s.toList := by
  rw [lowercase, String.toList_ofList] at h
  generalize ([] : List Char) = before at h
  generalize s.toList = cs at h ⊢
  induction cs generalizing before with
  | nil => cases h
  | cons c cs ih =>
      rw [lowercaseAfter] at h
      rcases List.mem_append.mp h with h | h
      · split at h
        · -- the small forms of sigma are far behind
          rw [List.mem_singleton.mp h, smallSigma] at hlow
          split at hlow
          · exact absurd hlow (by decide)
          · exact absurd hlow (by decide)
        · exact mem_of_mem_lowercaseChar hzero hlow h ▸ List.mem_cons_self
      · exact .tail _ (ih _ h)

/-- A capital letter from A to Z has a small letter from a to z, which is also that of the table. -/
theorem toLower_cases {c : Char} (h : c.toLower ≠ c) :
    c ≠ capitalSigma ∧ lowercaseChar c = [c.toLower] ∧ 97 ≤ c.toLower.toNat := by
  have hall : ∀ n : Fin 26, Char.ofNat (65 + n) ≠ capitalSigma ∧
      lowercaseChar (Char.ofNat (65 + n)) = [(Char.ofNat (65 + n)).toLower] ∧
      97 ≤ (Char.ofNat (65 + n)).toLower.toNat := by
    decide +kernel
  have hrange : 65 ≤ c.toNat ∧ c.toNat ≤ 90 := by
    delta Char.toLower at h
    split at h
    · next hupper => exact hupper
    · exact absurd rfl h
  have hc : Char.ofNat (65 + (c.toNat - 65)) = c := by
    rw [Nat.add_sub_cancel' hrange.1, Char.ofNat_toNat]
  have hn := hall ⟨c.toNat - 65, by omega⟩
  rwa [hc] at hn

theorem eq_of_toLower_eq {c d : Char} (h : c.toLower = d) (hd : d.toNat < 97) : c = d := by
  by_contra hne
  subst h
  exact absurd hd (Nat.not_lt_of_le (toLower_cases (Ne.symm hne)).2.2)

/-- A text of characters before `a` has no capital letters. -/
theorem eq_of_map_toLower_eq {cs ds : List Char} (h : cs.map Char.toLower = ds)
    (hds : ∀ d ∈ ds, d.toNat < 97) : cs = ds := by
  induction cs generalizing ds with
  | nil => exact h
  | cons c cs ih =>
      subst h
      obtain ⟨hc, hcs⟩ := List.forall_mem_cons.mp hds
      rw [List.map_cons, ← eq_of_toLower_eq rfl hc, ← ih rfl hcs]

theorem toLower_of_small {c : Char} (h : Small c) : c.toLower = c := by
  by_contra hne
  have hlower := (toLower_cases hne).2.1
  rw [h.same] at hlower
  exact hne (List.cons.inj hlower).1.symm

/-- A text whose capital letters are all from A to Z. -/
theorem lowercaseAfter_of_toLower : ∀ {cs : List Char} (before : List Char),
    (∀ c ∈ cs, Small c.toLower) → lowercaseAfter before cs = cs.map Char.toLower
  | [], _, _ => rfl
  | c :: cs, before, h => by
      have hrest := lowercaseAfter_of_toLower (c :: before) fun d hd => h d (.tail _ hd)
      have hc : c ≠ capitalSigma ∧ lowercaseChar c = [c.toLower] := by
        by_cases hupper : c.toLower = c
        · have hsmall := h c List.mem_cons_self
          rw [hupper] at hsmall ⊢
          exact ⟨hsmall.noSigma, hsmall.same⟩
        · obtain ⟨hsigma, hlower, -⟩ := toLower_cases hupper
          exact ⟨hsigma, hlower⟩
      rw [lowercaseAfter, if_neg hc.1, hc.2, hrest]
      rfl

theorem map_toLower_lowercase (s : String) :
    (lowercase s).toList.map Char.toLower = (lowercase s).toList := by
  have hsame : ∀ c ∈ (lowercase s).toList, c.toLower = id c := by
    intro c hc
    exact toLower_of_small (small_of_mem_lowercase hc)
  rw [List.map_congr_left hsame, List.map_id]

end Nss.Text
