/-
# Bytes that are read back

A text is what its UTF-8 form reads back as, and a number what its bytes do; and bytes are those of
the number that they are read as.
-/
import Nss.Text.Bytes
import Mathlib.Algebra.Group.Nat.Defs
import Mathlib.Tactic.Common

namespace Nss.Bytes

/-! ## UTF-8 -/

theorem toNat_ofNat {n : Nat} (h : n < 256) : (UInt8.ofNat n).toNat = n := by
  rw [UInt8.toNat_ofNat', Nat.mod_eq_of_lt h]

/-- A byte that carries on a character. -/
theorem isContinuation_ofNat {n : Nat} (h : n < 64) :
    isContinuation (UInt8.ofNat (n + 0x80)) = true := by
  have hn : (UInt8.ofNat (n + 0x80)).toNat = n + 0x80 := toNat_ofNat (by omega)
  simp only [isContinuation, UInt8.le_iff_toNat_le, hn, Bool.and_eq_true, decide_eq_true_eq]
  exact ⟨Nat.le_add_left _ _, by show n + 0x80 ≤ 191; omega⟩

theorem payload_ofNat {n : Nat} (h : n < 64) : payload (UInt8.ofNat (n + 0x80)) = n := by
  rw [payload, toNat_ofNat (by omega)]
  omega

/-! ### Leading bytes -/

theorem decode_one {b : UInt8} (rest : Bytes) (hb : b.toNat < 0x80) :
    decode (b :: rest) = Char.ofNat b.toNat :: decode rest := by
  have hlt : b < 0x80 := UInt8.lt_iff_toNat_lt.mpr hb
  rw [decode.eq_def]
  simp only [hlt, if_true]

theorem decode_two {b c : UInt8} (rest : Bytes) (hb : 0xC2 ≤ b.toNat) (hb' : b.toNat ≤ 0xDF)
    (hc : isContinuation c = true) :
    decode (b :: c :: rest) = Char.ofNat (b.toNat % 32 * 64 + payload c) :: decode rest := by
  have hnot : ¬ b < 0x80 := by
    rw [UInt8.lt_iff_toNat_lt]
    exact Nat.not_lt.mpr (Nat.le_trans (by decide) hb)
  have hlead : (0xC2 ≤ b && b ≤ 0xDF) = true := by
    simp only [UInt8.le_iff_toNat_le, Bool.and_eq_true, decide_eq_true_eq]
    exact ⟨hb, hb'⟩
  rw [decode.eq_def]
  simp only [hnot, if_false, hlead, if_true, hc]

theorem decode_three {b c d : UInt8} (rest : Bytes) (hb : 0xE0 ≤ b.toNat) (hb' : b.toNat ≤ 0xEF)
    (hc : followsThree b c = true) (hd : isContinuation d = true) :
    decode (b :: c :: d :: rest)
      = Char.ofNat ((b.toNat % 16 * 64 + payload c) * 64 + payload d) :: decode rest := by
  have hnot : ¬ b < 0x80 := by
    rw [UInt8.lt_iff_toNat_lt]
    exact Nat.not_lt.mpr (Nat.le_trans (by decide) hb)
  have hnot' : (0xC2 ≤ b && b ≤ 0xDF) = false := by
    simp only [UInt8.le_iff_toNat_le, Bool.and_eq_false_iff, decide_eq_false_iff_not]
    exact .inr (Nat.not_le.mpr hb)
  have hlead : (0xE0 ≤ b && b ≤ 0xEF) = true := by
    simp only [UInt8.le_iff_toNat_le, Bool.and_eq_true, decide_eq_true_eq]
    exact ⟨hb, hb'⟩
  rw [decode.eq_def]
  simp only [hnot, if_false, hnot', Bool.false_eq_true, hlead, if_true, hc, hd]

theorem decode_four {b c d e : UInt8} (rest : Bytes) (hb : 0xF0 ≤ b.toNat) (hb' : b.toNat ≤ 0xF4)
    (hc : followsFour b c = true) (hd : isContinuation d = true) (he : isContinuation e = true) :
    decode (b :: c :: d :: e :: rest)
      = Char.ofNat (((b.toNat % 8 * 64 + payload c) * 64 + payload d) * 64 + payload e)
        :: decode rest := by
  have hnot : ¬ b < 0x80 := by
    rw [UInt8.lt_iff_toNat_lt]
    exact Nat.not_lt.mpr (Nat.le_trans (by decide) hb)
  have hnot' : (0xC2 ≤ b && b ≤ 0xDF) = false := by
    simp only [UInt8.le_iff_toNat_le, Bool.and_eq_false_iff, decide_eq_false_iff_not]
    exact .inr (Nat.not_le.mpr (Nat.lt_of_lt_of_le (by decide) hb))
  have hnot'' : (0xE0 ≤ b && b ≤ 0xEF) = false := by
    simp only [UInt8.le_iff_toNat_le, Bool.and_eq_false_iff, decide_eq_false_iff_not]
    exact .inr (Nat.not_le.mpr hb)
  have hlead : (0xF0 ≤ b && b ≤ 0xF4) = true := by
    simp only [UInt8.le_iff_toNat_le, Bool.and_eq_true, decide_eq_true_eq]
    exact ⟨hb, hb'⟩
  rw [decode.eq_def]
  simp only [hnot, if_false, hnot', hnot'', Bool.false_eq_true, hlead, if_true, hc, hd, he]

/-- A second byte of three: none that would give a character that is not one. -/
theorem followsThree_ofNat {v : Nat} (h : 0x800 ≤ v) (h' : v < 0x10000)
    (hvalid : v < 0xD800 ∨ 0xDFFF < v) :
    followsThree (UInt8.ofNat (v / 4096 % 16 + 0xE0)) (UInt8.ofNat (v / 64 % 64 + 0x80)) = true := by
  have hb : (UInt8.ofNat (v / 4096 % 16 + 0xE0)).toNat = v / 4096 % 16 + 0xE0 :=
    toNat_ofNat (by omega)
  have hc : (UInt8.ofNat (v / 64 % 64 + 0x80)).toNat = v / 64 % 64 + 0x80 :=
    toNat_ofNat (by omega)
  have hA0 : (0xA0 : UInt8).toNat = 160 := rfl
  have h80 : (0x80 : UInt8).toNat = 128 := rfl
  have hBF : (0xBF : UInt8).toNat = 191 := rfl
  have h9F : (0x9F : UInt8).toNat = 159 := rfl
  have hE0 : (0xE0 : UInt8).toNat = 224 := rfl
  have hED : (0xED : UInt8).toNat = 237 := rfl
  rw [followsThree]
  split
  · next hlead =>
      rw [← UInt8.toNat_inj, hb, hE0] at hlead
      simp only [UInt8.le_iff_toNat_le, hc, hA0, hBF, Bool.and_eq_true, decide_eq_true_eq]
      omega
  · split
    · next hlead =>
        rw [← UInt8.toNat_inj, hb, hED] at hlead
        simp only [UInt8.le_iff_toNat_le, hc, h80, h9F, Bool.and_eq_true, decide_eq_true_eq]
        omega
    · exact isContinuation_ofNat (by omega)

/-- A second byte of four: none that would give a character that is not one. -/
theorem followsFour_ofNat {v : Nat} (h : 0x10000 ≤ v) (h' : v < 0x110000) :
    followsFour (UInt8.ofNat (v / 262144 % 8 + 0xF0)) (UInt8.ofNat (v / 4096 % 64 + 0x80))
      = true := by
  have hb : (UInt8.ofNat (v / 262144 % 8 + 0xF0)).toNat = v / 262144 % 8 + 0xF0 :=
    toNat_ofNat (by omega)
  have hc : (UInt8.ofNat (v / 4096 % 64 + 0x80)).toNat = v / 4096 % 64 + 0x80 :=
    toNat_ofNat (by omega)
  have h90 : (0x90 : UInt8).toNat = 144 := rfl
  have h80 : (0x80 : UInt8).toNat = 128 := rfl
  have hBF : (0xBF : UInt8).toNat = 191 := rfl
  have h8F : (0x8F : UInt8).toNat = 143 := rfl
  have hF0 : (0xF0 : UInt8).toNat = 240 := rfl
  have hF4 : (0xF4 : UInt8).toNat = 244 := rfl
  rw [followsFour]
  split
  · next hlead =>
      rw [← UInt8.toNat_inj, hb, hF0] at hlead
      simp only [UInt8.le_iff_toNat_le, hc, h90, hBF, Bool.and_eq_true, decide_eq_true_eq]
      omega
  · split
    · next hlead =>
        rw [← UInt8.toNat_inj, hb, hF4] at hlead
        simp only [UInt8.le_iff_toNat_le, hc, h80, h8F, Bool.and_eq_true, decide_eq_true_eq]
        omega
    · exact isContinuation_ofNat (by omega)

/-! ### Characters -/

/-- The first character is read back from its UTF-8 form. -/
theorem decode_utf8EncodeChar (c : Char) (rest : Bytes) :
    decode (String.utf8EncodeChar c ++ rest) = c :: decode rest := by
  have hchar : Char.ofNat c.val.toNat = c := Char.ofNat_toNat c
  have hvalid : c.val.toNat < 0xD800 ∨ 0xDFFF < c.val.toNat ∧ c.val.toNat < 0x110000 := c.valid
  simp only [String.utf8EncodeChar]
  generalize c.val.toNat = v at hchar hvalid ⊢
  split
  · have hb : (UInt8.ofNat v).toNat = v := toNat_ofNat (by omega)
    rw [List.singleton_append, decode_one rest (by omega), hb, hchar]
  split
  · have hb : (UInt8.ofNat (v / 64 % 32 + 0xC0)).toNat = v / 64 % 32 + 0xC0 :=
      toNat_ofNat (by omega)
    have hvalue : (v / 64 % 32 + 0xC0) % 32 * 64 + v % 64 = v := by omega
    rw [List.cons_append, List.singleton_append,
      decode_two rest (by omega) (by omega) (isContinuation_ofNat (by omega)), hb,
      payload_ofNat (by omega), hvalue, hchar]
  split
  · have hb : (UInt8.ofNat (v / 4096 % 16 + 0xE0)).toNat = v / 4096 % 16 + 0xE0 :=
      toNat_ofNat (by omega)
    have hvalue : ((v / 4096 % 16 + 0xE0) % 16 * 64 + v / 64 % 64) * 64 + v % 64 = v := by omega
    rw [List.cons_append, List.cons_append, List.singleton_append,
      decode_three rest (by omega) (by omega) (followsThree_ofNat (by omega) (by omega) (by omega))
        (isContinuation_ofNat (by omega)), hb, payload_ofNat (by omega), payload_ofNat (by omega),
      hvalue, hchar]
  · have hb : (UInt8.ofNat (v / 262144 % 8 + 0xF0)).toNat = v / 262144 % 8 + 0xF0 :=
      toNat_ofNat (by omega)
    have hvalue : (((v / 262144 % 8 + 0xF0) % 8 * 64 + v / 4096 % 64) * 64 + v / 64 % 64) * 64
        + v % 64 = v := by omega
    rw [List.cons_append, List.cons_append, List.cons_append, List.singleton_append,
      decode_four rest (by omega) (by omega) (followsFour_ofNat (by omega) (by omega))
        (isContinuation_ofNat (by omega)) (isContinuation_ofNat (by omega)), hb,
      payload_ofNat (by omega), payload_ofNat (by omega), payload_ofNat (by omega), hvalue, hchar]

theorem decode_flatMap : ∀ cs : List Char, decode (cs.flatMap String.utf8EncodeChar) = cs
  | [] => by simp [decode]
  | c :: cs => by rw [List.flatMap_cons, decode_utf8EncodeChar, decode_flatMap cs]

/-- A text is read back from its UTF-8 form. -/
theorem toText_ofText (text : String) : toText (ofText text) = text := by
  rw [toText, ofText, decode_flatMap, String.ofList_toList]

/-! ## Numbers -/

theorem toNat_toUInt16 (a b : UInt8) : (toUInt16 a b).toNat = a.toNat * 256 + b.toNat := by
  have ha := a.toNat_lt
  have hb := b.toNat_lt
  have hshift : (a.toUInt16 <<< 8).toNat = a.toNat <<< 8 := by
    rw [UInt16.toNat_shiftLeft, UInt8.toNat_toUInt16]
    show a.toNat <<< 8 % 2 ^ 16 = _
    rw [Nat.mod_eq_of_lt (by rw [Nat.shiftLeft_eq]; omega)]
  rw [toUInt16, UInt16.toNat_or, hshift, UInt8.toNat_toUInt16,
    ← Nat.shiftLeft_add_eq_or_of_lt hb, Nat.shiftLeft_eq]

theorem toNat_shiftLeft {a : UInt8} {n : UInt32} {k : Nat} (hn : n.toNat = k) (hk : k ≤ 24) :
    (a.toUInt32 <<< n).toNat = a.toNat <<< k := by
  have ha := a.toNat_lt
  have hmod : n.toNat % 32 = k := by omega
  have hlt : a.toNat * 2 ^ k < 2 ^ 32 := by
    calc a.toNat * 2 ^ k < 2 ^ 8 * 2 ^ k := Nat.mul_lt_mul_of_pos_right ha (Nat.two_pow_pos k)
      _ ≤ 2 ^ 8 * 2 ^ 24 := Nat.mul_le_mul_left _ (Nat.pow_le_pow_right (by decide) hk)
  rw [UInt32.toNat_shiftLeft, UInt8.toNat_toUInt32, hmod, Nat.mod_eq_of_lt]
  rwa [Nat.shiftLeft_eq]

theorem toNat_toUInt32 (a b c d : UInt8) :
    (toUInt32 a b c d).toNat
      = a.toNat * 2 ^ 24 + (b.toNat * 2 ^ 16 + (c.toNat * 2 ^ 8 + d.toNat)) := by
  have hb := b.toNat_lt
  have hc := c.toNat_lt
  have hd := d.toNat_lt
  have ha : (a.toUInt32 <<< 24).toNat = a.toNat <<< 24 := toNat_shiftLeft rfl (by decide)
  have hb' : (b.toUInt32 <<< 16).toNat = b.toNat <<< 16 := toNat_shiftLeft rfl (by decide)
  have hc' : (c.toUInt32 <<< 8).toNat = c.toNat <<< 8 := toNat_shiftLeft rfl (by decide)
  rw [toUInt32, UInt32.toNat_or, UInt32.toNat_or, UInt32.toNat_or, ha, hb', hc',
    UInt8.toNat_toUInt32, Nat.or_assoc, Nat.or_assoc,
    ← Nat.shiftLeft_add_eq_or_of_lt hd]
  have hlow : c.toNat <<< 8 + d.toNat < 2 ^ 16 := by
    rw [Nat.shiftLeft_eq]
    omega
  rw [← Nat.shiftLeft_add_eq_or_of_lt hlow]
  have hmid : b.toNat <<< 16 + (c.toNat <<< 8 + d.toNat) < 2 ^ 24 := by
    rw [Nat.shiftLeft_eq, Nat.shiftLeft_eq]
    omega
  rw [← Nat.shiftLeft_add_eq_or_of_lt hmid, Nat.shiftLeft_eq, Nat.shiftLeft_eq, Nat.shiftLeft_eq]

theorem toNat_shiftRight {n k : UInt32} {j : Nat} (hk : k.toNat = j) (hj : j < 32) :
    (n >>> k).toUInt8.toNat = n.toNat / 2 ^ j % 256 := by
  rw [UInt32.toNat_toUInt8, UInt32.toNat_shiftRight, hk, Nat.mod_eq_of_lt hj,
    Nat.shiftRight_eq_div_pow]

/-- The high byte of two. -/
theorem toNat_high (n : UInt16) : (n >>> 8).toUInt8.toNat = n.toNat / 256 % 256 := by
  rw [UInt16.toNat_toUInt8, UInt16.toNat_shiftRight]
  show n.toNat >>> 8 % 256 = _
  rw [Nat.shiftRight_eq_div_pow]

/-- A number is read back from its four bytes. -/
theorem toUInt32_ofUInt32 (n : UInt32) :
    toUInt32 (n >>> 24).toUInt8 (n >>> 16).toUInt8 (n >>> 8).toUInt8 n.toUInt8 = n := by
  have hn := n.toNat_lt
  rw [← UInt32.toNat_inj, toNat_toUInt32, toNat_shiftRight (j := 24) rfl (by decide),
    toNat_shiftRight (j := 16) rfl (by decide), toNat_shiftRight (j := 8) rfl (by decide),
    UInt32.toNat_toUInt8]
  omega

/-- A number is read back from its two bytes. -/
theorem toUInt16_ofUInt16 (n : UInt16) : toUInt16 (n >>> 8).toUInt8 n.toUInt8 = n := by
  have hn := n.toNat_lt
  rw [← UInt16.toNat_inj, toNat_toUInt16, toNat_high, UInt16.toNat_toUInt8]
  omega

/-- Four bytes are those of the number that they are read as. -/
theorem ofUInt32_toUInt32 (a b c d : UInt8) : ofUInt32 (toUInt32 a b c d) = [a, b, c, d] := by
  have hb := b.toNat_lt
  have hc := c.toNat_lt
  have hd := d.toNat_lt
  have ha := a.toNat_lt
  have hn := toNat_toUInt32 a b c d
  generalize toUInt32 a b c d = n at hn
  have h24 : (n >>> 24).toUInt8 = a := by
    rw [← UInt8.toNat_inj, toNat_shiftRight (j := 24) rfl (by decide)]
    omega
  have h16 : (n >>> 16).toUInt8 = b := by
    rw [← UInt8.toNat_inj, toNat_shiftRight (j := 16) rfl (by decide)]
    omega
  have h8 : (n >>> 8).toUInt8 = c := by
    rw [← UInt8.toNat_inj, toNat_shiftRight (j := 8) rfl (by decide)]
    omega
  have h0 : n.toUInt8 = d := by
    rw [← UInt8.toNat_inj, UInt32.toNat_toUInt8]
    omega
  rw [ofUInt32, h24, h16, h8, h0]

/-- Two bytes are those of the number that they are read as. -/
theorem ofUInt16_toUInt16 (a b : UInt8) : ofUInt16 (toUInt16 a b) = [a, b] := by
  have ha := a.toNat_lt
  have hb := b.toNat_lt
  have hn := toNat_toUInt16 a b
  generalize toUInt16 a b = n at hn
  have h8 : (n >>> 8).toUInt8 = a := by
    rw [← UInt8.toNat_inj, toNat_high]
    omega
  have h0 : n.toUInt8 = b := by
    rw [← UInt8.toNat_inj, UInt16.toNat_toUInt8]
    omega
  rw [ofUInt16, h8, h0]

end Nss.Bytes
