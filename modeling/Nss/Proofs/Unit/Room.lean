/-
# Room for instructions

A buffer that starts empty and grows only when it has to has room for the least power of two of
instructions that is enough, no matter in which portions they came.  So the buffer of a unit is told
by its instructions alone, and whether more of them can be added by their number.  `Instance.Roomy`
says this of a unit; adding code and taking over a finished unit preserve it, and succeed exactly
when there is memory for all instructions together.
-/
import Nss.Proofs.Unit.Records
import Mathlib.Algebra.Group.Nat.Defs

namespace Nss

/-! ## Powers of two -/

-- the search for the power is private to the library
open private Nat.nextPowerOfTwo.go from Init.Data.Nat.Power2.Basic

/-- The search stops at the first power of two that is enough. -/
theorem nextPowerOfTwo_go_spec (n : Nat) : ∀ (fuel j : Nat) (h : 2 ^ j > 0), n < 2 ^ j + fuel →
    n ≤ Nat.nextPowerOfTwo.go n (2 ^ j) h ∧
      ∀ k, j ≤ k → n ≤ 2 ^ k → Nat.nextPowerOfTwo.go n (2 ^ j) h ≤ 2 ^ k := by
  intro fuel
  induction fuel with
  | zero =>
      intro j h hlt
      rw [Nat.nextPowerOfTwo.go, if_neg (by omega)]
      exact ⟨by omega, fun k hjk _ => Nat.pow_le_pow_right (by decide) hjk⟩
  | succ fuel ih =>
      intro j h hlt
      rw [Nat.nextPowerOfTwo.go]
      split
      · next hsmall =>
          have hnext : 2 ^ j * 2 = 2 ^ (j + 1) := (Nat.pow_succ ..).symm
          have hpos : 2 ^ (j + 1) > 0 := Nat.two_pow_pos _
          obtain ⟨hle, hleast⟩ := ih (j + 1) hpos (by omega)
          simp only [hnext]
          refine ⟨hle, ?_⟩
          intro k hjk hk
          refine hleast k ?_ hk
          have hne : j ≠ k := by
            rintro rfl
            omega
          omega
      · exact ⟨by omega, fun k hjk _ => Nat.pow_le_pow_right (by decide) hjk⟩

theorem nextPowerOfTwo_spec (n : Nat) :
    n ≤ n.nextPowerOfTwo ∧ ∀ k, n ≤ 2 ^ k → n.nextPowerOfTwo ≤ 2 ^ k := by
  rw [Nat.nextPowerOfTwo]
  obtain ⟨hle, hleast⟩ := nextPowerOfTwo_go_spec n n 0 (by decide) (by omega)
  exact ⟨hle, fun k hk => hleast k (Nat.zero_le k) hk⟩

/-- No power of two lies between a number and the next one. -/
theorem nextPowerOfTwo_eq {n m : Nat} (h : n ≤ m) (hm : m ≤ n.nextPowerOfTwo) :
    m.nextPowerOfTwo = n.nextPowerOfTwo := by
  obtain ⟨j, hj⟩ := Nat.isPowerOfTwo_nextPowerOfTwo n
  obtain ⟨k, hk⟩ := Nat.isPowerOfTwo_nextPowerOfTwo m
  refine Nat.le_antisymm ?_ ?_
  · rw [hj] at hm ⊢
    exact (nextPowerOfTwo_spec m).2 j hm
  · have hle := (nextPowerOfTwo_spec m).1
    rw [hk] at hle ⊢
    exact (nextPowerOfTwo_spec n).2 k (Nat.le_trans h hle)

/-! ## Buffers that grew by need -/

namespace Buffer

/-- The room of a buffer that grew to some number of instructions. -/
def roomFor (n : Nat) : Nat := if n = 0 then 0 else n.nextPowerOfTwo

/-- A buffer that grew by need. -/
def holding (records : Array Instruction) : Buffer := ⟨records, roomFor records.size, false⟩

/-- There is memory for some number of instructions. -/
def Granted (n : Nat) : Prop := addressable (roomFor n * recordSize) = true

instance (n : Nat) : Decidable (Granted n) := inferInstanceAs (Decidable (_ = true))

theorem le_roomFor (n : Nat) : n ≤ roomFor n := by
  rw [roomFor]
  split
  · omega
  · exact (nextPowerOfTwo_spec n).1

theorem roomFor_eq {n m : Nat} (h : n ≤ m) (hm : m ≤ roomFor n) : roomFor m = roomFor n := by
  rw [roomFor] at hm
  split at hm
  · next hzero =>
      obtain rfl : m = n := by omega
      rfl
  · next hzero =>
      rw [roomFor, roomFor, if_neg (by omega), if_neg hzero, nextPowerOfTwo_eq h hm]

theorem roomFor_mono {n m : Nat} (h : n ≤ m) : roomFor n ≤ roomFor m := by
  by_cases hm : m ≤ roomFor n
  · exact Nat.le_of_eq (roomFor_eq h hm).symm
  · exact Nat.le_trans (Nat.le_of_lt (Nat.lt_of_not_le hm)) (le_roomFor m)

theorem granted_zero : Granted 0 := rfl

theorem holding_append (records more : Array Instruction) :
    holding (records ++ more) = ⟨records ++ more, roomFor (records.size + more.size), false⟩ := by
  rw [holding, Array.size_append]

theorem Granted.mono {n m : Nat} (hm : Granted m) (h : n ≤ m) : Granted n := by
  rw [Granted, addressable, decide_eq_true_eq] at hm ⊢
  exact Nat.lt_of_le_of_lt (Nat.mul_le_mul_right _ (roomFor_mono h)) hm

variable {records more : Array Instruction}

theorem ensureCapacity_holding (required : Nat) (hgranted : Granted records.size)
    (h : records.size ≤ required) :
    (holding records).ensureCapacity addressable required
      = if Granted required then .ok ⟨records, roomFor required, false⟩
        else .error (refused (roomFor required)) := by
  rw [ensureCapacity]
  by_cases hroom : required ≤ (holding records).capacity
  · have heq : roomFor required = roomFor records.size := roomFor_eq h hroom
    have hrequired : Granted required := by
      unfold Granted
      rwa [heq]
    rw [if_pos hroom, if_pos hrequired, heq]
    rfl
  · have hpos : roomFor required = required.nextPowerOfTwo := by
      rw [roomFor, if_neg (by omega)]
    have hiff : Granted required ↔ addressable (required.nextPowerOfTwo * recordSize) = true := by
      unfold Granted
      rw [hpos]
    rw [if_neg hroom, hpos]
    by_cases hrequired : Granted required
    · rw [if_pos hrequired]
      exact if_pos (hiff.mp hrequired)
    · rw [if_neg hrequired]
      exact if_neg (mt hiff.mpr hrequired)

/-- Instructions that there is room for are added one after the other. -/
theorem appendAll_of_le : ∀ {code : List Instruction} {records : Array Instruction}
    {capacity : Nat}, records.size + code.length ≤ capacity →
      appendAll addressable ⟨records, capacity, false⟩ code
        = (⟨records ++ code.toArray, capacity, false⟩, .ok ())
  | [], records, capacity, _ => by
      rw [appendAll]
      exact congrArg (fun r => (Buffer.mk r capacity false, _)) Array.append_empty.symm
  | i :: rest, records, capacity, h => by
      have hnext : ensureNext addressable ⟨records, capacity, false⟩
          = .ok ⟨records, capacity, false⟩ := by
        rw [List.length_cons] at h
        have hroom : records.size + 1 ≤ capacity := by omega
        rw [ensureNext, if_neg Bool.false_ne_true, ensureCapacity]
        exact if_pos hroom
      rw [appendAll, hnext]
      show appendAll addressable ⟨records.push i, capacity, false⟩ rest = _
      rw [appendAll_of_le (by rw [Array.size_push]; rw [List.length_cons] at h; omega),
        List.toArray_cons, ← Array.append_assoc, Array.push_eq_append]

theorem appendBuffer_holding (more : Array Instruction) (hgranted : Granted records.size) :
    (holding records).appendBuffer addressable (holding more)
      = if Granted (records.size + more.size) then .ok (holding (records ++ more))
        else .error (refused (roomFor (records.size + more.size))) := by
  have hroomy := ensureCapacity_holding (records.size + more.size) hgranted (Nat.le_add_right _ _)
  have hopen : ¬ (holding records).isSealed = true := Bool.false_ne_true
  rw [appendBuffer, if_neg hopen]
  show ((holding records).ensureCapacity addressable (records.size + more.size) >>= fun b =>
    .ok { b with records := b.records ++ more }) = _
  rw [hroomy, holding_append]
  split
  · rfl
  · rfl

end Buffer

/-! ## Units whose buffer grew by need -/

namespace Instance

open Buffer

variable {i i' c : Instance} {l : Lowering}

/-- The instructions of a unit. -/
def code (i : Instance) : Array Instruction := (i.buffer.getD .empty).records

theorem records_eq (i : Instance) : i.records = i.code.toList := rfl

/-- The buffer of a unit that is still there grew by need, and there was memory for it. -/
structure Roomy (i : Instance) : Prop where
  alive : i.isDestroyed = false
  buffer : ∀ b, i.buffer = some b → b = holding b.records
  granted : Granted i.code.size

/-- A unit with more code in its buffer. -/
def withCode (i : Instance) (code : Array Instruction) : Instance :=
  { i with buffer := some (holding (i.code ++ code)) }

/-- A unit together with a finished one that it takes over. -/
def joined (i c : Instance) : Instance :=
  { i with
    defined := i.defined ++ c.defined
    errors := i.errors + c.errors
    diagnostics := i.diagnostics ++ c.diagnostics
    buffer := match c.buffer with
      | none => i.buffer
      | some b => some (holding (i.code ++ b.records)) }

theorem code_withCode (i : Instance) (code : Array Instruction) :
    (i.withCode code).code = i.code ++ code :=
  rfl

theorem code_joined (i c : Instance) : (i.joined c).code = i.code ++ c.code := by
  rw [joined, code, code, code]
  cases c.buffer with
  | none => exact Array.append_empty.symm
  | some b => rfl

theorem Roomy.openBuffer (h : i.Roomy) : i.openBuffer = .ok (holding i.code) := by
  rw [Instance.openBuffer, if_neg (Bool.eq_false_iff.mp h.alive), code]
  cases hb : i.buffer with
  | none => rfl
  | some b => rw [Option.getD_some, ← h.buffer b hb]

theorem Roomy.withCode (h : i.Roomy) {code : Array Instruction}
    (hgranted : Granted (i.code.size + code.size)) : (i.withCode code).Roomy where
  alive := h.alive
  buffer b hb := by
    obtain rfl := Option.some.inj hb
    rfl
  granted := by
    rw [code_withCode, Array.size_append]
    exact hgranted

theorem Roomy.joined (h : i.Roomy) (hgranted : Granted (i.code.size + c.code.size)) :
    (i.joined c).Roomy where
  alive := h.alive
  buffer b hb := by
    rw [Instance.joined] at hb
    cases hc : c.buffer with
    | none =>
        rw [hc] at hb
        exact h.buffer b hb
    | some more =>
        rw [hc] at hb
        obtain rfl := Option.some.inj hb
        rfl
  granted := by
    rw [code_joined, Array.size_append]
    exact hgranted

/-- Code can be added exactly when there is memory for it. -/
theorem Roomy.appendCode_eq_ok (h : i.Roomy) {body : FunctionBody} :
    i.appendCode addressable l = (i', .ok body) ↔
      Granted (i.code.size + l.code.size) ∧ i' = i.withCode l.code ∧
        body = ⟨i.code.size, l.code.size, l.labels⟩ := by
  have hroomy :=
    ensureCapacity_holding (i.code.size + l.code.size) h.granted (Nat.le_add_right _ _)
  rw [appendCode, h.openBuffer]
  have hlength : (holding i.code).length = i.code.size := rfl
  dsimp only
  rw [hlength, hroomy]
  by_cases hgranted : Granted (i.code.size + l.code.size)
  · rw [if_pos hgranted]
    have hroom : i.code.size + l.code.toList.length ≤ roomFor (i.code.size + l.code.size) :=
      le_roomFor (i.code.size + l.code.size)
    have hall := appendAll_of_le hroom
    rw [Array.toArray_toList] at hall
    simp only [hall, hgranted, true_and, Prod.mk.injEq, Except.map, Except.ok.injEq]
    rw [Instance.withCode, holding_append]
    exact and_congr eq_comm eq_comm
  · rw [if_neg hgranted]
    simp [hgranted]

theorem absorb_of_granted (h : i.Roomy) (hc : c.Roomy)
    (hgranted : Granted (i.code.size + c.code.size)) :
    ∃ c', i.absorb addressable c = (i.joined c, c', .ok i.code.size) := by
  have hlength : i.codeLength = i.code.size := by rw [← length_records, records_eq, Array.length_toList]
  rw [absorb, joined, hlength]
  cases hbuffer : c.buffer with
  | none => exact ⟨_, rfl⟩
  | some more =>
      have hmore : c.code = more.records := by rw [code, hbuffer, Option.getD_some]
      have happend := appendBuffer_holding more.records h.granted
      rw [← hmore, if_pos hgranted, hmore, ← hc.buffer more hbuffer] at happend
      simp only [h.openBuffer, happend]
      exact ⟨_, rfl⟩

theorem granted_of_absorb (h : i.Roomy) (hc : c.Roomy) {offset : Nat} {c' : Instance}
    (habsorb : i.absorb addressable c = (i', c', .ok offset)) :
    Granted (i.code.size + c.code.size) := by
  rw [absorb] at habsorb
  cases hbuffer : c.buffer with
  | none =>
      have hcode : c.code = #[] := by rw [code, hbuffer]; rfl
      rw [hcode]
      exact h.granted
  | some more =>
      have hmore : c.code = more.records := by rw [code, hbuffer, Option.getD_some]
      have happend := appendBuffer_holding more.records h.granted
      rw [← hmore, hmore, ← hc.buffer more hbuffer] at happend
      by_contra hrefused
      rw [hmore] at hrefused
      rw [if_neg hrefused] at happend
      simp only [hbuffer, h.openBuffer, happend] at habsorb
      cases (Prod.mk.inj (Prod.mk.inj habsorb).2).2

/-- A finished unit can be taken over exactly when there is memory for its code. -/
theorem Roomy.absorb_eq_ok (h : i.Roomy) (hc : c.Roomy) {offset : Nat} :
    (∃ c', i.absorb addressable c = (i', c', .ok offset)) ↔
      Granted (i.code.size + c.code.size) ∧ i' = i.joined c ∧ offset = i.code.size := by
  constructor
  · rintro ⟨c', habsorb⟩
    have hgranted := granted_of_absorb h hc habsorb
    obtain ⟨c'', hjoined⟩ := absorb_of_granted h hc hgranted
    rw [hjoined] at habsorb
    obtain ⟨rfl, htail⟩ := Prod.mk.inj habsorb
    exact ⟨hgranted, rfl, (Except.ok.inj (Prod.mk.inj htail).2).symm⟩
  · rintro ⟨hgranted, rfl, rfl⟩
    exact absorb_of_granted h hc hgranted

/-! ## Units at their beginning -/

/-- A unit can be begun exactly when there is memory for its source. -/
theorem begin?_eq_ok {name : String} {source : Bytes} {debug owns : Bool} :
    (∃ c, begin? addressable name source debug owns = .ok c) ↔ addressable source.length = true := by
  rw [begin?_eq]
  cases addressable source.length with
  | false => simp
  | true => simp

variable {granted : Memory} {name : String} {source : Bytes} {debug owns : Bool}

theorem blank_of_begin? (h : begin? granted name source debug owns = .ok c) :
    c.isDestroyed = false ∧ c.buffer = none ∧ c.defined = [] ∧ c.errors = 0 ∧ c.diagnostics = [] := by
  obtain ⟨-, rfl⟩ := eq_blank_of_begin? h
  exact ⟨rfl, rfl, rfl, rfl, rfl⟩

theorem named_of_begin? (h : begin? granted name source debug owns = .ok c) :
    c.name = name ∧ c.source.bytes? = some source ∧ c.isInclude = false := by
  obtain ⟨-, rfl⟩ := eq_blank_of_begin? h
  cases debug with
  | false | true => exact ⟨rfl, rfl, rfl⟩

/-- The output window of a unit is as large as its source to begin with. -/
theorem output_of_begin? (h : begin? granted name source debug owns = .ok c) :
    c.output = some ⟨[], source.length⟩ ∧ granted source.length = true ∧ c.tables = none := by
  obtain ⟨hgranted, rfl⟩ := eq_blank_of_begin? h
  exact ⟨rfl, hgranted, rfl⟩

theorem roomy_of_begin? (h : begin? granted name source debug owns = .ok c) : c.Roomy := by
  obtain ⟨halive, hbuffer, -⟩ := blank_of_begin? h
  refine ⟨halive, ?_, ?_⟩
  · rw [hbuffer]
    nofun
  · rw [code, hbuffer]
    exact granted_zero

/-- A unit that was only begun adds nothing to the one around it. -/
theorem joined_of_begin? (h : begin? granted name source debug owns = .ok c) (i : Instance) :
    i.joined c = i := by
  obtain ⟨-, hbuffer, hdefined, herrors, hdiagnostics⟩ := blank_of_begin? h
  rw [joined, hbuffer, hdefined, herrors, hdiagnostics, List.append_nil, List.append_nil]
  rfl

theorem Roomy.applyFlags (h : i.Roomy) (flags : UInt8) : (i.applyFlags flags).Roomy :=
  ⟨h.alive, h.buffer, h.granted⟩

theorem roomy_of_create {path : Option String} {registry registry' : Registry}
    (h : create granted name source path debug owns registry = .ok (i, registry')) : i.Roomy := by
  simp only [create] at h
  cases hbegin : begin? granted name source debug owns with
  | error e =>
      rw [hbegin] at h
      cases h
  | ok j =>
      have hj := roomy_of_begin? hbegin
      rw [hbegin] at h
      cases path with
      | none =>
          obtain ⟨rfl, -⟩ := Prod.mk.inj (Except.ok.inj h)
          exact hj
      | some path =>
          obtain ⟨rfl, -⟩ := Prod.mk.inj (Except.ok.inj h)
          exact ⟨hj.alive, hj.buffer, hj.granted⟩

end Instance

end Nss
