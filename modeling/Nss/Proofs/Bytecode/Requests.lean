/-
# Buffers over time

A buffer is asked for one thing after the other: to take an instruction, to take those of another
buffer, to have room, to be closed.  Whenever it has to grow, memory for it may be refused.

In place, a buffer grows by doubling.  Its size is doubled until it is enough, a new store of that
size is asked for, and the instructions are moved into it; what goes wrong on the way ends the
request.  `Request.perform` does this step by step.  It leaves what the functions of a buffer give, and
after an error the buffer as it was (`perform_eq`), because a size that is doubled from a power of two
comes to the least power of two that is enough (`doubled?_eq`).

`Trial.stepped` collects what one request does to a buffer, and `run_stepped` says from it what a
whole history does.
-/
import Nss.Proofs.Unit.Room
import Nss.Proofs.Steps
import Mathlib.Order.Bounds.Basic

namespace Nss

open Steps

/-- Memory that refuses what no address could reach, and whatever else is refused. -/
def Memory.within (granted : Memory) : Memory := fun n => addressable n && granted n

namespace Buffer

/-! ## Growing by doubling -/

/-- The size that doubling comes to, from `size` on, once there is room for `required`; none if it
passes the greatest size that can be named. -/
def doubled? (required size : Nat) : Option Nat :=
  if required ≤ size then some size
  else if 0 < size ∧ 2 * size ≤ maxSize then doubled? required (2 * size)
  else none
termination_by required - size

/-- Doubling a power of two comes to the least power of two that is enough. -/
theorem doubled?_eq {required j : Nat} (hj : 2 ^ j ≤ required.nextPowerOfTwo)
    (hnamed : 2 ^ j ≤ maxSize) :
    doubled? required (2 ^ j)
      = if required.nextPowerOfTwo ≤ maxSize then some required.nextPowerOfTwo else none := by
  obtain ⟨hle, hleast⟩ := nextPowerOfTwo_spec required
  rw [doubled?]
  by_cases henough : required ≤ 2 ^ j
  · have heq : required.nextPowerOfTwo = 2 ^ j := Nat.le_antisymm (hleast j henough) hj
    rw [if_pos henough, heq, if_pos hnamed]
  · -- the least power is a greater one, so it is at least twice as great
    have hnext : 2 ^ (j + 1) ≤ required.nextPowerOfTwo := by
      obtain ⟨m, hm⟩ := Nat.isPowerOfTwo_nextPowerOfTwo required
      rw [hm] at hle ⊢
      have hlt : j < m := (Nat.pow_lt_pow_iff_right Nat.one_lt_two).mp (by omega)
      exact Nat.pow_le_pow_right (by decide) hlt
    have hpos : 0 < 2 ^ j := Nat.two_pow_pos j
    have htwice : 2 * 2 ^ j = 2 ^ (j + 1) := (Nat.pow_succ' ..).symm
    rw [if_neg henough, htwice]
    by_cases hfits : 2 ^ (j + 1) ≤ maxSize
    · rw [if_pos ⟨hpos, hfits⟩]
      exact doubled?_eq hnext hfits
    · have hover : ¬ required.nextPowerOfTwo ≤ maxSize := by omega
      rw [if_neg (by simp [hfits]), if_neg hover]
termination_by required - 2 ^ j

/-- A buffer with room for no or for a power of two of instructions, and for those that it has. -/
structure Regular (b : Buffer) : Prop where
  power : b.capacity = 0 ∨ ∃ k, b.capacity = 2 ^ k
  fits : b.length ≤ b.capacity
  named : b.capacity ≤ maxSize

theorem regular_empty : empty.Regular := ⟨.inl rfl, Nat.le_refl 0, Nat.zero_le _⟩

/-- A buffer that has to grow is doubled to the least power of two that is enough. -/
theorem Regular.doubled? {b : Buffer} (hb : b.Regular) {required : Nat}
    (h : ¬ required ≤ b.capacity) :
    doubled? required (max b.capacity 1)
      = if required.nextPowerOfTwo ≤ maxSize then some required.nextPowerOfTwo else none := by
  have hle := (nextPowerOfTwo_spec required).1
  have hstart : ∃ j, max b.capacity 1 = 2 ^ j := by
    rcases hb.power with hzero | ⟨k, hk⟩
    · exact ⟨0, by rw [hzero]; rfl⟩
    · have hpos : 0 < 2 ^ k := Nat.two_pow_pos k
      exact ⟨k, by omega⟩
  obtain ⟨j, hj⟩ := hstart
  have hnamed : max b.capacity 1 ≤ maxSize := Nat.max_le.mpr ⟨hb.named, by decide⟩
  rw [hj] at hnamed ⊢
  exact doubled?_eq (by omega) hnamed

/-- The room that a buffer has once `required` instructions fit. -/
def roomAfter (b : Buffer) (required : Nat) : Nat :=
  if required ≤ b.capacity then b.capacity else required.nextPowerOfTwo

/-- Why a buffer cannot have room for `required` instructions, if so. -/
def shortage? (granted : Memory) (b : Buffer) (required : Nat) : Option Error :=
  if required ≤ b.capacity ∨ granted (required.nextPowerOfTwo * recordSize) = true then none
  else some (refused required.nextPowerOfTwo)

theorem ensureCapacity_eq (granted : Memory) (b : Buffer) (required : Nat) :
    b.ensureCapacity granted required = match b.shortage? granted required with
      | none => .ok { b with capacity := b.roomAfter required }
      | some e => .error e := by
  rw [ensureCapacity, shortage?, roomAfter]
  by_cases hroom : required ≤ b.capacity
  · simp only [hroom, if_true, true_or]
  · by_cases hgranted : granted (required.nextPowerOfTwo * recordSize) = true
    · simp only [hroom, hgranted, if_true, if_false, or_true]
    · simp only [hroom, hgranted, if_false, or_self, Bool.false_eq_true]

/-! ## Growing in place -/

/-- Makes room for `required` instructions in all: asks for a store of the doubled size, and moves
the instructions into it. -/
def reserve (granted : Memory) (required : Nat) : EStateM Error Buffer Unit := do
  let b ← get
  if required ≤ b.capacity then return ()
  else
    match doubled? required (max b.capacity 1) with
    | none => throw (.outOfMemory "instruction buffer" maxSize)
    | some capacity =>
      if granted (capacity * recordSize) then
        let moved := b.records
        modify fun b => { b with records := #[] }
        modify fun b => { b with records := b.records ++ moved }
        modify fun b => { b with capacity }
      else throw (refused capacity)

/-- What a step in place leaves that gives a buffer, or is refused and leaves the one before. -/
def inPlace (b : Buffer) : Except Error Buffer → EStateM.Result Error Buffer Unit
  | .ok b' => .ok () b'
  | .error e => .error e b

theorem not_within_of_lt {granted : Memory} {n : Nat} (h : maxSize < n) :
    granted.within n = false := by
  have hbig : addressable n = false := by
    rw [addressable, decide_eq_false_iff_not]
    have : maxSize = 18446744073709551615 := rfl
    omega
  rw [Memory.within, hbig, Bool.false_and]

theorem reserve_eq {b : Buffer} (hb : b.Regular) (granted : Memory) (required : Nat) :
    reserve granted.within required b = inPlace b (b.ensureCapacity granted.within required) := by
  rw [reserve, bind_apply, get_apply, ensureCapacity]
  by_cases hroom : required ≤ b.capacity
  · simp only [hroom, if_true]
    rfl
  · simp only [hroom, if_false, hb.doubled? hroom]
    by_cases hnamed : required.nextPowerOfTwo ≤ maxSize
    · simp only [hnamed, if_true]
      by_cases hgranted : granted.within (required.nextPowerOfTwo * recordSize) = true
      · simp only [hgranted, if_true]
        show EStateM.Result.ok () { b with
          records := #[] ++ b.records, capacity := required.nextPowerOfTwo } = _
        rw [Array.empty_append]
        rfl
      · simp only [hgranted]
        rfl
    · -- doubling went past the greatest size, and so many bytes are not granted either
      have hbytes : maxSize < required.nextPowerOfTwo * recordSize :=
        Nat.lt_of_lt_of_le (Nat.lt_of_not_le hnamed) (Nat.le_mul_of_pos_right _ (by decide))
      have hmin : min (required.nextPowerOfTwo * recordSize) maxSize = maxSize := by omega
      simp only [hnamed, if_false, not_within_of_lt hbytes]
      rw [refused, hmin]
      rfl

/-! ## Requests -/

/-- What a buffer can be asked for. -/
inductive Request where
  | append (i : Instruction)
  | appendBuffer (other : Buffer)
  | ensureCapacity (required : Nat)
  | close

namespace Request

/-- Does what is asked for, in place. -/
def perform (granted : Memory) : Request → EStateM Error Buffer Unit
  | append i => do
    let b ← get
    if b.isSealed then throw .bufferSealed
    else
      reserve granted (b.length + 1)
      modify fun b => b.push i
  | appendBuffer other => do
    let b ← get
    if b.isSealed then throw .bufferSealed
    else
      reserve granted (b.length + other.length)
      modify fun b => { b with records := b.records ++ other.records }
  | ensureCapacity required => reserve granted required
  | close => modify Buffer.close

/-- The buffer that a request gives. -/
def outcome (granted : Memory) (b : Buffer) : Request → Except Error Buffer
  | append i => b.append granted i
  | appendBuffer other => b.appendBuffer granted other
  | ensureCapacity required => b.ensureCapacity granted required
  | close => .ok b.close

/-- The number of instructions that a buffer must have room for. -/
def wanted (b : Buffer) : Request → Nat
  | append _ => b.length + 1
  | appendBuffer other => b.length + other.length
  | ensureCapacity required => required
  | close => 0

/-- The instructions that a request adds. -/
def added : Request → List Instruction
  | append i => [i]
  | appendBuffer other => other.records.toList
  | ensureCapacity _ | close => []

/-- Whether a request is for more instructions, so that a sealed buffer refuses it. -/
def adds : Request → Bool
  | append _ | appendBuffer _ => true
  | ensureCapacity _ | close => false

/-- Whether a buffer is sealed once it has done what was asked for. -/
def seals (b : Buffer) : Request → Bool
  | close => true
  | _ => b.isSealed

/-- A buffer that has done what was asked for. -/
def granting (b : Buffer) (r : Request) : Buffer where
  records := b.records ++ r.added.toArray
  capacity := b.roomAfter (r.wanted b)
  isSealed := r.seals b

/-- Why a request is refused, if it is: the buffer is sealed, or it would have to grow and cannot. -/
def refusal? (granted : Memory) (b : Buffer) (r : Request) : Option Error :=
  if r.adds = true ∧ b.isSealed = true then some .bufferSealed
  else b.shortage? granted (r.wanted b)

/-- A request is granted or refused, and nothing else happens. -/
theorem outcome_eq (granted : Memory) (b : Buffer) (r : Request) :
    r.outcome granted b = match r.refusal? granted b with
      | none => .ok (r.granting b)
      | some e => .error e := by
  cases r with
  | append i =>
      rw [outcome, Buffer.append, ensureNext, refusal?, ensureCapacity_eq, wanted]
      by_cases hsealed : b.isSealed = true
      · rw [if_pos hsealed, if_pos ⟨rfl, hsealed⟩]
        rfl
      · rw [if_neg hsealed, if_neg fun h => hsealed h.2]
        cases b.shortage? granted (b.length + 1) with
        | none =>
            show Except.ok (push { b with capacity := b.roomAfter (b.length + 1) } i) = _
            rw [push, Array.push_eq_append]
            rfl
        | some e => rfl
  | appendBuffer other =>
      rw [outcome, Buffer.appendBuffer, refusal?, ensureCapacity_eq, wanted]
      by_cases hsealed : b.isSealed = true
      · rw [if_pos hsealed, if_pos ⟨rfl, hsealed⟩]
      · rw [if_neg hsealed, if_neg fun h => hsealed h.2]
        cases b.shortage? granted (b.length + other.length) with
        | none =>
            show Except.ok { b with
              records := b.records ++ other.records
              capacity := b.roomAfter (b.length + other.length) } = _
            rw [granting, added, Array.toArray_toList]
            rfl
        | some e => rfl
  | ensureCapacity required =>
      rw [outcome, ensureCapacity_eq, refusal?, if_neg fun h => Bool.false_ne_true h.1, wanted]
      cases b.shortage? granted required with
      | none =>
          show Except.ok { b with capacity := b.roomAfter required } = _
          rw [granting, added, Array.append_empty]
          rfl
      | some e => rfl
  | close =>
      rw [outcome, refusal?, if_neg fun h => Bool.false_ne_true h.1, granting, wanted, shortage?,
        roomAfter, if_pos (.inl (Nat.zero_le _)), if_pos (Nat.zero_le _), added,
        Array.append_empty]
      rfl

/-- In place, a request does what it gives, and after an error the buffer is the one before. -/
theorem perform_eq {b : Buffer} (hb : b.Regular) (granted : Memory) (r : Request) :
    r.perform granted.within b = inPlace b (r.outcome granted.within b) := by
  cases r with
  | append i =>
      rw [perform, bind_apply, get_apply, outcome, Buffer.append, ensureNext]
      by_cases hsealed : b.isSealed = true
      · simp only [hsealed, if_true]
        rfl
      · simp only [hsealed, if_false, Bool.false_eq_true]
        rw [bind_apply, reserve_eq hb]
        cases b.ensureCapacity granted.within (b.length + 1) with
        | ok b' => rfl
        | error e => rfl
  | appendBuffer other =>
      rw [perform, bind_apply, get_apply, outcome, Buffer.appendBuffer]
      by_cases hsealed : b.isSealed = true
      · simp only [hsealed, if_true]
        rfl
      · simp only [hsealed, if_false, Bool.false_eq_true]
        rw [bind_apply, reserve_eq hb]
        cases b.ensureCapacity granted.within (b.length + other.length) with
        | ok b' => rfl
        | error e => rfl
  | ensureCapacity required => exact reserve_eq hb granted required
  | close => rfl

theorem length_granting (b : Buffer) (r : Request) :
    (r.granting b).length = b.length + r.added.length := by
  rw [granting, length, Array.size_append, List.size_toArray]
  rfl

end Request

theorem le_roomAfter (b : Buffer) (required : Nat) :
    required ≤ b.roomAfter required ∧ b.capacity ≤ b.roomAfter required := by
  have hle := (nextPowerOfTwo_spec required).1
  rw [roomAfter]
  split
  · next hroom => exact ⟨hroom, Nat.le_refl _⟩
  · next hroom => exact ⟨hle, by omega⟩

/-- The sizes that are powers of two and enough for `required` instructions. -/
def Enough (required : Nat) : Set Nat := {c | (∃ k, c = 2 ^ k) ∧ required ≤ c}

theorem isLeast_nextPowerOfTwo (required : Nat) :
    IsLeast (Enough required) required.nextPowerOfTwo := by
  obtain ⟨hle, hleast⟩ := nextPowerOfTwo_spec required
  refine ⟨⟨Nat.isPowerOfTwo_nextPowerOfTwo required, hle⟩, ?_⟩
  rintro c ⟨⟨k, rfl⟩, hk⟩
  exact hleast k hk

/-- A buffer cannot have room if it would have to grow, and there is no memory for the least power of
two that is enough. -/
theorem shortage?_eq_some {granted : Memory} {b : Buffer} {required : Nat} {e : Error} :
    b.shortage? granted required = some e ↔ b.capacity < required ∧
      ∃ c, IsLeast (Enough required) c ∧ granted (c * recordSize) = false ∧ e = refused c := by
  rw [shortage?]
  by_cases hroom : required ≤ b.capacity
  · simp [hroom]
  · have hlt := Nat.lt_of_not_le hroom
    have hleast := isLeast_nextPowerOfTwo required
    constructor
    · intro h
      split at h
      · cases h
      · next hshort =>
          have hrefused := Bool.eq_false_iff.mpr (not_or.mp hshort).2
          exact ⟨hlt, _, hleast, hrefused, (Option.some.inj h).symm⟩
    · rintro ⟨-, c, hc, hrefused, rfl⟩
      obtain rfl := hc.unique hleast
      simp [hroom, hrefused]

/-- What a request wants is enough for what is there with what it adds, or nothing is added. -/
theorem Regular.length_le {b : Buffer} (hb : b.Regular) (r : Request) :
    b.length + r.added.length ≤ b.roomAfter (r.wanted b) := by
  obtain ⟨hwanted, hcapacity⟩ := b.le_roomAfter (r.wanted b)
  cases r with
  | append i => exact hwanted
  | appendBuffer other => exact hwanted
  | ensureCapacity required => exact Nat.le_trans hb.fits hcapacity
  | close => exact Nat.le_trans hb.fits hcapacity

/-- A buffer that grew has a size that can be named: more bytes would not have been granted. -/
theorem Regular.roomAfter_le {b : Buffer} (hb : b.Regular) {granted : Memory} {required : Nat}
    (h : b.shortage? granted.within required = none) : b.roomAfter required ≤ maxSize := by
  rw [roomAfter]
  split
  · exact hb.named
  · next hroom =>
      rw [shortage?] at h
      refine Nat.le_of_not_lt fun hlarge => ?_
      have hbytes : maxSize < required.nextPowerOfTwo * recordSize :=
        Nat.lt_of_lt_of_le hlarge (Nat.le_mul_of_pos_right _ (by decide))
      rw [not_within_of_lt hbytes] at h
      simp [hroom] at h

theorem Regular.power_roomAfter {b : Buffer} (hb : b.Regular) (required : Nat) :
    b.roomAfter required = 0 ∨ ∃ k, b.roomAfter required = 2 ^ k := by
  rw [roomAfter]
  split
  · exact hb.power
  · exact .inr (Nat.isPowerOfTwo_nextPowerOfTwo required)

/-! ## Histories -/

/-- A request, and what memory there is when it is made. -/
structure Trial where
  granted : Memory
  request : Request

namespace Trial

/-- What comes of a request. -/
def result (t : Trial) (b : Buffer) : EStateM.Result Error Buffer Unit :=
  t.request.perform t.granted.within b

/-- The buffer after a request, whether it was granted or not. -/
def next (t : Trial) (b : Buffer) : Buffer :=
  match t.result b with
  | .ok _ b' | .error _ b' => b'

/-- The instructions that a request has added. -/
def gained (t : Trial) (b : Buffer) : List Instruction :=
  match t.result b with
  | .ok _ _ => t.request.added
  | .error _ _ => []

/-- A request that is granted leaves the buffer that it asks for, one that is refused leaves the
buffer as it was. -/
theorem result_eq (t : Trial) {b : Buffer} (hb : b.Regular) :
    t.result b = match t.request.refusal? t.granted.within b with
      | none => .ok () (t.request.granting b)
      | some e => .error e b := by
  rw [result, Request.perform_eq hb, Request.outcome_eq]
  cases t.request.refusal? t.granted.within b with
  | none => rfl
  | some e => rfl

/-- What one request does to a buffer. -/
structure Stepped (b b' : Buffer) (gained : List Instruction) : Prop where
  regular : b'.Regular
  records : b'.records.toList = b.records.toList ++ gained
  capacity : b.capacity ≤ b'.capacity
  sealed : b.isSealed = true → b'.isSealed = true ∧ gained = []

theorem stepped (t : Trial) {b : Buffer} (hb : b.Regular) :
    Stepped b (t.next b) (t.gained b) := by
  rw [next, gained, t.result_eq hb]
  cases hrefusal : t.request.refusal? t.granted.within b with
  | some e => exact ⟨hb, (List.append_nil _).symm, Nat.le_refl _, fun h => ⟨h, rfl⟩⟩
  | none =>
      rw [Request.refusal?] at hrefusal
      split at hrefusal
      · cases hrefusal
      · next hopen =>
          refine ⟨⟨hb.power_roomAfter _, ?_, hb.roomAfter_le hrefusal⟩, ?_,
            (b.le_roomAfter _).2, ?_⟩
          · rw [Request.length_granting]
            exact hb.length_le t.request
          · rw [Request.granting, Array.toList_append]
          · intro hsealed
            have hadds : t.request.adds ≠ true := fun h => hopen ⟨h, hsealed⟩
            revert hadds
            cases t.request with
            | append i => exact fun h => absurd rfl h
            | appendBuffer other => exact fun h => absurd rfl h
            | ensureCapacity required => exact fun _ => ⟨hsealed, rfl⟩
            | close => exact fun _ => ⟨rfl, rfl⟩

end Trial

/-- The buffer after some requests. -/
def run (b : Buffer) (history : List Trial) : Buffer := history.foldl (fun b t => t.next b) b

/-- The instructions that some requests have added. -/
def gains (b : Buffer) : List Trial → List Instruction
  | [] => []
  | t :: later => t.gained b ++ gains (t.next b) later

theorem run_cons (b : Buffer) (t : Trial) (later : List Trial) :
    b.run (t :: later) = (t.next b).run later := rfl

theorem run_stepped : ∀ (history : List Trial) {b : Buffer}, b.Regular →
    Trial.Stepped b (b.run history) (b.gains history)
  | [], b, hb => ⟨hb, (List.append_nil _).symm, Nat.le_refl _, fun h => ⟨h, rfl⟩⟩
  | t :: later, b, hb => by
      have h₁ := t.stepped hb
      have h₂ := run_stepped later h₁.regular
      rw [run_cons, gains]
      refine ⟨h₂.regular, ?_, Nat.le_trans h₁.capacity h₂.capacity, ?_⟩
      · rw [h₂.records, h₁.records, List.append_assoc]
      · intro hsealed
        obtain ⟨hstill, hnone⟩ := h₁.sealed hsealed
        obtain ⟨hend, hrest⟩ := h₂.sealed hstill
        exact ⟨hend, by rw [hnone, hrest]; rfl⟩

/-- Instructions that are added one after the other are a history of requests: behind one that is
refused, so is every other. -/
theorem fst_appendAll (granted : Memory) : ∀ (code : List Instruction) {b : Buffer}, b.Regular →
    (b.appendAll granted.within code).1 = b.run (code.map fun i => ⟨granted, .append i⟩)
  | [], b, _ => rfl
  | i :: rest, b, hb => by
      have hnext (b : Buffer) (hb : b.Regular) (i : Instruction) :
          (Trial.mk granted (.append i)).next b
            = match b.ensureNext granted.within with
              | .ok b' => b'.push i
              | .error _ => b := by
        rw [Trial.next, Trial.result, Request.perform_eq hb, Request.outcome, append]
        cases b.ensureNext granted.within with
        | ok b' => rfl
        | error e => rfl
      have hstays : ∀ (code : List Instruction) {e : Error}, b.ensureNext granted.within = .error e →
          b.run (code.map fun i => ⟨granted, .append i⟩) = b := by
        intro code e he
        induction code with
        | nil => rfl
        | cons j code ih =>
            rw [List.map_cons, run_cons, hnext b hb j, he]
            exact ih
      rw [List.map_cons, run_cons, hnext b hb i, appendAll]
      cases he : b.ensureNext granted.within with
      | error e => exact (hstays rest he).symm
      | ok b' =>
          refine fst_appendAll granted rest ?_
          have hregular := (Trial.stepped ⟨granted, .append i⟩ hb).regular
          rw [hnext b hb i, he] at hregular
          exact hregular

/-- Whatever an empty buffer is asked for and whatever memory is refused: it holds the instructions
that were added, in order; it has room for none or for a power of two of them, never for fewer than
it holds and never for fewer than before; once it is sealed its instructions stay.  In place, a
request leaves the buffer that it gives.  One that is granted leaves the room there was if that is
enough, and else the least power of two that is enough.  One is refused if it adds to a sealed buffer,
or has to grow one and there is no memory for that size; then the buffer is as it was. -/
theorem run_keeps (past later : List Trial) (t : Trial) :
    let b := empty.run past
    b.records.toList = empty.gains past ∧
    (b.capacity = 0 ∨ ∃ k, b.capacity = 2 ^ k) ∧
    b.length ≤ b.capacity ∧
    b.capacity ≤ (b.run later).capacity ∧
    (b.isSealed = true → (b.run later).isSealed = true ∧ (b.run later).records = b.records) ∧
    t.result b = inPlace b (t.request.outcome t.granted.within b) ∧
    (∀ b', t.result b = .ok () b' →
      (t.request.wanted b ≤ b.capacity → b'.capacity = b.capacity) ∧
      (b.capacity < t.request.wanted b → IsLeast (Enough (t.request.wanted b)) b'.capacity)) ∧
    (∀ e b', t.result b = .error e b' ↔ b' = b ∧
      (t.request.adds = true ∧ b.isSealed = true ∧ e = .bufferSealed ∨
        ¬ (t.request.adds = true ∧ b.isSealed = true) ∧ b.capacity < t.request.wanted b ∧
          ∃ c, IsLeast (Enough (t.request.wanted b)) c ∧
            t.granted.within (c * recordSize) = false ∧ e = refused c)) ∧
    ∀ code, (b.appendAll t.granted.within code).1
      = b.run (code.map fun i => ⟨t.granted, .append i⟩) := by
  intro b
  have hpast : Trial.Stepped empty b (empty.gains past) := run_stepped past regular_empty
  have hb := hpast.regular
  have hlater := run_stepped later hb
  refine ⟨hpast.records, hb.power, hb.fits, hlater.capacity, ?_, Request.perform_eq hb _ _, ?_, ?_,
    fun code => fst_appendAll _ code hb⟩
  · intro hsealed
    obtain ⟨hstill, hnone⟩ := hlater.sealed hsealed
    refine ⟨hstill, Array.toList_inj.mp ?_⟩
    rw [hlater.records, hnone, List.append_nil]
  · intro b' hgranted
    rw [t.result_eq hb] at hgranted
    split at hgranted
    · obtain rfl := (EStateM.Result.ok.inj hgranted).2
      refine ⟨fun hroom => if_pos hroom, fun hshort => ?_⟩
      show IsLeast _ (b.roomAfter _)
      rw [roomAfter, if_neg (Nat.not_le_of_lt hshort)]
      exact isLeast_nextPowerOfTwo _
    · cases hgranted
  · intro e b'
    rw [t.result_eq hb, ← shortage?_eq_some, Request.refusal?]
    by_cases hsealed : t.request.adds = true ∧ b.isSealed = true
    · simp [hsealed, eq_comm, and_comm]
    · simp only [hsealed, if_false, false_and, not_false_eq_true, true_and, false_or, ← and_assoc]
      cases b.shortage? t.granted.within (t.request.wanted b) with
      | none => simp
      | some e' => simp [eq_comm, and_comm]

end Buffer
end Nss
