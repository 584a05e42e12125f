/-
# The instructions of a unit

What the operations on an instance do to the instructions in its buffer, when they succeed.
-/
import Nss.Unit.Instance
import Mathlib.Tactic.Common

namespace Nss

namespace Buffer

variable {granted : Memory} {b b' other : Buffer}

theorem records_of_ensureCapacity {required : Nat}
    (h : b.ensureCapacity granted required = .ok b') : b'.records = b.records := by
  simp only [ensureCapacity] at h
  split at h
  · obtain rfl := Except.ok.inj h
    rfl
  · split at h
    · obtain rfl := Except.ok.inj h
      rfl
    · cases h

theorem records_of_ensureNext (h : b.ensureNext granted = .ok b') : b'.records = b.records := by
  rw [ensureNext] at h
  split at h
  · cases h
  · exact records_of_ensureCapacity h

theorem records_of_appendAll : ∀ {code : List Instruction} {b b' : Buffer},
    b.appendAll granted code = (b', .ok ()) → b'.records.toList = b.records.toList ++ code
  | [], b, b', h => by
      obtain ⟨rfl, -⟩ := Prod.mk.inj h
      exact (List.append_nil _).symm
  | i :: rest, b, b', h => by
      rw [appendAll] at h
      split at h
      · next roomy hroomy =>
          rw [records_of_appendAll h, push, Array.toList_push, records_of_ensureNext hroomy,
            List.append_assoc]
          rfl
      · cases (Prod.mk.inj h).2

theorem records_of_appendBuffer (h : b.appendBuffer granted other = .ok b') :
    b'.records = b.records ++ other.records := by
  rw [appendBuffer] at h
  split at h
  · cases h
  · cases hroomy : b.ensureCapacity granted (b.length + other.length) with
    | error e =>
        rw [hroomy] at h
        cases h
    | ok roomy =>
        rw [hroomy] at h
        obtain rfl := Except.ok.inj h
        rw [records_of_ensureCapacity hroomy]

end Buffer

namespace Instance

variable {granted : Memory} {i i' child child' : Instance}

/-- The instructions in the buffer. -/
def records (i : Instance) : List Instruction := (i.buffer.getD .empty).records.toList

theorem length_records (i : Instance) : i.records.length = i.codeLength := by
  rw [records, codeLength]
  cases i.buffer with
  | none => rfl
  | some b => rfl

theorem records_of_openBuffer {b : Buffer} (h : i.openBuffer = .ok b) :
    b.records.toList = i.records := by
  rw [openBuffer] at h
  split at h
  · cases h
  · obtain rfl := Except.ok.inj h
    rfl

/-- Two instances that differ in their buffers only. -/
def SameButBuffer (i i' : Instance) : Prop := i' = { i with buffer := i'.buffer }

/-- The code of a function comes behind the instructions that are there. -/
theorem appendCode_eq_ok {l : Lowering} {body : FunctionBody}
    (h : i.appendCode granted l = (i', .ok body)) :
    i.SameButBuffer i' ∧ i'.records = i.records ++ l.code.toList ∧
      body = ⟨i.records.length, l.code.size, l.labels⟩ := by
  rw [appendCode] at h
  cases hopen : i.openBuffer with
  | error e =>
      rw [hopen] at h
      cases (Prod.mk.inj h).2
  | ok b =>
      rw [hopen] at h
      have hrecords := records_of_openBuffer hopen
      cases hroomy : b.ensureCapacity granted (b.length + l.code.size) with
      | error e =>
          simp only [hroomy] at h
          cases (Prod.mk.inj h).2
      | ok roomy =>
          simp only [hroomy] at h
          rcases hall : roomy.appendAll granted l.code.toList with ⟨filled, outcome⟩
          rw [hall] at h
          obtain ⟨hi', hbody⟩ := Prod.mk.inj h
          cases outcome with
          | error e => cases hbody
          | ok u =>
              obtain rfl := Except.ok.inj hbody
              subst hi'
              refine ⟨rfl, ?_, ?_⟩
              · rw [← hrecords, ← Buffer.records_of_ensureCapacity hroomy]
                exact Buffer.records_of_appendAll hall
              · rw [← hrecords, Array.length_toList]
                rfl

/-- A finished instance is taken over with its code behind the instructions that are there. -/
theorem absorb_eq_ok {offset : Nat} (h : i.absorb granted child = (i', child', .ok offset)) :
    offset = i.records.length ∧ i'.records = i.records ++ child.records ∧
      i'.defined = i.defined ++ child.defined ∧ i'.errors = i.errors + child.errors ∧
      i'.output = i.output := by
  rw [length_records]
  simp only [absorb] at h
  cases hchild : child.buffer with
  | none =>
      simp only [hchild, Prod.mk.injEq, Except.ok.injEq] at h
      obtain ⟨rfl, -, rfl⟩ := h
      have hnone : child.records = [] := by rw [records, hchild]; rfl
      rw [hnone, List.append_nil]
      exact ⟨rfl, rfl, rfl, rfl, rfl⟩
  | some more =>
      simp only [hchild] at h
      cases hopen : i.openBuffer with
      | error e =>
          simp only [hopen] at h
          cases (Prod.mk.inj (Prod.mk.inj h).2).2
      | ok b =>
          simp only [hopen] at h
          cases happend : b.appendBuffer granted more with
          | error e =>
              simp only [happend] at h
              cases (Prod.mk.inj (Prod.mk.inj h).2).2
          | ok b' =>
              simp only [happend, Prod.mk.injEq, Except.ok.injEq] at h
              obtain ⟨rfl, -, rfl⟩ := h
              have hmore : child.records = more.records.toList := by rw [records, hchild]; rfl
              refine ⟨rfl, ?_, rfl, rfl, rfl⟩
              rw [hmore, ← records_of_openBuffer hopen, ← Array.toList_append,
                ← Buffer.records_of_appendBuffer happend]
              rfl

/-! ## Instances at their beginning -/

/-- Nothing was emitted into an instance, and nothing was written into its output window. -/
structure Fresh (i : Instance) : Prop where
  records : i.records = []
  defined : i.defined = []
  errors : i.errors = 0
  output : ∃ capacity, i.output = some ⟨[], capacity⟩

/-- An instance at its beginning. -/
def blank (name : String) (source : Bytes) (debug owns : Bool) : Instance where
  name
  source := if debug then .owned source else .borrowed source
  output := some ⟨[], source.length⟩
  debug
  errors := 0
  diagnostics := []
  settings := ⟨false, 0⟩
  ownsRegistry := owns
  registration := none
  buffer := none
  defined := []
  isInclude := false
  tables := none
  isDestroyed := false

/-- An instance is begun exactly when there is memory for its source. -/
theorem begin?_eq (granted : Memory) (name : String) (source : Bytes) (debug owns : Bool) :
    begin? granted name source debug owns
      = if granted source.length then .ok (blank name source debug owns)
        else .error (Window.tooSmall source.length) := by
  rw [begin?, Window.ofCapacity]
  cases granted source.length with
  | false => rfl
  | true =>
      cases debug with
      | false | true => rfl

theorem eq_blank_of_begin? {name : String} {source : Bytes} {debug owns : Bool}
    (h : begin? granted name source debug owns = .ok i) :
    granted source.length = true ∧ i = blank name source debug owns := by
  rw [begin?_eq] at h
  split at h
  · next hgranted => exact ⟨hgranted, (Except.ok.inj h).symm⟩
  · cases h

theorem fresh_of_begin? {name : String} {source : Bytes} {debug owns : Bool}
    (h : begin? granted name source debug owns = .ok i) : i.Fresh := by
  obtain ⟨-, rfl⟩ := eq_blank_of_begin? h
  exact ⟨rfl, rfl, rfl, _, rfl⟩

/-- An instance that comes into being is at its beginning. -/
theorem fresh_of_create {name : String} {source : Bytes} {path : Option String}
    {debug owns : Bool} {registry registry' : Registry}
    (h : create granted name source path debug owns registry = .ok (i, registry')) : i.Fresh := by
  simp only [create] at h
  cases hbegin : begin? granted name source debug owns with
  | error e =>
      rw [hbegin] at h
      cases h
  | ok j =>
      have hj := fresh_of_begin? hbegin
      rw [hbegin] at h
      cases path with
      | none =>
          obtain ⟨rfl, -⟩ := Prod.mk.inj (Except.ok.inj h)
          exact hj
      | some path =>
          obtain ⟨rfl, -⟩ := Prod.mk.inj (Except.ok.inj h)
          exact ⟨hj.records, hj.defined, hj.errors, hj.output⟩

theorem Fresh.applyFlags (h : i.Fresh) (flags : UInt8) : (i.applyFlags flags).Fresh :=
  ⟨h.records, h.defined, h.errors, h.output⟩

/-- An instance is finalized once, and nothing of it is changed but its tables. -/
theorem finalize_eq_ok {flags : UInt8} : i.finalize flags = .ok i' ↔
    i.isDestroyed = false ∧ i.tables = none ∧ i' = { i with tables := some (.ofFlags flags) } := by
  rw [Instance.finalize]
  cases i.isDestroyed with
  | true => simp
  | false =>
      cases i.tables with
      | some tables => simp
      | none => simp [eq_comm]

/-- An instance may be finalized before anything is emitted into it. -/
theorem Fresh.finalize (h : i.Fresh) {flags : UInt8} (hfinal : i.finalize flags = .ok i') :
    i'.Fresh := by
  obtain ⟨-, -, rfl⟩ := finalize_eq_ok.mp hfinal
  exact ⟨h.records, h.defined, h.errors, h.output⟩

end Instance

end Nss
