/-
# Bodies of functions

The body of a function is a window in the instructions of a unit.  It is sound if the window lies
there and every jump in it leads to one of its own instructions.  That is still so when more
instructions come behind those of the unit, and when they are moved behind those of another unit,
as long as the body is moved by the same distance.
-/
import Nss.Proofs.Lowering.Targets
import Nss.Proofs.Unit.Records
import Nss.Proofs.Symbols

namespace Nss

/-! ## Windows -/

namespace FunctionBody

/-- The instructions in the window of a body. -/
def code (b : FunctionBody) (records : List Instruction) : List Instruction :=
  (records.drop b.start).take b.length

/-- A body in some instructions: its window lies there, and its jumps lead to its instructions. -/
structure Sound (b : FunctionBody) (records : List Instruction) : Prop where
  inside : b.start + b.length ≤ records.length
  target : ∀ i ∈ b.code records, ∀ l, i.label? = some l →
    ∃ n, b.labels[l]? = some (some n) ∧ n < b.length

/-- The same body behind other instructions. -/
def moved (b : FunctionBody) (offset : Nat) : FunctionBody := { b with start := b.start + offset }

variable {b : FunctionBody} {records more : List Instruction}

theorem length_code (h : b.start + b.length ≤ records.length) :
    (b.code records).length = b.length := by
  rw [code, List.length_take, List.length_drop]
  omega

theorem code_append (h : b.start + b.length ≤ records.length) (more : List Instruction) :
    b.code (records ++ more) = b.code records := by
  rw [code, code, List.drop_append_of_le_length (by omega), List.take_append_of_le_length]
  rw [List.length_drop]
  omega

theorem code_moved (b : FunctionBody) (before records : List Instruction) :
    (b.moved before.length).code (before ++ records) = b.code records := by
  rw [code, code, moved, Nat.add_comm, List.drop_length_add_append]

theorem mem_of_mem_code {i : Instruction} (h : i ∈ b.code records) : i ∈ records :=
  List.mem_of_mem_drop (List.mem_of_mem_take h)

namespace Sound

theorem append (h : b.Sound records) (more : List Instruction) : b.Sound (records ++ more) where
  inside := by
    rw [List.length_append]
    exact Nat.le_add_right_of_le h.inside
  target := by
    rw [code_append h.inside]
    exact h.target

theorem moved (h : b.Sound records) (before : List Instruction) :
    (b.moved before.length).Sound (before ++ records) where
  inside := by
    have hinside := h.inside
    rw [List.length_append]
    show b.start + before.length + b.length ≤ _
    omega
  target := by
    rw [code_moved]
    exact h.target

/-- The code of a function is a sound body where it is added. -/
theorem ofClosed {symbols : Symbols} {l : Lowering} (h : l.routine.Closed symbols)
    (records : List Instruction) :
    FunctionBody.Sound ⟨records.length, l.code.size, l.labels⟩ (records ++ l.code.toList) where
  inside := by
    rw [List.length_append]
    exact Nat.le_refl _
  target := by
    intro i hi
    rw [code, List.drop_left] at hi
    exact h.target i (List.mem_of_mem_take hi)

end Sound

end FunctionBody

/-! ## Bodies in a table -/

namespace Symbols

variable {s s' : Symbols}

/-- The body of the function with a number, if it has one. -/
def body? (s : Symbols) (id : Nat) : Option FunctionBody := (s.function? id).bind FunctionSymbol.body

theorem body?_attachBody_self {id : Nat} (hid : id < s.functions.length) (b : FunctionBody) :
    (s.attachBody id b).body? id = some b := by
  rw [body?, function?, attachBody, modifyFunction, List.getElem?_modify_eq,
    List.getElem?_eq_getElem hid]
  rfl

theorem body?_modifyFunction_ne {id id' : Nat} (hne : id ≠ id')
    (change : FunctionSymbol → FunctionSymbol) :
    (s.modifyFunction id change).body? id' = s.body? id' := by
  show ((s.functions.modify id change)[id']?).bind _ = _
  rw [List.getElem?_modify_ne _ _ hne]
  rfl

theorem length_modifyFunction (id : Nat) (change : FunctionSymbol → FunctionSymbol) :
    (s.modifyFunction id change).functions.length = s.functions.length :=
  List.length_modify _ _ _

theorem body?_shift_self (id offset : Nat) :
    (s.shift id offset).body? id = (s.body? id).map (·.moved offset) := by
  rw [body?, body?, function?, function?, shift, modifyFunction, List.getElem?_modify_eq]
  cases s.functions[id]? with
  | none => rfl
  | some f => rfl

theorem length_rebase (ids : List Nat) (offset : Nat) :
    (s.rebase ids offset).functions.length = s.functions.length := by
  rw [rebase]
  induction ids generalizing s with
  | nil => rfl
  | cons id ids ih =>
      rw [List.foldl_cons, ih]
      exact length_modifyFunction id _

theorem body?_rebase_of_notMem {ids : List Nat} {id : Nat} (h : id ∉ ids) (offset : Nat) :
    (s.rebase ids offset).body? id = s.body? id := by
  rw [rebase]
  induction ids generalizing s with
  | nil => rfl
  | cons id' ids ih =>
      obtain ⟨hne, hnot⟩ := List.ne_and_not_mem_of_not_mem_cons h
      rw [List.foldl_cons, ih hnot]
      exact body?_modifyFunction_ne (Ne.symm hne) _

/-- Every body that is moved is moved once. -/
theorem body?_rebase_of_mem {ids : List Nat} (hnodup : ids.Nodup) {id : Nat} (h : id ∈ ids)
    (offset : Nat) : (s.rebase ids offset).body? id = (s.body? id).map (·.moved offset) := by
  induction ids generalizing s with
  | nil => cases h
  | cons id' ids ih =>
      obtain ⟨hnot, hnodup⟩ := List.nodup_cons.mp hnodup
      show ((s.shift id' offset).rebase ids offset).body? id = _
      rcases List.mem_cons.mp h with rfl | h
      · rw [body?_rebase_of_notMem hnot, body?_shift_self]
      · have hne : id' ≠ id := by
          rintro rfl
          exact hnot h
        rw [ih hnodup h, shift, body?_modifyFunction_ne hne]

theorem body?_insert (name : String) (result : ValueType) (params : List ValueType)
    (unit : String) (id : Nat) : (s.insert name result params unit).1.body? id = s.body? id := by
  rw [body?, body?, function?, function?, insert, List.getElem?_append]
  split
  · rfl
  · next hlt =>
      rw [List.getElem?_eq_none (Nat.le_of_not_lt hlt)]
      cases h : [({ id := s.functions.length, name, result, params, unit, body := none }
        : FunctionSymbol)][id - s.functions.length]? with
      | none => rfl
      | some f =>
          rw [List.mem_singleton.mp (List.mem_of_getElem? h)]
          rfl

end Symbols

/-! ## Programs that can be put together -/

/-- The instructions of a table: all of them can be read back, only functions of the table are called,
but never the loader, and the bodies are sound. -/
structure Symbols.Backed (s : Symbols) (records : List Instruction) : Prop where
  wellFormed : ∀ i ∈ records, i.WellFormed
  callee : ∀ i ∈ records, ∀ id, i.callee? = some id →
    ∃ f, s.function? id = some f ∧ f.name ≠ globalsLoader
  bodies : ∀ f ∈ s.functions, ∀ b, f.body = some b → b.Sound records

/-- A table and its instructions that a program can be made of.  If there are global variables, their
loader is there. -/
structure Symbols.Linkable (s : Symbols) (records : List Instruction) : Prop
    extends s.Numbered, s.Backed records where
  loader : s.globals ≠ [] → ∃ f b, s.lookup? globalsLoader = some f ∧ f.body = some b

end Nss
