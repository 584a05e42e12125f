/-
# Steps of the stack machine

What each form of instruction that lowering emits does to a stack whose shape is known, one lemma a
form.  Proofs about whole pieces of code chain these and never unfold the machine.
-/
import Nss.Proofs.Machine.Basic
import Nss.Proofs.Pieces

namespace Nss

namespace Machine

variable {Cell : Type} {I : Interpretation Cell} {symbols : Symbols} {R : Routine}
  {stack rest : List Cell} {globals : Globals Cell} {pc : Nat}

theorem Runs.of_execute {s s' : State Cell} {i : Instruction} (hi : R.code[s.pc]? = some i)
    (h : execute I symbols R.labels i s = some s') : Runs I symbols R s s' := by
  refine Relation.ReflTransGen.single ?_
  show step I symbols R s = some s'
  rw [step, hi]
  exact h

theorem Runs.refl (s : State Cell) : Runs I symbols R s s := Relation.ReflTransGen.refl

theorem Runs.trans {s t u : State Cell} (h₁ : Runs I symbols R s t)
    (h₂ : Runs I symbols R t u) : Runs I symbols R s u :=
  Relation.ReflTransGen.trans h₁ h₂

/-- Where a run has come to can be written in another way. -/
theorem Runs.cast {s : State Cell} {pc' : Nat} {stack' : List Cell}
    (h : Runs I symbols R s ⟨pc, stack, globals⟩) (hpc : pc = pc')
    (hstack : stack = stack') : Runs I symbols R s ⟨pc', stack', globals⟩ := by
  rw [← hpc, ← hstack]
  exact h

/-! ## Cells -/

theorem runs_reserve {t : ValueType} (hi : R.code[pc]? = some (.reserve t)) :
    Runs I symbols R ⟨pc, stack, globals⟩
      ⟨pc + 1, I.initial t :: stack, globals⟩ :=
  .of_execute hi rfl

/-- A cell is reserved for a result, or none if there is none. -/
theorem runs_reserveCode {t : ValueType} (hc : SliceAt R.code pc (reserveCode t)) :
    Runs I symbols R ⟨pc, stack, globals⟩
      ⟨pc + (reserveCode t).length, t.cells.map I.initial ++ stack, globals⟩ := by
  by_cases hvoid : t = .void
  · rw [hvoid]
    exact .refl _
  · rw [reserveCode, if_neg (mt ValueType.isVoid_iff.mp hvoid)] at hc ⊢
    rw [ValueType.cells_of_ne_void hvoid]
    exact runs_reserve hc.head

theorem runs_load {temps index : Nat} {x : Cell}
    (hi : R.code[pc]? = some (.loadCell (Spot.fromTop temps index)))
    (hrep : cellSize * (temps + index + 1) ≤ 2 ^ 31) (hx : stack[temps + index]? = some x) :
    Runs I symbols R ⟨pc, stack, globals⟩ ⟨pc + 1, x :: stack, globals⟩ := by
  refine .of_execute hi ?_
  simp only [Instruction.loadCell, execute, Operand.cell?_fromTop hrep, Option.bind_some, hx,
    Option.map_some]
  rfl

theorem runs_store {temps index : Nat} {x : Cell}
    (hi : R.code[pc]? = some (.storeCell (Spot.fromTop temps index)))
    (hrep : cellSize * (temps + index + 1) ≤ 2 ^ 31) (hlt : temps + index < (x :: rest).length) :
    Runs I symbols R ⟨pc, x :: rest, globals⟩
      ⟨pc + 1, (x :: rest).set (temps + index) x, globals⟩ := by
  refine .of_execute hi ?_
  simp only [Instruction.storeCell, execute, Operand.cell?_fromTop hrep, Option.bind_some, hlt,
    if_true]
  rfl

theorem runs_pop {n : Nat} (hi : R.code[pc]? = some (.pop n)) (hrep : cellSize * n ≤ 2 ^ 31)
    (hn : n ≤ stack.length) :
    Runs I symbols R ⟨pc, stack, globals⟩ ⟨pc + 1, stack.drop n, globals⟩ := by
  refine .of_execute hi ?_
  simp only [Instruction.pop, execute, Operand.taken?_cells hrep, Option.bind_some, hn, if_true]
  rfl

/-- Cells are taken by one instruction, or by none if there are none to take. -/
theorem runs_popCode {taken : List Cell} (hc : SliceAt R.code pc (popCode taken.length))
    (hrep : cellSize * taken.length ≤ 2 ^ 31) :
    Runs I symbols R ⟨pc, taken ++ stack, globals⟩
      ⟨pc + (popCode taken.length).length, stack, globals⟩ := by
  cases taken with
  | nil => exact .refl _
  | cons x xs =>
      have hpop : Runs I symbols R ⟨pc, x :: xs ++ stack, globals⟩
          ⟨pc + 1, (x :: xs ++ stack).drop (x :: xs).length, globals⟩ :=
        runs_pop hc.head hrep (by simp)
      rwa [List.drop_left' rfl] at hpop

theorem runs_loadGlobal {slot : Nat} (hi : R.code[pc]? = some (.loadGlobal slot)) :
    Runs I symbols R ⟨pc, stack, globals⟩ ⟨pc + 1, globals slot :: stack, globals⟩ :=
  .of_execute hi rfl

theorem runs_storeGlobal {slot : Nat} {x : Cell} (hi : R.code[pc]? = some (.storeGlobal slot)) :
    Runs I symbols R ⟨pc, x :: rest, globals⟩
      ⟨pc + 1, x :: rest, update globals slot x⟩ :=
  .of_execute hi rfl

/-! ## Operators and calls -/

theorem runs_unary {op : UnaryOp} {t : ValueType} {o : Op} {x y : Cell}
    (hi : R.code[pc]? = some (.simple o)) (ho : op.operation? t = some o)
    (hy : I.unary op t x = some y) :
    Runs I symbols R ⟨pc, x :: rest, globals⟩ ⟨pc + 1, y :: rest, globals⟩ := by
  refine .of_execute hi ?_
  have hexec : execute I symbols R.labels (.simple o) ⟨pc, x :: rest, globals⟩
      = (operate? I o (x :: rest)).map (State.next ⟨pc, x :: rest, globals⟩) := by
    cases op <;> cases t <;> cases ho <;> rfl
  simp only [hexec, operate?, UnaryOp.unary?_of_operation? ho, hy, Option.map_some]
  rfl

theorem runs_binary {op : BinaryOp} {l r t : ValueType} {o : Op} {pair : TypePair} {x y z : Cell}
    (hi : R.code[pc]? = some (.simple o)) (ho : op.operation? l r = some (o, t))
    (hpair : TypePair.of? l r = some pair) (hz : I.binary op pair x y = some z) :
    Runs I symbols R ⟨pc, y :: x :: rest, globals⟩ ⟨pc + 1, z :: rest, globals⟩ := by
  refine .of_execute hi ?_
  obtain ⟨pair', hpair', hbin, hun⟩ := BinaryOp.binary?_of_operation? ho
  obtain rfl := Option.some.inj (hpair.symm.trans hpair')
  have hexec : execute I symbols R.labels (.simple o) ⟨pc, y :: x :: rest, globals⟩
      = (operate? I o (y :: x :: rest)).map (State.next ⟨pc, y :: x :: rest, globals⟩) := by
    cases o <;> cases hbin <;> rfl
  simp only [hexec, operate?, hbin, hun, hz, Option.map_some]
  rfl

/-- A call does not reach below what it can run on. -/
theorem call?_append {id : Nat} {front front' : List Cell} {globals' : Globals Cell}
    (h : call? I symbols id front globals = some (front', globals')) (rest : List Cell) :
    call? I symbols id (front ++ rest) globals = some (front' ++ rest, globals') := by
  rw [call?] at h ⊢
  cases hf : symbols.function? id with
  | none =>
      rw [hf] at h
      cases h
  | some f =>
      simp only [hf] at h ⊢
      split at h
      · cases h
      · next henough =>
          have hle := Nat.le_of_not_lt henough
          rw [if_neg (by rw [List.length_append]; omega), List.take_append_of_le_length hle,
            List.drop_append_of_le_length hle]
          split at h
          · next _ hvoid =>
              obtain ⟨_, heffect, heq⟩ := Option.map_eq_some_iff.mp h
              obtain ⟨rfl, rfl⟩ := Prod.mk.inj heq
              simp only [hvoid, heffect, Option.map_some]
          · next hvoid hdrop =>
              obtain ⟨⟨x, _⟩, hx, heq⟩ := Option.map_eq_some_iff.mp h
              obtain ⟨rfl, rfl⟩ := Prod.mk.inj heq
              simp only [hvoid, hdrop, List.cons_append, hx, Option.map_some]
          · cases h

theorem runs_call {id : Nat} {front front' : List Cell} {globals' : Globals Cell}
    (hi : R.code[pc]? = some (.callTo id))
    (h : call? I symbols id front globals = some (front', globals')) (rest : List Cell) :
    Runs I symbols R ⟨pc, front ++ rest, globals⟩ ⟨pc + 1, front' ++ rest, globals'⟩ := by
  refine .of_execute hi ?_
  simp only [Instruction.callTo, execute, call?_append h, Option.map_some]
  rfl

/-! ## Jumps -/

theorem runs_jump {label target : Nat} (hi : R.code[pc]? = some (.jump label))
    (hl : R.labels[label]? = some (some target)) :
    Runs I symbols R ⟨pc, stack, globals⟩ ⟨target, stack, globals⟩ := by
  refine .of_execute hi ?_
  simp only [Instruction.jump, execute, hl, Option.join_some, Option.map_some]

theorem runs_jumpIfZero_zero {label target : Nat} {x : Cell}
    (hi : R.code[pc]? = some (.jumpIfZero label)) (hl : R.labels[label]? = some (some target))
    (hx : I.isZero x = true) :
    Runs I symbols R ⟨pc, x :: rest, globals⟩ ⟨target, rest, globals⟩ := by
  refine .of_execute hi ?_
  simp only [Instruction.jumpIfZero, execute, hl, hx, if_true, Option.join_some, Option.map_some]

theorem runs_jumpIfZero_nonzero {label : Nat} {x : Cell}
    (hi : R.code[pc]? = some (.jumpIfZero label)) (hx : I.isZero x = false) :
    Runs I symbols R ⟨pc, x :: rest, globals⟩ ⟨pc + 1, rest, globals⟩ := by
  refine .of_execute hi ?_
  simp only [Instruction.jumpIfZero, execute, hx]
  rfl

end Machine

end Nss
