/-
# A verifier of bytecode

The shape of a stack is the types of its cells: those of the values that operators and calls wait
for, and below them the frame of the function, which is its variables in sight, its parameters and
the cell for its result.  `Verifier.transfer?` says which shape an instruction leaves if it fits the one
before; it is the only thing that knows what instructions demand.  Code is verified when every
instruction has a shape that it fits, and what it leaves is the shape of each instruction that may be
run next.

    RSADD  reserves a cell for a value, or for a new variable if no values are waited for
    CPTOPSP and CPDOWNSP  address one cell of the frame, and what is stored there is of its type
    operations, calls and JZ  take values only, never a cell of the frame
    RETN  finds the cell for the result and nothing else
-/
import Nss.Proofs.Machine.Basic

namespace Nss

/-- The types of the cells of a stack, the top one first. -/
structure Shape where
  /-- The values that are waited for. -/
  values : List ValueType
  /-- The variables, the innermost first, the parameters, and the cell for the result. -/
  frame : List ValueType
deriving DecidableEq, Repr

namespace Shape

/-- All cells. -/
def cells (S : Shape) : List ValueType := S.values ++ S.frame

/-- One more value on top. -/
def push (S : Shape) (t : ValueType) : Shape := { S with values := t :: S.values }

/-- Without the first `n` cells. -/
def drop (S : Shape) (n : Nat) : Shape :=
  ⟨S.values.drop n, S.frame.drop (n - S.values.length)⟩

theorem drop_zero (S : Shape) : S.drop 0 = S := by
  rw [drop, Nat.zero_sub, List.drop_zero, List.drop_zero]

end Shape

/-- The type of the constant in an operand. -/
def Operand.constantType? : Operand → Option ValueType
  | .int _ => some .int
  | .float _ => some .float
  | .str _ => some .string
  | .object _ => some .object
  | _ => Option.none

/-- Whether the next instruction may be run after an instruction. -/
def Instruction.fallsThrough (i : Instruction) : Bool :=
  match i.op with
  | .jmp | .retn => false
  | _ => true

namespace Verifier

/-- The values after an operation of an operator, whose operands are on top, the right one first. -/
def operate? (op : Op) (values : List ValueType) : Option (List ValueType) :=
  match op.unary?, op.binary?, values with
  | some (_, t), _, x :: rest => if x = t then some (t :: rest) else none
  | none, some (o, p), y :: x :: rest =>
    if x = p.left ∧ y = p.right then some (o.resultType p :: rest) else none
  | _, _, _ => none

/-- The values after a call: the arguments are on top, the first one first, and below them there is a
cell for the result if there is one. -/
def call? (f : FunctionSymbol) (values : List ValueType) : Option (List ValueType) :=
  if f.params ++ f.result.cells <+: values then some (values.drop f.params.length) else none

/-- The shape that an instruction leaves, if it fits the one before.  `stop` is what a function leaves
to its caller. -/
def transfer? (symbols : Symbols) (stop : Shape) (i : Instruction) (S : Shape) : Option Shape :=
  match i.op, i.operand, S.values with
  | .rsAdd t, .none, _ => if t.isVoid then none else some (S.push t)
  | .const t, x, _ => if x.constantType? = some t then some (S.push t) else none
  | .cpTopSp, x, values =>
    x.cell?.bind fun k =>
      if values.length ≤ k then S.frame[k - values.length]?.map S.push else none
  | .cpDownSp, x, t :: values =>
    x.cell?.bind fun k =>
      if values.length < k ∧ S.frame[k - (values.length + 1)]? = some t then some S else none
  | .cpTopBp, .global slot, _ => symbols.globals[slot]?.map fun g => S.push g.type
  | .cpDownBp, .global slot, t :: _ =>
    if symbols.globals[slot]?.map GlobalSymbol.type = some t then some S else none
  | .movSp, x, _ => x.taken?.bind fun n => if n ≤ S.cells.length then some (S.drop n) else none
  | .jmp, .label _, _ => some S
  | .jz, .label _, .int :: values => some { S with values }
  | .jsr, .call id, values =>
    (symbols.function? id).bind fun f => (call? f values).map fun values => { S with values }
  | .retn, .none, _ => if S = stop then some S else none
  | op, .none, values => (operate? op values).map fun values => { S with values }
  | _, _, _ => none

/-- The shape with the variable that an instruction reserves a cell for. -/
def declare? (i : Instruction) (S : Shape) : Option Shape :=
  match i.op, i.operand, S.values with
  | .rsAdd t, .none, [] => if t.isVoid then none else some { S with frame := t :: S.frame }
  | _, _, _ => none

/-- An instruction fits a shape and leaves another one. -/
def Leaves (symbols : Symbols) (stop : Shape) (i : Instruction) (S S' : Shape) : Prop :=
  transfer? symbols stop i S = some S' ∨ declare? i S = some S'

instance (symbols : Symbols) (stop : Shape) (i : Instruction) (S S' : Shape) :
    Decidable (Leaves symbols stop i S S') :=
  inferInstanceAs (Decidable (_ ∨ _))

/-- Code with a shape for each of its instructions.  It is called on the shape `start`, and leaves
`stop` to the caller. -/
structure Verified (symbols : Symbols) (R : Routine) (start stop : Shape) (shapes : List Shape) :
    Prop where
  length : shapes.length = R.code.length
  start : shapes[0]? = some start
  step : ∀ (n : Nat) (i : Instruction), R.code[n]? = some i →
    ∃ S S', shapes[n]? = some S ∧ Leaves symbols stop i S S' ∧
      (i.fallsThrough = true → shapes[n + 1]? = some S') ∧
      (∀ l, i.label? = some l →
        ∃ target, R.labels[l]? = some (some target) ∧ shapes[target]? = some S')
  labels : ∀ label ∈ R.labels, ∃ target, label = some target ∧ target < R.code.length

/-! ## The instructions that functions are lowered to -/

variable {symbols : Symbols} {stop S : Shape} {values frame : List ValueType}

theorem transfer?_reserve {t : ValueType} (ht : t ≠ .void) :
    transfer? symbols stop (.reserve t) S = some (S.push t) :=
  if_neg (mt ValueType.isVoid_iff.mp ht)

theorem declare?_reserve {t : ValueType} (ht : t ≠ .void) :
    declare? (.reserve t) ⟨[], frame⟩ = some ⟨[], t :: frame⟩ :=
  if_neg (mt ValueType.isVoid_iff.mp ht)

theorem transfer?_const {t : ValueType} {x : Operand} (h : x.constantType? = some t) :
    transfer? symbols stop ⟨.const t, x⟩ S = some (S.push t) :=
  if_pos h

theorem transfer?_load {index : Nat} {t : ValueType}
    (hrep : cellSize * (values.length + index + 1) ≤ 2 ^ 31) (ht : frame[index]? = some t) :
    transfer? symbols stop (.loadCell (Spot.fromTop values.length index)) ⟨values, frame⟩
      = some ⟨t :: values, frame⟩ := by
  simp only [transfer?, Instruction.loadCell, Operand.cell?_fromTop hrep, Option.bind_some,
    Nat.le_add_right, if_true, Nat.add_sub_cancel_left, ht]
  rfl

theorem transfer?_store {index : Nat} {t : ValueType}
    (hrep : cellSize * (1 + index + 1) ≤ 2 ^ 31) (ht : frame[index]? = some t) :
    transfer? symbols stop (.storeCell (Spot.fromTop 1 index)) ⟨[t], frame⟩ = some ⟨[t], frame⟩ := by
  have hindex : 1 + index - (0 + 1) = index := by omega
  simp only [transfer?, Instruction.storeCell, Operand.cell?_fromTop hrep, Option.bind_some,
    List.length_nil, hindex, ht, and_true]
  exact if_pos (by omega)

theorem transfer?_loadGlobal {slot : Nat} {g : GlobalSymbol} (hg : symbols.globals[slot]? = some g) :
    transfer? symbols stop (.loadGlobal slot) S = some (S.push g.type) := by
  simp only [transfer?, Instruction.loadGlobal, hg, Option.map_some]

theorem transfer?_storeGlobal {slot : Nat} {g : GlobalSymbol}
    (hg : symbols.globals[slot]? = some g) :
    transfer? symbols stop (.storeGlobal slot) ⟨[g.type], frame⟩ = some ⟨[g.type], frame⟩ := by
  simp only [transfer?, Instruction.storeGlobal, hg, Option.map_some, if_true]

theorem transfer?_pop {n : Nat} (hrep : cellSize * n ≤ 2 ^ 31) (hn : n ≤ S.cells.length) :
    transfer? symbols stop (.pop n) S = some (S.drop n) := by
  simp only [transfer?, Instruction.pop, Operand.taken?_cells hrep, Option.bind_some, hn, if_true]

theorem transfer?_jumpIfZero {l : Nat} :
    transfer? symbols stop (.jumpIfZero l) ⟨.int :: values, frame⟩ = some ⟨values, frame⟩ :=
  rfl

theorem transfer?_call {f : FunctionSymbol} (hf : symbols.function? f.id = some f) :
    transfer? symbols stop (.callTo f.id) ⟨f.params ++ (f.result.cells ++ values), frame⟩
      = some ⟨f.result.cells ++ values, frame⟩ := by
  have hprefix : f.params ++ f.result.cells <+: f.params ++ (f.result.cells ++ values) :=
    ⟨values, List.append_assoc ..⟩
  simp only [transfer?, Instruction.callTo, hf, Option.bind_some, call?, hprefix, if_true,
    List.drop_left, Option.map_some]

theorem transfer?_ending : transfer? symbols stop .ending stop = some stop :=
  if_pos rfl

theorem transfer?_unary {op : UnaryOp} {t : ValueType} {o : Op} (h : op.operation? t = some o) :
    transfer? symbols stop (.simple o) ⟨t :: values, frame⟩ = some ⟨t :: values, frame⟩ := by
  have hunary := UnaryOp.unary?_of_operation? h
  cases o with
  | neg | not =>
      simp only [transfer?, Instruction.simple, operate?, hunary, if_true, Option.map_some]
  | _ => cases hunary

theorem transfer?_binary {op : BinaryOp} {l r t : ValueType} {o : Op}
    (h : op.operation? l r = some (o, t)) :
    transfer? symbols stop (.simple o) ⟨r :: l :: values, frame⟩ = some ⟨t :: values, frame⟩ := by
  obtain ⟨pair, hpair, hbinary, hunary⟩ := BinaryOp.binary?_of_operation? h
  obtain rfl := BinaryOp.resultType_of_operation? h hpair
  have htypes : l = pair.left ∧ r = pair.right := by
    cases l <;> cases r <;> cases hpair <;> exact ⟨rfl, rfl⟩
  have hoperate : operate? o (r :: l :: values) = some (op.resultType pair :: values) := by
    simp only [operate?, hunary, hbinary, htypes, and_self, if_true]
  cases o with
  | cpDownSp | rsAdd | cpTopSp | const | movSp | jmp | jsr | jz | retn | cpDownBp | cpTopBp =>
      cases hbinary
  | _ => simp only [transfer?, Instruction.simple, hoperate, Option.map_some]

end Verifier

end Nss
