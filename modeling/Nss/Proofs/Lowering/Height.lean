/-
# How high the stack gets

`Expr.height` and `Stmt.height` say how many cells an expression or a statement needs above those
that are there already, and `FunctionDecl.frameHeight` how many a function needs with its parameters
and its result.  Instructions name cells by their distance from the top in bytes, as a number of 32
bits; as long as the whole frame has a size below that, the distance can be read back.
-/
import Nss.Proofs.Lowering.Emitted
import Mathlib.Algebra.Group.Nat.Defs

namespace Nss

/-! ## Heights -/

/-- The number of cells for the result of the function with a name. -/
def Symbols.resultWidth (symbols : Symbols) (name : String) : Nat :=
  match symbols.lookup? name with
  | some f => f.result.width
  | none => 0

mutual

/-- The number of cells that an expression needs. -/
def Expr.height (symbols : Symbols) : Expr → Nat
  | .int _ _ | .float _ _ | .string _ _ | .object _ _ | .ident _ _ => 1
  | .call name args _ => symbols.resultWidth name + Expr.argsHeight symbols args
  | .unary _ x _ => x.height symbols
  | .binary _ l r _ => max (l.height symbols) (1 + r.height symbols)

/-- The number of cells that arguments need, the last one being pushed first. -/
def Expr.argsHeight (symbols : Symbols) : List Expr → Nat
  | [] => 0
  | arg :: args => max (Expr.argsHeight symbols args) (args.length + arg.height symbols)

end

/-- The variables that a statement declares. -/
def Stmt.declared : Stmt → List Param
  | .var decl => [⟨decl.type, decl.name⟩]
  | _ => []

mutual

/-- The number of cells that a statement needs. -/
def Stmt.height (symbols : Symbols) : Stmt → Nat
  | .block body => Stmt.allHeight symbols body
  | .var decl =>
    match decl.init with
    | some e => 1 + e.height symbols
    | none => 1
  | .assign _ e _ | .expr e => e.height symbols
  | .ifThen cond body => max (cond.height symbols) (body.height symbols)
  | .ifElse cond body other =>
    max (cond.height symbols) (max (body.height symbols) (other.height symbols))
  | .loop cond body => max (cond.height symbols) (body.height symbols)
  | .ret value _ =>
    match value with
    | some e => e.height symbols
    | none => 0

/-- The number of cells that statements one after the other need. -/
def Stmt.allHeight (symbols : Symbols) : List Stmt → Nat
  | [] => 0
  | s :: rest => max (s.height symbols) (s.declared.length + Stmt.allHeight symbols rest)

end

/-- The number of cells that a function needs, with its result and its parameters. -/
def FunctionDecl.frameHeight (symbols : Symbols) (decl : FunctionDecl) : Nat :=
  decl.result.width + decl.params.length + Stmt.allHeight symbols (decl.body.getD [])

/-- So many cells take less than 2³¹ bytes. -/
def Representable (n : Nat) : Prop := cellSize * n < 2 ^ 31

instance (n : Nat) : Decidable (Representable n) := inferInstanceAs (Decidable (_ < _))

theorem Representable.mono {m n : Nat} (h : Representable n) (hmn : m ≤ n) : Representable m :=
  Nat.lt_of_le_of_lt (Nat.mul_le_mul_left _ hmn) h

theorem ValueType.width_le_one (t : ValueType) : t.width ≤ 1 := by
  rw [width]
  split
  · exact Nat.zero_le 1
  · exact Nat.le_refl 1

/-- The value of an expression takes its place among the cells that it needs. -/
theorem Expr.Emits.width_le_height {Γ : LoweringContext} {vars : List Param} :
    ∀ {e : Expr} {temps : Nat} {t : ValueType} {c : List Instruction},
      e.Emits Γ vars temps t c → t.width ≤ e.height Γ.symbols
  | .int _ _, _, _, _, _ | .float _ _, _, _, _, _ | .string _ _, _, _, _, _
  | .object _ _, _, _, _, _ | .ident _ _, _, _, _, _ => by
      rw [Expr.height]
      exact ValueType.width_le_one _
  | .call name args span, _, _, _, .call hf _ _ => by
      rw [Expr.height, Symbols.resultWidth, hf]
      exact Nat.le_add_right _ _
  | .unary op x span, _, _, _, .unary hx _ => by
      rw [Expr.height]
      exact hx.width_le_height
  | .binary op l r span, _, t, _, .binary _ _ _ => by
      rw [Expr.height]
      have := t.width_le_one
      omega

/-- A statement declares the variables that its form says. -/
theorem Stmt.Emits.eq_declared {Γ : LoweringContext} {p : Site} {s : Stmt}
    {c : List Instruction} {ls : List Nat} {vs : List Param} (h : Stmt.Emits Γ p s c ls vs) :
    vs = s.declared := by
  cases h <;> rfl

/-- The variables that a statement declares are not `void`. -/
theorem Stmt.Emits.nonVoid {Γ : LoweringContext} {p : Site} {s : Stmt} {c : List Instruction}
    {ls : List Nat} {vs : List Param} (h : Stmt.Emits Γ p s c ls vs) (hs : s.NonVoid) :
    ∀ v ∈ vs, v.type ≠ .void := by
  cases h with
  | var _ | varInit _ _ =>
      rw [Stmt.NonVoid] at hs
      simpa using hs
  | block | assign | expr | ifThen | ifElse | loop | ret | retValue =>
      intro v hv
      cases hv

theorem Stmt.declared_le_height (symbols : Symbols) (s : Stmt) :
    s.declared.length ≤ s.height symbols := by
  cases s with
  | var decl =>
      rw [declared, height]
      split
      · exact Nat.le_add_right _ _
      · exact Nat.le_refl 1
  | block | assign | expr | ifThen | ifElse | loop | ret => exact Nat.zero_le _

/-- The variables that statements declare are among the cells that they need. -/
theorem Stmt.AllEmit.length_le_height {Γ : LoweringContext} :
    ∀ {ss : List Stmt} {p : Site} {c : List Instruction} {ls : List Nat} {vs : List Param},
      Stmt.AllEmit Γ p ss c ls vs → vs.length ≤ Stmt.allHeight Γ.symbols ss
  | [], _, _, _, _, .nil => Nat.zero_le _
  | s :: rest, _, _, _, _, .cons hs hrest => by
      have h₁ := congrArg List.length hs.eq_declared
      have h₂ := hrest.length_le_height
      rw [Stmt.allHeight, List.length_append]
      omega

/-! ## Distances -/

/-- The number of bytes in some cells, read back from 32 bits. -/
theorem Instruction.toInt_cells {n : Nat} (h : cellSize * n ≤ 2 ^ 31) :
    (cells (-(n : Int))).toInt = -((cellSize * n : Nat) : Int) := by
  rw [cells, Int32.toInt_ofInt, Int.bmod_eq_of_le]
  · simp only [cellSize]
    omega
  · simp only [cellSize, Int32.size] at h ⊢
    omega
  · simp only [cellSize, Int32.size] at h ⊢
    omega

/-- The cell that an operand addresses, counted from the top: one whole cell of those there are. -/
def Operand.cell? : Operand → Option Nat
  | .stack distance size =>
    let bytes := -distance.toInt
    if size.toNat = cellSize ∧ 0 < bytes ∧ bytes % cellSize = 0 then
      some (bytes / cellSize - 1).toNat
    else Option.none
  | _ => Option.none

/-- The number of whole cells that an operand takes from the top. -/
def Operand.taken? : Operand → Option Nat
  | .offset distance =>
    let bytes := -distance.toInt
    if 0 ≤ bytes ∧ bytes % cellSize = 0 then some (bytes / cellSize).toNat
    else Option.none
  | _ => Option.none

/-- The distance of a cell from the top can be read back. -/
theorem Operand.cell?_fromTop {temps index : Nat} (h : cellSize * (temps + index + 1) ≤ 2 ^ 31) :
    (Operand.stack (Instruction.cells (Spot.fromTop temps index)) (UInt16.ofNat cellSize)).cell?
      = some (temps + index) := by
  have hsize : (UInt16.ofNat cellSize).toNat = cellSize := by decide
  rw [cell?, Spot.fromTop, Instruction.toInt_cells h, if_pos]
  · simp only [cellSize, Option.some.injEq]
    omega
  · simp only [cellSize] at hsize ⊢
    omega

/-- The number of cells that are taken can be read back. -/
theorem Operand.taken?_cells {n : Nat} (h : cellSize * n ≤ 2 ^ 31) :
    (Operand.offset (Instruction.cells (-(n : Int)))).taken? = some n := by
  rw [taken?, Instruction.toInt_cells h, if_pos]
  · simp only [cellSize, Option.some.injEq]
    omega
  · simp only [cellSize]
    omega

end Nss
