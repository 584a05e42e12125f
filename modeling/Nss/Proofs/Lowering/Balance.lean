/-
# Cells counted along code

Along code without jumps, the cells on the stack can be counted.  A call is counted by the convention
that functions keep: the caller reserves a cell for the result, if there is one, and pushes the
arguments, and the callee takes its parameters.

    RSADD, CONST, CPTOPSP, CPTOPBP, SAVEBP      one more
    JZ, RESTOREBP, operators between operands   one less
    MOVSP                                       as many as its operand says
    JSR                                         as many less as the callee has parameters

Code for an expression leaves one cell for its value, if it has one; code for arguments leaves one
for each, so that every call finds what it should; and code for the declarations of variables leaves
one for each of them.
-/
import Nss.Proofs.Lowering.Loader
import Nss.Proofs.Lowering.Height
import Nss.Proofs.Operators
import Nss.Program.Reachable

namespace Nss

/-- By how many cells an instruction makes the stack higher, callees taking their parameters. -/
def Instruction.change (symbols : Symbols) (i : Instruction) : Int :=
  match i.op, i.operand with
  | .rsAdd _, _ | .const _, _ | .cpTopSp, _ | .cpTopBp, _ | .saveBp, _ => 1
  | .jz, _ | .restoreBp, _ => -1
  | .movSp, .offset bytes => bytes.toInt / cellSize
  | .jsr, .call id => -((symbols.function? id).elim 0 fun f => (f.params.length : Int))
  | op, _ => if op.binary?.isSome then -1 else 0

namespace Symbols

variable {symbols : Symbols}

/-- By how many cells code makes the stack higher. -/
def rise (symbols : Symbols) : List Instruction → Int
  | [] => 0
  | i :: rest => i.change symbols + rise symbols rest

@[simp] theorem rise_nil : symbols.rise [] = 0 := rfl

@[simp] theorem rise_cons (i : Instruction) (rest : List Instruction) :
    symbols.rise (i :: rest) = i.change symbols + symbols.rise rest := rfl

@[simp] theorem rise_append (c c' : List Instruction) :
    symbols.rise (c ++ c') = symbols.rise c + symbols.rise c' := by
  induction c with
  | nil => simp
  | cons i rest ih => simp [ih, Int.add_assoc]

/-- With so many cells above those that were there before, every call in code finds the cell for the
result of the callee, if it has one, its parameters above it, and nothing else. -/
def CallsFit (symbols : Symbols) : Int → List Instruction → Prop
  | _, [] => True
  | height, i :: rest =>
    (∀ id, i.callee? = some id → ∃ f, symbols.function? id = some f ∧
      height = f.result.width + f.params.length) ∧
    CallsFit symbols (height + i.change symbols) rest

theorem callsFit_append {c c' : List Instruction} {height : Int} :
    symbols.CallsFit height (c ++ c') ↔
      symbols.CallsFit height c ∧ symbols.CallsFit (height + symbols.rise c) c' := by
  induction c generalizing height with
  | nil => simp [CallsFit]
  | cons i rest ih => simp [CallsFit, ih, and_assoc, Int.add_assoc]

/-- Code without calls. -/
theorem callsFit_of_plain {c : List Instruction} (h : ∀ i ∈ c, i.callee? = none) (height : Int) :
    symbols.CallsFit height c := by
  induction c generalizing height with
  | nil => trivial
  | cons i rest ih =>
      obtain ⟨hi, hrest⟩ := List.forall_mem_cons.mp h
      refine ⟨?_, ih hrest _⟩
      rw [hi]
      exact nofun

/-- One call of a function that is in the table. -/
theorem callsFit_callTo {f : FunctionSymbol} (hf : symbols.function? f.id = some f) {height : Int} :
    symbols.CallsFit height [.callTo f.id] ↔ height = f.result.width + f.params.length := by
  simp [CallsFit, Instruction.callee?, Instruction.callTo, hf]

end Symbols

/-! ## Single instructions -/

namespace Instruction

variable {symbols : Symbols}

@[simp] theorem change_reserve (t : ValueType) : (reserve t).change symbols = 1 := rfl

@[simp] theorem change_storeCell (n : Int) : (storeCell n).change symbols = 0 := rfl

@[simp] theorem change_ending : ending.change symbols = 0 := rfl

@[simp] theorem change_saveBp : (simple .saveBp).change symbols = 1 := rfl

@[simp] theorem change_restoreBp : (simple .restoreBp).change symbols = -1 := rfl

@[simp] theorem change_load (temps : Nat) (spot : Spot) : (spot.load temps).change symbols = 1 := by
  cases spot <;> rfl

theorem change_callTo {f : FunctionSymbol} (hf : symbols.function? f.id = some f) :
    (callTo f.id).change symbols = -(f.params.length : Int) := by
  simp [change, callTo, hf]

theorem change_unary {op : UnaryOp} {t : ValueType} {o : Op} (h : op.operation? t = some o) :
    (simple o).change symbols = 0 := by
  cases op <;> cases t <;> cases h <;> rfl

theorem change_binary {op : BinaryOp} {l r t : ValueType} {o : Op}
    (h : op.operation? l r = some (o, t)) : (simple o).change symbols = -1 := by
  obtain ⟨pair, -, hbinary, -⟩ := BinaryOp.binary?_of_operation? h
  cases o <;> first
    | rfl
    | cases hbinary

/-- Cells are taken as they are counted if they have a size of at most 2³¹ bytes. -/
theorem change_pop_iff {n : Nat} :
    (pop n).change symbols = -(n : Int) ↔ cellSize * n ≤ 2 ^ 31 := by
  show (cells (-(n : Int))).toInt / cellSize = -(n : Int) ↔ _
  constructor
  · intro h
    have hle := (cells (-(n : Int))).le_toInt
    simp only [cellSize] at h ⊢
    omega
  · intro h
    rw [toInt_cells h]
    simp only [cellSize]
    omega

end Instruction

namespace Symbols

variable {symbols : Symbols}

theorem rise_popCode_iff {n : Nat} :
    symbols.rise (popCode n) = -(n : Int) ↔ cellSize * n ≤ 2 ^ 31 := by
  rw [popCode]
  split
  · simp [Instruction.change_pop_iff]
  · next hn =>
      obtain rfl := Nat.eq_zero_of_not_pos hn
      simp

@[simp] theorem rise_reserveCode (t : ValueType) : symbols.rise (reserveCode t) = t.width := by
  rw [reserveCode, ValueType.width]
  split
  · rfl
  · simp

end Symbols

/-! ## Expressions and declarations -/

/-- The functions of one table are found in another one by their numbers. -/
def Symbols.FoundIn (s T : Symbols) : Prop :=
  ∀ {name : String} {f : FunctionSymbol}, s.lookup? name = some f → T.function? f.id = some f

section Emitted

variable {Γ : LoweringContext} {T : Symbols}

mutual

/-- An expression leaves a cell for its value, if it has one. -/
theorem Expr.Emits.rise (hT : Γ.symbols.FoundIn T) {vars : List Param} (hΓ : Γ.NonVoid vars) :
    ∀ {e : Expr} {temps : Nat} {t : ValueType} {c : List Instruction}, e.Emits Γ vars temps t c →
      T.rise c = t.width
  | .int _ _, _, _, _, .int => rfl
  | .float _ _, _, _, _, .float => rfl
  | .string _ _, _, _, _, .string _ => rfl
  | .object _ _, _, _, _, .object => rfl
  | .ident _ _, _, _, _, .ident hspot => by
      rw [ValueType.width_of_ne_void (hΓ.spot hspot)]
      simp
  | .call _ _ _, _, _, _, .call hf hlength hargs => by
      have hcall := Instruction.change_callTo (hT hf)
      have hrise := hargs.rise hT hΓ
      simp only [Symbols.rise_append, Symbols.rise_cons, Symbols.rise_nil,
        Symbols.rise_reserveCode, hrise, hcall, hlength]
      omega
  | .unary _ _ _, _, _, _, .unary hx ho => by
      have hrise := hx.rise hT hΓ
      simp [hrise, Instruction.change_unary ho]
  | .binary _ _ _ _, _, _, _, .binary hl hr ho => by
      obtain ⟨hlv, hrv, hv⟩ := BinaryOp.ne_void_of_operation? ho
      have hl := hl.rise hT hΓ
      have hr := hr.rise hT hΓ
      rw [ValueType.width_of_ne_void hlv] at hl
      rw [ValueType.width_of_ne_void hrv] at hr
      rw [ValueType.width_of_ne_void hv]
      simp [hl, hr, Instruction.change_binary ho]

/-- Arguments leave a cell each. -/
theorem Expr.ArgsEmit.rise (hT : Γ.symbols.FoundIn T) {vars : List Param} (hΓ : Γ.NonVoid vars) :
    ∀ {args : List Expr} {temps : Nat} {types : List ValueType} {c : List Instruction},
      Expr.ArgsEmit Γ vars temps args types c → T.rise c = args.length
  | [], _, _, _, .nil => rfl
  | _ :: _, _, _, _, .cons htype hargs harg => by
      have hargs := hargs.rise hT hΓ
      have harg := harg.rise hT hΓ
      rw [ValueType.width_of_ne_void htype] at harg
      simp [hargs, harg]

end

/-- A declaration leaves a cell for its variable. -/
theorem Stmt.Emits.var_rise (hT : Γ.symbols.FoundIn T) {p : Site} (hΓ : Γ.NonVoid p.vars)
    {decl : VarDecl} (hdecl : decl.type ≠ .void) {c : List Instruction} {ls : List Nat}
    {vs : List Param} (h : Stmt.Emits Γ p (.var decl) c ls vs) : T.rise c = 1 := by
  cases h with
  | var _ => simp
  | varInit _ he =>
      have hpop : (Instruction.pop 1).change T = -1 :=
        Instruction.change_pop_iff.mpr (by decide)
      have hrise := he.rise hT (hΓ.append (List.forall_mem_singleton.mpr hdecl))
      rw [ValueType.width_of_ne_void hdecl] at hrise
      simp [hrise, hpop]

/-- The declarations of global variables leave a cell each. -/
theorem Stmt.AllEmit.rise (hT : Γ.symbols.FoundIn T) :
    ∀ {gs : List GlobalSymbol} {p : Site} {c : List Instruction} {ls : List Nat} {vs : List Param},
      Γ.NonVoid p.vars → (∀ g ∈ gs, g.type ≠ .void) →
      Stmt.AllEmit Γ p (GlobalSymbol.declarations gs) c ls vs → T.rise c = gs.length
  | [], _, _, _, _, _, _, .nil => rfl
  | g :: rest, p, _, _, _, hΓ, hvoid, .cons hg hrest => by
      obtain ⟨hg₀, hrest₀⟩ := List.forall_mem_cons.mp hvoid
      have hfirst := hg.var_rise hT hΓ hg₀
      obtain ⟨-, rfl⟩ := hg.var_eq
      have hbehind := hrest.rise hT (hΓ.append (List.forall_mem_singleton.mpr hg₀)) hrest₀
      simp only [Symbols.rise_append, hfirst, hbehind, List.length_cons]
      omega

end Emitted

end Nss
