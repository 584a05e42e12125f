/-
# What lowering does to a frame

Whether it succeeds or fails, lowering only adds to a frame: instructions of a few forms, labels and
diagnostics.  `Lower.Growth` collects what a relation between frames must allow for, and
`Stmt.lower_moves` shows that lowering never leaves such a relation.
-/
import Nss.Proofs.Lowering.Frame

namespace Nss

open Steps

/-! ## Forms of instructions -/

/-- The forms of the instructions that lowering adds, jumps apart. -/
inductive Instruction.Straight (symbols : Symbols) : Instruction → Prop
  | int (v : Int32) : Instruction.Straight symbols ⟨.const .int, .int v⟩
  | float (v : Binary32) : Instruction.Straight symbols ⟨.const .float, .float v⟩
  | string {v : String} :
      (Bytes.ofText v).length ≤ maxString → Instruction.Straight symbols ⟨.const .string, .str v⟩
  | object (v : Int32) : Instruction.Straight symbols ⟨.const .object, .object v⟩
  | reserve {t : ValueType} : t ≠ .void → Instruction.Straight symbols (.reserve t)
  | loadCell (n : Int) : Instruction.Straight symbols (.loadCell n)
  | storeCell (n : Int) : Instruction.Straight symbols (.storeCell n)
  | loadGlobal (slot : Nat) : Instruction.Straight symbols (.loadGlobal slot)
  | storeGlobal (slot : Nat) : Instruction.Straight symbols (.storeGlobal slot)
  | pop (n : Nat) : Instruction.Straight symbols (.pop n)
  | callTo {f : FunctionSymbol} :
      f ∈ symbols.functions → Instruction.Straight symbols (.callTo f.id)
  | unary {op : UnaryOp} {t : ValueType} {o : Op} :
      op.operation? t = some o → Instruction.Straight symbols (.simple o)
  | binary {op : BinaryOp} {l r t : ValueType} {o : Op} :
      op.operation? l r = some (o, t) → Instruction.Straight symbols (.simple o)
  | ending : Instruction.Straight symbols .ending
  | saveBp : Instruction.Straight symbols (.simple .saveBp)
  | restoreBp : Instruction.Straight symbols (.simple .restoreBp)

/-! ## Relations that lowering stays in -/

/-- A relation between frames that allows for all that lowering an expression does. -/
structure Lower.Growth (symbols : Symbols) (R : Frame → Frame → Prop) : Prop where
  refl : ∀ f, R f f
  trans : ∀ {f g h}, R f g → R g h → R f h
  emitted : ∀ f {i} depth, i.Straight symbols → R f (f.emitted i depth)
  moved : ∀ f scope enclosing depth,
    R f { f with scope := scope, enclosing := enclosing, depth := depth }
  failed : ∀ f {d : Diagnostic} depth, d.isError = true →
    R f { f with diagnostics := f.diagnostics ++ [d], depth := depth }

/-- A relation that also allows for labels and jumps. -/
structure Lower.Branching (symbols : Symbols) (R : Frame → Frame → Prop) : Prop
    extends Lower.Growth symbols R where
  labelled : ∀ f, R f f.labelled
  bound : ∀ f label, R f (f.bound label)
  jump : ∀ f label, R f (f.emitted (.jump label) f.depth)
  jumpIfZero : ∀ f label, R f (f.emitted (.jumpIfZero label) (f.depth - 1))

/-- Lowering stays in a relation between frames, and what it fails with are errors. -/
abbrev Lower.Stays {α : Type} (R : Frame → Frame → Prop) (p : Lower α) : Prop :=
  Moves R (fun d => d.isError = true) p

namespace Lower

variable {α β : Type} {Γ : LoweringContext} {R : Frame → Frame → Prop}

namespace Growth

variable (hR : Growth Γ.symbols R)

include hR

/-! ### Steps -/

theorem moves_pure (a : α) : Lower.Stays R (pure a : Lower α) := .pure hR.refl a

theorem moves_fail (problem : Problem) (span : Span) : Lower.Stays R (fail problem span : Lower α) :=
  .throw hR.refl rfl

theorem moves_bind_of {p : Lower α} {k : α → Lower β} (hp : Lower.Stays R p)
    (hk : ∀ f a g, p f = .ok a g → Lower.Stays R (k a)) : Lower.Stays R (p >>= k) :=
  Moves.bind_of (R := R) (fun _ _ _ => hR.trans) hp hk

theorem moves_bind {p : Lower α} {k : α → Lower β} (hp : Lower.Stays R p) (hk : ∀ a, Lower.Stays R (k a)) :
    Lower.Stays R (p >>= k) :=
  hR.moves_bind_of hp fun _ a _ _ => hk a

theorem moves_emit {i : Instruction} (hi : i.Straight Γ.symbols) : Lower.Stays R (emit i) :=
  .of_ok (emit_apply i) fun f => hR.emitted f f.depth hi

theorem moves_emitPush {i : Instruction} (hi : i.Straight Γ.symbols) : Lower.Stays R (emitPush i) :=
  .of_ok (emitPush_apply i) fun f => hR.emitted f (f.depth + 1) hi

theorem moves_emitTake (n : Nat) {i : Instruction} (hi : i.Straight Γ.symbols) :
    Lower.Stays R (emitTake n i) :=
  .of_ok (emitTake_apply n i) fun f => hR.emitted f (f.depth - n) hi

theorem moves_popCells (n : Nat) : Lower.Stays R (popCells n) := by
  rw [popCells]
  split
  · exact hR.moves_emitTake n (.pop n)
  · exact hR.moves_pure ()

theorem moves_depth : Lower.Stays R depth := .of_ok depth_apply hR.refl

theorem moves_fromTop (position : Int) : Lower.Stays R (fromTop position) :=
  .of_ok (fromTop_apply position) hR.refl

theorem moves_setDepth (depth : Frame → Nat) :
    Lower.Stays R (modify fun f => { f with depth := depth f } : Lower Unit) :=
  .of_ok (fun _ => rfl) fun f => hR.moved f f.scope f.enclosing (depth f)

theorem moves_declare (name : String) (type : ValueType) : Lower.Stays R (declare name type) :=
  .of_ok (fun _ => rfl) fun f => hR.moved f (_ :: f.scope) f.enclosing f.depth

theorem moves_resolve (name : String) (span : Span) : Lower.Stays R (resolve Γ name span) := by
  refine hR.moves_bind (.get hR.refl) fun f => ?_
  cases resolve? Γ f name with
  | some place => exact hR.moves_pure place
  | none => exact hR.moves_fail _ span

theorem moves_expectType (wanted found : ValueType) (span : Span) :
    Lower.Stays R (expectType wanted found span) := by
  rw [expectType]
  split
  · exact hR.moves_pure ()
  · exact hR.moves_fail _ span

theorem moves_settle {p : Lower Unit} (hp : Lower.Stays R p) : Lower.Stays R (settle p) := by
  intro f
  rw [settle]
  refine ⟨?_, ?_⟩
  · intro a g hg
    cases h : p f with
    | ok b h' =>
        rw [h] at hg
        obtain rfl := (EStateM.Result.ok.inj hg).2
        exact (hp f).1 b _ h
    | error d h' =>
        rw [h] at hg
        obtain rfl := (EStateM.Result.ok.inj hg).2
        obtain ⟨hstays, hd⟩ := (hp f).2 d h' h
        exact hR.trans hstays (hR.failed h' _ hd)
  · intro d g hg
    split at hg
    · cases hg
    · cases hg

theorem moves_inScope {p : Lower Unit} (hp : Lower.Stays R p) : Lower.Stays R (Stmt.inScope p) := by
  refine hR.moves_bind ?_ fun _ => hR.moves_bind hp fun _ => ?_
  · exact .of_ok openScope_apply fun f => hR.moved f [] (f.scope :: f.enclosing) f.depth
  · refine .of_ok closeScope_apply fun f => hR.trans (g := f.closed) ?_ ?_
    · exact hR.moved f (f.enclosing.headD []) f.enclosing.tail f.depth
    · rw [Frame.popped]
      split
      · exact hR.emitted _ _ (.pop _)
      · exact hR.refl _

/-! ### Expressions -/

theorem moves_callee (name : String) (given : Nat) (span : Span) :
    Lower.Stays R (Expr.callee Γ name given span) := by
  rw [Expr.callee]
  cases Γ.symbols.lookup? name with
  | none => exact hR.moves_fail _ span
  | some f =>
      by_cases h : f.params.length = given
      · simpa only [h, if_true] using hR.moves_pure f
      · simpa only [h, if_false] using hR.moves_fail _ span

theorem moves_lowerConst {t : ValueType} {x : Operand}
    (h : Instruction.Straight Γ.symbols ⟨.const t, x⟩) : Lower.Stays R (Expr.lowerConst t x) :=
  hR.moves_bind (hR.moves_emitPush h) fun _ => hR.moves_pure t

theorem moves_lowerIdent (name : String) (span : Span) :
    Lower.Stays R (Expr.lowerIdent Γ name span) := by
  refine hR.moves_bind (hR.moves_resolve name span) fun place => ?_
  cases place with
  | stack position t =>
      refine hR.moves_bind (hR.moves_fromTop position) fun n => ?_
      exact hR.moves_bind (hR.moves_emitPush (.loadCell n)) fun _ => hR.moves_pure _
  | global slot t =>
      exact hR.moves_bind (hR.moves_emitPush (.loadGlobal slot)) fun _ => hR.moves_pure _

end Growth

/-- The frame in the end, whether lowering failed or not. -/
theorem Growth.after {symbols : Symbols} (hR : Growth symbols R) {p : Lower Unit} (hp : Stays R p)
    (f : Frame) : R f (f.after p) := by
  rw [Frame.after]
  cases h : p f with
  | ok u g => exact (hp f).1 u g h
  | error d g =>
      obtain ⟨hstays, hd⟩ := (hp f).2 d g h
      exact hR.trans hstays (hR.failed g g.depth hd)

/-! ### Labels and jumps -/

namespace Branching

variable (hR : Branching Γ.symbols R)

include hR

theorem moves_newLabel : Lower.Stays R newLabel := .of_ok newLabel_apply hR.labelled

theorem moves_bindLabel (label : Nat) : Lower.Stays R (bindLabel label) :=
  .of_ok (bindLabel_apply label) fun f => hR.bound f label

theorem moves_jump (label : Nat) : Lower.Stays R (emit (.jump label)) :=
  .of_ok (emit_apply _) fun f => hR.jump f label

theorem moves_jumpIfZero (label : Nat) : Lower.Stays R (emitTake 1 (.jumpIfZero label)) :=
  .of_ok (emitTake_apply 1 _) fun f => hR.jumpIfZero f label

end Branching

end Lower

/-- A call that is lowered is one of a function in the table. -/
theorem Lower.callee_mem {Γ : LoweringContext} {name : String} {given : Nat} {span : Span}
    {f g : Frame} {s : FunctionSymbol} (h : Expr.callee Γ name given span f = .ok s g) :
    s ∈ Γ.symbols.functions :=
  List.mem_of_find?_eq_some (callee_eq_ok.mp h).1

mutual

/-- Lowering an expression stays in every relation that allows for it. -/
theorem Expr.lower_moves {Γ : LoweringContext} {R : Frame → Frame → Prop}
    (hR : Lower.Growth Γ.symbols R) : ∀ e : Expr, Lower.Stays R (e.lower Γ)
  | .int v span => by
      rw [Expr.lower]
      exact hR.moves_lowerConst (.int v)
  | .float v span => by
      rw [Expr.lower]
      exact hR.moves_lowerConst (.float v)
  | .string v span => by
      rw [Expr.lower]
      split
      · exact hR.moves_fail _ span
      · next h => exact hR.moves_lowerConst (.string (Nat.le_of_not_lt h))
  | .object v span => by
      rw [Expr.lower]
      exact hR.moves_lowerConst (.object v)
  | .ident name span => by
      rw [Expr.lower]
      exact hR.moves_lowerIdent name span
  | .call name args span => by
      rw [Expr.lower]
      refine hR.moves_bind_of (hR.moves_callee name args.length span) fun f s g h => ?_
      have hrest : Lower.Stays R (do
          Expr.lowerArgs Γ args s.params
          Lower.emitTake args.length (.callTo s.id)
          return s.result) := by
        refine hR.moves_bind (Expr.lowerArgs_moves hR args s.params) fun _ => ?_
        exact hR.moves_bind (hR.moves_emitTake _ (.callTo (Lower.callee_mem h))) fun _ =>
          hR.moves_pure _
      cases hv : s.result.isVoid with
      | true => exact hrest
      | false =>
          refine hR.moves_bind (hR.moves_emitPush (.reserve ?_)) fun _ => hrest
          intro hvoid
          rw [hvoid] at hv
          cases hv
  | .unary op x span => by
      rw [Expr.lower]
      refine hR.moves_bind (Expr.lower_moves hR x) fun t => ?_
      cases ho : op.operation? t with
      | none => exact hR.moves_fail _ span
      | some o => exact hR.moves_bind (hR.moves_emit (.unary ho)) fun _ => hR.moves_pure t
  | .binary op l r span => by
      rw [Expr.lower]
      refine hR.moves_bind (Expr.lower_moves hR l) fun tl => ?_
      refine hR.moves_bind (Expr.lower_moves hR r) fun tr => ?_
      cases ho : op.operation? tl tr with
      | none => exact hR.moves_fail _ span
      | some ot =>
          obtain ⟨o, t⟩ := ot
          exact hR.moves_bind (hR.moves_emitTake 1 (.binary ho)) fun _ => hR.moves_pure t

theorem Expr.lowerArgs_moves {Γ : LoweringContext} {R : Frame → Frame → Prop}
    (hR : Lower.Growth Γ.symbols R) :
    ∀ (args : List Expr) (types : List ValueType), Lower.Stays R (Expr.lowerArgs Γ args types)
  | [], types => by
      rw [Expr.lowerArgs]
      · exact hR.moves_pure ()
      · intro arg args type types h
        cases h
  | arg :: args, [] => by
      rw [Expr.lowerArgs]
      · exact hR.moves_pure ()
      · intro arg args type types _ h
        cases h
  | arg :: args, type :: types => by
      rw [Expr.lowerArgs]
      refine hR.moves_bind (Expr.lowerArgs_moves hR args types) fun _ => ?_
      exact hR.moves_bind (Expr.lower_moves hR arg) fun found =>
        hR.moves_expectType type found arg.span

end

/-! ### Statements -/

namespace Stmt

variable {Γ : LoweringContext} {R : Frame → Frame → Prop} (hR : Lower.Growth Γ.symbols R)

include hR

theorem lowerVar_moves {decl : VarDecl} (hdecl : decl.type ≠ .void) :
    Lower.Stays R (lowerVar Γ decl) := by
  refine hR.moves_bind (.get hR.refl) fun f => ?_
  split
  · exact hR.moves_fail _ decl.span
  · refine hR.moves_bind (hR.moves_declare _ _) fun _ => ?_
    refine hR.moves_bind (hR.moves_emitPush (.reserve hdecl)) fun _ => ?_
    cases decl.init with
    | none => exact hR.moves_pure ()
    | some e =>
        refine hR.moves_bind (Expr.lower_moves hR e) fun found => ?_
        refine hR.moves_bind (hR.moves_expectType _ found e.span) fun _ => ?_
        exact hR.moves_bind (hR.moves_emit (.storeCell (-2))) fun _ => hR.moves_popCells 1

theorem lowerAssign_moves (name : String) (e : Expr) (span : Span) :
    Lower.Stays R (lowerAssign Γ name e span) := by
  refine hR.moves_bind (hR.moves_resolve name span) fun place => ?_
  refine hR.moves_bind (Expr.lower_moves hR e) fun found => ?_
  refine hR.moves_bind (hR.moves_expectType _ found e.span) fun _ => ?_
  cases place with
  | stack position t =>
      refine hR.moves_bind (hR.moves_fromTop position) fun n => ?_
      exact hR.moves_bind (hR.moves_emit (.storeCell n)) fun _ => hR.moves_popCells 1
  | global slot t =>
      exact hR.moves_bind (hR.moves_emit (.storeGlobal slot)) fun _ => hR.moves_popCells 1

theorem lowerExpr_moves (e : Expr) : Lower.Stays R (lowerExpr Γ e) := by
  refine hR.moves_bind (Expr.lower_moves hR e) fun t => ?_
  cases t.isVoid with
  | true => exact hR.moves_pure ()
  | false => exact hR.moves_popCells 1

theorem lowerCondition_moves (e : Expr) : Lower.Stays R (lowerCondition Γ e) := by
  refine hR.moves_bind (Expr.lower_moves hR e) fun t => ?_
  split
  · exact hR.moves_fail _ e.span
  · exact hR.moves_pure ()

theorem lowerResult_moves (value : Option Expr) (span : Span) :
    Lower.Stays R (lowerResult Γ value span) := by
  cases value with
  | none =>
      cases hvoid : Γ.result.isVoid with
      | true =>
          simp only [lowerResult, hvoid]
          exact hR.moves_pure ()
      | false =>
          simp only [lowerResult, hvoid]
          exact hR.moves_fail _ span
  | some e =>
      cases hvoid : Γ.result.isVoid with
      | true =>
          simp only [lowerResult, hvoid]
          exact hR.moves_fail _ e.span
      | false =>
          simp only [lowerResult, hvoid]
          refine hR.moves_bind (Expr.lower_moves hR e) fun found => ?_
          refine hR.moves_bind (hR.moves_expectType _ found e.span) fun _ => ?_
          exact hR.moves_bind (hR.moves_fromTop _) fun n => hR.moves_emit (.storeCell n)

omit hR

theorem lowerReturn_moves (hR : Lower.Branching Γ.symbols R) (value : Option Expr) (span : Span) :
    Lower.Stays R (lowerReturn Γ value span) := by
  refine hR.moves_bind hR.moves_depth fun before => ?_
  refine hR.moves_bind (lowerResult_moves hR.toGrowth value span) fun _ => ?_
  refine hR.moves_bind hR.moves_depth fun n => ?_
  refine hR.moves_bind (hR.moves_popCells n) fun _ => ?_
  exact hR.moves_bind (hR.moves_jump 0) fun _ => hR.moves_setDepth fun _ => before

mutual

/-- Lowering a statement stays in every relation that allows for it. -/
theorem lower_moves {Γ : LoweringContext} {R : Frame → Frame → Prop}
    (hR : Lower.Branching Γ.symbols R) : ∀ s : Stmt, s.NonVoid → Lower.Stays R (s.lower Γ)
  | .block body, hs => by
      rw [lower]
      rw [Stmt.NonVoid] at hs
      exact hR.moves_inScope (lowerAll_moves hR body hs)
  | .var decl, hs => by
      rw [lower]
      rw [Stmt.NonVoid] at hs
      exact lowerVar_moves hR.toGrowth hs
  | .assign name e span, _ => by
      rw [lower]
      exact lowerAssign_moves hR.toGrowth name e span
  | .expr e, _ => by
      rw [lower]
      exact lowerExpr_moves hR.toGrowth e
  | .ifThen cond body, hs => by
      rw [lower]
      rw [Stmt.NonVoid] at hs
      refine hR.moves_bind (lowerCondition_moves hR.toGrowth cond) fun _ => ?_
      refine hR.moves_bind hR.moves_newLabel fun otherwise => ?_
      refine hR.moves_bind (hR.moves_jumpIfZero otherwise) fun _ => ?_
      refine hR.moves_bind (hR.moves_inScope (hR.moves_settle (lower_moves hR body hs))) fun _ => ?_
      exact hR.moves_bindLabel otherwise
  | .ifElse cond body other, hs => by
      rw [lower]
      rw [Stmt.NonVoid] at hs
      refine hR.moves_bind (lowerCondition_moves hR.toGrowth cond) fun _ => ?_
      refine hR.moves_bind hR.moves_newLabel fun otherwise => ?_
      refine hR.moves_bind (hR.moves_jumpIfZero otherwise) fun _ => ?_
      refine hR.moves_bind (hR.moves_inScope (hR.moves_settle (lower_moves hR body hs.1)))
        fun _ => ?_
      refine hR.moves_bind hR.moves_newLabel fun finish => ?_
      refine hR.moves_bind (hR.moves_jump finish) fun _ => ?_
      refine hR.moves_bind (hR.moves_bindLabel otherwise) fun _ => ?_
      refine hR.moves_bind (hR.moves_inScope (hR.moves_settle (lower_moves hR other hs.2)))
        fun _ => ?_
      exact hR.moves_bindLabel finish
  | .loop cond body, hs => by
      rw [lower]
      rw [Stmt.NonVoid] at hs
      refine hR.moves_bind hR.moves_newLabel fun top => ?_
      refine hR.moves_bind hR.moves_newLabel fun finish => ?_
      refine hR.moves_bind (hR.moves_bindLabel top) fun _ => ?_
      refine hR.moves_bind (lowerCondition_moves hR.toGrowth cond) fun _ => ?_
      refine hR.moves_bind (hR.moves_jumpIfZero finish) fun _ => ?_
      refine hR.moves_bind (hR.moves_inScope (hR.moves_settle (lower_moves hR body hs))) fun _ => ?_
      refine hR.moves_bind (hR.moves_jump top) fun _ => ?_
      exact hR.moves_bindLabel finish
  | .ret value span, _ => by
      rw [lower]
      exact lowerReturn_moves hR value span

theorem lowerAll_moves {Γ : LoweringContext} {R : Frame → Frame → Prop}
    (hR : Lower.Branching Γ.symbols R) :
    ∀ ss : List Stmt, Stmt.AllNonVoid ss → Lower.Stays R (lowerAll Γ ss)
  | [], _ => by
      rw [lowerAll]
      exact hR.moves_pure ()
  | s :: rest, hs => by
      rw [lowerAll]
      rw [Stmt.AllNonVoid] at hs
      refine hR.moves_bind (hR.moves_settle (lower_moves hR s hs.1)) fun _ => ?_
      exact lowerAll_moves hR rest hs.2

end

end Stmt

/-! ## Diagnostics -/

/-- Whatever had no diagnostics in the end had none before. -/
def Frame.CleanBefore (f g : Frame) : Prop := g.diagnostics = [] → f.diagnostics = []

theorem Frame.branching_cleanBefore (symbols : Symbols) :
    Lower.Branching symbols Frame.CleanBefore where
  refl _ h := h
  trans h₁ h₂ h := h₁ (h₂ h)
  emitted _ _ _ _ h := h
  labelled _ h := h
  bound _ _ h := h
  jump _ _ h := h
  jumpIfZero _ _ h := h
  moved _ _ _ _ h := h
  failed f d _ _ h := by simp at h

/-- Lowering takes no diagnostic back. -/
theorem Lower.clean_of_moves {p : Lower Unit} (hp : Lower.Stays Frame.CleanBefore p) {f g : Frame}
    (h : p f = .ok () g) (hg : g.diagnostics = []) : f.diagnostics = [] :=
  (hp f).1 () g h hg

/-- All diagnostics of a frame are errors. -/
def Frame.ErrorsOnly (f : Frame) : Prop := ∀ d ∈ f.diagnostics, d.isError = true

/-- If there were only errors before, there are only errors afterwards. -/
def Frame.KeepsErrors (f g : Frame) : Prop := f.ErrorsOnly → g.ErrorsOnly

theorem Frame.branching_keepsErrors (symbols : Symbols) :
    Lower.Branching symbols Frame.KeepsErrors where
  refl _ h := h
  trans h₁ h₂ h := h₂ (h₁ h)
  emitted _ _ _ _ h := h
  labelled _ h := h
  bound _ _ h := h
  jump _ _ h := h
  jumpIfZero _ _ h := h
  moved _ _ _ _ h := h
  failed _ _ _ hd h := List.forall_mem_append.mpr ⟨h, List.forall_mem_singleton.mpr hd⟩

end Nss
