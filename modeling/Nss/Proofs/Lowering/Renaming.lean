/-
# Lowering with other numbers

The number of a function is its place in the symbol table, and lowering does nothing with it but write
it into the calls of the function.  So against a table in which the functions have other numbers, the
same instructions come out, with these numbers in the calls.  Nothing is asked of functions that are
not called: a table may have more or fewer of them.

    table                 `Symbols.Renumbered`, a renumbering for the names of some functions
    instruction, frame    `renumbered`, the numbers in calls replaced
    step                  `Lower.Renumbers`, which goes along with the renumbering of frames
-/
import Nss.Proofs.Lowering.Signatures

/-! ## Values that are there on both sides or on none -/

namespace Option.Rel

variable {α β : Type} {R S : α → β → Prop} {x : Option α} {y : Option β} {a : α} {b : β}

theorem imp (h : Option.Rel R x y) (hRS : ∀ a b, R a b → S a b) : Option.Rel S x y := by
  cases h with
  | none => exact .none
  | some hab => exact .some (hRS _ _ hab)

theorem exists_right (h : Option.Rel R (Option.some a) y) : ∃ b, y = Option.some b ∧ R a b := by
  cases h with
  | some hab => exact ⟨_, rfl, hab⟩

theorem exists_left (h : Option.Rel R x (Option.some b)) : ∃ a, x = Option.some a ∧ R a b := by
  cases h with
  | some hab => exact ⟨_, rfl, hab⟩

theorem isSome_eq (h : Option.Rel R x y) : y.isSome = x.isSome := by
  cases h with
  | none => rfl
  | some _ => rfl

theorem eq_none (h : Option.Rel R Option.none y) : y = Option.none := by
  cases h with
  | none => rfl

end Option.Rel

namespace Nss

open Steps

/-! ## Functions that are called -/

mutual

/-- The names of the functions that an expression calls. -/
def Expr.callees : Expr → List String
  | .int _ _ | .float _ _ | .string _ _ | .object _ _ | .ident _ _ => []
  | .call name args _ => name :: Expr.allCallees args
  | .unary _ x _ => x.callees
  | .binary _ l r _ => l.callees ++ r.callees

/-- The names of the functions that some expressions call. -/
def Expr.allCallees : List Expr → List String
  | [] => []
  | e :: rest => e.callees ++ Expr.allCallees rest

end

/-- The names of the functions that the first value of a variable calls. -/
def VarDecl.callees (decl : VarDecl) : List String := (decl.init.map Expr.callees).getD []

mutual

/-- The names of the functions that a statement calls. -/
def Stmt.callees : Stmt → List String
  | .block body => Stmt.allCallees body
  | .var decl => decl.callees
  | .assign _ value _ | .expr value => value.callees
  | .ifThen cond body | .loop cond body => cond.callees ++ body.callees
  | .ifElse cond body other => cond.callees ++ (body.callees ++ other.callees)
  | .ret value _ => (value.map Expr.callees).getD []

/-- The names of the functions that some statements call. -/
def Stmt.allCallees : List Stmt → List String
  | [] => []
  | t :: rest => t.callees ++ Stmt.allCallees rest

end

/-- The names of the functions that a function calls. -/
def FunctionDecl.callees (decl : FunctionDecl) : List String :=
  (decl.body.map Stmt.allCallees).getD []

/-- The names of the functions that a declaration calls. -/
def Declaration.callees : Declaration → List String
  | .global decl => decl.callees
  | .function decl => decl.callees

/-! ## Other numbers -/

/-- An operand with another number for the function that it stands for. -/
def Operand.renumbered (ρ : Nat → Nat) : Operand → Operand
  | .call f => .call (ρ f)
  | x => x

/-- An instruction with another number for the function that it calls. -/
def Instruction.renumbered (ρ : Nat → Nat) (i : Instruction) : Instruction :=
  { i with operand := i.operand.renumbered ρ }

/-- A frame whose calls have other numbers. -/
def Frame.renumbered (ρ : Nat → Nat) (f : Frame) : Frame :=
  { f with code := f.code.map (Instruction.renumbered ρ) }

/-- What a function is lowered to, with other numbers in the calls. -/
def Lowering.renumbered (ρ : Nat → Nat) (l : Lowering) : Lowering :=
  { l with code := l.code.map (Instruction.renumbered ρ) }

/-- Two functions are called in the same way, the second one by another number. -/
structure FunctionSymbol.CalledAs (ρ : Nat → Nat) (f g : FunctionSymbol) : Prop where
  id : g.id = ρ f.id
  result : g.result = f.result
  params : g.params = f.params

/-- The functions with some names have other numbers in the second table, or are in none of the
tables, and the global variables are the same. -/
structure Symbols.Renumbered (ρ : Nat → Nat) (C : String → Prop) (s t : Symbols) : Prop where
  lookup : ∀ name, C name →
    Option.Rel (FunctionSymbol.CalledAs ρ) (s.lookup? name) (t.lookup? name)
  globals : t.globals.map GlobalSymbol.entry = s.globals.map GlobalSymbol.entry

/-! ## Steps -/

namespace Lower

variable {α β : Type} {ρ : Nat → Nat}

/-- What a step gives, with other numbers in the calls. -/
def renumberedResult (ρ : Nat → Nat) :
    EStateM.Result Diagnostic Frame α → EStateM.Result Diagnostic Frame α
  | .ok a f => .ok a (f.renumbered ρ)
  | .error d f => .error d (f.renumbered ρ)

/-- The second of two steps does the same as the first one, with other numbers in the calls. -/
def Renumbers (ρ : Nat → Nat) (p q : Lower α) : Prop :=
  ∀ f : Frame, q (f.renumbered ρ) = renumberedResult ρ (p f)

namespace Renumbers

theorem pure (a : α) : Renumbers ρ (Pure.pure a : Lower α) (Pure.pure a) := fun _ => rfl

theorem fail (problem : Problem) (span : Span) :
    Renumbers ρ (Lower.fail problem span : Lower α) (Lower.fail problem span) := fun _ => rfl

theorem bind {p q : Lower α} {k l : α → Lower β} (hp : Renumbers ρ p q)
    (hk : ∀ a, Renumbers ρ (k a) (l a)) : Renumbers ρ (p >>= k) (q >>= l) := by
  intro f
  rw [bind_apply, bind_apply, hp f]
  cases p f with
  | ok a g => exact hk a g
  | error d g => rfl

/-- What is done with a frame is the same if its code does not matter. -/
theorem read {k l : Frame → Lower β} (hk : ∀ f, Renumbers ρ (k f) (l (f.renumbered ρ))) :
    Renumbers ρ (MonadState.get >>= k) (MonadState.get >>= l) :=
  fun f => hk f f

theorem settle {p q : Lower Unit} (hp : Renumbers ρ p q) :
    Renumbers ρ (Lower.settle p) (Lower.settle q) := by
  intro f
  rw [Lower.settle, Lower.settle, hp f]
  cases p f with
  | ok a g => rfl
  | error d g => rfl

/-! ### Steps that look at no table -/

theorem emit (i : Instruction) : Renumbers ρ (Lower.emit i) (Lower.emit (i.renumbered ρ)) := by
  intro f
  simp [emit_apply, renumberedResult, Frame.renumbered, Frame.emitted]

theorem emitPush (i : Instruction) :
    Renumbers ρ (Lower.emitPush i) (Lower.emitPush (i.renumbered ρ)) := by
  intro f
  simp [emitPush_apply, renumberedResult, Frame.renumbered, Frame.emitted]

theorem emitTake (n : Nat) (i : Instruction) :
    Renumbers ρ (Lower.emitTake n i) (Lower.emitTake n (i.renumbered ρ)) := by
  intro f
  simp [emitTake_apply, renumberedResult, Frame.renumbered, Frame.emitted]

theorem popCells (n : Nat) : Renumbers ρ (Lower.popCells n) (Lower.popCells n) := by
  rw [Lower.popCells]
  split
  · exact emitTake n _
  · exact pure ()

theorem depth : Renumbers ρ Lower.depth Lower.depth := fun _ => rfl

theorem fromTop (position : Int) : Renumbers ρ (Lower.fromTop position) (Lower.fromTop position) :=
  fun _ => rfl

theorem newLabel : Renumbers ρ Lower.newLabel Lower.newLabel := fun _ => rfl

theorem bindLabel (label : Nat) : Renumbers ρ (Lower.bindLabel label) (Lower.bindLabel label) := by
  intro f
  simp [Lower.bindLabel, modify_apply, renumberedResult, Frame.renumbered]

theorem declare (name : String) (type : ValueType) :
    Renumbers ρ (Lower.declare name type) (Lower.declare name type) := fun _ => rfl

theorem expectType (wanted found : ValueType) (span : Span) :
    Renumbers ρ (Lower.expectType wanted found span) (Lower.expectType wanted found span) := by
  rw [Lower.expectType]
  split
  · exact pure ()
  · exact fail _ span

theorem closeScope : Renumbers ρ Lower.closeScope Lower.closeScope :=
  read fun f => bind (fun _ => rfl) fun _ => popCells f.scope.length

theorem inScope {p q : Lower Unit} (hp : Renumbers ρ p q) :
    Renumbers ρ (Stmt.inScope p) (Stmt.inScope q) :=
  bind (fun _ => rfl) fun _ => bind hp fun _ => closeScope

end Renumbers

/-! ## Looking at the table -/

variable {Γ : LoweringContext} {C : String → Prop} {t : Symbols}
  (h : Γ.symbols.Renumbered ρ C t)

include h

theorem resolve_renumbers (name : String) (span : Span) :
    Renumbers ρ (resolve Γ name span) (resolve { Γ with symbols := t } name span) := by
  refine .read fun f => ?_
  have hplace := resolve?_congr (f := f) (g := f.renumbered ρ) h.globals rfl rfl name
  rw [hplace]
  cases resolve? Γ f name with
  | some place => exact .pure place
  | none => exact .fail _ span

/-- A call finds the function with its other number. -/
theorem callee_renumbers {name : String} (hname : C name) {given : Nat} {span : Span}
    {k l : FunctionSymbol → Lower β} (hk : ∀ f g, f.CalledAs ρ g → Renumbers ρ (k f) (l g)) :
    Renumbers ρ (Expr.callee Γ name given span >>= k)
      (Expr.callee { Γ with symbols := t } name given span >>= l) := by
  have hlookup := h.lookup name hname
  rw [Expr.callee, Expr.callee]
  generalize Γ.symbols.lookup? name = found at hlookup
  dsimp only
  generalize t.lookup? name = found' at hlookup
  cases hlookup with
  | none => exact fun _ => rfl
  | @some f g hcall =>
      dsimp only
      rw [hcall.params]
      split
      · exact hk f g hcall
      · exact fun _ => rfl

end Lower

open Lower

/-! ## Expressions -/

namespace Expr

variable {ρ : Nat → Nat} {C : String → Prop} {t : Symbols} {Γ : LoweringContext}

theorem lowerConst_renumbers (type : ValueType) {x : Operand} (hx : x.renumbered ρ = x) :
    Renumbers ρ (lowerConst type x) (lowerConst type x) := by
  refine .bind ?_ fun _ => .pure type
  have hpush := Renumbers.emitPush (ρ := ρ) ⟨.const type, x⟩
  rwa [Instruction.renumbered, hx] at hpush

theorem lowerIdent_renumbers (h : Γ.symbols.Renumbered ρ C t) (name : String) (span : Span) :
    Renumbers ρ (lowerIdent Γ name span) (lowerIdent { Γ with symbols := t } name span) := by
  refine .bind (resolve_renumbers h name span) fun place => ?_
  cases place with
  | stack position type =>
      refine .bind (.fromTop position) fun n => ?_
      exact .bind (.emitPush _) fun _ => .pure _
  | global slot type => exact .bind (.emitPush _) fun _ => .pure _

mutual

/-- An expression is lowered to the same, with other numbers in the calls. -/
theorem lower_renumbers (h : Γ.symbols.Renumbered ρ C t) :
    ∀ e : Expr, (∀ name ∈ e.callees, C name) →
      Renumbers ρ (e.lower Γ) (e.lower { Γ with symbols := t })
  | .int v span, _ => by
      rw [lower, lower]
      exact lowerConst_renumbers _ rfl
  | .float v span, _ => by
      rw [lower, lower]
      exact lowerConst_renumbers _ rfl
  | .string v span, _ => by
      rw [lower, lower]
      split
      · exact .fail _ span
      · exact lowerConst_renumbers _ rfl
  | .object v span, _ => by
      rw [lower, lower]
      exact lowerConst_renumbers _ rfl
  | .ident name span, _ => by
      rw [lower, lower]
      exact lowerIdent_renumbers h name span
  | .call name args span, hC => by
      rw [callees] at hC
      obtain ⟨hname, hargs⟩ := List.forall_mem_cons.mp hC
      rw [lower, lower]
      refine callee_renumbers h hname fun f g hcall => ?_
      have hrest : Renumbers ρ
          (do lowerArgs Γ args f.params; emitTake args.length (.callTo f.id); return f.result)
          (do lowerArgs { Γ with symbols := t } args f.params
              emitTake args.length (.callTo (ρ f.id))
              return f.result) := by
        refine .bind (lowerArgs_renumbers h args f.params hargs) fun _ => ?_
        exact .bind (.emitTake _ _) fun _ => .pure _
      rw [hcall.id, hcall.result, hcall.params]
      cases f.result.isVoid with
      | true => exact hrest
      | false => exact .bind (.emitPush _) fun _ => hrest
  | .unary op x span, hC => by
      rw [callees] at hC
      rw [lower, lower]
      refine .bind (lower_renumbers h x hC) fun type => ?_
      cases op.operation? type with
      | none => exact .fail _ span
      | some o => exact .bind (.emit _) fun _ => .pure type
  | .binary op l r span, hC => by
      rw [callees] at hC
      obtain ⟨hl, hr⟩ := List.forall_mem_append.mp hC
      rw [lower, lower]
      refine .bind (lower_renumbers h l hl) fun tl => .bind (lower_renumbers h r hr) fun tr => ?_
      cases op.operation? tl tr with
      | none => exact .fail _ span
      | some ot => exact .bind (.emitTake _ _) fun _ => .pure ot.2

theorem lowerArgs_renumbers (h : Γ.symbols.Renumbered ρ C t) :
    ∀ (args : List Expr) (types : List ValueType), (∀ name ∈ allCallees args, C name) →
      Renumbers ρ (lowerArgs Γ args types) (lowerArgs { Γ with symbols := t } args types)
  | [], types, _ => by
      rw [lowerArgs, lowerArgs]
      · exact .pure ()
      · intro arg args type types h
        cases h
      · intro arg args type types h
        cases h
  | arg :: args, [], _ => by
      rw [lowerArgs, lowerArgs]
      · exact .pure ()
      · intro arg args type types _ h
        cases h
      · intro arg args type types _ h
        cases h
  | arg :: args, type :: types, hC => by
      rw [allCallees] at hC
      obtain ⟨harg, hargs⟩ := List.forall_mem_append.mp hC
      rw [lowerArgs, lowerArgs]
      refine .bind (lowerArgs_renumbers h args types hargs) fun _ => ?_
      exact .bind (lower_renumbers h arg harg) fun found => .expectType type found arg.span

end

end Expr

/-! ## Statements -/

namespace Stmt

variable {ρ : Nat → Nat} {C : String → Prop} {t : Symbols} {Γ : LoweringContext}

theorem lowerVar_renumbers (h : Γ.symbols.Renumbered ρ C t) {decl : VarDecl}
    (hC : ∀ name ∈ decl.callees, C name) :
    Renumbers ρ (lowerVar Γ decl) (lowerVar { Γ with symbols := t } decl) := by
  refine .read fun f => ?_
  have hscope : (f.renumbered ρ).scope = f.scope := rfl
  rw [hscope]
  split
  · exact .fail _ decl.span
  · refine .bind (.declare _ _) fun _ => .bind (.emitPush _) fun _ => ?_
    rw [VarDecl.callees] at hC
    cases hinit : decl.init with
    | none => exact .pure ()
    | some e =>
        rw [hinit] at hC
        refine .bind (Expr.lower_renumbers h e hC) fun found => ?_
        refine .bind (.expectType _ found e.span) fun _ => ?_
        exact .bind (.emit _) fun _ => .popCells 1

theorem lowerAssign_renumbers (h : Γ.symbols.Renumbered ρ C t) (name : String) {e : Expr}
    (hC : ∀ name ∈ e.callees, C name) (span : Span) :
    Renumbers ρ (lowerAssign Γ name e span) (lowerAssign { Γ with symbols := t } name e span) := by
  refine .bind (resolve_renumbers h name span) fun place => ?_
  refine .bind (Expr.lower_renumbers h e hC) fun found => ?_
  refine .bind (.expectType _ found e.span) fun _ => ?_
  cases place with
  | stack position type =>
      exact .bind (.fromTop position) fun n => .bind (.emit _) fun _ => .popCells 1
  | global slot type => exact .bind (.emit _) fun _ => .popCells 1

theorem lowerExpr_renumbers (h : Γ.symbols.Renumbered ρ C t) {e : Expr}
    (hC : ∀ name ∈ e.callees, C name) :
    Renumbers ρ (lowerExpr Γ e) (lowerExpr { Γ with symbols := t } e) := by
  refine .bind (Expr.lower_renumbers h e hC) fun type => ?_
  cases type.isVoid with
  | true => exact .pure ()
  | false => exact .popCells 1

theorem lowerCondition_renumbers (h : Γ.symbols.Renumbered ρ C t) {e : Expr}
    (hC : ∀ name ∈ e.callees, C name) :
    Renumbers ρ (lowerCondition Γ e) (lowerCondition { Γ with symbols := t } e) := by
  refine .bind (Expr.lower_renumbers h e hC) fun type => ?_
  split
  · exact .fail _ e.span
  · exact .pure ()

theorem lowerResult_renumbers (h : Γ.symbols.Renumbered ρ C t) {value : Option Expr}
    (hC : ∀ name ∈ (value.map Expr.callees).getD [], C name) (span : Span) :
    Renumbers ρ (lowerResult Γ value span) (lowerResult { Γ with symbols := t } value span) := by
  simp only [lowerResult]
  split
  · next e _ =>
      refine .bind (Expr.lower_renumbers h e hC) fun found => ?_
      refine .bind (.expectType _ found e.span) fun _ => ?_
      exact .bind (.fromTop _) fun n => .emit _
  · exact .pure ()
  · exact .fail _ _
  · exact .fail _ span

theorem lowerReturn_renumbers (h : Γ.symbols.Renumbered ρ C t) {value : Option Expr}
    (hC : ∀ name ∈ (value.map Expr.callees).getD [], C name) (span : Span) :
    Renumbers ρ (lowerReturn Γ value span) (lowerReturn { Γ with symbols := t } value span) := by
  refine .bind .depth fun before => .bind (lowerResult_renumbers h hC span) fun _ => ?_
  refine .bind .depth fun n => .bind (.popCells n) fun _ => .bind (.emit _) fun _ => ?_
  exact fun _ => rfl

mutual

/-- A statement is lowered to the same, with other numbers in the calls. -/
theorem lower_renumbers (h : Γ.symbols.Renumbered ρ C t) :
    ∀ x : Stmt, (∀ name ∈ x.callees, C name) →
      Renumbers ρ (x.lower Γ) (x.lower { Γ with symbols := t })
  | .block body, hC => by
      rw [callees] at hC
      rw [lower, lower]
      exact .inScope (lowerAll_renumbers h body hC)
  | .var decl, hC => by
      rw [callees] at hC
      rw [lower, lower]
      exact lowerVar_renumbers h hC
  | .assign name e span, hC => by
      rw [callees] at hC
      rw [lower, lower]
      exact lowerAssign_renumbers h name hC span
  | .expr e, hC => by
      rw [callees] at hC
      rw [lower, lower]
      exact lowerExpr_renumbers h hC
  | .ifThen cond body, hC => by
      rw [callees] at hC
      obtain ⟨hcond, hbody⟩ := List.forall_mem_append.mp hC
      rw [lower, lower]
      refine .bind (lowerCondition_renumbers h hcond) fun _ => .bind .newLabel fun otherwise => ?_
      refine .bind (.emitTake _ _) fun _ => ?_
      exact .bind (.inScope (.settle (lower_renumbers h body hbody))) fun _ => .bindLabel otherwise
  | .ifElse cond body other, hC => by
      rw [callees] at hC
      obtain ⟨hcond, hrest⟩ := List.forall_mem_append.mp hC
      obtain ⟨hbody, hother⟩ := List.forall_mem_append.mp hrest
      rw [lower, lower]
      refine .bind (lowerCondition_renumbers h hcond) fun _ => .bind .newLabel fun otherwise => ?_
      refine .bind (.emitTake _ _) fun _ => ?_
      refine .bind (.inScope (.settle (lower_renumbers h body hbody))) fun _ => ?_
      refine .bind .newLabel fun finish => .bind (.emit _) fun _ => ?_
      refine .bind (.bindLabel otherwise) fun _ => ?_
      exact .bind (.inScope (.settle (lower_renumbers h other hother))) fun _ => .bindLabel finish
  | .loop cond body, hC => by
      rw [callees] at hC
      obtain ⟨hcond, hbody⟩ := List.forall_mem_append.mp hC
      rw [lower, lower]
      refine .bind .newLabel fun top => .bind .newLabel fun finish => ?_
      refine .bind (.bindLabel top) fun _ => .bind (lowerCondition_renumbers h hcond) fun _ => ?_
      refine .bind (.emitTake _ _) fun _ => ?_
      refine .bind (.inScope (.settle (lower_renumbers h body hbody))) fun _ => ?_
      exact .bind (.emit _) fun _ => .bindLabel finish
  | .ret value span, hC => by
      rw [callees] at hC
      rw [lower, lower]
      exact lowerReturn_renumbers h hC span

theorem lowerAll_renumbers (h : Γ.symbols.Renumbered ρ C t) :
    ∀ xs : List Stmt, (∀ name ∈ allCallees xs, C name) →
      Renumbers ρ (lowerAll Γ xs) (lowerAll { Γ with symbols := t } xs)
  | [], _ => by
      rw [lowerAll, lowerAll]
      exact .pure ()
  | x :: rest, hC => by
      rw [allCallees] at hC
      obtain ⟨hx, hrest⟩ := List.forall_mem_append.mp hC
      rw [lowerAll, lowerAll]
      exact .bind (.settle (lower_renumbers h x hx)) fun _ => lowerAll_renumbers h rest hrest

end

end Stmt

/-! ## Functions and global variables -/

theorem Lower.Renumbers.after {ρ : Nat → Nat} {p q : Lower Unit} (h : Renumbers ρ p q) {f : Frame}
    (hf : f.code = #[]) : f.after q = (f.after p).renumbered ρ := by
  have hsame : f.renumbered ρ = f := by
    rw [Frame.renumbered, hf, Array.map_empty, ← hf]
  have hrun := h f
  rw [hsame] at hrun
  rw [Frame.after, Frame.after, hrun]
  cases p f with
  | ok a g => rfl
  | error d g => rfl

namespace Lowering

variable {ρ : Nat → Nat} {C : String → Prop} {s t : Symbols}

/-- A function is lowered to the same, with other numbers in the calls. -/
theorem ofFunction_renumbered (h : s.Renumbered ρ C t) {decl : FunctionDecl}
    (hC : ∀ name ∈ decl.callees, C name) :
    ofFunction decl t = (ofFunction decl s).renumbered ρ := by
  let Γ := LoweringContext.ofFunction s decl
  have hend (finish : Nat) : Renumbers ρ
      (do bindLabel finish
          if 0 < Γ.params.length then emit (.pop Γ.params.length)
          emit .ending)
      (do bindLabel finish
          if 0 < Γ.params.length then emit (.pop Γ.params.length)
          emit .ending) := by
    refine .bind (.bindLabel finish) fun _ => ?_
    split
    · exact .bind (.emit _) fun _ => .emit _
    · exact .emit _
  have hbody : Renumbers ρ (functionBody Γ decl) (functionBody { Γ with symbols := t } decl) := by
    refine .bind .newLabel fun finish => ?_
    rw [FunctionDecl.callees] at hC
    cases hdecl : decl.body with
    | none => exact hend finish
    | some body =>
        rw [hdecl] at hC
        exact .bind (.inScope (Stmt.lowerAll_renumbers (Γ := Γ) h body hC)) fun _ => hend finish
  exact congrArg ofFrame (hbody.after
    (f := { Frame.start with diagnostics := duplicateParams decl.span [] decl.params }) rfl)

/-! ### Global variables -/

theorem assumeGlobals_renumbers : ∀ gs : List GlobalSymbol,
    Renumbers ρ (assumeGlobals gs) (assumeGlobals gs)
  | [] => .pure ()
  | g :: rest => by
      refine .bind (.declare _ _) fun _ => .bind (fun _ => rfl) fun _ => ?_
      exact assumeGlobals_renumbers rest

theorem loadGlobals_renumbers {Γ : LoweringContext} (h : Γ.symbols.Renumbered ρ C t) :
    ∀ {gs gs' : List GlobalSymbol}, gs'.map GlobalSymbol.entry = gs.map GlobalSymbol.entry →
      (∀ g ∈ gs, ∀ name ∈ g.decl.callees, C name) →
      Renumbers ρ (loadGlobals Γ gs) (loadGlobals { Γ with symbols := t } gs')
  | [], [], _, _ => .pure ()
  | g :: gs, g' :: gs', hentry, hC => by
      obtain ⟨hg, hgs⟩ := List.cons.inj hentry
      obtain ⟨hfirst, hrest⟩ := List.forall_mem_cons.mp hC
      have hdecl : g'.decl = g.decl := congrArg Prod.snd hg
      have hvar : ∀ name ∈ (Stmt.var g.decl).callees, C name := by
        rwa [Stmt.callees]
      rw [loadGlobals, loadGlobals, hdecl]
      exact .bind (.settle (Stmt.lower_renumbers h _ hvar)) fun _ => loadGlobals_renumbers h hgs hrest

/-- The first value of a global variable is checked in the same way. -/
theorem checkGlobal_renumbered (h : s.Renumbered ρ C t) (slot : Nat)
    (hC : ∀ g ∈ s.globals, ∀ name ∈ g.decl.callees, C name) :
    checkGlobal slot t = checkGlobal slot s := by
  have hslot : (t.globals[slot]?).map GlobalSymbol.entry
      = (s.globals[slot]?).map GlobalSymbol.entry := by
    rw [← List.getElem?_map, h.globals, List.getElem?_map]
  have htake : (t.globals.take slot).map GlobalSymbol.entry
      = (s.globals.take slot).map GlobalSymbol.entry := by
    rw [List.map_take, h.globals, List.map_take]
  rw [checkGlobal, checkGlobal, assumeGlobals_congr htake]
  cases hg : s.globals[slot]? with
  | none =>
      rw [hg] at hslot
      rw [Option.map_eq_none_iff.mp hslot]
  | some g =>
      rw [hg] at hslot
      obtain ⟨g', hg', heq⟩ := Option.map_eq_some_iff.mp hslot
      have hdecl : g'.decl = g.decl := congrArg Prod.snd heq
      rw [hg']
      dsimp only
      rw [hdecl]
      have hvar : ∀ name ∈ (Stmt.var g.decl).callees, C name := by
        rw [Stmt.callees]
        exact hC g (List.mem_of_getElem? hg)
      have hlower : Renumbers ρ (settle (Stmt.lower (.ofLoader s .void) (.var g.decl)))
          (settle (Stmt.lower (.ofLoader t .void) (.var g.decl))) :=
        .settle (Stmt.lower_renumbers (Γ := .ofLoader s .void) h _ hvar)
      have hcheck := Renumbers.bind (assumeGlobals_renumbers (s.globals.take slot)) fun _ => hlower
      have hsame := hcheck.after (f := Frame.start) rfl
      exact (congrArg Frame.diagnostics hsame :)

theorem callEntry_renumbers {Γ Γ' : LoweringContext} (hΓ : Γ'.resultPosition = Γ.resultPosition)
    {f g : FunctionSymbol} (hcall : f.CalledAs ρ g) :
    Renumbers ρ (callEntry Γ f) (callEntry Γ' g) := by
  rw [callEntry, callEntry, hcall.id, hcall.result, hΓ]
  split
  · exact .emit _
  · refine .bind (.emitPush _) fun _ => .bind (.emit _) fun _ => .bind (.fromTop _) fun n => ?_
    exact .bind (.emit _) fun _ => .popCells 1

/-- The loader of the global variables is the same, with other numbers in the calls. -/
theorem ofGlobals_renumbered (h : s.Renumbered ρ C t)
    (hC : ∀ g ∈ s.globals, ∀ name ∈ g.decl.callees, C name) {entry entry' : Option FunctionSymbol}
    (hentry : Option.Rel (FunctionSymbol.CalledAs ρ) entry entry') :
    ofGlobals t entry' = (ofGlobals s entry).renumbered ρ := by
  have hbody : ∀ result, Renumbers ρ (loaderBody (.ofLoader s result) entry)
      (loaderBody (.ofLoader t result) entry') := by
    intro result
    have hlength : t.globals.length = s.globals.length := by
      simpa using congrArg List.length h.globals
    have hend : Renumbers ρ
        (do emitTake 1 (.simple .restoreBp)
            if 0 < s.globals.length then emit (.pop s.globals.length)
            emit .ending)
        (do emitTake 1 (.simple .restoreBp)
            if 0 < t.globals.length then emit (.pop t.globals.length)
            emit .ending) := by
      rw [hlength]
      refine .bind (.emitTake 1 _) fun _ => ?_
      split
      · exact .bind (.emit _) fun _ => .emit _
      · exact .emit _
    refine .bind (loadGlobals_renumbers (Γ := .ofLoader s result) h h.globals hC) fun _ => ?_
    refine .bind (.emitPush _) fun _ => ?_
    cases hentry with
    | none => exact hend
    | some hcall => exact .bind (callEntry_renumbers rfl hcall) fun _ => hend
  have hafter : ∀ result, ofFrame (Frame.start.after (loaderBody (.ofLoader t result) entry'))
      = (ofFrame (Frame.start.after (loaderBody (.ofLoader s result) entry))).renumbered ρ :=
    fun result => congrArg ofFrame ((hbody result).after (f := Frame.start) rfl)
  cases hentry with
  | none => exact hafter .void
  | @some f g hcall =>
      have hresult : ofGlobals t (some g)
          = ofFrame (Frame.start.after (loaderBody (.ofLoader t f.result) (some g))) := by
        rw [← hcall.result]
        rfl
      rw [hresult]
      exact hafter f.result

end Lowering

end Nss
