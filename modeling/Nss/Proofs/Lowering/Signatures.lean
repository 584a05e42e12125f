/-
# Lowering against two symbol tables

Lowering looks at a symbol table for the global variables and for the number, the result and the
parameters of the functions that are called, and for nothing else.  So it does the same against a
table that knows more functions, unless one of these is called.  In that case the smaller table has
left a diagnostic for the call, which is never taken back.

`Follows` is this relation between a step against one table and the same step against another; the
induction over expressions and statements needs no more than that it is kept by sequences, by
scopes and by statements that fail.
-/
import Nss.Proofs.Lowering.Frame

namespace Nss

open Steps

/-! ## Tables with the same signatures -/

/-- What matters of a global variable: its number and its declaration. -/
def GlobalSymbol.entry (g : GlobalSymbol) : Nat × VarDecl := (g.slot, g.decl)

/-- Two functions are called in the same way. -/
structure FunctionSymbol.SameCall (f g : FunctionSymbol) : Prop where
  id : g.id = f.id
  result : g.result = f.result
  params : g.params = f.params

namespace Symbols

variable {s s' : Symbols}

/-- A table knows all functions of another one, and the same global variables. -/
structure Within (s s' : Symbols) : Prop where
  lookup : ∀ {name f}, s.lookup? name = some f → ∃ g, s'.lookup? name = some g ∧ f.SameCall g
  globals : s'.globals.map GlobalSymbol.entry = s.globals.map GlobalSymbol.entry

/-- A diagnostic is about a function that only the second table knows. -/
def Misses (s s' : Symbols) (d : Diagnostic) : Prop :=
  ∃ name span g, d = .error (.undeclaredFunction name) span ∧ s.lookup? name = none ∧
    s'.lookup? name = some g

/-- A global variable lies in the same place, whichever of two tables with the same ones it is looked
up in. -/
theorem entry_lookupGlobal? (h : s'.globals.map GlobalSymbol.entry = s.globals.map GlobalSymbol.entry)
    (name : String) :
    (s'.lookupGlobal? name).map GlobalSymbol.entry = (s.lookupGlobal? name).map GlobalSymbol.entry := by
  have hfind : ∀ t : Symbols, (t.lookupGlobal? name).map GlobalSymbol.entry
      = (t.globals.map GlobalSymbol.entry).find? fun e => e.2.name = name := by
    intro t
    rw [List.find?_map]
    rfl
  rw [hfind, hfind, h]

namespace Within

theorem length_globals (h : s.Within s') : s'.globals.length = s.globals.length := by
  simpa using congrArg List.length h.globals

/-- Nothing is missed by a table that knows all functions of the other one. -/
theorem not_misses (h : s'.Within s) (d : Diagnostic) : ¬ s.Misses s' d := by
  rintro ⟨name, span, g, -, hnone, hsome⟩
  obtain ⟨f, hf, -⟩ := h.lookup hsome
  rw [hnone] at hf
  cases hf

end Within

end Symbols

/-! ## Steps against two tables -/

/-- A diagnostic of a frame is about a function that only the second table knows. -/
def Frame.Misses (s s' : Symbols) (f : Frame) : Prop := ∃ d ∈ f.diagnostics, s.Misses s' d

namespace Lower

variable {α β : Type} {s s' : Symbols}

/-- A function that only the second table knows was called. -/
def ResultMisses (s s' : Symbols) : EStateM.Result Diagnostic Frame α → Prop
  | .ok _ f => f.Misses s s'
  | .error d f => s.Misses s' d ∨ f.Misses s s'

/-- The second of two steps does the same as the first one, unless that has called a function which
only the second table knows. -/
structure Follows (s s' : Symbols) (p q : Lower α) : Prop where
  keeps : ∀ f, f.Misses s s' → ResultMisses s s' (p f)
  same : ∀ f, q f = p f ∨ ResultMisses s s' (p f)

namespace Follows

theorem of_keeps {p : Lower α} (h : ∀ f, f.Misses s s' → ResultMisses s s' (p f)) :
    Follows s s' p p :=
  ⟨h, fun _ => .inl rfl⟩

/-- A step that leaves the diagnostics alone is the same against both tables. -/
theorem of_ok {p : Lower α} {a : Frame → α} {step : Frame → Frame}
    (hp : ∀ f, p f = .ok (a f) (step f)) (h : ∀ f, (step f).diagnostics = f.diagnostics) :
    Follows s s' p p := by
  refine of_keeps ?_
  intro f hf
  rw [hp]
  show (step f).Misses s s'
  rwa [Frame.Misses, h]

theorem pure (a : α) : Follows s s' (Pure.pure a : Lower α) (Pure.pure a) :=
  of_ok (pure_apply a) fun _ => rfl

theorem get : Follows s s' (MonadState.get : Lower Frame) MonadState.get :=
  of_ok get_apply fun _ => rfl

theorem fail (problem : Problem) (span : Span) :
    Follows s s' (Lower.fail problem span : Lower α) (Lower.fail problem span) :=
  of_keeps fun _ hf => .inr hf

theorem bind {p q : Lower α} {k l : α → Lower β} (hp : Follows s s' p q)
    (hk : ∀ a, Follows s s' (k a) (l a)) : Follows s s' (p >>= k) (q >>= l) := by
  -- a call that was missed by the first part is still missed in the end
  have hrest : ∀ f, ResultMisses s s' (p f) → ResultMisses s s' ((p >>= k) f) := by
    intro f hf
    rw [bind_apply]
    cases h : p f with
    | ok a g =>
        rw [h] at hf
        exact (hk a).keeps g hf
    | error d g =>
        rw [h] at hf
        exact hf
  refine ⟨fun f hf => hrest f (hp.keeps f hf), ?_⟩
  intro f
  rcases hp.same f with hsame | hmiss
  · rw [bind_apply, bind_apply, hsame]
    cases p f with
    | ok a g => exact (hk a).same g
    | error d g => exact .inl rfl
  · exact .inr (hrest f hmiss)

theorem settle {p q : Lower Unit} (hp : Follows s s' p q) :
    Follows s s' (Lower.settle p) (Lower.settle q) := by
  have hrest : ∀ f, ResultMisses s s' (p f) → ResultMisses s s' (Lower.settle p f) := by
    intro f hf
    rw [Lower.settle]
    cases h : p f with
    | ok a g =>
        rw [h] at hf
        exact hf
    | error d g =>
        rw [h] at hf
        rcases hf with hd | ⟨d', hd', hmiss⟩
        · exact ⟨d, List.mem_append_right _ List.mem_cons_self, hd⟩
        · exact ⟨d', List.mem_append_left _ hd', hmiss⟩
  refine ⟨fun f hf => hrest f (hp.keeps f hf), ?_⟩
  intro f
  rcases hp.same f with hsame | hmiss
  · left
    rw [Lower.settle, Lower.settle, hsame]
  · exact .inr (hrest f hmiss)

/-! ### Steps that look at no table -/

theorem emit (i : Instruction) : Follows s s' (Lower.emit i) (Lower.emit i) :=
  of_ok (emit_apply i) fun _ => rfl

theorem emitPush (i : Instruction) : Follows s s' (Lower.emitPush i) (Lower.emitPush i) :=
  of_ok (emitPush_apply i) fun _ => rfl

theorem emitTake (n : Nat) (i : Instruction) :
    Follows s s' (Lower.emitTake n i) (Lower.emitTake n i) :=
  of_ok (emitTake_apply n i) fun _ => rfl

theorem diagnostics_popped (f : Frame) (n : Nat) : (f.popped n).diagnostics = f.diagnostics := by
  rw [Frame.popped]
  split
  · rfl
  · rfl

theorem popCells (n : Nat) : Follows s s' (Lower.popCells n) (Lower.popCells n) :=
  of_ok (popCells_apply n) fun f => diagnostics_popped f n

theorem depth : Follows s s' Lower.depth Lower.depth := of_ok depth_apply fun _ => rfl

theorem fromTop (position : Int) : Follows s s' (Lower.fromTop position) (Lower.fromTop position) :=
  of_ok (fromTop_apply position) fun _ => rfl

theorem newLabel : Follows s s' Lower.newLabel Lower.newLabel := of_ok newLabel_apply fun _ => rfl

theorem bindLabel (label : Nat) : Follows s s' (Lower.bindLabel label) (Lower.bindLabel label) :=
  of_ok (bindLabel_apply label) fun _ => rfl

theorem declare (name : String) (type : ValueType) :
    Follows s s' (Lower.declare name type) (Lower.declare name type) :=
  of_ok (fun _ => rfl) fun _ => rfl

theorem expectType (wanted found : ValueType) (span : Span) :
    Follows s s' (Lower.expectType wanted found span) (Lower.expectType wanted found span) := by
  rw [Lower.expectType]
  split
  · exact pure ()
  · exact fail _ span

theorem inScope {p q : Lower Unit} (hp : Follows s s' p q) :
    Follows s s' (Stmt.inScope p) (Stmt.inScope q) := by
  refine bind (of_ok openScope_apply fun _ => rfl) fun _ => bind hp fun _ => ?_
  exact of_ok closeScope_apply fun f => diagnostics_popped f.closed f.scope.length

end Follows

/-! ## Looking at the table -/

/-- Of the table only the global variables matter for where a variable lies, and of the frame only the
scopes. -/
theorem resolve?_congr {Γ : LoweringContext} {f g : Frame}
    (h : s'.globals.map GlobalSymbol.entry = Γ.symbols.globals.map GlobalSymbol.entry)
    (hscope : g.scope = f.scope) (henclosing : g.enclosing = f.enclosing) (name : String) :
    resolve? { Γ with symbols := s' } g name = resolve? Γ f name := by
  have hplace : ∀ t : Symbols, ((t.lookupGlobal? name).map fun g => Place.global g.slot g.type)
      = ((t.lookupGlobal? name).map GlobalSymbol.entry).map fun e => .global e.1 e.2.type := by
    intro t
    rw [Option.map_map]
    rfl
  simp only [resolve?, hscope, henclosing, hplace, Symbols.entry_lookupGlobal? h]

variable {Γ : LoweringContext} (h : Γ.symbols.Within s')

include h

theorem resolve_follows (name : String) (span : Span) :
    Follows Γ.symbols s' (resolve Γ name span) (resolve { Γ with symbols := s' } name span) := by
  refine .bind .get fun f => ?_
  rw [resolve?_congr h.globals rfl rfl]
  cases resolve? Γ f name with
  | some place => exact .pure place
  | none => exact .fail _ span

/-- What is done with a function that is called is the same, unless only the second table knows
it. -/
theorem callee_follows {name : String} {given : Nat} {span : Span}
    {k l : FunctionSymbol → Lower β}
    (hk : ∀ f g, f.SameCall g → Follows Γ.symbols s' (k f) (l g)) :
    Follows Γ.symbols s' (Expr.callee Γ name given span >>= k)
      (Expr.callee { Γ with symbols := s' } name given span >>= l) := by
  rw [Expr.callee, Expr.callee]
  cases hlookup : Γ.symbols.lookup? name with
  | none =>
      cases hlookup' : s'.lookup? name with
      | none => exact .bind (.fail _ span) fun f => hk f f ⟨rfl, rfl, rfl⟩
      | some g =>
          have hmiss : Γ.symbols.Misses s' (.error (.undeclaredFunction name) span) :=
            ⟨name, span, g, rfl, hlookup, hlookup'⟩
          exact ⟨fun f _ => .inl hmiss, fun f => .inr (.inl hmiss)⟩
  | some f =>
      obtain ⟨g, hg, hcall⟩ := h.lookup hlookup
      rw [hg]
      dsimp only
      rw [hcall.params]
      split
      · exact hk f g hcall
      · exact .bind (.fail _ span) fun f => hk f f ⟨rfl, rfl, rfl⟩

end Lower

open Lower

/-! ## Expressions -/

namespace Expr

variable {s' : Symbols} {Γ : LoweringContext}

theorem lowerConst_follows (s : Symbols) (type : ValueType) (x : Operand) :
    Follows s s' (lowerConst type x) (lowerConst type x) :=
  .bind (.emitPush _) fun _ => .pure type

theorem lowerIdent_follows (h : Γ.symbols.Within s') (name : String) (span : Span) :
    Follows Γ.symbols s' (lowerIdent Γ name span)
      (lowerIdent { Γ with symbols := s' } name span) := by
  refine .bind (resolve_follows h name span) fun place => ?_
  cases place with
  | stack position t =>
      refine .bind (.fromTop position) fun n => ?_
      exact .bind (.emitPush _) fun _ => .pure _
  | global slot t => exact .bind (.emitPush _) fun _ => .pure _

mutual

theorem lower_follows (h : Γ.symbols.Within s') :
    ∀ e : Expr, Follows Γ.symbols s' (e.lower Γ) (e.lower { Γ with symbols := s' })
  | .int v span => by
      rw [lower, lower]
      exact lowerConst_follows _ _ _
  | .float v span => by
      rw [lower, lower]
      exact lowerConst_follows _ _ _
  | .string v span => by
      rw [lower, lower]
      split
      · exact .fail _ span
      · exact lowerConst_follows _ _ _
  | .object v span => by
      rw [lower, lower]
      exact lowerConst_follows _ _ _
  | .ident name span => by
      rw [lower, lower]
      exact lowerIdent_follows h name span
  | .call name args span => by
      rw [lower, lower]
      refine callee_follows h fun f g hcall => ?_
      have hrest : Follows Γ.symbols s'
          (do lowerArgs Γ args f.params; emitTake args.length (.callTo f.id); return f.result)
          (do lowerArgs { Γ with symbols := s' } args f.params
              emitTake args.length (.callTo f.id)
              return f.result) := by
        refine .bind (lowerArgs_follows h args f.params) fun _ => ?_
        exact .bind (.emitTake _ _) fun _ => .pure _
      rw [hcall.id, hcall.result, hcall.params]
      cases f.result.isVoid with
      | true => exact hrest
      | false => exact .bind (.emitPush _) fun _ => hrest
  | .unary op x span => by
      rw [lower, lower]
      refine .bind (lower_follows h x) fun t => ?_
      cases op.operation? t with
      | none => exact .fail _ span
      | some o => exact .bind (.emit _) fun _ => .pure t
  | .binary op l r span => by
      rw [lower, lower]
      refine .bind (lower_follows h l) fun tl => .bind (lower_follows h r) fun tr => ?_
      cases op.operation? tl tr with
      | none => exact .fail _ span
      | some ot => exact .bind (.emitTake _ _) fun _ => .pure ot.2

theorem lowerArgs_follows (h : Γ.symbols.Within s') :
    ∀ (args : List Expr) (types : List ValueType), Follows Γ.symbols s' (lowerArgs Γ args types)
      (lowerArgs { Γ with symbols := s' } args types)
  | [], types => by
      rw [lowerArgs, lowerArgs]
      · exact .pure ()
      · intro arg args type types h
        cases h
      · intro arg args type types h
        cases h
  | arg :: args, [] => by
      rw [lowerArgs, lowerArgs]
      · exact .pure ()
      · intro arg args type types _ h
        cases h
      · intro arg args type types _ h
        cases h
  | arg :: args, type :: types => by
      rw [lowerArgs, lowerArgs]
      refine .bind (lowerArgs_follows h args types) fun _ => ?_
      exact .bind (lower_follows h arg) fun found => .expectType type found arg.span

end

end Expr

/-! ## Statements -/

namespace Stmt

variable {s' : Symbols} {Γ : LoweringContext}

theorem lowerVar_follows (h : Γ.symbols.Within s') (decl : VarDecl) :
    Follows Γ.symbols s' (lowerVar Γ decl) (lowerVar { Γ with symbols := s' } decl) := by
  refine .bind .get fun f => ?_
  split
  · exact .fail _ decl.span
  · refine .bind (.declare _ _) fun _ => .bind (.emitPush _) fun _ => ?_
    cases decl.init with
    | none => exact .pure ()
    | some e =>
        refine .bind (Expr.lower_follows h e) fun found => ?_
        refine .bind (.expectType _ found e.span) fun _ => ?_
        exact .bind (.emit _) fun _ => .popCells 1

theorem lowerAssign_follows (h : Γ.symbols.Within s') (name : String) (e : Expr) (span : Span) :
    Follows Γ.symbols s' (lowerAssign Γ name e span)
      (lowerAssign { Γ with symbols := s' } name e span) := by
  refine .bind (resolve_follows h name span) fun place => ?_
  refine .bind (Expr.lower_follows h e) fun found => ?_
  refine .bind (.expectType _ found e.span) fun _ => ?_
  cases place with
  | stack position t =>
      exact .bind (.fromTop position) fun n => .bind (.emit _) fun _ => .popCells 1
  | global slot t => exact .bind (.emit _) fun _ => .popCells 1

theorem lowerExpr_follows (h : Γ.symbols.Within s') (e : Expr) :
    Follows Γ.symbols s' (lowerExpr Γ e) (lowerExpr { Γ with symbols := s' } e) := by
  refine .bind (Expr.lower_follows h e) fun t => ?_
  cases t.isVoid with
  | true => exact .pure ()
  | false => exact .popCells 1

theorem lowerCondition_follows (h : Γ.symbols.Within s') (e : Expr) :
    Follows Γ.symbols s' (lowerCondition Γ e) (lowerCondition { Γ with symbols := s' } e) := by
  refine .bind (Expr.lower_follows h e) fun t => ?_
  split
  · exact .fail _ e.span
  · exact .pure ()

theorem lowerResult_follows (h : Γ.symbols.Within s') (value : Option Expr) (span : Span) :
    Follows Γ.symbols s' (lowerResult Γ value span)
      (lowerResult { Γ with symbols := s' } value span) := by
  simp only [lowerResult]
  split
  · next e _ =>
      refine .bind (Expr.lower_follows h e) fun found => ?_
      refine .bind (.expectType _ found e.span) fun _ => ?_
      exact .bind (.fromTop _) fun n => .emit _
  · exact .pure ()
  · exact .fail _ _
  · exact .fail _ span

theorem lowerReturn_follows (h : Γ.symbols.Within s') (value : Option Expr) (span : Span) :
    Follows Γ.symbols s' (lowerReturn Γ value span)
      (lowerReturn { Γ with symbols := s' } value span) := by
  refine .bind .depth fun before => .bind (lowerResult_follows h value span) fun _ => ?_
  refine .bind .depth fun n => .bind (.popCells n) fun _ => .bind (.emit _) fun _ => ?_
  exact .of_ok (fun _ => rfl) fun _ => rfl

mutual

/-- Lowering a statement does the same against a table that knows more functions, unless one of
these is called. -/
theorem lower_follows (h : Γ.symbols.Within s') :
    ∀ t : Stmt, Follows Γ.symbols s' (t.lower Γ) (t.lower { Γ with symbols := s' })
  | .block body => by
      rw [lower, lower]
      exact .inScope (lowerAll_follows h body)
  | .var decl => by
      rw [lower, lower]
      exact lowerVar_follows h decl
  | .assign name e span => by
      rw [lower, lower]
      exact lowerAssign_follows h name e span
  | .expr e => by
      rw [lower, lower]
      exact lowerExpr_follows h e
  | .ifThen cond body => by
      rw [lower, lower]
      refine .bind (lowerCondition_follows h cond) fun _ => .bind .newLabel fun otherwise => ?_
      refine .bind (.emitTake _ _) fun _ => ?_
      exact .bind (.inScope (.settle (lower_follows h body))) fun _ => .bindLabel otherwise
  | .ifElse cond body other => by
      rw [lower, lower]
      refine .bind (lowerCondition_follows h cond) fun _ => .bind .newLabel fun otherwise => ?_
      refine .bind (.emitTake _ _) fun _ => ?_
      refine .bind (.inScope (.settle (lower_follows h body))) fun _ => ?_
      refine .bind .newLabel fun finish => .bind (.emit _) fun _ => ?_
      refine .bind (.bindLabel otherwise) fun _ => ?_
      exact .bind (.inScope (.settle (lower_follows h other))) fun _ => .bindLabel finish
  | .loop cond body => by
      rw [lower, lower]
      refine .bind .newLabel fun top => .bind .newLabel fun finish => ?_
      refine .bind (.bindLabel top) fun _ => .bind (lowerCondition_follows h cond) fun _ => ?_
      refine .bind (.emitTake _ _) fun _ => ?_
      refine .bind (.inScope (.settle (lower_follows h body))) fun _ => ?_
      exact .bind (.emit _) fun _ => .bindLabel finish
  | .ret value span => by
      rw [lower, lower]
      exact lowerReturn_follows h value span

theorem lowerAll_follows (h : Γ.symbols.Within s') :
    ∀ ts : List Stmt, Follows Γ.symbols s' (lowerAll Γ ts) (lowerAll { Γ with symbols := s' } ts)
  | [] => by
      rw [lowerAll, lowerAll]
      exact .pure ()
  | t :: rest => by
      rw [lowerAll, lowerAll]
      exact .bind (.settle (lower_follows h t)) fun _ => lowerAll_follows h rest

end

end Stmt

/-! ## Functions and global variables -/

theorem Lower.Follows.after {s s' : Symbols} {p q : Lower Unit} (h : Follows s s' p q)
    (f : Frame) : f.after q = f.after p ∨ (f.after p).Misses s s' := by
  rcases h.same f with hsame | hmiss
  · left
    rw [Frame.after, Frame.after, hsame]
  · right
    rw [Frame.after]
    cases hp : p f with
    | ok a g =>
        rw [hp] at hmiss
        exact hmiss
    | error d g =>
        rw [hp] at hmiss
        rcases hmiss with hd | ⟨d', hd', hmiss⟩
        · exact ⟨d, List.mem_append_right _ List.mem_cons_self, hd⟩
        · exact ⟨d', List.mem_append_left _ hd', hmiss⟩

namespace Lowering

variable {s s' : Symbols}

/-- A function is lowered to the same against a table that knows more functions, unless it calls one
of these. -/
theorem ofFunction_within (h : s.Within s') (decl : FunctionDecl) :
    ofFunction decl s' = ofFunction decl s ∨
      ∃ d ∈ (ofFunction decl s).diagnostics, s.Misses s' d := by
  let Γ := LoweringContext.ofFunction s decl
  have hend (finish : Nat) : Follows s s'
      (do bindLabel finish
          if 0 < Γ.params.length then emit (.pop Γ.params.length)
          emit .ending)
      (do bindLabel finish
          if 0 < Γ.params.length then emit (.pop Γ.params.length)
          emit .ending) := by
    refine .bind (.bindLabel finish) fun _ => ?_
    split
    · exact .bind (.emit _) fun _ => .emit _
    · exact .emit _
  have hbody : Follows s s' (functionBody Γ decl) (functionBody { Γ with symbols := s' } decl) := by
    refine .bind .newLabel fun finish => ?_
    cases decl.body with
    | none => exact hend finish
    | some body =>
        exact .bind (.inScope (Stmt.lowerAll_follows (Γ := Γ) h body)) fun _ => hend finish
  rcases hbody.after { Frame.start with diagnostics := duplicateParams decl.span [] decl.params }
    with hsame | hmiss
  · exact .inl (congrArg ofFrame hsame)
  · exact .inr hmiss

/-! ### Global variables -/

theorem assumeGlobals_keeps : ∀ gs : List GlobalSymbol,
    Follows s s' (assumeGlobals gs) (assumeGlobals gs)
  | [] => .pure ()
  | g :: rest => by
      refine .bind (.declare _ _) fun _ => .bind (.of_ok (fun _ => rfl) fun _ => rfl) fun _ => ?_
      exact assumeGlobals_keeps rest

/-- Of global variables, only their numbers and declarations matter. -/
theorem assumeGlobals_congr : ∀ {gs gs' : List GlobalSymbol},
    gs'.map GlobalSymbol.entry = gs.map GlobalSymbol.entry → assumeGlobals gs' = assumeGlobals gs
  | [], [], _ => rfl
  | g :: gs, g' :: gs', h => by
      obtain ⟨hg, hgs⟩ := List.cons.inj h
      have hdecl : g'.decl = g.decl := congrArg Prod.snd hg
      rw [assumeGlobals, assumeGlobals, assumeGlobals_congr hgs, GlobalSymbol.name,
        GlobalSymbol.name, GlobalSymbol.type, GlobalSymbol.type, hdecl]

theorem loadGlobals_follows {Γ : LoweringContext} (h : Γ.symbols.Within s') :
    ∀ {gs gs' : List GlobalSymbol}, gs'.map GlobalSymbol.entry = gs.map GlobalSymbol.entry →
      Follows Γ.symbols s' (loadGlobals Γ gs) (loadGlobals { Γ with symbols := s' } gs')
  | [], [], _ => .pure ()
  | g :: gs, g' :: gs', hentry => by
      obtain ⟨hg, hgs⟩ := List.cons.inj hentry
      have hdecl : g'.decl = g.decl := congrArg Prod.snd hg
      rw [loadGlobals, loadGlobals, hdecl]
      exact .bind (.settle (Stmt.lower_follows h _)) fun _ => loadGlobals_follows h hgs

/-- The first value of a global variable is checked in the same way against a table that knows more
functions, unless it calls one of these. -/
theorem checkGlobal_within (h : s.Within s') (slot : Nat) :
    checkGlobal slot s' = checkGlobal slot s ∨ ∃ d ∈ checkGlobal slot s, s.Misses s' d := by
  have hslot : (s'.globals[slot]?).map GlobalSymbol.entry
      = (s.globals[slot]?).map GlobalSymbol.entry := by
    rw [← List.getElem?_map, h.globals, List.getElem?_map]
  have htake : (s'.globals.take slot).map GlobalSymbol.entry
      = (s.globals.take slot).map GlobalSymbol.entry := by
    rw [List.map_take, h.globals, List.map_take]
  rw [checkGlobal, checkGlobal, assumeGlobals_congr htake]
  cases hg : s.globals[slot]? with
  | none =>
      rw [hg] at hslot
      rw [Option.map_eq_none_iff.mp hslot]
      exact .inl rfl
  | some g =>
      rw [hg] at hslot
      obtain ⟨g', hg', heq⟩ := Option.map_eq_some_iff.mp hslot
      have hdecl : g'.decl = g.decl := congrArg Prod.snd heq
      rw [hg']
      dsimp only
      rw [hdecl]
      have hlower : Follows s s' (settle (Stmt.lower (.ofLoader s .void) (.var g.decl)))
          (settle (Stmt.lower (.ofLoader s' .void) (.var g.decl))) :=
        .settle (Stmt.lower_follows (Γ := .ofLoader s .void) h _)
      have hcheck := Follows.bind (assumeGlobals_keeps (s.globals.take slot)) fun _ => hlower
      rcases hcheck.after Frame.start with hsame | hmiss
      · exact .inl (congrArg Frame.diagnostics hsame)
      · exact .inr hmiss

theorem callEntry_keeps (Γ : LoweringContext) (f : FunctionSymbol) :
    Follows s s' (callEntry Γ f) (callEntry Γ f) := by
  rw [callEntry]
  split
  · exact .emit _
  · refine .bind (.emitPush _) fun _ => .bind (.emit _) fun _ => .bind (.fromTop _) fun n => ?_
    exact .bind (.emit _) fun _ => .popCells 1

/-- The loader of the global variables is the same against a table that knows more functions, unless
it calls one of these, and for an entry point that is called in the same way. -/
theorem ofGlobals_within (h : s.Within s') {entry entry' : Option FunctionSymbol}
    (hentry : Option.Rel FunctionSymbol.SameCall entry entry') :
    ofGlobals s' entry' = ofGlobals s entry ∨
      ∃ d ∈ (ofGlobals s entry).diagnostics, s.Misses s' d := by
  have hbody : ∀ result, Follows s s' (loaderBody (.ofLoader s result) entry)
      (loaderBody (.ofLoader s' result) entry') := by
    intro result
    refine .bind (loadGlobals_follows (Γ := .ofLoader s result) h h.globals) fun _ => ?_
    refine .bind (.emitPush _) fun _ => ?_
    have hend : Follows s s'
        (do emitTake 1 (.simple .restoreBp)
            if 0 < s.globals.length then emit (.pop s.globals.length)
            emit .ending)
        (do emitTake 1 (.simple .restoreBp)
            if 0 < s'.globals.length then emit (.pop s'.globals.length)
            emit .ending) := by
      rw [h.length_globals]
      refine .bind (.emitTake 1 _) fun _ => ?_
      split
      · exact .bind (.emit _) fun _ => .emit _
      · exact .emit _
    cases hentry with
    | none => exact hend
    | @some f g hcall =>
        have hcall : callEntry (.ofLoader s' result) g = callEntry (.ofLoader s result) f := by
          rw [callEntry, callEntry, hcall.id, hcall.result]
          rfl
        dsimp only
        rw [hcall]
        exact .bind (callEntry_keeps _ f) fun _ => hend
  have hafter : ∀ result, ofFrame (Frame.start.after (loaderBody (.ofLoader s' result) entry'))
        = ofFrame (Frame.start.after (loaderBody (.ofLoader s result) entry)) ∨
      ∃ d ∈ (Frame.start.after (loaderBody (.ofLoader s result) entry)).diagnostics,
        s.Misses s' d := by
    intro result
    rcases (hbody result).after Frame.start with hsame | hmiss
    · exact .inl (congrArg ofFrame hsame)
    · exact .inr hmiss
  cases hentry with
  | none => exact hafter .void
  | @some f g hcall =>
      have hresult : ofGlobals s' (some g)
          = ofFrame (Frame.start.after (loaderBody (.ofLoader s' f.result) (some g))) := by
        rw [← hcall.result]
        rfl
      rw [hresult]
      exact hafter f.result

/-! ### Tables that know the same functions -/

variable (h : s.Within s') (h' : s'.Within s)

include h h'

theorem ofFunction_congr (decl : FunctionDecl) : ofFunction decl s' = ofFunction decl s :=
  (ofFunction_within h decl).resolve_right fun ⟨d, _, hd⟩ => h'.not_misses d hd

theorem checkGlobal_congr (slot : Nat) : checkGlobal slot s' = checkGlobal slot s :=
  (checkGlobal_within h slot).resolve_right fun ⟨d, _, hd⟩ => h'.not_misses d hd

theorem ofGlobals_congr {entry entry' : Option FunctionSymbol}
    (hentry : Option.Rel FunctionSymbol.SameCall entry entry') :
    ofGlobals s' entry' = ofGlobals s entry :=
  (ofGlobals_within h hentry).resolve_right fun ⟨d, _, hd⟩ => h'.not_misses d hd

end Lowering

end Nss
