/-
# Lowering without places

Where an expression stands in a script matters to lowering only for the diagnostics: without places,
what a tree is lowered to is what it is lowered to without places.  No instruction, no label and no
failure depends on a span.

    frame, result of lowering    `unplaced`, the places in the diagnostics left out
    step                         `Lower.Unplaces`, which is seen without places as another step
-/
import Nss.Proofs.Places.Syntax
import Nss.Proofs.Steps

namespace Nss

open Steps

/-- A frame whose diagnostics have no places. -/
def Frame.unplaced (f : Frame) : Frame := { f with diagnostics := f.diagnostics.map Diagnostic.unplaced }

/-- What a function is lowered to, with diagnostics that have no places. -/
def Lowering.unplaced (l : Lowering) : Lowering :=
  { l with diagnostics := l.diagnostics.map Diagnostic.unplaced }

/-- A context whose table has no places. -/
def LoweringContext.unplaced (Γ : LoweringContext) : LoweringContext :=
  { Γ with symbols := Γ.symbols.unplaced }

/-! ## Steps -/

namespace Lower

variable {α β : Type}

/-- The second of two steps is the first one without places. -/
def Unplaces (p q : Lower α) : Prop := Seen Diagnostic.unplaced Frame.unplaced id p q

namespace Unplaces

theorem pure (a : α) : Unplaces (Pure.pure a : Lower α) (Pure.pure a) := Seen.pure a

theorem update {f g : Frame → Frame} (h : ∀ s, g s.unplaced = (f s).unplaced) :
    Unplaces (modify f) (modify g) :=
  Seen.update h

theorem bind {p q : Lower α} {k l : α → Lower β} (hp : Unplaces p q)
    (hk : ∀ a, Unplaces (k a) (l a)) : Unplaces (p >>= k) (q >>= l) :=
  Seen.bind hp hk

theorem read {k l : Frame → Lower β} (h : ∀ f, Unplaces (k f) (l f.unplaced)) :
    Unplaces (get >>= k) (get >>= l) :=
  Seen.read h

theorem fail (problem : Problem) (span : Span) :
    Unplaces (Lower.fail problem span : Lower α) (Lower.fail problem .origin) :=
  Seen.throw _

theorem emit (i : Instruction) : Unplaces (Lower.emit i) (Lower.emit i) := .update fun _ => rfl

theorem emitPush (i : Instruction) : Unplaces (Lower.emitPush i) (Lower.emitPush i) :=
  .update fun _ => rfl

theorem emitTake (n : Nat) (i : Instruction) : Unplaces (Lower.emitTake n i) (Lower.emitTake n i) :=
  .update fun _ => rfl

theorem popCells (n : Nat) : Unplaces (Lower.popCells n) (Lower.popCells n) := by
  rw [Lower.popCells]
  split
  · exact emitTake n _
  · exact .pure ()

theorem depth : Unplaces Lower.depth Lower.depth := fun _ => rfl

theorem fromTop (position : Int) : Unplaces (Lower.fromTop position) (Lower.fromTop position) :=
  fun _ => rfl

theorem newLabel : Unplaces Lower.newLabel Lower.newLabel := fun _ => rfl

theorem bindLabel (label : Nat) : Unplaces (Lower.bindLabel label) (Lower.bindLabel label) :=
  .update fun _ => rfl

theorem declare (name : String) (type : ValueType) :
    Unplaces (Lower.declare name type) (Lower.declare name type) :=
  .update fun _ => rfl

theorem closeScope : Unplaces Lower.closeScope Lower.closeScope :=
  .read fun f => .bind (fun _ => rfl) fun _ => popCells f.scope.length

theorem inScope {p q : Lower Unit} (hp : Unplaces p q) :
    Unplaces (Stmt.inScope p) (Stmt.inScope q) :=
  .bind (.update fun _ => rfl) fun _ => .bind hp fun _ => closeScope

theorem expectType (wanted found : ValueType) (span : Span) :
    Unplaces (Lower.expectType wanted found span) (Lower.expectType wanted found .origin) := by
  rw [Lower.expectType, Lower.expectType]
  split
  · exact .pure ()
  · exact fail _ span

theorem settle {p q : Lower Unit} (hp : Unplaces p q) :
    Unplaces (Lower.settle p) (Lower.settle q) := by
  intro f
  rw [Lower.settle, Lower.settle, hp f]
  cases p f with
  | ok a g => rfl
  | error d g => simp [mapResult, Frame.unplaced]

theorem after {p q : Lower Unit} (hp : Unplaces p q) (f : Frame) :
    f.unplaced.after q = (f.after p).unplaced := by
  rw [Frame.after, Frame.after, hp f]
  cases p f with
  | ok a g => rfl
  | error d g => simp [mapResult, Frame.unplaced]

end Unplaces

/-! ## Looking at the table -/

theorem resolve?_unplaced (Γ : LoweringContext) (f : Frame) (name : String) :
    resolve? Γ.unplaced f.unplaced name = resolve? Γ f name := by
  have hglobal : ((Γ.unplaced.symbols.lookupGlobal? name).map fun g => Place.global g.slot g.type)
      = (Γ.symbols.lookupGlobal? name).map fun g => Place.global g.slot g.type := by
    rw [LoweringContext.unplaced, Symbols.lookupGlobal?_unplaced, Option.map_map]
    rfl
  have hscopes : f.unplaced.scope = f.scope ∧ f.unplaced.enclosing = f.enclosing := ⟨rfl, rfl⟩
  have hparams : Γ.unplaced.params = Γ.params := rfl
  have hvisible : Γ.unplaced.globalsVisible = Γ.globalsVisible := rfl
  simp only [resolve?, hscopes, hparams, hvisible, hglobal]

theorem unplaces_resolve (Γ : LoweringContext) (name : String) (span : Span) :
    Unplaces (resolve Γ name span) (resolve Γ.unplaced name .origin) := by
  refine .read fun f => ?_
  rw [resolve?_unplaced]
  cases resolve? Γ f name with
  | some place => exact .pure place
  | none => exact .fail _ span

end Lower

open Lower

/-! ## Expressions -/

namespace Expr

variable (Γ : LoweringContext)

theorem unplaces_callee (name : String) (given : Nat) (span : Span) :
    Unplaces (callee Γ name given span) (callee Γ.unplaced name given .origin) := by
  have hlookup : Γ.unplaced.symbols.lookup? name = Γ.symbols.lookup? name := rfl
  rw [callee, callee, hlookup]
  cases Γ.symbols.lookup? name with
  | none => exact .fail _ span
  | some f =>
      dsimp only
      split
      · exact .pure f
      · exact .fail _ span

theorem unplaces_lowerConst (type : ValueType) (x : Operand) :
    Unplaces (lowerConst type x) (lowerConst type x) :=
  .bind (.emitPush _) fun _ => .pure type

theorem unplaces_lowerIdent (name : String) (span : Span) :
    Unplaces (lowerIdent Γ name span) (lowerIdent Γ.unplaced name .origin) := by
  refine .bind (unplaces_resolve Γ name span) fun place => ?_
  cases place with
  | stack position type =>
      refine .bind (.fromTop position) fun n => ?_
      exact .bind (.emitPush _) fun _ => .pure _
  | global slot type => exact .bind (.emitPush _) fun _ => .pure _

mutual

/-- An expression is lowered to the same without places. -/
theorem unplaces_lower : ∀ e : Expr, Unplaces (e.lower Γ) (e.unplaced.lower Γ.unplaced)
  | .int v span => by
      rw [unplaced, lower, lower]
      exact unplaces_lowerConst _ _
  | .float v span => by
      rw [unplaced, lower, lower]
      exact unplaces_lowerConst _ _
  | .string v span => by
      rw [unplaced, lower, lower]
      split
      · exact .fail _ span
      · exact unplaces_lowerConst _ _
  | .object v span => by
      rw [unplaced, lower, lower]
      exact unplaces_lowerConst _ _
  | .ident name span => by
      rw [unplaced, lower, lower]
      exact unplaces_lowerIdent Γ name span
  | .call name args span => by
      rw [unplaced, lower, lower]
      have hlength : (allUnplaced args).length = args.length := by
        rw [allUnplaced_eq_map, List.length_map]
      rw [hlength]
      refine .bind (unplaces_callee Γ name _ span) fun f => ?_
      have hrest : Unplaces
          (do lowerArgs Γ args f.params; emitTake args.length (.callTo f.id); return f.result)
          (do lowerArgs Γ.unplaced (allUnplaced args) f.params
              emitTake args.length (.callTo f.id)
              return f.result) := by
        refine .bind (unplaces_lowerArgs args f.params) fun _ => ?_
        exact .bind (.emitTake _ _) fun _ => .pure _
      cases hvoid : f.result.isVoid with
      | true => simpa [hvoid] using hrest
      | false => simpa [hvoid] using Unplaces.bind (.emitPush (.reserve f.result)) fun _ => hrest
  | .unary op x span => by
      rw [unplaced, lower, lower]
      refine .bind (unplaces_lower x) fun type => ?_
      cases op.operation? type with
      | none => exact .fail _ span
      | some o => exact .bind (.emit _) fun _ => .pure type
  | .binary op l r span => by
      rw [unplaced, lower, lower]
      refine .bind (unplaces_lower l) fun tl => .bind (unplaces_lower r) fun tr => ?_
      cases op.operation? tl tr with
      | none => exact .fail _ span
      | some ot => exact .bind (.emitTake _ _) fun _ => .pure ot.2

theorem unplaces_lowerArgs : ∀ (args : List Expr) (types : List ValueType),
    Unplaces (lowerArgs Γ args types) (lowerArgs Γ.unplaced (allUnplaced args) types)
  | [], types => by
      rw [allUnplaced, lowerArgs, lowerArgs]
      · exact .pure ()
      · intro arg args type types h
        cases h
      · intro arg args type types h
        cases h
  | arg :: args, [] => by
      rw [allUnplaced, lowerArgs, lowerArgs]
      · exact .pure ()
      · intro arg args type types _ h
        cases h
      · intro arg args type types _ h
        cases h
  | arg :: args, type :: types => by
      rw [allUnplaced, lowerArgs, lowerArgs, span_unplaced]
      refine .bind (unplaces_lowerArgs args types) fun _ => ?_
      exact .bind (unplaces_lower arg) fun found => .expectType type found arg.span

end

end Expr

/-! ## Statements -/

namespace Stmt

variable (Γ : LoweringContext)

theorem unplaces_lowerVar (decl : VarDecl) :
    Unplaces (lowerVar Γ decl) (lowerVar Γ.unplaced decl.unplaced) := by
  refine .read fun f => ?_
  have hscope : f.unplaced.scope = f.scope := rfl
  have hname : decl.unplaced.name = decl.name := rfl
  rw [hscope, hname]
  split
  · exact .fail _ decl.span
  · refine .bind (.declare _ _) fun _ => .bind (.emitPush _) fun _ => ?_
    have hinit : decl.unplaced.init = decl.init.map Expr.unplaced := rfl
    rw [hinit]
    cases decl.init with
    | none => exact .pure ()
    | some e =>
        refine .bind (Expr.unplaces_lower Γ e) fun found => ?_
        rw [Expr.span_unplaced]
        refine .bind (.expectType _ found e.span) fun _ => ?_
        exact .bind (.emit _) fun _ => .popCells 1

theorem unplaces_lowerAssign (name : String) (e : Expr) (span : Span) :
    Unplaces (lowerAssign Γ name e span) (lowerAssign Γ.unplaced name e.unplaced .origin) := by
  refine .bind (unplaces_resolve Γ name span) fun place => ?_
  refine .bind (Expr.unplaces_lower Γ e) fun found => ?_
  rw [Expr.span_unplaced]
  refine .bind (.expectType _ found e.span) fun _ => ?_
  cases place with
  | stack position type =>
      exact .bind (.fromTop position) fun n => .bind (.emit _) fun _ => .popCells 1
  | global slot type => exact .bind (.emit _) fun _ => .popCells 1

theorem unplaces_lowerExpr (e : Expr) :
    Unplaces (lowerExpr Γ e) (lowerExpr Γ.unplaced e.unplaced) := by
  refine .bind (Expr.unplaces_lower Γ e) fun type => ?_
  cases type.isVoid with
  | true => exact .pure ()
  | false => exact .popCells 1

theorem unplaces_lowerCondition (e : Expr) :
    Unplaces (lowerCondition Γ e) (lowerCondition Γ.unplaced e.unplaced) := by
  refine .bind (Expr.unplaces_lower Γ e) fun type => ?_
  split
  · rw [Expr.span_unplaced]
    exact .fail _ e.span
  · exact .pure ()

theorem unplaces_lowerResult (value : Option Expr) (span : Span) :
    Unplaces (lowerResult Γ value span)
      (lowerResult Γ.unplaced (value.map Expr.unplaced) .origin) := by
  have hresult : Γ.unplaced.result = Γ.result := rfl
  have hposition : Γ.unplaced.resultPosition = Γ.resultPosition := rfl
  simp only [lowerResult, hresult, hposition]
  cases value with
  | none =>
      cases Γ.result.isVoid with
      | true => exact .pure ()
      | false => exact .fail _ span
  | some e =>
      cases Γ.result.isVoid with
      | true =>
          have hfail : Unplaces (fail (α := Unit) .voidReturnsValue e.span)
              (fail .voidReturnsValue e.unplaced.span) := by
            rw [Expr.span_unplaced]
            exact .fail _ e.span
          exact hfail
      | false =>
          refine .bind (Expr.unplaces_lower Γ e) fun found => ?_
          rw [Expr.span_unplaced]
          refine .bind (.expectType _ found e.span) fun _ => ?_
          exact .bind (.fromTop _) fun n => .emit _

theorem unplaces_lowerReturn (value : Option Expr) (span : Span) :
    Unplaces (lowerReturn Γ value span)
      (lowerReturn Γ.unplaced (value.map Expr.unplaced) .origin) := by
  refine .bind .depth fun before => .bind (unplaces_lowerResult Γ value span) fun _ => ?_
  refine .bind .depth fun n => .bind (.popCells n) fun _ => .bind (.emit _) fun _ => ?_
  exact .update fun _ => rfl

mutual

/-- A statement is lowered to the same without places. -/
theorem unplaces_lower : ∀ x : Stmt, Unplaces (x.lower Γ) (x.unplaced.lower Γ.unplaced)
  | .block body => by
      rw [unplaced, lower, lower]
      exact .inScope (unplaces_lowerAll body)
  | .var decl => by
      rw [unplaced, lower, lower]
      exact unplaces_lowerVar Γ decl
  | .assign name e span => by
      rw [unplaced, lower, lower]
      exact unplaces_lowerAssign Γ name e span
  | .expr e => by
      rw [unplaced, lower, lower]
      exact unplaces_lowerExpr Γ e
  | .ifThen cond body => by
      rw [unplaced, lower, lower]
      refine .bind (unplaces_lowerCondition Γ cond) fun _ => .bind .newLabel fun otherwise => ?_
      refine .bind (.emitTake _ _) fun _ => ?_
      exact .bind (.inScope (.settle (unplaces_lower body))) fun _ => .bindLabel otherwise
  | .ifElse cond body other => by
      rw [unplaced, lower, lower]
      refine .bind (unplaces_lowerCondition Γ cond) fun _ => .bind .newLabel fun otherwise => ?_
      refine .bind (.emitTake _ _) fun _ => ?_
      refine .bind (.inScope (.settle (unplaces_lower body))) fun _ => ?_
      refine .bind .newLabel fun finish => .bind (.emit _) fun _ => ?_
      refine .bind (.bindLabel otherwise) fun _ => ?_
      exact .bind (.inScope (.settle (unplaces_lower other))) fun _ => .bindLabel finish
  | .loop cond body => by
      rw [unplaced, lower, lower]
      refine .bind .newLabel fun top => .bind .newLabel fun finish => ?_
      refine .bind (.bindLabel top) fun _ => .bind (unplaces_lowerCondition Γ cond) fun _ => ?_
      refine .bind (.emitTake _ _) fun _ => ?_
      refine .bind (.inScope (.settle (unplaces_lower body))) fun _ => ?_
      exact .bind (.emit _) fun _ => .bindLabel finish
  | .ret value span => by
      rw [unplaced, lower, lower]
      exact unplaces_lowerReturn Γ value span

theorem unplaces_lowerAll : ∀ xs : List Stmt,
    Unplaces (lowerAll Γ xs) (lowerAll Γ.unplaced (allUnplaced xs))
  | [] => by
      rw [allUnplaced, lowerAll, lowerAll]
      exact .pure ()
  | x :: rest => by
      rw [allUnplaced, lowerAll, lowerAll]
      exact .bind (.settle (unplaces_lower x)) fun _ => unplaces_lowerAll rest

end

end Stmt

/-! ## Functions and global variables -/

namespace Lowering

theorem duplicateParams_unplaced (span : Span) : ∀ before params : List Param,
    duplicateParams .origin before params
      = (duplicateParams span before params).map Diagnostic.unplaced
  | _, [] => rfl
  | before, p :: rest => by
      rw [duplicateParams, duplicateParams, duplicateParams_unplaced span (before ++ [p]) rest,
        List.map_append]
      split
      · rfl
      · rfl

/-- A function is lowered to the same without places. -/
theorem ofFunction_unplaced (decl : FunctionDecl) (symbols : Symbols) :
    ofFunction decl.unplaced symbols.unplaced = (ofFunction decl symbols).unplaced := by
  let Γ := LoweringContext.ofFunction symbols decl
  have hend (finish : Nat) : Unplaces
      (do bindLabel finish
          if 0 < Γ.params.length then emit (.pop Γ.params.length)
          emit .ending)
      (do bindLabel finish
          if 0 < Γ.params.length then emit (.pop Γ.params.length)
          emit .ending) := by
    refine .bind (.bindLabel finish) fun _ => ?_
    split
    · exact .bind (.emit _) fun _ => .emit _
    · exact .emit _
  have hbody : Unplaces (functionBody Γ decl) (functionBody Γ.unplaced decl.unplaced) := by
    refine .bind .newLabel fun finish => ?_
    have hbody : decl.unplaced.body = decl.body.map (List.map Stmt.unplaced) := rfl
    rw [hbody]
    cases decl.body with
    | none => exact hend finish
    | some body =>
        rw [Option.map_some, ← Stmt.allUnplaced_eq_map]
        exact .bind (.inScope (Stmt.unplaces_lowerAll Γ body)) fun _ => hend finish
  have hstart : duplicateParams decl.unplaced.span [] decl.unplaced.params
      = (duplicateParams decl.span [] decl.params).map Diagnostic.unplaced :=
    duplicateParams_unplaced decl.span [] decl.params
  rw [ofFunction, ofFunction, hstart]
  exact congrArg ofFrame
    (hbody.after { Frame.start with diagnostics := duplicateParams decl.span [] decl.params })

/-! ### Global variables -/

theorem assumeGlobals_unplaced (gs : List GlobalSymbol) :
    assumeGlobals (gs.map GlobalSymbol.unplaced) = assumeGlobals gs := by
  induction gs with
  | nil => rfl
  | cons g rest ih =>
      rw [List.map_cons, assumeGlobals, assumeGlobals, ih]
      rfl

theorem unplaces_assumeGlobals (gs : List GlobalSymbol) :
    Unplaces (assumeGlobals gs) (assumeGlobals gs) := by
  induction gs with
  | nil => exact .pure ()
  | cons g rest ih => exact .bind (.declare _ _) fun _ => .bind (.update fun _ => rfl) fun _ => ih

theorem unplaces_loadGlobals (Γ : LoweringContext) (gs : List GlobalSymbol) :
    Unplaces (loadGlobals Γ gs) (loadGlobals Γ.unplaced (gs.map GlobalSymbol.unplaced)) := by
  induction gs with
  | nil => exact .pure ()
  | cons g rest ih =>
      have hvar := Stmt.unplaces_lower Γ (.var g.decl)
      rw [Stmt.unplaced] at hvar
      exact .bind (.settle hvar) fun _ => ih

/-- The first value of a global variable is checked in the same way. -/
theorem checkGlobal_unplaced (slot : Nat) (symbols : Symbols) :
    checkGlobal slot symbols.unplaced = (checkGlobal slot symbols).map Diagnostic.unplaced := by
  have htake : assumeGlobals (symbols.unplaced.globals.take slot)
      = assumeGlobals (symbols.globals.take slot) := by
    rw [Symbols.unplaced, ← List.map_take, assumeGlobals_unplaced]
  have hslot : symbols.unplaced.globals[slot]?
      = symbols.globals[slot]?.map GlobalSymbol.unplaced := by
    rw [Symbols.unplaced, List.getElem?_map]
  rw [checkGlobal, checkGlobal, htake, hslot]
  refine congrArg Frame.diagnostics
    (Unplaces.after (.bind (unplaces_assumeGlobals _) fun _ => ?_) Frame.start)
  cases symbols.globals[slot]? with
  | none => exact .pure ()
  | some g =>
      have hvar := Stmt.unplaces_lower (.ofLoader symbols .void) (.var g.decl)
      rw [Stmt.unplaced] at hvar
      exact .settle hvar

theorem unplaces_callEntry (Γ : LoweringContext) (f : FunctionSymbol) :
    Unplaces (callEntry Γ f) (callEntry Γ.unplaced f) := by
  have hposition : Γ.unplaced.resultPosition = Γ.resultPosition := rfl
  rw [callEntry, callEntry, hposition]
  split
  · exact .emit _
  · refine .bind (.emitPush _) fun _ => .bind (.emit _) fun _ => .bind (.fromTop _) fun n => ?_
    exact .bind (.emit _) fun _ => .popCells 1

/-- The loader of the global variables is the same. -/
theorem ofGlobals_unplaced (symbols : Symbols) (entry : Option FunctionSymbol) :
    ofGlobals symbols.unplaced entry = (ofGlobals symbols entry).unplaced := by
  have hbody (result : ValueType) : Unplaces (loaderBody (.ofLoader symbols result) entry)
      (loaderBody (.ofLoader symbols.unplaced result) entry) := by
    have hlength : symbols.unplaced.globals.length = symbols.globals.length := by
      rw [Symbols.unplaced, List.length_map]
    have hend : Unplaces
        (do emitTake 1 (.simple .restoreBp)
            if 0 < symbols.globals.length then emit (.pop symbols.globals.length)
            emit .ending)
        (do emitTake 1 (.simple .restoreBp)
            if 0 < symbols.unplaced.globals.length then emit (.pop symbols.unplaced.globals.length)
            emit .ending) := by
      rw [hlength]
      refine .bind (.emitTake 1 _) fun _ => ?_
      split
      · exact .bind (.emit _) fun _ => .emit _
      · exact .emit _
    refine .bind (unplaces_loadGlobals (.ofLoader symbols result) symbols.globals) fun _ => ?_
    refine .bind (.emitPush _) fun _ => ?_
    cases entry with
    | none => exact hend
    | some f => exact .bind (unplaces_callEntry (.ofLoader symbols result) f) fun _ => hend
  exact congrArg ofFrame ((hbody _).after Frame.start)

end Lowering

end Nss
