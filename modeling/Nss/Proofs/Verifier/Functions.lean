/-
# Functions pass the verifier

The code of every function that is lowered without diagnostics is verified.  Before an expression the
shape is some values on the frame of the variables in sight, and behind it there is one value more,
or none if it is of type `void`; before and behind a statement no values are waited for.  The labels
of a statement stand before instructions whose shapes are read off its syntax (`Stmt.labelled`), so
the shapes that jumps need are there before any shape is chosen.
-/
import Nss.Proofs.Verifier.Fits
import Nss.Proofs.Machine.Preservation

namespace Nss

/-- The frame of a function with some variables in sight. -/
def LoweringContext.frame (Γ : LoweringContext) (vars : List Param) : List ValueType :=
  vars.map Param.type ++ Γ.result.cells

/-- The shape between statements with some variables in sight. -/
def LoweringContext.shape (Γ : LoweringContext) (vars : List Param) : Shape := ⟨[], Γ.frame vars⟩

mutual

/-- The variables in sight at the labels of a statement. -/
def Stmt.labelled (vars : List Param) : Stmt → List (List Param)
  | .block body => Stmt.allLabelled vars body
  | .ifThen _ body => vars :: body.labelled vars
  | .ifElse _ body other => vars :: (body.labelled vars ++ vars :: other.labelled vars)
  | .loop _ body => vars :: vars :: body.labelled vars
  | .var _ | .assign _ _ _ | .expr _ | .ret _ _ => []

/-- The variables in sight at the labels of statements one after the other. -/
def Stmt.allLabelled (vars : List Param) : List Stmt → List (List Param)
  | [] => []
  | s :: rest => s.labelled vars ++ Stmt.allLabelled (s.declared ++ vars) rest

end

/-! ## Expressions -/

namespace Verifier

variable {Γ : LoweringContext} {vars : List Param} {stop : Shape} {targets : List Shape}

/-- A cell of a variable has its type in the frame. -/
theorem frame_of_cell {name : String} {i : Nat} {t : ValueType}
    (h : Spot.ofName? Γ vars name = some (.cell i t)) : (Γ.frame vars)[i]? = some t := by
  obtain ⟨v, hv, rfl⟩ := Spot.getElem?_of_cell h
  have hlt := (List.getElem?_eq_some_iff.mp hv).1
  rw [LoweringContext.frame, List.getElem?_append_left (by rwa [List.length_map]),
    List.getElem?_map, hv]
  rfl

theorem transfer?_spotLoad (hn : Γ.symbols.Numbered) {name : String} {spot : Spot}
    (h : Spot.ofName? Γ vars name = some spot) {values : List ValueType}
    (hrep : Representable (values.length + vars.length)) :
    transfer? Γ.symbols stop (spot.load values.length) ⟨values, Γ.frame vars⟩
      = some ⟨spot.type :: values, Γ.frame vars⟩ := by
  cases spot with
  | cell i t =>
      obtain ⟨v, hv, -⟩ := Spot.getElem?_of_cell h
      have hlt := (List.getElem?_eq_some_iff.mp hv).1
      exact transfer?_load (Nat.le_of_lt (hrep.mono (by omega))) (frame_of_cell h)
  | global slot t =>
      obtain ⟨g, hg, rfl, rfl⟩ := Spot.lookupGlobal?_of_global h
      exact transfer?_loadGlobal (hn.getElem?_of_lookupGlobal? hg)

/-- The cell for a result is reserved, if there is a result. -/
theorem reserve_fits {symbols : Symbols} (t : ValueType) (values frame : List ValueType) :
    ∃ shapes, Fits symbols stop targets ⟨values, frame⟩ (reserveCode t) shapes
      ⟨t.cells ++ values, frame⟩ := by
  by_cases hvoid : t = .void
  · rw [hvoid]
    exact ⟨_, .nil⟩
  · rw [reserveCode, if_neg (mt ValueType.isVoid_iff.mp hvoid), ValueType.cells_of_ne_void hvoid]
    exact ⟨_, .single (transfer?_reserve hvoid) rfl⟩

mutual

/-- The code of an expression leaves one more value of its type. -/
theorem Expr.fits (hn : Γ.symbols.Numbered) (hΓ : Γ.NonVoid vars) :
    ∀ (e : Expr) {values : List ValueType} {t : ValueType} {c : List Instruction},
      e.Emits Γ vars values.length t c →
      Representable (values.length + vars.length + e.height Γ.symbols) →
      ∃ shapes, Fits Γ.symbols stop targets ⟨values, Γ.frame vars⟩ c shapes
        ⟨t.cells ++ values, Γ.frame vars⟩
  | .int _ _, _, _, _, .int, _ => ⟨_, .single (transfer?_const rfl) rfl⟩
  | .float _ _, _, _, _, .float, _ => ⟨_, .single (transfer?_const rfl) rfl⟩
  | .string _ _, _, _, _, .string _, _ => ⟨_, .single (transfer?_const rfl) rfl⟩
  | .object _ _, _, _, _, .object, _ => ⟨_, .single (transfer?_const rfl) rfl⟩
  | .ident name span, values, _, _, @Expr.Emits.ident _ _ _ _ _ spot hspot, hrep => by
      rw [ValueType.cells_of_ne_void (hΓ.spot hspot)]
      refine ⟨_, .single (transfer?_spotLoad hn hspot (hrep.mono (Nat.le_add_right _ _))) ?_⟩
      cases spot with
      | cell | global => rfl
  | .call name args span, values, _, _, @Expr.Emits.call _ _ _ _ _ _ f _ hf hlen hargs, hrep => by
      have hfun := hn.function?_of_lookup? hf
      simp only [Expr.height, Symbols.resultWidth, hf] at hrep
      have hcells := f.result.length_cells
      rw [← hcells, Nat.add_comm, ← List.length_append] at hargs
      obtain ⟨shapes, hfits⟩ := Expr.argsFit hn hΓ args hargs
        (hrep.mono (by rw [List.length_append]; omega))
      obtain ⟨shapes', hreserve⟩ : ∃ shapes, Fits Γ.symbols stop targets ⟨values, Γ.frame vars⟩
          (reserveCode f.result) shapes ⟨f.result.cells ++ values, Γ.frame vars⟩ :=
        reserve_fits f.result values (Γ.frame vars)
      exact ⟨_, (hreserve.append hfits).append (.single (transfer?_call hfun) rfl)⟩
  | .unary op x span, values, t, _, .unary hx ho, hrep => by
      rw [Expr.height] at hrep
      obtain ⟨shapes, hfits⟩ := Expr.fits hn hΓ x hx hrep
      rw [ValueType.cells_of_ne_void (UnaryOp.ne_void_of_operation? ho)] at hfits ⊢
      exact ⟨_, hfits.append (.single (transfer?_unary ho) rfl)⟩
  | .binary op l r span, values, t, _,
    @Expr.Emits.binary _ _ _ _ _ _ _ tl _ _ _ _ _ hl hr ho, hrep => by
      rw [Expr.height] at hrep
      obtain ⟨hvoidl, hvoidr, hvoid⟩ := BinaryOp.ne_void_of_operation? ho
      obtain ⟨shapes, hfits⟩ := Expr.fits hn hΓ l hl (hrep.mono (by omega))
      have hr' : r.Emits Γ vars (tl :: values).length _ _ := hr
      obtain ⟨shapes', hfits'⟩ := Expr.fits hn hΓ r hr'
        (hrep.mono (by rw [List.length_cons]; omega))
      rw [ValueType.cells_of_ne_void hvoidl] at hfits
      rw [ValueType.cells_of_ne_void hvoidr] at hfits'
      rw [ValueType.cells_of_ne_void hvoid]
      exact ⟨_, (hfits.append hfits').append (.single (transfer?_binary ho) rfl)⟩

/-- The code of arguments leaves their values, the first one on top. -/
theorem Expr.argsFit (hn : Γ.symbols.Numbered) (hΓ : Γ.NonVoid vars) :
    ∀ (args : List Expr) {values types : List ValueType} {c : List Instruction},
      Expr.ArgsEmit Γ vars values.length args types c →
      Representable (values.length + vars.length + Expr.argsHeight Γ.symbols args) →
      ∃ shapes, Fits Γ.symbols stop targets ⟨values, Γ.frame vars⟩ c shapes
        ⟨types ++ values, Γ.frame vars⟩
  | [], _, _, _, .nil, _ => ⟨_, .nil⟩
  | arg :: args, values, _, _, @Expr.ArgsEmit.cons _ _ _ _ _ _ types _ _ htype hargs harg, hrep => by
      rw [Expr.argsHeight] at hrep
      have hlen : types.length = args.length := hargs.length_eq
      obtain ⟨shapes, hfits⟩ := Expr.argsFit hn hΓ args hargs (hrep.mono (by omega))
      rw [← hlen, Nat.add_comm, ← List.length_append] at harg
      obtain ⟨shapes', hfits'⟩ := Expr.fits hn hΓ arg harg
        (hrep.mono (by rw [List.length_append]; omega))
      rw [ValueType.cells_of_ne_void htype] at hfits'
      exact ⟨_, hfits.append hfits'⟩

end

/-- The same where no other values are waited for. -/
theorem Expr.fitsAlone (hn : Γ.symbols.Numbered) (hΓ : Γ.NonVoid vars) {e : Expr} {t : ValueType}
    {c : List Instruction} (hem : e.Emits Γ vars 0 t c)
    (hrep : Representable (vars.length + e.height Γ.symbols)) :
    ∃ shapes, Fits Γ.symbols stop targets (Γ.shape vars) c shapes ⟨t.cells, Γ.frame vars⟩ := by
  have hem' : e.Emits Γ vars ([] : List ValueType).length t c := hem
  rw [← List.append_nil t.cells]
  exact Expr.fits hn hΓ e hem' (hrep.mono (by simp))

/-! ## Statements -/

/-- What statements of one function stand in: label 0 stands before the end of the function, where
only the parameters are in sight. -/
structure Surroundings (Γ : LoweringContext) (params : List Param) (targets : List Shape) : Prop where
  numbered : Γ.symbols.Numbered
  length : params.length = Γ.params.length
  exit : targets[0]? = some (Γ.shape params)

/-- The variables in sight at a place in a function; the parameters are the outermost ones. -/
structure Sight (Γ : LoweringContext) (params vars : List Param) : Prop where
  nonVoid : Γ.NonVoid vars
  outermost : params <:+ vars

theorem shape_drop {vs : List Param} :
    (Γ.shape (vs ++ vars)).drop vs.length = Γ.shape vars := by
  have hlen : vs.length = (vs.map Param.type).length := (List.length_map ..).symm
  rw [LoweringContext.shape, LoweringContext.shape, Shape.drop, List.length_nil, Nat.sub_zero,
    LoweringContext.frame, List.map_append, List.append_assoc, hlen, List.drop_left, List.drop_nil]
  rfl

theorem length_le_frame : vars.length ≤ (Γ.frame vars).length := by
  rw [LoweringContext.frame, List.length_append, List.length_map]
  exact Nat.le_add_right _ _

/-- Variables of a scope are taken from the stack. -/
theorem popScope_fits {vs : List Param} (hrep : Representable vs.length) :
    ∃ shapes, Fits Γ.symbols stop targets (Γ.shape (vs ++ vars)) (popCode vs.length) shapes
      (Γ.shape vars) := by
  have hlen : (vs ++ vars).length ≤ (Γ.frame (vs ++ vars)).length := length_le_frame
  rw [List.length_append] at hlen
  obtain ⟨shapes, hfits⟩ : ∃ shapes, Fits Γ.symbols stop targets (Γ.shape (vs ++ vars))
      (popCode vs.length) shapes ((Γ.shape (vs ++ vars)).drop vs.length) :=
    Fits.popCode (Nat.le_of_lt hrep) (Nat.le_trans (Nat.le_add_right _ _) hlen)
  rw [shape_drop] at hfits
  exact ⟨shapes, hfits⟩

/-- A value is stored in the variable at a spot and taken from the stack. -/
theorem store_fits (hn : Γ.symbols.Numbered) {name : String} {spot : Spot}
    (h : Spot.ofName? Γ vars name = some spot) (hrep : Representable (1 + vars.length)) :
    ∃ shapes, Fits Γ.symbols stop targets ⟨[spot.type], Γ.frame vars⟩ [spot.store 1, .pop 1]
      shapes (Γ.shape vars) := by
  have hpop : Fits Γ.symbols stop targets ⟨[spot.type], Γ.frame vars⟩ [.pop 1] [_]
      (Γ.shape vars) :=
    .single (transfer?_pop (by decide) (Nat.le_add_left 1 _)) rfl
  cases spot with
  | cell i t =>
      obtain ⟨v, hv, -⟩ := Spot.getElem?_of_cell h
      have hlt := (List.getElem?_eq_some_iff.mp hv).1
      have hstore : Fits Γ.symbols stop targets ⟨[t], Γ.frame vars⟩
          [.storeCell (Spot.fromTop 1 i)] [_] ⟨[t], Γ.frame vars⟩ :=
        .single (transfer?_store (Nat.le_of_lt (hrep.mono (by omega))) (frame_of_cell h)) rfl
      exact ⟨_, hstore.append hpop⟩
  | global slot t =>
      obtain ⟨g, hg, rfl, rfl⟩ := Spot.lookupGlobal?_of_global h
      have hstore : Fits Γ.symbols stop targets ⟨[g.type], Γ.frame vars⟩ [.storeGlobal g.slot] [_]
          ⟨[g.type], Γ.frame vars⟩ :=
        .single (transfer?_storeGlobal (hn.getElem?_of_lookupGlobal? hg)) rfl
      exact ⟨_, hstore.append hpop⟩

/-- A condition and the jump that is taken if it is zero. -/
theorem condition_accepted (stop : Shape) (next : Nat) (hn : Γ.symbols.Numbered)
    (hΓ : Γ.NonVoid vars) {cond : Expr} {c : List Instruction} {l : Nat} (hem : cond.Emits Γ vars 0 .int c)
    (hl : targets[l]? = some (Γ.shape vars))
    (hrep : Representable (vars.length + cond.height Γ.symbols)) :
    Accepted Γ.symbols stop targets next (c ++ [.jumpIfZero l]) [] [] (Γ.shape vars)
      (Γ.shape vars) := by
  obtain ⟨shapes, hfits⟩ := Expr.fitsAlone hn hΓ hem hrep
  exact .ofFits (hfits.append (.jumpIfZero hl))

/-- A jump back or forth to where the same variables are in sight. -/
theorem jump_accepted (stop : Shape) (next : Nat) {l : Nat} (hl : targets[l]? = some (Γ.shape vars)) :
    Accepted Γ.symbols stop targets next [.jump l] [] [] (Γ.shape vars) (Γ.shape vars) :=
  .ofFits (.jump hl)

section Statements

variable {params : List Param} {p : Site} {c : List Instruction} {ls : List Nat} {vs : List Param}

theorem returned_fits (hsur : Surroundings Γ params targets) {value : Option Expr} {span : Span}
    {T : Shape} (hsight : Sight Γ params p.vars)
    (he : Stmt.Emits Γ p (.ret value span) c ls vs)
    (hrep : Representable (Γ.result.width + p.vars.length +
      (Stmt.ret value span).height Γ.symbols)) :
    ∃ shapes, Fits Γ.symbols stop targets (Γ.shape p.vars) c shapes T := by
  obtain ⟨locals, hlocals⟩ := hsight.outermost
  have hlen := congrArg List.length hlocals
  rw [List.length_append] at hlen
  have hcount : p.vars.length - Γ.params.length = locals.length := by
    rw [← hlen, hsur.length, Nat.add_sub_cancel]
  cases he with
  | ret hvoid =>
      rw [hcount, ← hlocals]
      obtain ⟨shapes, hfits⟩ : ∃ shapes, Fits Γ.symbols stop targets
          (Γ.shape (locals ++ params)) (popCode locals.length) shapes (Γ.shape params) :=
        popScope_fits (hrep.mono (by omega))
      exact ⟨_, hfits.append (.jump hsur.exit)⟩
  | retValue hne hem =>
      rw [Stmt.height] at hrep
      have hheight := hem.width_le_height
      rw [ValueType.width_of_ne_void hne] at hheight hrep
      obtain ⟨shapes, hfits⟩ := Expr.fitsAlone hsur.numbered hsight.nonVoid hem
        (hrep.mono (by omega))
      rw [ValueType.cells_of_ne_void hne] at hfits
      have hresult : (Γ.frame p.vars)[p.vars.length]? = some Γ.result := by
        rw [LoweringContext.frame,
          List.getElem?_append_right (Nat.le_of_eq (List.length_map ..)), List.length_map,
          Nat.sub_self, ValueType.cells_of_ne_void hne]
        rfl
      have hstore : Fits Γ.symbols stop targets ⟨[Γ.result], Γ.frame p.vars⟩
          [.storeCell (Spot.fromTop 1 p.vars.length)] [_] ⟨[Γ.result], Γ.frame p.vars⟩ :=
        .single (transfer?_store (Nat.le_of_lt (hrep.mono (by omega))) hresult) rfl
      have hdrop : Shape.drop ⟨[Γ.result], Γ.frame p.vars⟩ (locals.length + 1)
          = Γ.shape params := by
        have hall : (Γ.shape (locals ++ params)).drop locals.length = Γ.shape params := shape_drop
        rw [← hlocals, ← hall]
        rfl
      have hpop : Fits Γ.symbols stop targets ⟨[Γ.result], Γ.frame p.vars⟩
          [.pop (p.vars.length - Γ.params.length + 1)] [⟨[Γ.result], Γ.frame p.vars⟩]
          (Γ.shape params) := by
        rw [hcount, ← hdrop]
        refine .single (transfer?_pop (Nat.le_of_lt (hrep.mono ?_)) ?_) rfl
        · omega
        · have hframe : p.vars.length ≤ (Γ.frame p.vars).length := length_le_frame
          rw [Shape.cells, List.length_append]
          show locals.length + 1 ≤ 1 + (Γ.frame p.vars).length
          omega
      exact ⟨_, (hfits.append hstore).append (hpop.append (.jump hsur.exit))⟩

theorem var_fits (hn : Γ.symbols.Numbered) {decl : VarDecl} (hdecl : decl.type ≠ .void)
    (hΓ : Γ.NonVoid p.vars) (he : Stmt.Emits Γ p (.var decl) c ls vs)
    (hrep : Representable (p.vars.length + (Stmt.var decl).height Γ.symbols)) :
    ∃ shapes, Fits Γ.symbols stop targets (Γ.shape p.vars) c shapes
      (Γ.shape (⟨decl.type, decl.name⟩ :: p.vars)) := by
  have hreserve : Fits Γ.symbols stop targets (Γ.shape p.vars) [.reserve decl.type] [_]
      (Γ.shape (⟨decl.type, decl.name⟩ :: p.vars)) :=
    .declared (declare?_reserve hdecl) rfl
  cases he with
  | var _ => exact ⟨_, hreserve⟩
  | varInit hinit hem =>
      simp only [Stmt.height, hinit] at hrep
      have hheight := hem.width_le_height
      rw [ValueType.width_of_ne_void hdecl] at hheight
      have hnew : ∀ v ∈ [Param.mk decl.type decl.name], v.type ≠ .void := by simpa using hdecl
      have hΓ' : Γ.NonVoid (⟨decl.type, decl.name⟩ :: p.vars) := hΓ.append hnew
      obtain ⟨shapes, hfits⟩ := Expr.fitsAlone hn hΓ' hem
        (hrep.mono (by rw [List.length_cons]; omega))
      rw [ValueType.cells_of_ne_void hdecl] at hfits
      have hspot : Spot.ofName? Γ (⟨decl.type, decl.name⟩ :: p.vars) decl.name
          = some (.cell 0 decl.type) := by
        rw [Spot.ofName?_cons, if_pos rfl]
      obtain ⟨shapes', hstore⟩ := store_fits hn hspot
        (hrep.mono (by rw [List.length_cons]; omega))
      exact ⟨_, hreserve.append (hfits.append hstore)⟩

theorem assign_fits (hn : Γ.symbols.Numbered) {name : String} {e : Expr} {span : Span}
    (hΓ : Γ.NonVoid p.vars) (he : Stmt.Emits Γ p (.assign name e span) c ls vs)
    (hrep : Representable (p.vars.length + (Stmt.assign name e span).height Γ.symbols)) :
    ∃ shapes, Fits Γ.symbols stop targets (Γ.shape p.vars) c shapes (Γ.shape p.vars) := by
  cases he with
  | assign hspot hem =>
      rw [Stmt.height] at hrep
      have hvoid := hΓ.spot hspot
      have hheight := hem.width_le_height
      rw [ValueType.width_of_ne_void hvoid] at hheight
      obtain ⟨shapes, hfits⟩ := Expr.fitsAlone hn hΓ hem (hrep.mono (by omega))
      rw [ValueType.cells_of_ne_void hvoid] at hfits
      obtain ⟨shapes', hstore⟩ := store_fits hn hspot (hrep.mono (by omega))
      exact ⟨_, hfits.append hstore⟩

/-- The value of an expression that is a statement is taken from the stack. -/
theorem expr_fits (hn : Γ.symbols.Numbered) {e : Expr} (hΓ : Γ.NonVoid p.vars)
    (he : Stmt.Emits Γ p (.expr e) c ls vs)
    (hrep : Representable (p.vars.length + (Stmt.expr e).height Γ.symbols)) :
    ∃ shapes, Fits Γ.symbols stop targets (Γ.shape p.vars) c shapes (Γ.shape p.vars) := by
  cases he with
  | @expr _ _ t _ hem =>
      rw [Stmt.height] at hrep
      have hheight := hem.width_le_height
      obtain ⟨shapes, hfits⟩ := Expr.fitsAlone hn hΓ hem (hrep.mono (by omega))
      obtain ⟨shapes', hpop⟩ : ∃ shapes, Fits Γ.symbols stop targets ⟨t.cells, Γ.frame p.vars⟩
          (popCode t.width) shapes (Shape.drop ⟨t.cells, Γ.frame p.vars⟩ t.width) := by
        refine Fits.popCode (Nat.le_of_lt (hrep.mono (by omega))) ?_
        rw [Shape.cells, List.length_append, t.length_cells]
        exact Nat.le_add_right _ _
      have hdrop : Shape.drop ⟨t.cells, Γ.frame p.vars⟩ t.width = Γ.shape p.vars := by
        rw [Shape.drop, ← t.length_cells, List.drop_length, Nat.sub_self, List.drop_zero]
        rfl
      rw [hdrop] at hpop
      exact ⟨_, hfits.append hpop⟩

mutual

/-- The code of a statement goes from the variables in sight before it to those behind it. -/
theorem Stmt.accepted (hsur : Surroundings Γ params targets) :
    ∀ (s : Stmt) {p : Site} {c : List Instruction} {ls : List Nat} {vs : List Param},
      Stmt.Emits Γ p s c ls vs → Sight Γ params p.vars → s.NonVoid →
      SliceAt targets p.labels ((s.labelled p.vars).map Γ.shape) →
      Representable (Γ.result.width + p.vars.length + s.height Γ.symbols) →
      Accepted Γ.symbols stop targets p.next c ls ((s.labelled p.vars).map Γ.shape)
        (Γ.shape p.vars) (Γ.shape (vs ++ p.vars))
  | .block body, p, _, _, _, @Stmt.Emits.block _ _ _ _ _ vs hbody, hsight, hs, htargets, hrep => by
      rw [Stmt.height] at hrep
      rw [Stmt.labelled] at htargets ⊢
      rw [Stmt.NonVoid] at hs
      have hlen := hbody.length_le_height
      obtain ⟨shapes, hpop⟩ : ∃ shapes, Fits Γ.symbols stop targets (Γ.shape (vs ++ p.vars))
          (popCode vs.length) shapes (Γ.shape p.vars) := popScope_fits (hrep.mono (by omega))
      have hall := (Stmt.allAccepted hsur body hbody hsight hs htargets hrep).append (.ofFits hpop)
      rwa [List.append_nil, List.append_nil] at hall
  | .var decl, p, _, _, _, he, hsight, hs, htargets, hrep => by
      rw [Stmt.NonVoid] at hs
      obtain ⟨shapes, hfits⟩ := var_fits hsur.numbered hs hsight.nonVoid he (hrep.mono (by omega))
      cases he with
      | var _ | varInit _ _ => exact .ofFits hfits
  | .assign name e span, p, _, _, _, he, hsight, hs, htargets, hrep => by
      obtain ⟨shapes, hfits⟩ := assign_fits hsur.numbered hsight.nonVoid he (hrep.mono (by omega))
      cases he with
      | assign _ _ => exact .ofFits hfits
  | .expr e, p, _, _, _, he, hsight, hs, htargets, hrep => by
      obtain ⟨shapes, hfits⟩ := expr_fits hsur.numbered hsight.nonVoid he (hrep.mono (by omega))
      cases he with
      | expr _ => exact .ofFits hfits
  | .ifThen cond body, p, _, _, _, @Stmt.Emits.ifThen _ _ _ _ c b ls hcond hbody, hsight, hs,
    htargets, hrep => by
      rw [Stmt.height] at hrep
      rw [Stmt.labelled, List.map_cons] at htargets ⊢
      rw [Stmt.NonVoid] at hs
      have htest := condition_accepted stop p.next hsur.numbered hsight.nonVoid hcond
        htargets.head (hrep.mono (by omega))
      have hinner : Accepted Γ.symbols stop targets (p.next + c.length + 1) b ls
          ((body.labelled p.vars).map Γ.shape) (Γ.shape p.vars) (Γ.shape p.vars) :=
        Stmt.scopedAccepted hsur body hbody hsight hs htargets.tail
          (hrep.mono (by simp only [Site.after]; omega))
      have hall := (htest.append (hinner.cast (by simp [Nat.add_assoc]))).ended
      rw [List.length_append, List.length_append, ← Nat.add_assoc, ← Nat.add_assoc] at hall
      exact hall
  | .ifElse cond body other, p, _, _, _,
    @Stmt.Emits.ifElse _ _ _ _ _ c b d ls ls' hcond hbody hother, hsight, hs, htargets, hrep => by
      rw [Stmt.height] at hrep
      rw [Stmt.labelled, List.map_cons, List.map_append, List.map_cons] at htargets ⊢
      rw [Stmt.NonVoid] at hs
      have htest := condition_accepted stop p.next hsur.numbered hsight.nonVoid hcond
        htargets.head (hrep.mono (by omega))
      have hinner : Accepted Γ.symbols stop targets (p.next + c.length + 1) b ls
          ((body.labelled p.vars).map Γ.shape) (Γ.shape p.vars) (Γ.shape p.vars) :=
        Stmt.scopedAccepted hsur body hbody hsight hs.1 htargets.tail.left
          (hrep.mono (by simp only [Site.after]; omega))
      have hrest := htargets.tail.right
      rw [← hinner.length_eq] at hrest
      have hother : Accepted Γ.symbols stop targets (p.next + c.length + 1 + b.length + 1) d ls'
          ((other.labelled p.vars).map Γ.shape) (Γ.shape p.vars) (Γ.shape p.vars) :=
        (Stmt.scopedAccepted hsur other hother hsight hs.2
          (hrest.tail.cast (by simp [Site.after]; omega))
          (hrep.mono (by simp only [Site.after]; omega))).cast (by simp [Site.after]; omega)
      have hthen := (htest.append (hinner.cast (by simp [Nat.add_assoc]))).append
        (jump_accepted stop _ hrest.head)
      have hall := hthen.ended.append (hother.cast (by simp; omega)).ended
      simp only [List.length_append, List.length_singleton, ← Nat.add_assoc, List.append_nil,
        List.nil_append, List.cons_append] at hall
      exact hall
  | .loop cond body, p, _, _, _, @Stmt.Emits.loop _ _ _ _ c b ls hcond hbody, hsight, hs,
    htargets, hrep => by
      rw [Stmt.height] at hrep
      rw [Stmt.labelled, List.map_cons, List.map_cons] at htargets ⊢
      rw [Stmt.NonVoid] at hs
      have htest := condition_accepted stop p.next hsur.numbered hsight.nonVoid hcond
        htargets.tail.head (hrep.mono (by omega))
      have hinner : Accepted Γ.symbols stop targets (p.next + c.length + 1) b ls
          ((body.labelled p.vars).map Γ.shape) (Γ.shape p.vars) (Γ.shape p.vars) :=
        Stmt.scopedAccepted hsur body hbody hsight hs htargets.tail.tail
          (hrep.mono (by simp only [Site.after]; omega))
      have hall := ((htest.append (hinner.cast (by simp [Nat.add_assoc]))).append
        (jump_accepted stop _ htargets.head)).ended.labelled
      simp only [List.length_append, List.length_singleton, ← Nat.add_assoc, List.append_nil,
        List.nil_append] at hall
      exact hall
  | .ret value span, p, _, _, _, he, hsight, hs, htargets, hrep => by
      obtain ⟨shapes, hfits⟩ := returned_fits hsur hsight he hrep
      cases he with
      | ret _ | retValue _ _ => exact .ofFits hfits

/-- The same for a statement with a scope of its own. -/
theorem Stmt.scopedAccepted (hsur : Surroundings Γ params targets) :
    ∀ (s : Stmt) {p : Site} {c : List Instruction} {ls : List Nat},
      Stmt.ScopedEmit Γ p s c ls → Sight Γ params p.vars → s.NonVoid →
      SliceAt targets p.labels ((s.labelled p.vars).map Γ.shape) →
      Representable (Γ.result.width + p.vars.length + s.height Γ.symbols) →
      Accepted Γ.symbols stop targets p.next c ls ((s.labelled p.vars).map Γ.shape)
        (Γ.shape p.vars) (Γ.shape p.vars)
  | s, p, _, _, @Stmt.ScopedEmit.intro _ _ _ _ _ vs hem, hsight, hs, htargets, hrep => by
      have hlen := congrArg List.length hem.eq_declared
      have hheight := s.declared_le_height Γ.symbols
      obtain ⟨shapes, hpop⟩ : ∃ shapes, Fits Γ.symbols stop targets (Γ.shape (vs ++ p.vars))
          (popCode vs.length) shapes (Γ.shape p.vars) := popScope_fits (hrep.mono (by omega))
      have hall := (Stmt.accepted hsur s hem hsight hs htargets hrep).append (.ofFits hpop)
      rwa [List.append_nil, List.append_nil] at hall

/-- The same for statements one after the other. -/
theorem Stmt.allAccepted (hsur : Surroundings Γ params targets) :
    ∀ (ss : List Stmt) {p : Site} {c : List Instruction} {ls : List Nat} {vs : List Param},
      Stmt.AllEmit Γ p ss c ls vs → Sight Γ params p.vars → Stmt.AllNonVoid ss →
      SliceAt targets p.labels ((Stmt.allLabelled p.vars ss).map Γ.shape) →
      Representable (Γ.result.width + p.vars.length + Stmt.allHeight Γ.symbols ss) →
      Accepted Γ.symbols stop targets p.next c ls ((Stmt.allLabelled p.vars ss).map Γ.shape)
        (Γ.shape p.vars) (Γ.shape (vs ++ p.vars))
  | [], p, _, _, _, .nil, hsight, hs, htargets, hrep => .ofFits .nil
  | s :: rest, p, _, _, _, @Stmt.AllEmit.cons _ _ _ _ c _ ls _ vs _ hfirst hrest, hsight, hs,
    htargets, hrep => by
      rw [Stmt.allHeight] at hrep
      rw [Stmt.allLabelled, List.map_append] at htargets ⊢
      rw [Stmt.AllNonVoid] at hs
      obtain rfl := hfirst.eq_declared
      have hfirst' := Stmt.accepted hsur s hfirst hsight hs.1 htargets.left
        (hrep.mono (by omega))
      have hsight' : Sight Γ params (s.declared ++ p.vars) :=
        ⟨hsight.nonVoid.append (hfirst.nonVoid hs.1),
          hsight.outermost.trans (List.suffix_append _ _)⟩
      have htargets' := htargets.right
      rw [← hfirst'.length_eq] at htargets'
      have hrest' := Stmt.allAccepted hsur rest hrest hsight' hs.2 htargets'
        (hrep.mono (by rw [List.length_append]; omega))
      have hall := hfirst'.append hrest'
      rwa [← List.append_assoc] at hall

end

end Statements

/-! ## Functions -/

/-- Statements, the instruction that takes the parameters, and the end of the function. -/
theorem routine_verified {params : List Param} {R : Routine} {body : Stmt}
    {c : List Instruction} {ls : List Nat} (hn : Γ.symbols.Numbered)
    (hsight : Sight Γ params params) (hlen : params.length = Γ.params.length)
    (hbody : body.NonVoid) (hem : Stmt.Emits Γ ⟨0, 1, params⟩ body c ls [])
    (hrep : Representable (Γ.result.width + params.length + body.height Γ.symbols))
    (hcode : R.code = c ++ popCode params.length ++ [.ending])
    (hlabels : R.labels = (c.length :: ls).map some) :
    ∃ shapes, Verified Γ.symbols R (Γ.shape params) (Γ.shape []) shapes := by
  generalize hbound : (body.labelled params).map Γ.shape = bound
  have hsur : Surroundings Γ params (Γ.shape params :: bound) := ⟨hn, hlen, rfl⟩
  have htargets : SliceAt (Γ.shape params :: bound) 1 ((body.labelled params).map Γ.shape) := by
    rw [hbound]
    exact (SliceAt.self _).tail
  obtain ⟨shapes, hfits, hmarks⟩ : Accepted Γ.symbols (Γ.shape []) (Γ.shape params :: bound) 0 c ls
      ((body.labelled params).map Γ.shape) (Γ.shape params) (Γ.shape params) :=
    Stmt.accepted hsur body hem hsight hbody htargets hrep
  rw [hbound] at hmarks
  obtain ⟨shapes', hpop⟩ : ∃ shapes', Fits Γ.symbols (Γ.shape []) (Γ.shape params :: bound)
      (Γ.shape (params ++ [])) (popCode params.length) shapes' (Γ.shape []) :=
    popScope_fits (hrep.mono (by omega))
  rw [List.append_nil] at hpop
  have hend : Fits Γ.symbols (Γ.shape []) (Γ.shape params :: bound) (Γ.shape []) [.ending]
      [Γ.shape []] (Γ.shape []) := .single transfer?_ending rfl
  have hall := hfits.append (hpop.append hend)
  rw [← List.append_assoc, ← hcode] at hall
  have hmarks' : Marks 0 (shapes ++ (shapes' ++ [Γ.shape []])) (c.length :: ls)
      (Γ.shape params :: bound) := by
    refine .cons ⟨c.length, (Nat.zero_add _).symm, ?_⟩ (hmarks.left (hpop.head rfl))
    rw [← hfits.length_eq, List.getElem?_append_right (Nat.le_refl _), Nat.sub_self]
    exact hpop.head rfl
  exact ⟨_, hall.verified hmarks' hlabels hcode rfl⟩

/-- The shape that the code of a function is called on: the first argument on top, and the cell for
the result below the arguments. -/
def entryShape (decl : FunctionDecl) : Shape :=
  ⟨[], decl.params.map Param.type ++ decl.result.cells⟩

/-- The shape that the code of a function leaves: the cell for the result. -/
def exitShape (decl : FunctionDecl) : Shape := ⟨[], decl.result.cells⟩

end Verifier

namespace Lowering

open Verifier

/-- The code of a function that is lowered without diagnostics passes the verifier. -/
theorem ofFunction_verified {symbols : Symbols} {decl : FunctionDecl} (hn : symbols.Numbered)
    (hs : symbols.NonVoid) (hd : decl.NonVoid) (hsize : Representable (decl.frameHeight symbols))
    (hclean : (ofFunction decl symbols).diagnostics = []) :
    ∃ shapes, Verified symbols (ofFunction decl symbols).routine (entryShape decl)
      (exitShape decl) shapes := by
  obtain ⟨c, ls, hem, hcode, hlabels⟩ := ofFunction_emits hs hd hclean
  have hsight : Sight (.ofFunction symbols decl) decl.params decl.params :=
    ⟨⟨hs, hd.params⟩, List.suffix_refl _⟩
  have hrep : Representable (decl.result.width + decl.params.length +
      (Stmt.block (decl.body.getD [])).height symbols) := by
    rw [Stmt.height]
    exact hsize
  exact routine_verified hn hsight List.length_mapIdx.symm hd.block hem hrep hcode hlabels

theorem ofFunction_verified_sumUpTo :
    ∃ shapes, Verified plusTable (ofFunction sumUpTo plusTable).routine ⟨[], [.int, .int]⟩
      ⟨[], [.int]⟩ shapes :=
  ofFunction_verified plusTable_numbered plusTable_nonVoid sumUpTo_nonVoid (by decide)
    sumUpTo_clean

end Lowering

end Nss
