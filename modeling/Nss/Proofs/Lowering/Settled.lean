/-
# Frames between statements

Between two statements, a frame has a cell for each local variable in sight and no other one; a
variable lies behind as many cells as there were variables when it was declared (`Frame.Settled`).
A statement leaves the scopes around the innermost one as they are, and only adds variables to that
one.

That holds of a statement that fails as well.  A failure can come from any depth of an expression,
with values on the stack that nothing takes, but never from inside a scope that the statement opened:
statements in there are settled on their own.  So the variables that were added are the only ones to
count when lowering goes on, and there never are fewer than before.

    `Frame.Gains`      what a settled statement does to a frame
    `Frame.Leaves`     the same of what lowering a statement ends with, a failure or not
    `Boundary`         the frames between statements, of functions and of the loader
-/
import Nss.Proofs.Lowering.Checking

namespace Nss

open Steps Lower

variable {Γ : LoweringContext} {vars : List Param} {f g h : Frame}

/-! ## Settled frames -/

/-- The local variables in sight, the latest first. -/
def Frame.locals (f : Frame) : List StackVariable := (f.scope :: f.enclosing).flatten

/-- What is added to a settled frame by a settled statement: variables of the innermost scope. -/
structure Frame.Gains (Γ : LoweringContext) (vars : List Param) (f g : Frame)
    (new : List StackVariable) : Prop where
  scope : g.scope = new ++ f.scope
  enclosing : g.enclosing = f.enclosing
  nonVoid : ∀ v ∈ new, v.type ≠ .void
  shows : g.Shows Γ (new.map StackVariable.param ++ vars) 0

namespace Frame.Gains

variable {new new' : List StackVariable}

/-- A frame whose scopes are those of another one has gained nothing. -/
theorem of_same (hscope : g.scope = f.scope) (henclosing : g.enclosing = f.enclosing)
    (hg : g.Shows Γ vars 0) : f.Gains Γ vars g [] :=
  ⟨hscope, henclosing, List.forall_mem_nil _, hg⟩

theorem refl (hf : f.Shows Γ vars 0) : f.Gains Γ vars f [] := of_same rfl rfl hf

theorem trans (h₁ : f.Gains Γ vars g new)
    (h₂ : g.Gains Γ (new.map StackVariable.param ++ vars) h new') :
    f.Gains Γ vars h (new' ++ new) where
  scope := by rw [h₂.scope, h₁.scope, List.append_assoc]
  enclosing := h₂.enclosing.trans h₁.enclosing
  nonVoid := List.forall_mem_append.mpr ⟨h₂.nonVoid, h₁.nonVoid⟩
  shows := by
    rw [List.map_append, List.append_assoc]
    exact h₂.shows

/-- What is in sight afterwards is not `void` either. -/
theorem context (h₁ : f.Gains Γ vars g new) (hΓ : Γ.NonVoid vars) :
    Γ.NonVoid (new.map StackVariable.param ++ vars) := by
  refine hΓ.append fun v hv => ?_
  obtain ⟨w, hw, rfl⟩ := List.mem_map.mp hv
  exact h₁.nonVoid w hw

theorem depth (h₁ : f.Gains Γ vars g new) (hf : f.Shows Γ vars 0) :
    g.depth = f.depth + new.length := by
  have hdepth := h₁.shows.depth
  rw [List.length_append, List.length_map] at hdepth
  have := hf.depth
  omega

theorem labelled (h₁ : f.Gains Γ vars g new) : f.Gains Γ vars g.labelled new :=
  ⟨h₁.scope, h₁.enclosing, h₁.nonVoid, h₁.shows.labelled⟩

theorem bound (h₁ : f.Gains Γ vars g new) (label : Nat) : f.Gains Γ vars (g.bound label) new :=
  ⟨h₁.scope, h₁.enclosing, h₁.nonVoid, h₁.shows.bound label⟩

theorem emitted (h₁ : f.Gains Γ vars g new) (i : Instruction) :
    f.Gains Γ vars (g.emitted i g.depth) new :=
  ⟨h₁.scope, h₁.enclosing, h₁.nonVoid, h₁.shows.emitted i rfl⟩

theorem declared (hf : f.Shows Γ vars 0) {decl : VarDecl} (hdecl : decl.type ≠ .void) :
    f.Gains Γ vars (f.declared decl) [⟨decl.name, decl.type, f.depth⟩] :=
  ⟨rfl, rfl, List.forall_mem_singleton.mpr hdecl, hf.declared decl⟩

end Frame.Gains

/-! ## What lowering a statement ends with -/

/-- The frame that lowering goes on with after a failure. -/
def Frame.recovered (f g : Frame) (d : Diagnostic) : Frame :=
  { g with
    diagnostics := g.diagnostics ++ [d]
    depth := f.depth + (g.scope.length - f.scope.length) }

/-- Lowering goes on with a frame that has gained variables, whether there was a failure or not. -/
def Frame.Leaves (Γ : LoweringContext) (vars : List Param) (f : Frame) :
    EStateM.Result Diagnostic Frame Unit → Prop
  | .ok _ g => ∃ new, f.Gains Γ vars g new
  | .error d g => ∃ new, f.Gains Γ vars (f.recovered g d) new

namespace Frame.Leaves

variable {new : List StackVariable}

/-- A failure behind variables that were gained leaves them. -/
theorem of_error (hf : f.Shows Γ vars 0) (h₁ : f.Gains Γ vars g new) (hh : g.Alike h)
    (d : Diagnostic) : f.Leaves Γ vars (.error d h) := by
  have hscope := hh.scope.trans h₁.scope
  have hdepth : (f.recovered h d).depth = g.depth := by
    show f.depth + (h.scope.length - f.scope.length) = _
    rw [hscope, List.length_append, Nat.add_sub_cancel, h₁.depth hf]
  have hvariables : (f.recovered h d).variables Γ = g.variables Γ := by
    show (h.scope :: h.enclosing).flatten ++ Γ.params = _
    rw [hh.scope, hh.enclosing]
    rfl
  exact ⟨new, hscope, hh.enclosing.trans h₁.enclosing, h₁.nonVoid,
    h₁.shows.congr hvariables hdepth⟩

theorem settle {p : Lower Unit} (hp : f.Leaves Γ vars (p f)) :
    ∃ g new, settle p f = .ok () g ∧ f.Gains Γ vars g new := by
  rw [Lower.settle]
  cases hrun : p f with
  | ok a g =>
      rw [hrun] at hp
      obtain ⟨new, hg⟩ := hp
      exact ⟨g, new, rfl, hg⟩
  | error d g =>
      rw [hrun] at hp
      obtain ⟨new, hg⟩ := hp
      exact ⟨f.recovered g d, new, rfl, hg⟩

end Frame.Leaves

/-- An expression fails and leaves the scopes, or pushes its value, if it has one. -/
theorem Expr.lower_cases (hΓ : Γ.NonVoid vars) {temps : Nat} (hf : f.Shows Γ vars temps) (e : Expr) :
    (∃ d g, e.lower Γ f = .error d g ∧ f.Alike g) ∨
      ∃ t g, e.lower Γ f = .ok t g ∧ f.Alike g ∧ g.Shows Γ vars (temps + t.width) := by
  obtain ⟨g, hrun, hg⟩ := e.lower_comesTo (Γ := Γ) f ⟨rfl, rfl, rfl⟩
  cases hverdict : e.verdict Γ.symbols.lookup? (sightIn Γ f) with
  | error d =>
      rw [hverdict] at hrun
      exact .inl ⟨d, g, hrun, hg⟩
  | ok t =>
      rw [hverdict] at hrun
      obtain ⟨c, -, hcomp⟩ := Expr.lower_emits hΓ e hrun hf
      exact .inr ⟨t, g, hrun, hg, hcomp.shows⟩

namespace Stmt

/-- A value that is computed, stored and taken from the stack again, unless that fails. -/
theorem store_leaves {new : List StackVariable} (hΓ : Γ.NonVoid vars) (hf : f.Shows Γ vars 0)
    (hg : f.Gains Γ vars g new) (e : Expr) {wanted : ValueType} (hwanted : wanted ≠ .void)
    {store : Lower Unit} (hstore : ∀ h, ∃ i, store h = .ok () ((h.emitted i h.depth).popped 1)) :
    f.Leaves Γ vars ((do
      let found ← e.lower Γ
      expectType wanted found e.span
      store : Lower Unit) g) := by
  rw [bind_apply]
  rcases e.lower_cases (hg.context hΓ) hg.shows with ⟨d, h, hrun, hh⟩ | ⟨t, h, hrun, hh, hshows⟩
  · rw [hrun]
    exact .of_error hf hg hh d
  · rw [hrun]
    dsimp only
    by_cases htype : wanted = t
    · obtain ⟨i, hi⟩ := hstore h
      rw [← htype, ValueType.width_of_ne_void hwanted] at hshows
      rw [bind_of_ok (expectType_eq_ok.mpr ⟨htype, rfl⟩), hi]
      refine ⟨new, ?_, ?_, hg.nonVoid, Frame.Shows.popped (hshows.emitted i rfl)⟩
      · exact (Frame.scope_popped _ _).trans (hh.scope.trans hg.scope)
      · exact (Frame.enclosing_popped _ _).trans (hh.enclosing.trans hg.enclosing)
    · rw [expectType, if_neg htype]
      exact .of_error hf hg hh _

theorem lowerVar_leaves (hΓ : Γ.NonVoid vars) {decl : VarDecl} (hdecl : decl.type ≠ .void)
    (hf : f.Shows Γ vars 0) : f.Leaves Γ vars (lowerVar Γ decl f) := by
  rw [lowerVar, bind_apply, get_apply]
  dsimp only
  split
  · exact .of_error hf (.refl hf) ⟨rfl, rfl, rfl⟩ _
  · have hdeclared := Frame.Gains.declared hf hdecl
    cases decl.init with
    | none => exact ⟨_, hdeclared⟩
    | some init =>
        exact store_leaves hΓ hf hdeclared init hdecl fun h => ⟨.storeCell (-2), popCells_apply 1 _⟩

theorem lowerAssign_leaves (hΓ : Γ.NonVoid vars) (name : String) (value : Expr) (span : Span)
    (hf : f.Shows Γ vars 0) : f.Leaves Γ vars (lowerAssign Γ name value span f) := by
  rw [lowerAssign]
  cases hplace : resolve? Γ f name with
  | none =>
      have hfail : resolve Γ name span f = .error (.error (.undeclaredIdentifier name) span) f := by
        rw [resolve, bind_apply, get_apply]
        simp only [hplace]
        rfl
      rw [bind_apply, hfail]
      exact .of_error hf (.refl hf) ⟨rfl, rfl, rfl⟩ _
  | some place =>
      obtain ⟨spot, hspot, hmatches⟩ := hf.resolve? hplace
      have htype : place.type ≠ .void := hmatches.type_eq ▸ hΓ.spot hspot
      rw [bind_of_ok (resolve_eq_ok.mpr ⟨hplace, rfl⟩)]
      refine store_leaves hΓ hf (.refl hf) value htype fun h => ?_
      cases place with
      | stack position t => exact ⟨.storeCell (position - (h.depth : Int)), popCells_apply 1 _⟩
      | global slot t => exact ⟨.storeGlobal slot, popCells_apply 1 _⟩

theorem lowerExpr_leaves (hΓ : Γ.NonVoid vars) (value : Expr) (hf : f.Shows Γ vars 0) :
    f.Leaves Γ vars (lowerExpr Γ value f) := by
  rw [lowerExpr, bind_apply]
  rcases value.lower_cases hΓ hf with ⟨d, g, hrun, hg⟩ | ⟨t, g, hrun, hg, hshows⟩
  · rw [hrun]
    exact .of_error hf (.refl hf) hg d
  · rw [hrun]
    dsimp only
    by_cases hvoid : t.isVoid = true
    · rw [if_neg (not_not.mpr hvoid)]
      rw [ValueType.width, if_pos hvoid] at hshows
      exact ⟨[], .of_same hg.scope hg.enclosing hshows⟩
    · rw [if_pos hvoid, popCells_apply]
      rw [ValueType.width, if_neg hvoid] at hshows
      exact ⟨[], .of_same ((g.scope_popped 1).trans hg.scope)
        ((g.enclosing_popped 1).trans hg.enclosing) hshows.popped⟩

/-- The value that a function returns changes no scope, whether it fails or not. -/
theorem exists_lowerResult_comesTo (Γ : LoweringContext) (value : Option Expr) (span : Span)
    (f : Frame) : ∃ x, ComesTo f (lowerResult Γ value span) x := by
  have hstores (g : Frame) : (do emit (.storeCell (← fromTop Γ.resultPosition)) : Lower Unit) g
      = .ok () (g.emitted (.storeCell (Γ.resultPosition - (g.depth : Int))) g.depth) := rfl
  have hstore : ComesTo f (do emit (.storeCell (← fromTop Γ.resultPosition))) (.ok ()) :=
    .of_ok hstores fun _ => ⟨rfl, rfl, rfl⟩
  cases value with
  | none =>
      cases hvoid : Γ.result.isVoid with
      | true =>
          simp only [lowerResult, hvoid]
          exact ⟨_, .pure ()⟩
      | false =>
          simp only [lowerResult, hvoid]
          exact ⟨_, .fail _ _⟩
  | some value =>
      cases hvoid : Γ.result.isVoid with
      | true =>
          simp only [lowerResult, hvoid]
          exact ⟨_, .fail _ _⟩
      | false =>
          simp only [lowerResult, hvoid]
          exact ⟨_, .bind value.lower_comesTo fun found =>
            .bind (.expectType _ found value.span) fun _ => hstore⟩

/-- A frame that lowering goes on with behind a `return` is the one before it. -/
theorem lowerReturn_leaves (value : Option Expr) (span : Span) (hf : f.Shows Γ vars 0) :
    f.Leaves Γ vars (lowerReturn Γ value span f) := by
  obtain ⟨x, hresult⟩ := exists_lowerResult_comesTo Γ value span f
  obtain ⟨g, hrun, hg⟩ := hresult f ⟨rfl, rfl, rfl⟩
  rw [lowerReturn, bind_of_ok (depth_apply f), bind_apply, hrun]
  cases x with
  | error d => exact .of_error hf (.refl hf) hg d
  | ok u =>
      simp only [outcome, bind_apply, depth_apply, popCells_apply, emit_apply, modify_apply]
      have hscope := (g.scope_popped g.depth).trans hg.scope
      have henclosing := (g.enclosing_popped g.depth).trans hg.enclosing
      refine ⟨[], .of_same hscope henclosing (hf.congr ?_ rfl)⟩
      show ((g.popped g.depth).scope :: (g.popped g.depth).enclosing).flatten ++ Γ.params = _
      rw [hscope, henclosing]
      rfl

/-! ## Parts with a scope of their own -/

/-- A part with a scope of its own takes the variables that it has gained from the stack again. -/
theorem inScope_gains {part : Lower Unit} (hf : f.Shows Γ vars 0)
    (hpart : ∃ g new, part f.opened = .ok () g ∧ f.opened.Gains Γ vars g new) :
    ∃ g, inScope part f = .ok () g ∧ f.Gains Γ vars g [] := by
  obtain ⟨g, new, hrun, hg⟩ := hpart
  have hscope : g.scope = new := hg.scope.trans (List.append_nil new)
  obtain ⟨hlength, hclosed⟩ := hf.closed_of_scope hg.shows hscope hg.enclosing
  refine ⟨g.closed.popped g.scope.length, ?_, .of_same ?_ ?_ ?_⟩
  · rw [inScope, bind_of_ok (openScope_apply f), bind_of_ok hrun, closeScope_apply]
  · rw [Frame.scope_popped]
    show g.enclosing.headD [] = _
    rw [hg.enclosing]
    rfl
  · rw [Frame.enclosing_popped]
    show g.enclosing.tail = _
    rw [hg.enclosing]
    rfl
  · refine Frame.Shows.popped ?_
    rw [Nat.zero_add, hlength]
    exact hclosed

/-- What stands before the first part of a conditional: its label for the part behind it. -/
def branch (Γ : LoweringContext) (cond : Expr) : Lower Nat := do
  lowerCondition Γ cond
  let otherwise ← newLabel
  emitTake 1 (.jumpIfZero otherwise)
  return otherwise

/-- What stands before the other part of a conditional: its label for the end. -/
def otherwise (Γ : LoweringContext) (cond : Expr) (body : Stmt) : Lower Nat := do
  let label ← branch Γ cond
  inScope (settle (lower Γ body))
  let finish ← newLabel
  emit (.jump finish)
  bindLabel label
  return finish

/-- What stands before the body of a loop: its labels for the condition and for the end. -/
def loopHead (Γ : LoweringContext) (cond : Expr) : Lower (Nat × Nat) := do
  let top ← newLabel
  let finish ← newLabel
  bindLabel top
  lowerCondition Γ cond
  emitTake 1 (.jumpIfZero finish)
  return (top, finish)

theorem lower_ifThen (Γ : LoweringContext) (cond : Expr) (body : Stmt) :
    lower Γ (.ifThen cond body) = (do
      let otherwise ← branch Γ cond
      inScope (settle (lower Γ body))
      bindLabel otherwise) := by
  simp only [lower, branch, bind_assoc, pure_bind]

theorem lower_ifElse (Γ : LoweringContext) (cond : Expr) (body other : Stmt) :
    lower Γ (.ifElse cond body other) = (do
      let finish ← otherwise Γ cond body
      inScope (settle (lower Γ other))
      bindLabel finish) := by
  simp only [lower, otherwise, branch, bind_assoc, pure_bind]

theorem lower_loop (Γ : LoweringContext) (cond : Expr) (body : Stmt) :
    lower Γ (.loop cond body) = (do
      let labels ← loopHead Γ cond
      inScope (settle (lower Γ body))
      emit (.jump labels.1)
      bindLabel labels.2) := by
  simp only [lower, loopHead, bind_assoc, pure_bind]

/-- A condition fails and leaves the scopes, or pushes its value. -/
theorem lowerCondition_cases (hΓ : Γ.NonVoid vars) (hf : f.Shows Γ vars 0) (cond : Expr) :
    (∃ d g, lowerCondition Γ cond f = .error d g ∧ f.Alike g) ∨
      ∃ g, lowerCondition Γ cond f = .ok () g ∧ f.Alike g ∧ g.Shows Γ vars 1 := by
  rw [lowerCondition, bind_apply]
  rcases cond.lower_cases hΓ hf with ⟨d, g, hrun, hg⟩ | ⟨t, g, hrun, hg, hshows⟩
  · rw [hrun]
    exact .inl ⟨d, g, rfl, hg⟩
  · rw [hrun]
    dsimp only
    split
    · exact .inl ⟨_, g, rfl, hg⟩
    · next hint =>
        obtain rfl := not_not.mp hint
        exact .inr ⟨g, rfl, hg, hshows⟩

/-- Either the condition fails, or nothing is gained before the first part. -/
theorem branch_cases (hΓ : Γ.NonVoid vars) (hf : f.Shows Γ vars 0) (cond : Expr) :
    (∃ d g, branch Γ cond f = .error d g ∧ f.Alike g) ∨
      ∃ label g, branch Γ cond f = .ok label g ∧ f.Gains Γ vars g [] := by
  rw [branch, bind_apply]
  rcases lowerCondition_cases hΓ hf cond with ⟨d, g, hrun, hg⟩ | ⟨g, hrun, hg, hshows⟩
  · rw [hrun]
    exact .inl ⟨d, g, rfl, hg⟩
  · rw [hrun]
    have htemps := hshows.temps_le
    exact .inr ⟨_, _, rfl, .of_same hg.scope hg.enclosing
      (hshows.labelled.emitted _ (Nat.sub_add_cancel htemps))⟩

/-- Either the condition fails, or nothing is gained before the other part, whatever comes of the
first one. -/
theorem otherwise_cases (hΓ : Γ.NonVoid vars) (hf : f.Shows Γ vars 0) (cond : Expr) {body : Stmt}
    (hbody : ∀ {f : Frame}, f.Shows Γ vars 0 → f.Leaves Γ vars (body.lower Γ f)) :
    (∃ d g, otherwise Γ cond body f = .error d g ∧ f.Alike g) ∨
      ∃ finish g, otherwise Γ cond body f = .ok finish g ∧ f.Gains Γ vars g [] := by
  rw [otherwise, bind_apply]
  rcases branch_cases hΓ hf cond with ⟨d, g, hrun, hg⟩ | ⟨label, g, hrun, hg⟩
  · rw [hrun]
    exact .inl ⟨d, g, rfl, hg⟩
  · obtain ⟨h, hrunBody, hh⟩ := inScope_gains hg.shows (hbody hg.shows.opened).settle
    rw [hrun]
    dsimp only
    rw [bind_of_ok hrunBody]
    exact .inr ⟨_, _, rfl, ((hg.trans hh).labelled.emitted _).bound label⟩

theorem loopHead_cases (hΓ : Γ.NonVoid vars) (hf : f.Shows Γ vars 0) (cond : Expr) :
    (∃ d g, loopHead Γ cond f = .error d g ∧ f.Alike g) ∨
      ∃ labels g, loopHead Γ cond f = .ok labels g ∧ f.Gains Γ vars g [] := by
  have hlabelled : (f.labelled.labelled.bound f.labels.length).Shows Γ vars 0 :=
    hf.labelled.labelled.bound _
  rw [loopHead, bind_of_ok (newLabel_apply _), bind_of_ok (newLabel_apply _),
    bind_of_ok (bindLabel_apply _ _), bind_apply]
  rcases lowerCondition_cases hΓ hlabelled cond with ⟨d, g, hrun, hg⟩ | ⟨g, hrun, hg, hshows⟩
  · rw [hrun]
    exact .inl ⟨d, g, rfl, hg.scope, hg.enclosing, hg.diagnostics⟩
  · rw [hrun]
    have htemps := hshows.temps_le
    exact .inr ⟨_, _, rfl, .of_same hg.scope hg.enclosing
      (hshows.emitted _ (Nat.sub_add_cancel htemps))⟩

/-! ## Statements -/

mutual

/-- A statement leaves the frame with the variables that it declares, also if it fails. -/
theorem lower_leaves {Γ : LoweringContext} : ∀ (s : Stmt) {vars : List Param} {f : Frame},
    Γ.NonVoid vars → s.NonVoid → f.Shows Γ vars 0 → f.Leaves Γ vars (s.lower Γ f)
  | .block body, vars, f, hΓ, hs, hf => by
      rw [Stmt.NonVoid] at hs
      obtain ⟨g, hrun, hg⟩ := inScope_gains hf (lowerAll_gains body hΓ hs hf.opened)
      rw [lower, hrun]
      exact ⟨[], hg⟩
  | .var decl, vars, f, hΓ, hs, hf => by
      rw [Stmt.NonVoid] at hs
      rw [lower]
      exact lowerVar_leaves hΓ hs hf
  | .assign name value span, vars, f, hΓ, _, hf => by
      rw [lower]
      exact lowerAssign_leaves hΓ name value span hf
  | .expr value, vars, f, hΓ, _, hf => by
      rw [lower]
      exact lowerExpr_leaves hΓ value hf
  | .ifThen cond body, vars, f, hΓ, hs, hf => by
      rw [Stmt.NonVoid] at hs
      rw [lower_ifThen, bind_apply]
      rcases branch_cases hΓ hf cond with ⟨d, g, hrun, hg⟩ | ⟨label, g, hrun, hg⟩
      · rw [hrun]
        exact .of_error hf (.refl hf) hg d
      · obtain ⟨h, hbody, hh⟩ := inScope_gains hg.shows
          (lower_leaves body hΓ hs hg.shows.opened).settle
        rw [hrun]
        dsimp only
        rw [bind_of_ok hbody, bindLabel_apply]
        exact ⟨[], (hg.trans hh).bound label⟩
  | .ifElse cond body other, vars, f, hΓ, hs, hf => by
      rw [Stmt.NonVoid] at hs
      rw [lower_ifElse, bind_apply]
      rcases otherwise_cases hΓ hf cond fun hf => lower_leaves body hΓ hs.1 hf with
        ⟨d, g, hrun, hg⟩ | ⟨label, g, hrun, hg⟩
      · rw [hrun]
        exact .of_error hf (.refl hf) hg d
      · obtain ⟨h, hother, hh⟩ := inScope_gains hg.shows
          (lower_leaves other hΓ hs.2 hg.shows.opened).settle
        rw [hrun]
        dsimp only
        rw [bind_of_ok hother, bindLabel_apply]
        exact ⟨[], (hg.trans hh).bound label⟩
  | .loop cond body, vars, f, hΓ, hs, hf => by
      rw [Stmt.NonVoid] at hs
      rw [lower_loop, bind_apply]
      rcases loopHead_cases hΓ hf cond with ⟨d, g, hrun, hg⟩ | ⟨labels, g, hrun, hg⟩
      · rw [hrun]
        exact .of_error hf (.refl hf) hg d
      · obtain ⟨h, hbody, hh⟩ := inScope_gains hg.shows
          (lower_leaves body hΓ hs hg.shows.opened).settle
        rw [hrun]
        dsimp only
        rw [bind_of_ok hbody, bind_of_ok (emit_apply _ _), bindLabel_apply]
        exact ⟨[], ((hg.trans hh).emitted _).bound labels.2⟩
  | .ret value span, vars, f, _, _, hf => by
      rw [lower]
      exact lowerReturn_leaves value span hf

theorem lowerAll_gains {Γ : LoweringContext} : ∀ (ss : List Stmt) {vars : List Param} {f : Frame},
    Γ.NonVoid vars → AllNonVoid ss → f.Shows Γ vars 0 →
      ∃ g new, lowerAll Γ ss f = .ok () g ∧ f.Gains Γ vars g new
  | [], vars, f, _, _, hf => by
      rw [lowerAll]
      exact ⟨f, [], rfl, .refl hf⟩
  | s :: rest, vars, f, hΓ, hs, hf => by
      rw [AllNonVoid] at hs
      obtain ⟨g, new, hfirst, hg⟩ := (lower_leaves s hΓ hs.1 hf).settle
      obtain ⟨h, new', hrest, hh⟩ := lowerAll_gains rest (hg.context hΓ) hs.2 hg.shows
      rw [lowerAll, bind_of_ok hfirst, hrest]
      exact ⟨h, new' ++ new, rfl, hg.trans hh⟩

end

/-- The first frame of a part of a statement whose statements are settled on their own. -/
inductive Enters (Γ : LoweringContext) : Stmt → Frame → Frame → Prop
  | block {body : List Stmt} {f : Frame} : Enters Γ (.block body) f f.opened
  | ifThen {cond : Expr} {body : Stmt} {f g : Frame} {label : Nat} :
      branch Γ cond f = .ok label g → Enters Γ (.ifThen cond body) f g.opened
  | ifElse {cond : Expr} {body other : Stmt} {f g : Frame} {label : Nat} :
      branch Γ cond f = .ok label g → Enters Γ (.ifElse cond body other) f g.opened
  | otherwise {cond : Expr} {body other : Stmt} {f g : Frame} {label : Nat} :
      otherwise Γ cond body f = .ok label g → Enters Γ (.ifElse cond body other) f g.opened
  | loop {cond : Expr} {body : Stmt} {f g : Frame} {labels : Nat × Nat} :
      loopHead Γ cond f = .ok labels g → Enters Γ (.loop cond body) f g.opened

theorem Enters.shows {s : Stmt} (h : s.Enters Γ f g) (hΓ : Γ.NonVoid vars) (hs : s.NonVoid)
    (hf : f.Shows Γ vars 0) : g.Shows Γ vars 0 := by
  have hbranch {cond : Expr} {g : Frame} {label : Nat} (hrun : branch Γ cond f = .ok label g) :
      g.Shows Γ vars 0 := by
    rcases branch_cases hΓ hf cond with ⟨d, g', hrun', -⟩ | ⟨label', g', hrun', hg'⟩
    · rw [hrun] at hrun'
      cases hrun'
    · obtain ⟨-, rfl⟩ := EStateM.Result.ok.inj (hrun.symm.trans hrun')
      exact hg'.shows
  cases h with
  | block => exact hf.opened
  | ifThen hrun => exact (hbranch hrun).opened
  | ifElse hrun => exact (hbranch hrun).opened
  | otherwise hrun =>
      rw [Stmt.NonVoid] at hs
      rcases otherwise_cases hΓ hf _ fun hf => lower_leaves _ hΓ hs.1 hf with
        ⟨d, g', hrun', -⟩ | ⟨label', g', hrun', hg'⟩
      · rw [hrun] at hrun'
        cases hrun'
      · obtain ⟨-, rfl⟩ := EStateM.Result.ok.inj (hrun.symm.trans hrun')
        exact hg'.shows.opened
  | loop hrun =>
      rcases loopHead_cases hΓ hf _ with ⟨d, g', hrun', -⟩ | ⟨labels', g', hrun', hg'⟩
      · rw [hrun] at hrun'
        cases hrun'
      · obtain ⟨-, rfl⟩ := EStateM.Result.ok.inj (hrun.symm.trans hrun')
        exact hg'.shows.opened

end Stmt

/-! ## Frames between statements -/

namespace Lowering

/-- The frames between statements while functions and the loader are lowered, and while a global
variable is checked. -/
inductive Boundary (symbols : Symbols) : LoweringContext → Frame → Prop
  | body {decl : FunctionDecl} {f : Frame} : decl.NonVoid →
      (do let _ ← newLabel
          openScope : Lower Unit)
        { Frame.start with diagnostics := duplicateParams decl.span [] decl.params } = .ok () f →
      Boundary symbols (.ofFunction symbols decl) f
  | loader (result : ValueType) : Boundary symbols (.ofLoader symbols result) Frame.start
  | assumed {slot : Nat} {f : Frame} :
      assumeGlobals (symbols.globals.take slot) Frame.start = .ok () f →
      Boundary symbols (.ofLoader symbols .void) f
  | next {Γ : LoweringContext} {s : Stmt} {f g : Frame} : Boundary symbols Γ f → s.NonVoid →
      settle (s.lower Γ) f = .ok () g → Boundary symbols Γ g
  | enter {Γ : LoweringContext} {s : Stmt} {f g : Frame} : Boundary symbols Γ f → s.NonVoid →
      s.Enters Γ f g → Boundary symbols Γ g

variable {symbols : Symbols}

theorem nonVoid_globals (hs : symbols.NonVoid) {gs : List GlobalSymbol}
    (hgs : ∀ g ∈ gs, g ∈ symbols.globals) : ∀ v ∈ GlobalSymbol.vars gs, v.type ≠ .void := by
  intro v hv
  obtain ⟨g, hg, rfl⟩ := List.mem_map.mp (List.mem_reverse.mp hv)
  exact hs.globals g (hgs g hg)

/-- Between statements there are variables on the stack and nothing else. -/
theorem Boundary.shows (hs : symbols.NonVoid) (h : Boundary symbols Γ f) :
    ∃ vars, Γ.NonVoid vars ∧ f.Shows Γ vars 0 := by
  induction h with
  | @body decl f hd hrun =>
      obtain rfl := (EStateM.Result.ok.inj hrun).2
      exact ⟨decl.params, ⟨hs, hd.params⟩, (start_shows symbols decl _).labelled.opened⟩
  | loader result => exact ⟨[], ⟨hs, List.forall_mem_nil _⟩, start_shows_nil rfl⟩
  | @assumed slot f hrun =>
      obtain ⟨g, hrun', hg⟩ := assumeGlobals_shows (symbols.globals.take slot)
        (start_shows_nil (Γ := .ofLoader symbols .void) rfl)
      obtain ⟨-, rfl⟩ := EStateM.Result.ok.inj (hrun.symm.trans hrun')
      rw [List.append_nil] at hg
      exact ⟨_, ⟨hs, nonVoid_globals hs fun g hg => List.mem_of_mem_take hg⟩, hg⟩
  | next _ hvoid hrun ih =>
      obtain ⟨vars, hΓ, hf⟩ := ih
      obtain ⟨g, new, hrun', hg⟩ := (Stmt.lower_leaves _ hΓ hvoid hf).settle
      obtain ⟨-, rfl⟩ := EStateM.Result.ok.inj (hrun.symm.trans hrun')
      exact ⟨_, hg.context hΓ, hg.shows⟩
  | enter _ hvoid henter ih =>
      obtain ⟨vars, hΓ, hf⟩ := ih
      exact ⟨vars, hΓ, henter.shows hΓ hvoid hf⟩

/-! ## The loader -/

end Lowering
end Nss
