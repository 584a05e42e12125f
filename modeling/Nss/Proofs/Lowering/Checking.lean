/-
# Checking without lowering

Whether an expression can be lowered depends neither on the instructions so far nor on where the
cells of the variables lie, but only on the types of the names in sight and on the functions that are
known.  `Expr.verdict` says what comes of it: the type of the expression, or the one diagnostic.

The first value of a global variable is looked at twice.  `checkGlobal` lowers one declaration, with
cells assumed for the variables before it; `ofGlobals` lowers all of them one after the other, and
goes on after an error.  Both come to the same verdicts, each one behind the variables before:

    checkGlobal slot     the verdict on one declaration      `checkGlobal_eq`
    ofGlobals            the verdicts on all of them         `diagnostics_ofGlobals`

Only the names of the variables must be different: of two with the same name the loader would have
kept the first one in sight, where the check assumes both.
-/
import Nss.Proofs.Lowering.Loader
import Nss.Proofs.Lowering.Signatures

namespace Nss

open Steps Lower

/-! ## Verdicts -/

namespace Expr

mutual

/-- The type of an expression, or what is wrong with it, for the functions that are known and the
types of the names in sight. -/
def verdict (known : String → Option FunctionSymbol) (sight : String → Option ValueType) :
    Expr → Except Diagnostic ValueType
  | int _ _ => .ok .int
  | float _ _ => .ok .float
  | string v span =>
    if Instruction.maxString < (Bytes.ofText v).length then .error (.error .stringTooLong span)
    else .ok .string
  | object _ _ => .ok .object
  | ident name span =>
    match sight name with
    | some type => .ok type
    | none => .error (.error (.undeclaredIdentifier name) span)
  | call name args span =>
    match known name with
    | none => .error (.error (.undeclaredFunction name) span)
    | some f =>
      if f.params.length = args.length then do
        verdicts known sight args f.params
        return f.result
      else .error (.error (.argumentCount name f.params.length args.length) span)
  | unary op x span => do
    let type ← verdict known sight x
    match op.operation? type with
    | some _ => return type
    | none => .error (.error (.unaryOperand op type) span)
  | binary op l r span => do
    let left ← verdict known sight l
    let right ← verdict known sight r
    match op.operation? left right with
    | some (_, type) => return type
    | none => .error (.error (.binaryOperands op left right) span)

/-- What is wrong with arguments, from the last to the first. -/
def verdicts (known : String → Option FunctionSymbol) (sight : String → Option ValueType) :
    List Expr → List ValueType → Except Diagnostic Unit
  | arg :: args, type :: types => do
    verdicts known sight args types
    let found ← verdict known sight arg
    if type = found then return () else .error (.error (.typeMismatch type found) arg.span)
  | _, _ => return ()

end

end Expr

namespace Expr

variable {known : String → Option FunctionSymbol} {sight : String → Option ValueType}

mutual

/-- What is wrong with an expression is an error. -/
theorem verdict_isError : ∀ (e : Expr) {d : Diagnostic}, verdict known sight e = .error d →
    d.isError = true
  | .int _ _, _, h | .float _ _, _, h | .object _ _, _, h => by
      rw [verdict] at h
      cases h
  | .string _ _, d, h => by
      rw [verdict] at h
      split at h
      · obtain rfl := Except.error.inj h
        rfl
      · cases h
  | .ident name _, d, h => by
      rw [verdict] at h
      cases hsight : sight name with
      | none =>
          rw [hsight] at h
          obtain rfl := Except.error.inj h
          rfl
      | some t =>
          rw [hsight] at h
          cases h
  | .call name args _, d, h => by
      rw [verdict] at h
      cases hknown : known name with
      | none =>
          rw [hknown] at h
          obtain rfl := Except.error.inj h
          rfl
      | some f =>
          rw [hknown] at h
          dsimp only at h
          split at h
          · rcases except_bind_eq_error.mp h with hargs | ⟨_, -, hrest⟩
            · exact verdicts_isError args f.params hargs
            · cases hrest
          · obtain rfl := Except.error.inj h
            rfl
  | .unary op x _, d, h => by
      rw [verdict] at h
      rcases except_bind_eq_error.mp h with hx | ⟨t, -, hrest⟩
      · exact verdict_isError x hx
      · cases hop : op.operation? t with
        | none =>
            rw [hop] at hrest
            obtain rfl := Except.error.inj hrest
            rfl
        | some o =>
            rw [hop] at hrest
            cases hrest
  | .binary op l r _, d, h => by
      rw [verdict] at h
      rcases except_bind_eq_error.mp h with hl | ⟨tl, -, h⟩
      · exact verdict_isError l hl
      rcases except_bind_eq_error.mp h with hr | ⟨tr, -, hrest⟩
      · exact verdict_isError r hr
      · cases hop : op.operation? tl tr with
        | none =>
            rw [hop] at hrest
            obtain rfl := Except.error.inj hrest
            rfl
        | some o =>
            rw [hop] at hrest
            cases hrest

theorem verdicts_isError : ∀ (args : List Expr) (types : List ValueType) {d : Diagnostic},
    verdicts known sight args types = .error d → d.isError = true
  | [], _, d, h => by
      simp only [verdicts] at h
      cases h
  | _ :: _, [], d, h => by
      simp only [verdicts] at h
      cases h
  | arg :: args, type :: types, d, h => by
      rw [verdicts] at h
      rcases except_bind_eq_error.mp h with hargs | ⟨_, -, h⟩
      · exact verdicts_isError args types hargs
      rcases except_bind_eq_error.mp h with harg | ⟨found, -, hrest⟩
      · exact verdict_isError arg harg
      · split at hrest
        · cases hrest
        · obtain rfl := Except.error.inj hrest
          rfl

end

end Expr

/-- The type of a name among variables. -/
def Param.sight (vars : List Param) (name : String) : Option ValueType :=
  (vars.find? (·.name = name)).map Param.type

/-- Whether a first value is one for a variable of a type. -/
def Expr.fits (known : String → Option FunctionSymbol) (vars : List Param) (type : ValueType)
    (init : Expr) : Except Diagnostic Unit := do
  let found ← init.verdict known (Param.sight vars)
  if type = found then return () else .error (.error (.typeMismatch type found) init.span)

/-- Whether a variable can be declared behind others in the same scope. -/
def VarDecl.verdict (known : String → Option FunctionSymbol) (vars : List Param) (decl : VarDecl) :
    Except Diagnostic Unit :=
  if vars.any (·.name = decl.name) then .error (.error (.declaredInScope decl.name) decl.span)
  else match decl.init with
  | none => .ok ()
  | some init => init.fits known (⟨decl.type, decl.name⟩ :: vars) decl.type

/-- What is wrong with the declaration of a variable behind others in the same scope, if anything. -/
def VarDecl.faults (known : String → Option FunctionSymbol) (vars : List Param) (decl : VarDecl) :
    List Diagnostic :=
  match decl.verdict known vars with
  | .ok _ => []
  | .error d => [d]

/-- What is wrong with a declaration are errors. -/
theorem VarDecl.faults_isError {known : String → Option FunctionSymbol} {vars : List Param}
    {decl : VarDecl} : ∀ d ∈ decl.faults known vars, d.isError = true := by
  rw [faults]
  cases h : decl.verdict known vars with
  | ok u => exact List.forall_mem_nil _
  | error d =>
      refine List.forall_mem_singleton.mpr ?_
      rw [verdict] at h
      split at h
      · obtain rfl := Except.error.inj h
        rfl
      · split at h
        · cases h
        · next init _ =>
            rcases except_bind_eq_error.mp h with hinit | ⟨found, -, hrest⟩
            · exact init.verdict_isError hinit
            · split at hrest
              · cases hrest
              · obtain rfl := Except.error.inj hrest
                rfl

/-- What is wrong with global variables declared one after the other, behind others. -/
def GlobalSymbol.faults (known : String → Option FunctionSymbol) :
    List Param → List GlobalSymbol → List Diagnostic
  | _, [] => []
  | vars, g :: rest => g.decl.faults known vars ++ faults known (g.param :: vars) rest

/-! ## Steps and their verdicts -/

/-- Two frames show the same variables, and have the same diagnostics. -/
structure Frame.Alike (f g : Frame) : Prop where
  scope : g.scope = f.scope
  enclosing : g.enclosing = f.enclosing
  diagnostics : g.diagnostics = f.diagnostics

/-- A step that comes to a verdict, in the frame that it leaves. -/
def Lower.outcome {α : Type} (g : Frame) : Except Diagnostic α → EStateM.Result Diagnostic Frame α
  | .ok a => .ok a g
  | .error d => .error d g

/-- From every frame like a given one, a step comes to a verdict, and to a frame that is like it
too. -/
def Lower.ComesTo {α : Type} (f₀ : Frame) (p : Lower α) (x : Except Diagnostic α) : Prop :=
  ∀ f, f₀.Alike f → ∃ g, p f = outcome g x ∧ f₀.Alike g

namespace Lower.ComesTo

variable {α β : Type} {f₀ : Frame}

theorem of_ok {p : Lower α} {a : α} {step : Frame → Frame} (hp : ∀ f, p f = .ok a (step f))
    (h : ∀ f, Frame.Alike f (step f)) : ComesTo f₀ p (.ok a) := by
  intro f hf
  obtain ⟨hscope, henclosing, hdiagnostics⟩ := h f
  exact ⟨step f, hp f, hscope.trans hf.scope, henclosing.trans hf.enclosing,
    hdiagnostics.trans hf.diagnostics⟩

theorem pure (a : α) : ComesTo f₀ (Pure.pure a : Lower α) (.ok a) :=
  of_ok (pure_apply a) fun _ => ⟨rfl, rfl, rfl⟩

theorem fail (problem : Problem) (span : Span) :
    ComesTo f₀ (Lower.fail problem span : Lower α) (.error (.error problem span)) :=
  fun f hf => ⟨f, rfl, hf⟩

theorem fail_bind (problem : Problem) (span : Span) (k : α → Lower β) :
    ComesTo f₀ (Lower.fail problem span >>= k) (.error (.error problem span)) :=
  fun f hf => ⟨f, rfl, hf⟩

theorem emit (i : Instruction) : ComesTo f₀ (Lower.emit i) (.ok ()) :=
  of_ok (emit_apply i) fun _ => ⟨rfl, rfl, rfl⟩

theorem emitPush (i : Instruction) : ComesTo f₀ (Lower.emitPush i) (.ok ()) :=
  of_ok (emitPush_apply i) fun _ => ⟨rfl, rfl, rfl⟩

theorem emitTake (n : Nat) (i : Instruction) : ComesTo f₀ (Lower.emitTake n i) (.ok ()) :=
  of_ok (emitTake_apply n i) fun _ => ⟨rfl, rfl, rfl⟩

theorem popCells (n : Nat) : ComesTo f₀ (Lower.popCells n) (.ok ()) := by
  refine of_ok (popCells_apply n) fun f => ?_
  rw [Frame.popped]
  split
  · exact ⟨rfl, rfl, rfl⟩
  · exact ⟨rfl, rfl, rfl⟩

theorem bind {p : Lower α} {x : Except Diagnostic α} {k : α → Lower β}
    {y : α → Except Diagnostic β} (hp : ComesTo f₀ p x) (hk : ∀ a, ComesTo f₀ (k a) (y a)) :
    ComesTo f₀ (p >>= k) (x >>= y) := by
  intro f hf
  obtain ⟨g, hrun, hg⟩ := hp f hf
  rw [bind_apply, hrun]
  cases x with
  | ok a => exact hk a g hg
  | error d => exact ⟨g, rfl, hg⟩

theorem andThen {p : Lower Unit} {k : Unit → Lower β} {y : Except Diagnostic β}
    (hp : ComesTo f₀ p (.ok ())) (hk : ComesTo f₀ (k ()) y) : ComesTo f₀ (p >>= k) y :=
  bind (y := fun _ => y) hp fun _ => hk

theorem expectType (wanted found : ValueType) (span : Span) :
    ComesTo f₀ (Lower.expectType wanted found span)
      (if wanted = found then .ok () else .error (.error (.typeMismatch wanted found) span)) := by
  rw [Lower.expectType]
  split
  · exact pure ()
  · exact fail _ span

end Lower.ComesTo

/-! ## Expressions -/

namespace Expr

variable {Γ : LoweringContext} {f₀ : Frame}

/-- The types of the names that are in sight in a frame. -/
def sightIn (Γ : LoweringContext) (f : Frame) (name : String) : Option ValueType :=
  (resolve? Γ f name).map Place.type

theorem lowerConst_comesTo (type : ValueType) (x : Operand) :
    ComesTo f₀ (lowerConst type x) (.ok type) :=
  .bind (.emitPush _) fun _ => .pure type

theorem lowerIdent_comesTo (name : String) (span : Span) :
    ComesTo f₀ (lowerIdent Γ name span) (verdict Γ.symbols.lookup? (sightIn Γ f₀) (ident name span)) := by
  intro f hf
  have hplace : resolve? Γ f name = resolve? Γ f₀ name := by
    rw [resolve?, resolve?, hf.scope, hf.enclosing]
  rw [verdict, sightIn, ← hplace, lowerIdent, bind_apply, resolve, bind_apply, get_apply]
  dsimp only
  cases resolve? Γ f name with
  | none => exact ⟨f, rfl, hf⟩
  | some place =>
      cases place with
      | stack position t => exact ⟨_, rfl, hf.scope, hf.enclosing, hf.diagnostics⟩
      | global slot t => exact ⟨_, rfl, hf.scope, hf.enclosing, hf.diagnostics⟩

mutual

/-- Lowering an expression comes to the verdict on it. -/
theorem lower_comesTo : ∀ e : Expr,
    ComesTo f₀ (e.lower Γ) (e.verdict Γ.symbols.lookup? (sightIn Γ f₀))
  | .int v span => by
      rw [lower, verdict]
      exact lowerConst_comesTo _ _
  | .float v span => by
      rw [lower, verdict]
      exact lowerConst_comesTo _ _
  | .string v span => by
      rw [lower, verdict]
      split
      · exact .fail _ span
      · exact lowerConst_comesTo _ _
  | .object v span => by
      rw [lower, verdict]
      exact lowerConst_comesTo _ _
  | .ident name span => by
      rw [lower]
      exact lowerIdent_comesTo name span
  | .call name args span => by
      rw [lower, verdict, callee]
      cases Γ.symbols.lookup? name with
      | none => exact .fail_bind _ span _
      | some f =>
          have hrest : ComesTo f₀
              (do lowerArgs Γ args f.params
                  emitTake args.length (.callTo f.id)
                  return f.result)
              (do verdicts Γ.symbols.lookup? (sightIn Γ f₀) args f.params
                  return f.result) := by
            refine .bind (lowerArgs_comesTo args f.params) fun _ => ?_
            exact .andThen (.emitTake _ _) (.pure f.result)
          dsimp only
          split
          · rw [pure_bind]
            cases f.result.isVoid with
            | true => exact hrest
            | false => exact .andThen (.emitPush _) hrest
          · exact .fail_bind _ span _
  | .unary op x span => by
      rw [lower, verdict]
      refine .bind (lower_comesTo x) fun t => ?_
      cases op.operation? t with
      | none => exact .fail _ span
      | some o => exact .andThen (.emit _) (.pure t)
  | .binary op l r span => by
      rw [lower, verdict]
      refine .bind (lower_comesTo l) fun tl => .bind (lower_comesTo r) fun tr => ?_
      cases op.operation? tl tr with
      | none => exact .fail _ span
      | some ot => exact .andThen (.emitTake _ _) (.pure ot.2)

theorem lowerArgs_comesTo : ∀ (args : List Expr) (types : List ValueType),
    ComesTo f₀ (lowerArgs Γ args types)
      (verdicts Γ.symbols.lookup? (sightIn Γ f₀) args types)
  | [], types => by
      simp only [lowerArgs, verdicts]
      exact .pure ()
  | arg :: args, [] => by
      simp only [lowerArgs, verdicts]
      exact .pure ()
  | arg :: args, type :: types => by
      rw [lowerArgs, verdicts]
      refine .bind (lowerArgs_comesTo args types) fun _ => ?_
      exact .bind (lower_comesTo arg) fun found => .expectType type found arg.span

end

end Expr

/-! ## Declarations of global variables -/

/-- The variables of the innermost scope. -/
def Frame.vars (f : Frame) : List Param := f.scope.map StackVariable.param

variable {symbols : Symbols} {result : ValueType}

/-- The loader sees nothing but the variables of one scope. -/
theorem Expr.sightIn_ofLoader {f : Frame} (hf : f.enclosing = []) :
    sightIn (.ofLoader symbols result) f = Param.sight f.vars := by
  funext name
  have hfind : f.vars.find? (·.name = name)
      = (f.scope.find? (·.name = name)).map StackVariable.param := by
    rw [Frame.vars, List.find?_map]
    rfl
  rw [sightIn, resolve?, Param.sight, hfind, hf, List.flatten_cons, List.flatten_nil,
    List.append_nil]
  cases f.scope.find? (·.name = name) with
  | none => rfl
  | some v => rfl

/-- A first value is lowered and stored, or not, as its verdict says. -/
theorem Expr.fits_comesTo (symbols : Symbols) (result : ValueType) {f : Frame}
    (hf : f.enclosing = []) (type : ValueType) (init : Expr) :
    ComesTo f
      (do let found ← init.lower (.ofLoader symbols result)
          expectType type found init.span
          emit (.storeCell (-2))
          popCells 1)
      (init.fits symbols.lookup? f.vars type) := by
  have hverdict : ComesTo f (init.lower (.ofLoader symbols result)) _ := Expr.lower_comesTo init
  rw [Expr.sightIn_ofLoader hf] at hverdict
  refine .bind hverdict fun found => ?_
  have hstore : ComesTo f (do emit (.storeCell (-2)); popCells 1) (.ok ()) :=
    .andThen (.emit _) (.popCells 1)
  rw [Lower.expectType]
  split
  · exact hstore
  · exact .fail_bind _ init.span _

/-- The declaration of a global variable is lowered, or fails, as its verdict says.  The variable is
in sight afterwards even if its first value is wrong. -/
theorem Stmt.exists_lowerVar (symbols : Symbols) (result : ValueType) {f : Frame}
    (hf : f.enclosing = []) (decl : VarDecl) :
    ∃ g, lowerVar (.ofLoader symbols result) decl f
        = outcome g (decl.verdict symbols.lookup? f.vars) ∧
      g.enclosing = [] ∧ g.diagnostics = f.diagnostics ∧
      ((∀ v ∈ f.vars, v.name ≠ decl.name) → g.vars = ⟨decl.type, decl.name⟩ :: f.vars) := by
  have hany : f.scope.any (·.name = decl.name) = f.vars.any (·.name = decl.name) := by
    rw [Frame.vars, List.any_map]
    rfl
  rw [lowerVar, bind_apply, get_apply, VarDecl.verdict]
  dsimp only
  rw [hany]
  by_cases hdup : f.vars.any (·.name = decl.name) = true
  · rw [if_pos hdup, if_pos hdup]
    refine ⟨f, rfl, hf, rfl, ?_⟩
    intro hnew
    obtain ⟨v, hv, hname⟩ := List.any_eq_true.mp hdup
    exact absurd (of_decide_eq_true hname) (hnew v hv)
  · rw [if_neg hdup, if_neg hdup]
    cases hinit : decl.init with
    | none => exact ⟨f.declared decl, rfl, hf, rfl, fun _ => rfl⟩
    | some init =>
        obtain ⟨g, hrun, hg⟩ := Expr.fits_comesTo symbols result (f := f.declared decl) hf
          decl.type init (f.declared decl) ⟨rfl, rfl, rfl⟩
        refine ⟨g, hrun, hg.enclosing.trans hf, hg.diagnostics, fun _ => ?_⟩
        rw [Frame.vars, hg.scope]
        rfl

/-- A global variable is in sight once its declaration was settled, and what was wrong with it was
noted. -/
theorem Stmt.exists_settle_var (symbols : Symbols) (result : ValueType) {f : Frame}
    (hf : f.enclosing = []) (decl : VarDecl) :
    ∃ g, settle (Stmt.lower (.ofLoader symbols result) (.var decl)) f = .ok () g ∧
      g.enclosing = [] ∧ g.diagnostics = f.diagnostics ++ decl.faults symbols.lookup? f.vars ∧
      ((∀ v ∈ f.vars, v.name ≠ decl.name) → g.vars = ⟨decl.type, decl.name⟩ :: f.vars) := by
  obtain ⟨g, hrun, henclosing, hdiagnostics, hvars⟩ := exists_lowerVar symbols result hf
    decl
  rw [settle, Stmt.lower, hrun, VarDecl.faults, ← hdiagnostics]
  cases decl.verdict symbols.lookup? f.vars with
  | ok u => exact ⟨g, rfl, henclosing, (List.append_nil _).symm, hvars⟩
  | error d => exact ⟨_, rfl, henclosing, rfl, hvars⟩

namespace Lowering

/-- The loader comes to the verdicts on all declarations, each one behind those before it. -/
theorem exists_loadGlobals_faults (symbols : Symbols) (result : ValueType) :
    ∀ (gs : List GlobalSymbol) {f : Frame}, f.enclosing = [] → (gs.map GlobalSymbol.name).Nodup →
      (∀ g ∈ gs, ∀ v ∈ f.vars, v.name ≠ g.name) →
      ∃ g, loadGlobals (.ofLoader symbols result) gs f = .ok () g ∧
        g.diagnostics = f.diagnostics ++ GlobalSymbol.faults symbols.lookup? f.vars gs
  | [], f, _, _, _ => ⟨f, rfl, (List.append_nil _).symm⟩
  | g :: rest, f, hf, hnames, hnew => by
      obtain ⟨hfirst, hnames⟩ := List.nodup_cons.mp hnames
      obtain ⟨hnewg, hnewrest⟩ := List.forall_mem_cons.mp hnew
      obtain ⟨h, hsettle, hinner, hnoted, hvars⟩ := Stmt.exists_settle_var symbols result
        hf g.decl
      have hvars : h.vars = g.param :: f.vars := hvars hnewg
      have hapart : ∀ w ∈ rest, ∀ v ∈ h.vars, v.name ≠ w.name := by
        rw [hvars]
        intro w hw
        refine List.forall_mem_cons.mpr ⟨?_, hnewrest w hw⟩
        intro heq
        exact hfirst (List.mem_map.mpr ⟨w, hw, heq.symm⟩)
      obtain ⟨k, hload, hall⟩ := exists_loadGlobals_faults symbols result rest hinner hnames hapart
      refine ⟨k, bind_eq_ok.mpr ⟨(), h, hsettle, hload⟩, ?_⟩
      rw [hall, hnoted, hvars, GlobalSymbol.faults, List.append_assoc]

/-- Global variables that are assumed are in sight, the last one first. -/
theorem exists_assumeGlobals : ∀ (gs : List GlobalSymbol) (f : Frame),
    ∃ g, assumeGlobals gs f = .ok () g ∧ g.enclosing = f.enclosing ∧
      g.diagnostics = f.diagnostics ∧ g.vars = GlobalSymbol.vars gs ++ f.vars
  | [], f => ⟨f, rfl, rfl, rfl, rfl⟩
  | g :: rest, f => by
      obtain ⟨h, hrest, henclosing, hdiagnostics, hvars⟩ := exists_assumeGlobals rest { f with
        scope := { name := g.name, type := g.type, position := f.depth } :: f.scope
        depth := f.depth + 1 }
      refine ⟨h, hrest, henclosing, hdiagnostics, ?_⟩
      rw [hvars, GlobalSymbol.vars, GlobalSymbol.vars, List.map_cons, List.reverse_cons,
        List.append_assoc]
      rfl

/-- Checking a global variable comes to the verdict on its declaration behind those before it. -/
theorem checkGlobal_eq (symbols : Symbols) (slot : Nat) :
    checkGlobal slot symbols = match symbols.globals[slot]? with
      | none => []
      | some g => g.decl.faults symbols.lookup? (GlobalSymbol.vars (symbols.globals.take slot)) := by
  obtain ⟨f, hassume, hinner, hclean, hvars⟩ :=
    exists_assumeGlobals (symbols.globals.take slot) Frame.start
  rw [checkGlobal]
  cases symbols.globals[slot]? with
  | none =>
      rw [Frame.after, bind_apply, hassume]
      exact hclean
  | some g =>
      obtain ⟨h, hsettle, -, hnoted, -⟩ := Stmt.exists_settle_var symbols .void hinner g.decl
      rw [Frame.after, bind_apply, hassume]
      dsimp only
      rw [hsettle]
      show h.diagnostics = _
      rw [hnoted, hclean, hvars]
      exact congrArg (g.decl.faults symbols.lookup?) (List.append_nil _)

/-- What is wrong with a global variable are errors, whatever the table. -/
theorem checkGlobal_errors (symbols : Symbols) (slot : Nat) :
    ∀ d ∈ checkGlobal slot symbols, d.isError = true := by
  rw [checkGlobal_eq]
  cases symbols.globals[slot]? with
  | none => exact List.forall_mem_nil _
  | some g => exact VarDecl.faults_isError

/-- The call of the entry point does not fail. -/
theorem callEntry_comesTo {f₀ : Frame} (Γ : LoweringContext) (entry : FunctionSymbol) :
    ComesTo f₀ (callEntry Γ entry) (.ok ()) := by
  have hstore (position : Int) :
      ComesTo f₀ (do emit (.storeCell (← fromTop position))) (.ok ()) := by
    have hstores (f : Frame) : (do emit (.storeCell (← fromTop position)) : Lower Unit) f
        = .ok () (f.emitted (.storeCell (position - (f.depth : Int))) f.depth) := rfl
    exact .of_ok hstores fun _ => ⟨rfl, rfl, rfl⟩
  rw [callEntry]
  split
  · exact .emit _
  · refine .andThen (.emitPush _) (.andThen (.emit _) ?_)
    rw [← bind_assoc]
    exact .andThen (hstore _) (.popCells 1)

/-- The diagnostics of the loader are the verdicts on all declarations: what comes behind the
variables does not fail. -/
theorem diagnostics_ofGlobals (entry : Option FunctionSymbol)
    (hnames : (symbols.globals.map GlobalSymbol.name).Nodup) :
    (ofGlobals symbols entry).diagnostics
      = GlobalSymbol.faults symbols.lookup? [] symbols.globals := by
  have hbody (result : ValueType) :
      (Frame.start.after (loaderBody (.ofLoader symbols result) entry)).diagnostics
        = GlobalSymbol.faults symbols.lookup? [] symbols.globals := by
    obtain ⟨f, hload, hfaults⟩ := exists_loadGlobals_faults symbols result
      symbols.globals (f := Frame.start) rfl hnames fun _ _ => List.forall_mem_nil _
    have hend : ComesTo f
        (do emitTake 1 (.simple .restoreBp)
            if 0 < symbols.globals.length then emit (.pop symbols.globals.length)
            emit .ending) (.ok ()) := by
      refine .andThen (.emitTake 1 _) ?_
      split
      · exact .andThen (.emit _) (.emit _)
      · exact .emit _
    have hthen {p rest : Lower Unit} (hp : ComesTo f p (.ok ())) (hrest : ComesTo f rest (.ok ())) :
        ComesTo f (p >>= fun _ => rest) (.ok ()) := .andThen hp hrest
    have hall : ∃ g, loaderBody (.ofLoader symbols result) entry Frame.start = .ok () g ∧
        Frame.Alike f g := by
      cases entry with
      | none =>
          obtain ⟨g, hrun, hg⟩ := hthen (.emitPush _) hend f ⟨rfl, rfl, rfl⟩
          exact ⟨g, bind_eq_ok.mpr ⟨(), f, hload, hrun⟩, hg⟩
      | some e =>
          obtain ⟨g, hrun, hg⟩ :=
            hthen (.emitPush _) (hthen (callEntry_comesTo _ e) hend) f ⟨rfl, rfl, rfl⟩
          exact ⟨g, bind_eq_ok.mpr ⟨(), f, hload, hrun⟩, hg⟩
    obtain ⟨g, hrun, hg⟩ := hall
    rw [Frame.after, hrun]
    exact hg.diagnostics.trans hfaults
  cases entry with
  | none => exact hbody .void
  | some e => exact hbody e.result

/-- The verdicts on the last declarations of a table are what checking them one by one gives. -/
theorem faults_eq_flatMap : ∀ before rest : List GlobalSymbol, symbols.globals = before ++ rest →
    GlobalSymbol.faults symbols.lookup? (GlobalSymbol.vars before) rest
      = (List.range' before.length rest.length).flatMap fun slot => checkGlobal slot symbols
  | _, [], _ => rfl
  | before, g :: rest, h => by
      have hfirst : checkGlobal before.length symbols
          = g.decl.faults symbols.lookup? (GlobalSymbol.vars before) := by
        rw [checkGlobal_eq, h, List.getElem?_append_right (Nat.le_refl _), Nat.sub_self,
          List.take_left]
        rfl
      have hrest := faults_eq_flatMap (before ++ [g]) rest (by rw [h, List.append_assoc]; rfl)
      rw [GlobalSymbol.vars_concat, List.length_append, List.length_singleton] at hrest
      rw [GlobalSymbol.faults, hrest, List.length_cons, List.range'_succ, List.flatMap_cons, hfirst]

/-! ## Where a declaration is checked -/

/-- Checking a global variable does not depend on the variables behind it. -/
theorem checkGlobal_congr_globals {s t : Symbols} {slot : Nat} (hfunctions : t.functions = s.functions)
    (hglobals : s.globals <+: t.globals) (hslot : slot < s.globals.length) :
    checkGlobal slot t = checkGlobal slot s := by
  obtain ⟨rest, hrest⟩ := hglobals
  have hlookup : t.lookup? = s.lookup? := by
    funext name
    rw [Symbols.lookup?, Symbols.lookup?, hfunctions]
  rw [checkGlobal_eq, checkGlobal_eq, ← hrest, List.getElem?_append_left hslot,
    List.take_append_of_le_length (Nat.le_of_lt hslot), hlookup]

/-- A global variable that is checked without a diagnostic still is when more functions and more
variables are known. -/
theorem checkGlobal_eq_nil_mono {s t : Symbols} {slot : Nat} (hcovered : s.Covered t)
    (hglobals : s.globals <+: t.globals) (hslot : slot < s.globals.length)
    (h : checkGlobal slot s = []) : checkGlobal slot t = [] := by
  let u : Symbols := ⟨t.functions, s.globals⟩
  have hwithin : s.Within u := ⟨fun hf => hcovered hf, rfl⟩
  rw [checkGlobal_congr_globals (s := u) (t := t) rfl hglobals hslot]
  rcases checkGlobal_within hwithin slot with hsame | ⟨d, hd, -⟩
  · rw [hsame, h]
  · rw [h] at hd
    cases hd

end Lowering

end Nss
