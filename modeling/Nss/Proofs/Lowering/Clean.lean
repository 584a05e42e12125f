/-
# Clean lowering follows the rules

What lowering adds to a frame without a diagnostic is what the rules of emission say.  An expression
that fails adds a diagnostic, and no diagnostic is ever taken back, so that in the end of a clean
function nothing can have failed on the way.
-/
import Nss.Proofs.Lowering.Growth
import Nss.Proofs.Operators

namespace Nss

open Steps

/-! ## Expressions -/

/-- Between two frames lie the instructions of an expression, or of several. -/
structure Frame.Computes (Γ : LoweringContext) (vars : List Param) (f g : Frame)
    (c : List Instruction) (temps' : Nat) : Prop where
  extend : f.Extends g c [] []
  shows : g.Shows Γ vars temps'
  diagnostics : g.diagnostics = f.diagnostics

namespace Frame.Computes

variable {Γ : LoweringContext} {vars : List Param} {f g h : Frame} {c c' : List Instruction}
  {temps temps' temps'' : Nat}

theorem refl (hf : f.Shows Γ vars temps) : f.Computes Γ vars f [] temps :=
  ⟨.refl f, hf, rfl⟩

theorem trans (h₁ : f.Computes Γ vars g c temps) (h₂ : g.Computes Γ vars h c' temps') :
    f.Computes Γ vars h (c ++ c') temps' :=
  ⟨h₁.extend.trans h₂.extend, h₂.shows, h₂.diagnostics.trans h₁.diagnostics⟩

theorem emitted (hf : f.Shows Γ vars temps) (i : Instruction) {depth : Nat}
    (hd : depth + temps = f.depth + temps') :
    f.Computes Γ vars (f.emitted i depth) [i] temps' :=
  ⟨f.extends_emitted i depth, hf.emitted i hd, rfl⟩

/-- A condition, and the jump that takes its value. -/
theorem branch (h₁ : f.Computes Γ vars g c 1) (label : Nat) :
    f.Computes Γ vars (g.emitted (.jumpIfZero label) (g.depth - 1)) (c ++ [.jumpIfZero label]) 0 :=
  h₁.trans (.emitted h₁.shows _ (by have := h₁.shows.temps_le; omega))

/-- The cell for a result is reserved, if there is a result. -/
theorem reserved {β : Type} {t : ValueType} {k : Unit → Lower β} {x : β} (hf : f.Shows Γ vars temps)
    (hrun : (if ¬ t.isVoid = true then Lower.emitPush (.reserve t) >>= k else k ()) f = .ok x h) :
    ∃ g, f.Computes Γ vars g (reserveCode t) (temps + t.width) ∧ k () g = .ok x h := by
  rw [reserveCode, ValueType.width]
  cases hv : t.isVoid with
  | true =>
      simp only [hv, not_true, if_false] at hrun
      exact ⟨f, .refl hf, hrun⟩
  | false =>
      simp only [hv, Bool.false_eq_true, not_false_eq_true, if_true, bind_apply,
        Lower.emitPush_apply] at hrun
      refine ⟨_, .emitted hf _ ?_, hrun⟩
      simp only [Bool.false_eq_true, if_false]
      omega

end Frame.Computes

namespace Lower

theorem lowerConst_eq_ok {t t' : ValueType} {x : Operand} {f g : Frame} :
    Expr.lowerConst t x f = .ok t' g ↔ t = t' ∧ f.emitted ⟨.const t, x⟩ (f.depth + 1) = g := by
  simp only [Expr.lowerConst, bind_apply, emitPush_apply, pure_apply, EStateM.Result.ok.injEq]

/-- Pushing a variable, once it is clear where it lies. -/
theorem lowerIdent_eq_ok {Γ : LoweringContext} {vars : List Param} {temps : Nat} {name : String}
    {span : Span} {f g : Frame} {t : ValueType} (hf : f.Shows Γ vars temps)
    (h : Expr.lowerIdent Γ name span f = .ok t g) :
    ∃ spot, Spot.ofName? Γ vars name = some spot ∧ spot.type = t ∧
      g = f.emitted (spot.load temps) (f.depth + 1) := by
  obtain ⟨place, f', hres, h⟩ := bind_eq_ok.mp h
  obtain ⟨hplace, rfl⟩ := resolve_eq_ok.mp hres
  obtain ⟨spot, hspot, hm⟩ := hf.resolve? hplace
  refine ⟨spot, hspot, ?_⟩
  match place, spot, hm with
  | .stack position t', .cell i _, ⟨hpos, rfl⟩ =>
      simp only [bind_apply, fromTop_apply, emitPush_apply, pure_apply,
        EStateM.Result.ok.injEq] at h
      obtain ⟨rfl, rfl⟩ := h
      exact ⟨rfl, by rw [hpos]; rfl⟩
  | .global slot t', .global _ _, ⟨rfl, rfl⟩ =>
      simp only [bind_apply, emitPush_apply, pure_apply, EStateM.Result.ok.injEq] at h
      obtain ⟨rfl, rfl⟩ := h
      exact ⟨rfl, rfl⟩

end Lower

/-- Nothing in sight is `void`. -/
structure LoweringContext.NonVoid (Γ : LoweringContext) (vars : List Param) : Prop where
  symbols : Γ.symbols.NonVoid
  vars : ∀ v ∈ vars, v.type ≠ .void

namespace LoweringContext.NonVoid

variable {Γ : LoweringContext} {vars : List Param}

theorem spot (hΓ : Γ.NonVoid vars) {name : String} {spot : Spot}
    (h : Spot.ofName? Γ vars name = some spot) : spot.type ≠ .void := by
  cases spot with
  | cell i t =>
      obtain ⟨v, hv, rfl⟩ := Spot.getElem?_of_cell h
      exact hΓ.vars v (List.mem_of_getElem? hv)
  | global slot t =>
      obtain ⟨g, hg, rfl, rfl⟩ := Spot.lookupGlobal?_of_global h
      exact hΓ.symbols.globals g (List.mem_of_find?_eq_some hg)

theorem params (hΓ : Γ.NonVoid vars) {name : String} {f : FunctionSymbol}
    (h : Γ.symbols.lookup? name = some f) : ∀ t ∈ f.params, t ≠ .void :=
  hΓ.symbols.params f (List.mem_of_find?_eq_some h)

end LoweringContext.NonVoid

mutual

/-- An expression that is lowered without failure follows the rules. -/
theorem Expr.lower_emits {Γ : LoweringContext} {vars : List Param} (hΓ : Γ.NonVoid vars) :
    ∀ (e : Expr) {f g : Frame} {t : ValueType} {temps : Nat},
      e.lower Γ f = .ok t g → f.Shows Γ vars temps →
      ∃ c, e.Emits Γ vars temps t c ∧ f.Computes Γ vars g c (temps + t.width)
  | .int v span, f, g, t, temps, h, hf => by
      rw [Expr.lower, Lower.lowerConst_eq_ok] at h
      obtain ⟨rfl, rfl⟩ := h
      exact ⟨_, .int, .emitted hf _ (by show _ = _ + (_ + 1); omega)⟩
  | .float v span, f, g, t, temps, h, hf => by
      rw [Expr.lower, Lower.lowerConst_eq_ok] at h
      obtain ⟨rfl, rfl⟩ := h
      exact ⟨_, .float, .emitted hf _ (by show _ = _ + (_ + 1); omega)⟩
  | .string v span, f, g, t, temps, h, hf => by
      rw [Expr.lower] at h
      split at h
      · cases h
      · next hlen =>
          rw [Lower.lowerConst_eq_ok] at h
          obtain ⟨rfl, rfl⟩ := h
          exact ⟨_, .string (by omega), .emitted hf _ (by show _ = _ + (_ + 1); omega)⟩
  | .object v span, f, g, t, temps, h, hf => by
      rw [Expr.lower, Lower.lowerConst_eq_ok] at h
      obtain ⟨rfl, rfl⟩ := h
      exact ⟨_, .object, .emitted hf _ (by show _ = _ + (_ + 1); omega)⟩
  | .ident name span, f, g, t, temps, h, hf => by
      rw [Expr.lower] at h
      obtain ⟨spot, hspot, rfl, rfl⟩ := Lower.lowerIdent_eq_ok hf h
      refine ⟨_, .ident hspot, .emitted hf _ ?_⟩
      rw [ValueType.width_of_ne_void (hΓ.spot hspot)]
      omega
  | .call name args span, f, g, t, temps, h, hf => by
      rw [Expr.lower] at h
      obtain ⟨s, f₁, hcallee, h⟩ := bind_eq_ok.mp h
      obtain ⟨hs, hlen, rfl⟩ := Lower.callee_eq_ok.mp hcallee
      obtain ⟨f₂, hc₁, h⟩ := Frame.Computes.reserved hf h
      obtain ⟨_, f₃, hargs, h⟩ := bind_eq_ok.mp h
      simp only [bind_apply, Lower.emitTake_apply, pure_apply, EStateM.Result.ok.injEq] at h
      obtain ⟨rfl, rfl⟩ := h
      obtain ⟨c, hc, hc₂⟩ := Expr.lowerArgs_emit hΓ args hlen.symm (hΓ.params hs) hargs hc₁.shows
      refine ⟨_, .call hs hlen hc, (hc₁.trans hc₂).trans (.emitted hc₂.shows _ ?_)⟩
      have := hc₂.shows.temps_le
      omega
  | .unary op x span, f, g, t, temps, h, hf => by
      rw [Expr.lower] at h
      obtain ⟨t₁, f₁, hx, h⟩ := bind_eq_ok.mp h
      obtain ⟨c, hc, hc₁⟩ := Expr.lower_emits hΓ x hx hf
      cases ho : op.operation? t₁ with
      | none => simp only [ho] at h; cases h
      | some o =>
          simp only [ho, bind_apply, Lower.emit_apply, pure_apply,
            EStateM.Result.ok.injEq] at h
          obtain ⟨rfl, rfl⟩ := h
          exact ⟨_, .unary hc ho, hc₁.trans (.emitted hc₁.shows _ rfl)⟩
  | .binary op l r span, f, g, t, temps, h, hf => by
      rw [Expr.lower] at h
      obtain ⟨tl, f₁, hl, h⟩ := bind_eq_ok.mp h
      obtain ⟨tr, f₂, hr, h⟩ := bind_eq_ok.mp h
      cases ho : op.operation? tl tr with
      | none => simp only [ho] at h; cases h
      | some ot =>
          obtain ⟨o, t'⟩ := ot
          obtain ⟨hvl, hvr, hvt⟩ := BinaryOp.ne_void_of_operation? ho
          simp only [ho, bind_apply, Lower.emitTake_apply, pure_apply,
            EStateM.Result.ok.injEq] at h
          obtain ⟨rfl, rfl⟩ := h
          obtain ⟨cl, hcl, hc₁⟩ := Expr.lower_emits hΓ l hl hf
          rw [ValueType.width_of_ne_void hvl] at hc₁
          obtain ⟨cr, hcr, hc₂⟩ := Expr.lower_emits hΓ r hr hc₁.shows
          rw [ValueType.width_of_ne_void hvr] at hc₂
          refine ⟨_, .binary hcl hcr ho, (hc₁.trans hc₂).trans (.emitted hc₂.shows _ ?_)⟩
          rw [ValueType.width_of_ne_void hvt]
          have := hc₂.shows.temps_le
          omega

/-- Arguments that are lowered without failure follow the rules. -/
theorem Expr.lowerArgs_emit {Γ : LoweringContext} {vars : List Param} (hΓ : Γ.NonVoid vars) :
    ∀ (args : List Expr) {types : List ValueType} {f g : Frame} {temps : Nat},
      args.length = types.length → (∀ t ∈ types, t ≠ .void) →
      Expr.lowerArgs Γ args types f = .ok () g → f.Shows Γ vars temps →
      ∃ c, Expr.ArgsEmit Γ vars temps args types c ∧
        f.Computes Γ vars g c (temps + args.length)
  | [], types, f, g, temps, hlen, _, h, hf => by
      cases types with
      | cons _ _ => cases hlen
      | nil =>
          cases h
          exact ⟨_, .nil, .refl hf⟩
  | arg :: args, types, f, g, temps, hlen, hvoid, h, hf => by
      cases types with
      | nil => cases hlen
      | cons type types =>
          rw [Expr.lowerArgs] at h
          obtain ⟨_, f₁, hargs, h⟩ := bind_eq_ok.mp h
          obtain ⟨found, f₂, harg, h⟩ := bind_eq_ok.mp h
          obtain ⟨rfl, rfl⟩ := Lower.expectType_eq_ok.mp h
          have htype := hvoid type List.mem_cons_self
          obtain ⟨c, hc, hc₁⟩ := Expr.lowerArgs_emit hΓ args (Nat.succ.inj hlen)
            (fun t ht => hvoid t (List.mem_cons_of_mem _ ht)) hargs hf
          obtain ⟨c', hc', hc₂⟩ := Expr.lower_emits hΓ arg harg hc₁.shows
          rw [ValueType.width_of_ne_void htype] at hc₂
          exact ⟨_, .cons htype hc hc', hc₁.trans hc₂⟩

end

/-! ## Statements -/

/-- The site that a frame has come to. -/
def Frame.site (f : Frame) (vars : List Param) : Site := ⟨f.code.size, f.labels.length, vars⟩

/-- Between two frames lie the instructions, the labels and the variables of a statement, or of
several, that did not fail. -/
structure Frame.Adds (Γ : LoweringContext) (vars : List Param) (f g : Frame)
    (c : List Instruction) (ls : List (Option Nat)) (vs : List Param) : Prop where
  extend : ∃ new, f.Extends g c ls new
  shows : g.Shows Γ (vs ++ vars) 0
  nonVoid : ∀ v ∈ vs, v.type ≠ .void
  diagnostics : f.diagnostics = []

namespace Frame.Adds

variable {Γ : LoweringContext} {vars vs vs' : List Param} {f g h : Frame}
  {c c' : List Instruction} {ls ls' : List (Option Nat)}

theorem trans (h₁ : f.Adds Γ vars g c ls vs) (h₂ : g.Adds Γ (vs ++ vars) h c' ls' vs') :
    f.Adds Γ vars h (c ++ c') (ls ++ ls') (vs' ++ vs) := by
  obtain ⟨new, hn⟩ := h₁.extend
  obtain ⟨new', hn'⟩ := h₂.extend
  refine ⟨⟨_, hn.trans hn'⟩, ?_, ?_, h₁.diagnostics⟩
  · rw [List.append_assoc]
    exact h₂.shows
  · intro v hv
    rcases List.mem_append.mp hv with hv | hv
    · exact h₂.nonVoid v hv
    · exact h₁.nonVoid v hv

theorem labelled (hf : f.Shows Γ vars 0) (hd : f.diagnostics = []) :
    f.Adds Γ vars f.labelled [] [none] [] :=
  ⟨⟨_, .labelled f⟩, hf.labelled, by simp, hd⟩

/-- Instructions and labels can be written in other ways. -/
theorem cast (h₁ : f.Adds Γ vars g c ls vs) (hc : c = c') (hl : ls = ls') :
    f.Adds Γ vars g c' ls' vs := by
  rw [← hc, ← hl]
  exact h₁

theorem bound (ls : List (Option Nat)) (h₁ : f.Adds Γ vars g c (ls ++ none :: ls') vs)
    {label : Nat} (hl : label = f.labels.length + ls.length) :
    f.Adds Γ vars (g.bound label) c (ls ++ some g.code.size :: ls') vs := by
  obtain ⟨new, hn⟩ := h₁.extend
  exact ⟨⟨_, hn.bound ls hl⟩, h₁.shows.bound _, h₁.nonVoid, h₁.diagnostics⟩

/-- What an expression computes and an instruction takes again leaves the stack as it was. -/
theorem ofComputes (h₁ : f.Computes Γ vars g c 0) (hd : f.diagnostics = []) :
    f.Adds Γ vars g c [] [] :=
  ⟨⟨_, h₁.extend⟩, h₁.shows, by simp, hd⟩

theorem size_eq (h₁ : f.Adds Γ vars g c ls vs) : g.code.size = f.code.size + c.length := by
  obtain ⟨new, hn⟩ := h₁.extend
  exact hn.size

theorem labels_eq (h₁ : f.Adds Γ vars g c ls vs) :
    g.labels.length = f.labels.length + ls.length := by
  obtain ⟨new, hn⟩ := h₁.extend
  exact hn.labels_length

theorem site_eq (h₁ : f.Adds Γ vars g c ls vs) :
    g.site (vs ++ vars) = { (f.site vars).after c ls.length with vars := vs ++ vars } := by
  rw [Frame.site, h₁.size_eq, h₁.labels_eq]
  rfl

end Frame.Adds

theorem LoweringContext.NonVoid.append {Γ : LoweringContext} {vars vs : List Param}
    (hΓ : Γ.NonVoid vars) (hvs : ∀ v ∈ vs, v.type ≠ .void) : Γ.NonVoid (vs ++ vars) where
  symbols := hΓ.symbols
  vars v hv := (List.mem_append.mp hv).elim (hvs v) (hΓ.vars v)

namespace Stmt

variable {Γ : LoweringContext} {vars : List Param}

/-- A part with a scope of its own takes its variables from the stack. -/
theorem inScope_adds (part : Lower Unit) {f g : Frame}
    {R : Site → List Instruction → List Nat → List Param → Prop}
    (hpart : ∀ {f' g' : Frame}, f'.Shows Γ vars 0 → part f' = .ok () g' → g'.diagnostics = [] →
      ∃ c ls vs, R (f'.site vars) c ls vs ∧ f'.Adds Γ vars g' c (ls.map some) vs)
    (hf : f.Shows Γ vars 0) (h : inScope part f = .ok () g) (hg : g.diagnostics = []) :
    ∃ c ls vs, R (f.site vars) c ls vs ∧
      f.Adds Γ vars g (c ++ popCode vs.length) (ls.map some) [] := by
  rw [inScope, bind_apply, Lower.openScope_apply] at h
  obtain ⟨_, g', hg', h⟩ := bind_eq_ok.mp h
  rw [Lower.closeScope_apply] at h
  obtain rfl := (EStateM.Result.ok.inj h).2
  rw [Frame.diagnostics_popped] at hg
  obtain ⟨c, ls, vs, hR, hadds⟩ := hpart hf.opened hg' hg
  obtain ⟨new, hn⟩ := hadds.extend
  obtain ⟨hlen, hclosed⟩ := hf.closed hadds.shows hn
  rw [hlen]
  refine ⟨c, ls, vs, hR, ⟨[], ?_⟩, ?_, by simp, hadds.diagnostics⟩
  · have := hn.inScope.trans (.popped g'.closed vs.length)
    rwa [List.append_nil] at this
  · exact Frame.Shows.popped (by rwa [Nat.zero_add])

theorem lowerVar_emits (hΓ : Γ.NonVoid vars) {decl : VarDecl} (hdecl : decl.type ≠ .void)
    {f g : Frame} (h : lowerVar Γ decl f = .ok () g) (hf : f.Shows Γ vars 0)
    (hg : g.diagnostics = []) :
    ∃ c, Stmt.Emits Γ (f.site vars) (.var decl) c [] [⟨decl.type, decl.name⟩] ∧
      f.Adds Γ vars g c [] [⟨decl.type, decl.name⟩] := by
  obtain ⟨_, _, hget, h⟩ := bind_eq_ok.mp h
  obtain ⟨rfl, rfl⟩ := EStateM.Result.ok.inj hget
  have hvoid : ∀ v ∈ [Param.mk decl.type decl.name], v.type ≠ .void := by
    simpa using hdecl
  have hshows := hf.declared decl
  split at h
  · cases h
  · cases hinit : decl.init with
    | none =>
        rw [hinit] at h
        obtain rfl := (EStateM.Result.ok.inj h).2
        exact ⟨_, .var hinit, ⟨_, .declared f decl⟩, hshows, hvoid, hg⟩
    | some e =>
        rw [hinit] at h
        change (do
          let found ← e.lower Γ
          Lower.expectType decl.type found e.span
          Lower.emit (.storeCell (-2))
          Lower.popCells 1 : Lower Unit) (f.declared decl) = .ok () g at h
        obtain ⟨found, f₁, he, h⟩ := bind_eq_ok.mp h
        obtain ⟨_, f₂, htype, h⟩ := bind_eq_ok.mp h
        obtain ⟨rfl, rfl⟩ := Lower.expectType_eq_ok.mp htype
        simp only [bind_apply, Lower.emit_apply, Lower.popCells_apply, EStateM.Result.ok.injEq,
          true_and] at h
        subst h
        obtain ⟨c, hc, hcomp⟩ := Expr.lower_emits (hΓ.append hvoid) e he hshows
        rw [ValueType.width_of_ne_void hdecl] at hcomp
        have hstore := hcomp.trans (.emitted hcomp.shows (.storeCell (-2))
          (show f₁.depth + (0 + 1) = f₁.depth + (0 + 1) from rfl))
        rw [Frame.diagnostics_popped] at hg
        have hall := (Frame.Extends.declared f decl).trans (hstore.extend.trans (.popped _ 1))
        rw [List.append_assoc] at hall
        exact ⟨_, .varInit hinit hc, ⟨_, hall⟩, hstore.shows.popped, hvoid,
          hcomp.diagnostics.symm.trans hg⟩

theorem lowerAssign_emits (hΓ : Γ.NonVoid vars) {name : String} {e : Expr} {span : Span}
    {f g : Frame} (h : lowerAssign Γ name e span f = .ok () g) (hf : f.Shows Γ vars 0)
    (hg : g.diagnostics = []) :
    ∃ c, Stmt.Emits Γ (f.site vars) (.assign name e span) c [] [] ∧ f.Adds Γ vars g c [] [] := by
  obtain ⟨place, f₁, hres, h⟩ := bind_eq_ok.mp h
  obtain ⟨hplace, rfl⟩ := Lower.resolve_eq_ok.mp hres
  obtain ⟨found, f₂, he, h⟩ := bind_eq_ok.mp h
  obtain ⟨_, f₃, htype, h⟩ := bind_eq_ok.mp h
  obtain ⟨rfl, rfl⟩ := Lower.expectType_eq_ok.mp htype
  obtain ⟨spot, hspot, hm⟩ := hf.resolve? hplace
  obtain ⟨c, hc, hcomp⟩ := Expr.lower_emits hΓ e he hf
  rw [hm.type_eq] at hc hcomp
  rw [ValueType.width_of_ne_void (hΓ.spot hspot)] at hcomp
  have hstore : f₂.emitted (spot.store 1) f₂.depth = match place with
      | .stack position _ => f₂.emitted (.storeCell (position - (f₂.depth : Int))) f₂.depth
      | .global slot _ => f₂.emitted (.storeGlobal slot) f₂.depth := by
    have h₁ := hf.depth
    have h₂ := hcomp.shows.depth
    match place, spot, hm with
    | .stack position t, .cell i _, ⟨hpos, rfl⟩ =>
        have : position - (f₂.depth : Int) = Spot.fromTop 1 i := by
          simp only [Spot.fromTop] at hpos ⊢
          omega
        simp only [this, Spot.store]
    | .global slot t, .global _ _, ⟨rfl, rfl⟩ => rfl
  have hrest : g = (f₂.emitted (spot.store 1) f₂.depth).popped 1 := by
    rw [hstore]
    cases place with
    | stack position t =>
        simp only [bind_apply, Lower.fromTop_apply, Lower.emit_apply, Lower.popCells_apply,
          EStateM.Result.ok.injEq, true_and] at h
        exact h.symm
    | global slot t =>
        simp only [bind_apply, Lower.emit_apply, Lower.popCells_apply, EStateM.Result.ok.injEq,
          true_and] at h
        exact h.symm
  subst hrest
  have hstored := hcomp.trans (.emitted hcomp.shows (spot.store 1)
    (show f₂.depth + (0 + 1) = f₂.depth + (0 + 1) from rfl))
  rw [Frame.diagnostics_popped] at hg
  have hall := hstored.extend.trans (.popped _ 1)
  rw [List.append_assoc] at hall
  exact ⟨_, .assign hspot hc, ⟨_, hall⟩, hstored.shows.popped, by simp,
    hcomp.diagnostics.symm.trans hg⟩

theorem lowerExpr_emits (hΓ : Γ.NonVoid vars) {e : Expr} {f g : Frame}
    (h : lowerExpr Γ e f = .ok () g) (hf : f.Shows Γ vars 0) (hg : g.diagnostics = []) :
    ∃ c, Stmt.Emits Γ (f.site vars) (.expr e) c [] [] ∧ f.Adds Γ vars g c [] [] := by
  obtain ⟨t, f₁, he, h⟩ := bind_eq_ok.mp h
  obtain ⟨c, hc, hcomp⟩ := Expr.lower_emits hΓ e he hf
  have hrest : g = f₁.popped t.width := by
    rw [ValueType.width]
    cases hv : t.isVoid with
    | true =>
        simp only [hv, not_true, if_false] at h
        exact (EStateM.Result.ok.inj h).2.symm
    | false =>
        simp only [hv, Bool.false_eq_true, not_false_eq_true, if_true] at h
        exact (EStateM.Result.ok.inj ((Lower.popCells_apply 1 f₁).symm.trans h)).2.symm
  subst hrest
  rw [Frame.diagnostics_popped] at hg
  exact ⟨_, .expr hc, ⟨_, hcomp.extend.trans (.popped f₁ _)⟩, hcomp.shows.popped, by simp,
    hcomp.diagnostics.symm.trans hg⟩

theorem lowerCondition_emits (hΓ : Γ.NonVoid vars) {e : Expr} {f g : Frame}
    (h : lowerCondition Γ e f = .ok () g) (hf : f.Shows Γ vars 0) :
    ∃ c, e.Emits Γ vars 0 .int c ∧ f.Computes Γ vars g c 1 := by
  obtain ⟨t, f₁, he, h⟩ := bind_eq_ok.mp h
  split at h
  · cases h
  · next ht =>
      obtain rfl := (EStateM.Result.ok.inj h).2
      obtain rfl := not_not.mp ht
      exact Expr.lower_emits hΓ e he hf

/-- What a function returns is written below all its variables. -/
theorem lowerResult_emits (hΓ : Γ.NonVoid vars) {e : Expr} {span : Span} {f g : Frame}
    (h : lowerResult Γ (some e) span f = .ok () g) (hf : f.Shows Γ vars 0) :
    Γ.result ≠ .void ∧ ∃ c, e.Emits Γ vars 0 Γ.result c ∧
      f.Computes Γ vars g (c ++ [.storeCell (Spot.fromTop 1 vars.length)]) 1 := by
  cases hvoid : Γ.result.isVoid with
  | true =>
      simp only [lowerResult, hvoid] at h
      cases h
  | false =>
      have hne : Γ.result ≠ .void := fun hv => by rw [hv] at hvoid; cases hvoid
      simp only [lowerResult, hvoid] at h
      obtain ⟨found, f₁, he, h⟩ := bind_eq_ok.mp h
      obtain ⟨_, f₂, htype, h⟩ := bind_eq_ok.mp h
      obtain ⟨rfl, rfl⟩ := Lower.expectType_eq_ok.mp htype
      simp only [bind_apply, Lower.fromTop_apply, Lower.emit_apply, EStateM.Result.ok.injEq,
        true_and] at h
      subst h
      obtain ⟨c, hc, hcomp⟩ := Expr.lower_emits hΓ e he hf
      rw [ValueType.width_of_ne_void hne] at hcomp
      have hpos : Γ.resultPosition - (f₁.depth : Int) = Spot.fromTop 1 vars.length := by
        have := hcomp.shows.depth
        simp only [LoweringContext.resultPosition, Spot.fromTop]
        omega
      rw [hpos]
      exact ⟨hne, c, hc, hcomp.trans (.emitted hcomp.shows _ rfl)⟩

theorem lowerReturn_emits (hΓ : Γ.NonVoid vars) {value : Option Expr} {span : Span}
    {f g : Frame} (h : lowerReturn Γ value span f = .ok () g) (hf : f.Shows Γ vars 0)
    (hg : g.diagnostics = []) :
    ∃ c, Stmt.Emits Γ (f.site vars) (.ret value span) c [] [] ∧ f.Adds Γ vars g c [] [] := by
  simp only [lowerReturn] at h
  obtain ⟨_, _, hbefore, h⟩ := bind_eq_ok.mp h
  obtain ⟨rfl, rfl⟩ := EStateM.Result.ok.inj hbefore
  obtain ⟨_, f₁, hresult, h⟩ := bind_eq_ok.mp h
  simp only [bind_apply, Lower.depth_apply, Lower.popCells_apply, Lower.emit_apply, modify_apply,
    EStateM.Result.ok.injEq, true_and] at h
  have hg' : f₁.diagnostics = [] := by
    rw [← hg, ← h]
    exact (f₁.diagnostics_popped _).symm
  have hleft : f₁.Extends g (popCode f₁.depth ++ [.jump 0]) [] [] := by
    rw [← h]
    exact (Frame.Extends.popped f₁ f₁.depth).trans (Frame.extends_emitted _ (.jump 0) f.depth)
  have hvars : g.variables Γ = f₁.variables Γ := by
    rw [← h]
    exact f₁.variables_popped _ Γ
  have hdepth : g.depth = f.depth := by rw [← h]
  have hlen := hf.depth
  cases value with
  | none =>
      cases hvoid : Γ.result.isVoid with
      | false =>
          simp only [lowerResult, hvoid] at hresult
          cases hresult
      | true =>
          simp only [lowerResult, hvoid] at hresult
          obtain rfl := (EStateM.Result.ok.inj hresult).2
          rw [show f.depth = vars.length - Γ.params.length by omega] at hleft
          exact ⟨_, .ret (ValueType.isVoid_iff.mp hvoid), ⟨_, hleft⟩, hf.congr hvars hdepth,
            by simp, hg'⟩
  | some e =>
      obtain ⟨hne, c, hc, hcomp⟩ := lowerResult_emits hΓ hresult hf
      have hlen₁ := hcomp.shows.depth
      have hpop : popCode f₁.depth = [.pop (vars.length - Γ.params.length + 1)] := by
        have := hcomp.shows.temps_le
        rw [popCode, if_pos (by omega), show f₁.depth = vars.length - Γ.params.length + 1 by
          have := hf.temps_le
          omega]
      rw [hpop] at hleft
      have hsame : f₁.variables Γ = f.variables Γ := by
        rw [Frame.variables, Frame.variables, hcomp.extend.scope, hcomp.extend.enclosing]
        rfl
      exact ⟨_, .retValue hne hc, ⟨_, hcomp.extend.trans hleft⟩,
        hf.congr (hvars.trans hsame) hdepth, by simp, hcomp.diagnostics.symm.trans hg'⟩

/-- Wherever it is lowered without a diagnostic, with these variables in sight, a statement follows
the rules. -/
def FollowsRules (Γ : LoweringContext) (vars : List Param) (s : Stmt) : Prop :=
  ∀ ⦃f g : Frame⦄, f.Shows Γ vars 0 → s.lower Γ f = .ok () g → g.diagnostics = [] →
    ∃ c ls vs, Stmt.Emits Γ (f.site vars) s c ls vs ∧ f.Adds Γ vars g c (ls.map some) vs

theorem clean_before_inScope {s : Stmt} (hs : s.NonVoid) {f g : Frame}
    (h : inScope (Lower.settle (s.lower Γ)) f = .ok () g) (hg : g.diagnostics = []) :
    f.diagnostics = [] :=
  have hR := Frame.branching_cleanBefore Γ.symbols
  Lower.clean_of_moves (hR.moves_inScope (hR.moves_settle (lower_moves hR s hs))) h hg

namespace FollowsRules

variable {s body other : Stmt} {cond : Expr} {f f₁ g : Frame}

/-- A statement with a scope of its own follows the rules if the statement does. -/
theorem withScope (hs : s.FollowsRules Γ vars) (hf : f.Shows Γ vars 0)
    (h : inScope (Lower.settle (s.lower Γ)) f = .ok () g) (hg : g.diagnostics = []) :
    ∃ c ls, Stmt.ScopedEmit Γ (f.site vars) s c ls ∧ f.Adds Γ vars g c (ls.map some) [] := by
  obtain ⟨c, ls, vs, hs, hadds⟩ := inScope_adds (Lower.settle (s.lower Γ))
    (R := fun p c ls vs => Stmt.Emits Γ p s c ls vs)
    (fun hf' h' hg' => hs hf' (Lower.eq_ok_of_settle h' hg') hg') hf h hg
  exact ⟨_, ls, .intro hs, hadds⟩

/-- A condition, the jump over a branch, and the branch.  The label of the jump is still to be bound. -/
theorem branch (hbody : body.FollowsRules Γ vars) (hΓ : Γ.NonVoid vars) (hf : f.Shows Γ vars 0)
    (hcond : lowerCondition Γ cond f = .ok () f₁)
    (h : inScope (Lower.settle (body.lower Γ))
      (f₁.emitted (.jumpIfZero f.labels.length) (f₁.depth - 1)).labelled = .ok () g)
    (hg : g.diagnostics = []) :
    ∃ c b ls, cond.Emits Γ vars 0 .int c ∧
      Stmt.ScopedEmit Γ (((f.site vars).after c 1).after [.jumpIfZero f.labels.length] 0) body b ls ∧
      f.Adds Γ vars g (c ++ [.jumpIfZero f.labels.length] ++ b) (none :: ls.map some) [] := by
  obtain ⟨c, hc, hcomp⟩ := lowerCondition_emits hΓ hcond hf
  have hjump := hcomp.branch f.labels.length
  obtain ⟨b, ls, hb, hadds⟩ := hbody.withScope hjump.shows.labelled h hg
  have hd := hjump.diagnostics.symm.trans hadds.diagnostics
  have hbefore := (Frame.Adds.ofComputes hjump hd).trans (.labelled hjump.shows hadds.diagnostics)
  have hsite := hbefore.site_eq.trans
    (show _ = ((f.site vars).after c 1).after [.jumpIfZero f.labels.length] 0 by
      simp [Site.after, Frame.site, Nat.add_assoc])
  exact ⟨c, b, ls, hc, hsite ▸ hb, (hbefore.trans hadds).cast (by simp) (by simp)⟩

theorem ifThen (hbody : body.FollowsRules Γ vars) (hΓ : Γ.NonVoid vars) :
    (Stmt.ifThen cond body).FollowsRules Γ vars := by
  intro f g hf h hg
  rw [lower] at h
  obtain ⟨_, f₁, hcond, h⟩ := bind_eq_ok.mp h
  obtain ⟨_, -, hcomp⟩ := lowerCondition_emits hΓ hcond hf
  have hl : f₁.labels.length = f.labels.length := hcomp.extend.labels_length
  simp only [bind_apply, Lower.newLabel_apply, Lower.emitTake_apply, hl] at h
  obtain ⟨_, f₂, hscope, h⟩ := bind_eq_ok.mp h
  rw [Lower.bindLabel_apply] at h
  obtain rfl := (EStateM.Result.ok.inj h).2
  obtain ⟨c, b, ls, hc, hb, hthen⟩ := hbody.branch hΓ hf hcond hscope hg
  have hsize := hthen.size_eq
  refine ⟨_, _, [], .ifThen hc hb, (hthen.bound [] rfl).cast ?_ ?_⟩
  · simp [Frame.site]
  · simp [hsize, Frame.site]
    omega

theorem ifElse (hbody : body.FollowsRules Γ vars) (hother : other.FollowsRules Γ vars)
    (hvoid : other.NonVoid) (hΓ : Γ.NonVoid vars) :
    (Stmt.ifElse cond body other).FollowsRules Γ vars := by
  intro f g hf h hg
  rw [lower] at h
  obtain ⟨_, f₁, hcond, h⟩ := bind_eq_ok.mp h
  obtain ⟨_, -, hcomp⟩ := lowerCondition_emits hΓ hcond hf
  have hl : f₁.labels.length = f.labels.length := hcomp.extend.labels_length
  simp only [bind_apply, Lower.newLabel_apply, Lower.emitTake_apply, hl] at h
  obtain ⟨_, f₂, hscope, h⟩ := bind_eq_ok.mp h
  simp only [Lower.emit_apply, Lower.bindLabel_apply] at h
  obtain ⟨_, f₃, hscope', h⟩ := bind_eq_ok.mp h
  obtain rfl := (EStateM.Result.ok.inj h).2
  have hafter := clean_before_inScope hvoid hscope' hg
  have hclean : f₂.diagnostics = [] := hafter
  obtain ⟨c, b, ls, hc, hb, hthen⟩ := hbody.branch hΓ hf hcond hscope hclean
  have hlabels : f₂.labels.length = f.labels.length + 1 + ls.length := by
    have := hthen.labels_eq
    simp at this
    omega
  have hthensize : f₂.code.size = f.code.size + c.length + 1 + b.length := by
    have := hthen.size_eq
    simp at this
    omega
  have hskip := hthen.trans ((Frame.Adds.labelled hthen.shows hclean).trans
    (.ofComputes (.emitted hthen.shows.labelled (.jump f₂.labels.length) rfl) hclean))
  have hbound := hskip.bound [] (show f.labels.length = f.labels.length + 0 from rfl)
  obtain ⟨d, ls', hd, hadds⟩ := hother.withScope hbound.shows hscope' hg
  have hsite := hbound.site_eq.trans
    (show _ = (((f.site vars).after (c ++ [.jumpIfZero f.labels.length] ++ b)
        (1 + ls.length)).after [.jump (f.labels.length + 1 + ls.length)] 1) by
      simp [Site.after, Frame.site]
      omega)
  rw [hlabels] at hbound hadds hsite hd
  have hall := hbound.trans hadds
  have hsize := hall.size_eq
  have hlast := hall.cast rfl
    (show _ = some (f₂.code.size + 1) :: ls.map some ++ none :: ls'.map some by
      simp [Frame.emitted, Frame.labelled])
  refine ⟨_, _, [], .ifElse hc hb (hsite ▸ hd), (hlast.bound _ ?_).cast ?_ ?_⟩
  · simp [hlabels]
    omega
  · simp [Frame.site]
  · simp [Frame.site, hthensize, hsize]
    omega

theorem loop (hbody : body.FollowsRules Γ vars) (hΓ : Γ.NonVoid vars) :
    (Stmt.loop cond body).FollowsRules Γ vars := by
  intro f g hf h hg
  rw [lower] at h
  simp only [bind_apply, Lower.newLabel_apply, Lower.bindLabel_apply] at h
  obtain ⟨_, f₁, hcond, h⟩ := bind_eq_ok.mp h
  obtain ⟨c, hc, hcomp⟩ := lowerCondition_emits hΓ hcond ((hf.labelled.labelled).bound _)
  simp only [Lower.emitTake_apply] at h
  obtain ⟨_, f₂, hscope, h⟩ := bind_eq_ok.mp h
  simp only [Lower.emit_apply] at h
  obtain rfl := (EStateM.Result.ok.inj h).2
  have hjump := hcomp.branch f.labelled.labels.length
  obtain ⟨b, ls, hb, hadds⟩ := hbody.withScope hjump.shows hscope hg
  have hd := hjump.diagnostics.symm.trans hadds.diagnostics
  have hlabels : f.labelled.labels.length = f.labels.length + 1 := List.length_append
  have htop := ((Frame.Adds.labelled hf hd).trans (.labelled hf.labelled hd)).bound []
    (show f.labels.length = f.labels.length + 0 from rfl)
  have hbranch := htop.trans (.ofComputes hjump hd)
  have hround := hbranch.trans hadds
  have hall := hround.trans (.ofComputes (.emitted hround.shows (.jump f.labels.length) rfl) hg)
  have hsite := hbranch.site_eq.trans
    (show _ = ((f.site vars).after c 2).after [.jumpIfZero (f.labels.length + 1)] 0 by
      simp [Site.after, Frame.site, Nat.add_assoc, hlabels])
  have hsize := hround.size_eq
  simp only [List.nil_append, List.length_append, List.length_singleton] at hsize
  rw [hlabels] at hall
  have hlast := hall.cast rfl (show _ = [some f.code.size] ++ none :: ls.map some by
    simp [Frame.labelled])
  refine ⟨_, _, [], .loop hc (hsite ▸ hb), (hlast.bound _ ?_).cast ?_ ?_⟩
  · simp [hlabels]
  · simp [Frame.site]
  · simp [Frame.site, Frame.emitted, hsize]
    omega

end FollowsRules

mutual

/-- A statement that is lowered without a diagnostic follows the rules. -/
theorem lower_emits {Γ : LoweringContext} :
    ∀ (s : Stmt) {vars : List Param}, Γ.NonVoid vars → s.NonVoid → s.FollowsRules Γ vars
  | .block body, vars, hΓ, hs => by
      intro f g hf h hg
      rw [lower] at h
      rw [Stmt.NonVoid] at hs
      obtain ⟨c, ls, vs, hbody, hadds⟩ := inScope_adds (lowerAll Γ body)
        (R := fun p c ls vs => Stmt.AllEmit Γ p body c ls vs)
        (fun hf' h' hg' => lowerAll_emit body hΓ hs hf' h' hg') hf h hg
      exact ⟨_, ls, [], .block hbody, hadds⟩
  | .var decl, vars, hΓ, hs => by
      intro f g hf h hg
      rw [lower] at h
      rw [Stmt.NonVoid] at hs
      obtain ⟨c, hc, hadds⟩ := lowerVar_emits hΓ hs h hf hg
      exact ⟨c, [], _, hc, hadds⟩
  | .assign name e span, vars, hΓ, _ => by
      intro f g hf h hg
      rw [lower] at h
      obtain ⟨c, hc, hadds⟩ := lowerAssign_emits hΓ h hf hg
      exact ⟨c, [], _, hc, hadds⟩
  | .expr e, vars, hΓ, _ => by
      intro f g hf h hg
      rw [lower] at h
      obtain ⟨c, hc, hadds⟩ := lowerExpr_emits hΓ h hf hg
      exact ⟨c, [], _, hc, hadds⟩
  | .ifThen cond body, vars, hΓ, hs => by
      rw [Stmt.NonVoid] at hs
      exact (lower_emits body hΓ hs).ifThen hΓ
  | .ifElse cond body other, vars, hΓ, hs => by
      rw [Stmt.NonVoid] at hs
      exact (lower_emits body hΓ hs.1).ifElse (lower_emits other hΓ hs.2) hs.2 hΓ
  | .loop cond body, vars, hΓ, hs => by
      rw [Stmt.NonVoid] at hs
      exact (lower_emits body hΓ hs).loop hΓ
  | .ret value span, vars, hΓ, _ => by
      intro f g hf h hg
      rw [lower] at h
      obtain ⟨c, hc, hadds⟩ := lowerReturn_emits hΓ h hf hg
      exact ⟨c, [], _, hc, hadds⟩

/-- Statements that are lowered without a diagnostic follow the rules. -/
theorem lowerAll_emit {Γ : LoweringContext} :
    ∀ (ss : List Stmt) {vars : List Param} {f g : Frame}, Γ.NonVoid vars → Stmt.AllNonVoid ss →
      f.Shows Γ vars 0 → lowerAll Γ ss f = .ok () g → g.diagnostics = [] →
      ∃ c ls vs, Stmt.AllEmit Γ (f.site vars) ss c ls vs ∧ f.Adds Γ vars g c (ls.map some) vs
  | [], vars, f, g, hΓ, hs, hf, h, hg => by
      rw [lowerAll] at h
      obtain rfl := (EStateM.Result.ok.inj h).2
      exact ⟨[], [], [], .nil, ⟨_, .refl f⟩, hf, by simp, hg⟩
  | s :: rest, vars, f, g, hΓ, hs, hf, h, hg => by
      rw [lowerAll] at h
      rw [Stmt.AllNonVoid] at hs
      obtain ⟨_, f₁, hfirst, h⟩ := bind_eq_ok.mp h
      have hclean := Lower.clean_of_moves
        (lowerAll_moves (Frame.branching_cleanBefore Γ.symbols) rest hs.2) h hg
      obtain ⟨c, ls, vs, hc, hadds⟩ :=
        lower_emits s hΓ hs.1 hf (Lower.eq_ok_of_settle hfirst hclean) hclean
      obtain ⟨c', ls', vs', hc', hadds'⟩ :=
        lowerAll_emit rest (hΓ.append hadds.nonVoid) hs.2 hadds.shows h hg
      rw [hadds.site_eq, List.length_map] at hc'
      exact ⟨_, _, _, .cons hc hc', (hadds.trans hadds').cast rfl (by simp)⟩

end

end Stmt

/-! ## Functions -/

theorem map_param_paramVariables (params : List Param) :
    (paramVariables params).map StackVariable.param = params := by
  refine List.ext_getElem? fun i => ?_
  rw [List.getElem?_map, paramVariables, List.getElem?_mapIdx]
  cases params[i]? with
  | none => rfl
  | some p => rfl

namespace Lowering

open Lower

/-- At the beginning of a function there are its parameters. -/
theorem start_shows (symbols : Symbols) (decl : FunctionDecl) (ds : List Diagnostic) :
    Frame.Shows (.ofFunction symbols decl) { Frame.start with diagnostics := ds } decl.params 0 where
  same := map_param_paramVariables decl.params
  depth := by
    show 0 + (paramVariables decl.params).length = _
    rw [paramVariables, List.length_mapIdx]
  position i v hv := by
    change (paramVariables decl.params)[i]? = some v at hv
    rw [paramVariables, List.getElem?_mapIdx] at hv
    obtain ⟨p, -, rfl⟩ := Option.map_eq_some_iff.mp hv
    show -((i : Int) + 1) - ((0 : Nat) : Int) = Spot.fromTop 0 i
    simp only [Spot.fromTop]
    omega

/-- The statements of a function, if it has a body. -/
def functionStatements (Γ : LoweringContext) (decl : FunctionDecl) : Lower Unit :=
  match decl.body with
  | some body => Stmt.inScope (Stmt.lowerAll Γ body)
  | none => pure ()

/-- The body of a function, or none, is lowered like a block. -/
theorem body_emits {Γ : LoweringContext} {decl : FunctionDecl} {vars : List Param} {f g : Frame}
    (hΓ : Γ.NonVoid vars) (hd : decl.NonVoid) (hf : f.Shows Γ vars 0)
    (h : functionStatements Γ decl f = .ok () g) (hg : g.diagnostics = []) :
    ∃ c ls, Stmt.Emits Γ (f.site vars) (.block (decl.body.getD [])) c ls [] ∧
      f.Adds Γ vars g c (ls.map some) [] := by
  rw [functionStatements] at h
  cases hbody : decl.body with
  | none =>
      rw [hbody] at h
      obtain rfl := (EStateM.Result.ok.inj h).2
      exact ⟨_, [], .block .nil, ⟨_, .refl f⟩, hf, by simp, hg⟩
  | some body =>
      rw [hbody] at h
      obtain ⟨c, ls, vs, hc, hadds⟩ := Stmt.inScope_adds (Stmt.lowerAll Γ body)
        (R := fun p c ls vs => Stmt.AllEmit Γ p body c ls vs)
        (fun hf' h' hg' => Stmt.lowerAll_emit body hΓ (hd.body body hbody) hf' h' hg') hf h hg
      exact ⟨_, ls, .block hc, hadds⟩

/-- What stands at the end of a function. -/
def functionEnd (Γ : LoweringContext) (label : Nat) : Lower Unit := do
  bindLabel label
  if 0 < Γ.params.length then emit (.pop Γ.params.length)
  emit .ending

theorem functionEnd_eq_ok {Γ : LoweringContext} {label : Nat} {f g : Frame}
    (h : functionEnd Γ label f = .ok () g) :
    ∃ d, g = ((f.bound label).popped Γ.params.length).emitted .ending d := by
  rw [functionEnd, bind_apply, bindLabel_apply] at h
  rw [Frame.popped]
  by_cases hp : 0 < Γ.params.length
  · simp only [hp, if_true, bind_apply, emit_apply, EStateM.Result.ok.injEq, true_and] at h ⊢
    exact ⟨_, h.symm⟩
  · simp only [hp, if_false, emit_apply, EStateM.Result.ok.injEq, true_and] at h ⊢
    exact ⟨_, h.symm⟩

theorem functionBody_eq (Γ : LoweringContext) (decl : FunctionDecl) :
    functionBody Γ decl =
      newLabel >>= fun finish => functionStatements Γ decl >>= fun _ => functionEnd Γ finish := by
  rw [functionBody, functionStatements]
  cases decl.body with
  | none => rfl
  | some body => rfl

/-- A function that is lowered without diagnostics follows the rules. -/
theorem ofFunction_emits {symbols : Symbols} {decl : FunctionDecl} (hs : symbols.NonVoid)
    (hd : decl.NonVoid) (h : (ofFunction decl symbols).diagnostics = []) :
    decl.Emits symbols (ofFunction decl symbols).routine := by
  have hshows := start_shows symbols decl (duplicateParams decl.span [] decl.params)
  simp only [routine, ofFunction, ofFrame, Frame.after] at h ⊢
  generalize hstart : { Frame.start with
    diagnostics := duplicateParams decl.span [] decl.params } = f at h hshows ⊢
  have hcode : f.code = #[] := by rw [← hstart]; rfl
  have hlabels : f.labels = [] := by rw [← hstart]; rfl
  cases hbody : functionBody (.ofFunction symbols decl) decl f with
  | error d g =>
      rw [hbody] at h
      simp at h
  | ok u g =>
      rw [hbody] at h
      rw [functionBody_eq, bind_apply, newLabel_apply] at hbody
      obtain ⟨_, f₁, hstmts, hrest⟩ := bind_eq_ok.mp hbody
      obtain ⟨d, rfl⟩ := functionEnd_eq_ok hrest
      have hclean : f₁.diagnostics = [] := by
        rw [← h]
        exact (Frame.diagnostics_popped (f₁.bound f.labels.length) _).symm
      have hΓ : (LoweringContext.ofFunction symbols decl).NonVoid decl.params := ⟨hs, hd.params⟩
      obtain ⟨c, ls, hc, hadds⟩ := body_emits hΓ hd hshows.labelled hstmts hclean
      obtain ⟨new, hn⟩ := ((Frame.Adds.labelled hshows hadds.diagnostics).trans hadds).extend
      have hparams : (LoweringContext.ofFunction symbols decl).params.length = decl.params.length :=
        List.length_mapIdx
      have hall := ((hn.bound [] rfl).trans (.popped _ decl.params.length)).trans
        (Frame.extends_emitted _ .ending d)
      have hsize := hn.size
      rw [hparams]
      refine ⟨c, ls, ?_, ?_, ?_⟩
      · have hsite : f.labelled.site decl.params = ⟨0, 1, decl.params⟩ := by
          simp [Frame.site, Frame.labelled, hcode, hlabels]
        exact hsite ▸ hc
      · refine hall.code.trans ?_
        simp [hcode]
      · refine hall.labels.trans ?_
        simp [hlabels, hcode, hsize]

/-! ## Diagnostics -/

theorem functionBody_moves {Γ : LoweringContext} {R : Frame → Frame → Prop}
    (hR : Branching Γ.symbols R) {decl : FunctionDecl} (hd : decl.NonVoid) :
    Stays R (functionBody Γ decl) := by
  rw [functionBody_eq]
  refine hR.moves_bind hR.moves_newLabel fun finish => hR.moves_bind ?_ fun _ => ?_
  · rw [functionStatements]
    cases hbody : decl.body with
    | none => exact hR.moves_pure ()
    | some body => exact hR.moves_inScope (Stmt.lowerAll_moves hR body (hd.body body hbody))
  · refine hR.moves_bind (hR.moves_bindLabel finish) fun _ => ?_
    split
    · exact hR.moves_bind (hR.moves_emit (.pop _)) fun _ => hR.moves_emit .ending
    · exact hR.moves_emit .ending

theorem duplicateParams_isError {span : Span} :
    ∀ {ps before : List Param}, ∀ d ∈ duplicateParams span before ps, d.isError = true
  | [], _, d, hd => by cases hd
  | p :: rest, before, d, hd => by
      rw [duplicateParams] at hd
      rcases List.mem_append.mp hd with hd | hd
      · split at hd
        · rw [List.mem_singleton.mp hd]
          rfl
        · cases hd
      · exact duplicateParams_isError d hd

/-- What is wrong with a function are errors. -/
theorem ofFunction_isError {symbols : Symbols} {decl : FunctionDecl} (hd : decl.NonVoid) :
    ∀ d ∈ (ofFunction decl symbols).diagnostics, d.isError = true := by
  have hR := Frame.branching_keepsErrors symbols
  have hmoves : Stays Frame.KeepsErrors (functionBody (.ofFunction symbols decl) decl) :=
    functionBody_moves (Γ := .ofFunction symbols decl) hR hd
  exact hR.after hmoves _ duplicateParams_isError

end Lowering

end Nss
