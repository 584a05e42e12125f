/-
# The rules are enough

What is lowered without a failure follows the rules of emission (`Expr.lower_emits`).  For an
expression, and for the declaration of a variable, it is also the other way round: what follows the
rules is lowered without a failure, to just the instructions that the rules give.

    e.Emits Γ vars temps t c,  f shows vars   ⟹   e.lower Γ f = .ok t g, with c between f and g
    e.Emits Γ vars temps t c                  ⟹   the same against a table with more functions

The second line asks that no global variables are in sight.  Both together say that the first value
of a global variable, once it was checked, can be lowered again when everything is known.
-/
import Nss.Proofs.Lowering.Clean
import Nss.Proofs.Lowering.Signatures

namespace Nss

open Steps

/-! ## Where a name leads -/

/-- A name that is a spot among the variables in sight is resolved to the place of that spot. -/
theorem Frame.Shows.exists_place {Γ : LoweringContext} {f : Frame} {vars : List Param}
    {temps : Nat} {name : String} {spot : Spot} (hf : f.Shows Γ vars temps)
    (h : Spot.ofName? Γ vars name = some spot) :
    ∃ place, Lower.resolve? Γ f name = some place ∧ place.Matches f.depth temps spot := by
  cases hplace : Lower.resolve? Γ f name with
  | some place =>
      obtain ⟨spot', hspot', hmatches⟩ := hf.resolve? hplace
      obtain rfl := Option.some.inj (h.symm.trans hspot')
      exact ⟨place, rfl, hmatches⟩
  | none =>
      have hfind : vars.find? (·.name = name)
          = ((f.variables Γ).find? (·.name = name)).map StackVariable.param := by
        rw [← hf.same, List.find?_map]
        rfl
      rw [Lower.resolve?_eq_find?] at hplace
      cases hv : (f.variables Γ).find? (·.name = name) with
      | some v =>
          rw [hv] at hplace
          cases hplace
      | none =>
          rw [hv] at hplace hfind
          rw [Spot.ofName?_of_find?_eq_none hfind] at h
          cases hvisible : Γ.globalsVisible with
          | false => simp [hvisible] at h
          | true =>
              simp only [hvisible, if_true, Option.map_eq_none_iff] at hplace h
              rw [hplace] at h
              cases h

/-- A name that leads to a variable on the stack leads there whatever the table knows. -/
theorem Spot.ofName?_of_hidden {Γ Γ' : LoweringContext} {vars : List Param} {name : String}
    {spot : Spot} (hhidden : Γ.globalsVisible = false) (h : ofName? Γ vars name = some spot) :
    ofName? Γ' vars name = some spot := by
  rw [ofName?] at h ⊢
  split at h
  · exact h
  · rw [hhidden] at h
    cases h

namespace Lower

/-- A variable that is in sight is pushed. -/
theorem lowerIdent_apply {Γ : LoweringContext} {vars : List Param} {temps : Nat} {name : String}
    {span : Span} {f : Frame} {spot : Spot} (hf : f.Shows Γ vars temps)
    (h : Spot.ofName? Γ vars name = some spot) :
    Expr.lowerIdent Γ name span f
      = .ok spot.type (f.emitted (spot.load temps) (f.depth + 1)) := by
  obtain ⟨place, hplace, hmatches⟩ := hf.exists_place h
  have hresolve : resolve Γ name span f = .ok place f := resolve_eq_ok.mpr ⟨hplace, rfl⟩
  rw [Expr.lowerIdent, bind_apply, hresolve]
  match place, spot, hmatches with
  | .stack position t, .cell i _, ⟨hposition, rfl⟩ =>
      simp only [bind_apply, fromTop_apply, emitPush_apply, pure_apply, hposition]
      rfl
  | .global slot t, .global _ _, ⟨rfl, rfl⟩ => rfl

end Lower

/-! ## Expressions -/

/-- The cell for the result of a call is reserved, if there is one, before whatever comes next. -/
theorem Frame.Shows.reserves {Γ : LoweringContext} {f : Frame} {vars : List Param} {temps : Nat}
    (hf : f.Shows Γ vars temps) (t : ValueType) :
    ∃ g, f.Computes Γ vars g (reserveCode t) (temps + t.width) ∧
      ∀ {α : Type} (rest : Lower α),
        (if ¬ t.isVoid then Lower.emitPush (.reserve t) >>= fun _ => rest else rest) f = rest g := by
  rw [reserveCode, ValueType.width]
  cases t.isVoid with
  | true => exact ⟨f, .refl hf, fun _ => rfl⟩
  | false => exact ⟨_, .emitted hf _ (Nat.add_right_comm _ _ _), fun _ => rfl⟩

mutual

/-- An expression that follows the rules is lowered without failure. -/
theorem Expr.Emits.exists_lower {Γ : LoweringContext} {vars : List Param} (hΓ : Γ.NonVoid vars) :
    ∀ (e : Expr) {f : Frame} {t : ValueType} {temps : Nat} {c : List Instruction},
      e.Emits Γ vars temps t c → f.Shows Γ vars temps →
      ∃ g, e.lower Γ f = .ok t g ∧ f.Computes Γ vars g c (temps + t.width)
  | .int v span, f, _, temps, _, .int, hf => by
      rw [Expr.lower]
      exact ⟨_, rfl, .emitted hf _ (Nat.add_right_comm _ _ _)⟩
  | .float v span, f, _, temps, _, .float, hf => by
      rw [Expr.lower]
      exact ⟨_, rfl, .emitted hf _ (Nat.add_right_comm _ _ _)⟩
  | .string v span, f, _, temps, _, .string hlength, hf => by
      rw [Expr.lower, if_neg (Nat.not_lt.mpr hlength)]
      exact ⟨_, rfl, .emitted hf _ (Nat.add_right_comm _ _ _)⟩
  | .object v span, f, _, temps, _, .object, hf => by
      rw [Expr.lower]
      exact ⟨_, rfl, .emitted hf _ (Nat.add_right_comm _ _ _)⟩
  | .ident name span, f, _, temps, _, .ident hspot, hf => by
      rw [Expr.lower]
      refine ⟨_, Lower.lowerIdent_apply hf hspot, .emitted hf _ ?_⟩
      rw [ValueType.width_of_ne_void (hΓ.spot hspot)]
      exact Nat.add_right_comm _ _ _
  | .call name args span, f, _, temps, _, .call (f := s) hs hlength hargs, hf => by
      have hcallee : callee Γ name args.length span f = .ok s f :=
        Lower.callee_eq_ok.mpr ⟨hs, hlength, rfl⟩
      obtain ⟨g, hg, hreserve⟩ := hf.reserves s.result
      obtain ⟨h, hlower, hh⟩ := Expr.ArgsEmit.exists_lowerArgs hΓ args hargs hg.shows
      refine ⟨h.emitted (.callTo s.id) (h.depth - args.length), ?_,
        (hg.trans hh).trans (.emitted hh.shows _ ?_)⟩
      · rw [Expr.lower]
        refine bind_eq_ok.mpr ⟨s, f, hcallee, (hreserve _).trans ?_⟩
        exact bind_eq_ok.mpr ⟨(), h, hlower, rfl⟩
      · have := hh.shows.temps_le
        omega
  | .unary op x span, f, _, temps, _, .unary (o := o) hx ho, hf => by
      obtain ⟨g, hlower, hg⟩ := Expr.Emits.exists_lower hΓ x hx hf
      refine ⟨_, ?_, hg.trans (.emitted hg.shows (.simple o) rfl)⟩
      rw [Expr.lower]
      refine bind_eq_ok.mpr ⟨_, g, hlower, ?_⟩
      rw [ho]
      rfl
  | .binary op l r span, f, _, temps, _, .binary (o := o) hl hr ho, hf => by
      obtain ⟨hvl, hvr, hvt⟩ := BinaryOp.ne_void_of_operation? ho
      obtain ⟨g, hlowerl, hg⟩ := Expr.Emits.exists_lower hΓ l hl hf
      rw [ValueType.width_of_ne_void hvl] at hg
      obtain ⟨h, hlowerr, hh⟩ := Expr.Emits.exists_lower hΓ r hr hg.shows
      rw [ValueType.width_of_ne_void hvr] at hh
      refine ⟨h.emitted (.simple o) (h.depth - 1), ?_,
        (hg.trans hh).trans (.emitted hh.shows _ ?_)⟩
      · rw [Expr.lower]
        refine bind_eq_ok.mpr ⟨_, g, hlowerl, bind_eq_ok.mpr ⟨_, h, hlowerr, ?_⟩⟩
        rw [ho]
        rfl
      · rw [ValueType.width_of_ne_void hvt]
        have := hh.shows.temps_le
        omega

/-- Arguments that follow the rules are lowered without failure. -/
theorem Expr.ArgsEmit.exists_lowerArgs {Γ : LoweringContext} {vars : List Param}
    (hΓ : Γ.NonVoid vars) :
    ∀ (args : List Expr) {f : Frame} {types : List ValueType} {temps : Nat}
      {c : List Instruction},
      Expr.ArgsEmit Γ vars temps args types c → f.Shows Γ vars temps →
      ∃ g, Expr.lowerArgs Γ args types f = .ok () g ∧
        f.Computes Γ vars g c (temps + args.length)
  | [], f, _, temps, _, .nil, hf => by
      rw [Expr.lowerArgs.eq_def]
      exact ⟨f, rfl, .refl hf⟩
  | arg :: args, f, _, temps, _, .cons htype hargs harg, hf => by
      obtain ⟨g, hlower, hg⟩ := Expr.ArgsEmit.exists_lowerArgs hΓ args hargs hf
      obtain ⟨h, hlower', hh⟩ := Expr.Emits.exists_lower hΓ arg harg hg.shows
      rw [ValueType.width_of_ne_void htype] at hh
      refine ⟨h, ?_, hg.trans hh⟩
      rw [Expr.lowerArgs]
      refine bind_eq_ok.mpr ⟨(), g, hlower, bind_eq_ok.mpr ⟨_, h, hlower', ?_⟩⟩
      exact Lower.expectType_eq_ok.mpr ⟨rfl, rfl⟩

end

/-! ## More functions -/

/-- A table knows all functions of another one. -/
def Symbols.Covered (s s' : Symbols) : Prop :=
  ∀ {name f}, s.lookup? name = some f → ∃ g, s'.lookup? name = some g ∧ f.SameCall g

theorem Symbols.Covered.refl (s : Symbols) : s.Covered s := fun h => ⟨_, h, rfl, rfl, rfl⟩

mutual

/-- Where no global variables are in sight, an expression follows the rules against any table that
knows the functions. -/
theorem Expr.Emits.mono {Γ Γ' : LoweringContext} {vars : List Param}
    (hhidden : Γ.globalsVisible = false) (hcovered : Γ.symbols.Covered Γ'.symbols) :
    ∀ {e : Expr} {temps : Nat} {t : ValueType} {c : List Instruction},
      e.Emits Γ vars temps t c → e.Emits Γ' vars temps t c
  | .int _ _, _, _, _, .int => .int
  | .float _ _, _, _, _, .float => .float
  | .string _ _, _, _, _, .string hlength => .string hlength
  | .object _ _, _, _, _, .object => .object
  | .ident _ _, _, _, _, .ident hspot => .ident (Spot.ofName?_of_hidden hhidden hspot)
  | .call _ _ _, _, _, _, .call hf hlength hargs => by
      obtain ⟨g, hg, hsame⟩ := hcovered hf
      rw [← hsame.params] at hlength hargs
      rw [← hsame.result] at hargs ⊢
      rw [← hsame.id]
      exact .call hg hlength (hargs.mono hhidden hcovered)
  | .unary _ _ _, _, _, _, .unary hx ho => .unary (hx.mono hhidden hcovered) ho
  | .binary _ _ _ _, _, _, _, .binary hl hr ho =>
      .binary (hl.mono hhidden hcovered) (hr.mono hhidden hcovered) ho

theorem Expr.ArgsEmit.mono {Γ Γ' : LoweringContext} {vars : List Param}
    (hhidden : Γ.globalsVisible = false) (hcovered : Γ.symbols.Covered Γ'.symbols) :
    ∀ {args : List Expr} {temps : Nat} {types : List ValueType} {c : List Instruction},
      Expr.ArgsEmit Γ vars temps args types c → Expr.ArgsEmit Γ' vars temps args types c
  | [], _, _, _, .nil => .nil
  | _ :: _, _, _, _, .cons htype hargs harg =>
      .cons htype (hargs.mono hhidden hcovered) (harg.mono hhidden hcovered)

end

/-! ## Variables -/

namespace Stmt

variable {Γ : LoweringContext} {vars : List Param}

/-- The declaration of a variable that follows the rules is lowered without failure, if there is no
variable of the name in its scope. -/
theorem Emits.exists_lowerVar (hΓ : Γ.NonVoid vars) {decl : VarDecl} (hdecl : decl.type ≠ .void)
    {p : Site} (hp : p.vars = vars) {c : List Instruction} {ls : List Nat} {vs : List Param}
    (h : Stmt.Emits Γ p (.var decl) c ls vs) {f : Frame} (hf : f.Shows Γ vars 0)
    (hclean : f.diagnostics = []) (hnew : ∀ v ∈ f.scope, v.name ≠ decl.name) :
    ∃ g, lowerVar Γ decl f = .ok () g ∧ f.Adds Γ vars g c [] [⟨decl.type, decl.name⟩] ∧
      g.diagnostics = [] := by
  have hvoid : ∀ v ∈ [Param.mk decl.type decl.name], v.type ≠ .void := by
    simpa using hdecl
  have hshows := hf.declared decl
  have hscope : (f.scope.any (·.name = decl.name)) = false := by simpa using hnew
  cases h with
  | var hinit =>
      refine ⟨f.declared decl, ?_, ⟨⟨_, .declared f decl⟩, hshows, hvoid, hclean⟩, hclean⟩
      rw [lowerVar, bind_apply, get_apply]
      dsimp only
      rw [hscope, hinit]
      rfl
  | @varInit _ _ e c hinit he =>
      rw [hp] at he
      obtain ⟨g, hlower, hg⟩ := Expr.Emits.exists_lower (hΓ.append hvoid) e he hshows
      rw [ValueType.width_of_ne_void hdecl] at hg
      have hstore := hg.trans (.emitted hg.shows (.storeCell (-2))
        (show g.depth + (0 + 1) = g.depth + (0 + 1) from rfl))
      have hall := (Frame.Extends.declared f decl).trans (hstore.extend.trans (.popped _ 1))
      rw [List.append_assoc] at hall
      refine ⟨_, ?_, ⟨⟨_, hall⟩, hstore.shows.popped, hvoid, hclean⟩, ?_⟩
      · rw [lowerVar, bind_apply, get_apply]
        dsimp only
        rw [hscope, hinit]
        refine bind_eq_ok.mpr ⟨(), _, rfl, bind_eq_ok.mpr ⟨(), _, rfl, ?_⟩⟩
        refine bind_eq_ok.mpr ⟨decl.type, g, hlower, bind_eq_ok.mpr ⟨(), g, ?_, ?_⟩⟩
        · exact Lower.expectType_eq_ok.mpr ⟨rfl, rfl⟩
        · exact bind_eq_ok.mpr ⟨(), _, rfl, Lower.popCells_apply _ _⟩
      · rw [Frame.diagnostics_popped]
        exact hg.diagnostics.trans hclean

end Stmt

end Nss
