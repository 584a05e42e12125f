/-
# Lowering preserves what a script means

The stack below a statement always holds, from the top, the values of the variables in sight, the
cell for the result if there is one, and what the caller has; above them, while an expression is
evaluated, the values that its operator or its call still waits for.  The proof goes by induction on
the evaluation, and what code there is, is read off the rules of emission.

    e.eval I symbols env g = some (v, g')
      ⟹  (pc, stack, g)  runs to  (pc + |c|, v :: stack, g')                 (`Expr.eval_runs`)
    Stmt.exec I symbols n s env g = some ending
      ⟹  (pc, stack, g)  runs to the end of `s`, or to the end of the function (`Stmt.exec_runs`)
-/
import Nss.Proofs.Machine.Transitions
import Nss.Proofs.Machine.Evaluation
import Nss.Proofs.Lowering.Clean
import Nss.Proofs.Symbols

namespace Nss

variable {Cell : Type}

/-! ## Variables -/

namespace Env

variable {Γ : LoweringContext} {env : Env Cell} {name : String}

/-- A name that stands for a cell is that of a variable. -/
theorem lookup?_of_cell {i : Nat} {t : ValueType}
    (h : Spot.ofName? Γ (env.map Prod.fst) name = some (.cell i t)) :
    ∃ x, env.lookup? name = some ⟨t, x⟩ ∧ env.cells[i]? = some x := by
  induction env generalizing i with
  | nil => exact absurd h Spot.ofName?_nil_ne_cell
  | cons v rest ih =>
      obtain ⟨p, x⟩ := v
      simp only [List.map_cons] at h
      obtain ⟨hp, rfl, rfl⟩ | ⟨hp, j, rfl, hj⟩ := Spot.cell_of_cons h
      · exact ⟨x, by simp [lookup?, hp], rfl⟩
      · obtain ⟨y, hy, hcell⟩ := ih hj
        refine ⟨y, ?_, hcell⟩
        rw [← hy, lookup?, lookup?, List.find?_cons_of_neg (by simpa using hp)]

/-- Such a variable can be assigned to. -/
theorem assign?_of_cell {i : Nat} {t : ValueType}
    (h : Spot.ofName? Γ (env.map Prod.fst) name = some (.cell i t)) (x : Cell) :
    ∃ env', env.assign? name x = some env' ∧ env'.map Prod.fst = env.map Prod.fst ∧
      env'.cells = env.cells.set i x := by
  induction env generalizing i with
  | nil => exact absurd h Spot.ofName?_nil_ne_cell
  | cons v rest ih =>
      obtain ⟨p, y⟩ := v
      simp only [List.map_cons] at h
      obtain ⟨hp, rfl, rfl⟩ | ⟨hp, j, rfl, hj⟩ := Spot.cell_of_cons h
      · exact ⟨(p, x) :: rest, by simp [assign?, hp], rfl, rfl⟩
      · obtain ⟨env', henv, hsame, hcells⟩ := ih hj
        refine ⟨(p, y) :: env', by simp [assign?, hp, henv], ?_, ?_⟩
        · rw [List.map_cons, List.map_cons, hsame]
        · exact congrArg (y :: ·) hcells

/-- A name that stands for a global variable is not that of another one. -/
theorem eq_none_of_global {slot : Nat} {t : ValueType}
    (h : Spot.ofName? Γ (env.map Prod.fst) name = some (.global slot t)) :
    env.lookup? name = none ∧ ∀ x, env.assign? name x = none := by
  induction env with
  | nil => exact ⟨rfl, fun _ => rfl⟩
  | cons v rest ih =>
      obtain ⟨p, y⟩ := v
      simp only [List.map_cons] at h
      obtain ⟨hp, hrest⟩ := Spot.global_of_cons h
      obtain ⟨hlookup, hassign⟩ := ih hrest
      refine ⟨?_, fun x => by simp [assign?, hp, hassign x]⟩
      rw [← hlookup, lookup?, lookup?, List.find?_cons_of_neg (by simpa using hp)]

end Env

/-! ## Expressions -/

/-- A value is of a type; there is none of type `void`. -/
inductive Typed.Of : ValueType → Option (Typed Cell) → Prop
  | none : Typed.Of .void none
  | value (x : Typed Cell) : x.type ≠ .void → Typed.Of x.type (some x)

/-- A value as cells. -/
def Typed.cells (v : Option (Typed Cell)) : List Cell := (v.map Typed.cell).toList

theorem Typed.Of.type_eq {t : ValueType} {x : Typed Cell} (h : Typed.Of t (some x)) :
    x.type = t := by
  cases h with
  | value _ _ => rfl

theorem Typed.Of.length_cells {t : ValueType} {v : Option (Typed Cell)} (h : Typed.Of t v) :
    (Typed.cells v).length = t.width := by
  cases h with
  | none => rfl
  | value x hx => exact (ValueType.width_of_ne_void hx).symm

/-- What a call yields is of the type of the function's result. -/
theorem FunctionSymbol.Yields.of {I : Interpretation Cell} {f : FunctionSymbol} {args : List Cell}
    {g g' : Globals Cell} {v : Option (Typed Cell)} (h : f.Yields I args g v g') :
    Typed.Of f.result v := by
  cases h with
  | effect hvoid _ =>
      rw [hvoid]
      exact .none
  | value hvoid _ => exact .value ⟨f.result, _⟩ hvoid

/-- A call takes its arguments and leaves what it yields in the cell reserved for it. -/
theorem Machine.call?_of_yields {I : Interpretation Cell} {symbols : Symbols} {f : FunctionSymbol}
    {args : List Cell} {g g' : Globals Cell} {v : Option (Typed Cell)}
    (hf : symbols.function? f.id = some f) (hargs : args.length = f.params.length)
    (h : f.Yields I args g v g') :
    call? I symbols f.id (args ++ f.result.cells.map I.initial) g = some (Typed.cells v, g') := by
  rw [call?]
  simp only [hf]
  rw [if_neg (by rw [List.length_append]; omega), List.drop_left' hargs, List.take_left' hargs]
  cases h with
  | effect hvoid heffect => simp [hvoid, ValueType.isVoid, ValueType.cells, heffect, Typed.cells]
  | value hvoid hx =>
      rw [ValueType.cells_of_ne_void hvoid,
        Bool.eq_false_iff.mpr (mt ValueType.isVoid_iff.mp hvoid)]
      simp [hx, Typed.cells]

/-- A variable is pushed from where it lies. -/
theorem Spot.load_runs {I : Interpretation Cell} {Γ : LoweringContext} {R : Routine}
    {env : Env Cell} {temps : List Cell} (base : List Cell) {pc : Nat} {g : Globals Cell}
    {name : String} {spot : Spot}
    (h : ofName? Γ (env.map Prod.fst) name = some spot)
    (hi : R.code[pc]? = some (spot.load temps.length))
    (hrep : Representable (temps.length + env.length)) :
    ∃ x, (env.lookup? name = some ⟨spot.type, x⟩ ∨ env.lookup? name = none ∧
        ∃ v, Γ.symbols.lookupGlobal? name = some v ∧ v.type = spot.type ∧ g v.slot = x) ∧
      Machine.Runs I Γ.symbols R ⟨pc, temps ++ (env.cells ++ base), g⟩
        ⟨pc + 1, x :: (temps ++ (env.cells ++ base)), g⟩ := by
  cases spot with
  | cell i t =>
      obtain ⟨x, hx, hcell⟩ := Env.lookup?_of_cell h
      have hlt : i < env.length := by
        have := (List.getElem?_eq_some_iff.mp hcell).1
        rwa [Env.cells, List.length_map] at this
      refine ⟨x, .inl hx, Machine.runs_load hi ?_ ?_⟩
      · exact Nat.le_of_lt (hrep.mono (by omega))
      · rw [List.getElem?_append_right (Nat.le_add_right _ _), Nat.add_sub_cancel_left,
          List.getElem?_append_left (by rwa [Env.cells, List.length_map]), hcell]
  | global slot t =>
      obtain ⟨hnone, -⟩ := Env.eq_none_of_global h
      obtain ⟨v, hv, rfl, rfl⟩ := Spot.lookupGlobal?_of_global h
      exact ⟨g v.slot, .inr ⟨hnone, v, hv, rfl, rfl⟩, Machine.runs_loadGlobal hi⟩

section Expressions

variable {I : Interpretation Cell} {Γ : LoweringContext} {R : Routine} {env : Env Cell}

mutual

/-- The code of an expression leaves its value on the stack. -/
theorem Expr.eval_runs (hΓ : Γ.NonVoid (env.map Prod.fst)) (hs : Γ.symbols.Numbered)
    (base : List Cell) :
    ∀ (e : Expr) (temps : List Cell) {t : ValueType} {c : List Instruction} {pc : Nat}
      {v : Option (Typed Cell)} {g g' : Globals Cell},
      e.Emits Γ (env.map Prod.fst) temps.length t c → SliceAt R.code pc c →
      Representable (temps.length + env.length + e.height Γ.symbols) →
      e.eval I Γ.symbols env g = some (v, g') →
      Typed.Of t v ∧ Machine.Runs I Γ.symbols R ⟨pc, temps ++ (env.cells ++ base), g⟩
        ⟨pc + c.length, Typed.cells v ++ (temps ++ (env.cells ++ base)), g'⟩
  | .int n span, temps, _, _, pc, v, g, g', .int, hc, hrep, h => by
      rw [Expr.eval] at h
      obtain ⟨rfl, rfl⟩ := Prod.mk.inj (Option.some.inj h)
      exact ⟨.value ⟨.int, I.int n⟩ nofun, .of_execute hc.head rfl⟩
  | .float n span, temps, _, _, pc, v, g, g', .float, hc, hrep, h => by
      rw [Expr.eval] at h
      obtain ⟨rfl, rfl⟩ := Prod.mk.inj (Option.some.inj h)
      exact ⟨.value ⟨.float, I.float n⟩ nofun, .of_execute hc.head rfl⟩
  | .string n span, temps, _, _, pc, v, g, g', .string _, hc, hrep, h => by
      rw [Expr.eval] at h
      obtain ⟨rfl, rfl⟩ := Prod.mk.inj (Option.some.inj h)
      exact ⟨.value ⟨.string, I.string n⟩ nofun, .of_execute hc.head rfl⟩
  | .object n span, temps, _, _, pc, v, g, g', .object, hc, hrep, h => by
      rw [Expr.eval] at h
      obtain ⟨rfl, rfl⟩ := Prod.mk.inj (Option.some.inj h)
      exact ⟨.value ⟨.object, I.object n⟩ nofun, .of_execute hc.head rfl⟩
  | .ident name span, temps, _, _, pc, v, g, g', .ident hspot, hc, hrep, h => by
      rw [Expr.eval] at h
      obtain ⟨x, hx, hruns⟩ := Spot.load_runs base hspot hc.head
        (hrep.mono (Nat.le_add_right _ _))
      rcases hx with hx | ⟨hnone, w, hw, htype, hg⟩
      · rw [hx] at h
        obtain ⟨rfl, rfl⟩ := Prod.mk.inj (Option.some.inj h)
        exact ⟨.value ⟨_, x⟩ (hΓ.spot hspot), hruns⟩
      · rw [hnone, hw] at h
        obtain ⟨rfl, rfl⟩ := Prod.mk.inj (Option.some.inj h)
        rw [htype]
        rw [← hg] at hruns
        exact ⟨.value ⟨_, g w.slot⟩ (hΓ.spot hspot), hruns⟩
  | .call name args span, temps, _, _, pc, v, g, g', .call hf hlen hargs, hc, hrep, h => by
      obtain ⟨f, cells, g₁, hf', hevs, hyields⟩ := Expr.eval_call_eq_some h
      obtain rfl := Option.some.inj (hf'.symm.trans hf)
      have hfun := hs.function?_of_lookup? hf
      simp only [Expr.height, Symbols.resultWidth, hf] at hrep
      have hreserved : (f.result.cells.map I.initial ++ temps).length
          = temps.length + f.result.width := by
        rw [List.length_append, List.length_map, ValueType.length_cells, Nat.add_comm]
      have hreserve : Machine.Runs I Γ.symbols R ⟨pc, temps ++ (env.cells ++ base), g⟩
          ⟨pc + (reserveCode f.result).length,
            f.result.cells.map I.initial ++ (temps ++ (env.cells ++ base)), g⟩ :=
        Machine.runs_reserveCode hc.left.left
      rw [← hreserved] at hargs
      obtain ⟨hn, hruns⟩ := Expr.evalArgs_runs hΓ hs base args _ hargs hc.left.right
        (hrep.mono (by rw [hreserved]; omega)) hevs
      have hrun := Machine.runs_call hc.last
        (Machine.call?_of_yields hfun (hn.trans hlen.symm) hyields) (temps ++ (env.cells ++ base))
      rw [List.length_append, ← Nat.add_assoc, List.append_assoc] at hrun
      rw [List.append_assoc] at hruns
      refine ⟨hyields.of, ((hreserve.trans hruns).trans hrun).cast ?_ rfl⟩
      simp only [List.length_append, List.length_singleton, Nat.add_assoc]
  | .unary op x span, temps, _, _, pc, v, g, g', .unary hx ho, hc, hrep, h => by
      obtain ⟨a, y, hev, hy, rfl⟩ := Expr.eval_unary_eq_some h
      rw [Expr.height] at hrep
      obtain ⟨hof, hruns⟩ := Expr.eval_runs hΓ hs base x temps hx hc.left hrep hev
      rw [← hof.type_eq] at ho ⊢
      refine ⟨.value ⟨a.type, y⟩ (UnaryOp.ne_void_of_operation? ho), ?_⟩
      rw [List.length_append]
      exact hruns.trans (Machine.runs_unary hc.last ho hy)
  | .binary op l r span, temps, _, _, pc, v, g, g', .binary hl hr ho, hc, hrep, h => by
      obtain ⟨a, b, g₁, pair, y, hevl, hevr, hpair, hy, rfl⟩ := Expr.eval_binary_eq_some h
      rw [Expr.height] at hrep
      obtain ⟨hofl, hrunl⟩ := Expr.eval_runs hΓ hs base l temps hl hc.left.left
        (hrep.mono (by omega)) hevl
      obtain ⟨hofr, hrunr⟩ := Expr.eval_runs hΓ hs base r (a.cell :: temps) hr
        hc.left.right (hrep.mono (by rw [List.length_cons]; omega)) hevr
      rw [← hofl.type_eq, ← hofr.type_eq] at ho
      have hcode := hc.last
      rw [List.length_append, ← Nat.add_assoc] at hcode
      refine ⟨BinaryOp.resultType_of_operation? ho hpair ▸
        .value ⟨_, y⟩ (BinaryOp.ne_void_of_operation? ho).2.2, ?_⟩
      refine ((hrunl.trans hrunr).trans (Machine.runs_binary hcode ho hpair hy)).cast ?_ rfl
      simp [Nat.add_assoc]

/-- The code of arguments leaves their values on the stack, the first one on top. -/
theorem Expr.evalArgs_runs (hΓ : Γ.NonVoid (env.map Prod.fst)) (hs : Γ.symbols.Numbered)
    (base : List Cell) :
    ∀ (args : List Expr) (temps : List Cell) {types : List ValueType} {c : List Instruction}
      {pc : Nat} {cells : List Cell} {g g' : Globals Cell},
      Expr.ArgsEmit Γ (env.map Prod.fst) temps.length args types c → SliceAt R.code pc c →
      Representable (temps.length + env.length + Expr.argsHeight Γ.symbols args) →
      Expr.evalArgs I Γ.symbols env args g = some (cells, g') →
      cells.length = args.length ∧
      Machine.Runs I Γ.symbols R ⟨pc, temps ++ (env.cells ++ base), g⟩
        ⟨pc + c.length, cells ++ (temps ++ (env.cells ++ base)), g'⟩
  | [], temps, _, _, pc, cells, g, g', .nil, hc, hrep, h => by
      rw [Expr.evalArgs] at h
      obtain ⟨rfl, rfl⟩ := Prod.mk.inj (Option.some.inj h)
      exact ⟨rfl, .refl _⟩
  | arg :: args, temps, _, _, pc, cells, g, g', .cons htype hargs harg, hc, hrep, h => by
      obtain ⟨xs, g₁, a, hevs, hev, rfl⟩ := Expr.evalArgs_cons_eq_some h
      rw [Expr.argsHeight] at hrep
      obtain ⟨hlen, hruns⟩ := Expr.evalArgs_runs hΓ hs base args temps hargs hc.left
        (hrep.mono (by omega)) hevs
      rw [← hlen, Nat.add_comm, ← List.length_append] at harg
      obtain ⟨-, hrun⟩ := Expr.eval_runs hΓ hs base arg (xs ++ temps) harg hc.right
        (hrep.mono (by rw [List.length_append]; omega)) hev
      refine ⟨congrArg (· + 1) hlen, ?_⟩
      rw [List.append_assoc, Nat.add_assoc, ← List.length_append] at hrun
      exact hruns.trans hrun

end

end Expressions

/-! ## Statements -/

/-- The variables in sight at a site, with their values. -/
structure Env.At (Γ : LoweringContext) (p : Site) (env : Env Cell) : Prop where
  vars : p.vars = env.map Prod.fst
  nonVoid : Γ.NonVoid p.vars
  params : Γ.params.length ≤ p.vars.length

theorem Env.At.length_eq {Γ : LoweringContext} {p : Site} {env : Env Cell} (h : env.At Γ p) :
    p.vars.length = env.length := by
  rw [h.vars, List.length_map]

theorem Env.At.after {Γ : LoweringContext} {p : Site} {env : Env Cell} (h : env.At Γ p)
    (d : List Instruction) (n : Nat) : env.At Γ (p.after d n) :=
  ⟨h.vars, h.nonVoid, h.params⟩

/-- The variables in sight are those declared in the body of the function and, below them, its
parameters. -/
theorem Env.At.split {Γ : LoweringContext} {p : Site} {env : Env Cell} (h : env.At Γ p) :
    ∃ locals params : List Cell, env.cells = locals ++ params ∧
      locals.length = p.vars.length - Γ.params.length ∧ params.length = Γ.params.length := by
  have hlen : env.cells.length = p.vars.length := (List.length_map ..).trans h.length_eq.symm
  have hparams := h.params
  refine ⟨env.cells.take (p.vars.length - Γ.params.length),
    env.cells.drop (p.vars.length - Γ.params.length), (List.take_append_drop ..).symm, ?_, ?_⟩
  · rw [List.length_take]
    omega
  · rw [List.length_drop]
    omega

/-- A variable is written where it lies. -/
theorem Spot.store_runs {I : Interpretation Cell} {Γ : LoweringContext} {R : Routine}
    {env : Env Cell} (base : List Cell) {pc : Nat} {g : Globals Cell}
    {name : String} {spot : Spot} (x : Cell)
    (h : ofName? Γ (env.map Prod.fst) name = some spot)
    (hc : SliceAt R.code pc [spot.store 1, .pop 1]) (hrep : Representable (1 + env.length)) :
    (∃ env', env.assign? name x = some env' ∧ env'.map Prod.fst = env.map Prod.fst ∧
      Machine.Runs I Γ.symbols R ⟨pc, x :: (env.cells ++ base), g⟩
        ⟨pc + 2, env'.cells ++ base, g⟩) ∨
    env.assign? name x = none ∧ ∃ v, Γ.symbols.lookupGlobal? name = some v ∧
      Machine.Runs I Γ.symbols R ⟨pc, x :: (env.cells ++ base), g⟩
        ⟨pc + 2, env.cells ++ base, Machine.update g v.slot x⟩ := by
  have hpop : ∀ {stack : List Cell} {g : Globals Cell},
      Machine.Runs I Γ.symbols R ⟨pc + 1, x :: stack, g⟩ ⟨pc + 2, stack, g⟩ :=
    Machine.runs_pop hc.tail.head (by decide) (Nat.le_add_left 1 _)
  cases spot with
  | cell i t =>
      obtain ⟨env', hassign, hsame, hcells⟩ := Env.assign?_of_cell h x
      obtain ⟨_, -, hcell⟩ := Env.lookup?_of_cell h
      have hlt := (List.getElem?_eq_some_iff.mp hcell).1
      refine .inl ⟨env', hassign, hsame, ?_⟩
      have hstore : Machine.Runs I Γ.symbols R ⟨pc, x :: (env.cells ++ base), g⟩
          ⟨pc + 1, x :: (env'.cells ++ base), g⟩ := by
        refine (Machine.runs_store hc.head ?_ ?_).cast rfl ?_
        · rw [Env.cells, List.length_map] at hlt
          exact Nat.le_of_lt (hrep.mono (by omega))
        · rw [List.length_cons, List.length_append]
          omega
        · rw [Nat.add_comm, List.set_cons_succ, List.set_append_left _ _ hlt, hcells]
      exact hstore.trans hpop
  | global slot t =>
      obtain ⟨-, hassign⟩ := Env.eq_none_of_global h
      obtain ⟨v, hv, rfl, -⟩ := Spot.lookupGlobal?_of_global h
      exact .inr ⟨hassign x, v, hv, (Machine.runs_storeGlobal hc.head).trans hpop⟩

section Statements

variable {I : Interpretation Cell} {Γ : LoweringContext} {R : Routine}

/-- What a statement that ends in a certain way has done to the machine: it is behind the code of the
statement, or before the end of the function with the result in its cell. -/
def Ending.Reached (I : Interpretation Cell) (Γ : LoweringContext) (R : Routine)
    (res rest : List Cell) (p : Site) (c : List Instruction) (vs : List Param) (exit : Nat)
    (start : Machine.State Cell) : Ending Cell → Prop
  | .normal env g =>
      env.map Prod.fst = vs ++ p.vars ∧ Machine.Runs I Γ.symbols R start
        ⟨p.next + c.length, env.cells ++ (res ++ rest), g⟩
  | .returned v g =>
      ∃ params : List Cell, params.length = Γ.params.length ∧
        Machine.Runs I Γ.symbols R start
          ⟨exit, params ++ ((v.elim res fun x => [x]) ++ rest), g⟩

/-- What a part of a statement has reached, the statement has reached if the part is its last one. -/
theorem Ending.Reached.of_runs {res rest : List Cell} {p p' : Site} {c c' : List Instruction}
    {vs vs' : List Param} {exit : Nat} {start start' : Machine.State Cell} {ending : Ending Cell}
    (hr : Machine.Runs I Γ.symbols R start start')
    (h : ending.Reached I Γ R res rest p' c' vs' exit start')
    (hvars : vs' ++ p'.vars = vs ++ p.vars) (hnext : p'.next + c'.length = p.next + c.length) :
    ending.Reached I Γ R res rest p c vs exit start := by
  cases ending with
  | normal env g => exact ⟨h.1.trans hvars, (hr.trans h.2).cast hnext rfl⟩
  | returned v g =>
      obtain ⟨params, hlen, hruns⟩ := h
      exact ⟨params, hlen, hr.trans hruns⟩

/-- The place that a part of a statement begins at can be written in another way. -/
theorem Ending.Reached.start {res rest : List Cell} {p : Site} {c : List Instruction}
    {vs : List Param} {exit pc pc' : Nat} {stack : List Cell} {g : Globals Cell}
    {ending : Ending Cell} (h : ending.Reached I Γ R res rest p c vs exit ⟨pc, stack, g⟩)
    (hpc : pc = pc') : ending.Reached I Γ R res rest p c vs exit ⟨pc', stack, g⟩ :=
  hpc ▸ h

namespace Stmt

variable {res rest : List Cell} {exit : Nat} {env : Env Cell} {g : Globals Cell} {p : Site}
  {c : List Instruction} {ls : List Nat} {vs : List Param} {ending : Ending Cell}

theorem execVar_runs (hs : Γ.symbols.Numbered) {decl : VarDecl} (hdecl : decl.type ≠ .void)
    (henv : env.At Γ p) (he : Stmt.Emits Γ p (.var decl) c ls vs) (hc : SliceAt R.code p.next c)
    (hrep : Representable (p.vars.length + (Stmt.var decl).height Γ.symbols))
    (h : execVar I Γ.symbols decl env g = some ending) :
    ending.Reached I Γ R res rest p c vs exit
      ⟨p.next, env.cells ++ (res ++ rest), g⟩ := by
  have hlen := henv.length_eq
  cases he with
  | var hinit =>
      rcases execVar_eq_some h with ⟨-, rfl⟩ | ⟨e, x, g', hinit', -, -⟩
      · exact ⟨congrArg (_ :: ·) henv.vars.symm, Machine.runs_reserve hc.head⟩
      · rw [hinit] at hinit'
        cases hinit'
  | varInit hinit hem =>
      rcases execVar_eq_some h with ⟨hinit', -⟩ | ⟨e, x, g', hinit', hev, rfl⟩
      · rw [hinit] at hinit'
        cases hinit'
      · obtain rfl := Option.some.inj (hinit'.symm.trans hinit)
        refine ⟨congrArg (_ :: ·) henv.vars.symm, ?_⟩
        simp only [Stmt.height, hinit] at hrep
        rw [henv.vars] at hem
        have hΓ : Γ.NonVoid (((⟨decl.type, decl.name⟩, I.initial decl.type) :: env).map Prod.fst) := by
          have hnew : ∀ v ∈ [Param.mk decl.type decl.name], v.type ≠ .void := by simpa using hdecl
          have := henv.nonVoid.append hnew
          rwa [henv.vars] at this
        have hreserve : Machine.Runs I Γ.symbols R
            ⟨p.next, env.cells ++ (res ++ rest), g⟩
            ⟨p.next + 1, I.initial decl.type :: (env.cells ++ (res ++ rest)), g⟩ :=
          Machine.runs_reserve hc.head
        obtain ⟨-, hruns⟩ := Expr.eval_runs hΓ hs (res ++ rest) e [] hem
          hc.tail.left (hrep.mono (by simp; omega)) hev
        have hspot : Spot.ofName? Γ
            (((⟨decl.type, decl.name⟩, I.initial decl.type) :: env).map Prod.fst) decl.name
            = some (.cell 0 decl.type) := by
          rw [List.map_cons, Spot.ofName?_cons, if_pos rfl]
        have hheight := hem.width_le_height
        rw [ValueType.width_of_ne_void hdecl] at hheight
        have hassign : Env.assign? ((⟨decl.type, decl.name⟩, I.initial decl.type) :: env) decl.name
            x.cell = some ((⟨decl.type, decl.name⟩, x.cell) :: env) := by
          rw [Env.assign?, if_pos rfl]
        rcases Spot.store_runs (I := I) (g := g') (res ++ rest) x.cell hspot hc.tail.right
            (hrep.mono (by simp; omega))
          with ⟨env', henv', -, hstore⟩ | ⟨hnone, -⟩
        · obtain rfl := Option.some.inj (henv'.symm.trans hassign)
          refine ((hreserve.trans hruns).trans hstore).cast ?_ rfl
          simp
          omega
        · rw [hassign] at hnone
          cases hnone

theorem execAssign_runs (hs : Γ.symbols.Numbered) {name : String} {e : Expr} {span : Span}
    (henv : env.At Γ p) (he : Stmt.Emits Γ p (.assign name e span) c ls vs)
    (hc : SliceAt R.code p.next c)
    (hrep : Representable (p.vars.length + (Stmt.assign name e span).height Γ.symbols))
    (h : execAssign I Γ.symbols name e env g = some ending) :
    ending.Reached I Γ R res rest p c vs exit
      ⟨p.next, env.cells ++ (res ++ rest), g⟩ := by
  have hlen := henv.length_eq
  have hΓ := henv.nonVoid
  rw [henv.vars] at hΓ
  cases he with
  | assign hspot hem =>
      rw [henv.vars] at hspot hem
      rw [Stmt.height] at hrep
      obtain ⟨x, g', hev, hending⟩ := execAssign_eq_some h
      obtain ⟨-, hruns⟩ := Expr.eval_runs hΓ hs (res ++ rest) e [] hem
        hc.left (hrep.mono (by simp; omega)) hev
      have hheight := hem.width_le_height
      rw [ValueType.width_of_ne_void (hΓ.spot hspot)] at hheight
      have hstore := Spot.store_runs (I := I) (g := g') (res ++ rest) x.cell hspot hc.right
        (hrep.mono (by omega))
      rcases hending with ⟨env', henv', rfl⟩ | ⟨hnone, v, hv, rfl⟩
      · rcases hstore with ⟨env₁, henv₁, hsame, hstore⟩ | ⟨hnone, -⟩
        · obtain rfl := Option.some.inj (henv'.symm.trans henv₁)
          refine ⟨hsame.trans henv.vars.symm, (hruns.trans hstore).cast ?_ rfl⟩
          simp [Nat.add_assoc]
        · rw [henv'] at hnone
          cases hnone
      · rcases hstore with ⟨env₁, henv₁, -, -⟩ | ⟨-, v', hv', hstore⟩
        · rw [hnone] at henv₁
          cases henv₁
        · obtain rfl := Option.some.inj (hv.symm.trans hv')
          refine ⟨henv.vars.symm, (hruns.trans hstore).cast ?_ rfl⟩
          simp [Nat.add_assoc]

/-- A condition is evaluated and the branch is taken. -/
theorem evalCondition_runs (res rest : List Cell) (hs : Γ.symbols.Numbered) {cond : Expr} {holds : Bool}
    {g' : Globals Cell} {label target : Nat} (henv : env.At Γ p)
    (hem : cond.Emits Γ p.vars 0 .int c) (hc : SliceAt R.code p.next (c ++ [.jumpIfZero label]))
    (hl : R.labels[label]? = some (some target))
    (hrep : Representable (p.vars.length + cond.height Γ.symbols))
    (h : evalCondition I Γ.symbols cond env g = some (holds, g')) :
    Machine.Runs I Γ.symbols R ⟨p.next, env.cells ++ (res ++ rest), g⟩
      ⟨if holds then p.next + c.length + 1 else target, env.cells ++ (res ++ rest), g'⟩ := by
  have hlen := henv.length_eq
  have hΓ := henv.nonVoid
  rw [henv.vars] at hΓ hem
  obtain ⟨x, hev, hzero⟩ := evalCondition_eq_some h
  obtain ⟨-, hruns⟩ := Expr.eval_runs hΓ hs (res ++ rest) cond [] hem
    hc.left (hrep.mono (by simp; omega)) hev
  cases holds with
  | true => exact hruns.trans (Machine.runs_jumpIfZero_nonzero hc.last hzero)
  | false => exact hruns.trans (Machine.runs_jumpIfZero_zero hc.last hl hzero)

/-- The cells above the parameters are taken on the way to the end of the function. -/
theorem exit_runs {taken stack : List Cell} {pc : Nat}
    (hc : SliceAt R.code pc (popCode taken.length ++ [.jump 0]))
    (hexit : R.labels[0]? = some (some exit)) (hrep : Representable taken.length) :
    Machine.Runs I Γ.symbols R ⟨pc, taken ++ stack, g⟩ ⟨exit, stack, g⟩ :=
  (Machine.runs_popCode hc.left (Nat.le_of_lt hrep)).trans
    (Machine.runs_jump hc.last hexit)

/-- The result is stored in its cell, which lies below the variables in sight. -/
theorem storeResult_runs (henv : env.At Γ p) {x cell : Cell} {pc : Nat}
    (hi : R.code[pc]? = some (.storeCell (Spot.fromTop 1 p.vars.length)))
    (hrep : Representable (1 + p.vars.length + 1)) :
    Machine.Runs I Γ.symbols R ⟨pc, x :: (env.cells ++ ([cell] ++ rest)), g⟩
      ⟨pc + 1, x :: (env.cells ++ ([x] ++ rest)), g⟩ := by
  have hcells : p.vars.length = env.cells.length := henv.length_eq.trans (List.length_map ..).symm
  rw [hcells] at hi hrep
  refine (Machine.runs_store hi (Nat.le_of_lt hrep) ?_).cast rfl ?_
  · simp
    omega
  · rw [Nat.add_comm, List.set_cons_succ, List.set_append_right _ _ (Nat.le_refl _), Nat.sub_self]
    rfl

theorem execReturn_runs (hs : Γ.symbols.Numbered) {value : Option Expr} {span : Span}
    (henv : env.At Γ p) (he : Stmt.Emits Γ p (.ret value span) c ls vs)
    (hc : SliceAt R.code p.next c) (hexit : R.labels[0]? = some (some exit))
    (hres : res.length = Γ.result.width)
    (hrep : Representable (Γ.result.width + p.vars.length + (Stmt.ret value span).height Γ.symbols))
    (h : execReturn I Γ.symbols value env g = some ending) :
    ending.Reached I Γ R res rest p c vs exit
      ⟨p.next, env.cells ++ (res ++ rest), g⟩ := by
  have hlen := henv.length_eq
  obtain ⟨locals, params, hcells, hlocals, hparams⟩ := henv.split
  cases he with
  | ret hvoid =>
      rcases execReturn_eq_some h with ⟨-, rfl⟩ | ⟨e, x, g', hvalue, -, -⟩
      · refine ⟨params, hparams, ?_⟩
        rw [← hlocals] at hc
        rw [hcells, List.append_assoc]
        exact exit_runs hc hexit (hrep.mono (by omega))
      · cases hvalue
  | retValue hne hem =>
      rcases execReturn_eq_some h with ⟨hvalue, -⟩ | ⟨e, x, g', hvalue, hev, rfl⟩
      · cases hvalue
      · obtain rfl := Option.some.inj hvalue.symm
        have hΓ := henv.nonVoid
        rw [henv.vars] at hΓ hem
        rw [Stmt.height] at hrep
        have hheight := hem.width_le_height
        rw [ValueType.width_of_ne_void hne] at hheight hres hrep
        obtain ⟨r, rfl⟩ := List.length_eq_one_iff.mp hres
        obtain ⟨-, hruns⟩ := Expr.eval_runs hΓ hs ([r] ++ rest) e []
          hem hc.left.left (hrep.mono (by simp; omega)) hev
        have hstore : Machine.Runs I Γ.symbols R
            ⟨p.next + _, x.cell :: (env.cells ++ ([r] ++ rest)), g'⟩
            ⟨_, x.cell :: (env.cells ++ ([x.cell] ++ rest)), g'⟩ :=
          storeResult_runs henv hc.left.last (hrep.mono (by omega))
        have htaken : popCode (x.cell :: locals).length
            = [.pop (p.vars.length - Γ.params.length + 1)] := by
          rw [List.length_cons, hlocals, popCode, if_pos (Nat.succ_pos _)]
        have hexits : Machine.Runs I Γ.symbols R
            ⟨_, x.cell :: locals ++ (params ++ ([x.cell] ++ rest)), g'⟩
            ⟨exit, params ++ ([x.cell] ++ rest), g'⟩ :=
          exit_runs (by rw [htaken]; exact hc.right) hexit
            (hrep.mono (by rw [List.length_cons]; omega))
        refine ⟨params, hparams, ?_⟩
        rw [List.length_append, ← Nat.add_assoc, List.cons_append, ← List.append_assoc, ← hcells]
          at hexits
        exact (hruns.trans hstore).trans hexits

/-- Closing a scope takes its variables from the stack. -/
theorem leave_reached {start : Machine.State Cell} (henv : env.At Γ p)
    (h : ending.Reached I Γ R res rest p c vs exit start)
    (hc : SliceAt R.code p.next (c ++ popCode vs.length)) (hrep : Representable vs.length) :
    (ending.leave env).Reached I Γ R res rest p (c ++ popCode vs.length) [] exit
      start := by
  cases ending with
  | returned v g => exact h
  | normal env' g =>
      obtain ⟨hvars, hruns⟩ := h
      have hlen : env'.length = vs.length + env.length := by
        rw [← henv.length_eq, ← List.length_append, ← hvars, List.length_map]
      have hleave : env'.leave env = env'.drop vs.length := by
        rw [Env.leave, hlen, Nat.add_sub_cancel]
      have htaken : (env'.cells.take vs.length).length = vs.length := by
        rw [List.length_take, Env.cells, List.length_map]
        omega
      have hrest : Env.cells (env'.drop vs.length) = env'.cells.drop vs.length := List.map_drop ..
      rw [Ending.leave, hleave]
      refine ⟨?_, ?_⟩
      · rw [List.map_drop, hvars, List.drop_left' rfl]
        rfl
      · have hpop := hc.right
        rw [← htaken] at hpop
        have hpopped : Machine.Runs I Γ.symbols R
            ⟨_, env'.cells.take vs.length ++ (env'.cells.drop vs.length ++ (res ++ rest)), g⟩
            ⟨_, _, g⟩ :=
          Machine.runs_popCode hpop (by rw [htaken]; exact Nat.le_of_lt hrep)
        rw [← List.append_assoc, List.take_append_drop, htaken] at hpopped
        rw [hrest, List.length_append, ← Nat.add_assoc]
        exact hruns.trans hpopped

/-- What the statements of one function are run in: label 0 stands before its end, and below its
variables there is a cell for the result if it has one. -/
structure Runnable (Γ : LoweringContext) (R : Routine) (res : List Cell)
    (exit : Nat) : Prop where
  numbered : Γ.symbols.Numbered
  label : R.labels[0]? = some (some exit)
  result : res.length = Γ.result.width

/-- Every evaluation of a statement that is `n` deep is one that the machine makes. -/
def Simulated (I : Interpretation Cell) (Γ : LoweringContext) (R : Routine) (res rest : List Cell)
    (exit n : Nat) : Prop :=
  ∀ (s : Stmt) {p : Site} {c : List Instruction} {ls : List Nat} {vs : List Param} {env : Env Cell}
    {g : Globals Cell} {ending : Ending Cell}, env.At Γ p → s.NonVoid → Stmt.Emits Γ p s c ls vs →
    SliceAt R.code p.next c → SliceAt R.labels p.labels (ls.map some) →
    Representable (Γ.result.width + p.vars.length + s.height Γ.symbols) →
    exec I Γ.symbols n s env g = some ending →
    ending.Reached I Γ R res rest p c vs exit ⟨p.next, env.cells ++ (res ++ rest), g⟩

/-- The same for statements one after the other. -/
def AllSimulated (I : Interpretation Cell) (Γ : LoweringContext) (R : Routine)
    (res rest : List Cell) (exit n : Nat) : Prop :=
  ∀ (ss : List Stmt) {p : Site} {c : List Instruction} {ls : List Nat} {vs : List Param}
    {env : Env Cell} {g : Globals Cell} {ending : Ending Cell}, env.At Γ p → Stmt.AllNonVoid ss →
    Stmt.AllEmit Γ p ss c ls vs → SliceAt R.code p.next c → SliceAt R.labels p.labels (ls.map some) →
    Representable (Γ.result.width + p.vars.length + Stmt.allHeight Γ.symbols ss) →
    execAll I Γ.symbols n ss env g = some ending →
    ending.Reached I Γ R res rest p c vs exit ⟨p.next, env.cells ++ (res ++ rest), g⟩

/-- A statement with a scope of its own. -/
theorem Simulated.inScope {n : Nat} (ih : Simulated I Γ R res rest exit n) (s : Stmt)
    (henv : env.At Γ p) (hs : s.NonVoid) (he : Stmt.ScopedEmit Γ p s c ls)
    (hc : SliceAt R.code p.next c) (hl : SliceAt R.labels p.labels (ls.map some))
    (hrep : Representable (Γ.result.width + p.vars.length + s.height Γ.symbols))
    (h : exec I Γ.symbols n s env g = some ending) :
    (ending.leave env).Reached I Γ R res rest p c [] exit
      ⟨p.next, env.cells ++ (res ++ rest), g⟩ := by
  cases he with
  | intro hem =>
      have hlen := congrArg List.length hem.eq_declared
      have hheight := s.declared_le_height Γ.symbols
      exact leave_reached henv (ih s henv hs hem hc.left hl hrep h) hc (hrep.mono (by omega))

theorem execExpr_runs (hs : Γ.symbols.Numbered) {e : Expr} {v : Option (Typed Cell)}
    {g' : Globals Cell} (henv : env.At Γ p) (he : Stmt.Emits Γ p (.expr e) c ls vs)
    (hc : SliceAt R.code p.next c) (hrep : Representable (p.vars.length + e.height Γ.symbols))
    (h : e.eval I Γ.symbols env g = some (v, g')) :
    (Ending.normal env g').Reached I Γ R res rest p c vs exit
      ⟨p.next, env.cells ++ (res ++ rest), g⟩ := by
  have hlen := henv.length_eq
  have hΓ := henv.nonVoid
  rw [henv.vars] at hΓ
  cases he with
  | expr hem =>
      have hheight := hem.width_le_height
      rw [henv.vars] at hem
      obtain ⟨hof, hruns⟩ := Expr.eval_runs hΓ hs (res ++ rest) e []
        hem hc.left (hrep.mono (by simp; omega)) h
      have hpop := hc.right
      rw [← hof.length_cells] at hpop hheight ⊢
      have hpopped : Machine.Runs I Γ.symbols R
          ⟨_, Typed.cells v ++ (env.cells ++ (res ++ rest)), g'⟩ ⟨_, _, g'⟩ :=
        Machine.runs_popCode hpop (Nat.le_of_lt (hrep.mono (by omega)))
      refine ⟨henv.vars.symm, (hruns.trans hpopped).cast ?_ rfl⟩
      rw [List.length_append, Nat.add_assoc]

theorem exec_ifThen_runs {n : Nat} (hrun : Runnable Γ R res exit)
    (ih : Simulated I Γ R res rest exit n) {cond : Expr} {body : Stmt}
    (henv : env.At Γ p) (hs : body.NonVoid) (he : Stmt.Emits Γ p (.ifThen cond body) c ls vs)
    (hc : SliceAt R.code p.next c) (hl : SliceAt R.labels p.labels (ls.map some))
    (hrep : Representable (Γ.result.width + p.vars.length +
      (Stmt.ifThen cond body).height Γ.symbols))
    (h : exec I Γ.symbols (n + 1) (.ifThen cond body) env g = some ending) :
    ending.Reached I Γ R res rest p c vs exit
      ⟨p.next, env.cells ++ (res ++ rest), g⟩ := by
  cases he with
  | ifThen hcond hbody =>
      rw [Stmt.height] at hrep
      rw [exec] at h
      obtain ⟨⟨holds, g₁⟩, heval, h⟩ := Option.bind_eq_some_iff.mp h
      have hbranch := evalCondition_runs res rest hrun.numbered henv hcond
        hc.left hl.head (hrep.mono (by omega)) heval
      cases holds with
      | false =>
          obtain rfl := Option.some.inj h
          refine ⟨henv.vars.symm, hbranch.cast ?_ rfl⟩
          simp
          omega
      | true =>
          obtain ⟨ending', hexec, rfl⟩ := Option.map_eq_some_iff.mp h
          have hright := hc.right
          rw [List.length_append, ← Nat.add_assoc] at hright
          have hreached := ih.inScope body ((henv.after _ _).after _ _) hs hbody hright hl.tail
            (hrep.mono (by simp only [Site.after]; omega)) hexec
          refine .of_runs hbranch hreached rfl ?_
          simp [Site.after]
          omega

theorem exec_ifElse_runs {n : Nat} (hrun : Runnable Γ R res exit)
    (ih : Simulated I Γ R res rest exit n) {cond : Expr} {body other : Stmt}
    (henv : env.At Γ p) (hs : body.NonVoid ∧ other.NonVoid)
    (he : Stmt.Emits Γ p (.ifElse cond body other) c ls vs)
    (hc : SliceAt R.code p.next c) (hl : SliceAt R.labels p.labels (ls.map some))
    (hrep : Representable (Γ.result.width + p.vars.length +
      (Stmt.ifElse cond body other).height Γ.symbols))
    (h : exec I Γ.symbols (n + 1) (.ifElse cond body other) env g = some ending) :
    ending.Reached I Γ R res rest p c vs exit
      ⟨p.next, env.cells ++ (res ++ rest), g⟩ := by
  cases he with
  | @ifElse _ _ _ _ c b d ls ls' hcond hbody hother =>
      simp only [List.map_cons, List.map_append] at hl
      have hend := hl.tail.right.head
      rw [List.length_map] at hend
      rw [Stmt.height] at hrep
      rw [exec] at h
      obtain ⟨⟨holds, g₁⟩, heval, h⟩ := Option.bind_eq_some_iff.mp h
      obtain ⟨ending', hexec, rfl⟩ := Option.map_eq_some_iff.mp h
      have hbranch := evalCondition_runs res rest hrun.numbered henv hcond
        hc.left.left.left hl.head (hrep.mono (by omega)) heval
      cases holds with
      | false =>
          have hreached := ih.inScope other ((henv.after _ _).after _ _) hs.2 hother
            (hc.right.cast (by simp [Site.after]; omega))
            (hl.tail.right.tail.cast (by simp [Site.after]; omega))
            (hrep.mono (by simp only [Site.after]; omega)) hexec
          refine .of_runs hbranch (hreached.start ?_) rfl ?_
          · simp [Site.after]
            omega
          · simp [Site.after]
            omega
      | true =>
          have hreached := ih.inScope body ((henv.after _ _).after _ _) hs.1 hbody
            (hc.left.left.right.cast (by simp [Site.after]; omega)) hl.tail.left
            (hrep.mono (by simp only [Site.after]; omega)) hexec
          have hjump : R.code[p.next + c.length + 1 + b.length]?
              = some (.jump (p.labels + 1 + ls.length)) := by
            rw [← hc.left.last]
            simp only [List.length_append, List.length_singleton, Nat.add_assoc]
          cases hleft : ending'.leave env with
          | returned v g' =>
              rw [hleft] at hreached
              obtain ⟨params, hlen, hruns⟩ := hreached
              exact ⟨params, hlen, hbranch.trans hruns⟩
          | normal env' g' =>
              rw [hleft] at hreached
              refine ⟨hreached.1, ((hbranch.trans hreached.2).trans
                (Machine.runs_jump hjump hend)).cast ?_ rfl⟩
              simp
              omega

theorem exec_loop_runs {n : Nat} (hrun : Runnable Γ R res exit)
    (ih : Simulated I Γ R res rest exit n) {cond : Expr} {body : Stmt}
    (henv : env.At Γ p) (hs : body.NonVoid)
    (he : Stmt.Emits Γ p (.loop cond body) c ls vs)
    (hc : SliceAt R.code p.next c) (hl : SliceAt R.labels p.labels (ls.map some))
    (hrep : Representable (Γ.result.width + p.vars.length +
      (Stmt.loop cond body).height Γ.symbols))
    (h : exec I Γ.symbols (n + 1) (.loop cond body) env g = some ending) :
    ending.Reached I Γ R res rest p c vs exit
      ⟨p.next, env.cells ++ (res ++ rest), g⟩ := by
  have hem := he
  cases he with
  | @loop _ _ _ c b ls hcond hbody =>
      rw [Stmt.height] at hrep
      rw [exec] at h
      obtain ⟨⟨holds, g₁⟩, heval, h⟩ := Option.bind_eq_some_iff.mp h
      have hbranch := evalCondition_runs res rest hrun.numbered henv hcond
        hc.left.left hl.tail.head (hrep.mono (by omega)) heval
      cases holds with
      | false =>
          obtain rfl := Option.some.inj h
          refine ⟨henv.vars.symm, hbranch.cast ?_ rfl⟩
          simp
          omega
      | true =>
          obtain ⟨ending', hexec, h⟩ := Option.bind_eq_some_iff.mp h
          have hright := hc.left.right
          rw [List.length_append, ← Nat.add_assoc] at hright
          have hreached := ih.inScope body ((henv.after _ _).after _ _) hs hbody hright hl.tail.tail
            (hrep.mono (by simp only [Site.after]; omega)) hexec
          have hjump : R.code[p.next + c.length + 1 + b.length]? = some (.jump p.labels) := by
            rw [← hc.last]
            simp only [List.length_append, List.length_singleton, Nat.add_assoc]
          cases hleft : ending'.leave env with
          | returned v g' =>
              rw [hleft] at hreached h
              obtain rfl := Option.some.inj h
              obtain ⟨params, hlen, hruns⟩ := hreached
              exact ⟨params, hlen, hbranch.trans hruns⟩
          | normal env' g' =>
              rw [hleft] at hreached h
              have henv' : env'.At Γ p :=
                ⟨hreached.1.symm, henv.nonVoid, henv.params⟩
              have hagain := ih (.loop cond body) henv' hs hem hc hl
                (by rw [Stmt.height]; exact hrep) h
              exact .of_runs ((hbranch.trans hreached.2).trans (Machine.runs_jump hjump hl.head))
                hagain rfl rfl

/-- One more level of an evaluation is one that the machine makes. -/
theorem Simulated.succ {n : Nat} (hrun : Runnable Γ R res exit)
    (ih : Simulated I Γ R res rest exit n)
    (ihAll : AllSimulated I Γ R res rest exit n) :
    Simulated I Γ R res rest exit (n + 1) := by
  intro s p c ls vs env g ending henv hs he hc hl hrep h
  cases s with
  | block body =>
      rw [exec] at h
      rw [Stmt.height] at hrep
      rw [Stmt.NonVoid] at hs
      obtain ⟨ending', hexec, rfl⟩ := Option.map_eq_some_iff.mp h
      cases he with
      | block hbody =>
          have hlen := hbody.length_le_height
          exact leave_reached henv (ihAll body henv hs hbody hc.left hl hrep hexec) hc
            (hrep.mono (by omega))
  | var decl =>
      rw [exec] at h
      rw [Stmt.NonVoid] at hs
      exact execVar_runs hrun.numbered hs henv he hc (hrep.mono (by omega)) h
  | assign name e span =>
      rw [exec] at h
      exact execAssign_runs hrun.numbered henv he hc (hrep.mono (by omega)) h
  | expr e =>
      rw [exec] at h
      rw [Stmt.height] at hrep
      obtain ⟨⟨v, g'⟩, hev, h⟩ := Option.bind_eq_some_iff.mp h
      obtain rfl := Option.some.inj h
      exact execExpr_runs hrun.numbered henv he hc (hrep.mono (by omega)) hev
  | ifThen cond body =>
      rw [Stmt.NonVoid] at hs
      exact exec_ifThen_runs hrun ih henv hs he hc hl hrep h
  | ifElse cond body other =>
      rw [Stmt.NonVoid] at hs
      exact exec_ifElse_runs hrun ih henv hs he hc hl hrep h
  | loop cond body =>
      rw [Stmt.NonVoid] at hs
      exact exec_loop_runs hrun ih henv hs he hc hl hrep h
  | ret value span =>
      rw [exec] at h
      exact execReturn_runs hrun.numbered henv he hc hrun.label hrun.result hrep h

theorem AllSimulated.succ {n : Nat} (ih : Simulated I Γ R res rest exit n)
    (ihAll : AllSimulated I Γ R res rest exit n) :
    AllSimulated I Γ R res rest exit (n + 1) := by
  intro ss p c ls vs env g ending henv hs he hc hl hrep h
  cases he with
  | nil =>
      rw [execAll] at h
      obtain rfl := Option.some.inj h
      exact ⟨henv.vars.symm, .refl _⟩
  | @cons _ s ss c c' ls ls' vs vs' hfirst hrest =>
      rw [List.map_append] at hl
      rw [execAll] at h
      rw [Stmt.allHeight] at hrep
      rw [Stmt.AllNonVoid] at hs
      obtain ⟨ending', hexec, h⟩ := Option.bind_eq_some_iff.mp h
      have hreached := ih s henv hs.1 hfirst hc.left hl.left (hrep.mono (by omega)) hexec
      cases ending' with
      | returned v g' =>
          obtain rfl := Option.some.inj h
          exact hreached
      | normal env' g' =>
          obtain ⟨hvars, hruns⟩ := hreached
          have hnew := hfirst.nonVoid hs.1
          have hlen := congrArg List.length hfirst.eq_declared
          have hparams := henv.params
          have henv' : env'.At Γ { p.after c ls.length with vars := vs ++ p.vars } :=
            ⟨hvars.symm, henv.nonVoid.append hnew, by rw [List.length_append]; omega⟩
          have hreached := ihAll ss henv' hs.2 hrest hc.right (hl.right.cast (by simp [Site.after]))
            (hrep.mono (by rw [List.length_append]; omega)) h
          refine .of_runs hruns hreached (List.append_assoc ..).symm ?_
          rw [List.length_append, ← Nat.add_assoc]
          rfl

/-- The machine makes every evaluation of the statements of a function. -/
theorem simulated (rest : List Cell) (hrun : Runnable Γ R res exit) (n : Nat) :
    Simulated I Γ R res rest exit n ∧ AllSimulated I Γ R res rest exit n := by
  induction n with
  | zero =>
      refine ⟨?_, ?_⟩
      · intro s p c ls vs env g ending _ _ _ _ _ _ h
        rw [exec] at h
        cases h
      · intro ss p c ls vs env g ending _ _ _ _ _ _ h
        rw [execAll] at h
        cases h
  | succ n ih => exact ⟨ih.1.succ hrun ih.2, .succ ih.1 ih.2⟩

end Stmt

end Statements

end Nss
