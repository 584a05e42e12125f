/-
# What a script means

Expressions and statements evaluated on their syntax trees, without a stack: variables are looked up
by their names, the innermost first.  Operands are evaluated from left to right, both of them also
for `&&` and `||`, and arguments from the last to the first.  Every value knows its type, and the
types of its operands say what an operator does.

Statements are evaluated with a bound on the depth of the evaluation, as a loop need not end.
-/
import Nss.Proofs.Machine.Basic

namespace Nss

/-- A value with its type. -/
structure Typed (Cell : Type) where
  type : ValueType
  cell : Cell

/-- The variables in sight with their values, the innermost first. -/
abbrev Env (Cell : Type) := List (Param × Cell)

namespace Env

variable {Cell : Type}

/-- The innermost variable with a name. -/
def lookup? (env : Env Cell) (name : String) : Option (Typed Cell) :=
  (env.find? fun v => v.1.name = name).map fun v => ⟨v.1.type, v.2⟩

/-- The variables with another value for the innermost one with a name, if there is one. -/
def assign? (env : Env Cell) (name : String) (x : Cell) : Option (Env Cell) :=
  match env with
  | [] => none
  | (p, y) :: rest =>
    if p.name = name then some ((p, x) :: rest) else (assign? rest name x).map ((p, y) :: ·)

/-- The variables that are left when a scope is closed, `outer` having been there before. -/
def leave (env outer : Env Cell) : Env Cell := env.drop (env.length - outer.length)

/-- The values of the variables. -/
def cells (env : Env Cell) : List Cell := env.map Prod.snd

end Env

variable {Cell : Type} (I : Interpretation Cell) (symbols : Symbols)

/-! ## Expressions -/

mutual

/-- The value of an expression, if it has one, and the global variables afterwards. -/
def Expr.eval (env : Env Cell) :
    Expr → Globals Cell → Option (Option (Typed Cell) × Globals Cell)
  | .int v _, g => some (some ⟨.int, I.int v⟩, g)
  | .float v _, g => some (some ⟨.float, I.float v⟩, g)
  | .string v _, g => some (some ⟨.string, I.string v⟩, g)
  | .object v _, g => some (some ⟨.object, I.object v⟩, g)
  | .ident name _, g =>
    match env.lookup? name with
    | some x => some (some x, g)
    | none => (symbols.lookupGlobal? name).map fun v => (some ⟨v.type, g v.slot⟩, g)
  | .call name args _, g => do
    let f ← symbols.lookup? name
    let (cells, g) ← Expr.evalArgs env args g
    if f.result.isVoid then
      let g ← I.effect f.id cells g
      return (none, g)
    else
      let (x, g) ← I.value f.id cells (I.initial f.result) g
      return (some ⟨f.result, x⟩, g)
  | .unary op x _, g => do
    let (v, g) ← x.eval env g
    let v ← v
    let y ← I.unary op v.type v.cell
    return (some ⟨v.type, y⟩, g)
  | .binary op l r _, g => do
    let (vl, g) ← l.eval env g
    let vl ← vl
    let (vr, g) ← r.eval env g
    let vr ← vr
    let pair ← TypePair.of? vl.type vr.type
    let y ← I.binary op pair vl.cell vr.cell
    return (some ⟨op.resultType pair, y⟩, g)

/-- The values of arguments, and the global variables afterwards. -/
def Expr.evalArgs (env : Env Cell) :
    List Expr → Globals Cell → Option (List Cell × Globals Cell)
  | [], g => some ([], g)
  | arg :: args, g => do
    let (cells, g) ← Expr.evalArgs env args g
    let (v, g) ← arg.eval env g
    let v ← v
    return (v.cell :: cells, g)

end

/-! ### Values of compound expressions -/

section

variable {I : Interpretation Cell} {symbols : Symbols} {env : Env Cell} {g g' : Globals Cell}
  {v : Option (Typed Cell)}

theorem Expr.eval_unary_eq_some {op : UnaryOp} {x : Expr} {span : Span}
    (h : (Expr.unary op x span).eval I symbols env g = some (v, g')) :
    ∃ a y, x.eval I symbols env g = some (some a, g') ∧ I.unary op a.type a.cell = some y ∧
      v = some ⟨a.type, y⟩ := by
  rw [Expr.eval] at h
  obtain ⟨⟨vx, g₁⟩, hx, h⟩ := Option.bind_eq_some_iff.mp h
  obtain ⟨a, ha, h⟩ := Option.bind_eq_some_iff.mp h
  obtain ⟨y, hy, h⟩ := Option.bind_eq_some_iff.mp h
  obtain ⟨hv, hg⟩ := Prod.mk.inj (Option.some.inj h)
  exact ⟨a, y, by rw [hx, ha, hg], hy, hv.symm⟩

theorem Expr.eval_binary_eq_some {op : BinaryOp} {l r : Expr} {span : Span}
    (h : (Expr.binary op l r span).eval I symbols env g = some (v, g')) :
    ∃ a b g₁ pair y, l.eval I symbols env g = some (some a, g₁) ∧
      r.eval I symbols env g₁ = some (some b, g') ∧ TypePair.of? a.type b.type = some pair ∧
      I.binary op pair a.cell b.cell = some y ∧ v = some ⟨op.resultType pair, y⟩ := by
  rw [Expr.eval] at h
  obtain ⟨⟨vl, g₁⟩, hl, h⟩ := Option.bind_eq_some_iff.mp h
  obtain ⟨a, ha, h⟩ := Option.bind_eq_some_iff.mp h
  obtain ⟨⟨vr, g₂⟩, hr, h⟩ := Option.bind_eq_some_iff.mp h
  obtain ⟨b, hb, h⟩ := Option.bind_eq_some_iff.mp h
  obtain ⟨pair, hpair, h⟩ := Option.bind_eq_some_iff.mp h
  obtain ⟨y, hy, h⟩ := Option.bind_eq_some_iff.mp h
  obtain ⟨hv, hg⟩ := Prod.mk.inj (Option.some.inj h)
  exact ⟨a, b, g₁, pair, y, by rw [hl, ha], by rw [hr, hb, hg], hpair, hy, hv.symm⟩

/-- What a call of a function on arguments yields, and the global variables after it. -/
inductive FunctionSymbol.Yields (I : Interpretation Cell) (f : FunctionSymbol) (args : List Cell)
    (g : Globals Cell) : Option (Typed Cell) → Globals Cell → Prop
  | effect {g' : Globals Cell} : f.result = .void → I.effect f.id args g = some g' →
      FunctionSymbol.Yields I f args g none g'
  | value {x : Cell} {g' : Globals Cell} : f.result ≠ .void →
      I.value f.id args (I.initial f.result) g = some (x, g') →
      FunctionSymbol.Yields I f args g (some ⟨f.result, x⟩) g'

theorem Expr.eval_call_eq_some {name : String} {args : List Expr} {span : Span}
    (h : (Expr.call name args span).eval I symbols env g = some (v, g')) :
    ∃ f cells g₁, symbols.lookup? name = some f ∧
      Expr.evalArgs I symbols env args g = some (cells, g₁) ∧ f.Yields I cells g₁ v g' := by
  rw [Expr.eval] at h
  obtain ⟨f, hf, h⟩ := Option.bind_eq_some_iff.mp h
  obtain ⟨⟨cells, g₁⟩, hargs, h⟩ := Option.bind_eq_some_iff.mp h
  refine ⟨f, cells, g₁, hf, hargs, ?_⟩
  by_cases hvoid : f.result = .void
  · simp only [ValueType.isVoid_iff.mpr hvoid, if_true] at h
    obtain ⟨g₂, heffect, h⟩ := Option.bind_eq_some_iff.mp h
    obtain ⟨rfl, rfl⟩ := Prod.mk.inj (Option.some.inj h)
    exact .effect hvoid heffect
  · simp only [mt ValueType.isVoid_iff.mp hvoid] at h
    obtain ⟨⟨x, g₂⟩, hx, h⟩ := Option.bind_eq_some_iff.mp h
    obtain ⟨rfl, rfl⟩ := Prod.mk.inj (Option.some.inj h)
    exact .value hvoid hx

theorem Expr.evalArgs_cons_eq_some {arg : Expr} {args : List Expr} {cells : List Cell}
    (h : Expr.evalArgs I symbols env (arg :: args) g = some (cells, g')) :
    ∃ xs g₁ a, Expr.evalArgs I symbols env args g = some (xs, g₁) ∧
      arg.eval I symbols env g₁ = some (some a, g') ∧ cells = a.cell :: xs := by
  rw [Expr.evalArgs] at h
  obtain ⟨⟨xs, g₁⟩, hargs, h⟩ := Option.bind_eq_some_iff.mp h
  obtain ⟨⟨va, g₂⟩, harg, h⟩ := Option.bind_eq_some_iff.mp h
  obtain ⟨a, ha, h⟩ := Option.bind_eq_some_iff.mp h
  obtain ⟨hcells, hg⟩ := Prod.mk.inj (Option.some.inj h)
  exact ⟨xs, g₁, a, hargs, by rw [harg, ha, hg], hcells.symm⟩

end

/-! ## Statements -/

/-- How a statement ends: normally, with the variables in sight, or by leaving the function. -/
inductive Ending (Cell : Type) where
  | normal (env : Env Cell) (globals : Globals Cell)
  | returned (value : Option Cell) (globals : Globals Cell)

/-- The ending of a part with a scope of its own. -/
def Ending.leave (outer : Env Cell) : Ending Cell → Ending Cell
  | normal env g => normal (env.leave outer) g
  | returned v g => returned v g

namespace Stmt

/-- The declaration of a variable: in its first value it can be seen already. -/
def execVar (decl : VarDecl) (env : Env Cell) (g : Globals Cell) : Option (Ending Cell) :=
  let p : Param := ⟨decl.type, decl.name⟩
  let env' : Env Cell := (p, I.initial decl.type) :: env
  match decl.init with
  | none => some (.normal env' g)
  | some e => do
    let (v, g) ← e.eval I symbols env' g
    let v ← v
    return .normal ((p, v.cell) :: env) g

/-- An assignment to the innermost variable with a name, or else to a global one. -/
def execAssign (name : String) (e : Expr) (env : Env Cell) (g : Globals Cell) :
    Option (Ending Cell) := do
  let (v, g) ← e.eval I symbols env g
  let v ← v
  match env.assign? name v.cell with
  | some env' => return .normal env' g
  | none =>
    let slot ← (symbols.lookupGlobal? name).map GlobalSymbol.slot
    return .normal env (Machine.update g slot v.cell)

/-- Whether a condition holds, and the global variables afterwards. -/
def evalCondition (cond : Expr) (env : Env Cell) (g : Globals Cell) :
    Option (Bool × Globals Cell) := do
  let (v, g) ← cond.eval I symbols env g
  let v ← v
  return (!I.isZero v.cell, g)

/-- The end of a function. -/
def execReturn (value : Option Expr) (env : Env Cell) (g : Globals Cell) :
    Option (Ending Cell) :=
  match value with
  | none => some (.returned none g)
  | some e => do
    let (v, g) ← e.eval I symbols env g
    let v ← v
    return .returned (some v.cell) g

/-! ### Endings of simple statements -/

section

variable {I : Interpretation Cell} {symbols : Symbols} {env : Env Cell} {g : Globals Cell}
  {ending : Ending Cell}

theorem execVar_eq_some {decl : VarDecl} (h : execVar I symbols decl env g = some ending) :
    decl.init = none ∧
        ending = .normal ((⟨decl.type, decl.name⟩, I.initial decl.type) :: env) g ∨
      ∃ e x g', decl.init = some e ∧
        e.eval I symbols ((⟨decl.type, decl.name⟩, I.initial decl.type) :: env) g
          = some (some x, g') ∧
        ending = .normal ((⟨decl.type, decl.name⟩, x.cell) :: env) g' := by
  simp only [execVar] at h
  cases hinit : decl.init with
  | none =>
      rw [hinit] at h
      exact .inl ⟨rfl, (Option.some.inj h).symm⟩
  | some e =>
      rw [hinit] at h
      obtain ⟨⟨v, g'⟩, hev, h⟩ := Option.bind_eq_some_iff.mp h
      obtain ⟨x, hx, h⟩ := Option.bind_eq_some_iff.mp h
      exact .inr ⟨e, x, g', rfl, hev.trans (congrArg (fun v => some (v, g')) hx),
        (Option.some.inj h).symm⟩

theorem execAssign_eq_some {name : String} {e : Expr}
    (h : execAssign I symbols name e env g = some ending) :
    ∃ x g', e.eval I symbols env g = some (some x, g') ∧
      ((∃ env', env.assign? name x.cell = some env' ∧ ending = .normal env' g') ∨
        env.assign? name x.cell = none ∧ ∃ v, symbols.lookupGlobal? name = some v ∧
          ending = .normal env (Machine.update g' v.slot x.cell)) := by
  obtain ⟨⟨v, g'⟩, hev, h⟩ := Option.bind_eq_some_iff.mp h
  obtain ⟨x, hx, h⟩ := Option.bind_eq_some_iff.mp h
  refine ⟨x, g', by rw [hev, hx], ?_⟩
  cases hassign : env.assign? name x.cell with
  | some env' =>
      simp only [hassign] at h
      exact .inl ⟨env', rfl, (Option.some.inj h).symm⟩
  | none =>
      simp only [hassign] at h
      obtain ⟨slot, hslot, h⟩ := Option.bind_eq_some_iff.mp h
      obtain ⟨v, hv, rfl⟩ := Option.map_eq_some_iff.mp hslot
      exact .inr ⟨rfl, v, hv, (Option.some.inj h).symm⟩

theorem evalCondition_eq_some {cond : Expr} {holds : Bool} {g' : Globals Cell}
    (h : evalCondition I symbols cond env g = some (holds, g')) :
    ∃ x, cond.eval I symbols env g = some (some x, g') ∧ I.isZero x.cell = !holds := by
  obtain ⟨⟨v, g₁⟩, hev, h⟩ := Option.bind_eq_some_iff.mp h
  obtain ⟨x, hx, h⟩ := Option.bind_eq_some_iff.mp h
  obtain ⟨hholds, hg⟩ := Prod.mk.inj (Option.some.inj h)
  exact ⟨x, by rw [hev, hx, hg], by rw [← hholds, Bool.not_not]⟩

theorem execReturn_eq_some {value : Option Expr}
    (h : execReturn I symbols value env g = some ending) :
    value = none ∧ ending = .returned none g ∨
      ∃ e x g', value = some e ∧ e.eval I symbols env g = some (some x, g') ∧
        ending = .returned (some x.cell) g' := by
  cases value with
  | none => exact .inl ⟨rfl, (Option.some.inj h).symm⟩
  | some e =>
      obtain ⟨⟨v, g'⟩, hev, h⟩ := Option.bind_eq_some_iff.mp h
      obtain ⟨x, hx, h⟩ := Option.bind_eq_some_iff.mp h
      exact .inr ⟨e, x, g', rfl, hev.trans (congrArg (fun v => some (v, g')) hx),
        (Option.some.inj h).symm⟩

end

mutual

/-- The ending of a statement. -/
def exec : Nat → Stmt → Env Cell → Globals Cell → Option (Ending Cell)
  | 0, _, _, _ => none
  | n + 1, .block body, env, g => (execAll n body env g).map (Ending.leave env)
  | _ + 1, .var decl, env, g => execVar I symbols decl env g
  | _ + 1, .assign name e _, env, g => execAssign I symbols name e env g
  | _ + 1, .expr e, env, g => do
    let (_, g) ← e.eval I symbols env g
    return .normal env g
  | n + 1, .ifThen cond body, env, g => do
    let (holds, g) ← evalCondition I symbols cond env g
    if holds then (exec n body env g).map (Ending.leave env) else return .normal env g
  | n + 1, .ifElse cond body other, env, g => do
    let (holds, g) ← evalCondition I symbols cond env g
    (exec n (if holds then body else other) env g).map (Ending.leave env)
  | n + 1, .loop cond body, env, g => do
    let (holds, g) ← evalCondition I symbols cond env g
    if holds then
      match (← exec n body env g).leave env with
      | .normal env g => exec n (.loop cond body) env g
      | .returned v g => return .returned v g
    else return .normal env g
  | _ + 1, .ret value _, env, g => execReturn I symbols value env g

/-- The ending of statements one after the other. -/
def execAll : Nat → List Stmt → Env Cell → Globals Cell → Option (Ending Cell)
  | 0, _, _, _ => none
  | _ + 1, [], env, g => some (.normal env g)
  | n + 1, s :: rest, env, g => do
    match ← exec n s env g with
    | .normal env g => execAll n rest env g
    | .returned v g => return .returned v g

end

end Stmt

/-! ## Functions -/

/-- The value that a function returns, if it returns one, and the global variables afterwards. -/
def FunctionDecl.eval (decl : FunctionDecl) (n : Nat) (args : List Cell) (g : Globals Cell) :
    Option (Option Cell × Globals Cell) := do
  match ← Stmt.exec I symbols n (.block (decl.body.getD [])) (decl.params.zip args) g with
  | .normal _ g => return (none, g)
  | .returned v g => return (v, g)

end Nss
