/-
# Expressions on the walk

Operators are read in two ways.  A parser goes from tight to loose: it reads what the tightest ones
make of operands, and chains that with the next looser ones, and so on.  A walk has one loop, for all
operators that bind tight enough, and comes back to it behind every right operand.  Both see the
operators in the same order, since behind what some of them make there is none of those
(`Expr.Ends`): where the next operator is not the tightest one, the tighter chains end at once, and
they end at once again behind its right operand (`Expr.ladder_step`).

The loop is gone through by induction on the tokens left.  Every turn of it reads an operator and an
operand, which fails, or costs a token itself.
-/
import Nss.Proofs.Parsing.Agreement
import Nss.Proofs.Syntax.Trees
import Mathlib.Data.Nat.Init

namespace Nss

open Steps

/-! ## Literals

A literal is a value or a mistake, whatever it stands between. -/

namespace Literal

/-- A literal is read from its token, or there is something wrong with its token. -/
def FromToken (t : Token) (p : ScriptParser Expr) : Prop :=
  (∃ e : Expr, p = pure e ∧ e.children = [] ∧ e.span = t.span) ∨
  ∃ problem, p = ScriptParser.fail problem t.span

theorem int_fromToken (t : Token) : FromToken t (int t) := by
  simp only [int]
  split
  · exact .inr ⟨_, rfl⟩
  split
  · exact .inr ⟨_, rfl⟩
  · exact .inl ⟨_, rfl, rfl, rfl⟩

theorem hex_fromToken (t : Token) : FromToken t (hex t) := by
  simp only [hex]
  split
  · exact .inl ⟨_, rfl, rfl, rfl⟩
  · exact .inr ⟨_, rfl⟩

theorem float_fromToken (t : Token) : FromToken t (float t) := by
  simp only [float]
  split
  · exact .inr ⟨_, rfl⟩
  · exact .inl ⟨_, rfl, rfl, rfl⟩

theorem FromToken.cases {t : Token} {p : ScriptParser Expr} (h : FromToken t p) :
    (∃ e, p = pure e) ∨ ∃ problem span, p = ScriptParser.fail problem span :=
  h.imp (fun ⟨e, h, _⟩ => ⟨e, h⟩) fun ⟨problem, h⟩ => ⟨problem, t.span, h⟩

end Literal

namespace Expr

variable {l : Lexed} {d k : Nat}

section

variable {operand : ScriptParser Expr}

/-! ## Chains of operators -/

/-- At a position, no operator of looseness below `m` follows. -/
def Ends (l : Lexed) (m k : Nat) : Prop :=
  ∀ op, BinaryOp.ofToken? (l.tokenAt k).kind = some op → m ≤ op.looseness

theorem Ends.mono {m n : Nat} (h : Ends l n k) (hle : m ≤ n) : Ends l m k :=
  fun op hop => Nat.le_trans hle (h op hop)

/-- Reads on behind the first operand what the operators of looseness below `m` make with it. -/
def ladder (operand : ScriptParser Expr) : Nat → Expr → ScriptParser Expr
  | 0, left => return left
  | m + 1, left => do
    let left ← ladder operand m left
    chain m (operations operand m) (← ScriptParser.remaining) left

theorem operations_eq (operand : ScriptParser Expr) :
    ∀ m, operations operand m = operand >>= ladder operand m
  | 0 => (bind_pure operand).symm
  | m + 1 => by
      rw [operations]
      nth_rewrite 1 [operations_eq operand m]
      rw [bind_assoc]
      rfl

/-- A chain ends where its operators do not follow. -/
theorem chain_stop {looseness : Nat} (tighter : ScriptParser Expr) (left : Expr)
    (h : ∀ op, BinaryOp.ofToken? (l.tokenAt k).kind = some op → op.looseness ≠ looseness)
    (noted : List Diagnostic) : ∀ fuel,
    chain looseness tighter fuel left (l.stateAt k noted) = .ok left (l.stateAt k noted)
  | 0 => rfl
  | fuel + 1 => by
      rw [chain, bind_of_ok ((Takes.peek (d := 0)).1 noted)]
      cases hop : BinaryOp.ofToken? (l.tokenAt k).kind with
      | none => rfl
      | some op =>
          dsimp only
          rw [if_neg (h op hop)]
          rfl

/-- A chain goes on where one of its operators follows. -/
theorem chain_turn {op : BinaryOp} (tighter : ScriptParser Expr)
    (hop : BinaryOp.ofToken? (l.tokenAt k).kind = some op) (fuel : Nat) (left : Expr)
    (noted : List Diagnostic) :
    chain op.looseness tighter (fuel + 1) left (l.stateAt k noted)
      = (do
          let _ ← ScriptParser.advance
          let right ← tighter
          chain op.looseness tighter fuel (binary op left right (left.span.cover right.span)))
        (l.stateAt k noted) := by
  rw [chain, bind_of_ok ((Takes.peek (d := 0)).1 noted), hop]
  dsimp only
  rw [if_pos rfl]

/-- An operator is not the end. -/
theorem lt_of_ofToken? (hl : l.Closed) {op : BinaryOp}
    (hop : BinaryOp.ofToken? (l.tokenAt k).kind = some op) : k < l.tokens.length := by
  refine hl.lt_length_of_kind fun hend => ?_
  rw [hend] at hop
  cases hop

theorem lt_of_unary (hl : l.Closed) {op : UnaryOp}
    (hop : UnaryOp.ofToken? (l.tokenAt k).kind = some op) : k < l.tokens.length := by
  refine hl.lt_length_of_kind fun hend => ?_
  rw [hend] at hop
  cases hop

theorem ladder_stop (operand : ScriptParser Expr) (left : Expr) (noted : List Diagnostic) :
    ∀ m, Ends l m k →
      ladder operand m left (l.stateAt k noted) = .ok left (l.stateAt k noted)
  | 0, _ => rfl
  | m + 1, h => by
      rw [ladder, bind_of_ok (ladder_stop operand left noted m (h.mono (Nat.le_succ m))),
        bind_of_ok (l.remaining_stateAt k noted)]
      exact chain_stop _ left (fun op hop => Nat.ne_of_gt (h op hop)) noted _

/-- What the two ways have in common at positions behind `k`: what the operators of looseness below
`n` make of operands. -/
def ReadsAlike (l : Lexed) (d k n : Nat) (operand : ScriptParser Expr) : Prop :=
  ∀ j, k < j → Agrees l d 1 (Ends l n) j (operations operand n) (Loops.binary l.all (6 - n))

/-- A chain may go on for as long as tokens are left, and no bound beyond that makes a difference. -/
theorem chain_fuel {looseness : Nat} (hl : l.Closed)
    (hreads : ReadsAlike l d k looseness operand) :
    ∀ (fuel fuel' j : Nat) (left : Expr) (noted : List Diagnostic), k < j → j ≤ l.tokens.length →
      l.tokens.length - j ≤ fuel → l.tokens.length - j ≤ fuel' →
      chain looseness (operations operand looseness) fuel left (l.stateAt j noted)
        = chain looseness (operations operand looseness) fuel' left (l.stateAt j noted) := by
  intro fuel
  induction fuel with
  | zero =>
      intro fuel' j left noted _ hj hfuel _
      have hend : (l.tokenAt j).kind = .eof := (hl.kind_eq_eof_iff hj).mpr (by omega)
      have hstop : ∀ op, BinaryOp.ofToken? (l.tokenAt j).kind = some op →
          op.looseness ≠ looseness := by
        rw [hend]
        exact nofun
      rw [chain_stop _ left hstop noted, chain_stop _ left hstop noted]
  | succ fuel ih =>
      intro fuel' j left noted hkj hj hfuel hfuel'
      by_cases hop : ∃ op, BinaryOp.ofToken? (l.tokenAt j).kind = some op ∧ op.looseness = looseness
      · obtain ⟨op, hop, rfl⟩ := hop
        have hlt := lt_of_ofToken? hl hop
        obtain ⟨fuel', rfl⟩ : ∃ n, fuel' = n + 1 := ⟨fuel' - 1, by omega⟩
        have hadvance := (Takes.advance (d := 0) hl hlt).1 noted
        rw [chain_turn _ hop, chain_turn _ hop, bind_of_ok hadvance, bind_of_ok hadvance]
        refine bind_congr_run rfl fun right t hright => ?_
        obtain ⟨j', noted', hj', hjl, -, rfl⟩ := (hreads (j + 1) (by omega)).leaves hlt hright
        exact ih fuel' j' _ noted' (by omega) hjl (by omega) (by omega)
      · have hstop : ∀ op, BinaryOp.ofToken? (l.tokenAt j).kind = some op →
            op.looseness ≠ looseness := fun op h hloose => hop ⟨op, h, hloose⟩
        rw [chain_stop _ left hstop noted, chain_stop _ left hstop noted]

/-- Where an operator follows, the chains of tighter operators end at once, before it and behind its
right operand; so its right operand is read, and then all chains begin again. -/
theorem ladder_step (hl : l.Closed) {op : BinaryOp}
    (hop : BinaryOp.ofToken? (l.tokenAt k).kind = some op)
    (hreads : ReadsAlike l d k op.looseness operand) (left : Expr) (noted : List Diagnostic)
    {m : Nat} (hm : op.looseness < m) :
    ladder operand m left (l.stateAt k noted)
      = (do
          let _ ← ScriptParser.advance
          let right ← operations operand op.looseness
          ladder operand m (binary op left right (left.span.cover right.span)))
        (l.stateAt k noted) := by
  have hlt := lt_of_ofToken? hl hop
  have hstop : Ends l op.looseness k := by
    intro op' hop'
    obtain rfl := Option.some.inj (hop.symm.trans hop')
    exact Nat.le_refl _
  induction m, hm using Nat.le_induction with
  | base =>
      obtain ⟨rest, hrest⟩ : ∃ n, l.tokens.length - k = n + 1 :=
        ⟨l.tokens.length - k - 1, by omega⟩
      have hadvance := (Takes.advance (d := 0) hl hlt).1 noted
      rw [ladder, bind_of_ok (ladder_stop operand left noted _ hstop),
        bind_of_ok (l.remaining_stateAt k noted), hrest, chain_turn _ hop, bind_of_ok hadvance,
        bind_of_ok hadvance]
      refine bind_congr_run rfl fun right t hright => ?_
      obtain ⟨j, noted', hj, hjl, hstop', rfl⟩ :=
        (hreads (k + 1) (Nat.lt_succ_self k)).leaves hlt hright
      rw [ladder, bind_of_ok (ladder_stop operand _ noted' _ hstop'),
        bind_of_ok (l.remaining_stateAt j noted')]
      exact chain_fuel hl hreads rest _ j _ noted' (by omega) hjl (by omega) (Nat.le_refl _)
  | succ m hm ih =>
      rw [ladder]
      refine (bind_congr_run ih fun _ _ _ => rfl).trans ?_
      rw [bind_assoc]
      refine bind_congr_run rfl fun _ t _ => ?_
      rw [bind_assoc]
      rfl

/-! ## The loop over operators -/

theorem level_lt_iff (op : BinaryOp) {m : Nat} (hm : m ≤ 6) :
    op.level < 6 - m ↔ m ≤ op.looseness := by
  have hlt := op.looseness_lt
  rw [BinaryOp.level]
  omega

/-- Behind an operand, the loop reads what the chains read. -/
def Climbs (l : Lexed) (d : Nat) (operand : ScriptParser Expr) (k : Nat) : Prop :=
  ∀ (m : Nat) (left : Expr), m ≤ 6 →
    Agrees l d 0 (Ends l m) k (ladder operand m left) (Loops.binaryLoop l.all (6 - m) left)

theorem Climbs.operations (hoperand : Agrees l d 1 Anywhere k operand (Loops.unary l.all))
    (hclimbs : ∀ j, k < j → Climbs l d operand j) {m : Nat} (hm : m ≤ 6) :
    Agrees l d 1 (Ends l m) k (operations operand m) (Loops.binary l.all (6 - m)) := by
  rw [operations_eq, Loops.binary]
  exact hoperand.bind fun left j hj _ => hclimbs j hj m left hm

/-- The loop over operators goes up the ladder of chains. -/
theorem climbs (hl : l.Closed)
    (hoperand : ∀ k, Agrees l d 1 Anywhere k operand (Loops.unary l.all)) (k : Nat) :
    Climbs l d operand k := by
  induction hleft : l.tokens.length - k using Nat.strong_induction_on generalizing k with
  | h n ih =>
      intro m left hm hk
      have hclimbs : ∀ j, k < j → Climbs l d operand j := by
        intro j hj m' left' hm' hjl
        exact ih (l.tokens.length - j) (by omega) j rfl m' left' hm' hjl
      by_cases hstop : Ends l m k
      · have hend : Agrees l d 0 (Ends l m) k (pure left) (Loops.binaryLoop l.all (6 - m) left) := by
          rw [Loops.binaryLoop]
          refine .see Takes.peek.2 ?_
          cases hop : BinaryOp.ofToken? (l.tokenAt k).kind with
          | none => exact .pure left hstop
          | some op =>
              dsimp only
              rw [if_pos ((level_lt_iff op hm).mpr (hstop op hop))]
              exact .pure left hstop
        exact hend.congr (fun _ noted => ladder_stop operand left noted m hstop) hk
      · obtain ⟨op, hop, hlt⟩ :
            ∃ op, BinaryOp.ofToken? (l.tokenAt k).kind = some op ∧ op.looseness < m := by
          simpa only [Ends, not_forall, Nat.not_le, exists_prop] using hstop
        have htighter : ∀ j, k < j → Agrees l d 1 (Ends l op.looseness) j
            (Expr.operations operand op.looseness) (Loops.binary l.all (6 - op.looseness)) :=
          fun j hj => Climbs.operations (hoperand j)
            (fun j' hj' => hclimbs j' (Nat.lt_trans hj hj')) (Nat.le_of_lt op.looseness_lt)
        refine Agrees.congr ?_ (fun _ noted => ladder_step hl hop htighter left noted hlt) hk
        rw [Loops.binaryLoop]
        refine .see Takes.peek.2 ?_
        rw [hop]
        dsimp only
        have hlevel : 6 - op.looseness = op.level + 1 := by
          have hloose := op.looseness_lt
          rw [BinaryOp.level]
          omega
        rw [if_neg fun h => Nat.not_le.mpr hlt ((level_lt_iff op hm).mp h), ← hlevel]
        have hk' := lt_of_ofToken? hl hop
        refine (Agrees.step (Takes.advance hl hk') hk' ?_).free
        exact (htighter (k + 1) (Nat.lt_succ_self k)).free.bind fun right j hj _ =>
          hclimbs j (by omega) m _ hm

end

/-! ## Operands -/

variable {expr : ScriptParser Expr}

theorem argsLoop_agrees (hl : l.Closed)
    (hexpr : ∀ k, Agrees l d 1 Anywhere k expr (Loops.binary l.all 0)) :
    ∀ (fuel k : Nat) (before : List Expr), l.tokens.length - k < fuel →
      Agrees l d 1 Anywhere k (argsLoop expr fuel before) (Loops.argsLoop l.all before)
  | 0, _, _, hfuel => absurd hfuel (Nat.not_lt_zero _)
  | fuel + 1, k, before, hfuel => by
      rw [argsLoop, Loops.argsLoop]
      refine (hexpr k).bind fun e k' hk' _ => ?_
      refine .eat hl (by decide) (Nat.zero_le 1) ?_ ?_
      · exact .pure _ trivial
      · refine ((Agrees.expect hl (by decide) _).bind fun _ k'' hk'' _ => ?_).free
        intro hle
        exact (argsLoop_agrees hl hexpr fuel k'' _ (by omega)).free hle

theorem args_agrees (hl : l.Closed)
    (hexpr : ∀ k, Agrees l d 1 Anywhere k expr (Loops.binary l.all 0)) (k : Nat) :
    Agrees l d 0 Anywhere k (args expr) (Loops.args l.all) := by
  rw [args, Loops.args]
  refine .eat hl (by decide) (Nat.zero_le 1) ?_ ?_
  · exact .pure _ trivial
  · exact .remaining (argsLoop_agrees hl hexpr _ k [] (Nat.lt_succ_self _)).free

theorem ofWord_agrees (hl : l.Closed)
    (hexpr : ∀ k, Agrees l d 1 Anywhere k expr (Loops.binary l.all 0)) (k : Nat) (t : Token) :
    Agrees l d 0 Anywhere k (ofWord expr t) (Loops.ofWord l.all t) := by
  rw [ofWord, Loops.ofWord]
  cases Literal.word? t with
  | some constant => exact .pure constant trivial
  | none =>
      refine .eat hl (by decide) (Nat.zero_le 1) ?_ ?_
      · refine (args_agrees hl hexpr (k + 1)).bind fun _ _ _ _ => .previousSpan ?_
        exact .pure _ trivial
      · exact .pure _ trivial

theorem primary_agrees (hl : l.Closed)
    (hexpr : ∀ k, Agrees l d 1 Anywhere k expr (Loops.binary l.all 0)) (k : Nat) :
    Agrees l d 1 Anywhere k (primary expr) (Loops.primary l.all) := by
  intro hk
  rw [primary, Loops.primary]
  rcases Nat.lt_or_eq_of_le hk with hlt | rfl
  · refine Agrees.step (Takes.advance hl hlt) hlt ?_ hk
    cases (l.tokenAt k).kind with
    | intLiteral => exact .literal (Literal.int_fromToken _).cases
    | hexLiteral => exact .literal (Literal.hex_fromToken _).cases
    | floatLiteral => exact .literal (Literal.float_fromToken _).cases
    | stringLiteral => exact .pure _ trivial
    | ident => exact ofWord_agrees hl hexpr (k + 1) _
    | lParen =>
        refine (hexpr (k + 1)).free.bind fun inner j _ _ => ?_
        refine (Agrees.expect hl (by decide) _).free.bind fun _ _ _ _ => .previousSpan ?_
        exact .pure _ trivial
    | _ => exact .fail _ _
  · refine Agrees.look (Takes.advance_end hl) ?_ hk
    rw [hl.ending]
    exact .fail _ _

theorem unary_eq (ts : List Token) :
    Loops.unary ts = Loops.nested ts .expressionTooDeep (Loops.unaryInner ts) := by
  rw [Loops.unary]
  rfl

theorem operand_agrees (hl : l.Closed) :
    ∀ n d, maxNesting - d = n → ∀ k, Agrees l d 1 Anywhere k (operand n) (Loops.unary l.all)
  | 0, d, hd, k => by
      rw [operand, unary_eq]
      exact .nested_deep (Nat.le_of_sub_eq_zero hd) _
  | n + 1, d, hd, k => by
      have hoperand : ∀ k, Agrees l (d + 1) 1 Anywhere k (operand n) (Loops.unary l.all) :=
        operand_agrees hl n (d + 1) (by omega)
      rw [unary_eq]
      refine .nested (by omega) _ ?_
      rw [operand, Loops.unaryInner]
      refine .look .peek ?_
      cases hop : UnaryOp.ofToken? (l.tokenAt k).kind with
      | none =>
          refine primary_agrees hl (fun j => ?_) k
          exact (Climbs.operations (hoperand j) (fun j' _ => climbs hl hoperand j')
            (Nat.le_refl 6)).mono (Nat.le_refl 1) fun _ _ => trivial
      | some op =>
          have hlt := lt_of_unary hl hop
          refine Agrees.step (Takes.advance hl hlt) hlt ?_
          exact (hoperand (k + 1)).free.bind fun _ _ _ _ => .pure _ trivial

/-- The walk reads the expressions that the parser reads. -/
theorem parser_agrees (hl : l.Closed) {n : Nat} (hd : maxNesting - d = n) (k : Nat) :
    Agrees l d 1 Anywhere k (parser n) (Loops.expr l.all) :=
  (Climbs.operations (operand_agrees hl n d hd k)
    (fun j _ => climbs hl (operand_agrees hl n d hd) j) (Nat.le_refl 6)).mono (Nat.le_refl 1)
    fun _ _ => trivial

end Expr
end Nss
