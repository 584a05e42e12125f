/-
# Statements on the walk

The statements in a block are read in a loop, of which every turn goes on to a later token: it reads a
statement, or it notes what is wrong and skips tokens up to a place to go on from.  A statement that
fails at once leaves a token to skip, since the loop has looked that neither the end nor the closing
brace is next.

Statements stand in statements, so that the loop calls itself on every level.  The levels are what the
parser counts, and the induction is on those that are left.
-/
import Nss.Proofs.Parsing.Expressions

namespace Nss

open Steps

namespace Stmt

variable {l : Lexed} {d k : Nat} {expr : ScriptParser Expr} {stmt : ScriptParser Stmt}

/-! ## Statements without blocks -/

theorem condition_agrees (hl : l.Closed)
    (hexpr : ∀ k, Agrees l d 1 Anywhere k expr (Loops.expr l.all)) (after : String) (k : Nat) :
    Agrees l d 1 Anywhere k (condition expr after) (Loops.condition l.all after) := by
  rw [condition, Loops.condition]
  refine (Agrees.expect hl (by decide) _).bind fun _ j _ _ => (hexpr j).free.bind fun cond _ _ _ => ?_
  exact (Agrees.expect hl (by decide) _).free.bind fun _ _ _ _ => .pure cond trivial

theorem initializer_agrees (hl : l.Closed)
    (hexpr : ∀ k, Agrees l d 1 Anywhere k expr (Loops.expr l.all)) (k : Nat) :
    Agrees l d 0 Anywhere k (initializer expr) (Loops.initializer l.all) := by
  rw [initializer, Loops.initializer]
  refine .eat hl (by decide) (Nat.zero_le 1) ?_ ?_
  · exact (hexpr (k + 1)).free.map
  · exact .pure none trivial

theorem returned_agrees (hl : l.Closed)
    (hexpr : ∀ k, Agrees l d 1 Anywhere k expr (Loops.expr l.all)) (hk : k < l.tokens.length) :
    Agrees l d 1 Anywhere k (returned expr) (Loops.returned l.all) := by
  rw [returned, Loops.returned]
  refine .step (Takes.advance hl hk) hk ?_
  refine .look (.isAt .semi) ?_
  have hrest (value : Option Expr) (j : Nat) : Agrees l d 0 Anywhere j
      (do
        let _ ← ScriptParser.expect .semi "\";\" after return"
        return ret value ((l.tokenAt k).span.cover (← ScriptParser.previousSpan)) :
          ScriptParser Stmt)
      (do
        let _ ← Loops.expect l.all .semi "\";\" after return"
        return ret value ((l.tokenAt k).span.cover (← Loops.previousSpan l.all))) := by
    refine (Agrees.expect hl (by decide) _).free.bind fun _ _ _ _ => .previousSpan ?_
    exact .pure _ trivial
  cases decide ((l.tokenAt (k + 1)).kind = .semi) with
  | true => exact hrest none (k + 1)
  | false => exact (hexpr (k + 1)).free.map.bind fun value j _ _ => hrest value j

theorem localVariable_agrees (hl : l.Closed)
    (hexpr : ∀ k, Agrees l d 1 Anywhere k expr (Loops.expr l.all)) (k : Nat) :
    Agrees l d 1 Anywhere k (localVariable expr) (Loops.localVariable l.all) := by
  rw [localVariable, Loops.localVariable]
  refine .look .peek ?_
  refine (Agrees.valueType hl).bind fun type j _ _ => ?_
  cases type.isVoid with
  | true => exact .fail _ _
  | false =>
      refine (Agrees.expect hl (by decide) _).free.bind fun name j _ _ => ?_
      refine (initializer_agrees hl hexpr j).bind fun init j _ _ => ?_
      refine (Agrees.expect hl (by decide) _).free.bind fun _ _ _ _ => .previousSpan ?_
      exact .pure _ trivial

theorem assignment_agrees (hl : l.Closed)
    (hexpr : ∀ k, Agrees l d 1 Anywhere k expr (Loops.expr l.all)) (hk : k < l.tokens.length)
    (hassign : (l.tokenAt (k + 1)).kind = .assign) :
    Agrees l d 1 Anywhere k (assignment expr) (Loops.assignment l.all) := by
  have hk' : k + 1 < l.tokens.length := hl.lt_of_kind hk (by rw [hassign]; decide)
  rw [assignment, Loops.assignment]
  refine .step (Takes.advance hl hk) hk (Agrees.free (.step (Takes.advance hl hk') hk' ?_))
  refine (hexpr (k + 1 + 1)).free.bind fun value j _ _ => ?_
  refine (Agrees.expect hl (by decide) _).free.bind fun _ _ _ _ => .previousSpan ?_
  exact .pure _ trivial

theorem expression_agrees (hl : l.Closed)
    (hexpr : ∀ k, Agrees l d 1 Anywhere k expr (Loops.expr l.all)) (k : Nat) :
    Agrees l d 1 Anywhere k (expression expr) (Loops.expression l.all) := by
  rw [expression, Loops.expression]
  refine (hexpr k).bind fun value j _ _ => ?_
  exact (Agrees.expect hl (by decide) _).free.bind fun _ _ _ _ => .pure _ trivial

/-! ## Blocks -/

/-- Where the search for the end of a broken statement does not begin. -/
def Closes (l : Lexed) (k : Nat) : Prop :=
  (l.tokenAt k).kind = .rBrace ∨ (l.tokenAt k).kind = .eof

theorem skipTo_closes (hl : l.Closed) (hk : k ≤ l.tokens.length) (hclose : Closes l k) :
    skipTo (l.tokens.drop k) = pure () := by
  rcases Nat.lt_or_eq_of_le hk with hlt | rfl
  · have hend : (l.tokenAt k).kind ≠ .eof := fun h =>
      Nat.ne_of_lt hlt ((hl.kind_eq_eof_iff hk).mp h)
    rw [Lexed.drop_eq hlt, skipTo, if_pos (hclose.resolve_right hend)]
  · rw [List.drop_length, skipTo]

theorem skipStatement_closes (hclose : Closes l k) :
    Takes l d k k (pure ()) (Loops.skipStatement l.all) () := by
  rw [Loops.skipStatement]
  refine .see (Takes.isAt .eof).2 ?_
  by_cases hend : (l.tokenAt k).kind = .eof
  · rw [if_pos (decide_eq_true hend)]
    exact .pure ()
  · rw [if_neg fun h => hend (of_decide_eq_true h)]
    refine .see (Takes.isAt .rBrace).2 ?_
    rw [if_pos (decide_eq_true (hclose.resolve_right hend))]
    exact .pure ()

theorem skipTo_step (hl : l.Closed) (hk : k < l.tokens.length) (hopen : ¬Closes l k) {k' : Nat}
    (h : Takes l d (k + 1) k'
      (if (l.tokenAt k).kind = .semi then return () else skipTo (l.tokens.drop (k + 1)))
      (if (l.tokenAt k).kind = .semi then return () else Loops.skipStatement l.all) ()) :
    Takes l d k k' (skipTo (l.tokens.drop k)) (Loops.skipStatement l.all) () := by
  rw [Lexed.drop_eq hk, skipTo, if_neg fun h => hopen (.inl h), Loops.skipStatement]
  refine .see (Takes.isAt .eof).2 ?_
  rw [if_neg fun h => hopen (.inr (of_decide_eq_true h))]
  refine .see (Takes.isAt .rBrace).2 ?_
  rw [if_neg fun h => hopen (.inl (of_decide_eq_true h))]
  exact (Takes.advance hl hk).bind h

/-- Up to the end of a broken statement, tokens are skipped one by one. -/
theorem skipTo_skips (hl : l.Closed) (hk : k ≤ l.tokens.length) :
    Skips l d k (Closes l k) (skipTo (l.tokens.drop k)) (Loops.skipStatement l.all) := by
  induction hleft : l.tokens.length - k generalizing k with
  | zero =>
      have hclose : Closes l k := .inr ((hl.kind_eq_eof_iff hk).mpr (by omega))
      refine ⟨k, Nat.le_refl k, hk, fun h => absurd hclose h, ?_⟩
      rw [skipTo_closes hl hk hclose]
      exact skipStatement_closes hclose
  | succ n ih =>
      have hlt : k < l.tokens.length := by omega
      by_cases hclose : Closes l k
      · refine ⟨k, Nat.le_refl k, hk, fun h => absurd hclose h, ?_⟩
        rw [skipTo_closes hl hk hclose]
        exact skipStatement_closes hclose
      · by_cases hsemi : (l.tokenAt k).kind = .semi
        · refine ⟨k + 1, Nat.le_succ k, hlt, fun _ => Nat.lt_succ_self k, skipTo_step hl hlt hclose ?_⟩
          rw [if_pos hsemi, if_pos hsemi]
          exact .pure ()
        · obtain ⟨k', hle, hk', -, hskip⟩ := ih (k := k + 1) hlt (by omega)
          refine ⟨k', by omega, hk', fun _ => by omega, skipTo_step hl hlt hclose ?_⟩
          rw [if_neg hsemi, if_neg hsemi]
          exact hskip

theorem synchronize_skips (hl : l.Closed) (hk : k ≤ l.tokens.length) :
    Skips l d k (Closes l k) synchronize (Loops.skipStatement l.all) := by
  obtain ⟨k', hle, hk', hgo, hskip, hwalk⟩ := skipTo_skips (d := d) hl hk
  exact ⟨k', hle, hk', hgo, hskip, hwalk⟩

theorem blockTurn_eq (ts : List Token) :
    Loops.blockTurn ts = Loops.recovering (Loops.stmt ts) (Loops.skipStatement ts) := by
  rw [Loops.blockTurn]
  refine bind_congr fun r => ?_
  cases r with
  | ok s => rfl
  | error e => rfl

/-- One turn of the loop over a block. -/
theorem blockTurn_turns (hl : l.Closed)
    (hstmt : ∀ k, Agrees l d 1 Anywhere k stmt (Loops.stmt l.all)) (hk : k ≤ l.tokens.length)
    (hopen : ¬Closes l k) :
    Turns l d k (ScriptParser.recover stmt synchronize) (Loops.blockTurn l.all) := by
  rw [blockTurn_eq]
  have hlt := hl.lt_of_kind hk fun hend => hopen (.inr hend)
  exact (hstmt k).recover (Closes l) hlt hopen fun j hj => synchronize_skips hl hj

theorem blockLoop_agrees (hl : l.Closed)
    (hstmt : ∀ k, Agrees l d 1 Anywhere k stmt (Loops.stmt l.all)) :
    ∀ (fuel k : Nat) (body : List Stmt), l.tokens.length - k < fuel →
      Agrees l d 0 Anywhere k (blockLoop stmt fuel body) (Loops.blockLoop l.all body)
  | 0, _, _, hfuel => absurd hfuel (Nat.not_lt_zero _)
  | fuel + 1, k, body, hfuel => by
      intro hk
      rw [blockLoop, Loops.blockLoop, ← Loops.liftM_bind]
      refine Agrees.look .peek ?_ hk
      by_cases hclose : (l.tokenAt k).kind = .rBrace
      · have hlt := hl.lt_of_kind hk (by rw [hclose]; decide)
        rw [if_pos hclose, if_pos hclose, ← Loops.liftM_bind]
        exact (Agrees.step (Takes.advance hl hlt) hlt (.pure body trivial)).free
      · rw [if_neg hclose, if_neg hclose]
        by_cases hend : (l.tokenAt k).kind = .eof
        · rw [if_pos hend, if_pos hend]
          exact .fail _ _
        · rw [if_neg hend, if_neg hend, ← Loops.liftM_bind]
          have hopen : ¬Closes l k := fun h => h.elim hclose hend
          refine (blockTurn_turns hl hstmt hk hopen).agrees.bind fun read j _ hj => ?_
          intro hle
          exact blockLoop_agrees hl hstmt fuel j _ (by omega) hle

theorem blockBody_agrees (hl : l.Closed)
    (hstmt : ∀ k, Agrees l d 1 Anywhere k stmt (Loops.stmt l.all)) (k : Nat) :
    Agrees l d 1 Anywhere k (blockBody stmt) (Loops.blockBody l.all) := by
  rw [blockBody, Loops.blockBody]
  refine (Agrees.expect hl (by decide) _).bind fun _ j _ _ => .remaining ?_
  exact blockLoop_agrees hl hstmt _ j [] (Nat.lt_succ_self _)

/-! ## Statements -/

theorem conditional_agrees (hl : l.Closed)
    (hstmt : ∀ k, Agrees l d 1 Anywhere k stmt (Loops.stmt l.all))
    (hexpr : ∀ k, Agrees l d 1 Anywhere k expr (Loops.expr l.all)) (hk : k < l.tokens.length) :
    Agrees l d 1 Anywhere k (conditional stmt expr) (Loops.conditional l.all) := by
  rw [conditional, Loops.conditional]
  refine .step (Takes.advance hl hk) hk ?_
  refine (condition_agrees hl hexpr _ (k + 1)).free.bind fun cond j _ _ => ?_
  refine (hstmt j).free.bind fun body j _ _ => ?_
  refine .eat hl (by decide) (Nat.zero_le 1) ?_ ?_
  · exact (hstmt (j + 1)).free.bind fun other _ _ _ => .pure _ trivial
  · exact .pure _ trivial

theorem whileLoop_agrees (hl : l.Closed)
    (hstmt : ∀ k, Agrees l d 1 Anywhere k stmt (Loops.stmt l.all))
    (hexpr : ∀ k, Agrees l d 1 Anywhere k expr (Loops.expr l.all)) (hk : k < l.tokens.length) :
    Agrees l d 1 Anywhere k (whileLoop stmt expr) (Loops.whileLoop l.all) := by
  rw [whileLoop, Loops.whileLoop]
  refine .step (Takes.advance hl hk) hk ?_
  refine (condition_agrees hl hexpr _ (k + 1)).free.bind fun cond j _ _ => ?_
  exact (hstmt j).free.bind fun body _ _ _ => .pure _ trivial

theorem ofParts_agrees (hl : l.Closed)
    (hstmt : ∀ k, Agrees l d 1 Anywhere k stmt (Loops.stmt l.all))
    (hexpr : ∀ k, Agrees l d 1 Anywhere k expr (Loops.expr l.all)) (k : Nat) :
    Agrees l d 1 Anywhere k (ofParts stmt expr) (Loops.stmtInner l.all) := by
  intro hk
  rw [ofParts, Loops.stmtInner]
  refine Agrees.look .peek ?_ hk
  have hlt : (l.tokenAt k).kind ≠ .eof → k < l.tokens.length := hl.lt_of_kind hk
  cases hkind : (l.tokenAt k).kind with
  | lBrace => exact (blockBody_agrees hl hstmt k).map
  | semi =>
      have hlt := hlt (by rw [hkind]; decide)
      exact .step (Takes.advance hl hlt) hlt (.pure _ trivial)
  | ifWord => exact conditional_agrees hl hstmt hexpr (hlt (by rw [hkind]; decide))
  | whileWord => exact whileLoop_agrees hl hstmt hexpr (hlt (by rw [hkind]; decide))
  | returnWord => exact returned_agrees hl hexpr (hlt (by rw [hkind]; decide))
  | ident =>
      refine .look .isAtType ?_
      split
      · exact localVariable_agrees hl hexpr k
      · refine .look .peekSecond ?_
        by_cases hassign : (l.tokenAt (k + 1)).kind = .assign
        · rw [if_pos hassign, if_pos hassign]
          exact assignment_agrees hl hexpr (hlt (by rw [hkind]; decide)) hassign
        · rw [if_neg hassign, if_neg hassign]
          exact expression_agrees hl hexpr k
  | _ => exact expression_agrees hl hexpr k

theorem stmt_eq (ts : List Token) :
    Loops.stmt ts = Loops.nested ts .statementTooDeep (Loops.stmtInner ts) := by
  rw [Loops.stmt]
  rfl

/-- The walk reads the statements that the parser reads. -/
theorem parser_agrees (hl : l.Closed) :
    ∀ n d, maxNesting - d = n → ∀ k, Agrees l d 1 Anywhere k (parser n) (Loops.stmt l.all)
  | 0, d, hd, k => by
      rw [parser, stmt_eq]
      exact .nested_deep (Nat.le_of_sub_eq_zero hd) _
  | n + 1, d, hd, k => by
      rw [parser, stmt_eq]
      refine .nested (by omega) _ ?_
      exact ofParts_agrees hl (parser_agrees hl n (d + 1) (by omega))
        (fun j => Expr.parser_agrees hl (by omega) j) k

end Stmt
end Nss
