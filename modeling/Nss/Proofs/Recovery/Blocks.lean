/-
# Around the statements of a block

The loop over a block goes from one position to the next, with a statement or with a note
(`Stmt.Turn`, `Stmt.Elements`).  Where a block stands in a statement, that is read around it: other elements
of the blocks outside it, conditions, and the other branch of a conditional (`Stmt.Around`).  If some
elements of the block are replaced up to its end, all of that stays as it is, and the notes go to the outside
(`Stmt.Around.refill`).

What stands before the replaced elements is read as before since it ends in front of them, and what stands
behind the block since the parser comes to it in the same state.
-/
import Nss.Proofs.Recovery.Follows

namespace Nss

open Steps

/-- What was behind the position `q` of one row of tokens is behind `q'` in the other one, and in front of
`m` both are the same. -/
structure Lexed.Spliced (l l' : Lexed) (m q q' : Nat) : Prop extends l.Shares l' m where
  lt' : m < q'
  room : q ≤ l.tokens.length
  length : l'.tokens.length + q = l.tokens.length + q'
  behind : ∀ k noted, q ≤ k → l'.stateAt (q' + (k - q)) noted = l.stateAt k noted

namespace Stmt

/-! ## Turns of the loop -/

variable {l l' : Lexed} {n k k' k'' : Nat}

/-- In one turn, the loop over a block comes from a position to a later one. -/
structure Turn (l : Lexed) (n k : Nat) (read : Option Stmt) (notes : List Diagnostic) (k' : Nat) :
    Prop where
  opened : ¬Closes l k
  lt : k < k'
  le : k' ≤ l.tokens.length
  run : ∀ noted, ScriptParser.recover (parser n) synchronize (l.stateAt k noted)
    = .ok read (l.stateAt k' (noted ++ notes))

/-- In some turns, the loop over a block comes from a position to a later one. -/
inductive Elements (l : Lexed) (n : Nat) : Nat → List Stmt → List Diagnostic → Nat → Prop
  | nil (k : Nat) : Elements l n k [] [] k
  | cons {k k' k'' : Nat} {read : Option Stmt} {notes more : List Diagnostic} {stmts : List Stmt} :
      Turn l n k read notes k' → Elements l n k' stmts more k'' →
      Elements l n k (read.toList ++ stmts) (notes ++ more) k''

variable {read : Option Stmt} {notes more : List Diagnostic} {stmts stmts' : List Stmt}

theorem Elements.le (h : Elements l n k stmts notes k') : k ≤ k' := by
  induction h with
  | nil => exact Nat.le_refl _
  | cons hturn _ ih => exact Nat.le_trans (Nat.le_of_lt hturn.lt) ih

theorem Elements.append (h : Elements l n k stmts notes k') (h' : Elements l n k' stmts' more k'') :
    Elements l n k (stmts ++ stmts') (notes ++ more) k'' := by
  induction h with
  | nil => exact h'
  | cons hturn _ ih =>
      rw [List.append_assoc, List.append_assoc]
      exact .cons hturn (ih h')

/-- A statement that is read is an element. -/
theorem Elements.one {s : Stmt} (hopen : ¬Closes l k) (hlt : k < k') (hle : k' ≤ l.tokens.length)
    {notes : List Diagnostic} (h : ∀ noted, parser n (l.stateAt k noted)
      = .ok s (l.stateAt k' (noted ++ notes))) : Elements l n k [s] notes k' := by
  have hturn : Turn l n k (some s) notes k' :=
    ⟨hopen, hlt, hle, fun noted => by rw [ScriptParser.recover, h noted]⟩
  have hone := Elements.cons hturn (.nil k')
  rwa [List.append_nil, List.append_nil] at hone

/-- The loop over a block goes through its elements up to the closing brace. -/
theorem Elements.blockLoop (hl : l.Closed) (h : Elements l n k stmts notes k')
    (hbrace : (l.tokenAt k').kind = .rBrace) (hk' : k' < l.tokens.length) :
    ∀ (fuel : Nat) (body : List Stmt) (noted : List Diagnostic), l.tokens.length < fuel + k →
      Stmt.blockLoop (parser n) fuel body (l.stateAt k noted)
        = .ok (body ++ stmts) (l.stateAt (k' + 1) (noted ++ notes)) := by
  induction h with
  | nil k =>
      intro fuel body noted hfuel
      obtain ⟨fuel, rfl⟩ : ∃ n, fuel = n + 1 := ⟨fuel - 1, by omega⟩
      rw [Stmt.blockLoop, bind_of_ok (l.reads_peek k noted), if_pos hbrace,
        bind_of_ok (hl.reads_advance hk' noted), List.append_nil, List.append_nil]
      rfl
  | @cons k k' k'' read notes more stmts hturn _ ih =>
      intro fuel body noted hfuel
      have hlt := hturn.lt
      have hle := hturn.le
      obtain ⟨fuel, rfl⟩ : ∃ n, fuel = n + 1 := ⟨fuel - 1, by omega⟩
      rw [Stmt.blockLoop, bind_of_ok (l.reads_peek k noted), if_neg fun h => hturn.opened (.inl h),
        if_neg fun h => hturn.opened (.inr h), bind_of_ok (hturn.run noted),
        ih hbrace hk' fuel _ _ (by omega), List.append_assoc, List.append_assoc]

theorem Elements.blockBody (hl : l.Closed) (hk : k < l.tokens.length)
    (hopen : (l.tokenAt k).kind = .lBrace) (h : Elements l n (k + 1) stmts notes k')
    (hbrace : (l.tokenAt k').kind = .rBrace) (hk' : k' < l.tokens.length)
    (noted : List Diagnostic) : Stmt.blockBody (parser n) (l.stateAt k noted)
      = .ok stmts (l.stateAt (k' + 1) (noted ++ notes)) := by
  rw [Stmt.blockBody, bind_of_ok (hl.reads_expect hk hopen _ noted),
    bind_of_ok (l.remaining_stateAt (k + 1) noted)]
  exact h.blockLoop hl hbrace hk' _ [] noted (by omega)

/-- A statement that begins with a brace is a block. -/
theorem parser_block (hopen : (l.tokenAt k).kind = .lBrace) (noted : List Diagnostic) :
    parser (n + 1) (l.stateAt k noted) = (block <$> blockBody (parser n)) (l.stateAt k noted) := by
  rw [parser, ofParts, bind_of_ok (l.reads_peek k noted), hopen]

theorem Elements.parser (hl : l.Closed) (hk : k < l.tokens.length)
    (hopen : (l.tokenAt k).kind = .lBrace) (h : Elements l n (k + 1) stmts notes k')
    (hbrace : (l.tokenAt k').kind = .rBrace) (hk' : k' < l.tokens.length)
    (noted : List Diagnostic) : Stmt.parser (n + 1) (l.stateAt k noted)
      = .ok (block stmts) (l.stateAt (k' + 1) (noted ++ notes)) := by
  rw [parser_block hopen, ← bind_pure_comp, bind_of_ok (h.blockBody hl hk hopen hbrace hk' noted)]
  rfl

end Stmt

/-! ## In both rows -/

namespace Lexed.Spliced

variable {α : Type} {l l' : Lexed} {m q q' k k' : Nat}

/-- Where a position behind the change is in the other row. -/
def moved (q q' k : Nat) : Nat := q' + (k - q)

theorem moved_self : moved q q' q = q' := by rw [moved, Nat.sub_self, Nat.add_zero]

theorem moved_succ (hk : q ≤ k) : moved q q' (k + 1) = moved q q' k + 1 := by
  rw [moved, moved]
  omega

variable (hs : l.Spliced l' m q q')
include hs

theorem moved_lt (hk : q ≤ k) (hlt : k < l.tokens.length) : moved q q' k < l'.tokens.length := by
  have hlength := hs.length
  rw [moved]
  omega

theorem moved_le (hk : q ≤ k) (hle : k ≤ l.tokens.length) : moved q q' k ≤ l'.tokens.length := by
  have hlength := hs.length
  rw [moved]
  omega

theorem stateAt_moved (hk : q ≤ k) (noted : List Diagnostic) :
    l'.stateAt (moved q q' k) noted = l.stateAt k noted := hs.behind k noted hk

theorem tokenAt_moved (hk : q ≤ k) : l'.tokenAt (moved q q' k) = l.tokenAt k := by
  rw [← l'.headD_stateAt _ [], ← l.headD_stateAt _ [], hs.stateAt_moved hk]

theorem closes_moved (hk : q ≤ k) : Stmt.Closes l' (moved q q' k) ↔ Stmt.Closes l k := by
  rw [Stmt.Closes, Stmt.Closes, hs.tokenAt_moved hk]

theorem reads_moved {p : ScriptParser α} {a : α} (hk : q ≤ k) (hk' : q ≤ k')
    (h : l.Reads p k a k') : l'.Reads p (moved q q' k) a (moved q q' k') := by
  intro noted
  rw [hs.stateAt_moved hk, hs.stateAt_moved hk']
  exact h noted

end Lexed.Spliced

namespace Stmt

open Lexed.Spliced

variable {l l' : Lexed} {m q q' n k k' : Nat} {read : Option Stmt} {notes : List Diagnostic}
  {stmts : List Stmt}

/-- A turn behind the change is one in both rows. -/
theorem Turn.moved (hs : l.Spliced l' m q q') (hk : q ≤ k) (h : Turn l n k read notes k') :
    Turn l' n (moved q q' k) read notes (moved q q' k') where
  opened hclose := h.opened ((hs.closes_moved hk).mp hclose)
  lt := by
    have hlt := h.lt
    rw [Lexed.Spliced.moved, Lexed.Spliced.moved]
    omega
  le := hs.moved_le (Nat.le_trans hk (Nat.le_of_lt h.lt)) h.le
  run noted := by
    rw [hs.stateAt_moved hk, hs.stateAt_moved (Nat.le_trans hk (Nat.le_of_lt h.lt))]
    exact h.run noted

theorem Elements.moved (hs : l.Spliced l' m q q') (hk : q ≤ k) (h : Elements l n k stmts notes k') :
    Elements l' n (moved q q' k) stmts notes (moved q q' k') := by
  induction h with
  | nil k => exact .nil _
  | cons hturn _ ih =>
      exact .cons (hturn.moved hs hk) (ih (Nat.le_trans hk (Nat.le_of_lt hturn.lt)))

/-- A turn before the change, without a note, is one in both rows. -/
theorem Turn.before (hs : l.Spliced l' m q q') (hn : n ≤ maxNesting) (h : Turn l n k read [] k')
    (hk' : k' ≤ m) : Turn l' n k read [] k' where
  opened := by
    have hkm := Nat.lt_of_lt_of_le h.lt hk'
    rw [Closes, hs.token k hkm]
    exact h.opened
  lt := h.lt
  le := Nat.le_trans hk' hs.le'
  run noted := by
    have hk : k ≤ l.tokens.length := Nat.le_trans (Nat.le_of_lt h.lt) h.le
    have hfollows := recover_follows hs.toShares h.opened (parser_agrees_of_le hs.closed hn k)
      (parser_follows hs.toShares n (maxNesting - n) (Nat.sub_sub_self hn) k)
    have hread : l.Reads (ScriptParser.recover (parser n) synchronize) k read k' := by
      intro noted
      rw [h.run noted, List.append_nil]
    rw [List.append_nil]
    exact hfollows.reads hread hk h.le (Nat.lt_succ_of_le hk') noted

theorem Elements.before (hs : l.Spliced l' m q q') (hn : n ≤ maxNesting)
    (h : Elements l n k stmts notes k') (hnotes : notes = []) (hk' : k' ≤ m) :
    Elements l' n k stmts notes k' := by
  induction h with
  | nil k => exact .nil _
  | cons hturn hrest ih =>
      obtain ⟨rfl, rfl⟩ := List.append_eq_nil_iff.mp hnotes
      exact .cons (hturn.before hs hn (Nat.le_trans hrest.le hk')) (ih rfl hk')

/-! ## Statements in front of others -/

/-- A conditional statement, from the statement in it on. -/
theorem parser_if (hl : l.Closed) (hif : (l.tokenAt k).kind = .ifWord) (hk : k < l.tokens.length)
    {cond : Expr} (hcond : l.Reads (condition (Expr.parser n) "if") (k + 1) cond k')
    (noted : List Diagnostic) : parser (n + 1) (l.stateAt k noted) = (do
      let body ← parser n
      if ← ScriptParser.eat .elseWord then
        let other ← parser n
        return ifElse cond body other
      else return ifThen cond body) (l.stateAt k' noted) := by
  rw [parser, ofParts, bind_of_ok (l.reads_peek k noted), hif]
  exact (bind_of_ok (hl.reads_advance hk noted)).trans (bind_of_ok (hcond noted))

/-- A loop, from the statement in it on. -/
theorem parser_while (hl : l.Closed) (hwhile : (l.tokenAt k).kind = .whileWord)
    (hk : k < l.tokens.length) {cond : Expr}
    (hcond : l.Reads (condition (Expr.parser n) "while") (k + 1) cond k')
    (noted : List Diagnostic) : parser (n + 1) (l.stateAt k noted) = (do
      let body ← parser n
      return loop cond body) (l.stateAt k' noted) := by
  rw [parser, ofParts, bind_of_ok (l.reads_peek k noted), hwhile]
  exact (bind_of_ok (hl.reads_advance hk noted)).trans (bind_of_ok (hcond noted))

/-! ## Contexts -/

/-- What stands around the elements of a block, from one of them up to its end, in a statement. -/
inductive Context where
  /-- The statement is the block, and some elements stand before. -/
  | tail (before : List Stmt)
  /-- The block stands in an element of the statement, which is a block, too. -/
  | element (before : List Stmt) (inner : Context) (after : List Stmt)
  | ifThen (cond : Expr) (inner : Context)
  | ifBody (cond : Expr) (inner : Context) (other : Stmt)
  | ifOther (cond : Expr) (body : Stmt) (inner : Context)
  | loop (cond : Expr) (inner : Context)

/-- The statement with these elements up to the end of the block. -/
def Context.fill : Context → List Stmt → Stmt
  | tail before, stmts => block (before ++ stmts)
  | element before inner after, stmts => block (before ++ inner.fill stmts :: after)
  | ifThen cond inner, stmts => Stmt.ifThen cond (inner.fill stmts)
  | ifBody cond inner other, stmts => ifElse cond (inner.fill stmts) other
  | ifOther cond body inner, stmts => ifElse cond body (inner.fill stmts)
  | loop cond inner, stmts => Stmt.loop cond (inner.fill stmts)

theorem Context.fill_block {ctx : Context} {stmts : List Stmt} {body : List Stmt}
    (h : ctx.fill stmts = .block body) (stmts' : List Stmt) :
    ∃ body', ctx.fill stmts' = .block body' := by
  cases ctx with
  | tail | element => exact ⟨_, rfl⟩
  | ifThen | ifBody | ifOther | loop => cases h

/-- A statement from `k` to `k'` is read around elements of a block, from `m` on up to the closing brace
at `b`.  The statement may be nested `n` deep, and the elements `i` deep. -/
inductive Around (l : Lexed) (m i b : Nat) : Nat → Nat → Nat → Context → Prop
  | tail {k : Nat} {before : List Stmt} : (l.tokenAt k).kind = .lBrace →
      Elements l i (k + 1) before [] m → (l.tokenAt b).kind = .rBrace →
      Around l m i b (i + 1) k (b + 1) (.tail before)
  | element {n k k₁ k₂ k₃ : Nat} {before after : List Stmt} {inner : Context} :
      (l.tokenAt k).kind = .lBrace → Elements l n (k + 1) before [] k₁ →
      Around l m i b n k₁ k₂ inner → Elements l n k₂ after [] k₃ →
      (l.tokenAt k₃).kind = .rBrace → Around l m i b (n + 1) k (k₃ + 1) (.element before inner after)
  | ifThen {n k k₁ k₂ : Nat} {cond : Expr} {inner : Context} : (l.tokenAt k).kind = .ifWord →
      l.Reads (condition (Expr.parser n) "if") (k + 1) cond k₁ → Around l m i b n k₁ k₂ inner →
      (l.tokenAt k₂).kind ≠ .elseWord → Around l m i b (n + 1) k k₂ (.ifThen cond inner)
  | ifBody {n k k₁ k₂ k₃ : Nat} {cond : Expr} {inner : Context} {other : Stmt} :
      (l.tokenAt k).kind = .ifWord → l.Reads (condition (Expr.parser n) "if") (k + 1) cond k₁ →
      Around l m i b n k₁ k₂ inner → (l.tokenAt k₂).kind = .elseWord →
      l.Reads (parser n) (k₂ + 1) other k₃ → k₃ ≤ l.tokens.length →
      Around l m i b (n + 1) k k₃ (.ifBody cond inner other)
  | ifOther {n k k₁ k₂ k₃ : Nat} {cond : Expr} {body : Stmt} {inner : Context} :
      (l.tokenAt k).kind = .ifWord → l.Reads (condition (Expr.parser n) "if") (k + 1) cond k₁ →
      l.Reads (parser n) k₁ body k₂ → k₁ < l.tokens.length → (l.tokenAt k₂).kind = .elseWord →
      Around l m i b n (k₂ + 1) k₃ inner → Around l m i b (n + 1) k k₃ (.ifOther cond body inner)
  | loop {n k k₁ k₂ : Nat} {cond : Expr} {inner : Context} : (l.tokenAt k).kind = .whileWord →
      l.Reads (condition (Expr.parser n) "while") (k + 1) cond k₁ → Around l m i b n k₁ k₂ inner →
      Around l m i b (n + 1) k k₂ (.loop cond inner)

namespace Around

variable {i b : Nat} {ctx : Context}

/-- A statement around others begins with a brace or with one of two words. -/
theorem first (h : Around l m i b n k k' ctx) : (l.tokenAt k).kind = .lBrace ∨
    (l.tokenAt k).kind = .ifWord ∨ (l.tokenAt k).kind = .whileWord := by
  cases h with
  | tail h | element h => exact .inl h
  | ifThen h | ifBody h | ifOther h => exact .inr (.inl h)
  | loop h => exact .inr (.inr h)

theorem not_closes (h : Around l m i b n k k' ctx) : ¬Closes l k := by
  rw [Closes]
  rcases h.first with h | h | h <;> rw [h] <;> decide

/-- Behind the elements the block is closed. -/
theorem closed (h : Around l m i b n k k' ctx) : (l.tokenAt b).kind = .rBrace := by
  induction h with
  | tail _ _ hclose => exact hclose
  | element _ _ _ _ _ ih | ifThen _ _ _ _ ih | ifBody _ _ _ _ _ _ ih | ifOther _ _ _ _ _ _ ih
  | loop _ _ _ ih => exact ih

theorem lt_length (hl : l.Closed) (h : Around l m i b n k k' ctx) : k < l.tokens.length :=
  hl.lt_length_of_kind fun hend => h.not_closes (.inr hend)

/-- What is read before the elements ends before them, and what is read behind them is behind the brace. -/
theorem bounds (hl : l.Closed) (h : Around l m i b n k k' ctx) (hn : n ≤ maxNesting + 1) :
    k < m ∧ b < k' ∧ k' ≤ l.tokens.length := by
  have hcondition {n k k₁ : Nat} {cond : Expr} {after : String} (hn : n + 1 ≤ maxNesting + 1)
      (hk : k < l.tokens.length) (hk₁ : k₁ < l.tokens.length)
      (h : l.Reads (condition (Expr.parser n) after) (k + 1) cond k₁) : k + 1 + 1 ≤ k₁ :=
    (condition_agrees_of_le hl (Nat.le_of_succ_le_succ hn) after (k + 1)).le_of_reads hk
      (Nat.le_of_lt hk₁) h
  have hstatement {n k k₁ : Nat} {s : Stmt} (hn : n + 1 ≤ maxNesting + 1)
      (hk : k ≤ l.tokens.length) (hk₁ : k₁ ≤ l.tokens.length) (h : l.Reads (parser n) k s k₁) :
      k + 1 ≤ k₁ :=
    (parser_agrees_of_le hl (Nat.le_of_succ_le_succ hn) k).le_of_reads hk hk₁ h
  induction h with
  | tail hopen hbefore hclose =>
      have hb := hl.lt_length_of_kind (by rw [hclose]; decide)
      exact ⟨hbefore.le, Nat.lt_succ_self b, hb⟩
  | element hopen hbefore hinner hafter hclose ih =>
      have hb := hl.lt_length_of_kind (by rw [hclose]; decide)
      have hafter := hafter.le
      have hbefore := hbefore.le
      obtain ⟨hkm, hbk, -⟩ := ih (by omega)
      omega
  | ifThen hif hcond hinner hnot ih =>
      have hk := hl.lt_length_of_kind (by rw [hif]; decide)
      have hlt := hcondition hn hk (hinner.lt_length hl) hcond
      obtain ⟨hkm, hbk, hle⟩ := ih (by omega)
      omega
  | ifBody hif hcond hinner helse hother hle ih =>
      have hk := hl.lt_length_of_kind (by rw [hif]; decide)
      have hk₂ := hl.lt_length_of_kind (by rw [helse]; decide)
      have hlt := hcondition hn hk (hinner.lt_length hl) hcond
      have hlt' := hstatement hn hk₂ hle hother
      obtain ⟨hkm, hbk, -⟩ := ih (by omega)
      omega
  | @ifOther n k k₁ k₂ k₃ cond body inner hif hcond hbody hk₁ helse hinner ih =>
      have hk := hl.lt_length_of_kind (by rw [hif]; decide)
      have hk₂ := hl.lt_length_of_kind (by rw [helse]; decide)
      have hlt := hcondition hn hk hk₁ hcond
      have hlt' := hstatement hn (Nat.le_of_lt hk₁) (Nat.le_of_lt hk₂) hbody
      obtain ⟨hkm, hbk, hle⟩ := ih (by omega)
      omega
  | loop hwhile hcond hinner ih =>
      have hk := hl.lt_length_of_kind (by rw [hwhile]; decide)
      have hlt := hcondition hn hk (hinner.lt_length hl) hcond
      obtain ⟨hkm, hbk, hle⟩ := ih (by omega)
      omega

/-- A condition in front of the change is read in both rows. -/
theorem reads_condition (hs : l.Spliced l' m q q') {cond : Expr}
    {after : String} (hcond : l.Reads (condition (Expr.parser n) after) k cond k')
    (hk : k ≤ l.tokens.length) (hk' : k' ≤ m) :
    l'.Reads (condition (Expr.parser n) after) k cond k' :=
  (condition_follows hs.toShares (Expr.parser_follows hs.toShares n) after k).reads hcond hk
    (Nat.le_trans hk' hs.le) (Nat.lt_succ_of_le hk')

/-- If the elements are replaced up to the brace, then all around them is read as before, and what they note
is noted. -/
theorem refill (hs : l.Spliced l' m q q') (h : Around l m i b n k k' ctx) (hn : n ≤ maxNesting + 1)
    (hb : q ≤ b) (hstmts : Elements l' i m stmts notes (moved q q' b)) (noted : List Diagnostic) :
    parser n (l'.stateAt k noted)
      = .ok (ctx.fill stmts) (l'.stateAt (moved q q' k') (noted ++ notes)) := by
  have hbounds := h.bounds hs.closed hn
  have hkl' : k < l'.tokens.length := Nat.lt_of_lt_of_le hbounds.1 hs.le'
  induction h generalizing noted with
  | @tail k before hopen hbefore hclose =>
      have hbl := hs.closed.lt_length_of_kind (by rw [hclose]; decide)
      have helements := (hbefore.before hs (Nat.le_of_succ_le_succ hn) rfl (Nat.le_refl m)).append hstmts
      rw [moved_succ hb]
      refine helements.parser hs.closed' hkl' ?_ ?_ (hs.moved_lt hb hbl) noted
      · rw [hs.token k hbounds.1, hopen]
      · rw [hs.tokenAt_moved hb, hclose]
  | @element n k k₁ k₂ k₃ before after inner hopen hbefore hinner hafter hclose ih =>
      have hn' := Nat.le_of_succ_le_succ hn
      obtain ⟨hk₁, hk₂, hk₂l⟩ := hinner.bounds hs.closed (Nat.le_succ_of_le hn')
      have hk₃l := hs.closed.lt_length_of_kind (by rw [hclose]; decide)
      have hqk₂ : q ≤ k₂ := by omega
      have hqk₃ : q ≤ k₃ := Nat.le_trans hqk₂ hafter.le
      have hopened : ¬Closes l' k₁ := by
        rw [Closes, hs.token k₁ hk₁]
        exact hinner.not_closes
      have hlt : k₁ < moved q q' k₂ := by
        have hm := hs.lt'
        rw [moved]
        omega
      have hone : Elements l' n k₁ [inner.fill stmts] notes (moved q q' k₂) :=
        .one hopened hlt (hs.moved_le hqk₂ hk₂l)
          (ih (Nat.le_succ_of_le hn') · ⟨hk₁, hk₂, hk₂l⟩ (Nat.lt_of_lt_of_le hk₁ hs.le'))
      have helements := (hbefore.before hs hn' rfl (Nat.le_of_lt hk₁)).append
        (hone.append (hafter.moved hs hqk₂))
      rw [List.append_nil] at helements
      rw [moved_succ hqk₃]
      refine helements.parser hs.closed' hkl' ?_ ?_ (hs.moved_lt hqk₃ hk₃l) noted
      · rw [hs.token k hbounds.1, hopen]
      · rw [hs.tokenAt_moved hqk₃, hclose]
  | @ifThen n k k₁ k₂ cond inner hif hcond hinner hnot ih =>
      have hn' := Nat.le_of_succ_le_succ hn
      have hinner' := hinner.bounds hs.closed (Nat.le_succ_of_le hn')
      have hk := hs.closed.lt_length_of_kind (k := k) (by rw [hif]; decide)
      have hcond' := reads_condition hs hcond hk (Nat.le_of_lt hinner'.1)
      rw [parser_if hs.closed' (by rw [hs.token k hbounds.1, hif]) hkl' hcond']
      rw [bind_of_ok (ih (Nat.le_succ_of_le hn') noted hinner' (Nat.lt_of_lt_of_le hinner'.1 hs.le'))]
      refine bind_of_ok (Lexed.reads_eat_other ?_ _)
      rw [hs.tokenAt_moved (by omega)]
      exact hnot
  | @ifBody n k k₁ k₂ k₃ cond inner other hif hcond hinner helse hother hle ih =>
      have hn' := Nat.le_of_succ_le_succ hn
      have hinner' := hinner.bounds hs.closed (Nat.le_succ_of_le hn')
      have hk := hs.closed.lt_length_of_kind (k := k) (by rw [hif]; decide)
      have hk₂ := hs.closed.lt_length_of_kind (k := k₂) (by rw [helse]; decide)
      have hqk₂ : q ≤ k₂ := by omega
      have hcond' := reads_condition hs hcond hk (Nat.le_of_lt hinner'.1)
      have helse' : (l'.tokenAt (moved q q' k₂)).kind = .elseWord := by
        rw [hs.tokenAt_moved hqk₂, helse]
      have hother' := hs.reads_moved (by omega) (by omega) hother
      rw [moved_succ hqk₂] at hother'
      rw [parser_if hs.closed' (by rw [hs.token k hbounds.1, hif]) hkl' hcond']
      rw [bind_of_ok (ih (Nat.le_succ_of_le hn') noted hinner' (Nat.lt_of_lt_of_le hinner'.1 hs.le'))]
      refine (bind_of_ok (hs.closed'.reads_eat (hs.moved_lt hqk₂ hk₂) helse' _)).trans ?_
      exact bind_of_ok (hother' _)
  | @ifOther n k k₁ k₂ k₃ cond body inner hif hcond hbody hk₁ helse hinner ih =>
      have hn' := Nat.le_of_succ_le_succ hn
      have hinner' := hinner.bounds hs.closed (Nat.le_succ_of_le hn')
      have hk := hs.closed.lt_length_of_kind (k := k) (by rw [hif]; decide)
      have hk₂ := hs.closed.lt_length_of_kind (k := k₂) (by rw [helse]; decide)
      have hle := (parser_agrees_of_le hs.closed hn' k₁).le_of_reads (Nat.le_of_lt hk₁)
        (Nat.le_of_lt hk₂) hbody
      have hk₂l' : k₂ < l'.tokens.length := by have := hs.le'; omega
      have hcond' := reads_condition hs hcond hk (by omega)
      have hbody' := (parser_follows hs.toShares n (maxNesting - n) (Nat.sub_sub_self hn') k₁).reads
        hbody (Nat.le_of_lt hk₁) (Nat.le_of_lt hk₂) (by omega)
      have helse' : (l'.tokenAt k₂).kind = .elseWord := by rw [hs.token k₂ (by omega), helse]
      rw [parser_if hs.closed' (by rw [hs.token k hbounds.1, hif]) hkl' hcond']
      rw [bind_of_ok (hbody' noted)]
      refine (bind_of_ok (hs.closed'.reads_eat hk₂l' helse' _)).trans ?_
      exact bind_of_ok
        (ih (Nat.le_succ_of_le hn') noted hinner' (Nat.lt_of_lt_of_le hinner'.1 hs.le'))
  | @loop n k k₁ k₂ cond inner hwhile hcond hinner ih =>
      have hn' := Nat.le_of_succ_le_succ hn
      have hinner' := hinner.bounds hs.closed (Nat.le_succ_of_le hn')
      have hk := hs.closed.lt_length_of_kind (k := k) (by rw [hwhile]; decide)
      have hcond' := reads_condition hs hcond hk (Nat.le_of_lt hinner'.1)
      rw [parser_while hs.closed' (by rw [hs.token k hbounds.1, hwhile]) hkl' hcond']
      exact bind_of_ok
        (ih (Nat.le_succ_of_le hn') noted hinner' (Nat.lt_of_lt_of_le hinner'.1 hs.le'))

end Around

end Stmt
end Nss
