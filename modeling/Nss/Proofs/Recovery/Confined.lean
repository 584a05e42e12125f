/-
# A statement that was replaced

In a row of tokens there may be some that belong to no statement, up to a semicolon, without a brace or a
semicolon among them.  A parser for statements that is called at the first of them comes to its end behind
that semicolon, or it fails before it, or it fails because it takes the semicolon for an operand and reads
it.  The third comes about only where an operand is asked for by the token before the semicolon: an operator,
the sign of an assignment, an opening parenthesis or a comma.

    x = a b ;    fails at b, and goes on behind the semicolon
    x = ;        fails at the semicolon, has read it, and looks for the next one

So in the first two cases the turn of the loop over a block ends behind the semicolon (`Stmt.turn_junk`).
-/
import Nss.Proofs.Recovery.Positions

namespace Nss

open Steps

/-- A token behind which an operand has to stand. -/
def TokenKind.asksOperand (kind : TokenKind) : Bool :=
  kind = .assign || kind = .lParen || kind = .comma || (BinaryOp.ofToken? kind).isSome ||
    (UnaryOp.ofToken? kind).isSome

/-- From `m` on there are tokens without a brace or a semicolon, up to the semicolon at `e`. -/
structure Lexed.Junk (l : Lexed) (m e : Nat) : Prop where
  closed : l.Closed
  lt : m < e
  room : e < l.tokens.length
  plain : ∀ k, m ≤ k → k < e → (l.tokenAt k).kind ≠ .lBrace ∧ (l.tokenAt k).kind ≠ .rBrace ∧
    (l.tokenAt k).kind ≠ .semi
  semi : (l.tokenAt e).kind = .semi
  notElse : (l.tokenAt (e + 1)).kind ≠ .elseWord

variable {α β : Type} {l : Lexed} {m e k : Nat}

/-- A parser comes to a position with a property, or fails where it has not read the semicolon, or has read
it for an operand. -/
inductive Confined (l : Lexed) (m e : Nat) (P : Nat → Prop) (k : Nat) (p : ScriptParser α) : Prop
  | ok {a : α} {k' : Nat} : P k' → l.Reads p k a k' → Confined l m e P k p
  | fail {d : Diagnostic} {k' : Nat} : m ≤ k' → k' ≤ e → l.Fails p k d k' → Confined l m e P k p
  | overrun : (l.tokenAt (e - 1)).kind.asksOperand = true →
      l.Fails p k (.error (.unexpectedToken (l.tokenAt e).text) (l.tokenAt e).span) (e + 1) →
      Confined l m e P k p

/-- A position is among the tokens or at the semicolon. -/
def Among (m e k : Nat) : Prop := m ≤ k ∧ k ≤ e

/-- Where an expression can begin: if it is at the semicolon, an operand is asked for. -/
def Begins (l : Lexed) (m e k : Nat) : Prop :=
  Among m e k ∧ (k = e → (l.tokenAt (e - 1)).kind.asksOperand = true)

namespace Confined

variable {P Q : Nat → Prop} {p : ScriptParser α} {f : α → ScriptParser β}

theorem pure (a : α) (h : P k) : Confined l m e P k (Pure.pure a) := .ok h fun _ => rfl

theorem failed (problem : Problem) (span : Span) (hk : Among m e k) :
    Confined l m e P k (ScriptParser.fail problem span : ScriptParser α) :=
  .fail hk.1 hk.2 fun _ => rfl

theorem bind (hp : Confined l m e P k p) (hf : ∀ a k', P k' → Confined l m e Q k' (f a)) :
    Confined l m e Q k (p >>= f) := by
  have hfails {d : Diagnostic} {k' : Nat} (h : l.Fails p k d k') : l.Fails (p >>= f) k d k' :=
    fun noted => by rw [bind_apply, h noted]
  cases hp with
  | ok hP hread =>
      cases hf _ _ hP with
      | ok hQ hread' => exact .ok hQ fun noted => (bind_of_ok (hread noted)).trans (hread' noted)
      | fail hm he hfail =>
          exact .fail hm he fun noted => (bind_of_ok (hread noted)).trans (hfail noted)
      | overrun hasks hfail =>
          exact .overrun hasks fun noted => (bind_of_ok (hread noted)).trans (hfail noted)
  | fail hm he hfail => exact .fail hm he (hfails hfail)
  | overrun hasks hfail => exact .overrun hasks (hfails hfail)

theorem map {u : α → β} (hp : Confined l m e P k p) : Confined l m e P k (u <$> p) := by
  rw [← bind_pure_comp]
  exact hp.bind fun a _ h => pure (u a) h

/-- What is done behind something that was read. -/
theorem next {a : α} {k' : Nat} (hread : l.Reads p k a k') (h : Confined l m e Q k' (f a)) :
    Confined l m e Q k (p >>= f) := by
  have hp : Confined l m e (· = k') k p := .ok rfl hread
  cases h with
  | ok hQ hread' => exact .ok hQ fun noted => (bind_of_ok (hread noted)).trans (hread' noted)
  | fail hm he hfail =>
      exact .fail hm he fun noted => (bind_of_ok (hread noted)).trans (hfail noted)
  | overrun hasks hfail =>
      exact .overrun hasks fun noted => (bind_of_ok (hread noted)).trans (hfail noted)

end Confined

/-! ## Tokens -/

namespace Lexed

namespace Junk

variable (hj : l.Junk m e)
include hj

theorem lt_length (hk : Among m e k) : k < l.tokens.length := Nat.lt_of_le_of_lt hk.2 hj.room

/-- A semicolon there is the one at the end. -/
theorem eq_of_semi (hk : Among m e k) (h : (l.tokenAt k).kind = .semi) : k = e := by
  by_contra hne
  exact (hj.plain k hk.1 (Nat.lt_of_le_of_ne hk.2 hne)).2.2 h

theorem lt_of_ne_semi (hk : Among m e k) (h : (l.tokenAt k).kind ≠ .semi) : k < e :=
  Nat.lt_of_le_of_ne hk.2 fun heq => h (heq ▸ hj.semi)

theorem begins (hk : Among m e k) (h : (l.tokenAt k).kind ≠ .semi) : Begins l m e k :=
  ⟨hk, fun heq => absurd (hj.lt_of_ne_semi hk h) (by omega)⟩

/-- Behind a token that asks for an operand, an expression begins. -/
theorem begins_behind (hk : Among m e k) (hasks : (l.tokenAt k).kind.asksOperand = true) :
    Begins l m e (k + 1) := by
  have hlt : k < e := hj.lt_of_ne_semi hk fun h => by rw [h] at hasks; cases hasks
  obtain ⟨hm, -⟩ := hk
  refine ⟨⟨by omega, hlt⟩, fun heq => ?_⟩
  rw [← heq, Nat.add_sub_cancel]
  exact hasks

end Junk
end Lexed

namespace Confined

variable {Q : Nat → Prop}

/-- A token that has to be there is read before the semicolon, or it is the semicolon. -/
theorem expect (hj : l.Junk m e) {kind : TokenKind} (what : String) (hk : Among m e k) :
    Confined l m e (fun k' => k' = k + 1 ∧ (l.tokenAt k).kind = kind) k
      (ScriptParser.expect kind what) := by
  by_cases h : (l.tokenAt k).kind = kind
  · exact .ok ⟨rfl, h⟩ (hj.closed.reads_expect (hj.lt_length hk) h what)
  · exact .fail hk.1 hk.2 (Lexed.fails_expect h what)

theorem valueType (hj : l.Junk m e) (hk : Among m e k) :
    Confined l m e (Among m e) k ScriptParser.valueType := by
  refine .next (l.reads_peek k) ?_
  cases htype : if (l.tokenAt k).kind = .ident then ValueType.ofName? (l.tokenAt k).text else none with
  | none => exact .failed _ _ hk
  | some type =>
      have hlt : k < e := hj.lt_of_ne_semi hk fun h => by
        rw [h] at htype
        cases htype
      exact .next (hj.closed.reads_advance (hj.lt_length hk)) (.pure type ⟨Nat.le_succ_of_le hk.1, hlt⟩)

/-- A token is read if it is of a kind, and then it is not the semicolon. -/
theorem eat (hj : l.Junk m e) {kind : TokenKind} (hkind : kind ≠ .semi) (hk : Among m e k)
    {f : Bool → ScriptParser α}
    (hyes : Among m e (k + 1) → (l.tokenAt k).kind = kind → Confined l m e Q (k + 1) (f true))
    (hno : (l.tokenAt k).kind ≠ kind → Confined l m e Q k (f false)) :
    Confined l m e Q k (ScriptParser.eat kind >>= f) := by
  by_cases h : (l.tokenAt k).kind = kind
  · have hlt : k < e := hj.lt_of_ne_semi hk (by rw [h]; exact hkind)
    exact .next (hj.closed.reads_eat (hj.lt_length hk) h) (hyes ⟨Nat.le_succ_of_le hk.1, hlt⟩ h)
  · exact .next (Lexed.reads_eat_other h) (hno h)

end Confined

/-! ## Expressions -/

namespace Expr

variable {expr : ScriptParser Expr}

theorem literal_confined {read : Token → ScriptParser Expr} {t : Token}
    (h : (∃ e, read t = pure e) ∨ ∃ problem span, read t = ScriptParser.fail problem span)
    (hk : Among m e k) : Confined l m e (Among m e) k (read t) := by
  rcases h with ⟨x, h⟩ | ⟨problem, span, h⟩
  · rw [h]
    exact .pure x hk
  · rw [h]
    exact .failed problem span hk

theorem chain_confined (hj : l.Junk m e) {looseness : Nat}
    (hexpr : ∀ k, Begins l m e k → Confined l m e (Among m e) k expr) :
    ∀ (fuel k : Nat) (left : Expr), Among m e k →
      Confined l m e (Among m e) k (chain looseness expr fuel left)
  | 0, _, left, hk => .pure left hk
  | fuel + 1, k, left, hk => by
      rw [chain]
      refine .next (l.reads_peek k) ?_
      cases hop : BinaryOp.ofToken? (l.tokenAt k).kind with
      | none => exact .pure left hk
      | some op =>
          dsimp only
          split
          · have hasks : (l.tokenAt k).kind.asksOperand = true := by
              simp [TokenKind.asksOperand, hop]
            refine .next (hj.closed.reads_advance (hj.lt_length hk)) ?_
            refine (hexpr (k + 1) (hj.begins_behind hk hasks)).bind fun right j hj' => ?_
            exact chain_confined hj hexpr fuel j _ hj'
          · exact .pure left hk

theorem operations_confined (hj : l.Junk m e)
    (hexpr : ∀ k, Begins l m e k → Confined l m e (Among m e) k expr) :
    ∀ n k, Begins l m e k → Confined l m e (Among m e) k (operations expr n)
  | 0, k, hk => hexpr k hk
  | n + 1, k, hk => by
      have htighter := operations_confined hj hexpr n
      rw [operations]
      refine (htighter k hk).bind fun left j hj' => .next (l.remaining_stateAt j) ?_
      exact chain_confined hj htighter _ j left hj'

theorem argsLoop_confined (hj : l.Junk m e)
    (hexpr : ∀ k, Begins l m e k → Confined l m e (Among m e) k expr) :
    ∀ (fuel k : Nat) (args : List Expr), Begins l m e k →
      Confined l m e (Among m e) k (argsLoop expr fuel args)
  | 0, _, args, hk => .pure args hk.1
  | fuel + 1, k, args, hk => by
      rw [argsLoop]
      refine (hexpr k hk).bind fun x j hj' => .eat hj (by decide) hj' ?_ ?_
      · intro hj'' _
        exact .pure _ hj''
      · intro _
        refine (Confined.expect hj _ hj').bind fun _ j' hcomma => ?_
        obtain ⟨rfl, hcomma⟩ := hcomma
        refine argsLoop_confined hj hexpr fuel (j + 1) _ (hj.begins_behind hj' ?_)
        rw [hcomma]
        rfl

/-- Behind the parenthesis that opens the arguments. -/
theorem args_confined (hj : l.Junk m e)
    (hexpr : ∀ k, Begins l m e k → Confined l m e (Among m e) k expr) (hk : Begins l m e k) :
    Confined l m e (Among m e) k (args expr) := by
  rw [args]
  refine .eat hj (by decide) hk.1 ?_ ?_
  · intro hk' _
    exact .pure [] hk'
  · intro _
    exact .next (l.remaining_stateAt k) (argsLoop_confined hj hexpr _ k [] hk)

theorem ofWord_confined (hj : l.Junk m e)
    (hexpr : ∀ k, Begins l m e k → Confined l m e (Among m e) k expr) (t : Token)
    (hk : Among m e k) : Confined l m e (Among m e) k (ofWord expr t) := by
  rw [ofWord]
  cases Literal.word? t with
  | some constant => exact .pure constant hk
  | none =>
      refine .eat hj (by decide) hk ?_ ?_
      · intro _ hopen
        have hbegins : Begins l m e (k + 1) := hj.begins_behind hk (by rw [hopen]; rfl)
        refine (args_confined hj hexpr hbegins).bind fun arguments j hj' => ?_
        exact .next (fun _ => rfl) (.pure _ hj')
      · intro _
        exact .pure _ hk

theorem primary_confined (hj : l.Junk m e)
    (hexpr : ∀ k, Begins l m e k → Confined l m e (Among m e) k expr) (hk : Begins l m e k) :
    Confined l m e (Among m e) k (primary expr) := by
  have hread := hj.closed.reads_advance (hj.lt_length hk.1)
  rw [primary]
  by_cases hsemi : (l.tokenAt k).kind = .semi
  · -- the semicolon is taken for an operand
    obtain rfl := hj.eq_of_semi hk.1 hsemi
    refine .overrun (hk.2 rfl) fun noted => (bind_of_ok (hread noted)).trans ?_
    rw [hsemi]
    rfl
  · have hlt := hj.lt_of_ne_semi hk.1 hsemi
    have hk' : Among m e (k + 1) := ⟨Nat.le_succ_of_le hk.1.1, hlt⟩
    refine .next hread ?_
    cases hkind : (l.tokenAt k).kind with
    | intLiteral => exact literal_confined (Literal.int_fromToken _).cases hk'
    | hexLiteral => exact literal_confined (Literal.hex_fromToken _).cases hk'
    | floatLiteral => exact literal_confined (Literal.float_fromToken _).cases hk'
    | stringLiteral => exact .pure _ hk'
    | ident => exact ofWord_confined hj hexpr _ hk'
    | lParen =>
        have hbegins : Begins l m e (k + 1) := hj.begins_behind hk.1 (by rw [hkind]; rfl)
        refine (hexpr (k + 1) hbegins).bind fun inner j hj' => ?_
        refine (Confined.expect hj _ hj').bind fun _ j' hclose => ?_
        obtain ⟨rfl, hclose⟩ := hclose
        have hlt' : j < e := hj.lt_of_ne_semi hj' (by rw [hclose]; decide)
        exact .next (fun _ => rfl) (.pure _ ⟨Nat.le_succ_of_le hj'.1, hlt'⟩)
    | _ => exact .failed _ _ hk'

theorem operand_confined (hj : l.Junk m e) :
    ∀ n k, Begins l m e k → Confined l m e (Among m e) k (operand n)
  | 0, k, hk => .next (l.reads_peek k) (.failed _ _ hk.1)
  | n + 1, k, hk => by
      rw [operand]
      refine .next (l.reads_peek k) ?_
      cases hop : UnaryOp.ofToken? (l.tokenAt k).kind with
      | none => exact primary_confined hj (operations_confined hj (operand_confined hj n) 6) hk
      | some op =>
          have hasks : (l.tokenAt k).kind.asksOperand = true := by
            simp [TokenKind.asksOperand, hop]
          refine .next (hj.closed.reads_advance (hj.lt_length hk.1)) ?_
          refine (operand_confined hj n (k + 1) (hj.begins_behind hk.1 hasks)).bind fun x j hj' => ?_
          exact .pure _ hj'

theorem parser_confined (hj : l.Junk m e) (n k : Nat) (hk : Begins l m e k) :
    Confined l m e (Among m e) k (parser n) :=
  operations_confined hj (operand_confined hj n) 6 k hk

end Expr

/-! ## Statements -/

namespace Stmt

variable {expr : ScriptParser Expr} {stmt : ScriptParser Stmt}

/-- A statement is read up to its semicolon. -/
abbrev Whole (e k : Nat) : Prop := k = e + 1

/-- Behind an expression that ends a statement comes the semicolon, or the statement is broken. -/
theorem ended_confined (hj : l.Junk m e) {p : ScriptParser α} (hp : Confined l m e (Among m e) k p)
    (what : String) {f : α → Token → ScriptParser Stmt}
    (hf : ∀ a t, Confined l m e (Whole e) (e + 1) (f a t)) :
    Confined l m e (Whole e) k (do let a ← p; let t ← ScriptParser.expect .semi what; f a t) := by
  refine hp.bind fun a j hj' => (Confined.expect hj what hj').bind fun t j' hsemi => ?_
  obtain ⟨rfl, hsemi⟩ := hsemi
  obtain rfl := hj.eq_of_semi hj' hsemi
  exact hf a t

theorem condition_confined (hj : l.Junk m e)
    (hexpr : ∀ k, Begins l m e k → Confined l m e (Among m e) k expr) (after : String)
    (hk : Among m e k) : Confined l m e (Among m e) k (condition expr after) := by
  rw [condition]
  refine (Confined.expect hj _ hk).bind fun _ j hopen => ?_
  obtain ⟨rfl, hopen⟩ := hopen
  refine (hexpr (k + 1) (hj.begins_behind hk (by rw [hopen]; rfl))).bind fun cond j hj' => ?_
  refine (Confined.expect hj _ hj').bind fun _ j' hclose => ?_
  obtain ⟨rfl, hclose⟩ := hclose
  exact .pure cond ⟨Nat.le_succ_of_le hj'.1, hj.lt_of_ne_semi hj' (by rw [hclose]; decide)⟩

theorem initializer_confined (hj : l.Junk m e)
    (hexpr : ∀ k, Begins l m e k → Confined l m e (Among m e) k expr) (hk : Among m e k) :
    Confined l m e (Among m e) k (initializer expr) := by
  rw [initializer]
  refine .eat hj (by decide) hk ?_ ?_
  · intro _ hassign
    exact (hexpr (k + 1) (hj.begins_behind hk (by rw [hassign]; rfl))).map
  · intro _
    exact .pure none hk

theorem localVariable_confined (hj : l.Junk m e)
    (hexpr : ∀ k, Begins l m e k → Confined l m e (Among m e) k expr) (hk : Among m e k) :
    Confined l m e (Whole e) k (localVariable expr) := by
  rw [localVariable]
  refine .next (l.reads_peek k) ((Confined.valueType hj hk).bind fun type j hj' => ?_)
  split
  · exact .failed _ _ hj'
  · refine (Confined.expect hj _ hj').bind fun name j' hname => ?_
    obtain ⟨rfl, hname⟩ := hname
    have hlt : j < e := hj.lt_of_ne_semi hj' (by rw [hname]; decide)
    refine ended_confined hj (initializer_confined hj hexpr ⟨Nat.le_succ_of_le hj'.1, hlt⟩) _ ?_
    exact fun init t => .next (fun _ => rfl) (.pure _ rfl)

theorem assignment_confined (hj : l.Junk m e)
    (hexpr : ∀ k, Begins l m e k → Confined l m e (Among m e) k expr) (hk : Among m e k)
    (hne : (l.tokenAt k).kind ≠ .semi) (hassign : (l.tokenAt (k + 1)).kind = .assign) :
    Confined l m e (Whole e) k (assignment expr) := by
  have hk' : Among m e (k + 1) := ⟨Nat.le_succ_of_le hk.1, hj.lt_of_ne_semi hk hne⟩
  have hbegins : Begins l m e (k + 1 + 1) := hj.begins_behind hk' (by rw [hassign]; rfl)
  rw [assignment]
  refine .next (hj.closed.reads_advance (hj.lt_length hk)) ?_
  refine .next (hj.closed.reads_advance (hj.lt_length hk')) ?_
  refine ended_confined hj (hexpr _ hbegins) _ ?_
  exact fun value t => .next (fun _ => rfl) (.pure _ rfl)

theorem expression_confined (hj : l.Junk m e)
    (hexpr : ∀ k, Begins l m e k → Confined l m e (Among m e) k expr) (hk : Begins l m e k) :
    Confined l m e (Whole e) k (expression expr) :=
  ended_confined hj (hexpr k hk) _ fun value _ => .pure (Stmt.expr value) rfl

theorem returned_confined (hj : l.Junk m e)
    (hexpr : ∀ k, Begins l m e k → Confined l m e (Among m e) k expr) (hk : Among m e k)
    (hne : (l.tokenAt k).kind ≠ .semi) : Confined l m e (Whole e) k (returned expr) := by
  have hk' : Among m e (k + 1) := ⟨Nat.le_succ_of_le hk.1, hj.lt_of_ne_semi hk hne⟩
  have hrest (value : Option Expr) (t : Token) : Confined l m e (Whole e) (e + 1)
      (do return ret value ((l.tokenAt k).span.cover (← ScriptParser.previousSpan)) :
        ScriptParser Stmt) :=
    .next (fun _ => rfl) (.pure _ rfl)
  rw [returned]
  refine .next (hj.closed.reads_advance (hj.lt_length hk)) (.next (l.reads_isAt .semi (k + 1)) ?_)
  by_cases hsemi : (l.tokenAt (k + 1)).kind = .semi
  · rw [decide_eq_true hsemi]
    exact ended_confined hj (.pure none hk') _ hrest
  · rw [decide_eq_false hsemi]
    exact ended_confined hj (hexpr (k + 1) (hj.begins hk' hsemi)).map _ hrest

theorem conditional_confined (hj : l.Junk m e)
    (hexpr : ∀ k, Begins l m e k → Confined l m e (Among m e) k expr)
    (hstmt : ∀ k, Among m e k → Confined l m e (Whole e) k stmt) (hk : Among m e k)
    (hne : (l.tokenAt k).kind ≠ .semi) : Confined l m e (Whole e) k (conditional stmt expr) := by
  have hk' : Among m e (k + 1) := ⟨Nat.le_succ_of_le hk.1, hj.lt_of_ne_semi hk hne⟩
  rw [conditional]
  refine .next (hj.closed.reads_advance (hj.lt_length hk)) ?_
  refine (condition_confined hj hexpr _ hk').bind fun cond j hj' => ?_
  refine (hstmt j hj').bind fun body j' hwhole => ?_
  obtain rfl := hwhole
  -- behind the semicolon there is no `else`
  exact .next (Lexed.reads_eat_other hj.notElse) (.pure (ifThen cond body) rfl)

theorem whileLoop_confined (hj : l.Junk m e)
    (hexpr : ∀ k, Begins l m e k → Confined l m e (Among m e) k expr)
    (hstmt : ∀ k, Among m e k → Confined l m e (Whole e) k stmt) (hk : Among m e k)
    (hne : (l.tokenAt k).kind ≠ .semi) : Confined l m e (Whole e) k (whileLoop stmt expr) := by
  have hk' : Among m e (k + 1) := ⟨Nat.le_succ_of_le hk.1, hj.lt_of_ne_semi hk hne⟩
  rw [whileLoop]
  refine .next (hj.closed.reads_advance (hj.lt_length hk)) ?_
  refine (condition_confined hj hexpr _ hk').bind fun cond j hj' => ?_
  exact (hstmt j hj').bind fun body j' hwhole => .pure (loop cond body) hwhole

theorem ofParts_confined (hj : l.Junk m e)
    (hexpr : ∀ k, Begins l m e k → Confined l m e (Among m e) k expr)
    (hstmt : ∀ k, Among m e k → Confined l m e (Whole e) k stmt) (hk : Among m e k) :
    Confined l m e (Whole e) k (ofParts stmt expr) := by
  rw [ofParts]
  refine .next (l.reads_peek k) ?_
  have hbegins (h : (l.tokenAt k).kind ≠ .semi) := hj.begins hk h
  cases hkind : (l.tokenAt k).kind with
  | lBrace =>
      have hlt := hj.lt_of_ne_semi hk (by rw [hkind]; decide)
      exact absurd hkind (hj.plain k hk.1 hlt).1
  | semi =>
      obtain rfl := hj.eq_of_semi hk hkind
      exact .next (hj.closed.reads_advance hj.room) (.pure (block []) rfl)
  | ifWord => exact conditional_confined hj hexpr hstmt hk (by rw [hkind]; decide)
  | whileWord => exact whileLoop_confined hj hexpr hstmt hk (by rw [hkind]; decide)
  | returnWord => exact returned_confined hj hexpr hk (by rw [hkind]; decide)
  | ident =>
      have hne : (l.tokenAt k).kind ≠ .semi := by rw [hkind]; decide
      refine .next (l.reads_isAtType k) ?_
      split
      · exact localVariable_confined hj hexpr hk
      · refine .next (l.reads_peekSecond k) ?_
        split
        · next hassign => exact assignment_confined hj hexpr hk hne hassign
        · exact expression_confined hj hexpr (hbegins hne)
  | _ => exact expression_confined hj hexpr (hbegins (by rw [hkind]; decide))

theorem parser_confined (hj : l.Junk m e) :
    ∀ n k, Among m e k → Confined l m e (Whole e) k (parser n)
  | 0, k, hk => .next (l.reads_peek k) (.failed _ _ hk)
  | n + 1, _, hk => ofParts_confined hj (Expr.parser_confined hj n) (parser_confined hj n) hk

/-! ## The turn of the loop -/

theorem not_closes (hj : l.Junk m e) (hk : Among m e k) : ¬Closes l k := by
  rintro (hbrace | hend)
  · have hlt := hj.lt_of_ne_semi hk (by rw [hbrace]; decide)
    exact (hj.plain k hk.1 hlt).2.1 hbrace
  · exact hj.closed.kind_ne_eof (hj.lt_length hk) hend

/-- The end of what is broken is looked for up to the semicolon. -/
theorem skipTo_junk (hj : l.Junk m e) (hk : Among m e k) :
    Takes l 0 k (e + 1) (skipTo (l.tokens.drop k)) (Loops.skipStatement l.all) () := by
  induction hleft : e - k generalizing k with
  | zero =>
      obtain rfl : k = e := Nat.le_antisymm hk.2 (Nat.le_of_sub_eq_zero hleft)
      refine skipTo_step hj.closed hj.room (not_closes hj hk) ?_
      rw [if_pos hj.semi, if_pos hj.semi]
      exact .pure ()
  | succ n ih =>
      have hlt : k < e := by omega
      have hsemi := (hj.plain k hk.1 hlt).2.2
      refine skipTo_step hj.closed (hj.lt_length hk) (not_closes hj hk) ?_
      rw [if_neg hsemi, if_neg hsemi]
      exact ih ⟨Nat.le_succ_of_le hk.1, hlt⟩ (by omega)

/-- The search for the end of a broken statement stays in front of a brace. -/
theorem reads_synchronize_closes (hl : l.Closed) (hk : k ≤ l.tokens.length) (hclose : Closes l k) :
    l.Reads synchronize k () k := by
  intro noted
  have hskip : synchronize (l.stateAt k noted) = skipTo (l.tokens.drop k) (l.stateAt k noted) := rfl
  rw [hskip, skipTo_closes hl hk hclose]
  rfl

theorem synchronize_junk (hj : l.Junk m e) (hk : Among m e k) : l.Reads synchronize k () (e + 1) :=
  (skipTo_junk hj hk).1

/-- What a turn of the loop over a block makes of the tokens: a statement, or a note; or the statement fails
with its semicolon read. -/
theorem turn_junk (hj : l.Junk m e) (n : Nat) :
    (∃ s, ∀ noted, ScriptParser.recover (parser n) synchronize (l.stateAt m noted)
      = .ok (some s) (l.stateAt (e + 1) noted)) ∨
    (∃ d, ∀ noted, ScriptParser.recover (parser n) synchronize (l.stateAt m noted)
      = .ok none (l.stateAt (e + 1) (noted ++ [d]))) ∨
    (l.tokenAt (e - 1)).kind.asksOperand = true ∧ l.Fails (parser n) m
      (.error (.unexpectedToken (l.tokenAt e).text) (l.tokenAt e).span) (e + 1) := by
  cases parser_confined hj n m ⟨Nat.le_refl m, Nat.le_of_lt hj.lt⟩ with
  | ok hwhole hread =>
      obtain rfl := hwhole
      exact .inl ⟨_, fun noted => by rw [ScriptParser.recover, hread noted]⟩
  | @fail d k' hm he hfail =>
      refine .inr (.inl ⟨d, fun noted => ?_⟩)
      rw [ScriptParser.recover, hfail noted]
      exact bind_of_ok (synchronize_junk hj ⟨hm, he⟩ _)
  | overrun hasks hfail => exact .inr (.inr ⟨hasks, hfail⟩)

end Stmt

end Nss
