/-
# Parsers in front of what was changed

Two rows of tokens may have their first tokens in common.  What a parser reads of those in one of them, it
reads in the other one, too, if it does not look at what comes behind them.  A parser looks one token ahead
of what it reads, or two of them where it reads at least as many; so it is enough to know where it ends and
how much it has read.

Only parsers that succeed without a note are compared.  In an expression the next token has to be a common
one as well, since an operator might follow.  Behind a statement that is not so, unless the next token is the
word `else`.
-/
import Nss.Proofs.Recovery.Positions

namespace Nss

open Steps

/-- The first `m` tokens of two rows are the same, and in the second one the word `else` is not next. -/
structure Lexed.Shares (l l' : Lexed) (m : Nat) : Prop where
  closed : l.Closed
  closed' : l'.Closed
  pos : 0 < m
  le : m ≤ l.tokens.length
  le' : m ≤ l'.tokens.length
  token : ∀ k < m, l'.tokenAt k = l.tokenAt k
  notElse : (l'.tokenAt m).kind ≠ .elseWord

variable {α β : Type} {l l' : Lexed} {m o c k : Nat}

/-- A parser that succeeds at `k` reads `c` tokens or more.  If it notes nothing and comes to a position
before `m + o`, then in the other row of tokens another parser does the same. -/
def Follows (l l' : Lexed) (m o c k : Nat) (p p' : ScriptParser α) : Prop :=
  k ≤ l.tokens.length → ∀ noted a t, p (l.stateAt k noted) = .ok a t →
    ∃ k' more, k + c ≤ k' ∧ k' ≤ l.tokens.length ∧ t = l.stateAt k' (noted ++ more) ∧
      (more = [] → k' < m + o →
        ∀ noted', p' (l'.stateAt k noted') = .ok a (l'.stateAt k' noted'))

namespace Follows

variable {p p' : ScriptParser α} {f f' : α → ScriptParser β}

theorem pure (a : α) : Follows l l' m o 0 k (Pure.pure a) (Pure.pure a) := by
  rintro hk noted _ _ ⟨⟩
  exact ⟨k, [], Nat.le_refl _, hk, by rw [List.append_nil], fun _ _ _ => rfl⟩

theorem fail (problem : Problem) (span : Span) :
    Follows l l' m o c k (ScriptParser.fail problem span : ScriptParser α) p' := by
  rintro _ _ _ _ ⟨⟩

/-- What the second part reads may be what the first one looks at. -/
theorem seq {o₁ c₁ c₂ : Nat} (hp : Follows l l' m o₁ c₁ k p p')
    (hf : ∀ a k', k + c₁ ≤ k' → Follows l l' m o c₂ k' (f a) (f' a)) (ho : o ≤ o₁ + c₂) :
    Follows l l' m o (c₁ + c₂) k (p >>= f) (p' >>= f') := by
  intro hk noted b t h
  obtain ⟨a, s, hfirst, hsecond⟩ := bind_eq_ok.mp h
  obtain ⟨k', more, hk', hle', rfl, hsame⟩ := hp hk noted a s hfirst
  obtain ⟨k'', more', hk'', hle'', rfl, hsame'⟩ := hf a k' hk' hle' _ b t hsecond
  refine ⟨k'', more ++ more', by omega, hle'', by rw [List.append_assoc], ?_⟩
  intro hmore hlt noted'
  obtain ⟨rfl, rfl⟩ := List.append_eq_nil_iff.mp hmore
  rw [bind_of_ok (hsame rfl (by omega) noted')]
  exact hsame' rfl hlt noted'

theorem mono {o' c' : Nat} (hp : Follows l l' m o' c' k p p') (ho : o ≤ o') (hc : c ≤ c') :
    Follows l l' m o c k p p' := by
  intro hk noted a t h
  obtain ⟨k', more, hk', hle', ht, hsame⟩ := hp hk noted a t h
  exact ⟨k', more, by omega, hle', ht, fun hmore hlt => hsame hmore (by omega)⟩

theorem bind (hp : Follows l l' m o c k p p')
    (hf : ∀ a k', k + c ≤ k' → Follows l l' m o 0 k' (f a) (f' a)) :
    Follows l l' m o c k (p >>= f) (p' >>= f') :=
  hp.seq hf (Nat.le_refl o)

/-- If both parts read something, then the second one may look at the first token behind. -/
theorem both (hp : Follows l l' m o c k p p')
    (hf : ∀ a k', k + c ≤ k' → Follows l l' m o 1 k' (f a) (f' a)) :
    Follows l l' m o (c + 1) k (p >>= f) (p' >>= f') :=
  hp.seq hf (Nat.le_add_right o 1)

theorem fewer (hp : Follows l l' m o (c + 1) k p p') : Follows l l' m o c k p p' :=
  hp.mono (Nat.le_refl o) (Nat.le_succ c)

/-- What reads something reads nothing or more. -/
theorem free (hp : Follows l l' m o c k p p') : Follows l l' m o 0 k p p' :=
  hp.mono (Nat.le_refl o) (Nat.zero_le c)

theorem map {u : α → β} (hp : Follows l l' m o c k p p') :
    Follows l l' m o c k (u <$> p) (u <$> p') := by
  rw [← bind_pure_comp, ← bind_pure_comp]
  exact hp.bind fun a _ _ => pure (u a)

/-- Only what a parser does at the position matters. -/
theorem congr_left {q : ScriptParser α} (hp : Follows l l' m o c k q p')
    (h : ∀ noted, p (l.stateAt k noted) = q (l.stateAt k noted)) :
    Follows l l' m o c k p p' := by
  intro hk noted
  rw [h noted]
  exact hp hk noted

/-- Of the other parser it does not matter either if too much is read from there. -/
theorem congr_right {q : ScriptParser α} (hp : Follows l l' m o c k p q)
    (h : k + c < m + o → ∀ noted, p' (l'.stateAt k noted) = q (l'.stateAt k noted)) :
    Follows l l' m o c k p p' := by
  intro hk noted a t hrun
  obtain ⟨k', more, hk', hle', ht, hsame⟩ := hp hk noted a t hrun
  refine ⟨k', more, hk', hle', ht, fun hmore hlt noted' => ?_⟩
  rw [h (by omega) noted']
  exact hsame hmore hlt noted'

/-- To look at the tokens is to look at those that are read then. -/
theorem look {a a' : α} (hp : ∀ noted, p (l.stateAt k noted) = .ok a (l.stateAt k noted))
    (hp' : ∀ noted, p' (l'.stateAt k noted) = .ok a' (l'.stateAt k noted))
    (hsame : k < m → a' = a) (ho : o ≤ c) (h : Follows l l' m o c k (f a) (f' a)) :
    Follows l l' m o c k (p >>= f) (p' >>= f') := by
  intro hk noted b t hrun
  rw [bind_of_ok (hp noted)] at hrun
  obtain ⟨k', more, hk', hle', ht, hfollows⟩ := h hk noted b t hrun
  refine ⟨k', more, hk', hle', ht, fun hmore hlt noted' => ?_⟩
  rw [bind_of_ok (hp' noted'), hsame (by omega)]
  exact hfollows hmore hlt noted'

/-- What ends before the change is read in both rows. -/
theorem reads {a : α} {k' : Nat} (hp : Follows l l' m o c k p p') (hread : l.Reads p k a k')
    (hk : k ≤ l.tokens.length) (hk' : k' ≤ l.tokens.length) (hlt : k' < m + o) :
    l'.Reads p' k a k' := by
  obtain ⟨k'', more, -, hle, hstate, hsame⟩ := hp hk [] a _ (hread [])
  obtain ⟨rfl, hmore⟩ := Lexed.stateAt_inj hk' hle hstate
  exact hsame hmore.symm hlt

/-! ## Tokens -/

/-- Decisions about the next token. -/
theorem see (hs : l.Shares l' m) {d : Token → β}
    {p : ScriptParser β} {f f' : β → ScriptParser α}
    (hp : ∀ l : Lexed, l.Reads p k (d (l.tokenAt k)) k) (ho : o ≤ c)
    (h : Follows l l' m o c k (f (d (l.tokenAt k))) (f' (d (l.tokenAt k)))) :
    Follows l l' m o c k (p >>= f) (p >>= f') :=
  look (hp l) (hp l') (fun hk => congrArg d (hs.token k hk)) ho h

theorem peek (hs : l.Shares l' m) {f f' : Token → ScriptParser α} (ho : o ≤ c)
    (h : Follows l l' m o c k (f (l.tokenAt k)) (f' (l.tokenAt k))) :
    Follows l l' m o c k (ScriptParser.peek >>= f) (ScriptParser.peek >>= f') :=
  see (d := id) hs (·.reads_peek k) ho h

/-- The token behind the next one is looked at where at least two are read. -/
theorem peekSecond (hs : l.Shares l' m) {f f' : Token → ScriptParser α} (ho : o + 1 ≤ c)
    (h : Follows l l' m o c k (f (l.tokenAt (k + 1))) (f' (l.tokenAt (k + 1)))) :
    Follows l l' m o c k (ScriptParser.peekSecond >>= f) (ScriptParser.peekSecond >>= f') := by
  intro hk noted b t hrun
  rw [bind_of_ok (l.reads_peekSecond k noted)] at hrun
  obtain ⟨k', more, hk', hle', ht, hfollows⟩ := h hk noted b t hrun
  refine ⟨k', more, hk', hle', ht, fun hmore hlt noted' => ?_⟩
  rw [bind_of_ok (l'.reads_peekSecond k noted'), hs.token (k + 1) (by omega)]
  exact hfollows hmore hlt noted'

theorem previousSpan (hs : l.Shares l' m) {f f' : Span → ScriptParser α} (ho : o ≤ 1)
    (h : Follows l l' m o c k (f (l.tokenAt (k - 1)).span) (f' (l.tokenAt (k - 1)).span)) :
    Follows l l' m o c k (ScriptParser.previousSpan >>= f) (ScriptParser.previousSpan >>= f') := by
  intro hk noted b t hrun
  rw [bind_of_ok (l.reads_previousSpan k noted)] at hrun
  obtain ⟨k', more, hk', hle', ht, hfollows⟩ := h hk noted b t hrun
  refine ⟨k', more, hk', hle', ht, fun hmore hlt noted' => ?_⟩
  have hpos := hs.pos
  rw [bind_of_ok (l'.reads_previousSpan k noted'), hs.token (k - 1) (by omega)]
  exact hfollows hmore hlt noted'

theorem remaining {f f' : Nat → ScriptParser α}
    (h : Follows l l' m o c k (f (l.tokens.length - k)) (f' (l'.tokens.length - k))) :
    Follows l l' m o c k (ScriptParser.remaining >>= f) (ScriptParser.remaining >>= f') := by
  intro hk noted b t hrun
  rw [bind_of_ok (l.remaining_stateAt k noted)] at hrun
  obtain ⟨k', more, hk', hle', ht, hfollows⟩ := h hk noted b t hrun
  refine ⟨k', more, hk', hle', ht, fun hmore hlt noted' => ?_⟩
  rw [bind_of_ok (l'.remaining_stateAt k noted')]
  exact hfollows hmore hlt noted'

/-- What is done behind a token that is read. -/
theorem step (hs : l.Shares l' m) {f f' : Token → ScriptParser α} (hk : k < l.tokens.length)
    (ho : o ≤ c + 1) (h : Follows l l' m o c (k + 1) (f (l.tokenAt k)) (f' (l.tokenAt k))) :
    Follows l l' m o (c + 1) k (ScriptParser.advance >>= f) (ScriptParser.advance >>= f') := by
  intro _ noted b t hrun
  rw [bind_of_ok (hs.closed.reads_advance hk noted)] at hrun
  obtain ⟨k', more, hk', hle', ht, hfollows⟩ := h hk noted b t hrun
  refine ⟨k', more, by omega, hle', ht, fun hmore hlt noted' => ?_⟩
  have hkm : k < m := by omega
  have hread := hs.closed'.reads_advance (Nat.lt_of_lt_of_le hkm hs.le') noted'
  rw [bind_of_ok hread, hs.token k hkm]
  exact hfollows hmore hlt noted'

/-- A token is read if it is of a kind, or only looked at. -/
theorem eat (hs : l.Shares l' m) {kind : TokenKind} (hkind : kind ≠ .eof)
    {f f' : Bool → ScriptParser α} (ho : o ≤ c)
    (hyes : ∀ k', k' = k + 1 → (l.tokenAt k).kind = kind →
      Follows l l' m o (c - 1) k' (f true) (f' true))
    (hno : (l.tokenAt k).kind ≠ kind → Follows l l' m o c k (f false) (f' false)) :
    Follows l l' m o c k (ScriptParser.eat kind >>= f) (ScriptParser.eat kind >>= f') := by
  intro hk
  have heat (g : Bool → ScriptParser α) : ScriptParser.eat kind >>= g
      = ScriptParser.isAt kind >>= fun found =>
          (if found then ScriptParser.advance >>= fun _ => Pure.pure true else Pure.pure false) >>= g := by
    rw [ScriptParser.eat, bind_assoc]
  rw [heat, heat]
  refine see (d := fun t => decide (t.kind = kind)) hs
    (·.reads_isAt kind k) ho ?_ hk
  by_cases hat : (l.tokenAt k).kind = kind
  · have hlt : k < l.tokens.length := hs.closed.lt_of_kind hk (by rw [hat]; exact hkind)
    rw [decide_eq_true hat, if_pos rfl, bind_assoc, bind_assoc]
    simp only [pure_bind]
    have hstep : Follows l l' m o (c - 1 + 1) k (ScriptParser.advance >>= fun _ => f true)
        (ScriptParser.advance >>= fun _ => f' true) := step hs hlt (by omega) (hyes _ rfl hat)
    exact hstep.mono (Nat.le_refl o) (by omega)
  · rw [decide_eq_false hat, if_neg Bool.false_ne_true, pure_bind, pure_bind]
    exact hno hat

/-- A token that has to be there is read. -/
theorem expect (hs : l.Shares l' m) {kind : TokenKind} (hkind : kind ≠ .eof) (what : String)
    (ho : o ≤ 1) : Follows l l' m o 1 k (ScriptParser.expect kind what) (ScriptParser.expect kind what) := by
  intro hk
  refine see (d := fun t => decide (t.kind = kind)) hs
    (·.reads_isAt kind k) ho ?_ hk
  by_cases hat : (l.tokenAt k).kind = kind
  · have hlt : k < l.tokens.length := hs.closed.lt_of_kind hk (by rw [hat]; exact hkind)
    rw [decide_eq_true hat, if_pos rfl]
    have hstep := step (c := 0) hs hlt ho (pure (l.tokenAt k))
    simpa only [bind_pure] using hstep
  · rw [decide_eq_false hat, if_neg Bool.false_ne_true]
    exact peek hs ho (fail _ _)

theorem valueType (hs : l.Shares l' m) (ho : o ≤ 1) :
    Follows l l' m o 1 k ScriptParser.valueType ScriptParser.valueType := by
  intro hk
  refine peek hs ho ?_ hk
  cases htype : if (l.tokenAt k).kind = .ident then ValueType.ofName? (l.tokenAt k).text else none with
  | none => exact fail _ _
  | some type =>
      have hlt : k < l.tokens.length := by
        refine hs.closed.lt_of_kind hk fun hend => ?_
        rw [hend] at htype
        cases htype
      exact step hs hlt ho (pure type)

end Follows

/-! ## Expressions -/

variable {expr expr' : ScriptParser Expr} {stmt stmt' : ScriptParser Stmt}

namespace Expr

theorem literal_follows {read : Token → ScriptParser Expr} {t : Token}
    (h : (∃ e, read t = Pure.pure e) ∨ ∃ problem span, read t = ScriptParser.fail problem span) :
    Follows l l' m o 0 k (read t) (read t) := by
  rcases h with ⟨e, h⟩ | ⟨problem, span, h⟩
  · rw [h]
    exact .pure e
  · rw [h]
    exact .fail problem span

theorem chain_follows (hs : l.Shares l' m) {looseness : Nat}
    (hexpr : ∀ k, Follows l l' m 0 1 k expr expr') : ∀ (fuel fuel' k : Nat) (left : Expr),
    l.tokens.length ≤ fuel + k → l'.tokens.length ≤ fuel' + k →
      Follows l l' m 0 0 k (chain looseness expr fuel left) (chain looseness expr' fuel' left)
  | 0, fuel', k, left, hfuel, _ => by
      -- at the end no operator follows, and the end is not before `m`
      refine Follows.congr_right (.pure left) fun hkm => ?_
      have hle := hs.le
      omega
  | fuel + 1, fuel', k, left, hfuel, hfuel' => by
      refine Follows.congr_right (q := chain looseness expr' (fuel' - 1 + 1) left) ?_
        fun hkm noted => ?_
      · rw [chain, chain]
        refine .peek hs (Nat.le_refl 0) ?_
        cases hop : BinaryOp.ofToken? (l.tokenAt k).kind with
        | none => exact .pure left
        | some op =>
            dsimp only
            split
            · intro hk
              have hlt := lt_of_ofToken? hs.closed hop
              refine Follows.free (.step hs hlt (Nat.zero_le 1) ?_) hk
              refine Follows.free ((hexpr (k + 1)).bind fun right j hj => ?_)
              exact chain_follows hs hexpr fuel (fuel' - 1) j _ (by omega) (by omega)
            · exact .pure left
      · have hle := hs.le'
        rw [Nat.sub_add_cancel (by omega)]

theorem operations_follows (hs : l.Shares l' m) (hexpr : ∀ k, Follows l l' m 0 1 k expr expr') :
    ∀ n k, Follows l l' m 0 1 k (operations expr n) (operations expr' n)
  | 0, k => hexpr k
  | n + 1, k => by
      have htighter := operations_follows hs hexpr n
      rw [operations, operations]
      refine (htighter k).bind fun left j _ => .remaining ?_
      exact chain_follows hs htighter _ _ j left (by omega) (by omega)

theorem argsLoop_follows (hs : l.Shares l' m) (hexpr : ∀ k, Follows l l' m 0 1 k expr expr') :
    ∀ (fuel fuel' k : Nat) (args : List Expr), l.tokens.length < fuel + k →
      l'.tokens.length < fuel' + k →
      Follows l l' m 0 0 k (argsLoop expr fuel args) (argsLoop expr' fuel' args)
  | 0, _, k, _, hfuel, _ => fun hk => by omega
  | fuel + 1, fuel', k, args, hfuel, hfuel' => by
      refine Follows.congr_right (q := argsLoop expr' (fuel' - 1 + 1) args) ?_
        fun hkm noted => ?_
      · rw [argsLoop, argsLoop]
        refine Follows.free ((hexpr k).bind fun e j hj => ?_)
        refine .eat hs (by decide) (Nat.le_refl 0) ?_ ?_
        · intro j' _ _
          exact .pure _
        · intro _
          refine Follows.free
            ((Follows.expect hs (by decide) _ (Nat.zero_le 1)).bind fun _ j' hj' => ?_)
          exact argsLoop_follows hs hexpr fuel (fuel' - 1) j' _ (by omega) (by omega)
      · have hle := hs.le'
        rw [Nat.sub_add_cancel (by omega)]

theorem args_follows (hs : l.Shares l' m) (hexpr : ∀ k, Follows l l' m 0 1 k expr expr') (k : Nat) :
    Follows l l' m 0 0 k (args expr) (args expr') := by
  rw [args, args]
  refine .eat hs (by decide) (Nat.le_refl 0) ?_ ?_
  · intro j _ _
    exact .pure []
  · intro _
    refine .remaining ?_
    exact argsLoop_follows hs hexpr _ _ k [] (by omega) (by omega)

theorem ofWord_follows (hs : l.Shares l' m) (hexpr : ∀ k, Follows l l' m 0 1 k expr expr') (k : Nat)
    (t : Token) : Follows l l' m 0 0 k (ofWord expr t) (ofWord expr' t) := by
  rw [ofWord, ofWord]
  cases Literal.word? t with
  | some constant => exact .pure constant
  | none =>
      refine .eat hs (by decide) (Nat.le_refl 0) ?_ ?_
      · intro j _ _
        refine (args_follows hs hexpr j).bind fun arguments _ _ => ?_
        exact .previousSpan hs (Nat.zero_le 1) (.pure _)
      · intro _
        exact .pure _

theorem primary_follows (hs : l.Shares l' m) (hexpr : ∀ k, Follows l l' m 0 1 k expr expr') (k : Nat) :
    Follows l l' m 0 1 k (primary expr) (primary expr') := by
  intro hk
  rw [primary, primary]
  rcases Nat.lt_or_eq_of_le hk with hlt | rfl
  · refine Follows.step hs hlt (Nat.zero_le _) ?_ hk
    cases (l.tokenAt k).kind with
    | intLiteral => exact literal_follows (Literal.int_fromToken _).cases
    | hexLiteral => exact literal_follows (Literal.hex_fromToken _).cases
    | floatLiteral => exact literal_follows (Literal.float_fromToken _).cases
    | stringLiteral => exact .pure _
    | ident => exact ofWord_follows hs hexpr (k + 1) _
    | lParen =>
        refine (hexpr (k + 1)).free.bind fun inner j _ => ?_
        refine (Follows.expect hs (by decide) _ (Nat.zero_le 1)).free.bind fun _ j' _ => ?_
        exact .previousSpan hs (Nat.zero_le 1) (.pure _)
    | _ => exact .fail _ _
  · -- at the end there is no operand
    intro noted a t hrun
    rw [bind_of_ok ((Takes.advance_end (d := 0) hs.closed).1 noted), hs.closed.ending] at hrun
    cases hrun

theorem operand_follows (hs : l.Shares l' m) :
    ∀ n k, Follows l l' m 0 1 k (operand n) (operand n)
  | 0, k => fun _ _ _ _ hrun => nomatch hrun
  | n + 1, k => by
      rw [operand]
      refine .peek hs (Nat.zero_le 1) ?_
      cases hop : UnaryOp.ofToken? (l.tokenAt k).kind with
      | none => exact primary_follows hs (operations_follows hs (operand_follows hs n) 6) k
      | some op =>
          refine Follows.step hs (lt_of_unary hs.closed hop) (Nat.zero_le _) ?_
          exact (operand_follows hs n (k + 1)).free.bind fun _ _ _ => .pure _

theorem parser_follows (hs : l.Shares l' m) (n k : Nat) :
    Follows l l' m 0 1 k (parser n) (parser n) :=
  operations_follows hs (operand_follows hs n) 6 k

end Expr

/-! ## Statements -/

namespace Stmt

/-- A token that has to stand behind a part is looked at by that part and then read. -/
theorem ended_follows (hs : l.Shares l' m) {p p' : ScriptParser α} (hp : Follows l l' m 0 c k p p')
    {kind : TokenKind} (hkind : kind ≠ .eof) (what : String) {f f' : α → Token → ScriptParser β}
    (hf : ∀ a t j, Follows l l' m 1 0 j (f a t) (f' a t)) :
    Follows l l' m 1 (c + 1) k
      (do let a ← p; let t ← ScriptParser.expect kind what; f a t)
      (do let a ← p'; let t ← ScriptParser.expect kind what; f' a t) := by
  refine hp.seq (fun a j _ => ?_) (Nat.le_refl 1)
  exact (Follows.expect hs hkind what (Nat.le_refl 1)).bind fun t j' _ => hf a t j'

theorem condition_follows (hs : l.Shares l' m) (hexpr : ∀ k, Follows l l' m 0 1 k expr expr')
    (after : String) (k : Nat) :
    Follows l l' m 1 1 k (condition expr after) (condition expr' after) := by
  rw [condition, condition]
  refine (Follows.expect hs (by decide) _ (Nat.le_refl 1)).bind fun _ j _ => ?_
  exact (ended_follows hs (hexpr j) (by decide) _ fun cond _ _ => .pure cond).free

theorem initializer_follows (hs : l.Shares l' m) (hexpr : ∀ k, Follows l l' m 0 1 k expr expr')
    (k : Nat) : Follows l l' m 0 0 k (initializer expr) (initializer expr') := by
  rw [initializer, initializer]
  refine .eat hs (by decide) (Nat.le_refl 0) ?_ ?_
  · intro j _ _
    exact (hexpr j).free.map
  · intro _
    exact .pure none

theorem returned_follows (hs : l.Shares l' m) (hexpr : ∀ k, Follows l l' m 0 1 k expr expr')
    (hk : k < l.tokens.length) : Follows l l' m 1 1 k (returned expr) (returned expr') := by
  rw [returned, returned]
  refine .step hs hk (Nat.le_refl 1) ?_
  refine Follows.free (c := 1) ?_
  refine .see (d := fun t => decide (t.kind = .semi)) hs
    (·.reads_isAt .semi _) (Nat.le_refl 1) ?_
  have hrest (value : Option Expr) (t : Token) (j : Nat) : Follows l l' m 1 0 j
      (do return ret value ((l.tokenAt k).span.cover (← ScriptParser.previousSpan)) : ScriptParser Stmt)
      (do return ret value ((l.tokenAt k).span.cover (← ScriptParser.previousSpan))) :=
    .previousSpan hs (Nat.le_refl 1) (.pure _)
  split
  · exact ended_follows hs (.pure none) (by decide) _ hrest
  · exact (ended_follows hs (hexpr (k + 1)).map (by decide) _ hrest).mono (Nat.le_refl 1) (by omega)

theorem localVariable_follows (hs : l.Shares l' m) (hexpr : ∀ k, Follows l l' m 0 1 k expr expr')
    (k : Nat) : Follows l l' m 1 1 k (localVariable expr) (localVariable expr') := by
  rw [localVariable, localVariable]
  refine .peek hs (Nat.le_refl 1) ?_
  refine (Follows.valueType hs (Nat.le_refl 1)).bind fun type j _ => ?_
  cases type.isVoid with
  | true => exact .fail _ _
  | false =>
      refine Follows.free
        ((Follows.expect hs (by decide) _ (Nat.le_refl 1)).bind fun name j' _ => ?_)
      refine Follows.free (ended_follows hs (initializer_follows hs hexpr j') (by decide) _ fun _ _ _ => ?_)
      exact .previousSpan hs (Nat.le_refl 1) (.pure _)

theorem assignment_follows (hs : l.Shares l' m) (hexpr : ∀ k, Follows l l' m 0 1 k expr expr')
    (hk : k < l.tokens.length) (hassign : (l.tokenAt (k + 1)).kind = .assign) :
    Follows l l' m 1 2 k (assignment expr) (assignment expr') := by
  have hk' : k + 1 < l.tokens.length := hs.closed.lt_of_kind hk (by rw [hassign]; decide)
  rw [assignment, assignment]
  refine .step hs hk (by omega) (.step hs hk' (Nat.le_refl 1) ?_)
  refine Follows.free (ended_follows hs (hexpr (k + 1 + 1)) (by decide) _ fun _ _ _ => ?_)
  exact .previousSpan hs (Nat.le_refl 1) (.pure _)

theorem expression_follows (hs : l.Shares l' m) (hexpr : ∀ k, Follows l l' m 0 1 k expr expr')
    (k : Nat) : Follows l l' m 1 2 k (expression expr) (expression expr') := by
  rw [expression, expression]
  exact ended_follows hs (hexpr k) (by decide) _ fun value _ _ => .pure (Stmt.expr value)

/-- What is read in a turn without a note is a statement. -/
theorem recover_follows (hs : l.Shares l' m) {d : Nat} (hopen : ¬Closes l k)
    (hagrees : Agrees l d 1 Anywhere k stmt (Loops.stmt l.all))
    (hstmt : Follows l l' m 1 1 k stmt stmt') :
    Follows l l' m 1 1 k (ScriptParser.recover stmt synchronize)
      (ScriptParser.recover stmt' synchronize) := by
  intro hk noted read t hrun
  rcases hagrees.recover_cases (Closes l) hk hopen (fun _ => synchronize_skips hs.closed) noted with
    ⟨s, t', hread, hturn⟩ | ⟨k', more, e, hlt, hle, hturn⟩
  · obtain ⟨rfl, rfl⟩ := EStateM.Result.ok.inj (hturn.symm.trans hrun)
    obtain ⟨k', more, hk', hle', ht, hsame⟩ := hstmt hk noted s t' hread
    refine ⟨k', more, hk', hle', ht, fun hmore hlt noted' => ?_⟩
    rw [ScriptParser.recover, hsame hmore hlt noted']
  · obtain ⟨rfl, rfl⟩ := EStateM.Result.ok.inj (hturn.symm.trans hrun)
    exact ⟨k', more ++ [e], hlt, hle, rfl, fun h => by simp at h⟩

theorem blockLoop_follows (hs : l.Shares l' m) {d : Nat}
    (hagrees : ∀ k, Agrees l d 1 Anywhere k stmt (Loops.stmt l.all))
    (hstmt : ∀ k, Follows l l' m 1 1 k stmt stmt') : ∀ (fuel fuel' k : Nat) (body : List Stmt),
    l.tokens.length < fuel + k → l'.tokens.length < fuel' + k →
      Follows l l' m 1 1 k (blockLoop stmt fuel body) (blockLoop stmt' fuel' body)
  | 0, _, k, _, hfuel, _ => fun hk => by omega
  | fuel + 1, fuel', k, body, hfuel, hfuel' => by
      refine Follows.congr_right (q := blockLoop stmt' (fuel' - 1 + 1) body) ?_
        fun hkm noted => ?_
      · intro hk
        rw [blockLoop, blockLoop]
        refine Follows.peek hs (Nat.le_refl 1) ?_ hk
        by_cases hclose : (l.tokenAt k).kind = .rBrace
        · have hlt := hs.closed.lt_of_kind hk (by rw [hclose]; decide)
          rw [if_pos hclose, if_pos hclose]
          exact .step hs hlt (Nat.le_refl 1) (.pure body)
        · rw [if_neg hclose, if_neg hclose]
          by_cases hend : (l.tokenAt k).kind = .eof
          · rw [if_pos hend, if_pos hend]
            exact .fail _ _
          · rw [if_neg hend, if_neg hend]
            have hopen : ¬Closes l k := fun h => h.elim hclose hend
            refine (recover_follows hs hopen (hagrees k) (hstmt k)).bind fun read j hj => ?_
            exact (blockLoop_follows hs hagrees hstmt fuel (fuel' - 1) j _ (by omega) (by omega)).free
      · have hle := hs.le'
        rw [Nat.sub_add_cancel (by omega)]

theorem blockBody_follows (hs : l.Shares l' m) {d : Nat}
    (hagrees : ∀ k, Agrees l d 1 Anywhere k stmt (Loops.stmt l.all))
    (hstmt : ∀ k, Follows l l' m 1 1 k stmt stmt') (k : Nat) :
    Follows l l' m 1 1 k (blockBody stmt) (blockBody stmt') := by
  rw [blockBody, blockBody]
  refine (Follows.expect hs (by decide) _ (Nat.le_refl 1)).bind fun _ j _ => .remaining ?_
  exact (blockLoop_follows hs hagrees hstmt _ _ j [] (by omega) (by omega)).free

/-- Behind a statement, `else` is looked for where neither row has it, or it is read. -/
theorem otherwise_follows (hs : l.Shares l' m) {f f' : Bool → ScriptParser Stmt}
    (hyes : ∀ j, Follows l l' m 1 0 j (f true) (f' true))
    (hno : Follows l l' m 1 0 k (f false) (f' false)) :
    Follows l l' m 1 0 k (ScriptParser.eat .elseWord >>= f) (ScriptParser.eat .elseWord >>= f') := by
  by_cases hat : (l.tokenAt k).kind = .elseWord
  · refine Follows.free (c := 1) (.eat hs (by decide) (Nat.le_refl 1) ?_ ?_)
    · intro j _ _
      exact hyes j
    · intro hnot
      exact absurd hat hnot
  · refine (hno.congr_right fun hkm noted => ?_).congr_left fun noted => ?_
    · refine bind_of_ok (Lexed.reads_eat_other ?_ noted)
      rcases Nat.lt_or_eq_of_le (Nat.le_of_lt_succ hkm) with hkm | rfl
      · rwa [hs.token k hkm]
      · exact hs.notElse
    · exact bind_of_ok (Lexed.reads_eat_other hat noted)

theorem conditional_follows (hs : l.Shares l' m) (hstmt : ∀ k, Follows l l' m 1 1 k stmt stmt')
    (hexpr : ∀ k, Follows l l' m 0 1 k expr expr') (hk : k < l.tokens.length) :
    Follows l l' m 1 1 k (conditional stmt expr) (conditional stmt' expr') := by
  rw [conditional, conditional]
  refine .step hs hk (Nat.le_refl 1) ?_
  refine (condition_follows hs hexpr _ (k + 1)).free.bind fun cond j _ => ?_
  refine (hstmt j).free.bind fun body j' _ => ?_
  refine otherwise_follows hs (fun j'' => ?_) (.pure _)
  exact (hstmt j'').free.bind fun other _ _ => .pure (ifElse cond body other)

theorem whileLoop_follows (hs : l.Shares l' m) (hstmt : ∀ k, Follows l l' m 1 1 k stmt stmt')
    (hexpr : ∀ k, Follows l l' m 0 1 k expr expr') (hk : k < l.tokens.length) :
    Follows l l' m 1 1 k (whileLoop stmt expr) (whileLoop stmt' expr') := by
  rw [whileLoop, whileLoop]
  refine .step hs hk (Nat.le_refl 1) ?_
  refine (condition_follows hs hexpr _ (k + 1)).free.bind fun cond j _ => ?_
  exact (hstmt j).free.bind fun body _ _ => .pure (loop cond body)

theorem ofParts_follows (hs : l.Shares l' m) {d : Nat}
    (hagrees : ∀ k, Agrees l d 1 Anywhere k stmt (Loops.stmt l.all))
    (hstmt : ∀ k, Follows l l' m 1 1 k stmt stmt')
    (hexpr : ∀ k, Follows l l' m 0 1 k expr expr') (k : Nat) :
    Follows l l' m 1 1 k (ofParts stmt expr) (ofParts stmt' expr') := by
  intro hk
  rw [ofParts, ofParts]
  refine Follows.peek hs (Nat.le_refl 1) ?_ hk
  have hlt : (l.tokenAt k).kind ≠ .eof → k < l.tokens.length := hs.closed.lt_of_kind hk
  have hexpression := (expression_follows hs hexpr k).mono (Nat.le_refl 1) (by omega : 1 ≤ 2)
  cases hkind : (l.tokenAt k).kind with
  | lBrace => exact (blockBody_follows hs hagrees hstmt k).map
  | semi => exact .step hs (hlt (by rw [hkind]; decide)) (Nat.le_refl 1) (.pure (block []))
  | ifWord => exact conditional_follows hs hstmt hexpr (hlt (by rw [hkind]; decide))
  | whileWord => exact whileLoop_follows hs hstmt hexpr (hlt (by rw [hkind]; decide))
  | returnWord => exact returned_follows hs hexpr (hlt (by rw [hkind]; decide))
  | ident =>
      refine .see (d := fun t => decide (t.kind = .ident) && (ValueType.ofName? t.text).isSome) hs
        (·.reads_isAtType k) (Nat.le_refl 1) ?_
      split
      · exact localVariable_follows hs hexpr k
      · refine Follows.fewer (.peekSecond hs (Nat.le_refl 2) ?_)
        by_cases hassign : (l.tokenAt (k + 1)).kind = .assign
        · rw [if_pos hassign, if_pos hassign]
          exact assignment_follows hs hexpr (hlt (by rw [hkind]; decide)) hassign
        · rw [if_neg hassign, if_neg hassign]
          exact expression_follows hs hexpr k
  | _ => exact hexpression

theorem parser_follows (hs : l.Shares l' m) :
    ∀ n d, maxNesting - d = n → ∀ k, Follows l l' m 1 1 k (parser n) (parser n)
  | 0, _, _, _ => fun _ _ _ _ hrun => nomatch hrun
  | n + 1, d, hd, k =>
      ofParts_follows hs (parser_agrees hs.closed n (d + 1) (by omega))
        (parser_follows hs n (d + 1) (by omega)) (Expr.parser_follows hs n) k

end Stmt

/-! ## Declarations -/

namespace Event

theorem directive_follows (hs : l.Shares l' m) (hk : k < l.tokens.length) :
    Follows l l' m 0 1 k directive directive := by
  rw [directive]
  refine .step hs hk (Nat.zero_le 1) ?_
  exact (Follows.expect hs (by decide) _ (Nat.zero_le 1)).free.bind fun _ _ _ => .pure _

theorem paramsLoop_follows (hs : l.Shares l' m) : ∀ (fuel fuel' k : Nat) (params : List Param),
    l.tokens.length < fuel + k → l'.tokens.length < fuel' + k →
      Follows l l' m 0 2 k (paramsLoop fuel params) (paramsLoop fuel' params)
  | 0, _, k, _, hfuel, _ => fun hk => by omega
  | fuel + 1, fuel', k, params, hfuel, hfuel' => by
      refine Follows.congr_right (q := paramsLoop (fuel' - 1 + 1) params) ?_ fun hkm noted => ?_
      · rw [paramsLoop, paramsLoop]
        refine (Follows.valueType hs (Nat.zero_le 1)).both fun type j hj => ?_
        cases type.isVoid with
        | true => exact .previousSpan hs (Nat.zero_le 1) (.fail _ _)
        | false =>
            refine (Follows.expect hs (by decide) _ (Nat.zero_le 1)).bind fun name j' hj' => ?_
            refine .eat hs (by decide) (Nat.zero_le 0) ?_ ?_
            · intro _ _ _
              exact .pure _
            · intro _
              refine Follows.free
                ((Follows.expect hs (by decide) _ (Nat.zero_le 1)).bind fun _ j'' hj'' => ?_)
              exact (paramsLoop_follows hs fuel (fuel' - 1) j'' _ (by omega) (by omega)).free
      · have hle := hs.le'
        rw [Nat.sub_add_cancel (by omega)]

theorem params_follows (hs : l.Shares l' m) (k : Nat) : Follows l l' m 0 1 k params params := by
  intro hk
  rw [params]
  refine Follows.eat hs (by decide) (Nat.zero_le 1) ?_ ?_ hk
  · intro j _ _
    exact .pure []
  · intro _
    refine .see (d := fun t => decide (t.kind = .ident) && decide (t.text = "void")) hs
      (·.reads_isAtWord "void" _) (Nat.zero_le 1) ?_
    refine .peekSecond hs (Nat.le_refl 1) ?_
    split
    · next hvoid =>
        have hboth : (l.tokenAt k).kind = .ident ∧ (l.tokenAt (k + 1)).kind = .rParen := by
          simp only [Bool.and_eq_true, decide_eq_true_eq] at hvoid
          exact ⟨hvoid.1.1, hvoid.2⟩
        have hlt : k < l.tokens.length := hs.closed.lt_of_kind hk (by rw [hboth.1]; decide)
        have hlt' : k + 1 < l.tokens.length := hs.closed.lt_of_kind hlt (by rw [hboth.2]; decide)
        refine .step hs hlt (Nat.zero_le 1) (Follows.free (.step hs hlt' (Nat.zero_le 1) (.pure [])))
    · refine .remaining ?_
      exact (paramsLoop_follows hs _ _ k [] (by omega) (by omega)).fewer

theorem function_follows (hs : l.Shares l' m) (start : Span) (result : ValueType) (name : String)
    (k : Nat) : Follows l l' m 0 0 k (function start result name) (function start result name) := by
  rw [function]
  refine Follows.free ((params_follows hs k).bind fun params j _ => ?_)
  have hrest (body : Option (List Stmt)) (j : Nat) : Follows l l' m 0 0 j
      (do
        return .function
          { result, name, params, body, span := start.cover (← ScriptParser.previousSpan) } :
        ScriptParser Declaration)
      (do
        return .function
          { result, name, params, body, span := start.cover (← ScriptParser.previousSpan) }) :=
    .previousSpan hs (Nat.zero_le 1) (.pure _)
  refine .eat hs (by decide) (Nat.le_refl 0) ?_ ?_
  · intro j' _ _
    exact hrest none j'
  · intro _
    have hbody := Stmt.blockBody_follows hs (Stmt.parser_agrees hs.closed maxNesting 0 rfl)
      (Stmt.parser_follows hs maxNesting 0 rfl) j
    exact (hbody.mono (Nat.zero_le 1) (Nat.zero_le 1)).map.bind fun body j' _ => hrest body j'

theorem globalVariable_follows (hs : l.Shares l' m) (start : Span) (type : ValueType) (name : Token)
    (k : Nat) :
    Follows l l' m 0 0 k (globalVariable start type name) (globalVariable start type name) := by
  rw [globalVariable]
  cases type.isVoid with
  | true => exact .fail _ _
  | false =>
      refine (Stmt.initializer_follows hs (Expr.parser_follows hs _) k).bind fun init j _ => ?_
      refine Follows.free
        ((Follows.expect hs (by decide) _ (Nat.zero_le 1)).bind fun _ _ _ => ?_)
      exact .previousSpan hs (Nat.zero_le 1) (.pure _)

/-- Reads what a declaration begins with: the word `const` if it is there, a type and a name. -/
def introduced : ScriptParser (Span × ValueType × Token) := do
  if ← ScriptParser.isAtWord "const" then
    let _ ← ScriptParser.advance
  let start := (← ScriptParser.peek).span
  let type ← ScriptParser.valueType
  let name ← ScriptParser.expect .ident "identifier"
  return (start, type, name)

theorem declared_eq : declared = (do
    let r ← introduced
    if ← ScriptParser.eat .lParen then function r.1 r.2.1 r.2.2.text
    else globalVariable r.1 r.2.1 r.2.2) := by
  simp only [declared, introduced, bind_assoc]
  refine bind_congr fun const => ?_
  cases const with
  | true => simp only [if_true, bind_assoc, pure_bind]
  | false => simp only [Bool.false_eq_true, if_false, bind_assoc, pure_bind]

theorem introduced_follows (hs : l.Shares l' m) (k : Nat) :
    Follows l l' m 0 1 k introduced introduced := by
  have hrest (k : Nat) : Follows l l' m 0 1 k
      (do
        let start := (← ScriptParser.peek).span
        let type ← ScriptParser.valueType
        let name ← ScriptParser.expect .ident "identifier"
        return (start, type, name))
      (do
        let start := (← ScriptParser.peek).span
        let type ← ScriptParser.valueType
        let name ← ScriptParser.expect .ident "identifier"
        return (start, type, name)) := by
    refine .peek hs (Nat.zero_le 1) ?_
    refine (Follows.valueType hs (Nat.zero_le 1)).bind fun type j _ => ?_
    exact (Follows.expect hs (by decide) _ (Nat.zero_le 1)).free.bind fun name _ _ => .pure _
  intro hk
  rw [introduced]
  refine Follows.see (d := fun t => decide (t.kind = .ident) && decide (t.text = "const")) hs
    (·.reads_isAtWord "const" k) (Nat.zero_le 1) ?_ hk
  split
  · next hconst =>
      have hlt : k < l.tokens.length := by
        simp only [Bool.and_eq_true, decide_eq_true_eq] at hconst
        exact hs.closed.lt_of_kind hk (by rw [hconst.1]; decide)
      exact .step hs hlt (Nat.zero_le 1) (hrest (k + 1)).free
  · exact hrest k

theorem declared_follows (hs : l.Shares l' m) (k : Nat) :
    Follows l l' m 0 1 k declared declared := by
  rw [declared_eq]
  refine (introduced_follows hs k).bind fun r j _ => .eat hs (by decide) (Nat.le_refl 0) ?_ ?_
  · intro j' _ _
    exact function_follows hs r.1 r.2.1 r.2.2.text j'
  · intro _
    exact globalVariable_follows hs r.1 r.2.1 r.2.2 j

/-- What is declared in front of what was changed is declared in both rows. -/
theorem next_follows (hs : l.Shares l' m) (k : Nat) : Follows l l' m 0 1 k next next := by
  intro hk
  rw [next]
  refine Follows.see (d := fun t => decide (t.kind = .hashInclude)) hs
    (·.reads_isAt .hashInclude k) (Nat.zero_le 1) ?_ hk
  split
  · next hhash =>
      exact directive_follows hs
        (hs.closed.lt_of_kind hk (by rw [of_decide_eq_true hhash]; decide))
  · exact (declared_follows hs k).map

end Event
end Nss
