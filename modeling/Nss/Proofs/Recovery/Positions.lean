/-
# What is read between two positions

Notes do not change what a parser does: whatever was noted before, it comes from a position to the same one,
with the same result and the same notes of its own (`Agrees.always`).  So it can be said of a row of tokens
that something is read between two positions of it, or that a parser fails there.
-/
import Nss.Proofs.Parsing.Progress

namespace Nss

open Steps

variable {α β : Type} {l : Lexed} {d c k : Nat}

theorem Steps.map_eq_ok {ε σ : Type} {p : EStateM ε σ α} {u : α → β} {s t : σ} {b : β} :
    (u <$> p) s = .ok b t ↔ ∃ a, p s = .ok a t ∧ u a = b := by
  rw [← bind_pure_comp, bind_eq_ok]
  refine ⟨?_, ?_⟩
  · rintro ⟨a, t', ha, hb⟩
    obtain ⟨rfl, rfl⟩ := EStateM.Result.ok.inj hb
    exact ⟨a, ha, rfl⟩
  · rintro ⟨a, ha, rfl⟩
    exact ⟨a, t, ha, rfl⟩

namespace Lexed

/-- A parser reads something from one position up to another one, and notes nothing. -/
def Reads (l : Lexed) (p : ScriptParser α) (k : Nat) (a : α) (k' : Nat) : Prop :=
  ∀ noted, p (l.stateAt k noted) = .ok a (l.stateAt k' noted)

/-- A parser fails between two positions. -/
def Fails (l : Lexed) (p : ScriptParser α) (k : Nat) (d : Diagnostic) (k' : Nat) : Prop :=
  ∀ noted, p (l.stateAt k noted) = .error d (l.stateAt k' noted)

/-- A state belongs to one position. -/
theorem stateAt_inj {k' : Nat} {noted noted' : List Diagnostic} (hk : k ≤ l.tokens.length)
    (hk' : k' ≤ l.tokens.length) (h : l.stateAt k noted = l.stateAt k' noted') :
    k = k' ∧ noted = noted' := by
  have hahead : l.tokens.drop k = l.tokens.drop k' := congrArg ParseState.ahead h
  have hnoted : noted = noted' := congrArg ParseState.noted h
  have hlength := congrArg List.length hahead
  rw [List.length_drop, List.length_drop] at hlength
  exact ⟨by omega, hnoted⟩

theorem Reads.of_map {p : ScriptParser α} {u : α → β} {b : β} {k' : Nat} (hu : Function.Injective u)
    (h : l.Reads (u <$> p) k b k') : ∃ a, b = u a ∧ l.Reads p k a k' := by
  obtain ⟨a, -, rfl⟩ := map_eq_ok.mp (h [])
  refine ⟨a, rfl, fun noted => ?_⟩
  obtain ⟨a', ha', heq⟩ := map_eq_ok.mp (h noted)
  obtain rfl := hu heq
  exact ha'

/-! ## Tokens -/

theorem reads_peek (l : Lexed) (k : Nat) : l.Reads ScriptParser.peek k (l.tokenAt k) k :=
  (Takes.peek (d := 0)).1

theorem reads_peekSecond (l : Lexed) (k : Nat) :
    l.Reads ScriptParser.peekSecond k (l.tokenAt (k + 1)) k :=
  (Takes.peekSecond (d := 0)).1

theorem reads_isAt (l : Lexed) (kind : TokenKind) (k : Nat) :
    l.Reads (ScriptParser.isAt kind) k (decide ((l.tokenAt k).kind = kind)) k :=
  (Takes.isAt (d := 0) kind).1

theorem reads_isAtWord (l : Lexed) (word : String) (k : Nat) :
    l.Reads (ScriptParser.isAtWord word) k
      (decide ((l.tokenAt k).kind = .ident) && decide ((l.tokenAt k).text = word)) k :=
  (Takes.isAtWord (d := 0) word).1

theorem reads_isAtType (l : Lexed) (k : Nat) :
    l.Reads ScriptParser.isAtType k
      (decide ((l.tokenAt k).kind = .ident) && (ValueType.ofName? (l.tokenAt k).text).isSome) k :=
  (Takes.isAtType (d := 0)).1

theorem reads_previousSpan (l : Lexed) (k : Nat) :
    l.Reads ScriptParser.previousSpan k (l.tokenAt (k - 1)).span k := fun _ => rfl

theorem Closed.reads_advance (hl : l.Closed) (hk : k < l.tokens.length) :
    l.Reads ScriptParser.advance k (l.tokenAt k) (k + 1) :=
  (Takes.advance (d := 0) hl hk).1

theorem Closed.reads_eat (hl : l.Closed) {kind : TokenKind} (hk : k < l.tokens.length)
    (h : (l.tokenAt k).kind = kind) : l.Reads (ScriptParser.eat kind) k true (k + 1) := by
  intro noted
  rw [ScriptParser.eat, bind_of_ok (l.reads_isAt kind k noted), decide_eq_true h, if_pos rfl,
    bind_of_ok (hl.reads_advance hk noted)]
  rfl

theorem reads_eat_other {kind : TokenKind} (h : (l.tokenAt k).kind ≠ kind) :
    l.Reads (ScriptParser.eat kind) k false k := by
  intro noted
  rw [ScriptParser.eat, bind_of_ok (l.reads_isAt kind k noted), decide_eq_false h]
  rfl

theorem Closed.reads_expect (hl : l.Closed) {kind : TokenKind} (hk : k < l.tokens.length)
    (h : (l.tokenAt k).kind = kind) (what : String) :
    l.Reads (ScriptParser.expect kind what) k (l.tokenAt k) (k + 1) := by
  intro noted
  rw [ScriptParser.expect, bind_of_ok (l.reads_isAt kind k noted), decide_eq_true h, if_pos rfl]
  exact hl.reads_advance hk noted

theorem fails_expect {kind : TokenKind} (h : (l.tokenAt k).kind ≠ kind) (what : String) :
    l.Fails (ScriptParser.expect kind what) k (.error (.expected what) (l.tokenAt k).span) k := by
  intro noted
  rw [ScriptParser.expect, bind_of_ok (l.reads_isAt kind k noted), decide_eq_false h,
    if_neg Bool.false_ne_true, bind_of_ok (l.reads_peek k noted)]
  rfl

end Lexed

/-! ## Notes do not matter -/

theorem map_problem_inj {ds ds' : List Diagnostic}
    (h : ds.map Event.problem = ds'.map Event.problem) : ds = ds' :=
  List.map_inj_right (fun _ _ h => Event.problem.inj h) |>.mp h

theorem Agrees.always {P : Nat → Prop} {p : ScriptParser α} {q : LoopParser α}
    (hp : Agrees l d c P k p q) (hk : k ≤ l.tokens.length) :
    ∃ r k' more, k' ≤ l.tokens.length ∧ Paid c k k' more r ∧
      ∀ noted, p (l.stateAt k noted) = leaving r (l.stateAt k' (noted ++ more)) := by
  obtain ⟨r, k', more, hk', hpaid, -, -, hwalk⟩ := hp hk []
  refine ⟨r, k', more, hk', hpaid, fun noted => ?_⟩
  obtain ⟨r', k'', more', -, -, -, hrun, hwalk'⟩ := hp hk noted
  have hsame := Option.some.inj ((hwalk []).symm.trans (hwalk' []))
  obtain ⟨rfl, hcursor⟩ := Prod.mk.inj hsame
  obtain ⟨rfl, -, hevents⟩ := Cursor.mk.inj hcursor
  obtain rfl := map_problem_inj hevents
  exact hrun

/-- What was read without a note is always read. -/
theorem Agrees.reads {P : Nat → Prop} {p : ScriptParser α} {q : LoopParser α} {a : α}
    {t : ParseState} {noted : List Diagnostic} (hp : Agrees l d c P k p q)
    (hk : k ≤ l.tokens.length) (h : p (l.stateAt k noted) = .ok a t) :
    ∃ k' more, k + c ≤ k' ∧ k' ≤ l.tokens.length ∧ t = l.stateAt k' (noted ++ more) ∧
      (more = [] → l.Reads p k a k') := by
  obtain ⟨r, k', more, hk', hpaid, hrun⟩ := hp.always hk
  rw [hrun noted] at h
  cases r with
  | error e => cases h
  | ok b =>
      obtain ⟨rfl, rfl⟩ := EStateM.Result.ok.inj h
      have hpays : more.length + c + k ≤ k' := by
        rcases hpaid with hpaid | ⟨⟨e, he⟩, -⟩
        · exact hpaid
        · cases he
      refine ⟨k', more, by omega, hk', rfl, ?_⟩
      rintro rfl noted'
      rw [hrun noted', List.append_nil]
      rfl

/-- A run without a note shows what is always read. -/
theorem Agrees.reads_of_run {P : Nat → Prop} {p : ScriptParser α} {q : LoopParser α} {a : α} {k' : Nat}
    {noted : List Diagnostic} (hp : Agrees l d c P k p q) (hk : k ≤ l.tokens.length)
    (hk' : k' ≤ l.tokens.length) (h : p (l.stateAt k noted) = .ok a (l.stateAt k' noted)) :
    k + c ≤ k' ∧ l.Reads p k a k' := by
  obtain ⟨k'', more, hle, hle', hstate, hreads⟩ := hp.reads hk h
  obtain ⟨rfl, hmore⟩ := Lexed.stateAt_inj hk' hle' hstate
  exact ⟨hle, hreads (List.self_eq_append_right.mp hmore)⟩

theorem Agrees.le_of_reads {P : Nat → Prop} {p : ScriptParser α} {q : LoopParser α} {a : α} {k' : Nat}
    (hp : Agrees l d c P k p q) (hk : k ≤ l.tokens.length) (hk' : k' ≤ l.tokens.length)
    (h : l.Reads p k a k') : k + c ≤ k' :=
  (hp.reads_of_run hk hk' (h [])).1

/-- In a turn something is read, or something is noted. -/
theorem Agrees.recover_cases {P : Nat → Prop} {p : ScriptParser α} {q : LoopParser α}
    {resume : ScriptParser Unit} {skip : TokenWalk Unit} (stay : Nat → Prop)
    (hp : Agrees l d 1 P k p q) (hk : k ≤ l.tokens.length) (hstay : ¬stay k)
    (hskip : ∀ j, j ≤ l.tokens.length → Skips l d j (stay j) resume skip)
    (noted : List Diagnostic) :
    (∃ a t, p (l.stateAt k noted) = .ok a t ∧
      ScriptParser.recover p resume (l.stateAt k noted) = .ok (some a) t) ∨
    ∃ k' more e, k < k' ∧ k' ≤ l.tokens.length ∧
      ScriptParser.recover p resume (l.stateAt k noted)
        = .ok none (l.stateAt k' (noted ++ (more ++ [e]))) := by
  obtain ⟨r, k', more, hk', hpaid, -, hrun, -⟩ := hp hk noted
  cases r with
  | ok a =>
      refine .inl ⟨a, _, hrun, ?_⟩
      rw [ScriptParser.recover, hrun]
      rfl
  | error e =>
      obtain ⟨k'', hle, hk'', hgo, hresume, -⟩ := hskip k' hk'
      have hlt : k < k'' := by
        rcases hpaid with hpaid | ⟨-, rfl, -⟩
        · omega
        · exact hgo hstay
      have hnote : ScriptParser.note e (l.stateAt k' (noted ++ more))
          = .ok () (l.stateAt k' (noted ++ (more ++ [e]))) := by
        rw [← List.append_assoc]
        rfl
      refine .inr ⟨k'', more, e, hlt, hk'', ?_⟩
      rw [ScriptParser.recover, hrun]
      exact (bind_of_ok hnote).trans (bind_of_ok (hresume _))

/-- In a turn without a note something is read. -/
theorem Agrees.reads_of_recover {P : Nat → Prop} {p : ScriptParser α} {q : LoopParser α}
    {resume : ScriptParser Unit} {skip : TokenWalk Unit} (stay : Nat → Prop)
    (hp : Agrees l d 1 P k p q) (hk : k ≤ l.tokens.length) (hstay : ¬stay k)
    (hskip : ∀ j, j ≤ l.tokens.length → Skips l d j (stay j) resume skip) {read : Option α} {k' : Nat}
    {noted : List Diagnostic} (hk' : k' ≤ l.tokens.length)
    (h : ScriptParser.recover p resume (l.stateAt k noted) = .ok read (l.stateAt k' noted)) :
    ∃ a, read = some a ∧ l.Reads p k a k' := by
  rcases hp.recover_cases stay hk hstay hskip noted with ⟨a, t, hrun, hturn⟩ | ⟨_, more, e, -, hle, hturn⟩
  · obtain ⟨rfl, rfl⟩ := EStateM.Result.ok.inj (hturn.symm.trans h)
    exact ⟨a, rfl, (hp.reads_of_run hk hk' hrun).2⟩
  · obtain ⟨-, hstate⟩ := EStateM.Result.ok.inj (hturn.symm.trans h)
    obtain ⟨-, hnoted⟩ := Lexed.stateAt_inj hle hk' hstate
    exact absurd (List.self_eq_append_right.mp hnoted.symm) (by simp)

theorem Turns.always {p : ScriptParser (Option α)} {w : TokenWalk (Option α)} (h : Turns l d k p w) :
    ∃ a k' more, k < k' ∧ k' ≤ l.tokens.length ∧
      ∀ noted, p (l.stateAt k noted) = .ok a (l.stateAt k' (noted ++ more)) := by
  obtain ⟨a, k', more, hlt, hk', -, -, hwalk⟩ := h []
  refine ⟨a, k', more, hlt, hk', fun noted => ?_⟩
  obtain ⟨a', k'', more', -, -, -, hrun, hwalk'⟩ := h noted
  have hsame := Option.some.inj ((hwalk []).symm.trans (hwalk' []))
  obtain ⟨rfl, hcursor⟩ := Prod.mk.inj hsame
  obtain ⟨rfl, -, hevents⟩ := Cursor.mk.inj hcursor
  obtain rfl := map_problem_inj hevents
  exact hrun

/-! ## Parsers with some levels left -/

variable {n : Nat}

theorem Stmt.condition_agrees_of_le (hl : l.Closed) (hn : n ≤ maxNesting) (after : String) (k : Nat) :
    Agrees l (maxNesting - n) 1 Anywhere k (condition (Expr.parser n) after)
      (Loops.condition l.all after) :=
  condition_agrees hl (fun k => Expr.parser_agrees hl (Nat.sub_sub_self hn) k) after k

theorem Stmt.parser_agrees_of_le (hl : l.Closed) (hn : n ≤ maxNesting) (k : Nat) :
    Agrees l (maxNesting - n) 1 Anywhere k (parser n) (Loops.stmt l.all) :=
  parser_agrees hl n (maxNesting - n) (Nat.sub_sub_self hn) k

end Nss
