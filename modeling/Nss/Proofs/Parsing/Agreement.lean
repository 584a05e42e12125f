/-
# Parsers and walks that agree

A parser and a walk agree at a position if from there both come to the same result, at the same later
position, having noted the same problems.  On the way they pay with tokens: a token for every problem
noted, and as many more as they are said to cost.  A parser that fails at once, where it stands and
without a note, pays nothing.  So in a sequence the first part has to pay what the whole one costs.
-/
import Nss.Proofs.Parsing.Loops
import Nss.Proofs.Syntax.Declarations

namespace Nss

open Steps

/-! ## Places in a row of tokens -/

namespace Lexed

/-- Of the tokens only the end is an end. -/
structure Closed (l : Lexed) : Prop where
  tokens : ∀ t ∈ l.tokens, t.kind ≠ .eof
  ending : l.ending.kind = .eof

/-- The token at a position, which is the end from the end on. -/
def tokenAt (l : Lexed) (k : Nat) : Token := l.tokens.getD k l.ending

/-- What a parser has before it at a position. -/
def stateAt (l : Lexed) (k : Nat) (noted : List Diagnostic) : ParseState where
  ahead := l.tokens.drop k
  ending := l.ending
  previous := (l.tokenAt (k - 1)).span
  noted := noted

variable {l : Lexed} {k : Nat}

theorem length_all (l : Lexed) : l.all.length = l.tokens.length + 1 := by
  rw [all, List.length_append, List.length_singleton]

theorem tokenAt_of_lt (hk : k < l.tokens.length) : l.tokenAt k = l.tokens[k] := by
  rw [tokenAt, List.getD_eq_getElem?_getD, List.getElem?_eq_getElem hk]
  rfl

theorem tokenAt_of_length_le (hk : l.tokens.length ≤ k) : l.tokenAt k = l.ending := by
  rw [tokenAt, List.getD_eq_getElem?_getD, List.getElem?_eq_none hk]
  rfl

theorem tokenAt_length (l : Lexed) : l.tokenAt l.tokens.length = l.ending :=
  tokenAt_of_length_le (Nat.le_refl _)

theorem all_getElem? (h : k ≤ l.tokens.length) : l.all[k]? = some (l.tokenAt k) := by
  rcases Nat.lt_or_eq_of_le h with h | rfl
  · rw [all, List.getElem?_append_left h, tokenAt_of_lt h, List.getElem?_eq_getElem h]
  · rw [tokenAt_length, all, List.getElem?_concat_length]

theorem headD_stateAt (l : Lexed) (k : Nat) (noted : List Diagnostic) :
    (l.stateAt k noted).ahead.headD (l.stateAt k noted).ending = l.tokenAt k := by
  simp only [stateAt, tokenAt, List.headD_eq_head?_getD, List.head?_drop,
    List.getD_eq_getElem?_getD]

theorem remaining_stateAt (l : Lexed) (k : Nat) (noted : List Diagnostic) :
    ScriptParser.remaining (l.stateAt k noted) = .ok (l.tokens.length - k) (l.stateAt k noted) := by
  have hlength : (l.stateAt k noted).ahead.length = l.tokens.length - k := List.length_drop
  rw [← hlength]
  rfl

theorem drop_eq (h : k < l.tokens.length) :
    l.tokens.drop k = l.tokenAt k :: l.tokens.drop (k + 1) := by
  rw [List.drop_eq_getElem_cons h, tokenAt_of_lt h]

theorem stateAt_advanced (h : k < l.tokens.length) (noted : List Diagnostic) :
    (l.stateAt k noted).advanced = l.stateAt (k + 1) noted := by
  simp only [ParseState.advanced, stateAt, drop_eq h, Nat.add_sub_cancel]

theorem start_eq (l : Lexed) : ParseState.start l = l.stateAt 0 [] := by
  simp only [ParseState.start, stateAt, tokenAt, List.drop_zero, List.headD_eq_head?_getD,
    List.head?_eq_getElem?, List.getD_eq_getElem?_getD]

/-- Before the end no token is an end, and at the end one is. -/
theorem Closed.kind_eq_eof_iff (hl : l.Closed) (hk : k ≤ l.tokens.length) :
    (l.tokenAt k).kind = .eof ↔ k = l.tokens.length := by
  refine ⟨?_, ?_⟩
  · intro h
    by_contra hne
    have hlt : k < l.tokens.length := by omega
    refine hl.tokens (l.tokenAt k) ?_ h
    rw [tokenAt_of_lt hlt]
    exact List.getElem_mem hlt
  · rintro rfl
    rw [tokenAt_length]
    exact hl.ending

theorem Closed.kind_ne_eof (hl : l.Closed) (hk : k < l.tokens.length) : (l.tokenAt k).kind ≠ .eof :=
  fun h => Nat.ne_of_lt hk ((hl.kind_eq_eof_iff (Nat.le_of_lt hk)).mp h)

theorem Closed.lt_length_of_kind (hl : l.Closed) (h : (l.tokenAt k).kind ≠ .eof) :
    k < l.tokens.length := by
  by_contra hge
  rw [tokenAt_of_length_le (Nat.le_of_not_lt hge)] at h
  exact h hl.ending

theorem Closed.lt_of_kind (hl : l.Closed) (hk : k ≤ l.tokens.length)
    (h : (l.tokenAt k).kind ≠ .eof) : k < l.tokens.length :=
  Nat.lt_of_le_of_ne hk fun heq => h ((hl.kind_eq_eof_iff hk).mpr heq)

end Lexed

/-! ## Sequences -/

namespace Steps

variable {ε σ α β : Type} {p p' : EStateM ε σ α} {f g : α → EStateM ε σ β} {s : σ}

/-- Two sequences do the same when their first parts do, and then their second ones. -/
theorem bind_congr_run (h : p s = p' s) (hf : ∀ a t, p' s = .ok a t → f a t = g a t) :
    (p >>= f) s = (p' >>= g) s := by
  rw [bind_apply, bind_apply, h]
  cases hp : p' s with
  | ok a t => exact hf a t hp
  | error e t => rfl

end Steps

namespace Loops

variable {α β : Type} {q : LoopParser α} {g : α → LoopParser β} {w : TokenWalk α} {v : α → TokenWalk β}
  {c c' : Cursor}

theorem bind_of_ok {a : α} (h : q.run c = some (.ok a, c')) : (q >>= g).run c = (g a).run c' := by
  have hbind : (q >>= g).run c = (q.run c).bind fun r => ExceptT.bindCont g r.1 r.2 := rfl
  rw [hbind, h]
  rfl

theorem bind_of_error {d : Diagnostic} (h : q.run c = some (.error d, c')) :
    (q >>= g).run c = some (.error d, c') := by
  have hbind : (q >>= g).run c = (q.run c).bind fun r => ExceptT.bindCont g r.1 r.2 := rfl
  rw [hbind, h]
  rfl

theorem bind_of_some {a : α} (h : w.run c = some (a, c')) : (w >>= v).run c = (v a).run c' := by
  have hbind : (w >>= v).run c = (w.run c).bind fun r => (v r.1).run r.2 := rfl
  rw [hbind, h]
  rfl

/-- A walk that does not fail is a walk that could. -/
theorem run_liftM {a : α} (h : w.run c = some (a, c')) :
    (liftM w : LoopParser α).run c = some (.ok a, c') := by
  have hlift : (liftM w : LoopParser α).run c = (w.run c).bind fun r => some (.ok r.1, r.2) := rfl
  rw [hlift, h]
  rfl

/-- In front of a walk that could fail, one that does not is the same as in front of any other. -/
theorem liftM_bind (w : TokenWalk α) (g : α → LoopParser β) :
    (liftM w >>= g : LoopParser β) = (w >>= g : TokenWalk (Except Diagnostic β)) := by
  funext c
  have hlift : (liftM w >>= g : LoopParser β) c
      = ((w c).bind fun r => some (.ok r.1, r.2)).bind fun r => ExceptT.bindCont g r.1 r.2 := rfl
  have hbind : (w >>= g : TokenWalk (Except Diagnostic β)) c = (w c).bind fun r => g r.1 r.2 := rfl
  rw [hlift, hbind]
  cases w c with
  | none => rfl
  | some r => rfl

theorem run_get (c : Cursor) : (get : TokenWalk Cursor).run c = some (c, c) := rfl

/-! ## Levels and turns

What the walk does in several places is given a name here. -/

/-- Goes one level down for a walk, and up again behind it. -/
def nested (ts : List Token) (problem : Problem) (inner : LoopParser α) :
    TokenWalk (Except Diagnostic α) := do
  match ← (enter ts problem).run with
  | .error d => return .error d
  | .ok () =>
    let result ← inner.run
    leave
    return result

/-- Takes what a walk gives, or notes what it fails with and skips what is broken. -/
def recovering (q : LoopParser α) (skip : TokenWalk Unit) : TokenWalk (Option α) := do
  match ← q.run with
  | .ok a => return some a
  | .error e =>
    note (.problem e)
    skip
    return none

end Loops

/-! ## Agreement -/

variable {α β : Type} {l : Lexed} {d c k : Nat}

/-- A result, with the state in which a parser leaves it. -/
def leaving (r : Except Diagnostic α) (s : ParseState) : EStateM.Result Diagnostic ParseState α :=
  match r with
  | .ok a => .ok a s
  | .error e => .error e s

/-- The way from `k` to `k'`, on which problems were noted, is paid for. -/
def Paid (c k k' : Nat) (more : List Diagnostic) (r : Except Diagnostic α) : Prop :=
  more.length + c + k ≤ k' ∨ (∃ e, r = .error e) ∧ k' = k ∧ more = []

/-- From position `k` on, with `d` levels open, a parser and a walk come to the same.  If they do not
fail, the position they come to has a property. -/
def Agrees (l : Lexed) (d c : Nat) (P : Nat → Prop) (k : Nat) (p : ScriptParser α)
    (q : LoopParser α) : Prop :=
  k ≤ l.tokens.length → ∀ noted, ∃ r k' more, k' ≤ l.tokens.length ∧ Paid c k k' more r ∧
    (∀ a, r = .ok a → P k') ∧
    p (l.stateAt k noted) = leaving r (l.stateAt k' (noted ++ more)) ∧
    ∀ events, q.run ⟨k, d, events⟩ = some (r, ⟨k', d, events ++ more.map .problem⟩)

/-- From position `k` a parser and a walk come to `k'` with a value, whatever happened before. -/
def Takes (l : Lexed) (d k k' : Nat) (p : ScriptParser α) (w : TokenWalk α) (a : α) : Prop :=
  (∀ noted, p (l.stateAt k noted) = .ok a (l.stateAt k' noted)) ∧
    ∀ events, w.run ⟨k, d, events⟩ = some (a, ⟨k', d, events⟩)

/-- Any position will do. -/
abbrev Anywhere : Nat → Prop := fun _ => True

namespace Agrees

variable {P Q : Nat → Prop} {p : ScriptParser α} {q : LoopParser α} {f : α → ScriptParser β}
  {g : α → LoopParser β}

theorem pure (a : α) (h : P k) : Agrees l d 0 P k (Pure.pure a) (Pure.pure a) := by
  intro hk noted
  refine ⟨.ok a, k, [], hk, .inl (by simp), fun _ _ => h, ?_, ?_⟩
  · rw [List.append_nil]
    rfl
  · intro events
    rw [List.map_nil, List.append_nil]
    rfl

theorem fail (problem : Problem) (span : Span) :
    Agrees l d c P k (ScriptParser.fail problem span : ScriptParser α) (Loops.fail problem span) := by
  intro hk noted
  refine ⟨.error (.error problem span), k, [], hk, .inr ⟨⟨_, rfl⟩, rfl, rfl⟩, nofun, ?_, ?_⟩
  · rw [List.append_nil]
    rfl
  · intro events
    rw [List.map_nil, List.append_nil]
    rfl

theorem bind (hp : Agrees l d c P k p q)
    (hf : ∀ a k', k + c ≤ k' → P k' → Agrees l d 0 Q k' (f a) (g a)) :
    Agrees l d c Q k (p >>= f) (q >>= g) := by
  intro hk noted
  obtain ⟨r, k', more, hk', hpaid, hP, hrun, hwalk⟩ := hp hk noted
  cases r with
  | error e =>
      refine ⟨.error e, k', more, hk', ?_, nofun, ?_, ?_⟩
      · rcases hpaid with hpaid | ⟨-, hstay⟩
        · exact .inl hpaid
        · exact .inr ⟨⟨e, rfl⟩, hstay⟩
      · rw [bind_apply, hrun]
        rfl
      · intro events
        exact Loops.bind_of_error (hwalk events)
  | ok a =>
      have hle : more.length + c + k ≤ k' := by
        rcases hpaid with hpaid | ⟨⟨e, he⟩, -⟩
        · exact hpaid
        · cases he
      obtain ⟨r', k'', more', hk'', hpaid', hQ, hrun', hwalk'⟩ :=
        hf a k' (by omega) (hP a rfl) hk' (noted ++ more)
      refine ⟨r', k'', more ++ more', hk'', ?_, hQ, ?_, ?_⟩
      · refine .inl ?_
        rw [List.length_append]
        rcases hpaid' with hpaid' | ⟨-, rfl, rfl⟩
        · omega
        · rw [List.length_nil]
          omega
      · rw [bind_of_ok hrun, ← List.append_assoc]
        exact hrun'
      · intro events
        rw [List.map_append, ← List.append_assoc]
        exact (Loops.bind_of_ok (hwalk events)).trans (hwalk' _)

theorem map {u : α → β} (hp : Agrees l d c P k p q) : Agrees l d c P k (u <$> p) (u <$> q) := by
  rw [← bind_pure_comp, ← bind_pure_comp]
  exact hp.bind fun a _ _ h => pure (u a) h

theorem mono {c' : Nat} (hp : Agrees l d c' P k p q) (hc : c ≤ c') (h : ∀ k', P k' → Q k') :
    Agrees l d c Q k p q := by
  intro hk noted
  obtain ⟨r, k', more, hk', hpaid, hP, hrest⟩ := hp hk noted
  refine ⟨r, k', more, hk', ?_, fun a ha => h k' (hP a ha), hrest⟩
  rcases hpaid with hpaid | hstay
  · exact .inl (by omega)
  · exact .inr hstay

/-- What costs something costs nothing, too. -/
theorem free (hp : Agrees l d c P k p q) : Agrees l d 0 P k p q :=
  hp.mono (Nat.zero_le c) fun _ h => h

/-- Only what a parser does at the position matters. -/
theorem congr {p' : ScriptParser α} (hp : Agrees l d c P k p' q)
    (h : k ≤ l.tokens.length → ∀ noted, p (l.stateAt k noted) = p' (l.stateAt k noted)) :
    Agrees l d c P k p q := by
  intro hk noted
  rw [h hk noted]
  exact hp hk noted

/-- The walk may look at the tokens where the parser does not. -/
theorem see {a : α} {w : TokenWalk α} {p : ScriptParser β}
    (hsee : ∀ events, w.run ⟨k, d, events⟩ = some (a, ⟨k, d, events⟩))
    (h : Agrees l d c P k p (g a)) : Agrees l d c P k p (liftM w >>= g) := by
  intro hk noted
  obtain ⟨r, k', more, hk', hpaid, hP, hrun, hwalk⟩ := h hk noted
  refine ⟨r, k', more, hk', hpaid, hP, hrun, ?_⟩
  intro events
  exact (Loops.bind_of_ok (Loops.run_liftM (hsee events))).trans (hwalk events)

/-- To look at the tokens costs nothing, so what is done then pays for the whole. -/
theorem look {a : α} {w : TokenWalk α} (hlook : Takes l d k k p w a)
    (h : Agrees l d c P k (f a) (g a)) : Agrees l d c P k (p >>= f) (liftM w >>= g) :=
  (see hlook.2 h).congr fun _ noted => bind_of_ok (hlook.1 noted)

/-- A step forward pays for itself. -/
theorem take {a : α} {w : TokenWalk α} (htake : Takes l d k (k + 1) p w a) (hk' : k < l.tokens.length) :
    Agrees l d 1 (fun k' => k' = k + 1) k p (liftM w) := by
  intro _ noted
  refine ⟨.ok a, k + 1, [], hk', .inl (by simp; omega), fun _ _ => rfl, ?_, ?_⟩
  · rw [htake.1, List.append_nil]
    rfl
  · intro events
    rw [Loops.run_liftM (htake.2 events), List.map_nil, List.append_nil]

/-- What is done after a step may know what was read. -/
theorem step {a : α} {w : TokenWalk α} (htake : Takes l d k (k + 1) p w a) (hk' : k < l.tokens.length)
    (h : Agrees l d 0 P (k + 1) (f a) (g a)) : Agrees l d 1 P k (p >>= f) (liftM w >>= g) := by
  intro _ noted
  obtain ⟨r, k'', more, hk'', hpaid, hP, hrun, hwalk⟩ := h hk' noted
  refine ⟨r, k'', more, hk'', ?_, hP, ?_, ?_⟩
  · refine .inl ?_
    rcases hpaid with hpaid | ⟨-, rfl, rfl⟩
    · omega
    · rw [List.length_nil]
      omega
  · rw [bind_of_ok (htake.1 noted)]
    exact hrun
  · intro events
    exact (Loops.bind_of_ok (Loops.run_liftM (htake.2 events))).trans (hwalk events)

end Agrees

/-! ## Tokens -/

namespace Takes

variable {p : ScriptParser α} {w : TokenWalk α} {f : α → ScriptParser β} {v : α → TokenWalk β}

theorem pure (a : α) : Takes l d k k (Pure.pure a) (Pure.pure a) a := ⟨fun _ => rfl, fun _ => rfl⟩

theorem bind {k' k'' : Nat} {a : α} {b : β} (hp : Takes l d k k' p w a)
    (hf : Takes l d k' k'' (f a) (v a) b) : Takes l d k k'' (p >>= f) (w >>= v) b := by
  refine ⟨?_, ?_⟩
  · intro noted
    rw [bind_of_ok (hp.1 noted)]
    exact hf.1 noted
  · intro events
    exact (Loops.bind_of_some (hp.2 events)).trans (hf.2 events)

/-- The walk may look at the tokens where the parser does not. -/
theorem see {k' : Nat} {b : β} {a : α} {w : TokenWalk β} {v : β → TokenWalk α} {p : ScriptParser α}
    (hsee : ∀ events, w.run ⟨k, d, events⟩ = some (b, ⟨k, d, events⟩))
    (h : Takes l d k k' p (v b) a) : Takes l d k k' p (w >>= v) a :=
  ⟨h.1, fun events => (Loops.bind_of_some (hsee events)).trans (h.2 events)⟩

theorem run_peekNth (n : Nat) (events : List Event) :
    (Loops.peekNth l.all n).run ⟨k, d, events⟩ = some (l.tokenAt (k + n), ⟨k, d, events⟩) := by
  have hlast : l.tokenAt (min (k + n) l.tokens.length) = l.tokenAt (k + n) := by
    rcases Nat.le_total (k + n) l.tokens.length with h | h
    · rw [Nat.min_eq_left h]
    · rw [Nat.min_eq_right h, Lexed.tokenAt_of_length_le h, Lexed.tokenAt_length]
  have hat : l.all[min (k + n) (l.all.length - 1)]? = some (l.tokenAt (k + n)) := by
    rw [Lexed.length_all, Nat.add_sub_cancel, Lexed.all_getElem? (Nat.min_le_right _ _), hlast]
  rw [Loops.peekNth, Loops.bind_of_some (Loops.run_get _), hat]
  rfl

theorem peek : Takes l d k k ScriptParser.peek (Loops.peek l.all) (l.tokenAt k) := by
  refine ⟨?_, run_peekNth 0⟩
  intro noted
  rw [← l.headD_stateAt k noted]
  rfl

theorem peekSecond :
    Takes l d k k ScriptParser.peekSecond (Loops.peekNth l.all 1) (l.tokenAt (k + 1)) := by
  refine ⟨?_, run_peekNth 1⟩
  intro noted
  have hsecond : (l.tokens.drop k).getD 1 l.ending = l.tokenAt (k + 1) := by
    rw [Lexed.tokenAt, List.getD_eq_getElem?_getD, List.getD_eq_getElem?_getD, List.getElem?_drop]
  rw [← hsecond]
  rfl

theorem previousSpan (hk : k ≤ l.tokens.length) : Takes l d k k ScriptParser.previousSpan
    (Loops.previousSpan l.all) (l.tokenAt (k - 1)).span := by
  refine ⟨fun _ => rfl, ?_⟩
  intro events
  rw [Loops.previousSpan, Loops.bind_of_some (Loops.run_get _),
    Lexed.all_getElem? (Nat.le_trans (Nat.sub_le k 1) hk)]
  rfl

theorem isAt (kind : TokenKind) :
    Takes l d k k (ScriptParser.isAt kind) (Loops.isAt l.all kind)
      (decide ((l.tokenAt k).kind = kind)) :=
  peek.bind (.pure _)

theorem isAtWord (word : String) :
    Takes l d k k (ScriptParser.isAtWord word) (Loops.isAtWord l.all word)
      (decide ((l.tokenAt k).kind = .ident) && decide ((l.tokenAt k).text = word)) :=
  peek.bind (.pure _)

theorem isAtType :
    Takes l d k k ScriptParser.isAtType (Loops.isAtType l.all)
      (decide ((l.tokenAt k).kind = .ident) && (ValueType.ofName? (l.tokenAt k).text).isSome) :=
  peek.bind (.pure _)

/-- Before the end, a token is read. -/
theorem advance (hl : l.Closed) (hk : k < l.tokens.length) :
    Takes l d k (k + 1) ScriptParser.advance (Loops.advance l.all) (l.tokenAt k) := by
  refine ⟨?_, ?_⟩
  · intro noted
    rw [ScriptParser.advance_apply, l.headD_stateAt, Lexed.stateAt_advanced hk]
  · intro events
    have hroom : k + 1 < l.all.length := by
      rw [Lexed.length_all]
      omega
    rw [Loops.advance, Loops.bind_of_some (peek.2 events), if_neg (hl.kind_ne_eof hk),
      Loops.bind_of_some (Loops.run_get _), if_pos hroom]
    rfl

/-- The end is read without a step. -/
theorem advance_end (hl : l.Closed) : Takes l d l.tokens.length l.tokens.length
    ScriptParser.advance (Loops.advance l.all) l.ending := by
  refine ⟨?_, ?_⟩
  · intro noted
    have hahead : (l.stateAt l.tokens.length noted).ahead = [] := by
      rw [Lexed.stateAt, List.drop_length]
    rw [ScriptParser.advance_apply, l.headD_stateAt, l.tokenAt_length, ParseState.advanced, hahead]
  · intro events
    have hpeek := (peek (l := l) (d := d) (k := l.tokens.length)).2 events
    rw [l.tokenAt_length] at hpeek
    rw [Loops.advance, Loops.bind_of_some hpeek, if_pos hl.ending]
    rfl

end Takes

namespace Agrees

variable {P : Nat → Prop}

/-- To read a token of a kind, if one is there, is a step, and else it is a look. -/
theorem eat (hl : l.Closed) {kind : TokenKind} (hkind : kind ≠ .eof) (hc : c ≤ 1)
    {f : Bool → ScriptParser β} {g : Bool → LoopParser β}
    (hyes : Agrees l d 0 P (k + 1) (f true) (g true)) (hno : Agrees l d c P k (f false) (g false)) :
    Agrees l d c P k (ScriptParser.eat kind >>= f) (liftM (Loops.eat l.all kind) >>= g) := by
  intro hk
  by_cases hat : (l.tokenAt k).kind = kind
  · have hlt : k < l.tokens.length := hl.lt_of_kind hk (by rw [hat]; exact hkind)
    have htake : Takes l d k (k + 1) (ScriptParser.eat kind) (Loops.eat l.all kind) true := by
      refine (Takes.isAt kind).bind ?_
      rw [decide_eq_true hat]
      exact (Takes.advance hl hlt).bind (.pure true)
    exact (step htake hlt hyes).mono hc (fun _ h => h) hk
  · have hlook : Takes l d k k (ScriptParser.eat kind) (Loops.eat l.all kind) false := by
      refine (Takes.isAt kind).bind ?_
      rw [decide_eq_false hat]
      exact .pure false
    exact look hlook hno hk

/-- A token that has to stand here is read. -/
theorem expect (hl : l.Closed) {kind : TokenKind} (hkind : kind ≠ .eof) (what : String) :
    Agrees l d 1 Anywhere k (ScriptParser.expect kind what) (Loops.expect l.all kind what) := by
  intro hk
  refine look (Takes.isAt kind) ?_ hk
  by_cases hat : (l.tokenAt k).kind = kind
  · have hlt : k < l.tokens.length := hl.lt_of_kind hk (by rw [hat]; exact hkind)
    rw [decide_eq_true hat]
    exact (take (Takes.advance hl hlt) hlt).mono (Nat.le_refl 1) fun _ _ => trivial
  · rw [decide_eq_false hat]
    exact look .peek (fail _ _)

theorem valueType (hl : l.Closed) :
    Agrees l d 1 Anywhere k ScriptParser.valueType (Loops.valueType l.all) := by
  intro hk
  refine look .peek ?_ hk
  cases htype : if (l.tokenAt k).kind = .ident then ValueType.ofName? (l.tokenAt k).text else none with
  | none => exact fail _ _
  | some type =>
      have hlt : k < l.tokens.length := by
        refine hl.lt_of_kind hk fun hend => ?_
        rw [hend] at htype
        cases htype
      exact step (Takes.advance hl hlt) hlt (pure type trivial)

/-- A literal is read from its token alone. -/
theorem literal {read : Token → ScriptParser Expr} {t : Token}
    (h : (∃ e, read t = Pure.pure e) ∨ ∃ problem span, read t = ScriptParser.fail problem span) :
    Agrees l d 0 Anywhere k (read t) (Loops.literal read t) := by
  rcases h with ⟨e, h⟩ | ⟨problem, span, h⟩
  · rw [Loops.literal, h]
    exact pure e trivial
  · rw [Loops.literal, h]
    exact fail problem span

theorem previousSpan {f : Span → ScriptParser β} {g : Span → LoopParser β}
    (h : Agrees l d c P k (f (l.tokenAt (k - 1)).span) (g (l.tokenAt (k - 1)).span)) :
    Agrees l d c P k (ScriptParser.previousSpan >>= f)
      (liftM (Loops.previousSpan l.all) >>= g) :=
  fun hk => look (Takes.previousSpan hk) h hk

/-- Where a parser leaves the tokens that does not fail. -/
theorem leaves {p : ScriptParser α} {q : LoopParser α} {noted : List Diagnostic} {a : α}
    {t : ParseState} (hp : Agrees l d c P k p q) (hk : k ≤ l.tokens.length)
    (h : p (l.stateAt k noted) = .ok a t) :
    ∃ k' noted', k + c ≤ k' ∧ k' ≤ l.tokens.length ∧ P k' ∧ t = l.stateAt k' noted' := by
  obtain ⟨r, k', more, hk', hpaid, hP, hrun, -⟩ := hp hk noted
  rw [hrun] at h
  cases r with
  | error e => cases h
  | ok b =>
      rcases hpaid with hpaid | ⟨⟨e, he⟩, -⟩
      · exact ⟨k', _, by omega, hk', hP b rfl, (EStateM.Result.ok.inj h).2.symm⟩
      · cases he

/-- To read the number of tokens left is no part of the walk. -/
theorem remaining {f : Nat → ScriptParser β} {q : LoopParser β}
    (h : Agrees l d c P k (f (l.tokens.length - k)) q) :
    Agrees l d c P k (ScriptParser.remaining >>= f) q :=
  h.congr fun _ noted => bind_of_ok (l.remaining_stateAt k noted)

/-! ## Levels -/

/-- Where no levels are left, nothing is read. -/
theorem nested_deep {q : LoopParser α} (hd : maxNesting ≤ d) (problem : Problem) :
    Agrees l d c P k (do ScriptParser.fail problem (← ScriptParser.peek).span)
      (Loops.nested l.all problem q) := by
  intro hk noted
  refine ⟨.error (.error problem (l.tokenAt k).span), k, [], hk, .inr ⟨⟨_, rfl⟩, rfl, rfl⟩, nofun,
    ?_, ?_⟩
  · rw [bind_of_ok ((Takes.peek (d := d)).1 noted), List.append_nil]
    rfl
  · intro events
    have henter : (Loops.enter l.all problem).run.run ⟨k, d, events⟩
        = some (.error (.error problem (l.tokenAt k).span), ⟨k, d, events⟩) := by
      have hpeek := Loops.run_liftM ((Takes.peek (l := l) (d := d) (k := k)).2 events)
      refine (Loops.bind_of_ok (Loops.run_liftM (Loops.run_get _))).trans ?_
      rw [if_pos hd]
      exact (Loops.bind_of_ok hpeek).trans rfl
    rw [List.map_nil, List.append_nil]
    exact (Loops.bind_of_some henter).trans rfl

/-- A level that was gone down is gone up again. -/
theorem nested {p : ScriptParser α} {q : LoopParser α} (hd : d < maxNesting) (problem : Problem)
    (hp : Agrees l (d + 1) c P k p q) : Agrees l d c P k p (Loops.nested l.all problem q) := by
  intro hk noted
  obtain ⟨r, k', more, hk', hpaid, hP, hrun, hwalk⟩ := hp hk noted
  refine ⟨r, k', more, hk', hpaid, hP, hrun, ?_⟩
  intro events
  have henter : (Loops.enter l.all problem).run.run ⟨k, d, events⟩
      = some (.ok (), ⟨k, d + 1, events⟩) := by
    refine (Loops.bind_of_ok (Loops.run_liftM (Loops.run_get _))).trans ?_
    rw [if_neg (Nat.not_le.mpr hd)]
    rfl
  refine (Loops.bind_of_some henter).trans ?_
  refine (Loops.bind_of_some (hwalk events)).trans ?_
  rfl

end Agrees

/-! ## Turns of a loop -/

/-- From position `k` on, a parser and a walk come to the same, further on, and do not fail.  They pay
with a token for every problem that they note, and for what they read. -/
def Turns (l : Lexed) (d k : Nat) (p : ScriptParser (Option α)) (w : TokenWalk (Option α)) : Prop :=
  ∀ noted, ∃ a k' more, k < k' ∧ k' ≤ l.tokens.length ∧ more.length + a.toList.length + k ≤ k' ∧
    p (l.stateAt k noted) = .ok a (l.stateAt k' (noted ++ more)) ∧
    ∀ events, w.run ⟨k, d, events⟩ = some (a, ⟨k', d, events ++ more.map .problem⟩)

/-- To skip is to go further on, unless it is not to go at all. -/
def Skips (l : Lexed) (d k : Nat) (stay : Prop) (resume : ScriptParser Unit) (skip : TokenWalk Unit) :
    Prop :=
  ∃ k', k ≤ k' ∧ k' ≤ l.tokens.length ∧ (¬stay → k < k') ∧ Takes l d k k' resume skip ()

/-- A turn reads what costs a token, or skips it if it is broken.  If it fails at once, the skipped
tokens pay for the note. -/
theorem Agrees.recover {P : Nat → Prop} {p : ScriptParser α} {q : LoopParser α}
    {resume : ScriptParser Unit} {skip : TokenWalk Unit} (stay : Nat → Prop) (hk : k < l.tokens.length)
    (hp : Agrees l d 1 P k p q) (hstay : ¬stay k)
    (hskip : ∀ j, j ≤ l.tokens.length → Skips l d j (stay j) resume skip) :
    Turns l d k (ScriptParser.recover p resume) (Loops.recovering q skip) := by
  intro noted
  obtain ⟨r, k', more, hk', hpaid, -, hrun, hwalk⟩ := hp (Nat.le_of_lt hk) noted
  cases r with
  | ok a =>
      rcases hpaid with hpaid | ⟨⟨e, he⟩, -⟩
      · have hpays : more.length + (some a).toList.length + k ≤ k' := by
          rw [Option.toList_some, List.length_singleton]
          exact hpaid
        refine ⟨some a, k', more, by omega, hk', hpays, ?_, ?_⟩
        · rw [ScriptParser.recover, hrun]
          rfl
        · intro events
          exact Loops.bind_of_some (hwalk events)
      · cases he
  | error e =>
      obtain ⟨k'', hle, hk'', hgo, hresume, hwalk'⟩ := hskip k' hk'
      have hpays : k < k'' ∧ more.length + 1 + k ≤ k'' := by
        rcases hpaid with hpaid | ⟨-, rfl, rfl⟩
        · omega
        · have hlt := hgo hstay
          rw [List.length_nil]
          omega
      refine ⟨none, k'', more ++ [e], hpays.1, hk'', ?_, ?_, ?_⟩
      · rw [List.length_append, List.length_singleton, Option.toList_none, List.length_nil]
        exact hpays.2
      · have hnote : ScriptParser.note e (l.stateAt k' (noted ++ more))
            = .ok () (l.stateAt k' (noted ++ (more ++ [e]))) := by
          rw [← List.append_assoc]
          rfl
        rw [ScriptParser.recover, hrun]
        refine (bind_of_ok hnote).trans ?_
        exact bind_of_ok (hresume _)
      · intro events
        have hnote : (Loops.note (.problem e)).run ⟨k', d, events ++ more.map .problem⟩
            = some ((), ⟨k', d, events ++ (more ++ [e]).map .problem⟩) := by
          rw [List.map_append, ← List.append_assoc]
          rfl
        refine (Loops.bind_of_some (hwalk events)).trans ?_
        refine (Loops.bind_of_some hnote).trans ?_
        exact Loops.bind_of_some (hwalk' _)

/-- A turn is a part of a sequence. -/
theorem Turns.agrees {p : ScriptParser (Option α)} {w : TokenWalk (Option α)} (h : Turns l d k p w) :
    Agrees l d 0 (fun k' => k < k') k p (liftM w) := by
  intro _ noted
  obtain ⟨a, k', more, hlt, hk', hpays, hrun, hwalk⟩ := h noted
  exact ⟨.ok a, k', more, hk', .inl (by omega), fun _ _ => hlt, hrun,
    fun events => Loops.run_liftM (hwalk events)⟩

end Nss
