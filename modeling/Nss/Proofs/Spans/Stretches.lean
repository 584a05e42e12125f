/-
# Stretches of tokens

The tokens of a script stand in the order of their spans.  So what begins no earlier than the token at
one position and ends no later than the one before another position lies between these positions
(`Lexed.Stretch`), whatever it was put together from: a span that goes from the first of the tokens to
the last of them covers all that lies there.

`Comes` follows a parser from a position.  It says that the parser comes to one that is not before it,
that every diagnostic on the way is about a token, and what there is to say of the result at the
position that it comes to.
-/
import Nss.Proofs.Spans.Trees
import Nss.Proofs.Recovery.Positions

namespace Nss

open Steps

/-! ## Tokens in order -/

namespace Lexed

/-- The tokens stand one behind the other in a script, the end last. -/
structure InOrder (l : Lexed) (source : String) : Prop where
  closed : l.Closed
  valid : ∀ k, (l.tokenAt k).span.Valid source
  ordered : ∀ {j k}, j < k → (l.tokenAt j).span.stop ≤ (l.tokenAt k).span.start

theorem ofSource_inOrder (source : String) : (ofSource source).InOrder source := by
  have hending : (ofSource source).ending.span = ⟨source.utf8ByteSize, source.utf8ByteSize⟩ := by
    rw [utf8ByteSize_eq]
    rfl
  have hholds : Span.Holds ⟨source.utf8ByteSize, source.utf8ByteSize⟩ source [] := by
    refine ⟨source.toList, [], (List.append_nil _).symm, ?_⟩
    rw [utf8ByteSize_eq]
    rfl
  have hvalid : ∀ k, ((ofSource source).tokenAt k).span.Valid source := by
    intro k
    rcases Nat.lt_or_ge k (ofSource source).tokens.length with hk | hk
    · obtain ⟨text, -, -, hholds, -⟩ := ofSource_token (List.getElem_mem hk)
      rw [tokenAt_of_lt hk]
      exact hholds.valid
    · rw [tokenAt_of_length_le hk, hending]
      exact hholds.valid
  refine ⟨ofSource_closed source, hvalid, ?_⟩
  intro j k hjk
  rcases Nat.lt_or_ge k (ofSource source).tokens.length with hk | hk
  · rw [tokenAt_of_lt hk, tokenAt_of_lt (Nat.lt_trans hjk hk)]
    exact List.pairwise_iff_getElem.mp (ofSource_cuts source).ordered j k _ _ hjk
  · rw [tokenAt_of_length_le hk, hending]
    exact (hvalid j).inside

/-- A span lies between the token at one position and the one before another position. -/
structure Stretch (l : Lexed) (source : String) (k k' : Nat) (s : Span) : Prop where
  forward : k < k'
  valid : s.Valid source
  start : (l.tokenAt k).span.start ≤ s.start
  stop : s.stop ≤ (l.tokenAt (k' - 1)).span.stop

section

variable {l : Lexed} {source : String} {j j' k k' : Nat} {s t : Span}

namespace InOrder

variable (hl : l.InOrder source)

include hl

theorem start_le (h : j ≤ k) : (l.tokenAt j).span.start ≤ (l.tokenAt k).span.start := by
  rcases Nat.lt_or_eq_of_le h with hlt | rfl
  · exact Nat.le_trans (hl.valid j).ordered (hl.ordered hlt)
  · exact Nat.le_refl _

theorem stop_le (h : j ≤ k) : (l.tokenAt j).span.stop ≤ (l.tokenAt k).span.stop := by
  rcases Nat.lt_or_eq_of_le h with hlt | rfl
  · exact Nat.le_trans (hl.ordered hlt) (hl.valid k).ordered
  · exact Nat.le_refl _

theorem token (k : Nat) : l.Stretch source k (k + 1) (l.tokenAt k).span :=
  ⟨Nat.lt_succ_self k, hl.valid k, Nat.le_refl _, Nat.le_refl _⟩

end InOrder

namespace Stretch

/-- What lies in a stretch lies in a longer one. -/
theorem mono (h : l.Stretch source j j' s) (hl : l.InOrder source) (hk : k ≤ j) (hk' : j' ≤ k') :
    l.Stretch source k k' s where
  forward := Nat.lt_of_le_of_lt hk (Nat.lt_of_lt_of_le h.forward hk')
  valid := h.valid
  start := Nat.le_trans (hl.start_le hk) h.start
  stop := Nat.le_trans h.stop (hl.stop_le (Nat.sub_le_sub_right hk' 1))

theorem cover (hs : l.Stretch source k k' s) (ht : l.Stretch source k k' t) :
    l.Stretch source k k' (s.cover t) where
  forward := hs.forward
  valid := hs.valid.cover ht.valid
  start := Nat.le_min.mpr ⟨hs.start, ht.start⟩
  stop := Nat.max_le.mpr ⟨hs.stop, ht.stop⟩

/-- From the first to the last token of a stretch. -/
theorem ends (hl : l.InOrder source) (h : k < k') :
    l.Stretch source k k' ((l.tokenAt k).span.cover (l.tokenAt (k' - 1)).span) := by
  have hlast : k' - 1 + 1 ≤ k' := by omega
  exact ((hl.token k).mono hl (Nat.le_refl k) h).cover
    ((hl.token (k' - 1)).mono hl (Nat.le_sub_one_of_lt h) hlast)

/-- What lies in a stretch does not reach beyond its first and its last token. -/
theorem within_ends (h : l.Stretch source k k' s) :
    s.Within ((l.tokenAt k).span.cover (l.tokenAt (k' - 1)).span) :=
  ⟨Nat.le_trans (Nat.min_le_left _ _) h.start, Nat.le_trans h.stop (Nat.le_max_right _ _)⟩

theorem of_within (h : l.Stretch source k k' s) (ht : t.Valid source) (hts : t.Within s) :
    l.Stretch source k k' t :=
  ⟨h.forward, ht, Nat.le_trans h.start hts.1, Nat.le_trans hts.2 h.stop⟩

end Stretch

end

/-- A diagnostic is about a token. -/
def Blames (l : Lexed) (d : Diagnostic) : Prop := ∃ k, d.span = (l.tokenAt k).span

end Lexed

/-! ## Following a parser -/

variable {α β : Type} {l : Lexed} {k : Nat}

/-- From a position a parser comes to a later one, or stays, and every diagnostic of it is about a
token.  If it does not fail, its result and the position that it comes to have a property. -/
def Comes (l : Lexed) (k : Nat) (Q : Nat → α → Prop) (p : ScriptParser α) : Prop :=
  k ≤ l.tokens.length → ∀ noted, ∃ r k' more, k ≤ k' ∧ k' ≤ l.tokens.length ∧
    p (l.stateAt k noted) = leaving r (l.stateAt k' (noted ++ more)) ∧ (∀ d ∈ more, l.Blames d) ∧
    (∀ a, r = .ok a → Q k' a) ∧ ∀ d, r = .error d → l.Blames d

namespace Comes

variable {Q : Nat → α → Prop} {R : Nat → β → Prop} {p : ScriptParser α} {f : α → ScriptParser β}

theorem pure {a : α} (h : Q k a) : Comes l k Q (Pure.pure a) := by
  intro hk noted
  refine ⟨.ok a, k, [], Nat.le_refl k, hk, ?_, List.forall_mem_nil _, ?_, fun _ h => by cases h⟩
  · rw [List.append_nil]
    rfl
  · rintro _ ⟨⟩
    exact h

theorem fail (problem : Problem) {span : Span} {j : Nat} (h : span = (l.tokenAt j).span) :
    Comes l k Q (ScriptParser.fail problem span) := by
  intro hk noted
  refine ⟨.error (.error problem span), k, [], Nat.le_refl k, hk, ?_, List.forall_mem_nil _,
    (fun _ h => by cases h), ?_⟩
  · rw [List.append_nil]
    rfl
  · rintro _ ⟨⟩
    exact ⟨j, h⟩

theorem bind (hp : Comes l k Q p) (hf : ∀ a k', k ≤ k' → Q k' a → Comes l k' R (f a)) :
    Comes l k R (p >>= f) := by
  intro hk noted
  obtain ⟨r, k', more, hle, hk', hrun, hmore, hok, herror⟩ := hp hk noted
  cases r with
  | error d =>
      refine ⟨.error d, k', more, hle, hk', ?_, hmore, (fun _ h => by cases h), ?_⟩
      · rw [bind_apply, hrun]
        rfl
      · rintro _ ⟨⟩
        exact herror d rfl
  | ok a =>
      obtain ⟨r', k'', more', hle', hk'', hrun', hmore', hrest⟩ :=
        hf a k' hle (hok a rfl) hk' (noted ++ more)
      refine ⟨r', k'', more ++ more', Nat.le_trans hle hle', hk'', ?_, ?_, hrest⟩
      · rw [bind_of_ok hrun, hrun', List.append_assoc]
      · exact List.forall_mem_append.mpr ⟨hmore, hmore'⟩

theorem map {u : α → β} (hp : Comes l k Q p) (hu : ∀ a k', Q k' a → R k' (u a)) :
    Comes l k R (u <$> p) := by
  rw [← bind_pure_comp]
  exact hp.bind fun a k' _ ha => .pure (hu a k' ha)

/-- What is read without a note leads to what is done then. -/
theorem reads {a : α} {k' : Nat} (h : l.Reads p k a k') (hle : k ≤ k') (hk' : k' ≤ l.tokens.length)
    (hf : Comes l k' R (f a)) : Comes l k R (p >>= f) := by
  intro _ noted
  obtain ⟨r, k'', more, hle', hk'', hrun, hrest⟩ := hf hk' noted
  refine ⟨r, k'', more, Nat.le_trans hle hle', hk'', ?_, hrest⟩
  rw [bind_of_ok (h noted), hrun]

/-- To look at the tokens is to stay. -/
theorem look {a : α} (h : l.Reads p k a k) (hf : Comes l k R (f a)) : Comes l k R (p >>= f) :=
  fun hk => reads h (Nat.le_refl k) hk hf hk

theorem step {f : Token → ScriptParser β} (hl : l.Closed) (hk : k < l.tokens.length)
    (hf : Comes l (k + 1) R (f (l.tokenAt k))) : Comes l k R (ScriptParser.advance >>= f) :=
  reads (hl.reads_advance hk) (Nat.le_succ k) hk hf

theorem previousSpan {f : Span → ScriptParser β} (hf : Comes l k R (f (l.tokenAt (k - 1)).span)) :
    Comes l k R (ScriptParser.previousSpan >>= f) :=
  look (l.reads_previousSpan k) hf

theorem remaining {f : Nat → ScriptParser β} (hf : ∀ n, Comes l k R (f n)) :
    Comes l k R (ScriptParser.remaining >>= f) :=
  look (fun noted => l.remaining_stateAt k noted) (hf _)

theorem eat {f : Bool → ScriptParser β} (hl : l.Closed) {kind : TokenKind} (hkind : kind ≠ .eof)
    (htrue : k < l.tokens.length → Comes l (k + 1) R (f true)) (hfalse : Comes l k R (f false)) :
    Comes l k R (ScriptParser.eat kind >>= f) := by
  by_cases h : (l.tokenAt k).kind = kind
  · have hk : k < l.tokens.length := hl.lt_length_of_kind (h ▸ hkind)
    exact reads (hl.reads_eat hk h) (Nat.le_succ k) hk (htrue hk)
  · exact look (l.reads_eat_other h) hfalse

theorem expect {f : Token → ScriptParser β} (hl : l.Closed) {kind : TokenKind} (hkind : kind ≠ .eof)
    (what : String) (hf : Comes l (k + 1) R (f (l.tokenAt k))) :
    Comes l k R (ScriptParser.expect kind what >>= f) := by
  by_cases h : (l.tokenAt k).kind = kind
  · have hk : k < l.tokens.length := hl.lt_length_of_kind (h ▸ hkind)
    exact reads (hl.reads_expect hk h what) (Nat.le_succ k) hk hf
  · intro hk noted
    refine ⟨.error (.error (.expected what) (l.tokenAt k).span), k, [], Nat.le_refl k, hk, ?_,
      List.forall_mem_nil _, (fun _ h => by cases h), ?_⟩
    · rw [bind_apply, l.fails_expect h what noted, List.append_nil]
      rfl
    · rintro _ ⟨⟩
      exact ⟨k, rfl⟩

theorem valueType {f : ValueType → ScriptParser β} (hl : l.Closed)
    (hf : ∀ type, Comes l (k + 1) R (f type)) : Comes l k R (ScriptParser.valueType >>= f) := by
  rw [ScriptParser.valueType, bind_assoc]
  refine look (l.reads_peek k) ?_
  split
  · next type htype =>
      have hident : (l.tokenAt k).kind = .ident := by
        by_contra hother
        rw [if_neg hother] at htype
        cases htype
      rw [bind_assoc]
      refine step hl (hl.lt_length_of_kind (by rw [hident]; decide)) ?_
      exact look (fun _ => rfl) (hf type)
  · exact bind (Q := fun _ _ => False) (.fail _ rfl) fun _ _ _ h => h.elim

/-- A parser that fails has its diagnostic noted and is resumed somewhere behind. -/
theorem recover {resume : ScriptParser Unit} (hp : Comes l k Q p)
    (hresume : ∀ j ≤ l.tokens.length, ∃ j', j ≤ j' ∧ j' ≤ l.tokens.length ∧ l.Reads resume j () j') :
    Comes l k (fun k' read => ∀ a, read = some a → Q k' a) (ScriptParser.recover p resume) := by
  intro hk noted
  obtain ⟨r, k', more, hle, hk', hrun, hmore, hok, herror⟩ := hp hk noted
  cases r with
  | ok a =>
      refine ⟨.ok (some a), k', more, hle, hk', ?_, hmore, ?_, fun _ h => by cases h⟩
      · rw [ScriptParser.recover, hrun]
        rfl
      · rintro _ ⟨⟩ b hb
        obtain rfl := Option.some.inj hb
        exact hok a rfl
  | error d =>
      obtain ⟨k'', hle', hk'', hresumed⟩ := hresume k' hk'
      have hnote : ScriptParser.note d (l.stateAt k' (noted ++ more))
          = .ok () (l.stateAt k' (noted ++ (more ++ [d]))) := by
        rw [← List.append_assoc]
        rfl
      refine ⟨.ok none, k'', more ++ [d], Nat.le_trans hle hle', hk'', ?_, ?_, ?_,
        fun _ h => by cases h⟩
      · rw [ScriptParser.recover, hrun]
        refine (bind_of_ok hnote).trans ?_
        exact bind_of_ok (hresumed _)
      · exact List.forall_mem_append.mpr ⟨hmore, List.forall_mem_singleton.mpr (herror d rfl)⟩
      · rintro _ ⟨⟩ b ⟨⟩

end Comes

end Nss
