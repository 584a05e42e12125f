/-
# Spans of what is read

What a parser reads lies between the position that it begins at and the one that it comes to, and so
does all that it is put together from.  Every span of a tree is that of a token, or goes from a first
token of the tree to a last one, or covers two operands: so it covers what is below it.

That holds of trees that are read behind broken ones and between them, since a parser that has skipped
what is broken goes on at a later position.
-/
import Nss.Proofs.Spans.Stretches

namespace Nss

variable {l : Lexed} {source : String} {j j' k k' : Nat}

/-! ## Expressions between two positions -/

namespace Expr

/-- An expression was read between two positions. -/
structure Read (l : Lexed) (source : String) (k k' : Nat) (e : Expr) : Prop where
  nested : e.Nested source
  stretch : l.Stretch source k k' e.span

/-- Expressions were read between two positions. -/
abbrev AllRead (l : Lexed) (source : String) (k k' : Nat) (es : List Expr) : Prop :=
  ∀ e ∈ es, e.Read l source k k'

namespace Read

variable {e : Expr}

theorem mono (h : e.Read l source j j') (hl : l.InOrder source) (hk : k ≤ j) (hk' : j' ≤ k') :
    e.Read l source k k' :=
  ⟨h.nested, h.stretch.mono hl hk hk'⟩

theorem of_children (hspan : l.Stretch source k k' e.span)
    (h : ∀ c ∈ e.children, c.Nested source ∧ c.span.Within e.span) : e.Read l source k k' :=
  ⟨nested_of_children hspan.valid h, hspan⟩

/-- What was read from the first to the last token of a stretch goes around all that was read there. -/
theorem of_ends (hl : l.InOrder source) (hlt : k < k')
    (hspan : e.span = (l.tokenAt k).span.cover (l.tokenAt (k' - 1)).span)
    (h : AllRead l source k k' e.children) : e.Read l source k k' := by
  refine of_children (hspan ▸ .ends hl hlt) fun c hc => ⟨(h c hc).nested, ?_⟩
  rw [hspan]
  exact (h c hc).stretch.within_ends

/-- In parentheses, which are the first and the last token, an expression takes their span. -/
theorem withSpan (hl : l.InOrder source) (h : e.Read l source k k') :
    (e.withSpan ((l.tokenAt k).span.cover (l.tokenAt (k' - 1)).span)).Read l source k k' := by
  have hends := Lexed.Stretch.ends hl h.stretch.forward
  refine ⟨h.nested.withSpan hends.valid h.stretch.within_ends, ?_⟩
  rw [span_withSpan]
  exact hends

end Read

namespace AllRead

variable {es : List Expr}

theorem mono (h : AllRead l source j j' es) (hl : l.InOrder source) (hk : k ≤ j) (hk' : j' ≤ k') :
    AllRead l source k k' es :=
  fun e he => (h e he).mono hl hk hk'

theorem allParts (h : AllRead l source k k' es) : ∀ x ∈ allParts es,
    l.Stretch source k k' x.span ∧ ∀ y ∈ x.parts, y.span.Within x.span := by
  intro x hx
  rw [allParts_eq] at hx
  obtain ⟨e, he, hx⟩ := List.mem_flatMap.mp hx
  obtain ⟨hnested, hstretch⟩ := h e he
  obtain ⟨hvalid, hwithin⟩ := hnested x hx
  exact ⟨hstretch.of_within hvalid (hnested.within x hx), hwithin⟩

end AllRead

end Expr

/-! ## Literals -/

namespace Literal

theorem string_fromToken (t : Token) : FromToken t (pure (string t)) := .inl ⟨_, rfl, rfl, rfl⟩

theorem word_fromToken {t : Token} {constant : Expr} (h : word? t = some constant) :
    FromToken t (pure constant) := by
  rw [word?] at h
  split at h <;> cases h <;> exact .inl ⟨_, rfl, rfl, rfl⟩

/-- Behind its token a literal lies in the stretch of that token. -/
theorem FromToken.comes (hl : l.InOrder source) {p : ScriptParser Expr}
    (h : FromToken (l.tokenAt k) p) : Comes l (k + 1) (Expr.Read l source k) p := by
  rcases h with ⟨e, rfl, hchildren, hspan⟩ | ⟨problem, rfl⟩
  · have hstretch := hl.token k
    rw [← hspan] at hstretch
    exact .pure ⟨Expr.nested_leaf hchildren hstretch.valid, hstretch⟩
  · exact .fail problem rfl

end Literal

/-! ## Reading expressions -/

namespace Expr

theorem span_applyUnary (op : UnaryOp) (x : Expr) (span : Span) : (applyUnary op x span).span = span := by
  unfold applyUnary
  split <;> rfl

theorem eq_of_mem_children_applyUnary {op : UnaryOp} {x c : Expr} {span : Span}
    (h : c ∈ (applyUnary op x span).children) : c = x := by
  unfold applyUnary at h
  split at h
  · cases h
  · cases h
  · exact List.mem_singleton.mp h

theorem read_binary {left right : Expr} (op : BinaryOp) (hleft : left.Read l source k k')
    (hright : right.Read l source k k') :
    (binary op left right (left.span.cover right.span)).Read l source k k' := by
  refine .of_children (hleft.stretch.cover hright.stretch) fun c hc => ?_
  rw [children, List.mem_cons, List.mem_singleton] at hc
  rcases hc with rfl | rfl
  · exact ⟨hleft.nested, Span.within_cover_left _ _⟩
  · exact ⟨hright.nested, Span.within_cover_right _ _⟩

theorem read_applyUnary {x : Expr} {sign : Span} (op : UnaryOp) (hsign : l.Stretch source k k' sign)
    (hx : x.Read l source k k') : (applyUnary op x (sign.cover x.span)).Read l source k k' := by
  refine .of_children ?_ fun c hc => ?_
  · rw [span_applyUnary]
    exact hsign.cover hx.stretch
  · obtain rfl := eq_of_mem_children_applyUnary hc
    rw [span_applyUnary]
    exact ⟨hx.nested, Span.within_cover_right _ _⟩

variable {expr tighter : ScriptParser Expr}

/-- Every turn of a chain covers one operand more, by induction on the number of turns. -/
theorem chain_comes (hl : l.InOrder source) (looseness : Nat)
    (htighter : ∀ k, Comes l k (Expr.Read l source k) tighter) :
    ∀ fuel {j : Nat} {left : Expr}, left.Read l source k j →
      Comes l j (Expr.Read l source k) (chain looseness tighter fuel left)
  | 0, _, _, hleft => .pure hleft
  | fuel + 1, j, left, hleft => by
      rw [chain]
      refine .look (l.reads_peek j) ?_
      cases hop : BinaryOp.ofToken? (l.tokenAt j).kind with
      | none => exact .pure hleft
      | some op =>
          simp only
          split
          · refine .step hl.closed (lt_of_ofToken? hl.closed hop) ?_
            refine (htighter (j + 1)).bind fun right j' hj' hright => ?_
            -- what has been read so far is the left operand of the next turn
            have hforward := hleft.stretch.forward
            exact chain_comes hl looseness htighter fuel (read_binary op
              (hleft.mono hl (Nat.le_refl k) (by omega)) (hright.mono hl (by omega) (Nat.le_refl j')))
          · exact .pure hleft

theorem operations_comes (hl : l.InOrder source)
    (hexpr : ∀ k, Comes l k (Expr.Read l source k) expr) :
    ∀ n k, Comes l k (Expr.Read l source k) (operations expr n)
  | 0, k => hexpr k
  | n + 1, k => by
      rw [operations]
      refine (operations_comes hl hexpr n k).bind fun left j _ hleft => .remaining fun fuel => ?_
      exact chain_comes hl n (operations_comes hl hexpr n) fuel hleft

section

variable (hl : l.InOrder source) (hexpr : ∀ k, Comes l k (Expr.Read l source k) expr)

include hl hexpr

theorem argsLoop_comes : ∀ fuel {j : Nat} {before : List Expr}, k ≤ j →
    AllRead l source k j before → Comes l j (AllRead l source k) (argsLoop expr fuel before)
  | 0, _, _, _, hbefore => .pure hbefore
  | fuel + 1, j, before, hj, hbefore => by
      rw [argsLoop]
      refine (hexpr j).bind fun e j' hj' he => ?_
      have hall : ∀ j'', j' ≤ j'' → AllRead l source k j'' (before ++ [e]) := by
        intro j'' hj''
        refine List.forall_mem_append.mpr ⟨?_, List.forall_mem_singleton.mpr ?_⟩
        · exact AllRead.mono hbefore hl (Nat.le_refl k) (Nat.le_trans hj' hj'')
        · exact he.mono hl hj hj''
      refine .eat hl.closed (by decide) (fun _ => .pure (hall _ (Nat.le_succ j'))) ?_
      refine .expect hl.closed (by decide) _ ?_
      exact argsLoop_comes fuel (by omega) (hall _ (Nat.le_succ j'))

theorem args_comes (hj : k ≤ j) : Comes l j (AllRead l source k) (args expr) := by
  rw [args]
  refine .eat hl.closed (by decide) (fun _ => .pure (List.forall_mem_nil _)) ?_
  exact .remaining fun n => argsLoop_comes hl hexpr (n + 1) hj (List.forall_mem_nil _)

theorem ofWord_comes (k : Nat) :
    Comes l (k + 1) (Expr.Read l source k) (ofWord expr (l.tokenAt k)) := by
  rw [ofWord]
  cases hword : Literal.word? (l.tokenAt k) with
  | some constant => exact (Literal.word_fromToken hword).comes hl
  | none =>
      refine .eat hl.closed (by decide) (fun _ => ?_) ?_
      · refine (args_comes hl hexpr (Nat.le_add_right k 2)).bind fun arguments j hj hargs => ?_
        exact .previousSpan (.pure (.of_ends hl (by omega) rfl hargs))
      · exact .pure ⟨nested_leaf rfl (hl.token k).valid, hl.token k⟩

theorem primary_comes (k : Nat) : Comes l k (Expr.Read l source k) (primary expr) := by
  intro hk
  rw [primary]
  rcases Nat.lt_or_eq_of_le hk with hlt | rfl
  · refine Comes.step hl.closed hlt ?_ hk
    cases (l.tokenAt k).kind with
    | intLiteral => exact (Literal.int_fromToken _).comes hl
    | hexLiteral => exact (Literal.hex_fromToken _).comes hl
    | floatLiteral => exact (Literal.float_fromToken _).comes hl
    | stringLiteral => exact (Literal.string_fromToken _).comes hl
    | ident => exact ofWord_comes hl hexpr k
    | lParen =>
        refine (hexpr (k + 1)).bind fun inner j hj hinner => ?_
        refine .expect hl.closed (by decide) _ (.previousSpan (.pure ?_))
        exact (hinner.mono hl (Nat.le_succ k) (Nat.le_succ j)).withSpan hl
    | _ => exact .fail _ rfl
  · -- the end is read without a step, and is no operand
    refine Comes.look (Takes.advance_end (d := 0) hl.closed).1 ?_ hk
    rw [hl.closed.ending]
    exact .fail _ (by rw [l.tokenAt_length])

end

theorem operand_comes (hl : l.InOrder source) :
    ∀ n k, Comes l k (Expr.Read l source k) (operand n)
  | 0, k => .look (l.reads_peek k) (.fail _ rfl)
  | n + 1, k => by
      rw [operand]
      refine .look (l.reads_peek k) ?_
      cases hop : UnaryOp.ofToken? (l.tokenAt k).kind with
      | none => exact primary_comes hl (operations_comes hl (operand_comes hl n) 6) k
      | some op =>
          refine .step hl.closed (lt_of_unary hl.closed hop) ?_
          refine (operand_comes hl n (k + 1)).bind fun x j hj hx => .pure ?_
          exact read_applyUnary op ((hl.token k).mono hl (Nat.le_refl k) hj)
            (hx.mono hl (Nat.le_succ k) (Nat.le_refl j))

theorem parser_comes (hl : l.InOrder source) (n k : Nat) :
    Comes l k (Expr.Read l source k) (parser n) :=
  operations_comes hl (operand_comes hl n) 6 k

end Expr

/-! ## Statements between two positions -/

namespace Stmt

/-- The expressions of a statement itself, and its span if it knows it, lie between two positions, the
expressions within the span. -/
structure Fits (l : Lexed) (source : String) (k k' : Nat) (s : Stmt) : Prop where
  exprs : Expr.AllRead l source k k' s.exprs
  span : ∀ span, s.span? = some span → l.Stretch source k k' span
  within : ∀ span, s.span? = some span → ∀ e ∈ s.exprs, e.span.Within span

/-- A statement was read between two positions. -/
def Read (l : Lexed) (source : String) (k k' : Nat) (s : Stmt) : Prop :=
  ∀ t ∈ s.parts, t.Fits l source k k'

/-- Statements were read between two positions. -/
abbrev AllRead (l : Lexed) (source : String) (k k' : Nat) (ss : List Stmt) : Prop :=
  ∀ s ∈ ss, s.Read l source k k'

variable {s : Stmt} {ss : List Stmt}

namespace Fits

theorem mono (h : s.Fits l source j j') (hl : l.InOrder source) (hk : k ≤ j) (hk' : j' ≤ k') :
    s.Fits l source k k' where
  exprs := Expr.AllRead.mono h.exprs hl hk hk'
  span := fun span hspan => (h.span span hspan).mono hl hk hk'
  within := h.within

theorem of_no_span (hspan : s.span? = none) (h : Expr.AllRead l source k k' s.exprs) :
    s.Fits l source k k' where
  exprs := h
  span := by
    rw [hspan]
    exact nofun
  within := by
    rw [hspan]
    exact nofun

/-- What was read from the first to the last token of a stretch goes around all that was read there. -/
theorem of_ends (hl : l.InOrder source) (hlt : k < k')
    (hspan : s.span? = some ((l.tokenAt k).span.cover (l.tokenAt (k' - 1)).span))
    (h : Expr.AllRead l source k k' s.exprs) : s.Fits l source k k' where
  exprs := h
  span := by
    rw [hspan]
    rintro _ ⟨⟩
    exact .ends hl hlt
  within := by
    rw [hspan]
    rintro _ ⟨⟩
    exact fun e he => (h e he).stretch.within_ends

theorem within_allParts (h : s.Fits l source k k') {span : Span} (hspan : s.span? = some span) :
    ∀ x ∈ Expr.allParts s.exprs, x.span.Within span := by
  intro x hx
  rw [Expr.allParts_eq] at hx
  obtain ⟨e, he, hx⟩ := List.mem_flatMap.mp hx
  exact ((h.exprs e he).nested.within x hx).trans (h.within span hspan e he)

/-- Together with the statements right below it, a statement is read. -/
theorem read (h : s.Fits l source k k') (hchildren : AllRead l source k k' s.children) :
    s.Read l source k k' := by
  intro t ht
  rcases mem_parts_iff.mp ht with rfl | ⟨c, hc, ht⟩
  · exact h
  · exact hchildren c hc t ht

end Fits

theorem Read.mono (h : s.Read l source j j') (hl : l.InOrder source) (hk : k ≤ j) (hk' : j' ≤ k') :
    s.Read l source k k' :=
  fun t ht => (h t ht).mono hl hk hk'

theorem AllRead.mono (h : AllRead l source j j' ss) (hl : l.InOrder source) (hk : k ≤ j)
    (hk' : j' ≤ k') : AllRead l source k k' ss :=
  fun s hs => (h s hs).mono hl hk hk'

theorem AllRead.allParts (h : AllRead l source k k' ss) : ∀ t ∈ allParts ss, t.Fits l source k k' := by
  intro t ht
  obtain ⟨s, hs, ht⟩ := mem_allParts_iff.mp ht
  exact h s hs t ht

theorem read_block (h : AllRead l source k k' ss) : (block ss).Read l source k k' :=
  (Fits.of_no_span rfl (List.forall_mem_nil _)).read h

/-! ## Reading statements -/

variable {expr : ScriptParser Expr} {stmt : ScriptParser Stmt}

section

variable (hl : l.InOrder source) (hexpr : ∀ k, Comes l k (Expr.Read l source k) expr)

include hl hexpr

theorem condition_comes (after : String) (k : Nat) :
    Comes l k (Expr.Read l source k) (condition expr after) := by
  rw [condition]
  refine .expect hl.closed (by decide) _ ?_
  refine (hexpr (k + 1)).bind fun cond j _ hcond => .expect hl.closed (by decide) _ (.pure ?_)
  exact hcond.mono hl (Nat.le_succ k) (Nat.le_succ j)

theorem initializer_comes (hj : k ≤ j) :
    Comes l j (fun k' init => Expr.AllRead l source k k' init.toList) (initializer expr) := by
  rw [initializer]
  refine .eat hl.closed (by decide) (fun _ => ?_) (.pure (List.forall_mem_nil _))
  refine (hexpr (j + 1)).map fun e j' he => List.forall_mem_singleton.mpr ?_
  exact he.mono hl (Nat.le_succ_of_le hj) (Nat.le_refl j')

theorem returned_comes (hk : k < l.tokens.length) :
    Comes l k (Stmt.Read l source k) (returned expr) := by
  rw [returned]
  refine .step hl.closed hk (.look (l.reads_isAt .semi (k + 1)) ?_)
  have hrest (value : Option Expr) (j : Nat) (hj : k ≤ j)
      (hvalue : Expr.AllRead l source k j value.toList) :
      Comes l j (Stmt.Read l source k) (do
        let _ ← ScriptParser.expect .semi "\";\" after return"
        return ret value ((l.tokenAt k).span.cover (← ScriptParser.previousSpan))) := by
    refine .expect hl.closed (by decide) _ (.previousSpan (.pure ?_))
    exact (Fits.of_ends hl (by omega) rfl (hvalue.mono hl (Nat.le_refl k) (Nat.le_succ j))).read
      (List.forall_mem_nil _)
  cases decide ((l.tokenAt (k + 1)).kind = .semi) with
  | true => exact hrest none (k + 1) (Nat.le_succ k) (List.forall_mem_nil _)
  | false =>
      have hvalue : Comes l (k + 1) (fun j value => Expr.AllRead l source k j value.toList)
          (some <$> expr) :=
        (hexpr (k + 1)).map fun e j he =>
          List.forall_mem_singleton.mpr (he.mono hl (Nat.le_succ k) (Nat.le_refl j))
      exact hvalue.bind fun value j hj h => hrest value j (by omega) h

theorem localVariable_comes (k : Nat) : Comes l k (Stmt.Read l source k) (localVariable expr) := by
  rw [localVariable]
  refine .look (l.reads_peek k) (.valueType hl.closed fun type => ?_)
  cases type.isVoid with
  | true => exact .fail _ rfl
  | false =>
      refine .expect hl.closed (by decide) _ ?_
      refine (initializer_comes hl hexpr (Nat.le_add_right k 2)).bind fun init j hj hinit => ?_
      refine .expect hl.closed (by decide) _ (.previousSpan (.pure ?_))
      exact (Fits.of_ends hl (by omega) rfl (hinit.mono hl (Nat.le_refl k) (Nat.le_succ j))).read
        (List.forall_mem_nil _)

theorem assignment_comes (hk : k < l.tokens.length) (hassign : (l.tokenAt (k + 1)).kind = .assign) :
    Comes l k (Stmt.Read l source k) (assignment expr) := by
  have hk' : k + 1 < l.tokens.length := hl.closed.lt_length_of_kind (by rw [hassign]; decide)
  rw [assignment]
  refine .step hl.closed hk (.step hl.closed hk' ?_)
  refine (hexpr (k + 1 + 1)).bind fun value j hj hvalue => ?_
  refine .expect hl.closed (by decide) _ (.previousSpan (.pure ?_))
  refine (Fits.of_ends hl (by omega) rfl (List.forall_mem_singleton.mpr ?_)).read
    (List.forall_mem_nil _)
  exact hvalue.mono hl (Nat.le_add_right k 2) (Nat.le_succ j)

theorem expression_comes (k : Nat) : Comes l k (Stmt.Read l source k) (expression expr) := by
  rw [expression]
  refine (hexpr k).bind fun value j _ hvalue => .expect hl.closed (by decide) _ (.pure ?_)
  refine (Fits.of_no_span rfl (List.forall_mem_singleton.mpr ?_)).read (List.forall_mem_nil _)
  exact hvalue.mono hl (Nat.le_refl k) (Nat.le_succ j)

end

section

variable (hl : l.InOrder source) (hstmt : ∀ k, Comes l k (Stmt.Read l source k) stmt)

include hl hstmt

/-- A broken statement adds nothing to the block that it stands in but a note. -/
theorem blockLoop_comes : ∀ fuel {j : Nat} {body : List Stmt}, k ≤ j →
    AllRead l source k j body → Comes l j (AllRead l source k) (blockLoop stmt fuel body)
  | 0, _, _, _, hbody => .pure hbody
  | fuel + 1, j, body, hj, hbody => by
      rw [blockLoop]
      refine .look (l.reads_peek j) ?_
      split
      · next hclose =>
          have hlt : j < l.tokens.length := hl.closed.lt_length_of_kind (by rw [hclose]; decide)
          exact .step hl.closed hlt (.pure (hbody.mono hl (Nat.le_refl k) (Nat.le_succ j)))
      split
      · exact .fail _ rfl
      -- the statement is read, or a position behind it is come to
      have hturn := (hstmt j).recover fun i hi => by
        obtain ⟨i', hle, hi', -, htakes⟩ := synchronize_skips (d := 0) hl.closed hi
        exact ⟨i', hle, hi', htakes.1⟩
      refine hturn.bind fun read j' hj' hread => ?_
      refine blockLoop_comes fuel (Nat.le_trans hj hj') (List.forall_mem_append.mpr ⟨?_, ?_⟩)
      · exact AllRead.mono hbody hl (Nat.le_refl k) hj'
      · intro s hs
        exact (hread s (Option.mem_toList.mp hs)).mono hl hj (Nat.le_refl j')

theorem blockBody_comes (hj : k ≤ j) : Comes l j (AllRead l source k) (blockBody stmt) := by
  rw [blockBody]
  refine .expect hl.closed (by decide) _ (.remaining fun n => ?_)
  exact blockLoop_comes hl hstmt (n + 1) (Nat.le_succ_of_le hj) (List.forall_mem_nil _)

variable (hexpr : ∀ k, Comes l k (Expr.Read l source k) expr)

include hexpr

theorem conditional_comes (hk : k < l.tokens.length) :
    Comes l k (Stmt.Read l source k) (conditional stmt expr) := by
  rw [conditional]
  refine .step hl.closed hk ?_
  refine (condition_comes hl hexpr _ (k + 1)).bind fun cond i hi hcond => ?_
  refine (hstmt i).bind fun body j hj hbody => ?_
  refine .eat hl.closed (by decide) (fun _ => ?_) (.pure ?_)
  · refine (hstmt (j + 1)).bind fun other j' hj' hother => .pure ?_
    refine (Fits.of_no_span rfl (List.forall_mem_singleton.mpr ?_)).read
      (List.forall_mem_cons.mpr ⟨?_, List.forall_mem_singleton.mpr ?_⟩)
    · exact hcond.mono hl (Nat.le_succ k) (by omega)
    · exact hbody.mono hl (by omega) (by omega)
    · exact hother.mono hl (by omega) (Nat.le_refl j')
  · refine (Fits.of_no_span rfl (List.forall_mem_singleton.mpr ?_)).read
      (List.forall_mem_singleton.mpr ?_)
    · exact hcond.mono hl (Nat.le_succ k) hj
    · exact hbody.mono hl (by omega) (Nat.le_refl j)

theorem whileLoop_comes (hk : k < l.tokens.length) :
    Comes l k (Stmt.Read l source k) (whileLoop stmt expr) := by
  rw [whileLoop]
  refine .step hl.closed hk ?_
  refine (condition_comes hl hexpr _ (k + 1)).bind fun cond i hi hcond => ?_
  refine (hstmt i).bind fun body j hj hbody => .pure ?_
  refine (Fits.of_no_span rfl (List.forall_mem_singleton.mpr ?_)).read
    (List.forall_mem_singleton.mpr ?_)
  · exact hcond.mono hl (Nat.le_succ k) hj
  · exact hbody.mono hl (by omega) (Nat.le_refl j)

theorem ofParts_comes (k : Nat) : Comes l k (Stmt.Read l source k) (ofParts stmt expr) := by
  rw [ofParts]
  refine .look (l.reads_peek k) ?_
  have hlt (kind : TokenKind) (hne : kind ≠ .eof) (h : (l.tokenAt k).kind = kind) :
      k < l.tokens.length :=
    hl.closed.lt_length_of_kind (h ▸ hne)
  cases hkind : (l.tokenAt k).kind with
  | lBrace => exact (blockBody_comes hl hstmt (Nat.le_refl k)).map fun _ _ => read_block
  | semi =>
      refine .step hl.closed (hlt _ (by decide) hkind) (.pure ?_)
      exact read_block (List.forall_mem_nil _)
  | ifWord => exact conditional_comes hl hstmt hexpr (hlt _ (by decide) hkind)
  | whileWord => exact whileLoop_comes hl hstmt hexpr (hlt _ (by decide) hkind)
  | returnWord => exact returned_comes hl hexpr (hlt _ (by decide) hkind)
  | ident =>
      refine .look (l.reads_isAtType k) ?_
      split
      · exact localVariable_comes hl hexpr k
      refine .look (l.reads_peekSecond k) ?_
      split
      · next hassign => exact assignment_comes hl hexpr (hlt _ (by decide) hkind) hassign
      · exact expression_comes hl hexpr k
  | _ => exact expression_comes hl hexpr k

end

theorem parser_comes (hl : l.InOrder source) :
    ∀ n k, Comes l k (Stmt.Read l source k) (parser n)
  | 0, k => .look (l.reads_peek k) (.fail _ rfl)
  | n + 1, k => ofParts_comes hl (parser_comes hl n) (Expr.parser_comes hl n) k

end Stmt
end Nss
