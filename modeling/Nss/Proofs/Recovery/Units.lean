/-
# A unit with another body in one of its functions

The loop over a unit goes from one declaration to the next.  Those in front of a function are read as before
if something in its body is replaced (`Passed.shared`), and so is its heading (`Heading.shared`).  If the
parser comes to the end of the body then, it goes on as before, in the same state (`remainder_moved`).
-/
import Nss.Proofs.Recovery.Places

namespace Nss

open Steps

/-- The first tokens of two rows that are the same are all the tokens of one row. -/
theorem Lexed.Closed.shares {l : Lexed} (hl : l.Closed) (hpos : 0 < l.tokens.length) :
    l.Shares l l.tokens.length where
  closed := hl
  closed' := hl
  pos := hpos
  le := Nat.le_refl _
  le' := Nat.le_refl _
  token _ _ := rfl
  notElse := by
    rw [l.tokenAt_length, hl.ending]
    decide

namespace Event

open Lexed.Spliced

variable {l l' : Lexed} {m q q' k k' : Nat} {e : Event} {earlier later : List Event}

/-! ## The loop from a position on -/

/-- The events of a unit from a position on. -/
def remainder (l : Lexed) (k : Nat) : List Event := loop (l.tokens.length - k) (l.stateAt k [])

/-- How many turns the loop may have does not matter, nor what was noted before. -/
theorem loop_eq_remainder (hl : l.Closed) (hk : k ≤ l.tokens.length) {fuel : Nat}
    (hfuel : l.tokens.length - k ≤ fuel) (noted : List Diagnostic) :
    loop fuel (l.stateAt k noted) = remainder l k := by
  have hrun := (unitLoop_run hl fuel k noted [] hk hfuel).1
  rw [(unitLoop_run hl _ k [] [] hk (Nat.le_refl _)).1] at hrun
  have hcursor := (Prod.mk.inj (Option.some.inj hrun)).2
  exact (Cursor.mk.inj hcursor).2.2.symm

theorem remainder_end (l : Lexed) : remainder l l.tokens.length = [] := loop_end [] _

theorem remainder_turn (hl : l.Closed) (hk : k < l.tokens.length) (hlt : k < k')
    (hk' : k' ≤ l.tokens.length) {event : Option Event} {noted : List Diagnostic}
    (h : ScriptParser.recover next synchronize (l.stateAt k []) = .ok event (l.stateAt k' noted)) :
    remainder l k = noted.map problem ++ event.toList ++ remainder l k' := by
  obtain ⟨fuel, hfuel⟩ : ∃ fuel, l.tokens.length - k = fuel + 1 := ⟨l.tokens.length - k - 1, by omega⟩
  rw [remainder, hfuel, loop_turn hk h, loop_eq_remainder hl hk' (by omega)]

/-- What is read in a turn is the next event. -/
theorem remainder_next (hl : l.Closed) (hk : k < l.tokens.length) (hlt : k < k')
    (hk' : k' ≤ l.tokens.length) {noted : List Diagnostic}
    (h : next (l.stateAt k []) = .ok e (l.stateAt k' noted)) :
    remainder l k = noted.map problem ++ e :: remainder l k' := by
  have hturn : ScriptParser.recover next synchronize (l.stateAt k [])
      = .ok (some e) (l.stateAt k' noted) := by
    rw [ScriptParser.recover, h]
  rw [remainder_turn hl hk hlt hk' hturn, Option.toList_some, List.append_assoc, List.singleton_append]

/-- Behind the change, the events are the same. -/
theorem remainder_moved (hs : l.Spliced l' m q q') (hk : q ≤ k) (hk' : k ≤ l.tokens.length) :
    remainder l' (moved q q' k) = remainder l k := by
  have hlength : l'.tokens.length - moved q q' k = l.tokens.length - k := by
    have := hs.length
    have := hs.room
    rw [moved]
    omega
  rw [remainder, remainder, hlength, hs.stateAt_moved hk]

/-! ## Events in front of the change -/

/-- Some events are read between two positions. -/
inductive Passed (l : Lexed) : Nat → List Event → Nat → Prop
  | nil (k : Nat) : Passed l k [] k
  | cons {k k' k'' : Nat} {e : Event} {es : List Event} : l.Reads next k e k' → k < k' →
      k' ≤ l.tokens.length → Passed l k' es k'' → Passed l k (e :: es) k''

theorem Passed.le (h : Passed l k earlier k') : k ≤ k' := by
  induction h with
  | nil => exact Nat.le_refl _
  | cons _ hlt _ _ ih => exact Nat.le_trans (Nat.le_of_lt hlt) ih

theorem Passed.remainder (hl : l.Closed) (h : Passed l k earlier k') :
    remainder l k = earlier ++ Event.remainder l k' := by
  induction h with
  | nil => rfl
  | cons hread hlt hle _ ih =>
      rw [remainder_next hl (Nat.lt_of_lt_of_le hlt hle) hlt hle (hread []), ih]
      rfl

theorem Passed.shared (hs : l.Shares l' m) (h : Passed l k earlier k') (hk' : k' < m) :
    Passed l' k earlier k' := by
  induction h with
  | nil k => exact .nil k
  | @cons k k₁ k₂ e es hread hlt hle hrest ih =>
      have hlt' : k₁ < m := Nat.lt_of_le_of_lt hrest.le hk'
      refine .cons ?_ hlt (Nat.le_trans (Nat.le_of_lt hlt') hs.le') (ih hk')
      exact (next_follows hs k).reads hread (Nat.le_trans (Nat.le_of_lt hlt) hle) hle hlt'

/-- Where no problem is reported, every event was read. -/
theorem reads_of_remainder (hl : l.Closed) (hk : k ≤ l.tokens.length)
    (hclean : ∀ d, problem d ∉ remainder l k) (h : remainder l k = e :: later) :
    ∃ k', k < k' ∧ k' ≤ l.tokens.length ∧ l.Reads next k e k' ∧ remainder l k' = later := by
  have hlt : k < l.tokens.length := by
    refine Nat.lt_of_le_of_ne hk ?_
    rintro rfl
    rw [remainder_end] at h
    cases h
  obtain ⟨event, k', noted, hkk', hk', -, hrun, -⟩ := unitTurn_run hl hlt
  have hturn := remainder_turn hl hlt hkk' hk' hrun
  obtain rfl : noted = [] := by
    cases noted with
    | nil => rfl
    | cons d noted => exact absurd (by rw [hturn]; simp) (hclean d)
  obtain ⟨a, rfl, hread⟩ := (next_agrees hl k).reads_of_recover (fun j => (l.tokenAt j).kind = .eof) hk
    (hl.kind_ne_eof hlt) (fun j hj => synchronize_skips hl hj) hk' hrun
  obtain ⟨rfl, hlater⟩ := List.cons.inj (hturn.symm.trans h)
  exact ⟨k', hkk', hk', hread, hlater⟩

theorem Passed.of_remainder (hl : l.Closed) (hk : k ≤ l.tokens.length)
    (hclean : ∀ d, problem d ∉ Event.remainder l k) (h : Event.remainder l k = earlier ++ later) :
    ∃ k', Passed l k earlier k' ∧ k' ≤ l.tokens.length ∧ Event.remainder l k' = later := by
  induction earlier generalizing k with
  | nil => exact ⟨k, .nil k, hk, h⟩
  | cons e earlier ih =>
      rw [List.cons_append] at h
      obtain ⟨k₁, hlt, hle, hread, hrest⟩ := reads_of_remainder hl hk hclean h
      have hclean' (d : Diagnostic) : problem d ∉ Event.remainder l k₁ := by
        intro hd
        refine hclean d ?_
        rw [h, ← hrest]
        exact List.mem_cons_of_mem e hd
      obtain ⟨k₂, hpassed, hle₂, hlater⟩ := ih hle hclean' hrest
      exact ⟨k₂, .cons hread hlt hle hpassed, hle₂, hlater⟩

/-! ## The heading of a function -/

/-- The heading of a function with a body is read from `k` up to `j`. -/
structure Heading (l : Lexed) (k i j : Nat) (start : Span) (name : Token) (f : FunctionDecl) : Prop where
  first : (l.tokenAt k).kind ≠ .hashInclude
  introduced : l.Reads introduced k (start, f.result, name) i
  name : name.text = f.name
  opened : (l.tokenAt i).kind = .lParen
  params : l.Reads params (i + 1) f.params j
  body : (l.tokenAt j).kind = .lBrace
  lt : k < i
  lt' : i < j

variable {i j : Nat} {start : Span} {name : Token} {f : FunctionDecl} {body : List Stmt}

theorem directive_inclusion : Gives (fun e => ∀ decl, e ≠ declaration decl) directive :=
  .andThen fun _ => .andThen fun _ => .pure fun _ => nofun

theorem globalVariable_global (type : ValueType) :
    Gives (fun decl => ∀ f, decl ≠ .function f) (globalVariable start type name) := by
  rw [globalVariable]
  split
  · exact .throw _
  · exact .andThen fun _ => .andThen fun _ => .andThen fun _ => .pure fun _ h => by cases h

/-- A function without a semicolon behind its parameters, from there on. -/
theorem function_of_params {result : ValueType} {word : String} {ps : List Param}
    {noted noted' : List Diagnostic} (hsemi : (l.tokenAt j).kind ≠ .semi)
    (hparams : params (l.stateAt i noted) = .ok ps (l.stateAt j noted')) :
    function start result word (l.stateAt i noted) = (do
      let body ← Stmt.blockBody (Stmt.parser maxNesting)
      let ending ← ScriptParser.previousSpan
      return Declaration.function
        { result, name := word, params := ps, body := some body, span := start.cover ending })
        (l.stateAt j noted') := by
  rw [function, bind_of_ok hparams, bind_of_ok (Lexed.reads_eat_other hsemi _),
    if_neg Bool.false_ne_true, ← bind_pure_comp, bind_assoc]
  rfl

theorem function_prototype {result : ValueType} {word : String} {ps : List Param} {t : ParseState}
    {noted noted' : List Diagnostic} (hl : l.Closed) (hsemi : (l.tokenAt j).kind = .semi)
    (hparams : params (l.stateAt i noted) = .ok ps (l.stateAt j noted'))
    (h : function start result word (l.stateAt i noted) = .ok (.function f) t) : f.body = none := by
  have hj := hl.lt_length_of_kind (by rw [hsemi]; decide)
  rw [function, bind_of_ok hparams, bind_of_ok (hl.reads_eat hj hsemi _)] at h
  obtain ⟨hf, -⟩ := EStateM.Result.ok.inj h
  rw [← Declaration.function.inj hf]

theorem Heading.of_reads (hl : l.Closed) (hk : k < l.tokens.length) (hk' : k' ≤ l.tokens.length)
    (h : l.Reads next k (declaration (.function f)) k') (hbody : f.body = some body) :
    ∃ start name i j, Heading l k i j start name f ∧
      l.Reads (Stmt.blockBody (Stmt.parser maxNesting)) j body k' ∧
      f.span = start.cover (l.tokenAt (k' - 1)).span := by
  have hs := hl.shares (Nat.lt_of_le_of_lt (Nat.zero_le k) hk)
  have hrun := h []
  rw [next, bind_of_ok (l.reads_isAt .hashInclude k [])] at hrun
  by_cases hfirst : (l.tokenAt k).kind = .hashInclude
  · rw [decide_eq_true hfirst, if_pos rfl] at hrun
    exact absurd rfl (directive_inclusion _ _ _ hrun _)
  rw [decide_eq_false hfirst, if_neg Bool.false_ne_true] at hrun
  obtain ⟨decl, hrun, heq⟩ := map_eq_ok.mp hrun
  obtain rfl := Event.declaration.inj heq
  rw [declared_eq] at hrun
  obtain ⟨⟨start, type, name⟩, t, hintro, hrun⟩ := bind_eq_ok.mp hrun
  obtain ⟨i, more, hki, hi, rfl, hintroduced⟩ :=
    introduced_follows hs k (Nat.le_of_lt hk) [] _ _ hintro
  by_cases hopened : (l.tokenAt i).kind = .lParen
  swap
  · rw [bind_of_ok (Lexed.reads_eat_other hopened _)] at hrun
    exact absurd rfl (globalVariable_global _ _ _ _ hrun _)
  have hil := hl.lt_of_kind hi (by rw [hopened]; decide)
  rw [bind_of_ok (hl.reads_eat hil hopened _), if_pos rfl] at hrun
  obtain ⟨ps, t, hparams, -⟩ := bind_eq_ok.mp hrun
  obtain ⟨j, more', hij, hj, rfl, hlist⟩ := params_follows hs (i + 1) hil _ _ _ hparams
  by_cases hsemi : (l.tokenAt j).kind = .semi
  · rw [function_prototype hl hsemi hparams hrun] at hbody
    cases hbody
  rw [function_of_params hsemi hparams] at hrun
  obtain ⟨stmts, t, hblock, hrun⟩ := bind_eq_ok.mp hrun
  obtain ⟨k'', more'', hjk, hk'', rfl, hreads⟩ :=
    (Stmt.blockBody_agrees hl (Stmt.parser_agrees hl maxNesting 0 rfl) j).reads hj hblock
  obtain ⟨hf, hstate⟩ := EStateM.Result.ok.inj hrun
  obtain ⟨rfl, hnotes⟩ := Lexed.stateAt_inj hk'' hk' hstate
  obtain ⟨hmore, rfl⟩ := List.append_eq_nil_iff.mp hnotes
  obtain ⟨rfl, rfl⟩ := List.append_eq_nil_iff.mp hmore
  obtain rfl := Declaration.function.inj hf
  obtain rfl := Option.some.inj hbody
  have hopen := (Stmt.Elements.of_blockBody hl (Nat.le_refl _) hj hk' (hreads rfl)).1
  refine ⟨start, name, i, j, ?_, hreads rfl, rfl⟩
  exact
    { first := hfirst
      introduced := hintroduced rfl hil
      name := rfl
      opened := hopened
      params := hlist rfl (hl.lt_length_of_kind (by rw [hopen]; decide))
      body := hopen
      lt := hki
      lt' := by omega }

/-- The heading of a function in front of the change is read in both rows. -/
theorem Heading.shared (hs : l.Shares l' m) (h : Heading l k i j start name f) (hj : j < m) :
    Heading l' k i j start name f := by
  have hi := h.lt'
  have hk := h.lt
  have hle := hs.le
  have hfirst := h.first
  have hopened := h.opened
  have hbody := h.body
  rw [← hs.token k (by omega)] at hfirst
  rw [← hs.token i (by omega)] at hopened
  rw [← hs.token j hj] at hbody
  exact
    { h with
      first := hfirst
      introduced := (introduced_follows hs k).reads h.introduced (by omega) (by omega) (by omega)
      opened := hopened
      params := (params_follows hs (i + 1)).reads h.params (by omega) (by omega) (by omega)
      body := hbody }

/-- A function is read if its heading and its body are. -/
theorem Heading.next (hl : l.Closed) (h : Heading l k i j start name f) {notes : List Diagnostic}
    (hbody : ∀ noted, Stmt.blockBody (Stmt.parser maxNesting) (l.stateAt j noted)
      = .ok body (l.stateAt k' (noted ++ notes))) (noted : List Diagnostic) :
    Event.next (l.stateAt k noted) = .ok (declaration (.function
      { f with body := some body, span := start.cover (l.tokenAt (k' - 1)).span }))
        (l.stateAt k' (noted ++ notes)) := by
  have hi := hl.lt_length_of_kind (k := i) (by rw [h.opened]; decide)
  have hsemi : (l.tokenAt j).kind ≠ .semi := by
    rw [h.body]
    decide
  have hdeclared : declared (l.stateAt k noted) = .ok (.function
      { f with body := some body, span := start.cover (l.tokenAt (k' - 1)).span })
        (l.stateAt k' (noted ++ notes)) := by
    rw [declared_eq, bind_of_ok (h.introduced noted), bind_of_ok (hl.reads_eat hi h.opened noted),
      if_pos rfl, function_of_params hsemi (h.params noted), bind_of_ok (hbody noted), h.name]
    rfl
  rw [Event.next, bind_of_ok (l.reads_isAt .hashInclude k noted), decide_eq_false h.first,
    if_neg Bool.false_ne_true]
  exact map_eq_ok.mpr ⟨_, hdeclared, rfl⟩

/-! ## Elements in the body of a function -/

variable {n b : Nat} {ctx : Stmt.Context} {s : Stmt} {rest : List Stmt}

/-- Some elements of a block in the body of a function were read from `m` on, up to the closing brace at
`b`. -/
inductive Site (l : Lexed) (earlier : List Event) (f : FunctionDecl) (ctx : Stmt.Context)
    (later : List Event) (n m b : Nat) : Prop
  | intro {k i j k' : Nat} {start : Span} {name : Token} : Passed l 0 earlier k →
      Heading l k i j start name f → Stmt.Around l m n b (maxNesting + 1) j k' ctx →
      f.span = start.cover (l.tokenAt (k' - 1)).span → remainder l k' = later →
      Site l earlier f ctx later n m b

theorem Site.closed (h : Site l earlier f ctx later n m b) : (l.tokenAt b).kind = .rBrace := by
  obtain @⟨k, i, j, k', start, name, -, -, haround, -, -⟩ := h
  exact haround.closed

theorem Site.pos (hl : l.Closed) (h : Site l earlier f ctx later n m b) : 0 < m := by
  obtain @⟨k, i, j, k', start, name, -, -, haround, -, -⟩ := h
  exact Nat.lt_of_le_of_lt (Nat.zero_le j) (haround.bounds hl (Nat.le_refl _)).1

theorem Site.of_remainder (hl : l.Closed) (hclean : ∀ d, problem d ∉ remainder l 0)
    (h : remainder l 0 = earlier ++ declaration (.function f) :: later) (hbody : f.body = some body)
    (hctx : ctx.fill (s :: rest) = .block body) :
    ∃ n m b, Site l earlier f ctx later n m b ∧ Stmt.Elements l n m (s :: rest) [] b ∧
      n ≤ maxNesting := by
  obtain ⟨k, hpassed, hk, hrest⟩ := Passed.of_remainder hl (Nat.zero_le _) hclean h
  have hclean' (d : Diagnostic) : problem d ∉ remainder l k := by
    intro hd
    refine hclean d ?_
    rw [h, ← hrest]
    exact List.mem_append_right earlier hd
  obtain ⟨k', hlt, hk', hread, hlater⟩ := reads_of_remainder hl hk hclean' hrest
  obtain ⟨start, name, i, j, hheading, hblock, hspan⟩ :=
    Heading.of_reads hl (Nat.lt_of_lt_of_le hlt hk') hk' hread hbody
  have hj := hl.lt_length_of_kind (k := j) (by rw [hheading.body]; decide)
  have hstmt : l.Reads (Stmt.parser (maxNesting + 1)) j (ctx.fill (s :: rest)) k' := by
    intro noted
    rw [hctx, Stmt.parser_block hheading.body]
    exact map_eq_ok.mpr ⟨body, hblock noted, rfl⟩
  obtain ⟨m, n, b, haround, helements, hn⟩ :=
    Stmt.Around.of_reads hl ctx (Nat.le_refl _) (Nat.le_of_lt hj) hk' hstmt
  exact ⟨n, m, b, .intro hpassed hheading haround hspan hlater, helements, hn⟩

/-- If the elements are replaced, then all the rest of the unit is read as before. -/
theorem Site.refill (hs : l.Spliced l' m q q') (h : Site l earlier f ctx later n m b) (hb : q ≤ b)
    {stmts : List Stmt} {notes : List Diagnostic}
    (hstmts : Stmt.Elements l' n m stmts notes (moved q q' b)) (hbody : ctx.fill stmts = .block body) :
    remainder l' 0
      = earlier ++ (notes.map problem ++ declaration (.function { f with body := some body }) :: later) := by
  obtain @⟨k, i, j, k', start, name, hpassed, hheading, haround, hspan, hlater⟩ := h
  obtain ⟨hjm, hbk, hk'⟩ := haround.bounds hs.closed (Nat.le_refl _)
  have hij := hheading.lt'
  have hki := hheading.lt
  have hheading' := hheading.shared hs.toShares hjm
  have hblock (noted : List Diagnostic) : Stmt.blockBody (Stmt.parser maxNesting) (l'.stateAt j noted)
      = .ok body (l'.stateAt (moved q q' k') (noted ++ notes)) := by
    have hrun := haround.refill hs (Nat.le_refl _) hb hstmts noted
    rw [Stmt.parser_block hheading'.body, hbody] at hrun
    obtain ⟨body', hblock, heq⟩ := map_eq_ok.mp hrun
    obtain rfl := Stmt.block.inj heq
    exact hblock
  have hlast : l'.tokenAt (moved q q' k' - 1) = l.tokenAt (k' - 1) := by
    rw [← hs.tokenAt_moved (k := k' - 1) (by omega), moved, moved]
    congr 1
    omega
  have hnext := hheading'.next hs.closed' hblock []
  rw [hlast, ← hspan, List.nil_append] at hnext
  have hm := hs.lt'
  have hkl : k < l'.tokens.length := Nat.lt_of_lt_of_le (by omega) hs.le'
  have hlt : k < moved q q' k' := by
    rw [moved]
    omega
  rw [(hpassed.shared hs.toShares (by omega)).remainder hs.closed',
    remainder_next hs.closed' hkl hlt (hs.moved_le (by omega) hk') hnext,
    remainder_moved hs (by omega) hk', hlater]

end Event
end Nss
