/-
# Recovery stops at the broken statement

Take a script in which no problem is found, and an element of a block in it that ends in a semicolon.  If
the tokens in front of that semicolon are replaced by any others, without a brace or a semicolon and not with
the word `else` first, then all else in the script is read as before: the other declarations, the function
around the block, and the other statements in it.  Of what was replaced a statement is read, or one problem
is noted (`Event.ofSource_replaced`).

There is one exception.  Where an operand is missing in front of the semicolon, as in `int x = ;`, the
semicolon is taken for it and read, and the end of the broken statement is looked for behind it.  So the next
statement is passed over as well, and nothing is said about it (`Event.ofSource_overrun`).
-/
import Mathlib
import Nss.Proofs.Recovery.Confined
import Nss.Proofs.Recovery.Units
import Nss.Proofs.Places.Parsing

namespace Nss

open Steps

/-! ## Rows with a part in common -/

namespace Lexed

variable {l l' : Lexed} {before inner junk after : List Token} {semi : Token}

theorem unplaced_closed {l : Lexed} (hl : l.Closed) : l.unplaced.Closed where
  tokens t ht := by
    obtain ⟨t', ht', rfl⟩ := List.mem_map.mp ht
    exact hl.tokens t' ht'
  ending := hl.ending

theorem tokenAt_of_tokens (h : l.tokens = before ++ after) (k : Nat) :
    l.tokenAt (before.length + k) = after.getD k l.ending := by
  rw [tokenAt, h, List.getD_append_right _ _ _ _ (Nat.le_add_right _ _), Nat.add_sub_cancel_left]

theorem stateAt_of_tokens (h : l.tokens = before ++ semi :: after) (k : Nat)
    (noted : List Diagnostic) : l.stateAt (before.length + 1 + k) noted
      = ⟨after.drop k, l.ending, ((semi :: after).getD k l.ending).span, noted⟩ := by
  have hprevious : before.length + 1 + k - 1 = before.length + k := by omega
  have hahead : before.length + 1 + k = before.length + (k + 1) := by omega
  rw [stateAt, hprevious, tokenAt_of_tokens h, h, hahead, List.drop_length_add_append,
    List.drop_succ_cons]

/-- A part in front of a token is replaced. -/
theorem Spliced.of_tokens (hl : l.Closed) (hl' : l'.Closed) (hending : l'.ending = l.ending)
    (h : l.tokens = before ++ inner ++ semi :: after) (h' : l'.tokens = before ++ junk ++ semi :: after)
    (hbefore : before ≠ []) (helse : (l'.tokenAt before.length).kind ≠ .elseWord) :
    l.Spliced l' before.length (before.length + inner.length + 1)
      (before.length + junk.length + 1) := by
  have hlength : l.tokens.length = before.length + inner.length + 1 + after.length := by
    rw [h]
    simp only [List.length_append, List.length_cons]
    omega
  have hlength' : l'.tokens.length = before.length + junk.length + 1 + after.length := by
    rw [h']
    simp only [List.length_append, List.length_cons]
    omega
  exact
    { closed := hl
      closed' := hl'
      pos := List.length_pos_iff.mpr hbefore
      le := by omega
      le' := by omega
      token k hk := by
        rw [tokenAt, tokenAt, h, h', List.append_assoc, List.append_assoc, List.getD_append _ _ _ _ hk,
          List.getD_append _ _ _ _ hk, hending]
      notElse := helse
      lt' := by omega
      room := by omega
      length := by omega
      behind k noted hk := by
        obtain ⟨j, rfl⟩ := Nat.exists_eq_add_of_le hk
        rw [Nat.add_sub_cancel_left, ← List.length_append, ← List.length_append,
          stateAt_of_tokens h, stateAt_of_tokens h', hending] }

/-- What stands in front of the token instead. -/
theorem Junk.of_tokens (hl : l.Closed) (h : l.tokens = before ++ junk ++ semi :: after)
    (hne : junk ≠ []) (hplain : ∀ t ∈ junk, t.kind ≠ .lBrace ∧ t.kind ≠ .rBrace ∧ t.kind ≠ .semi)
    (hsemi : semi.kind = .semi)
    (helse : (l.tokenAt (before.length + junk.length + 1)).kind ≠ .elseWord) :
    l.Junk before.length (before.length + junk.length) where
  closed := hl
  lt := Nat.lt_add_of_pos_right (List.length_pos_iff.mpr hne)
  room := by
    rw [h]
    simp only [List.length_append, List.length_cons]
    omega
  plain k hk hlt := by
    obtain ⟨j, rfl⟩ := Nat.exists_eq_add_of_le hk
    have hj : j < junk.length := by omega
    rw [List.append_assoc] at h
    rw [tokenAt_of_tokens h, List.getD_append _ _ _ _ hj, List.getD_eq_getElem _ _ hj]
    exact hplain _ (List.getElem_mem hj)
  semi := by
    have hat := tokenAt_of_tokens h 0
    rw [Nat.add_zero, List.length_append] at hat
    rw [hat]
    exact hsemi
  notElse := helse

end Lexed

/-! ## Elements that are replaced -/

namespace Stmt

open Lexed.Spliced

variable {l l' : Lexed} {m n e q k' : Nat} {rest : List Stmt}

/-- Where the semicolon is read for an operand, what the search for the end passes over is lost as well. -/
theorem elements_overrun (hs : l.Spliced l' m q (e + 1)) (hj : l'.Junk m e) {d : Diagnostic} {p : Nat}
    (hfails : l'.Fails (parser n) m d (e + 1)) (hskip : l.Reads synchronize q () p) (hqp : q ≤ p)
    (hp : p ≤ l.tokens.length) (hrest : Elements l n p rest [] k') :
    Elements l' n m rest [d] (moved q (e + 1) k') := by
  have hskip' := hs.reads_moved (Nat.le_refl q) hqp hskip
  rw [moved_self] at hskip'
  have hlt : m < moved q (e + 1) p := by
    have hme := hj.lt
    rw [moved]
    omega
  have hturn : Turn l' n m none [d] (moved q (e + 1) p) := by
    refine ⟨not_closes hj ⟨Nat.le_refl m, Nat.le_of_lt hj.lt⟩, hlt, hs.moved_le hqp hp, fun noted => ?_⟩
    rw [ScriptParser.recover, hfails noted]
    exact bind_of_ok (hskip' _)
  exact .cons hturn (hrest.moved hs hqp)

/-- An element is replaced: the loop over the block makes a statement or a note of what stands there
instead, and comes to the other elements; or the semicolon is read for an operand. -/
theorem elements_replaced (hs : l.Spliced l' m q (e + 1)) (hj : l'.Junk m e) (hn : n ≤ maxNesting)
    (hrest : Elements l n q rest [] k') (hbrace : (l.tokenAt k').kind = .rBrace) :
    (∃ (read : Option Stmt) (notes : List Diagnostic), notes.length + read.toList.length = 1 ∧
      Elements l' n m (read.toList ++ rest) notes (moved q (e + 1) k')) ∨
    rest ≠ [] ∧ (l'.tokenAt (e - 1)).kind.asksOperand = true ∧ l'.Fails (parser n) m
      (.error (.unexpectedToken (l'.tokenAt e).text) (l'.tokenAt e).span) (e + 1) := by
  have hopen : ¬Closes l' m := not_closes hj ⟨Nat.le_refl m, Nat.le_of_lt hj.lt⟩
  have hlt : m < e + 1 := Nat.lt_succ_of_lt hj.lt
  have hmoved := hrest.moved hs (Nat.le_refl q)
  rw [moved_self] at hmoved
  rcases turn_junk hj n with ⟨s, hrun⟩ | ⟨d, hrun⟩ | ⟨hasks, hfails⟩
  · refine .inl ⟨some s, [], rfl, ?_⟩
    have hturn : Turn l' n m (some s) [] (e + 1) :=
      ⟨hopen, hlt, hj.room, fun noted => by rw [hrun noted, List.append_nil]⟩
    exact .cons hturn hmoved
  · refine .inl ⟨none, [d], rfl, ?_⟩
    have hturn : Turn l' n m none [d] (e + 1) := ⟨hopen, hlt, hj.room, hrun⟩
    exact .cons hturn hmoved
  · by_cases hnil : rest = []
    · subst hnil
      obtain rfl := hrest.eq_of_nil hs.closed hn
      have hstay := reads_synchronize_closes hs.closed hs.room (.inl hbrace)
      exact .inl ⟨none, _, rfl, elements_overrun hs hj hfails hstay (Nat.le_refl q) hs.room hrest⟩
    · exact .inr ⟨hnil, hasks, hfails⟩

end Stmt

namespace Event

open Lexed.Spliced

variable {earlier later : List Event} {f : FunctionDecl} {ctx : Stmt.Context} {s : Stmt}
  {rest body : List Stmt}

/-! ## Whole scripts -/

/-- Some words without a brace or a semicolon, and a semicolon. -/
structure Ended (ws : List Word) (semi : Word) : Prop where
  ne_nil : ws ≠ []
  plain : ∀ w ∈ ws, w.kind ≠ .lBrace ∧ w.kind ≠ .rBrace ∧ w.kind ≠ .semi
  kind : semi.kind = .semi

/-- Between other words, a script has some that may replace those of a statement. -/
structure Replacement (source : String) (before junk : List Word) (semi : Word) (after : List Word) :
    Prop extends Ended junk semi where
  words : (Lexed.ofSource source).tokens.map Token.word = before ++ junk ++ semi :: after
  troubles : (Lexed.ofSource source).troubles = []
  notElse : ∀ w ∈ junk.head?, w.kind ≠ .elseWord

/-- A row in three parts. -/
theorem exists_parts {α : Type} {xs : List α} {m q : Nat} (hmq : m ≤ q) (hq : q ≤ xs.length) :
    ∃ before middle after, xs = before ++ middle ++ after ∧ before.length = m ∧
      before.length + middle.length = q := by
  refine ⟨xs.take m, (xs.take q).drop m, xs.drop q, ?_, ?_, ?_⟩
  · have hfront := List.take_append_drop m (xs.take q)
    rw [List.take_take, Nat.min_eq_left hmq] at hfront
    rw [hfront, List.take_append_drop]
  · exact List.length_take_of_le (Nat.le_trans hmq hq)
  · rw [List.length_take_of_le (Nat.le_trans hmq hq), List.length_drop, List.length_take_of_le hq]
    omega

theorem ofSource_unplaced {source : String} (h : (Lexed.ofSource source).troubles = []) :
    (ofSource source).map unplaced = remainder (Lexed.ofSource source).unplaced 0 := by
  have hl := Lexed.unplaced_closed (Lexed.ofSource_closed source)
  rw [ofSource_eq, ← ofTokens_unplaced, ofTokens, Lexed.start_eq,
    loop_eq_remainder hl (Nat.zero_le _) (Nat.sub_le _ _), Lexed.unplaced, h]
  rfl

theorem unplaced_tokens {source : String} {ws : List Word}
    (h : (Lexed.ofSource source).tokens.map Token.word = ws) :
    (Lexed.ofSource source).unplaced.tokens = ws.map Word.token := by
  rw [← h, ← Token.map_unplaced]
  rfl

variable {before inner junk after : List Word} {semi : Word} {source source' : String}

theorem unplaced_parts
    (h : (Lexed.ofSource source).tokens.map Token.word = before ++ inner ++ semi :: after) :
    (Lexed.ofSource source).unplaced.tokens
      = before.map Word.token ++ inner.map Word.token ++ semi.token :: after.map Word.token := by
  rw [unplaced_tokens h, List.map_append, List.map_append, List.map_cons]

/-- In front of the words that were replaced and behind them, the rows are the same. -/
theorem Replacement.spliced (h : Replacement source' before junk semi after) (hbefore : before ≠ [])
    (hwords : (Lexed.ofSource source).tokens.map Token.word = before ++ inner ++ semi :: after) :
    (Lexed.ofSource source).unplaced.Spliced (Lexed.ofSource source').unplaced before.length
      (before.length + inner.length + 1) (before.length + junk.length + 1) := by
  have helse : ((Lexed.ofSource source').unplaced.tokenAt (before.map Word.token).length).kind
      ≠ .elseWord := by
    obtain ⟨w, ws, rfl⟩ := List.exists_cons_of_ne_nil h.ne_nil
    have hat := Lexed.tokenAt_of_tokens ((unplaced_parts h.words).trans (List.append_assoc _ _ _)) 0
    rw [Nat.add_zero] at hat
    rw [hat]
    exact h.notElse w rfl
  have hspliced := Lexed.Spliced.of_tokens (Lexed.unplaced_closed (Lexed.ofSource_closed source))
    (Lexed.unplaced_closed (Lexed.ofSource_closed source')) rfl (unplaced_parts hwords)
    (unplaced_parts h.words) (by simpa using hbefore) helse
  simpa only [List.length_map] using hspliced

theorem Ended.isJunk {ws : List Word} (h : Ended ws semi)
    (hwords : (Lexed.ofSource source).tokens.map Token.word = before ++ ws ++ semi :: after)
    (helse : ((Lexed.ofSource source).unplaced.tokenAt (before.length + ws.length + 1)).kind
      ≠ .elseWord) :
    (Lexed.ofSource source).unplaced.Junk before.length (before.length + ws.length) := by
  have hplain : ∀ t ∈ ws.map Word.token, t.kind ≠ .lBrace ∧ t.kind ≠ .rBrace ∧ t.kind ≠ .semi := by
    intro t ht
    obtain ⟨w, hw, rfl⟩ := List.mem_map.mp ht
    exact h.plain w hw
  have hjunk := Lexed.Junk.of_tokens (Lexed.unplaced_closed (Lexed.ofSource_closed source))
    (unplaced_parts hwords) (by simpa using h.ne_nil) hplain h.kind
    (by simpa only [List.length_map] using helse)
  simpa only [List.length_map] using hjunk

/-- The semicolon. -/
theorem Replacement.tokenAt_semi (h : Replacement source' before junk semi after) :
    (Lexed.ofSource source').unplaced.tokenAt (before.length + junk.length) = semi.token := by
  have hat := Lexed.tokenAt_of_tokens (unplaced_parts h.words) 0
  rw [Nat.add_zero, List.length_append, List.length_map, List.length_map] at hat
  exact hat

theorem Replacement.tokenAt_last (h : Replacement source' before junk semi after) :
    ∃ w ∈ junk.getLast?,
      (Lexed.ofSource source').unplaced.tokenAt (before.length + junk.length - 1) = w.token := by
  obtain ⟨init, w, rfl⟩ : ∃ init w, junk = init ++ [w] :=
    ⟨_, _, (List.dropLast_append_getLast h.ne_nil).symm⟩
  have htokens : (Lexed.ofSource source').unplaced.tokens
      = (before ++ init).map Word.token ++ w.token :: semi.token :: after.map Word.token := by
    rw [unplaced_parts h.words]
    simp only [List.map_append, List.map_cons, List.map_nil, List.append_assoc, List.singleton_append]
  have hat := Lexed.tokenAt_of_tokens htokens 0
  rw [Nat.add_zero, List.length_map, List.length_append] at hat
  refine ⟨w, List.getLast?_concat, ?_⟩
  rw [List.length_append, List.length_singleton, ← Nat.add_assoc, Nat.add_sub_cancel]
  exact hat

theorem exists_site (hclean : ∀ d, problem d ∉ ofSource source)
    (hevents : (ofSource source).map unplaced = earlier ++ declaration (.function f) :: later)
    (hbody : f.body = some body) (hctx : ctx.fill (s :: rest) = .block body) :
    ∃ n m b, Site (Lexed.ofSource source).unplaced earlier f ctx later n m b ∧
      Stmt.Elements (Lexed.ofSource source).unplaced n m (s :: rest) [] b ∧ n ≤ maxNesting := by
  have hl := Lexed.unplaced_closed (Lexed.ofSource_closed source)
  have htroubles : (Lexed.ofSource source).troubles = [] := by
    rw [List.eq_nil_iff_forall_not_mem]
    intro d hd
    exact hclean d (List.mem_append_left _ (List.mem_map_of_mem hd))
  have hremainder := ofSource_unplaced htroubles
  have hclean' (d : Diagnostic) : problem d ∉ remainder (Lexed.ofSource source).unplaced 0 := by
    rw [← hremainder]
    intro hd
    obtain ⟨e, he, hproblem⟩ := List.mem_map.mp hd
    cases e with
    | problem d' => exact hclean d' he
    | inclusion | declaration => cases hproblem
  rw [hremainder] at hevents
  exact Site.of_remainder hl hclean' hevents hbody hctx

/-- A statement `s` of a script, in front of the statements `rest` of its block in the body of `f`, has words
of its own.  If those in front of its last semicolon are replaced, then what the script declares stays the
same without places, but for `s`: there is another statement instead of it, or none, and one problem in
front of the function.  Or other statements follow and the semicolon is taken for an operand, since the last
of the new words asks for one: then it is read in the broken statement, which fails. -/
def Replaceable (source : String) (earlier : List Event) (f : FunctionDecl) (ctx : Stmt.Context) (s : Stmt)
    (rest : List Stmt) (later : List Event) : Prop :=
  ∃ n before old after,
    (Lexed.ofSource source).tokens.map Token.word = before ++ old ++ after ∧
    (Lexed.ofSource source).unplaced.Reads (Stmt.parser n) before.length s
      (before.length + old.length) ∧
    ∀ inner semi junk source', old = inner ++ [semi] → Replacement source' before junk semi after →
      (∃ (read : Option Stmt) (notes : List Diagnostic) (body : List Stmt),
        notes.length + read.toList.length = 1 ∧ ctx.fill (read.toList ++ rest) = .block body ∧
        (ofSource source').map unplaced = earlier ++ (notes.map problem ++
          declaration (.function { f with body := some body }) :: later)) ∨
      rest ≠ [] ∧ (∃ w ∈ junk.getLast?, w.kind.asksOperand = true) ∧
        (Lexed.ofSource source').unplaced.Fails (Stmt.parser n) before.length
          (.error (.unexpectedToken semi.text) .origin) (before.length + junk.length + 1)

/-- In a script without a problem, every element of every block may be replaced up to its semicolon. -/
theorem ofSource_replaced (hclean : ∀ d, problem d ∉ ofSource source)
    (hevents : (ofSource source).map unplaced = earlier ++ declaration (.function f) :: later)
    (hbody : f.body = some body) (hctx : ctx.fill (s :: rest) = .block body) :
    Replaceable source earlier f ctx s rest later := by
  have hl := Lexed.unplaced_closed (Lexed.ofSource_closed source)
  obtain ⟨n, m, b, hsite, helements, hn⟩ := exists_site hclean hevents hbody hctx
  obtain ⟨q, hturn, hreads, hrest⟩ := helements.uncons hl hn
  have hqb := hrest.le
  have hq : q ≤ ((Lexed.ofSource source).tokens.map Token.word).length := by
    have hle := hturn.le
    rwa [unplaced_tokens rfl, List.length_map] at hle
  obtain ⟨before, old, after, hwords, rfl, rfl⟩ := exists_parts (Nat.le_of_lt hturn.lt) hq
  refine ⟨n, before, old, after, hwords, hreads, ?_⟩
  rintro inner semi junk source' rfl hjunk
  have hbefore : before ≠ [] := List.length_pos_iff.mp (hsite.pos hl)
  have hwords' : (Lexed.ofSource source).tokens.map Token.word = before ++ inner ++ semi :: after := by
    rw [hwords]
    simp only [List.append_assoc, List.singleton_append]
  have hs := hjunk.spliced hbefore hwords'
  rw [List.length_append, List.length_singleton, ← Nat.add_assoc] at hqb hrest
  have helse := hrest.not_else hl hn hsite.closed
  rw [← hs.tokenAt_moved (Nat.le_refl _), moved_self] at helse
  have hj := hjunk.toEnded.isJunk hjunk.words helse
  rcases Stmt.elements_replaced hs hj hn hrest hsite.closed with
    ⟨read, notes, hone, helements'⟩ | ⟨hnil, hasks, hfails⟩
  · obtain ⟨body', hbody'⟩ := Stmt.Context.fill_block hctx (read.toList ++ rest)
    refine .inl ⟨read, notes, body', hone, hbody', ?_⟩
    rw [ofSource_unplaced hjunk.troubles]
    exact hsite.refill hs hqb helements' hbody'
  · refine .inr ⟨hnil, ?_, ?_⟩
    · obtain ⟨w, hw, hlast⟩ := hjunk.tokenAt_last
      rw [hlast] at hasks
      exact ⟨w, hw, hasks⟩
    · rwa [hjunk.tokenAt_semi] at hfails

/-- A local variable with a number. -/
def intLocal (name : String) (value : Int32) : Stmt :=
  .var ⟨.int, name, some (.int value .origin), .origin⟩

/-- A statement in a loop, with one behind it in the loop and another one behind the loop. -/
theorem ofSource_replaced_loop :
    Replaceable "int g; void main() { while (g) { int x = 1; int y = 2; } int z = 3; }"
      [declaration (.global ⟨.int, "g", none, .origin⟩)]
      ⟨.void, "main", [], some [.loop (.ident "g" .origin)
        (.block [intLocal "x" 1, intLocal "y" 2]), intLocal "z" 3], .origin⟩
      (.element [] (.loop (.ident "g" .origin) (.tail [])) [intLocal "z" 3])
      (intLocal "x" 1) [intLocal "y" 2] [] := by
  have hevents : (ofSource "int g; void main() { while (g) { int x = 1; int y = 2; } int z = 3; }").map
      unplaced = [declaration (.global ⟨.int, "g", none, .origin⟩)] ++ declaration (.function
        ⟨.void, "main", [], some [.loop (.ident "g" .origin)
          (.block [intLocal "x" 1, intLocal "y" 2]), intLocal "z" 3], .origin⟩) :: [] := by
    cbv
  refine ofSource_replaced (fun d hd => ?_) hevents rfl rfl
  have hmem := List.mem_map_of_mem (f := unplaced) hd
  rw [hevents] at hmem
  simp [unplaced] at hmem

/-- The second variable is lost with the first one, and nothing is said about it. -/
theorem ofSource_lost :
    (ofSource "void main() { int x = 1; int y = 2; int z = 3; }").map unplaced
      = [declaration (.function ⟨.void, "main", [],
          some [intLocal "x" 1, intLocal "y" 2, intLocal "z" 3], .origin⟩)] ∧
    Replacement "void main() { int x = ; int y = 2; int z = 3; }"
      [.ident "void", .ident "main", .mark .lParen, .mark .rParen, .mark .lBrace]
      [.ident "int", .ident "x", .mark .assign] (.mark .semi)
      [.ident "int", .ident "y", .mark .assign, .integer 2, .mark .semi,
        .ident "int", .ident "z", .mark .assign, .integer 3, .mark .semi, .mark .rBrace] ∧
    (ofSource "void main() { int x = ; int y = 2; int z = 3; }").map unplaced
      = [problem (.error (.unexpectedToken ";") .origin),
        declaration (.function ⟨.void, "main", [], some [intLocal "z" 3], .origin⟩)] ∧
    ∀ (read : Option Stmt) (notes : List Diagnostic),
      (ofSource "void main() { int x = ; int y = 2; int z = 3; }").map unplaced
        ≠ notes.map problem ++ [declaration (.function ⟨.void, "main", [],
            some (read.toList ++ [intLocal "y" 2, intLocal "z" 3]), .origin⟩)] := by
  have hlost : (ofSource "void main() { int x = ; int y = 2; int z = 3; }").map unplaced
      = [problem (.error (.unexpectedToken ";") .origin),
        declaration (.function ⟨.void, "main", [], some [intLocal "z" 3], .origin⟩)] := by
    cbv
  refine ⟨?_, ?_, hlost, fun read notes h => ?_⟩
  · clear hlost
    cbv
  · exact
      { words := by decide +kernel
        troubles := by decide +kernel
        kind := rfl
        ne_nil := by decide
        plain := by decide +kernel
        notElse := by decide +kernel }
  · rw [hlost] at h
    have hlast := congrArg List.getLast? h
    rw [List.getLast?_concat] at hlast
    obtain hbody := congrArg FunctionDecl.body
      (Declaration.function.inj (Event.declaration.inj (Option.some.inj hlast)))
    have hlength := congrArg List.length (Option.some.inj hbody)
    rw [List.length_append] at hlength
    simp at hlength

/-- Where the semicolon is read for an operand, the statement behind it is lost. -/
theorem ofSource_overrun {next : Stmt} (hclean : ∀ d, problem d ∉ ofSource source)
    (hevents : (ofSource source).map unplaced = earlier ++ declaration (.function f) :: later)
    (hbody : f.body = some body) (hctx : ctx.fill (s :: next :: rest) = .block body) :
    ∃ n before old lost after,
      (Lexed.ofSource source).tokens.map Token.word = before ++ old ++ (lost ++ after) ∧
      (Lexed.ofSource source).unplaced.Reads (Stmt.parser n) before.length s
        (before.length + old.length) ∧
      (Lexed.ofSource source).unplaced.Reads (Stmt.parser n) (before.length + old.length) next
        (before.length + old.length + lost.length) ∧
      ∀ inner semi inner' semi' junk source', old = inner ++ [semi] → lost = inner' ++ [semi'] →
        Ended inner' semi' → Replacement source' before junk semi (lost ++ after) →
        (Lexed.ofSource source').unplaced.Fails (Stmt.parser n) before.length
          (.error (.unexpectedToken semi.text) .origin) (before.length + junk.length + 1) →
        ∃ body', ctx.fill rest = .block body' ∧
          (ofSource source').map unplaced
            = earlier ++ problem (.error (.unexpectedToken semi.text) .origin) ::
                declaration (.function { f with body := some body' }) :: later := by
  have hl := Lexed.unplaced_closed (Lexed.ofSource_closed source)
  obtain ⟨n, m, b, hsite, helements, hn⟩ := exists_site hclean hevents hbody hctx
  obtain ⟨q, hturn, hreads, hmore⟩ := helements.uncons hl hn
  obtain ⟨p, hturn', hreads', hrest⟩ := hmore.uncons hl hn
  have hpb := hrest.le
  have hqp := hturn'.lt
  have hp : p ≤ ((Lexed.ofSource source).tokens.map Token.word).length := by
    have hle := hturn'.le
    rwa [unplaced_tokens rfl, List.length_map] at hle
  obtain ⟨before, old, behind, hwords, rfl, hold⟩ :=
    exists_parts (Nat.le_of_lt hturn.lt) (Nat.le_trans (Nat.le_of_lt hqp) hp)
  have hle : p - q ≤ behind.length := by
    rw [hwords, List.length_append, List.length_append] at hp
    omega
  obtain ⟨lost, after, rfl, hlength⟩ : ∃ lost after, behind = lost ++ after ∧ lost.length = p - q :=
    ⟨_, _, (List.take_append_drop (p - q) behind).symm, List.length_take_of_le hle⟩
  have hlost : q + lost.length = p := by omega
  refine ⟨n, before, old, lost, after, hwords, by rwa [hold], by rwa [hold, hlost], ?_⟩
  rintro inner semi inner' semi' junk source' rfl rfl hended hjunk hfails
  rw [List.length_append, List.length_singleton, ← Nat.add_assoc] at hold hlost
  subst hold hlost
  have hbroken : (Lexed.ofSource source).tokens.map Token.word
      = before ++ inner ++ semi :: (inner' ++ [semi'] ++ after) := by
    rw [hwords]
    simp only [List.append_assoc, List.singleton_append]
  have hpassed : (Lexed.ofSource source).tokens.map Token.word
      = before ++ inner ++ [semi] ++ inner' ++ semi' :: after := by
    rw [hwords]
    simp only [List.append_assoc, List.cons_append, List.nil_append]
  have hs := hjunk.spliced (List.length_pos_iff.mp (hsite.pos hl)) hbroken
  have helse := hmore.not_else hl hn hsite.closed
  rw [← hs.tokenAt_moved (Nat.le_refl _), moved_self] at helse
  have hj := hjunk.toEnded.isJunk hjunk.words helse
  have hskip : (Lexed.ofSource source).unplaced.Reads Stmt.synchronize
      (before.length + inner.length + 1) () (before.length + inner.length + 1 + inner'.length + 1) := by
    have hfront : (before ++ inner ++ [semi]).length = before.length + inner.length + 1 := by
      rw [List.length_append, List.length_append, List.length_singleton]
    rw [← hfront]
    refine Stmt.synchronize_junk (hended.isJunk hpassed ?_) ⟨Nat.le_refl _, Nat.le_add_right _ _⟩
    rw [hfront]
    exact hrest.not_else hl hn hsite.closed
  obtain ⟨body', hbody'⟩ := Stmt.Context.fill_block hctx rest
  refine ⟨body', hbody', ?_⟩
  rw [ofSource_unplaced hjunk.troubles]
  exact hsite.refill hs (Nat.le_trans (Nat.le_of_lt hqp) hpb)
    (Stmt.elements_overrun hs hj hfails hskip (Nat.le_of_lt hqp) hturn'.le hrest) hbody'

end Event

end Nss
