/-
# Where a statement was read

If a statement is read without a note, then every element of a block in it was read in a turn of the loop
over that block.  So there are positions for it: one where the element begins, one behind it, and one for the
brace that closes its block; and what stands around it in the tree was read around those positions
(`Around.of_reads`).

The proof goes down the tree as the parser does.  A statement with others in it can have been read in one
way only (`Composed`), and the elements of a block one by one (`Elements.split`).
-/
import Nss.Proofs.Recovery.Blocks
import Nss.Proofs.Parsing.Constants
import Nss.Proofs.Syntax.Nesting

namespace Nss
namespace Stmt

open Steps

variable {l : Lexed} {n k k' k'' : Nat} {s : Stmt} {before rest stmts : List Stmt}

/-! ## Elements -/

/-- Before the end and the closing brace, the loop over a block has a turn. -/
theorem exists_turn (hl : l.Closed) (hn : n ≤ maxNesting) (hk : k ≤ l.tokens.length)
    (hopen : ¬Closes l k) : ∃ read notes k', Turn l n k read notes k' := by
  obtain ⟨read, k', notes, hlt, hle, hrun⟩ :=
    (blockTurn_turns hl (parser_agrees_of_le hl hn) hk hopen).always
  exact ⟨read, notes, k', hopen, hlt, hle, hrun⟩

/-- What is read in a turn without a note is a statement. -/
theorem Turn.reads {read : Option Stmt} (hl : l.Closed) (hn : n ≤ maxNesting)
    (h : Turn l n k read [] k') : ∃ s, read = some s ∧ l.Reads (parser n) k s k' := by
  have hrun := h.run []
  rw [List.append_nil] at hrun
  exact (parser_agrees_of_le hl hn k).reads_of_recover (Closes l)
    (Nat.le_trans (Nat.le_of_lt h.lt) h.le) h.opened (fun _ => synchronize_skips hl) h.le hrun

theorem Elements.eq_of_nil (hl : l.Closed) (hn : n ≤ maxNesting) (h : Elements l n k [] [] k') :
    k = k' := by
  generalize hstmts : ([] : List Stmt) = stmts at h
  generalize hnotes : ([] : List Diagnostic) = notes at h
  cases h with
  | nil => rfl
  | cons hturn _ =>
      obtain ⟨rfl, -⟩ := List.append_eq_nil_iff.mp hnotes.symm
      obtain ⟨s, rfl, -⟩ := hturn.reads hl hn
      cases hstmts

/-- The first of some elements, and those behind it. -/
theorem Elements.uncons (hl : l.Closed) (hn : n ≤ maxNesting)
    (h : Elements l n k (s :: rest) [] k'') :
    ∃ k', Turn l n k (some s) [] k' ∧ l.Reads (Stmt.parser n) k s k' ∧
      Elements l n k' rest [] k'' := by
  generalize hstmts : s :: rest = stmts at h
  generalize hnotes : ([] : List Diagnostic) = notes at h
  cases h with
  | nil => cases hstmts
  | cons hturn hrest =>
      obtain ⟨rfl, rfl⟩ := List.append_eq_nil_iff.mp hnotes.symm
      obtain ⟨s', rfl, hreads⟩ := hturn.reads hl hn
      obtain ⟨rfl, rfl⟩ := List.cons.inj hstmts
      exact ⟨_, hturn, hreads, hrest⟩

theorem Elements.split (hl : l.Closed) (hn : n ≤ maxNesting)
    (h : Elements l n k (before ++ rest) [] k'') :
    ∃ k', Elements l n k before [] k' ∧ Elements l n k' rest [] k'' := by
  induction before generalizing k with
  | nil => exact ⟨k, .nil k, h⟩
  | cons s before ih =>
      obtain ⟨k₁, hturn, -, hmore⟩ := h.uncons hl hn
      obtain ⟨k₂, hbefore, hrest⟩ := ih hmore
      exact ⟨k₂, .cons hturn hbefore, hrest⟩

/-- If the loop over a block succeeds, it has gone through elements up to the closing brace. -/
theorem Elements.of_blockLoop (hl : l.Closed) (hn : n ≤ maxNesting) {t : ParseState} :
    ∀ (fuel k : Nat) (body : List Stmt) (noted : List Diagnostic), k ≤ l.tokens.length →
      l.tokens.length < fuel + k →
      Stmt.blockLoop (Stmt.parser n) fuel body (l.stateAt k noted) = .ok stmts t →
      ∃ more notes b, stmts = body ++ more ∧ t = l.stateAt (b + 1) (noted ++ notes) ∧
        Elements l n k more notes b ∧ (l.tokenAt b).kind = .rBrace
  | 0, k, _, _, hk, hfuel, _ => by omega
  | fuel + 1, k, body, noted, hk, hfuel, h => by
      rw [Stmt.blockLoop, bind_of_ok (l.reads_peek k noted)] at h
      by_cases hclose : (l.tokenAt k).kind = .rBrace
      · have hlt := hl.lt_of_kind hk (by rw [hclose]; decide)
        rw [if_pos hclose, bind_of_ok (hl.reads_advance hlt noted)] at h
        obtain ⟨rfl, rfl⟩ := EStateM.Result.ok.inj h
        exact ⟨[], [], k, (List.append_nil _).symm, by rw [List.append_nil], .nil k, hclose⟩
      · rw [if_neg hclose] at h
        by_cases hend : (l.tokenAt k).kind = .eof
        · rw [if_pos hend] at h
          cases h
        · obtain ⟨read, notes, k', hturn⟩ :=
            exists_turn hl hn hk fun hcloses => hcloses.elim hclose hend
          have hlt := hturn.lt
          rw [if_neg hend, bind_of_ok (hturn.run noted)] at h
          obtain ⟨more, notes', b, rfl, rfl, hmore, hbrace⟩ :=
            of_blockLoop hl hn fuel k' _ _ hturn.le (by omega) h
          refine ⟨read.toList ++ more, notes ++ notes', b, ?_, ?_, .cons hturn hmore, hbrace⟩
          · rw [List.append_assoc]
          · rw [List.append_assoc]

theorem Elements.of_blockBody (hl : l.Closed) (hn : n ≤ maxNesting) (hk : k ≤ l.tokens.length)
    (hk' : k' ≤ l.tokens.length) (h : l.Reads (Stmt.blockBody (Stmt.parser n)) k stmts k') :
    (l.tokenAt k).kind = .lBrace ∧
      ∃ b, k' = b + 1 ∧ Elements l n (k + 1) stmts [] b ∧ (l.tokenAt b).kind = .rBrace := by
  have hrun := h []
  rw [Stmt.blockBody] at hrun
  by_cases hopen : (l.tokenAt k).kind = .lBrace
  · have hlt := hl.lt_of_kind hk (by rw [hopen]; decide)
    rw [bind_of_ok (hl.reads_expect hlt hopen _ []),
      bind_of_ok (l.remaining_stateAt (k + 1) [])] at hrun
    obtain ⟨more, notes, b, rfl, hstate, hmore, hbrace⟩ :=
      of_blockLoop hl hn _ (k + 1) [] [] hlt (by omega) hrun
    have hb := hl.lt_length_of_kind (by rw [hbrace]; decide)
    obtain ⟨rfl, hnotes⟩ := Lexed.stateAt_inj hk' hb hstate
    obtain rfl := hnotes
    exact ⟨hopen, b, rfl, hmore, hbrace⟩
  · rw [bind_apply, Lexed.fails_expect hopen _ []] at hrun
    cases hrun

/-! ## The word between two branches -/

/-- No expression begins with the word that stands between the branches of a conditional statement. -/
theorem expr_else {noted : List Diagnostic} (hl : l.Closed) (hk : k < l.tokens.length)
    (helse : (l.tokenAt k).kind = .elseWord) :
    ∃ d t, Expr.parser n (l.stateAt k noted) = .error d t := by
  have hoperand : ∃ d t, Expr.operand n (l.stateAt k noted) = .error d t := by
    cases n with
    | zero => exact ⟨_, _, rfl⟩
    | succ n =>
        refine ⟨.error (.unexpectedToken (l.tokenAt k).text) (l.tokenAt k).span,
          l.stateAt (k + 1) noted, ?_⟩
        rw [Expr.operand, bind_of_ok (l.reads_peek k noted), helse]
        refine (bind_of_ok (hl.reads_advance hk noted)).trans ?_
        rw [helse]
        rfl
  obtain ⟨d, t, hoperand⟩ := hoperand
  exact ⟨d, t, Expr.operations_of_error hoperand 6⟩

theorem parser_not_else (hl : l.Closed) (h : l.Reads (parser n) k s k') :
    (l.tokenAt k).kind ≠ .elseWord := by
  intro helse
  have hk := hl.lt_length_of_kind (by rw [helse]; decide)
  have hrun := h []
  cases n with
  | zero => cases hrun
  | succ n =>
      obtain ⟨d, t, hfails⟩ : ∃ d t, Expr.parser n (l.stateAt k []) = .error d t :=
        expr_else hl hk helse
      rw [parser, ofParts, bind_of_ok (l.reads_peek k []), helse] at hrun
      obtain ⟨_, _, hvalue, -⟩ := bind_eq_ok.mp hrun
      rw [hfails] at hvalue
      cases hvalue

/-- The word does not stand behind an element of a block. -/
theorem Elements.not_else (hl : l.Closed) (hn : n ≤ maxNesting) (h : Elements l n k rest [] k')
    (hbrace : (l.tokenAt k').kind = .rBrace) : (l.tokenAt k).kind ≠ .elseWord := by
  generalize hnotes : ([] : List Diagnostic) = notes at h
  cases h with
  | nil =>
      rw [hbrace]
      decide
  | cons hturn _ =>
      obtain ⟨rfl, -⟩ := List.append_eq_nil_iff.mp hnotes.symm
      obtain ⟨s, -, hreads⟩ := hturn.reads hl hn
      exact parser_not_else hl hreads

/-! ## Statements with others in them -/

/-- A statement that has no others in it. -/
def Plain : Stmt → Prop
  | var _ | assign _ _ _ | expr _ | ret _ _ | block [] => True
  | block (_ :: _) | ifThen _ _ | ifElse _ _ _ | loop _ _ => False

theorem Context.fill_not_plain (ctx : Context) : ¬(ctx.fill (s :: rest)).Plain := by
  cases ctx with
  | tail before => cases before <;> exact id
  | element before inner after => cases before <;> exact id
  | ifThen | ifBody | ifOther | loop => exact id

section

variable {expr : ScriptParser Expr}

theorem returned_plain : Gives Plain (returned expr) := by
  refine .andThen fun first => .andThen fun ended => ?_
  have hrest (value : Option Expr) : Gives Plain (do
      let _ ← ScriptParser.expect .semi "\";\" after return"
      return ret value (first.span.cover (← ScriptParser.previousSpan)) : ScriptParser Stmt) :=
    .andThen fun _ => .andThen fun _ => .pure trivial
  cases ended with
  | true => exact hrest none
  | false => exact .andThen hrest

theorem localVariable_plain : Gives Plain (localVariable expr) := by
  refine .andThen fun _ => .andThen fun type => ?_
  split
  · exact .throw _
  · exact .andThen fun _ => .andThen fun _ => .andThen fun _ => .andThen fun _ => .pure trivial

theorem assignment_plain : Gives Plain (assignment expr) :=
  .andThen fun _ => .andThen fun _ => .andThen fun _ => .andThen fun _ => .andThen fun _ =>
    .pure trivial

theorem expression_plain : Gives Plain (expression expr) :=
  .andThen fun _ => .andThen fun _ => .pure trivial

/-- What begins neither with a brace nor with one of two words has no statements in it. -/
theorem parser_plain {noted : List Diagnostic} {t : ParseState} (hbrace : (l.tokenAt k).kind ≠ .lBrace)
    (hif : (l.tokenAt k).kind ≠ .ifWord) (hwhile : (l.tokenAt k).kind ≠ .whileWord)
    (h : parser (n + 1) (l.stateAt k noted) = .ok s t) : s.Plain := by
  rw [parser, ofParts, bind_of_ok (l.reads_peek k noted)] at h
  cases hkind : (l.tokenAt k).kind with
  | lBrace => exact absurd hkind hbrace
  | ifWord => exact absurd hkind hif
  | whileWord => exact absurd hkind hwhile
  | semi =>
      rw [hkind] at h
      exact Gives.andThen (fun _ => .pure trivial) _ _ _ h
  | returnWord =>
      rw [hkind] at h
      exact returned_plain _ _ _ h
  | ident =>
      rw [hkind] at h
      refine Gives.andThen (fun typed => ?_) _ _ _ h
      split
      · exact localVariable_plain
      · refine .andThen fun second => ?_
        split
        · exact assignment_plain
        · exact expression_plain
  | _ =>
      rw [hkind] at h
      exact expression_plain _ _ _ h

end

/-- How a statement with others in it was read. -/
inductive Composed (l : Lexed) (n k : Nat) : Nat → Stmt → Prop
  | block {b : Nat} {stmts : List Stmt} : (l.tokenAt k).kind = .lBrace →
      Elements l n (k + 1) stmts [] b → (l.tokenAt b).kind = .rBrace →
      Composed l n k (b + 1) (block stmts)
  | ifThen {k₁ k₂ : Nat} {cond : Expr} {body : Stmt} : (l.tokenAt k).kind = .ifWord →
      l.Reads (condition (Expr.parser n) "if") (k + 1) cond k₁ → k₁ < l.tokens.length →
      l.Reads (parser n) k₁ body k₂ → (l.tokenAt k₂).kind ≠ .elseWord →
      Composed l n k k₂ (ifThen cond body)
  | ifElse {k₁ k₂ k₃ : Nat} {cond : Expr} {body other : Stmt} : (l.tokenAt k).kind = .ifWord →
      l.Reads (condition (Expr.parser n) "if") (k + 1) cond k₁ → k₁ < l.tokens.length →
      l.Reads (parser n) k₁ body k₂ → (l.tokenAt k₂).kind = .elseWord →
      l.Reads (parser n) (k₂ + 1) other k₃ → Composed l n k k₃ (ifElse cond body other)
  | loop {k₁ k₂ : Nat} {cond : Expr} {body : Stmt} : (l.tokenAt k).kind = .whileWord →
      l.Reads (condition (Expr.parser n) "while") (k + 1) cond k₁ → k₁ < l.tokens.length →
      l.Reads (parser n) k₁ body k₂ → Composed l n k k₂ (loop cond body)

theorem Composed.of_conditional (hl : l.Closed) (hn : n ≤ maxNesting) (hk : k < l.tokens.length)
    (hk' : k' ≤ l.tokens.length) (hif : (l.tokenAt k).kind = .ifWord)
    (h : l.Reads (conditional (parser n) (Expr.parser n)) k s k') : Composed l n k k' s := by
  have hrun := h []
  rw [conditional, bind_of_ok (hl.reads_advance hk [])] at hrun
  obtain ⟨cond, t, hcond, hrun⟩ := bind_eq_ok.mp hrun
  obtain ⟨k₁, more, hk₁, hle₁, rfl, hreads₁⟩ :=
    (condition_agrees_of_le hl hn "if" (k + 1)).reads hk hcond
  obtain ⟨body, t, hbody, hrun⟩ := bind_eq_ok.mp hrun
  obtain ⟨k₂, more', hk₂, hle₂, rfl, hreads₂⟩ := (parser_agrees_of_le hl hn k₁).reads hle₁ hbody
  by_cases helse : (l.tokenAt k₂).kind = .elseWord
  · have hlt := hl.lt_of_kind hle₂ (by rw [helse]; decide)
    rw [bind_of_ok (hl.reads_eat hlt helse _), if_pos rfl] at hrun
    obtain ⟨other, t, hother, hrun⟩ := bind_eq_ok.mp hrun
    obtain ⟨k₃, more'', hk₃, hle₃, rfl, hreads₃⟩ := (parser_agrees_of_le hl hn _).reads hlt hother
    obtain ⟨rfl, hstate⟩ := EStateM.Result.ok.inj hrun
    obtain ⟨rfl, hnotes⟩ := Lexed.stateAt_inj hle₃ hk' hstate
    obtain ⟨hmore, rfl⟩ := List.append_eq_nil_iff.mp hnotes
    obtain ⟨rfl, rfl⟩ := List.append_eq_nil_iff.mp hmore
    exact .ifElse hif (hreads₁ rfl) (by omega) (hreads₂ rfl) helse (hreads₃ rfl)
  · rw [bind_of_ok (Lexed.reads_eat_other helse _)] at hrun
    obtain ⟨rfl, hstate⟩ := EStateM.Result.ok.inj hrun
    obtain ⟨rfl, hnotes⟩ := Lexed.stateAt_inj hle₂ hk' hstate
    obtain ⟨rfl, rfl⟩ := List.append_eq_nil_iff.mp hnotes
    exact .ifThen hif (hreads₁ rfl) (by omega) (hreads₂ rfl) helse

theorem Composed.of_whileLoop (hl : l.Closed) (hn : n ≤ maxNesting) (hk : k < l.tokens.length)
    (hk' : k' ≤ l.tokens.length) (hwhile : (l.tokenAt k).kind = .whileWord)
    (h : l.Reads (whileLoop (parser n) (Expr.parser n)) k s k') : Composed l n k k' s := by
  have hrun := h []
  rw [whileLoop, bind_of_ok (hl.reads_advance hk [])] at hrun
  obtain ⟨cond, t, hcond, hrun⟩ := bind_eq_ok.mp hrun
  obtain ⟨k₁, more, hk₁, hle₁, rfl, hreads₁⟩ :=
    (condition_agrees_of_le hl hn "while" (k + 1)).reads hk hcond
  obtain ⟨body, t, hbody, hrun⟩ := bind_eq_ok.mp hrun
  obtain ⟨k₂, more', hk₂, hle₂, rfl, hreads₂⟩ := (parser_agrees_of_le hl hn k₁).reads hle₁ hbody
  obtain ⟨rfl, hstate⟩ := EStateM.Result.ok.inj hrun
  obtain ⟨rfl, hnotes⟩ := Lexed.stateAt_inj hle₂ hk' hstate
  obtain ⟨rfl, rfl⟩ := List.append_eq_nil_iff.mp hnotes
  exact .loop hwhile (hreads₁ rfl) (by omega) (hreads₂ rfl)

/-- A statement with others in it is a block, a conditional statement or a loop. -/
theorem Composed.of_reads (hl : l.Closed) (hn : n ≤ maxNesting) (hk : k ≤ l.tokens.length)
    (hk' : k' ≤ l.tokens.length) (hs : ¬s.Plain) (h : l.Reads (parser (n + 1)) k s k') :
    Composed l n k k' s := by
  have hpeek (noted : List Diagnostic) : parser (n + 1) (l.stateAt k noted) = _ :=
    bind_of_ok (l.reads_peek k noted)
  by_cases hopen : (l.tokenAt k).kind = .lBrace
  · have hblock : l.Reads (Stmt.block <$> blockBody (parser n)) k s k' := by
      intro noted
      rw [← h noted, parser_block hopen]
    obtain ⟨stmts, rfl, hbody⟩ := hblock.of_map fun _ _ => Stmt.block.inj
    obtain ⟨-, b, rfl, helements, hbrace⟩ := Elements.of_blockBody hl hn hk hk' hbody
    exact .block hopen helements hbrace
  · by_cases hif : (l.tokenAt k).kind = .ifWord
    · refine .of_conditional hl hn (hl.lt_of_kind hk (by rw [hif]; decide)) hk' hif fun noted => ?_
      rw [← h noted, hpeek, hif]
    · by_cases hwhile : (l.tokenAt k).kind = .whileWord
      · refine .of_whileLoop hl hn (hl.lt_of_kind hk (by rw [hwhile]; decide)) hk' hwhile
          fun noted => ?_
        rw [← h noted, hpeek, hwhile]
      · exact absurd (parser_plain hopen hif hwhile (h [])) hs

/-! ## Elements of a block anywhere in a statement -/

theorem Composed.of_fill (hl : l.Closed) {ctx : Context} (hn : n ≤ maxNesting + 1)
    (hk : k ≤ l.tokens.length) (hk' : k' ≤ l.tokens.length)
    (h : l.Reads (parser n) k (ctx.fill (s :: rest)) k') :
    ∃ i, n = i + 1 ∧ i ≤ maxNesting ∧ Composed l i k k' (ctx.fill (s :: rest)) := by
  cases n with
  | zero => cases h []
  | succ i =>
      have hi := Nat.le_of_succ_le_succ hn
      exact ⟨i, rfl, hi, .of_reads hl hi hk hk' ctx.fill_not_plain h⟩

/-- If a statement is read without a note, then some elements of a block in it are, and the statement is
read around them. -/
theorem Around.of_reads (hl : l.Closed) (ctx : Context) (hn : n ≤ maxNesting + 1)
    (hk : k ≤ l.tokens.length) (hk' : k' ≤ l.tokens.length)
    (h : l.Reads (parser n) k (ctx.fill (s :: rest)) k') :
    ∃ m i b, Around l m i b n k k' ctx ∧ Elements l i m (s :: rest) [] b ∧ i ≤ maxNesting := by
  induction ctx generalizing n k k' with
  | tail before =>
      obtain ⟨i, rfl, hi, hcomposed⟩ := Composed.of_fill hl hn hk hk' h
      cases hcomposed with
      | block hopen helements hbrace =>
          obtain ⟨m, hbefore, hrest⟩ := helements.split hl hi
          exact ⟨m, i, _, .tail hopen hbefore hbrace, hrest, hi⟩
  | element before inner after ih =>
      obtain ⟨i, rfl, hi, hcomposed⟩ := Composed.of_fill hl hn hk hk' h
      cases hcomposed with
      | block hopen helements hbrace =>
          obtain ⟨k₁, hbefore, hmore⟩ := helements.split hl hi
          obtain ⟨k₂, hturn, hinner, hrest⟩ := hmore.uncons hl hi
          have hle := Nat.le_trans (Nat.le_of_lt hturn.lt) hturn.le
          obtain ⟨m, j, b, haround, hstmts, hj⟩ := ih (Nat.le_succ_of_le hi) hle hturn.le hinner
          exact ⟨m, j, b, .element hopen hbefore haround hrest hbrace, hstmts, hj⟩
  | ifThen cond inner ih =>
      obtain ⟨i, rfl, hi, hcomposed⟩ := Composed.of_fill hl hn hk hk' h
      cases hcomposed with
      | ifThen hif hcond hlt hbody hnot =>
          obtain ⟨m, j, b, haround, hstmts, hj⟩ :=
            ih (Nat.le_succ_of_le hi) (Nat.le_of_lt hlt) hk' hbody
          exact ⟨m, j, b, .ifThen hif hcond haround hnot, hstmts, hj⟩
  | ifBody cond inner other ih =>
      obtain ⟨i, rfl, hi, hcomposed⟩ := Composed.of_fill hl hn hk hk' h
      cases hcomposed with
      | ifElse hif hcond hlt hbody helse hother =>
          have hlt' := hl.lt_length_of_kind (by rw [helse]; decide)
          obtain ⟨m, j, b, haround, hstmts, hj⟩ :=
            ih (Nat.le_succ_of_le hi) (Nat.le_of_lt hlt) (Nat.le_of_lt hlt') hbody
          exact ⟨m, j, b, .ifBody hif hcond haround helse hother hk', hstmts, hj⟩
  | ifOther cond body inner ih =>
      obtain ⟨i, rfl, hi, hcomposed⟩ := Composed.of_fill hl hn hk hk' h
      cases hcomposed with
      | ifElse hif hcond hlt hbody helse hother =>
          have hlt' := hl.lt_length_of_kind (by rw [helse]; decide)
          obtain ⟨m, j, b, haround, hstmts, hj⟩ := ih (Nat.le_succ_of_le hi) hlt' hk' hother
          exact ⟨m, j, b, .ifOther hif hcond hbody hlt helse haround, hstmts, hj⟩
  | loop cond inner ih =>
      obtain ⟨i, rfl, hi, hcomposed⟩ := Composed.of_fill hl hn hk hk' h
      cases hcomposed with
      | loop hwhile hcond hlt hbody =>
          obtain ⟨m, j, b, haround, hstmts, hj⟩ :=
            ih (Nat.le_succ_of_le hi) (Nat.le_of_lt hlt) hk' hbody
          exact ⟨m, j, b, .loop hwhile hcond haround, hstmts, hj⟩

end Stmt
end Nss
