/-
# Reading printed statements

What is printed of a statement is read as that statement, without places.  The first word tells which
kind of statement follows; only an assignment and an expression that begins with a name are told apart
by the second one.  A condition without an alternative must not stand before the word `else`.
-/
import Nss.Proofs.Printing.Expressions
import Nss.Syntax.Parser.Statement

namespace Nss

theorem VarDecl.init_nesting_le {leaf n : Nat} (decl : VarDecl) (h : decl.nesting leaf ≤ n) :
    ∀ e ∈ decl.init, e.nesting leaf 6 ≤ n := by
  intro e he
  rw [nesting, he] at h
  exact h

namespace Stmt

open ScriptParser
open Word (mark next)

/-! ## First words -/

/-- A statement does not begin with a word that ends a block or goes on with another statement. -/
def begins : TokenKind → Bool
  | .eof | .rBrace | .elseWord => false
  | _ => true

theorem begins_of_opens {kind : TokenKind} (h : kind.opens = true) : begins kind = true := by
  cases kind <;> first | rfl | cases h

theorem words_eq_cons {s : Stmt} (hs : s.isPrintable = true) :
    ∃ w ws, s.words = w :: ws ∧ begins w.kind = true := by
  cases s with
  | expr value =>
      obtain ⟨w, ws, hwords, hopens, -⟩ := value.words_eq_cons hs 6
      refine ⟨w, ws ++ [mark .semi], ?_, begins_of_opens hopens⟩
      rw [words, hwords]
      rfl
  | ret value _ => cases value <;> exact ⟨_, _, rfl, rfl⟩
  | _ => exact ⟨_, _, rfl, rfl⟩

theorem next_ne {s : Stmt} (hs : s.isPrintable = true) (rest : List Word) {kind : TokenKind}
    (hkind : begins kind = false) : (next (s.words ++ rest)).kind ≠ kind := by
  obtain ⟨w, ws, hwords, hbegins⟩ := words_eq_cons hs
  rw [hwords]
  rintro rfl
  exact Bool.false_ne_true (hkind.symm.trans hbegins)

/-! ## Parts of statements -/

section

variable {expr : ScriptParser Expr} {stmt : ScriptParser Stmt} {ws rest rest' : List Word}

theorem reads_condition {cond : Expr}
    (h : Reads expr (ws ++ mark .rParen :: rest) cond (mark .rParen :: rest)) (after : String) :
    Reads (condition expr after) (Word.parenthesized ws ++ rest) cond rest := by
  rw [Word.parenthesized_append]
  refine (reads_mark _ _ _).bind (h.bind ?_)
  exact (reads_mark _ _ rest).bind (.pure cond rest)

theorem reads_ifThen {cond : Expr} {body : Stmt}
    (hcond : Reads expr (ws ++ mark .rParen :: rest) cond (mark .rParen :: rest))
    (hbody : Reads stmt rest body rest') (hrest : (next rest').kind ≠ .elseWord) :
    Reads (conditional stmt expr) (mark .ifWord :: (Word.parenthesized ws ++ rest))
      (ifThen cond body) rest' := by
  refine (reads_advance _ _).bind ((reads_condition hcond _).bind (hbody.bind ?_))
  exact (reads_eat_other hrest).bind (.pure _ rest')

theorem reads_ifElse {cond : Expr} {body other : Stmt} {rest'' : List Word}
    (hcond : Reads expr (ws ++ mark .rParen :: rest) cond (mark .rParen :: rest))
    (hbody : Reads stmt rest body (mark .elseWord :: rest')) (hother : Reads stmt rest' other rest'') :
    Reads (conditional stmt expr) (mark .ifWord :: (Word.parenthesized ws ++ rest))
      (ifElse cond body other) rest'' := by
  refine (reads_advance _ _).bind ((reads_condition hcond _).bind (hbody.bind ?_))
  exact (reads_eat .elseWord rest').bind (hother.bind (.pure _ rest''))

theorem reads_whileLoop {cond : Expr} {body : Stmt}
    (hcond : Reads expr (ws ++ mark .rParen :: rest) cond (mark .rParen :: rest))
    (hbody : Reads stmt rest body rest') :
    Reads (whileLoop stmt expr) (mark .whileWord :: (Word.parenthesized ws ++ rest))
      (loop cond body) rest' := by
  refine (reads_advance _ _).bind ((reads_condition hcond _).bind (hbody.bind ?_))
  exact .pure _ rest'

theorem reads_returned_none : Reads (returned expr) (mark .returnWord :: mark .semi :: rest)
    (ret none .origin) rest := by
  refine (reads_advance _ _).bind ((reads_isAt _ _).bind ?_)
  refine (Reads.pure none _).bind ((reads_mark _ _ rest).bind ?_)
  exact (reads_previousSpan rest).bind (.pure _ rest)

theorem reads_returned_some {value : Expr} (hfirst : (next ws).kind ≠ .semi)
    (h : Reads expr ws value (mark .semi :: rest)) :
    Reads (returned expr) (mark .returnWord :: ws) (ret (some value) .origin) rest := by
  refine (reads_advance _ ws).bind ((reads_isAt _ ws).bind ?_)
  rw [decide_eq_false hfirst]
  refine h.map.bind ((reads_mark _ _ rest).bind ?_)
  exact (reads_previousSpan rest).bind (.pure _ rest)

theorem reads_initializer_none (h : (next rest).kind ≠ .assign) :
    Reads (initializer expr) rest none rest :=
  (reads_eat_other h).bind (.pure none rest)

theorem reads_initializer_some {value : Expr} (h : Reads expr ws value rest) :
    Reads (initializer expr) (mark .assign :: ws) (some value) rest :=
  (reads_eat .assign ws).bind h.map

theorem reads_localVariable {decl : VarDecl} (htype : decl.type.isVoid = false)
    (hinit : Reads (initializer expr) ws (decl.init.map Expr.unplaced) (mark .semi :: rest)) :
    Reads (localVariable expr) (.ident decl.type.name :: .ident decl.name :: ws)
      (var decl.unplaced) rest := by
  refine (reads_peek _).bind ((reads_valueType decl.type _).bind ?_)
  rw [htype]
  refine (reads_ident _ _ ws).bind (hinit.bind ((reads_mark _ _ rest).bind ?_))
  exact (reads_previousSpan rest).bind (.pure _ rest)

theorem reads_assignment {name : String} {value : Expr} (h : Reads expr ws value (mark .semi :: rest)) :
    Reads (assignment expr) (.ident name :: mark .assign :: ws) (assign name value .origin) rest := by
  refine (reads_advance _ _).bind ((reads_advance _ ws).bind (h.bind ?_))
  refine (reads_mark _ _ rest).bind ?_
  exact (reads_previousSpan rest).bind (.pure _ rest)

theorem reads_expression {value : Expr} (h : Reads expr ws value (mark .semi :: rest)) :
    Reads (expression expr) ws (Stmt.expr value) rest :=
  h.bind ((reads_mark _ _ rest).bind (.pure _ rest))

/-- What begins as an expression is one: with a name, no type and no assignment. -/
theorem reads_ofParts_expr {e : Expr} (he : e.isPrintable = true)
    (h : Reads expr (e.words 6 ++ mark .semi :: rest) e.unplaced (mark .semi :: rest)) :
    Reads (ofParts stmt expr) (e.words 6 ++ mark .semi :: rest) (Stmt.expr e.unplaced) rest := by
  obtain ⟨w, ws, hwords, hopens, hident⟩ := e.words_eq_cons he 6
  rw [hwords] at h ⊢
  have hread := reads_expression h
  refine (reads_peek _).bind ?_
  obtain ⟨kind, text⟩ := w
  cases kind with
  | ident =>
      obtain ⟨htype, hassign⟩ := hident rfl
      refine (reads_isAtType _).bind ?_
      rw [show (next (⟨.ident, text⟩ :: ws ++ mark .semi :: rest)).text = text from rfl, htype]
      refine (reads_peekSecond _).bind ?_
      have hsecond : (next (⟨.ident, text⟩ :: ws ++ mark .semi :: rest).tail).token.kind ≠ .assign :=
        hassign (mark .semi :: rest) nofun
      rw [if_neg hsecond]
      exact hread
  | intLiteral | floatLiteral | stringLiteral | lParen | minus | bang => exact hread
  | _ => cases hopens

theorem reads_ofParts_var {decl : VarDecl}
    (h : Reads (localVariable expr) (decl.words ++ rest) (var decl.unplaced) rest) :
    Reads (ofParts stmt expr) (decl.words ++ rest) (var decl.unplaced) rest := by
  refine (reads_peek _).bind ((reads_isAtType _).bind ?_)
  have htype : ((next (decl.words ++ rest)).kind = .ident &&
      (ValueType.ofName? (next (decl.words ++ rest)).text).isSome) = true := by
    show (decide (TokenKind.ident = .ident) && (ValueType.ofName? decl.type.name).isSome) = true
    rw [ofName?_name]
    rfl
  rw [htype]
  exact h

theorem reads_ofParts_assign {name : String} (hname : isName name = true) {s : Stmt}
    (h : Reads (assignment expr) (.ident name :: mark .assign :: ws) s rest) :
    Reads (ofParts stmt expr) (.ident name :: mark .assign :: ws) s rest := by
  refine (reads_peek _).bind ((reads_isAtType _).bind ?_)
  rw [show (next (.ident name :: mark .assign :: ws)).text = name from rfl, ofName?_eq_none hname]
  exact (reads_peekSecond _).bind h

end

/-! ## All statements -/

theorem length_le_allWords {ss : List Stmt} (h : allPrintable ss = true) :
    ss.length ≤ (allWords ss).length := by
  induction ss with
  | nil => exact Nat.zero_le _
  | cons s rest ih =>
      obtain ⟨hs, hrest⟩ := Bool.and_eq_true_iff.mp h
      obtain ⟨w, ws, hwords, -⟩ := words_eq_cons hs
      have := ih hrest
      rw [allWords, hwords, List.length_append, List.length_cons, List.length_cons]
      omega

theorem one_le_nesting (leaf : Nat) (s : Stmt) : 1 ≤ s.nesting leaf := by
  cases s with
  | ret value _ => cases value <;> simp [nesting]
  | _ => simp [nesting]

/-- A block is read when its statements are. -/
theorem reads_blockBody {stmt : ScriptParser Stmt} {body : List Stmt} (h : allPrintable body = true)
    {rest : List Word}
    (hbody : ∀ fuel, body.length < fuel → Reads (blockLoop stmt fuel [])
      (allWords body ++ mark .rBrace :: rest) (body.map unplaced) rest) :
    Reads (blockBody stmt) ((block body).words ++ rest) (body.map unplaced) rest := by
  have hwords : (block body).words ++ rest
      = mark .lBrace :: (allWords body ++ mark .rBrace :: rest) := by
    simp [words]
  rw [hwords]
  refine (reads_mark _ _ _).bind ((reads_remaining _).bind (hbody _ ?_))
  have hlength := length_le_allWords h
  rw [List.length_append]
  omega

/-- The statements of a block are read one after the other. -/
theorem blockLoop_step {stmt : ScriptParser Stmt} {ws rest : List Word} {s : Stmt}
    (hend : (next ws).kind ≠ .rBrace) (heof : (next ws).kind ≠ .eof) (h : Reads stmt ws s rest)
    (fuel : Nat) (before : List Stmt) :
    blockLoop stmt (fuel + 1) before (.over ws) = blockLoop stmt fuel (before ++ [s]) (.over rest) := by
  rw [blockLoop, (reads_peek ws).bind_eq]
  rw [if_neg (show ¬ (next ws).token.kind = .rBrace from hend),
    if_neg (show ¬ (next ws).token.kind = .eof from heof)]
  exact h.recover.bind_eq

/-- The value that a variable begins with is read up to the semicolon. -/
theorem reads_initializer {init : Option Expr} {d : Nat} (hinit : init.all Expr.isPrintable = true)
    (hd : ∀ e ∈ init, e.nesting 1 6 ≤ d) (rest : List Word) :
    Reads (initializer (Expr.parser d)) (VarDecl.initWords init ++ mark .semi :: rest)
      (init.map Expr.unplaced) (mark .semi :: rest) := by
  cases init with
  | none => exact reads_initializer_none nofun
  | some e =>
      exact reads_initializer_some
        (Expr.reads_words hinit (hd e rfl) (.mark .semi nofun rfl 6 rest))

mutual

/-- What is printed of a statement is read as that statement. -/
theorem reads_words : ∀ (s : Stmt), s.isPrintable = true → ∀ n, s.nesting 1 ≤ n → ∀ rest,
    (s.endsOpen = true → (next rest).kind ≠ .elseWord) →
      Reads (parser n) (s.words ++ rest) s.unplaced rest
  | s, _, 0, hn, _, _ => absurd (one_le_nesting 1 s) (Nat.not_le.mpr (Nat.lt_succ_of_le hn))
  | block body, hs, n + 1, hn, rest, _ => by
      have hread := reads_blockBody hs fun fuel =>
        reads_blockLoop body hs n (Nat.le_of_succ_le_succ hn) rest fuel []
      rw [unplaced_block]
      exact (reads_peek _).bind hread.map
  | var decl, hs, n + 1, hn, rest, _ => by
      have hs' : decl.isPrintable = true := hs
      simp only [VarDecl.isPrintable, Bool.and_eq_true, Bool.not_eq_true'] at hs'
      obtain ⟨⟨htype, -⟩, hinit⟩ := hs'
      have hdepth := decl.init_nesting_le (Nat.le_of_succ_le_succ hn)
      have hread := reads_localVariable htype (reads_initializer hinit hdepth rest)
      refine reads_ofParts_var ?_
      simpa [VarDecl.words] using hread
  | assign name value span, hs, n + 1, hn, rest, _ => by
      obtain ⟨hname, hvalue⟩ := Bool.and_eq_true_iff.mp hs
      have hread := Expr.reads_words hvalue (Nat.le_of_succ_le_succ hn)
        (.mark .semi nofun rfl 6 rest)
      have hwords : (assign name value span).words ++ rest
          = .ident name :: mark .assign :: (value.words 6 ++ mark .semi :: rest) := by
        simp [words]
      rw [hwords]
      exact reads_ofParts_assign hname (reads_assignment hread)
  | expr value, hs, n + 1, hn, rest, _ => by
      have hread := Expr.reads_words hs (Nat.le_of_succ_le_succ hn) (.mark .semi nofun rfl 6 rest)
      rw [words, List.append_assoc]
      exact reads_ofParts_expr hs hread
  | ifThen cond body, hs, n + 1, hn, rest, hrest => by
      obtain ⟨hcond, hbody⟩ := Bool.and_eq_true_iff.mp hs
      obtain ⟨hdcond, hdbody⟩ := Nat.max_le.mp (Nat.le_of_succ_le_succ hn)
      have hreadCond :=
        Expr.reads_words hcond hdcond (.mark .rParen nofun rfl 6 (body.words ++ rest))
      have hreadBody := reads_words body hbody n hdbody rest fun _ => hrest rfl
      have hwords : (ifThen cond body).words ++ rest
          = mark .ifWord :: (Word.parenthesized (cond.words 6) ++ (body.words ++ rest)) := by
        simp [words]
      rw [hwords]
      exact (reads_peek _).bind (reads_ifThen hreadCond hreadBody (hrest rfl))
  | ifElse cond body other, hs, n + 1, hn, rest, hrest => by
      simp only [isPrintable, Bool.and_eq_true, Bool.not_eq_true'] at hs
      obtain ⟨⟨⟨hcond, hbody⟩, hother⟩, hclosed⟩ := hs
      obtain ⟨hdcond, hd⟩ := Nat.max_le.mp (Nat.le_of_succ_le_succ hn)
      obtain ⟨hdbody, hdother⟩ := Nat.max_le.mp hd
      have hreadOther := reads_words other hother n hdother rest hrest
      -- the alternative belongs to this condition, since no open one is left in the body
      have hreadBody := reads_words body hbody n hdbody (mark .elseWord :: (other.words ++ rest))
        fun hopen => absurd (hclosed.symm.trans hopen) Bool.false_ne_true
      have hreadCond := Expr.reads_words hcond hdcond (.mark .rParen nofun rfl 6
        (body.words ++ mark .elseWord :: (other.words ++ rest)))
      have hwords : (ifElse cond body other).words ++ rest = mark .ifWord ::
          (Word.parenthesized (cond.words 6) ++
            (body.words ++ mark .elseWord :: (other.words ++ rest))) := by
        simp [words]
      rw [hwords]
      exact (reads_peek _).bind (reads_ifElse hreadCond hreadBody hreadOther)
  | loop cond body, hs, n + 1, hn, rest, hrest => by
      obtain ⟨hcond, hbody⟩ := Bool.and_eq_true_iff.mp hs
      obtain ⟨hdcond, hdbody⟩ := Nat.max_le.mp (Nat.le_of_succ_le_succ hn)
      have hreadCond :=
        Expr.reads_words hcond hdcond (.mark .rParen nofun rfl 6 (body.words ++ rest))
      have hreadBody := reads_words body hbody n hdbody rest hrest
      have hwords : (loop cond body).words ++ rest
          = mark .whileWord :: (Word.parenthesized (cond.words 6) ++ (body.words ++ rest)) := by
        simp [words]
      rw [hwords]
      exact (reads_peek _).bind (reads_whileLoop hreadCond hreadBody)
  | ret none _, _, n + 1, _, rest, _ => (reads_peek _).bind reads_returned_none
  | ret (some value) span, hs, n + 1, hn, rest, _ => by
      have hvalue : value.isPrintable = true := hs
      have hread := Expr.reads_words hvalue (Nat.le_of_succ_le_succ hn)
        (.mark .semi nofun rfl 6 rest)
      have hwords : (ret (some value) span).words ++ rest
          = mark .returnWord :: (value.words 6 ++ mark .semi :: rest) := by
        simp [words]
      rw [hwords]
      exact (reads_peek _).bind (reads_returned_some (Expr.next_ne hvalue 6 _ rfl) hread)

theorem reads_blockLoop : ∀ (body : List Stmt), allPrintable body = true → ∀ n,
    allNesting 1 body ≤ n → ∀ rest fuel before, body.length < fuel →
      Reads (blockLoop (parser n) fuel before) (allWords body ++ mark .rBrace :: rest)
        (before ++ body.map unplaced) rest
  | _, _, _, _, _, 0, _, hfuel => absurd hfuel (Nat.not_lt_zero _)
  | [], _, n, _, rest, fuel + 1, before, _ => by
      rw [List.map_nil, List.append_nil]
      exact (reads_peek _).bind ((reads_advance _ rest).bind (.pure before rest))
  | s :: more, h, n, hn, rest, fuel + 1, before, hfuel => by
      obtain ⟨hs, hmore⟩ := Bool.and_eq_true_iff.mp h
      obtain ⟨hds, hdmore⟩ := Nat.max_le.mp hn
      have hfollow : (next (allWords more ++ mark .rBrace :: rest)).kind ≠ .elseWord := by
        cases more with
        | nil => exact nofun
        | cons s' more =>
            rw [allWords, List.append_assoc]
            exact next_ne (Bool.and_eq_true_iff.mp hmore).1 _ rfl
      have hread := reads_words s hs n hds (allWords more ++ mark .rBrace :: rest) fun _ => hfollow
      rw [allWords, List.append_assoc, Reads,
        blockLoop_step (next_ne hs _ rfl) (next_ne hs _ rfl) hread fuel before]
      have hrest := reads_blockLoop more hmore n hdmore rest fuel (before ++ [s.unplaced])
        (Nat.lt_of_succ_lt_succ hfuel)
      rw [List.append_assoc] at hrest
      exact hrest

end

end Stmt

end Nss
