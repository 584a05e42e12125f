/-
# Reading printed declarations

Parsing undoes printing: the text of a printable declaration that is nested no deeper than the parser
can go is read as that declaration and nothing else, without any problem; only the places are its own.
An operand counts as one level there, however small it is.
-/
import Nss.Proofs.Printing.Statements
import Nss.Proofs.Places.Parsing

namespace Nss

open ScriptParser
open Word (mark)

/-! ## Parameters -/

namespace Event

/-- Parameters are read one after the other, up to the closing parenthesis. -/
theorem reads_paramsLoop (p : Param) (more : List Param)
    (h : ∀ q ∈ p :: more, q.type.isVoid = false) (rest : List Word) (fuel : Nat)
    (hfuel : more.length ≤ fuel) (before : List Param) :
    Reads (paramsLoop (fuel + 1) before)
      (p.words ++ (FunctionDecl.moreParamWords more ++ mark .rParen :: rest))
      (before ++ p :: more) rest := by
  induction more generalizing p fuel before with
  | nil =>
      refine (reads_valueType p.type _).bind ?_
      rw [h p (.head _)]
      refine (reads_ident p.name _ _).bind ?_
      exact (reads_eat .rParen rest).bind (.pure _ rest)
  | cons q more ih =>
      cases fuel with
      | zero => cases hfuel
      | succ fuel =>
          have hwords : FunctionDecl.moreParamWords (q :: more) ++ mark .rParen :: rest
              = mark .comma ::
                (q.words ++ (FunctionDecl.moreParamWords more ++ mark .rParen :: rest)) := by
            simp [FunctionDecl.moreParamWords]
          rw [hwords]
          refine (reads_valueType p.type _).bind ?_
          rw [h p (.head _)]
          refine (reads_ident p.name _ _).bind ?_
          have hcomma : (Word.next (mark .comma :: (q.words ++ (FunctionDecl.moreParamWords more
              ++ mark .rParen :: rest)))).kind ≠ .rParen := nofun
          refine (reads_eat_other hcomma).bind ((reads_mark .comma _ _).bind ?_)
          have hrest := ih q (fun x hx => h x (.tail p hx)) fuel (Nat.le_of_succ_le_succ hfuel)
            (before ++ [p])
          rw [List.append_assoc] at hrest
          exact hrest

theorem length_le_moreParamWords (params : List Param) :
    params.length ≤ (FunctionDecl.moreParamWords params).length := by
  induction params with
  | nil => exact Nat.zero_le _
  | cons p rest ih =>
      rw [FunctionDecl.moreParamWords, List.flatMap_cons, List.length_append, List.length_cons,
        List.length_cons]
      rw [FunctionDecl.moreParamWords] at ih
      omega

/-- The name of a type is none of the words that mean something before a declaration. -/
theorem isAtWord_type {type : ValueType} {word : String} (h : type.name ≠ word) (rest : List Word) :
    Reads (isAtWord word) (.ident type.name :: rest) false (.ident type.name :: rest) := by
  have hread := reads_isAtWord word (.ident type.name :: rest)
  rw [show (Word.next (.ident type.name :: rest)).text = type.name from rfl, decide_eq_false h,
    Bool.and_false] at hread
  exact hread

theorem reads_params (ps : List Param) (h : ps.all Param.isPrintable = true) (rest : List Word) :
    Reads params (FunctionDecl.paramWords ps ++ mark .rParen :: rest) ps rest := by
  cases ps with
  | nil => exact (reads_eat .rParen rest).bind (.pure [] rest)
  | cons p more =>
      have htypes : ∀ q ∈ p :: more, q.type.isVoid = false := by
        intro q hq
        have hprintable := (Bool.and_eq_true_iff.mp (List.all_eq_true.mp h q hq)).1
        exact (Bool.not_eq_true' _).mp hprintable
      have hvoid : p.type.name ≠ "void" := by
        intro hname
        have htype := htypes p (.head more)
        cases hp : p.type with
        | void =>
            rw [hp] at htype
            cases htype
        | int | float | string | object =>
            rw [hp] at hname
            revert hname
            decide
      rw [FunctionDecl.paramWords, List.append_assoc]
      have hfirst : (Word.next (p.words ++ (FunctionDecl.moreParamWords more
          ++ mark .rParen :: rest))).kind ≠ .rParen := nofun
      refine (reads_eat_other hfirst).bind ((isAtWord_type hvoid _).bind ?_)
      refine (reads_peekSecond _).bind ((reads_remaining _).bind ?_)
      have hlength : more.length ≤ (p.words ++ (FunctionDecl.moreParamWords more
          ++ mark .rParen :: rest)).length := by
        have := length_le_moreParamWords more
        simp only [List.length_append]
        omega
      exact reads_paramsLoop p more htypes rest _ hlength []

/-! ## Declarations -/

theorem reads_function {decl : FunctionDecl} (h : decl.isPrintable = true)
    (hn : decl.nesting 1 ≤ maxNesting) :
    Reads (function .origin decl.result decl.name)
      (FunctionDecl.paramWords decl.params ++ mark .rParen :: FunctionDecl.bodyWords decl.body)
      (.function decl.unplaced) [] := by
  obtain ⟨result, name, params, body, span⟩ := decl
  simp only [FunctionDecl.isPrintable, Bool.and_eq_true] at h
  obtain ⟨⟨-, hparams⟩, hbody⟩ := h
  refine (reads_params params hparams _).bind ?_
  cases body with
  | none =>
      refine (reads_eat .semi []).bind ((Reads.pure none []).bind ?_)
      exact (reads_previousSpan []).bind (.pure _ [])
  | some body =>
      have hfirst : (Word.next ((Stmt.block body).words ++ [])).kind ≠ .semi := by
        rw [Stmt.words]
        rintro ⟨⟩
      have hread := Stmt.reads_blockBody hbody fun fuel =>
        Stmt.reads_blockLoop body hbody maxNesting hn [] fuel []
      rw [FunctionDecl.bodyWords, ← List.append_nil (Stmt.words _)]
      refine (reads_eat_other hfirst).bind (hread.map.bind ?_)
      exact (reads_previousSpan []).bind (.pure _ [])

theorem reads_globalVariable {decl : VarDecl} (h : decl.isPrintable = true)
    (hn : decl.nesting 1 ≤ maxNesting) :
    Reads (globalVariable .origin decl.type (Word.ident decl.name).token)
      (VarDecl.initWords decl.init ++ [mark .semi]) (.global decl.unplaced) [] := by
  simp only [VarDecl.isPrintable, Bool.and_eq_true, Bool.not_eq_true'] at h
  obtain ⟨⟨htype, -⟩, hinit⟩ := h
  rw [globalVariable, htype]
  refine (Stmt.reads_initializer hinit (decl.init_nesting_le hn) []).bind ?_
  refine (reads_mark _ _ []).bind ?_
  exact (reads_previousSpan []).bind (.pure _ [])

/-- Behind its type and its name, a declaration goes on as a function or as a variable. -/
theorem reads_declared (type : ValueType) (name : String) {rest : List Word} {decl : Declaration}
    (h : Reads (do
        if ← eat .lParen then function .origin type name
        else globalVariable .origin type (Word.ident name).token) rest decl []) :
    Reads declared (.ident type.name :: .ident name :: rest) decl [] := by
  have hconst : type.name ≠ "const" := by
    cases type <;> decide
  refine (isAtWord_type hconst _).bind ?_
  refine (reads_peek _).bind ?_
  refine (reads_valueType type _).bind ?_
  exact (reads_ident name _ rest).bind h

theorem reads_declaration {decl : Declaration} (h : decl.isPrintable = true)
    (hn : decl.nesting 1 ≤ maxNesting) : Reads declared decl.words decl.unplaced [] := by
  cases decl with
  | global decl =>
      have hfirst : (Word.next (VarDecl.initWords decl.init ++ [mark .semi])).kind ≠ .lParen := by
        cases decl.init <;> nofun
      exact reads_declared decl.type decl.name
        ((reads_eat_other hfirst).bind (reads_globalVariable h hn))
  | function decl =>
      rw [Declaration.words, FunctionDecl.words, List.cons_append, List.cons_append,
        Word.parenthesized_append]
      exact reads_declared decl.result decl.name ((reads_eat _ _).bind (reads_function h hn))

/-- Where all of a script is one event, nothing else is read. -/
theorem loop_single {w : Word} {ws : List Word} {e : Event} (h : Reads next (w :: ws) e []) :
    loop (w :: ws).length (.over (w :: ws)) = [e] := by
  have hrecover : recover next synchronize { ParseState.over (w :: ws) with noted := [] }
      = .ok (some e) (.over []) := h.recover
  have hend : loop ws.length (.over []) = [] := by
    cases ws.length <;> rfl
  rw [List.length_cons, loop]
  split
  · next hnil => exact absurd hnil (List.cons_ne_nil _ _)
  · rw [hrecover]
    show [] ++ [e] ++ loop ws.length (.over []) = [e]
    rw [hend]
    rfl

/-- A script of the words of a declaration holds that declaration and nothing else. -/
theorem ofTokens_words {decl : Declaration} (h : decl.isPrintable = true)
    (hn : decl.nesting 1 ≤ maxNesting) :
    ofTokens (.ofWords decl.words) = [declaration decl.unplaced] := by
  obtain ⟨type, ws, hwords⟩ : ∃ type : ValueType, ∃ ws, decl.words = .ident type.name :: ws := by
    cases decl <;> exact ⟨_, _, rfl⟩
  have hdeclared := reads_declaration h hn
  rw [hwords] at hdeclared ⊢
  have hnext : Reads next (.ident type.name :: ws) (declaration decl.unplaced) [] :=
    (reads_isAt _ _).bind hdeclared.map
  rw [ofTokens, Lexed.ofWords, List.length_map]
  exact loop_single hnext

/-! ## Printing and reading -/

/-- What is read of a printed declaration is what is read of its words. -/
theorem map_unplaced_printed {decl : Declaration} (h : decl.isPrintable = true) :
    (ofSource decl.printed).map unplaced = ofTokens (.ofWords decl.words) := by
  rw [ofSource_eq, ← ofTokens_unplaced, Declaration.printed, Word.ofSource_print (decl.cutOff_words h)]

end Event

end Nss
