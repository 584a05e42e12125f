/-
# Reading tokens without places

The parser never looks at a place: from tokens without places it reads what it reads from the tokens,
without places.  A span is made of spans only, and where there are none left all of them are empty and
at the beginning.  So what is read from a script depends on the kinds and the texts of its tokens.
-/
import Nss.Proofs.Places.Syntax
import Nss.Proofs.Steps
import Nss.Syntax.Parser.Event

namespace Nss

open Steps

/-- A place in a unit whose tokens have no places. -/
def ParseState.unplaced (s : ParseState) : ParseState where
  ahead := s.ahead.map Token.unplaced
  ending := s.ending.unplaced
  previous := .origin
  noted := s.noted.map Diagnostic.unplaced

namespace ScriptParser

variable {α β α' β' : Type}

/-- The second of two parsers is the first one without places.  What is read is given without places
by `u`. -/
def Unplaces (u : α → α') (p : ScriptParser α) (q : ScriptParser α') : Prop :=
  Seen Diagnostic.unplaced ParseState.unplaced u p q

namespace Unplaces

variable {u : α → α'} {v : β → β'}

theorem pure (a : α) : Unplaces u (Pure.pure a) (Pure.pure (u a)) := Seen.pure a

theorem fail (problem : Problem) (span : Span) :
    Unplaces u (ScriptParser.fail problem span) (ScriptParser.fail problem .origin) :=
  Seen.throw _

theorem bind {p : ScriptParser α} {q : ScriptParser α'} {k : α → ScriptParser β}
    {l : α' → ScriptParser β'} (hp : Unplaces u p q) (hk : ∀ a, Unplaces v (k a) (l (u a))) :
    Unplaces v (p >>= k) (q >>= l) :=
  Seen.bind hp hk

theorem map {p : ScriptParser α} {q : ScriptParser α'} {f : α → β} {g : α' → β'}
    (hp : Unplaces u p q) (h : ∀ a, g (u a) = v (f a)) : Unplaces v (f <$> p) (g <$> q) :=
  Seen.map hp h

/-- What is given may be written in another way. -/
theorem pure' {a : α} {b : α'} (h : b = u a) : Unplaces u (Pure.pure a) (Pure.pure b) := by
  rw [h]
  exact pure a

end Unplaces

/-! ## Tokens -/

theorem unplaces_peek : Unplaces Token.unplaced peek peek := by
  intro s
  have hnext : s.unplaced.ahead.headD s.unplaced.ending = (s.ahead.headD s.ending).unplaced := by
    rw [ParseState.unplaced]
    cases s.ahead with
    | nil => rfl
    | cons t rest => rfl
  exact congrArg (EStateM.Result.ok · s.unplaced) hnext

theorem unplaces_peekSecond : Unplaces Token.unplaced peekSecond peekSecond := by
  intro s
  have hnext : s.unplaced.ahead.getD 1 s.unplaced.ending = (s.ahead.getD 1 s.ending).unplaced := by
    rw [ParseState.unplaced]
    rcases s.ahead with _ | ⟨t, _ | ⟨t', rest⟩⟩
    · rfl
    · rfl
    · rfl
  exact congrArg (EStateM.Result.ok · s.unplaced) hnext

theorem unplaces_advance : Unplaces Token.unplaced advance advance := by
  rintro ⟨ahead, ending, previous, noted⟩
  cases ahead with
  | nil => rfl
  | cons t rest => rfl

theorem unplaces_remaining : Unplaces id remaining remaining := by
  intro s
  exact congrArg (EStateM.Result.ok · s.unplaced) (List.length_map Token.unplaced)

theorem unplaces_previousSpan : Unplaces (fun _ => .origin) previousSpan previousSpan := fun _ => rfl

theorem unplaces_note (d : Diagnostic) : Unplaces id (note d) (note d.unplaced) := by
  refine Seen.update fun s => ?_
  simp [ParseState.unplaced]

theorem unplaces_isAt (kind : TokenKind) : Unplaces id (isAt kind) (isAt kind) :=
  unplaces_peek.bind fun t => .pure (decide (t.kind = kind))

theorem unplaces_isAtWord (word : String) : Unplaces id (isAtWord word) (isAtWord word) :=
  unplaces_peek.bind fun t => .pure (t.kind = .ident && t.text = word)

theorem unplaces_isAtType : Unplaces id isAtType isAtType :=
  unplaces_peek.bind fun t => .pure (t.kind = .ident && (ValueType.ofName? t.text).isSome)

theorem unplaces_eat (kind : TokenKind) : Unplaces id (eat kind) (eat kind) := by
  refine (unplaces_isAt kind).bind fun found => ?_
  cases found with
  | true => exact unplaces_advance.bind fun _ => .pure true
  | false => exact .pure false

theorem unplaces_expect (kind : TokenKind) (what : String) :
    Unplaces Token.unplaced (expect kind what) (expect kind what) := by
  refine (unplaces_isAt kind).bind fun found => ?_
  cases found with
  | true => exact unplaces_advance
  | false => exact unplaces_peek.bind fun t => .fail _ t.span

theorem unplaces_valueType : Unplaces id valueType valueType := by
  refine unplaces_peek.bind fun t => ?_
  have hkind : t.unplaced.kind = t.kind := rfl
  have htext : t.unplaced.text = t.text := rfl
  rw [hkind, htext]
  cases (if t.kind = .ident then ValueType.ofName? t.text else none) with
  | some type => exact unplaces_advance.bind fun _ => .pure type
  | none => exact .fail _ t.span

theorem unplaces_recover {u : α → α'} {p : ScriptParser α} {q : ScriptParser α'}
    {resume : ScriptParser Unit} (hp : Unplaces u p q) (hresume : Unplaces id resume resume) :
    Unplaces (Option.map u) (recover p resume) (recover q resume) := by
  intro s
  rw [recover, recover, hp s]
  cases p s with
  | ok a t => rfl
  | error d t =>
      exact ((unplaces_note d).bind fun _ => hresume.bind fun _ => .pure (u := Option.map u) none) t

end ScriptParser

open ScriptParser

/-! ## Expressions -/

namespace Literal

theorem unplaces_int (t : Token) : Unplaces Expr.unplaced (int t) (int t.unplaced) := by
  have htext : t.unplaced.text = t.text := rfl
  rw [int, int, htext]
  split
  · exact .fail _ t.span
  · split
    · exact .fail _ t.span
    · exact .pure (Expr.int _ t.span)

theorem unplaces_hex (t : Token) : Unplaces Expr.unplaced (hex t) (hex t.unplaced) := by
  have htext : t.unplaced.text = t.text := rfl
  rw [hex, hex, htext]
  split
  · exact .pure (Expr.int _ t.span)
  · exact .fail _ t.span

theorem unplaces_float (t : Token) : Unplaces Expr.unplaced (float t) (float t.unplaced) := by
  have htext : t.unplaced.text = t.text := rfl
  rw [float, float, htext]
  split
  · exact .fail _ t.span
  · exact .pure (Expr.float _ t.span)

theorem word?_unplaced (t : Token) : word? t.unplaced = (word? t).map Expr.unplaced := by
  have htext : t.unplaced.text = t.text := rfl
  rw [word?, word?, htext]
  split
  · rfl
  · rfl
  · rfl
  · rfl
  · rfl

end Literal

namespace Expr

theorem applyUnary_unplaced (op : UnaryOp) (x : Expr) (span : Span) :
    applyUnary op x.unplaced .origin = (applyUnary op x span).unplaced := by
  cases op with
  | neg => cases x <;> rfl
  | not => rfl

theorem unplaces_chain (looseness : Nat) {tighter : ScriptParser Expr}
    (htighter : Unplaces unplaced tighter tighter) :
    ∀ (fuel : Nat) (left : Expr), Unplaces unplaced (chain looseness tighter fuel left)
      (chain looseness tighter fuel left.unplaced)
  | 0, left => .pure left
  | fuel + 1, left => by
      rw [chain, chain]
      refine unplaces_peek.bind fun t => ?_
      have hkind : t.unplaced.kind = t.kind := rfl
      rw [hkind]
      cases BinaryOp.ofToken? t.kind with
      | none => exact .pure left
      | some op =>
          dsimp only
          split
          · refine unplaces_advance.bind fun _ => htighter.bind fun right => ?_
            rw [span_unplaced, span_unplaced, Span.cover_origin]
            exact unplaces_chain looseness htighter fuel (binary op left right _)
          · exact .pure left

theorem unplaces_operations {operand : ScriptParser Expr}
    (hoperand : Unplaces unplaced operand operand) :
    ∀ n, Unplaces unplaced (operations operand n) (operations operand n)
  | 0 => hoperand
  | n + 1 => by
      have htighter := unplaces_operations hoperand n
      rw [operations]
      exact htighter.bind fun left => unplaces_remaining.bind fun fuel =>
        unplaces_chain n htighter fuel left

theorem unplaces_argsLoop {expr : ScriptParser Expr} (hexpr : Unplaces unplaced expr expr) :
    ∀ (fuel : Nat) (args : List Expr), Unplaces (List.map unplaced) (argsLoop expr fuel args)
      (argsLoop expr fuel (args.map unplaced))
  | 0, args => .pure args
  | fuel + 1, args => by
      rw [argsLoop, argsLoop]
      refine hexpr.bind fun e => ?_
      have hmore : args.map unplaced ++ [e.unplaced] = (args ++ [e]).map unplaced := by simp
      rw [hmore]
      refine (unplaces_eat _).bind fun closed => ?_
      cases closed with
      | true => exact .pure (args ++ [e])
      | false => exact (unplaces_expect _ _).bind fun _ => unplaces_argsLoop hexpr fuel (args ++ [e])

theorem unplaces_args {expr : ScriptParser Expr} (hexpr : Unplaces unplaced expr expr) :
    Unplaces (List.map unplaced) (args expr) (args expr) := by
  refine (unplaces_eat _).bind fun closed => ?_
  cases closed with
  | true => exact .pure []
  | false => exact unplaces_remaining.bind fun n => unplaces_argsLoop hexpr (n + 1) []

theorem unplaces_ofWord {expr : ScriptParser Expr} (hexpr : Unplaces unplaced expr expr) (t : Token) :
    Unplaces unplaced (ofWord expr t) (ofWord expr t.unplaced) := by
  rw [ofWord, ofWord, Literal.word?_unplaced]
  cases Literal.word? t with
  | some constant => exact .pure constant
  | none =>
      refine (unplaces_eat _).bind fun opened => ?_
      cases opened with
      | true =>
          refine (unplaces_args hexpr).bind fun args => unplaces_previousSpan.bind fun previous => ?_
          exact .pure' (unplaced_call _ _ _).symm
      | false => exact .pure (ident t.text t.span)

theorem unplaces_primary {expr : ScriptParser Expr} (hexpr : Unplaces unplaced expr expr) :
    Unplaces unplaced (primary expr) (primary expr) := by
  refine unplaces_advance.bind fun t => ?_
  have hkind : t.unplaced.kind = t.kind := rfl
  rw [hkind]
  split
  · exact Literal.unplaces_int t
  · exact Literal.unplaces_hex t
  · exact Literal.unplaces_float t
  · exact .pure (Literal.string t)
  · exact unplaces_ofWord hexpr t
  · refine hexpr.bind fun inner => (unplaces_expect _ _).bind fun _ => ?_
    refine unplaces_previousSpan.bind fun previous => .pure' ?_
    rw [unplaced_withSpan]
    exact inner.withSpan_unplaced
  · exact .fail _ t.span
  · exact .fail _ t.span

theorem unplaces_operand : ∀ n, Unplaces unplaced (operand n) (operand n)
  | 0 => unplaces_peek.bind fun t => .fail _ t.span
  | n + 1 => by
      rw [operand]
      refine unplaces_peek.bind fun t => ?_
      have hkind : t.unplaced.kind = t.kind := rfl
      rw [hkind]
      cases UnaryOp.ofToken? t.kind with
      | none => exact unplaces_primary (unplaces_operations (unplaces_operand n) 6)
      | some op =>
          refine unplaces_advance.bind fun sign => (unplaces_operand n).bind fun x => .pure' ?_
          rw [span_unplaced]
          exact applyUnary_unplaced op x _

theorem unplaces_nested (n : Nat) : Unplaces unplaced (parser n) (parser n) :=
  unplaces_operations (unplaces_operand n) 6

end Expr

/-! ## Statements -/

namespace Stmt

variable {expr : ScriptParser Expr} {stmt : ScriptParser Stmt}

theorem unplaces_skipTo : ∀ ts, Unplaces id (skipTo ts) (skipTo (ts.map Token.unplaced))
  | [] => .pure ()
  | t :: rest => by
      have hkind : t.unplaced.kind = t.kind := rfl
      rw [List.map_cons, skipTo, skipTo, hkind]
      split
      · exact .pure ()
      · refine unplaces_advance.bind fun _ => ?_
        split
        · exact .pure ()
        · exact unplaces_skipTo rest

theorem unplaces_synchronize : Unplaces id synchronize synchronize :=
  Seen.read fun s => unplaces_skipTo s.ahead

theorem unplaces_blockLoop (hstmt : Unplaces unplaced stmt stmt) :
    ∀ (fuel : Nat) (body : List Stmt), Unplaces (List.map unplaced) (blockLoop stmt fuel body)
      (blockLoop stmt fuel (body.map unplaced))
  | 0, body => .pure body
  | fuel + 1, body => by
      rw [blockLoop, blockLoop]
      refine unplaces_peek.bind fun t => ?_
      have hkind : t.unplaced.kind = t.kind := rfl
      rw [hkind]
      split
      · exact unplaces_advance.bind fun _ => .pure body
      · split
        · exact .fail _ t.span
        · refine (unplaces_recover hstmt unplaces_synchronize).bind fun read => ?_
          have hmore : body.map unplaced ++ (read.map unplaced).toList
              = (body ++ read.toList).map unplaced := by
            cases read with
            | none => simp
            | some s => simp
          rw [hmore]
          exact unplaces_blockLoop hstmt fuel _

theorem unplaces_blockBody (hstmt : Unplaces unplaced stmt stmt) :
    Unplaces (List.map unplaced) (blockBody stmt) (blockBody stmt) :=
  (unplaces_expect _ _).bind fun _ => unplaces_remaining.bind fun n =>
    unplaces_blockLoop hstmt (n + 1) []

theorem unplaces_condition (hexpr : Unplaces Expr.unplaced expr expr) (after : String) :
    Unplaces Expr.unplaced (condition expr after) (condition expr after) :=
  (unplaces_expect _ _).bind fun _ => hexpr.bind fun cond => (unplaces_expect _ _).bind fun _ =>
    .pure cond

theorem unplaces_conditional (hstmt : Unplaces unplaced stmt stmt)
    (hexpr : Unplaces Expr.unplaced expr expr) :
    Unplaces unplaced (conditional stmt expr) (conditional stmt expr) := by
  refine unplaces_advance.bind fun _ => (unplaces_condition hexpr _).bind fun cond => ?_
  refine hstmt.bind fun body => (unplaces_eat _).bind fun alternative => ?_
  cases alternative with
  | true => exact hstmt.bind fun other => .pure (ifElse cond body other)
  | false => exact .pure (ifThen cond body)

theorem unplaces_whileLoop (hstmt : Unplaces unplaced stmt stmt)
    (hexpr : Unplaces Expr.unplaced expr expr) :
    Unplaces unplaced (whileLoop stmt expr) (whileLoop stmt expr) :=
  unplaces_advance.bind fun _ => (unplaces_condition hexpr _).bind fun cond =>
    hstmt.bind fun body => .pure (loop cond body)

theorem unplaces_returned (hexpr : Unplaces Expr.unplaced expr expr) :
    Unplaces unplaced (returned expr) (returned expr) := by
  refine unplaces_advance.bind fun first => (unplaces_isAt _).bind fun ended => ?_
  have hrest (value : Option Expr) : Unplaces unplaced
      (do let _ ← expect .semi "\";\" after return"
          return ret value (first.span.cover (← previousSpan)) : ScriptParser Stmt)
      (do let _ ← expect .semi "\";\" after return"
          return ret (value.map Expr.unplaced) (first.unplaced.span.cover (← previousSpan))) :=
    (unplaces_expect _ _).bind fun _ => unplaces_previousSpan.bind fun previous =>
      .pure (ret value (first.span.cover previous))
  cases ended with
  | true => exact hrest none
  | false =>
      have hvalue : Unplaces (Option.map Expr.unplaced) (some <$> expr) (some <$> expr) :=
        hexpr.map fun _ => rfl
      exact hvalue.bind hrest

theorem unplaces_initializer (hexpr : Unplaces Expr.unplaced expr expr) :
    Unplaces (Option.map Expr.unplaced) (initializer expr) (initializer expr) := by
  refine (unplaces_eat _).bind fun given => ?_
  cases given with
  | true => exact hexpr.map fun _ => rfl
  | false => exact .pure none

theorem unplaces_localVariable (hexpr : Unplaces Expr.unplaced expr expr) :
    Unplaces unplaced (localVariable expr) (localVariable expr) := by
  refine unplaces_peek.bind fun first => unplaces_valueType.bind fun type => ?_
  simp only [id]
  split
  · exact .fail _ first.span
  · refine (unplaces_expect _ _).bind fun name => (unplaces_initializer hexpr).bind fun init => ?_
    refine (unplaces_expect _ _).bind fun _ => unplaces_previousSpan.bind fun previous => ?_
    exact .pure (var { type, name := name.text, init, span := first.span.cover previous })

theorem unplaces_assignment (hexpr : Unplaces Expr.unplaced expr expr) :
    Unplaces unplaced (assignment expr) (assignment expr) :=
  unplaces_advance.bind fun target => unplaces_advance.bind fun _ => hexpr.bind fun value =>
    (unplaces_expect _ _).bind fun _ => unplaces_previousSpan.bind fun previous =>
      .pure (assign target.text value (target.span.cover previous))

theorem unplaces_expression (hexpr : Unplaces Expr.unplaced expr expr) :
    Unplaces unplaced (expression expr) (expression expr) :=
  hexpr.bind fun value => (unplaces_expect _ _).bind fun _ => .pure (Stmt.expr value)

theorem unplaces_ofParts (hstmt : Unplaces unplaced stmt stmt)
    (hexpr : Unplaces Expr.unplaced expr expr) :
    Unplaces unplaced (ofParts stmt expr) (ofParts stmt expr) := by
  refine unplaces_peek.bind fun t => ?_
  have hkind : t.unplaced.kind = t.kind := rfl
  rw [hkind]
  split
  · exact (unplaces_blockBody hstmt).map fun body => (unplaced_block body).symm
  · exact unplaces_advance.bind fun _ => .pure (block [])
  · exact unplaces_conditional hstmt hexpr
  · exact unplaces_whileLoop hstmt hexpr
  · exact unplaces_returned hexpr
  · refine unplaces_isAtType.bind fun typed => ?_
    cases typed with
    | true => exact unplaces_localVariable hexpr
    | false =>
        refine unplaces_peekSecond.bind fun second => ?_
        have hsecond : second.unplaced.kind = second.kind := rfl
        rw [hsecond]
        split
        · exact unplaces_assignment hexpr
        · exact unplaces_expression hexpr
  · exact unplaces_expression hexpr

theorem unplaces_nested : ∀ n, Unplaces unplaced (parser n) (parser n)
  | 0 => unplaces_peek.bind fun t => .fail _ t.span
  | n + 1 => unplaces_ofParts (unplaces_nested n) (Expr.unplaces_nested n)

end Stmt

/-! ## Declarations -/

namespace Event

theorem unplaces_skipTo : ∀ (ts : List Token) (depth : Nat),
    Unplaces id (skipTo depth ts) (skipTo depth (ts.map Token.unplaced))
  | [], depth => .pure ()
  | t :: rest, depth => by
      have hkind : t.unplaced.kind = t.kind := rfl
      rw [List.map_cons, skipTo, skipTo, hkind]
      refine unplaces_advance.bind fun _ => ?_
      split
      · exact unplaces_skipTo rest _
      · split
        · exact .pure ()
        · exact unplaces_skipTo rest _
      · split
        · exact .pure ()
        · exact unplaces_skipTo rest _
      · exact unplaces_skipTo rest _

theorem unplaces_synchronize : Unplaces id synchronize synchronize :=
  Seen.read fun s => unplaces_skipTo s.ahead 0

theorem unplaces_directive : Unplaces unplaced directive directive :=
  unplaces_advance.bind fun hash => (unplaces_expect _ _).bind fun name =>
    .pure (inclusion name.text (hash.span.cover name.span))

theorem unplaces_paramsLoop : ∀ (fuel : Nat) (ps : List Param),
    Unplaces id (paramsLoop fuel ps) (paramsLoop fuel ps)
  | 0, ps => .pure ps
  | fuel + 1, ps => by
      rw [paramsLoop]
      refine unplaces_valueType.bind fun type => ?_
      simp only [id]
      split
      · exact unplaces_previousSpan.bind fun previous => .fail _ previous
      · refine (unplaces_expect _ _).bind fun name => (unplaces_eat _).bind fun closed => ?_
        cases closed with
        | true => exact .pure (ps ++ [{ type, name := name.text }])
        | false => exact (unplaces_expect _ _).bind fun _ => unplaces_paramsLoop fuel _

theorem unplaces_params : Unplaces id params params := by
  refine (unplaces_eat _).bind fun closed => ?_
  cases closed with
  | true => exact .pure []
  | false =>
      refine (unplaces_isAtWord _).bind fun word => unplaces_peekSecond.bind fun second => ?_
      have hsecond : second.unplaced.kind = second.kind := rfl
      simp only [id, hsecond]
      split
      · exact unplaces_advance.bind fun _ => unplaces_advance.bind fun _ => .pure []
      · exact unplaces_remaining.bind fun n => unplaces_paramsLoop (n + 1) []

theorem unplaces_function (start : Span) (result : ValueType) (name : String) :
    Unplaces Declaration.unplaced (function start result name) (function .origin result name) := by
  refine unplaces_params.bind fun params => (unplaces_eat _).bind fun ended => ?_
  have hrest (body : Option (List Stmt)) : Unplaces Declaration.unplaced
      (do return .function { result, name, params, body, span := start.cover (← previousSpan) } :
        ScriptParser Declaration)
      (do
        return .function
          { result, name, params, body := body.map (List.map Stmt.unplaced)
            span := Span.origin.cover (← previousSpan) }) :=
    unplaces_previousSpan.bind fun previous =>
      .pure (Declaration.function { result, name, params, body, span := start.cover previous })
  cases ended with
  | true => exact hrest none
  | false =>
      have hbody : Unplaces (Option.map (List.map Stmt.unplaced))
          (some <$> Stmt.blockBody (Stmt.parser maxNesting))
          (some <$> Stmt.blockBody (Stmt.parser maxNesting)) :=
        (Stmt.unplaces_blockBody (Stmt.unplaces_nested maxNesting)).map fun _ => rfl
      exact hbody.bind hrest

theorem unplaces_globalVariable (start : Span) (type : ValueType) (name : Token) :
    Unplaces Declaration.unplaced (globalVariable start type name)
      (globalVariable .origin type name.unplaced) := by
  rw [globalVariable, globalVariable]
  split
  · exact .fail _ name.span
  · refine (Stmt.unplaces_initializer (Expr.unplaces_nested _)).bind fun init => ?_
    refine (unplaces_expect _ _).bind fun _ => unplaces_previousSpan.bind fun previous => ?_
    exact .pure (Declaration.global
      { type, name := name.text, init, span := start.cover previous })

theorem unplaces_declared : Unplaces Declaration.unplaced declared declared := by
  have hrest : Unplaces Declaration.unplaced
      (do let start := (← peek).span
          let type ← valueType
          let name ← expect .ident "identifier"
          if ← eat .lParen then function start type name.text
          else globalVariable start type name)
      (do let start := (← peek).span
          let type ← valueType
          let name ← expect .ident "identifier"
          if ← eat .lParen then function start type name.text
          else globalVariable start type name) := by
    refine unplaces_peek.bind fun first => unplaces_valueType.bind fun type => ?_
    refine (unplaces_expect _ _).bind fun name => (unplaces_eat _).bind fun opened => ?_
    cases opened with
    | true => exact unplaces_function first.span type name.text
    | false => exact unplaces_globalVariable first.span type name
  refine (unplaces_isAtWord _).bind fun word => ?_
  cases word with
  | true => exact unplaces_advance.bind fun _ => hrest
  | false => exact hrest

theorem unplaces_next : Unplaces unplaced next next := by
  refine (unplaces_isAt _).bind fun included => ?_
  cases included with
  | true => exact unplaces_directive
  | false => exact unplaces_declared.map fun _ => rfl

/-- From tokens without places, the events are read without places. -/
theorem loop_unplaced : ∀ (fuel : Nat) (s : ParseState),
    loop fuel s.unplaced = (loop fuel s).map unplaced
  | 0, s => rfl
  | fuel + 1, s => by
      have hread := unplaces_recover unplaces_next unplaces_synchronize { s with noted := [] }
      have hstart : { s.unplaced with noted := [] } = { s with noted := [] : ParseState }.unplaced := rfl
      have hahead : s.unplaced.ahead = s.ahead.map Token.unplaced := rfl
      rw [loop, loop, hstart, hread, hahead]
      generalize recover next synchronize { s with noted := [] } = read
      cases s.ahead with
      | nil => rfl
      | cons t rest =>
          cases read with
          | error d s' => rfl
          | ok event s' =>
              have hnoted : s'.unplaced.noted.map problem = (s'.noted.map problem).map unplaced := by
                simp [ParseState.unplaced, unplaced]
              have hevent : (event.map unplaced).toList = event.toList.map unplaced := by
                cases event with
                | none => rfl
                | some e => rfl
              simp only [List.map_cons, mapResult, hnoted, hevent, loop_unplaced fuel s', List.map_append]

/-- What is read from tokens. -/
def ofTokens (l : Lexed) : List Event :=
  l.troubles.map problem ++ loop l.tokens.length (ParseState.start l)

theorem ofSource_eq (source : String) : ofSource source = ofTokens (Lexed.ofSource source) := rfl

theorem start_unplaced (l : Lexed) : ParseState.start l.unplaced = (ParseState.start l).unplaced := by
  have hprevious : ((l.tokens.map Token.unplaced).headD l.ending.unplaced).span = .origin := by
    cases l.tokens with
    | nil => rfl
    | cons t rest => rfl
  rw [ParseState.start, ParseState.start, Lexed.unplaced, hprevious]
  rfl

/-- What is read from a script depends on its tokens without their places. -/
theorem ofTokens_unplaced (l : Lexed) : ofTokens l.unplaced = (ofTokens l).map unplaced := by
  have htroubles : (l.troubles.map Diagnostic.unplaced).map problem
      = (l.troubles.map problem).map unplaced := by
    simp [unplaced]
  have hlength : l.unplaced.tokens.length = l.tokens.length := List.length_map _
  rw [ofTokens, ofTokens, start_unplaced, loop_unplaced, hlength, List.map_append, ← htroubles]
  rfl

end Event

end Nss
