/-
# Declarations of a script

What the parser reads from a script has no `void` variable, and none of its functions is called like
the loader of the global variables.  The parsers keep `ParseState.Proper`, which says that of the
tokens to come, also when they fail.
-/
import Nss.Syntax.Parser.Event
import Nss.Proofs.Syntax.Words
import Nss.Proofs.Lowering.Emitted

namespace Nss

open Steps

/-- A declaration of a script: nothing in it is `void`, and it is not the loader. -/
inductive Declaration.Proper : Declaration → Prop
  | global {decl : VarDecl} : decl.type ≠ .void → Declaration.Proper (.global decl)
  | function {decl : FunctionDecl} :
      decl.NonVoid → decl.name ≠ globalsLoader → Declaration.Proper (.function decl)

/-- An event of a script. -/
def Event.Proper (e : Event) : Prop := ∀ decl, e = .declaration decl → decl.Proper

/-- No token to come is called like the loader. -/
def ParseState.Proper (s : ParseState) : Prop := ∀ t ∈ s.ending :: s.ahead, t.Proper

/-- The state behind the next token. -/
def ParseState.advanced (s : ParseState) : ParseState :=
  match s.ahead with
  | [] => s
  | t :: rest => { s with ahead := rest, previous := t.span }

namespace ScriptParser

variable {α : Type}

/-- Anything may come out. -/
abbrev Any : α → Prop := fun _ => True

/-! ## Tokens -/

theorem keeps_peek : Keeps ParseState.Proper Token.Proper peek := by
  refine .of_ok (fun _ => rfl) fun s hs => ⟨hs, ?_⟩
  cases h : s.ahead with
  | nil => exact hs _ List.mem_cons_self
  | cons t rest => exact hs t (by rw [h]; exact .tail _ List.mem_cons_self)

theorem keeps_peekSecond : Keeps ParseState.Proper Any peekSecond :=
  .of_ok (fun _ => rfl) fun _ hs => ⟨hs, trivial⟩

theorem advance_apply (s : ParseState) :
    advance s = .ok (s.ahead.headD s.ending) s.advanced := by
  obtain ⟨ahead, ending, previous, noted⟩ := s
  cases ahead with
  | nil => rfl
  | cons t rest => rfl

theorem keeps_advance : Keeps ParseState.Proper Token.Proper advance := by
  refine .of_ok advance_apply fun s hs => ?_
  rw [ParseState.advanced]
  cases h : s.ahead with
  | nil => exact ⟨hs, hs _ List.mem_cons_self⟩
  | cons t rest =>
      rw [ParseState.Proper, h] at hs
      refine ⟨?_, hs t (.tail _ List.mem_cons_self)⟩
      intro t' ht'
      rcases List.mem_cons.mp ht' with rfl | ht'
      · exact hs _ List.mem_cons_self
      · exact hs t' (.tail _ (.tail _ ht'))

theorem keeps_remaining : Keeps ParseState.Proper Any remaining :=
  .of_ok (fun _ => rfl) fun _ hs => ⟨hs, trivial⟩

theorem keeps_previousSpan : Keeps ParseState.Proper Any previousSpan :=
  .of_ok (fun _ => rfl) fun _ hs => ⟨hs, trivial⟩

theorem keeps_fail {P : α → Prop} (problem : Problem) (span : Span) :
    Keeps ParseState.Proper P (fail problem span) :=
  .throw _

theorem keeps_isAt (kind : TokenKind) : Keeps ParseState.Proper Any (isAt kind) :=
  keeps_peek.bind fun _ _ => .pure trivial

theorem keeps_isAtWord (word : String) : Keeps ParseState.Proper Any (isAtWord word) :=
  keeps_peek.bind fun _ _ => .pure trivial

theorem keeps_isAtType : Keeps ParseState.Proper Any isAtType :=
  keeps_peek.bind fun _ _ => .pure trivial

theorem keeps_eat (kind : TokenKind) : Keeps ParseState.Proper Any (eat kind) := by
  refine (keeps_isAt kind).bind fun found _ => ?_
  cases found with
  | true => exact keeps_advance.bind fun _ _ => .pure trivial
  | false => exact .pure trivial

theorem keeps_valueType : Keeps ParseState.Proper Any valueType := by
  refine keeps_peek.bind fun t _ => ?_
  split
  · exact keeps_advance.bind fun _ _ => .pure trivial
  · exact keeps_fail _ _

theorem keeps_note (d : Diagnostic) : Keeps ParseState.Proper Any (note d) :=
  .of_ok (fun _ => rfl) fun _ hs => ⟨hs, trivial⟩

/-- A token that is expected is read, and is of the kind. -/
theorem keeps_expect (kind : TokenKind) (what : String) :
    Keeps ParseState.Proper (fun t => t.kind = kind ∧ t.Proper) (expect kind what) := by
  intro s hs
  obtain ⟨hs', ht⟩ := (keeps_advance s hs).1 _ _ (advance_apply s)
  by_cases hkind : (s.ahead.headD s.ending).kind = kind
  · have happly : expect kind what s = .ok (s.ahead.headD s.ending) s.advanced := by
      rw [← advance_apply]
      simp only [expect, isAt, peek, bind_apply, get_apply, pure_apply, hkind, decide_true, if_true]
    rw [happly]
    refine ⟨?_, ?_⟩
    · intro t s' h
      obtain ⟨rfl, rfl⟩ := EStateM.Result.ok.inj h
      exact ⟨hs', hkind, ht⟩
    · intro d s' h
      cases h
  · have happly : expect kind what s
        = .error (.error (.expected what) (s.ahead.headD s.ending).span) s := by
      simp only [expect, isAt, peek, bind_apply, get_apply, pure_apply, hkind, decide_false]
      rfl
    rw [happly]
    refine ⟨?_, ?_⟩
    · intro t s' h
      cases h
    · intro d s' h
      obtain rfl := (EStateM.Result.error.inj h).2
      exact hs

theorem keeps_recover {P : α → Prop} {p : ScriptParser α} {resume : ScriptParser Unit}
    (hp : Keeps ParseState.Proper P p) (hresume : Keeps ParseState.Proper Any resume) :
    Keeps ParseState.Proper (fun a => ∀ x, a = some x → P x) (recover p resume) := by
  intro s hs
  cases h : p s with
  | ok a s' =>
      obtain ⟨hs', ha⟩ := (hp s hs).1 a s' h
      have happly : recover p resume s = .ok (some a) s' := by rw [recover, h]
      rw [happly]
      refine ⟨?_, ?_⟩
      · intro b t ht
        obtain ⟨rfl, rfl⟩ := EStateM.Result.ok.inj ht
        refine ⟨hs', ?_⟩
        intro x hx
        obtain rfl := Option.some.inj hx
        exact ha
      · intro d t ht
        cases ht
  | error d s' =>
      have hs' := (hp s hs).2 d s' h
      have happly : recover p resume s
          = (note d >>= fun _ => resume >>= fun _ => pure none : ScriptParser (Option α)) s' := by
        rw [recover, h]
      rw [happly]
      exact ((keeps_note d).bind fun _ _ => hresume.bind fun _ _ => .pure nofun) s' hs'

end ScriptParser

open ScriptParser

/-! ## Expressions -/

namespace Expr

theorem keeps_chain (looseness : Nat) {tighter : ScriptParser Expr}
    (htighter : Keeps ParseState.Proper Any tighter) :
    ∀ (fuel : Nat) (left : Expr), Keeps ParseState.Proper Any (chain looseness tighter fuel left)
  | 0, left => .pure trivial
  | fuel + 1, left => by
      rw [chain]
      refine keeps_peek.bind fun t _ => ?_
      split
      · split
        · refine keeps_advance.bind fun _ _ => htighter.bind fun right _ => ?_
          exact keeps_chain looseness htighter fuel _
        · exact .pure trivial
      · exact .pure trivial

theorem keeps_operations {operand : ScriptParser Expr}
    (hoperand : Keeps ParseState.Proper Any operand) :
    ∀ n, Keeps ParseState.Proper Any (operations operand n)
  | 0 => hoperand
  | n + 1 => by
      rw [operations]
      have htighter := keeps_operations hoperand n
      exact htighter.bind fun left _ => keeps_remaining.bind fun fuel _ =>
        keeps_chain n htighter fuel left

theorem keeps_ofOperands {operand : ScriptParser Expr}
    (hoperand : Keeps ParseState.Proper Any operand) :
    Keeps ParseState.Proper Any (ofOperands operand) :=
  keeps_operations hoperand 6

theorem keeps_argsLoop {expr : ScriptParser Expr} (hexpr : Keeps ParseState.Proper Any expr) :
    ∀ (fuel : Nat) (args : List Expr), Keeps ParseState.Proper Any (argsLoop expr fuel args)
  | 0, args => .pure trivial
  | fuel + 1, args => by
      rw [argsLoop]
      refine hexpr.bind fun e _ => (keeps_eat _).bind fun closed _ => ?_
      cases closed with
      | true => exact .pure trivial
      | false => exact (keeps_expect _ _).bind fun _ _ => keeps_argsLoop hexpr fuel _

theorem keeps_args {expr : ScriptParser Expr} (hexpr : Keeps ParseState.Proper Any expr) :
    Keeps ParseState.Proper Any (args expr) := by
  refine (keeps_eat _).bind fun closed _ => ?_
  cases closed with
  | true => exact .pure trivial
  | false => exact keeps_remaining.bind fun _ _ => keeps_argsLoop hexpr _ []

theorem keeps_ofWord {expr : ScriptParser Expr} (hexpr : Keeps ParseState.Proper Any expr)
    (t : Token) : Keeps ParseState.Proper Any (ofWord expr t) := by
  rw [ofWord]
  split
  · exact .pure trivial
  · refine (keeps_eat _).bind fun opened _ => ?_
    cases opened with
    | true =>
        exact (keeps_args hexpr).bind fun _ _ => keeps_previousSpan.bind fun _ _ => .pure trivial
    | false => exact .pure trivial

theorem keeps_primary {expr : ScriptParser Expr} (hexpr : Keeps ParseState.Proper Any expr) :
    Keeps ParseState.Proper Any (primary expr) := by
  refine keeps_advance.bind fun t _ => ?_
  split
  · rw [Literal.int]
    split
    · exact keeps_fail _ _
    · split
      · exact keeps_fail _ _
      · exact .pure trivial
  · rw [Literal.hex]
    split
    · exact .pure trivial
    · exact keeps_fail _ _
  · rw [Literal.float]
    split
    · exact keeps_fail _ _
    · exact .pure trivial
  · exact .pure trivial
  · exact keeps_ofWord hexpr t
  · refine hexpr.bind fun inner _ => (keeps_expect _ _).bind fun _ _ => ?_
    exact keeps_previousSpan.bind fun _ _ => .pure trivial
  · exact keeps_fail _ _
  · exact keeps_fail _ _

theorem keeps_operand : ∀ n, Keeps ParseState.Proper Any (operand n)
  | 0 => keeps_peek.bind fun _ _ => keeps_fail _ _
  | n + 1 => by
      rw [operand]
      refine keeps_peek.bind fun t _ => ?_
      split
      · exact keeps_advance.bind fun _ _ => (keeps_operand n).bind fun _ _ => .pure trivial
      · exact keeps_primary (keeps_ofOperands (keeps_operand n))

theorem parser_keeps (n : Nat) : Keeps ParseState.Proper Any (parser n) :=
  keeps_ofOperands (keeps_operand n)

end Expr

/-! ## Statements -/

theorem Stmt.allNonVoid_append : ∀ {ss ss' : List Stmt},
    AllNonVoid ss → AllNonVoid ss' → AllNonVoid (ss ++ ss')
  | [], _, _, h' => h'
  | s :: ss, ss', h, h' => by
      rw [AllNonVoid] at h
      rw [List.cons_append, AllNonVoid]
      exact ⟨h.1, allNonVoid_append h.2 h'⟩

namespace Stmt

variable {expr : ScriptParser Expr} {stmt : ScriptParser Stmt}

theorem keeps_skipTo : ∀ ts, Keeps ParseState.Proper Any (skipTo ts)
  | [] => .pure trivial
  | t :: rest => by
      rw [skipTo]
      split
      · exact .pure trivial
      · refine keeps_advance.bind fun _ _ => ?_
        split
        · exact .pure trivial
        · exact keeps_skipTo rest

theorem keeps_synchronize : Keeps ParseState.Proper Any synchronize := by
  intro s hs
  exact keeps_skipTo s.ahead s hs

theorem keeps_blockLoop (hstmt : Keeps ParseState.Proper NonVoid stmt) :
    ∀ (fuel : Nat) {body : List Stmt}, AllNonVoid body →
      Keeps ParseState.Proper AllNonVoid (blockLoop stmt fuel body)
  | 0, body, hbody => .pure hbody
  | fuel + 1, body, hbody => by
      rw [blockLoop]
      refine keeps_peek.bind fun t _ => ?_
      split
      · exact keeps_advance.bind fun _ _ => .pure hbody
      · split
        · exact keeps_fail _ _
        · refine (keeps_recover hstmt keeps_synchronize).bind fun read hread => ?_
          refine keeps_blockLoop hstmt fuel (allNonVoid_append hbody ?_)
          cases read with
          | none => trivial
          | some s => exact ⟨hread s rfl, trivial⟩

theorem keeps_blockBody (hstmt : Keeps ParseState.Proper NonVoid stmt) :
    Keeps ParseState.Proper AllNonVoid (blockBody stmt) :=
  (keeps_expect _ _).bind fun _ _ => keeps_remaining.bind fun _ _ =>
    keeps_blockLoop hstmt _ trivial

theorem keeps_condition (hexpr : Keeps ParseState.Proper Any expr) (after : String) :
    Keeps ParseState.Proper Any (condition expr after) :=
  (keeps_expect _ _).bind fun _ _ => hexpr.bind fun _ _ => (keeps_expect _ _).bind fun _ _ =>
    .pure trivial

theorem keeps_conditional (hstmt : Keeps ParseState.Proper NonVoid stmt)
    (hexpr : Keeps ParseState.Proper Any expr) :
    Keeps ParseState.Proper NonVoid (conditional stmt expr) := by
  refine keeps_advance.bind fun _ _ => (keeps_condition hexpr _).bind fun cond _ => ?_
  refine hstmt.bind fun body hbody => (keeps_eat _).bind fun alternative _ => ?_
  cases alternative with
  | true => exact hstmt.bind fun other hother => .pure ⟨hbody, hother⟩
  | false => exact .pure hbody

theorem keeps_whileLoop (hstmt : Keeps ParseState.Proper NonVoid stmt)
    (hexpr : Keeps ParseState.Proper Any expr) :
    Keeps ParseState.Proper NonVoid (whileLoop stmt expr) :=
  keeps_advance.bind fun _ _ => (keeps_condition hexpr _).bind fun _ _ =>
    hstmt.bind fun _ hbody => .pure hbody

theorem keeps_returned (hexpr : Keeps ParseState.Proper Any expr) :
    Keeps ParseState.Proper NonVoid (returned expr) := by
  refine keeps_advance.bind fun first _ => (keeps_isAt _).bind fun ended _ => ?_
  have hrest : ∀ value : Option Expr, Keeps ParseState.Proper NonVoid (do
      let _ ← expect .semi "\";\" after return"
      return ret value (first.span.cover (← previousSpan)) : ScriptParser Stmt) := fun value =>
    (keeps_expect _ _).bind fun _ _ => keeps_previousSpan.bind fun _ _ => .pure trivial
  cases ended with
  | true => exact hrest none
  | false =>
      have hvalue : Keeps ParseState.Proper Any (some <$> expr) :=
        hexpr.bind fun _ _ => .pure trivial
      exact hvalue.bind fun value _ => hrest value

theorem keeps_initializer (hexpr : Keeps ParseState.Proper Any expr) :
    Keeps ParseState.Proper Any (initializer expr) := by
  refine (keeps_eat _).bind fun given _ => ?_
  cases given with
  | true => exact hexpr.bind fun _ _ => .pure trivial
  | false => exact .pure trivial

/-- A local variable is of a type with values. -/
theorem keeps_localVariable (hexpr : Keeps ParseState.Proper Any expr) :
    Keeps ParseState.Proper NonVoid (localVariable expr) := by
  refine keeps_peek.bind fun _ _ => keeps_valueType.bind fun type _ => ?_
  split
  · exact keeps_fail _ _
  · next hvoid =>
      refine (keeps_expect _ _).bind fun _ _ => (keeps_initializer hexpr).bind fun _ _ => ?_
      refine (keeps_expect _ _).bind fun _ _ => keeps_previousSpan.bind fun _ _ => .pure ?_
      exact mt ValueType.isVoid_iff.mpr hvoid

theorem keeps_assignment (hexpr : Keeps ParseState.Proper Any expr) :
    Keeps ParseState.Proper NonVoid (assignment expr) :=
  keeps_advance.bind fun _ _ => keeps_advance.bind fun _ _ => hexpr.bind fun _ _ =>
    (keeps_expect _ _).bind fun _ _ => keeps_previousSpan.bind fun _ _ => .pure trivial

theorem keeps_expression (hexpr : Keeps ParseState.Proper Any expr) :
    Keeps ParseState.Proper NonVoid (expression expr) :=
  hexpr.bind fun _ _ => (keeps_expect _ _).bind fun _ _ => .pure trivial

theorem keeps_ofParts (hstmt : Keeps ParseState.Proper NonVoid stmt)
    (hexpr : Keeps ParseState.Proper Any expr) :
    Keeps ParseState.Proper NonVoid (ofParts stmt expr) := by
  refine keeps_peek.bind fun t _ => ?_
  split
  · exact (keeps_blockBody hstmt).bind fun _ hbody => .pure hbody
  · exact keeps_advance.bind fun _ _ => .pure trivial
  · exact keeps_conditional hstmt hexpr
  · exact keeps_whileLoop hstmt hexpr
  · exact keeps_returned hexpr
  · refine keeps_isAtType.bind fun typed _ => ?_
    cases typed with
    | true => exact keeps_localVariable hexpr
    | false =>
        refine keeps_peekSecond.bind fun _ _ => ?_
        split
        · exact keeps_assignment hexpr
        · exact keeps_expression hexpr
  · exact keeps_expression hexpr

/-- No statement that is read declares a `void` variable. -/
theorem parser_keeps : ∀ n, Keeps ParseState.Proper NonVoid (parser n)
  | 0 => keeps_peek.bind fun _ _ => keeps_fail _ _
  | n + 1 => keeps_ofParts (parser_keeps n) (Expr.parser_keeps n)

end Stmt

/-! ## Declarations -/

namespace Event

theorem keeps_skipTo : ∀ (ts : List Token) (depth : Nat),
    Keeps ParseState.Proper Any (skipTo depth ts)
  | [], depth => .pure trivial
  | t :: rest, depth => by
      rw [skipTo]
      refine keeps_advance.bind fun _ _ => ?_
      split
      · exact keeps_skipTo rest _
      · split
        · exact .pure trivial
        · exact keeps_skipTo rest _
      · split
        · exact .pure trivial
        · exact keeps_skipTo rest _
      · exact keeps_skipTo rest _

theorem keeps_synchronize : Keeps ParseState.Proper Any synchronize := by
  intro s hs
  exact keeps_skipTo s.ahead 0 s hs

theorem keeps_directive : Keeps ParseState.Proper Event.Proper directive :=
  keeps_advance.bind fun _ _ => (keeps_expect _ _).bind fun _ _ => .pure nofun

/-- Parameters of types with values. -/
def Params (ps : List Param) : Prop := ∀ p ∈ ps, p.type ≠ .void

theorem keeps_paramsLoop : ∀ (fuel : Nat) {ps : List Param}, Params ps →
    Keeps ParseState.Proper Params (paramsLoop fuel ps)
  | 0, _, hps => .pure hps
  | fuel + 1, ps, hps => by
      rw [paramsLoop]
      refine keeps_valueType.bind fun type _ => ?_
      split
      · exact keeps_previousSpan.bind fun _ _ => keeps_fail _ _
      · next hvoid =>
          refine (keeps_expect _ _).bind fun name _ => ?_
          have hall : Params (ps ++ [{ type, name := name.text }]) := by
            intro p hp
            rcases List.mem_append.mp hp with hp | hp
            · exact hps p hp
            · obtain rfl := List.mem_singleton.mp hp
              exact mt ValueType.isVoid_iff.mpr hvoid
          refine (keeps_eat _).bind fun closed _ => ?_
          cases closed with
          | true => exact .pure hall
          | false => exact (keeps_expect _ _).bind fun _ _ => keeps_paramsLoop fuel hall

theorem keeps_params : Keeps ParseState.Proper Params params := by
  have hnone : Params [] := nofun
  refine (keeps_eat _).bind fun closed _ => ?_
  cases closed with
  | true => exact .pure hnone
  | false =>
      refine (keeps_isAtWord _).bind fun word _ => keeps_peekSecond.bind fun second _ => ?_
      split
      · exact keeps_advance.bind fun _ _ => keeps_advance.bind fun _ _ => .pure hnone
      · exact keeps_remaining.bind fun _ _ => keeps_paramsLoop _ hnone

theorem keeps_function (start : Span) (result : ValueType) {name : String}
    (hname : name ≠ globalsLoader) :
    Keeps ParseState.Proper Declaration.Proper (function start result name) := by
  refine keeps_params.bind fun params hparams => (keeps_eat _).bind fun ended _ => ?_
  have hrest : ∀ body : Option (List Stmt), (∀ b, body = some b → Stmt.AllNonVoid b) →
      Keeps ParseState.Proper Declaration.Proper (do
        return .function { result, name, params, body, span := start.cover (← previousSpan) } :
          ScriptParser Declaration) := fun body hbody =>
    keeps_previousSpan.bind fun _ _ => .pure (.function ⟨hparams, hbody⟩ hname)
  cases ended with
  | true => exact hrest none nofun
  | false =>
      have hbody : Keeps ParseState.Proper (fun body => ∀ b, body = some b → Stmt.AllNonVoid b)
          (some <$> Stmt.blockBody (Stmt.parser maxNesting)) := by
        refine (Stmt.keeps_blockBody (Stmt.parser_keeps maxNesting)).bind fun b hb => .pure ?_
        intro b' hb'
        obtain rfl := Option.some.inj hb'
        exact hb
      exact hbody.bind hrest

theorem keeps_globalVariable (start : Span) (type : ValueType) (name : Token) :
    Keeps ParseState.Proper Declaration.Proper (globalVariable start type name) := by
  rw [globalVariable]
  split
  · exact keeps_fail _ _
  · next hvoid =>
      refine (Stmt.keeps_initializer (Expr.parser_keeps _)).bind fun _ _ => ?_
      refine (keeps_expect _ _).bind fun _ _ => keeps_previousSpan.bind fun _ _ => .pure ?_
      exact .global (mt ValueType.isVoid_iff.mpr hvoid)

theorem keeps_declared : Keeps ParseState.Proper Declaration.Proper declared := by
  have hrest : Keeps ParseState.Proper Declaration.Proper (do
      let start := (← peek).span
      let type ← valueType
      let name ← expect .ident "identifier"
      if ← eat .lParen then function start type name.text
      else globalVariable start type name) := by
    refine keeps_peek.bind fun _ _ => keeps_valueType.bind fun type _ => ?_
    refine (keeps_expect _ _).bind fun name hname => (keeps_eat _).bind fun opened _ => ?_
    cases opened with
    | true => exact keeps_function _ type (hname.2 hname.1)
    | false => exact keeps_globalVariable _ type name
  refine (keeps_isAtWord _).bind fun word _ => ?_
  cases word with
  | true => exact keeps_advance.bind fun _ _ => hrest
  | false => exact hrest

theorem keeps_next : Keeps ParseState.Proper Event.Proper next := by
  refine (keeps_isAt _).bind fun included _ => ?_
  cases included with
  | true => exact keeps_directive
  | false =>
      refine keeps_declared.bind fun decl hdecl => .pure ?_
      intro decl' h
      obtain rfl := Event.declaration.inj h
      exact hdecl

theorem loop_proper : ∀ (fuel : Nat) {s : ParseState}, s.Proper → ∀ e ∈ loop fuel s, e.Proper
  | 0, _, _ => List.forall_mem_nil _
  | fuel + 1, s, hs => by
      intro e he
      rw [loop] at he
      split at he
      · cases he
      · have hread := (keeps_recover keeps_next keeps_synchronize) { s with noted := [] } hs
        split at he
        · next event s' h =>
            obtain ⟨hs', hevent⟩ := hread.1 _ _ h
            rcases List.mem_append.mp he with he | he
            · rcases List.mem_append.mp he with he | he
              · obtain ⟨d, -, rfl⟩ := List.mem_map.mp he
                exact nofun
              · exact hevent e (Option.mem_toList.mp he)
            · exact loop_proper fuel hs' e he
        · obtain rfl := List.mem_singleton.mp he
          exact nofun

/-- The declarations of a script. -/
theorem ofSource_proper (source : String) : ∀ e ∈ ofSource source, e.Proper := by
  intro e he
  rcases List.mem_append.mp he with he | he
  · obtain ⟨d, -, rfl⟩ := List.mem_map.mp he
    exact nofun
  · refine loop_proper _ ?_ e he
    intro t ht
    refine Lexed.ofSource_proper source t ?_
    rcases List.mem_cons.mp ht with rfl | ht
    · exact List.mem_append_right _ (List.mem_singleton_self _)
    · exact List.mem_append_left _ ht

end Event

end Nss
