/-
# How deep a script can be

What the parser reads is nested no deeper than `maxNesting`, for every script: where it would have to
go deeper, it fails with a diagnostic.  That does not make the trees that it delivers bounded in depth.
It counts operands and statements, and a row of binary operators goes on and on with operands of one
level, so that the trees of all scripts together are as deep as their rows of operators are long
(`ofSource_depth`), and there is no bound on those (`ofSource_unbounded`).
-/
import Nss.Proofs.Syntax.Depth
import Nss.Proofs.Printing.Declarations

namespace Nss

namespace Steps

variable {ε σ α β : Type}

/-- What a step gives has a property, whatever the state that it is run in. -/
def Gives (P : α → Prop) (p : EStateM ε σ α) : Prop := ∀ s a t, p s = .ok a t → P a

namespace Gives

variable {P : α → Prop} {Q : β → Prop}

theorem pure {a : α} (ha : P a) : Gives P (Pure.pure a : EStateM ε σ α) := by
  intro s b t h
  obtain rfl := (EStateM.Result.ok.inj h).1
  exact ha

theorem throw (e : ε) : Gives P (throw e : EStateM ε σ α) := by
  intro s b t h
  cases h

/-- The second part of a sequence may rely on what the first one gave. -/
theorem bind {p : EStateM ε σ α} {k : α → EStateM ε σ β} (hp : Gives P p)
    (hk : ∀ a, P a → Gives Q (k a)) : Gives Q (p >>= k) := by
  intro s b u h
  obtain ⟨a, t, ht, hu⟩ := bind_eq_ok.mp h
  exact hk a (hp s a t ht) t b u hu

/-- What the first part of a sequence gave does not matter. -/
theorem andThen {p : EStateM ε σ α} {k : α → EStateM ε σ β} (hk : ∀ a, Gives Q (k a)) :
    Gives Q (p >>= k) := by
  intro s b u h
  obtain ⟨a, t, -, hu⟩ := bind_eq_ok.mp h
  exact hk a t b u hu

end Gives
end Steps

open Steps ScriptParser

/-! ## Expressions -/

namespace Expr

/-- Where looser operators are allowed, an expression has no more levels. -/
theorem nesting_le_of_le (leaf : Nat) {m n : Nat} (h : m ≤ n) (e : Expr) :
    nesting leaf n e ≤ nesting leaf m e := by
  cases e with
  | binary op l r span =>
      rw [nesting, nesting]
      refine Nat.add_le_add_left ?_ _
      split
      · exact Nat.zero_le _
      · next hlt =>
          exact Nat.le_of_eq (if_neg fun hm => hlt (Nat.lt_of_lt_of_le hm h)).symm
  | int | float | string | object | ident | call | unary => simp only [nesting, Nat.le_refl]

/-- Parentheses are one level. -/
theorem nesting_zero_le (leaf n : Nat) (e : Expr) : nesting leaf 0 e ≤ nesting leaf n e + 1 := by
  cases e with
  | binary op l r span =>
      rw [nesting, nesting, if_neg (Nat.not_lt_zero _)]
      omega
  | int | float | string | object | ident | call | unary =>
      simp only [nesting]
      omega

theorem nesting_withSpan (leaf n : Nat) (e : Expr) (span : Span) :
    nesting leaf n (e.withSpan span) = nesting leaf n e := by
  cases e <;> simp only [withSpan, nesting]

/-- A number is one level at most, for its sign. -/
theorem nesting_int_le (n : Nat) (v : Int32) (span : Span) : nesting 0 n (int v span) ≤ 1 := by
  rw [nesting]
  split
  · exact Nat.le_refl 1
  · exact Nat.zero_le 1

theorem nesting_float_le (n : Nat) (v : Binary32) (span : Span) : nesting 0 n (float v span) ≤ 1 := by
  rw [nesting]
  split
  · exact Nat.le_refl 1
  · exact Nat.zero_le 1

/-- An operator before an operand is one level. -/
theorem nesting_applyUnary (op : UnaryOp) (x : Expr) (span : Span) :
    nesting 0 0 (applyUnary op x span) ≤ nesting 0 0 x + 1 := by
  cases op with
  | neg =>
      cases x with
      | int v _ => exact Nat.le_trans (nesting_int_le _ _ _) (Nat.le_add_left 1 _)
      | float v _ => exact Nat.le_trans (nesting_float_le _ _ _) (Nat.le_add_left 1 _)
      | string | object | ident | call | unary | binary => exact Nat.le_refl _
  | not => exact Nat.le_refl _

/-- An expression with at most `k` levels where operators of looseness below `n` are allowed. -/
def Within (k n : Nat) (e : Expr) : Prop := nesting 0 n e ≤ k

variable {k : Nat}

theorem chain_gives {tighter : ScriptParser Expr} {looseness : Nat}
    (htighter : Gives (Within k looseness) tighter) :
    ∀ (fuel : Nat) {left : Expr}, Within k (looseness + 1) left →
      Gives (Within k (looseness + 1)) (chain looseness tighter fuel left)
  | 0, _, hleft => .pure hleft
  | fuel + 1, left, hleft => by
      rw [chain]
      refine .andThen fun t => ?_
      split
      · next op hop =>
          split
          · next hlevel =>
              refine .andThen fun _ => htighter.bind fun right hright => ?_
              refine chain_gives htighter fuel ?_
              rw [Within, nesting, hlevel, if_pos (Nat.lt_succ_self _)]
              exact Nat.max_le.mpr ⟨hleft, hright⟩
          · exact .pure hleft
      · exact .pure hleft

theorem operations_gives {operand : ScriptParser Expr} (hoperand : Gives (Within k 0) operand) :
    ∀ n, Gives (Within k n) (operations operand n)
  | 0 => hoperand
  | n + 1 => by
      rw [operations]
      have htighter := operations_gives hoperand n
      refine htighter.bind fun left hleft => .andThen fun fuel => ?_
      exact chain_gives htighter fuel (Nat.le_trans (nesting_le_of_le 0 (Nat.le_succ n) left) hleft)

theorem argNesting_append {args args' : List Expr} (h : argNesting 0 args ≤ k)
    (h' : argNesting 0 args' ≤ k) : argNesting 0 (args ++ args') ≤ k := by
  induction args with
  | nil => exact h'
  | cons e rest ih =>
      rw [argNesting] at h
      rw [List.cons_append, argNesting]
      exact Nat.max_le.mpr ⟨Nat.le_trans (Nat.le_max_left _ _) h,
        ih (Nat.le_trans (Nat.le_max_right _ _) h)⟩

theorem argsLoop_gives {expr : ScriptParser Expr} (hexpr : Gives (Within k 6) expr) :
    ∀ (fuel : Nat) {before : List Expr}, argNesting 0 before ≤ k + 1 →
      Gives (fun args => argNesting 0 args ≤ k + 1) (argsLoop expr fuel before)
  | 0, _, hbefore => .pure hbefore
  | fuel + 1, before, hbefore => by
      rw [argsLoop]
      refine hexpr.bind fun e he => .andThen fun closed => ?_
      have hall : argNesting 0 (before ++ [e]) ≤ k + 1 := by
        refine argNesting_append hbefore ?_
        rw [argNesting, argNesting]
        exact Nat.max_le.mpr ⟨Nat.succ_le_succ he, Nat.zero_le _⟩
      cases closed with
      | true => exact .pure hall
      | false => exact .andThen fun _ => argsLoop_gives hexpr fuel hall

theorem args_gives {expr : ScriptParser Expr} (hexpr : Gives (Within k 6) expr) :
    Gives (fun args => argNesting 0 args ≤ k + 1) (args expr) := by
  refine .andThen fun closed => ?_
  cases closed with
  | true => exact .pure (Nat.zero_le _)
  | false => exact .andThen fun fuel => argsLoop_gives hexpr (fuel + 1) (Nat.zero_le _)

theorem ofWord_gives {expr : ScriptParser Expr} (hexpr : Gives (Within k 6) expr) (t : Token) :
    Gives (Within (k + 1) 0) (ofWord expr t) := by
  rw [ofWord]
  split
  · next constant hconstant =>
      refine .pure ?_
      rw [Literal.word?] at hconstant
      split at hconstant
      · obtain rfl := Option.some.inj hconstant
        exact Nat.le_trans (nesting_int_le _ _ _) (Nat.le_add_left 1 k)
      · obtain rfl := Option.some.inj hconstant
        exact Nat.le_trans (nesting_int_le _ _ _) (Nat.le_add_left 1 k)
      · obtain rfl := Option.some.inj hconstant
        exact Nat.zero_le _
      · obtain rfl := Option.some.inj hconstant
        exact Nat.zero_le _
      · cases hconstant
  · refine .andThen fun opened => ?_
    cases opened with
    | true =>
        refine (args_gives hexpr).bind fun arguments harguments => .andThen fun _ => .pure ?_
        rw [Within, nesting]
        exact harguments
    | false =>
        refine .pure ?_
        rw [Within, nesting]
        exact Nat.zero_le _

theorem primary_gives {expr : ScriptParser Expr} (hexpr : Gives (Within k 6) expr) :
    Gives (Within (k + 1) 0) (primary expr) := by
  have hint (v : Int32) (span : Span) : Within (k + 1) 0 (int v span) :=
    Nat.le_trans (nesting_int_le 0 v span) (Nat.le_add_left 1 k)
  refine .andThen fun t => ?_
  split
  · rw [Literal.int]
    split
    · exact .throw _
    · split
      · exact .throw _
      · exact .pure (hint _ _)
  · rw [Literal.hex]
    split
    · exact .pure (hint _ _)
    · exact .throw _
  · rw [Literal.float]
    split
    · exact .throw _
    · exact .pure (Nat.le_trans (nesting_float_le _ _ _) (Nat.le_add_left 1 k))
  · exact .pure (Nat.zero_le _)
  · exact ofWord_gives hexpr t
  · refine hexpr.bind fun inner hinner => .andThen fun _ => .andThen fun _ => .pure ?_
    rw [Within, nesting_withSpan]
    exact Nat.le_trans (nesting_zero_le 0 6 inner) (Nat.succ_le_succ hinner)
  · exact .throw _
  · exact .throw _

/-- What is read as an operand has no more levels than are left. -/
theorem operand_gives : ∀ n, Gives (Within n 0) (operand n)
  | 0 => .andThen fun _ => .throw _
  | n + 1 => by
      rw [operand]
      refine .andThen fun t => ?_
      split
      · refine .andThen fun _ => (operand_gives n).bind fun x hx => .pure ?_
        exact Nat.le_trans (nesting_applyUnary _ x _) (Nat.succ_le_succ hx)
      · exact primary_gives (operations_gives (operand_gives n) 6)

theorem parser_gives (n : Nat) : Gives (Within n 6) (parser n) := operations_gives (operand_gives n) 6

end Expr

/-! ## Statements -/

namespace Stmt

variable {k : Nat} {expr : ScriptParser Expr} {stmt : ScriptParser Stmt}

theorem allNesting_append {ss ss' : List Stmt} (h : allNesting 0 ss ≤ k)
    (h' : allNesting 0 ss' ≤ k) : allNesting 0 (ss ++ ss') ≤ k := by
  induction ss with
  | nil => exact h'
  | cons s rest ih =>
      rw [allNesting] at h
      rw [List.cons_append, allNesting]
      exact Nat.max_le.mpr ⟨Nat.le_trans (Nat.le_max_left _ _) h,
        ih (Nat.le_trans (Nat.le_max_right _ _) h)⟩

/-- A statement with at most `k` levels. -/
def Within (k : Nat) (s : Stmt) : Prop := s.nesting 0 ≤ k

theorem recover_gives {α : Type} {P : α → Prop} {p : ScriptParser α} {resume : ScriptParser Unit}
    (hp : Gives P p) : Gives (fun a => ∀ x ∈ a, P x) (recover p resume) := by
  intro s a t h
  rw [recover] at h
  cases hrun : p s with
  | ok b s' =>
      rw [hrun] at h
      obtain rfl := (EStateM.Result.ok.inj h).1
      intro x hx
      obtain rfl := Option.some.inj hx
      exact hp s b s' hrun
  | error d s' =>
      rw [hrun] at h
      obtain ⟨_, _, -, h⟩ := bind_eq_ok.mp h
      obtain ⟨_, _, -, h⟩ := bind_eq_ok.mp h
      obtain rfl := (EStateM.Result.ok.inj h).1
      rintro x ⟨⟩

theorem blockLoop_gives (hstmt : Gives (Within k) stmt) :
    ∀ (fuel : Nat) {before : List Stmt}, allNesting 0 before ≤ k →
      Gives (fun body => allNesting 0 body ≤ k) (blockLoop stmt fuel before)
  | 0, _, hbefore => .pure hbefore
  | fuel + 1, before, hbefore => by
      rw [blockLoop]
      refine .andThen fun t => ?_
      split
      · exact .andThen fun _ => .pure hbefore
      · split
        · exact .throw _
        · refine (recover_gives hstmt).bind fun read hread => ?_
          refine blockLoop_gives hstmt fuel (allNesting_append hbefore ?_)
          cases read with
          | none => exact Nat.zero_le _
          | some s => exact Nat.max_le.mpr ⟨hread s rfl, Nat.zero_le _⟩

theorem blockBody_gives (hstmt : Gives (Within k) stmt) :
    Gives (fun body => allNesting 0 body ≤ k) (blockBody stmt) :=
  .andThen fun _ => .andThen fun fuel => blockLoop_gives hstmt (fuel + 1) (Nat.zero_le _)

theorem condition_gives (hexpr : Gives (Expr.Within k 6) expr) (after : String) :
    Gives (Expr.Within k 6) (condition expr after) :=
  .andThen fun _ => hexpr.bind fun _ hcond => .andThen fun _ => .pure hcond

theorem conditional_gives (hstmt : Gives (Within k) stmt) (hexpr : Gives (Expr.Within k 6) expr) :
    Gives (Within (k + 1)) (conditional stmt expr) := by
  refine .andThen fun _ => (condition_gives hexpr _).bind fun cond hcond => ?_
  refine hstmt.bind fun body hbody => .andThen fun alternative => ?_
  cases alternative with
  | true =>
      refine hstmt.bind fun other hother => .pure ?_
      rw [Within, nesting]
      exact Nat.succ_le_succ (Nat.max_le.mpr ⟨hcond, Nat.max_le.mpr ⟨hbody, hother⟩⟩)
  | false =>
      refine .pure ?_
      rw [Within, nesting]
      exact Nat.succ_le_succ (Nat.max_le.mpr ⟨hcond, hbody⟩)

theorem whileLoop_gives (hstmt : Gives (Within k) stmt) (hexpr : Gives (Expr.Within k 6) expr) :
    Gives (Within (k + 1)) (whileLoop stmt expr) := by
  refine .andThen fun _ => (condition_gives hexpr _).bind fun cond hcond => ?_
  refine hstmt.bind fun body hbody => .pure ?_
  rw [Within, nesting]
  exact Nat.succ_le_succ (Nat.max_le.mpr ⟨hcond, hbody⟩)

/-- An expression that is there, or none. -/
theorem given_gives (hexpr : Gives (Expr.Within k 6) expr) :
    Gives (fun value : Option Expr => ∀ e ∈ value, Expr.Within k 6 e) (some <$> expr) := by
  refine hexpr.bind fun e he => .pure ?_
  intro e' he'
  obtain rfl := Option.some.inj he'
  exact he

theorem returned_gives (hexpr : Gives (Expr.Within k 6) expr) :
    Gives (Within (k + 1)) (returned expr) := by
  refine .andThen fun first => .andThen fun ended => ?_
  have hrest (value : Option Expr) (hvalue : ∀ e ∈ value, Expr.Within k 6 e) :
      Gives (Within (k + 1)) (do
        let _ ← expect .semi "\";\" after return"
        return ret value (first.span.cover (← previousSpan)) : ScriptParser Stmt) := by
    refine .andThen fun _ => .andThen fun _ => .pure ?_
    cases value with
    | none => exact Nat.le_add_left 1 k
    | some e => exact Nat.succ_le_succ (hvalue e rfl)
  cases ended with
  | true => exact hrest none nofun
  | false => exact (given_gives hexpr).bind hrest

theorem initializer_gives (hexpr : Gives (Expr.Within k 6) expr) :
    Gives (fun init : Option Expr => ∀ e ∈ init, Expr.Within k 6 e) (initializer expr) := by
  refine .andThen fun present => ?_
  cases present with
  | true => exact given_gives hexpr
  | false => exact .pure nofun

/-- The levels of a variable are those of its first value. -/
theorem varNesting_le {type : ValueType} {name : String} {init : Option Expr} {span : Span}
    (h : ∀ e ∈ init, Expr.Within k 6 e) : VarDecl.nesting 0 ⟨type, name, init, span⟩ ≤ k := by
  cases init with
  | none => exact Nat.zero_le k
  | some e => exact h e rfl

theorem localVariable_gives (hexpr : Gives (Expr.Within k 6) expr) :
    Gives (Within (k + 1)) (localVariable expr) := by
  refine .andThen fun _ => .andThen fun type => ?_
  split
  · exact .throw _
  · refine .andThen fun name => (initializer_gives hexpr).bind fun init hinit => ?_
    refine .andThen fun _ => .andThen fun _ => .pure ?_
    exact Nat.succ_le_succ (varNesting_le hinit)

theorem assignment_gives (hexpr : Gives (Expr.Within k 6) expr) :
    Gives (Within (k + 1)) (assignment expr) :=
  .andThen fun _ => .andThen fun _ => hexpr.bind fun _ hvalue => .andThen fun _ =>
    .andThen fun _ => .pure (Nat.succ_le_succ hvalue)

theorem expression_gives (hexpr : Gives (Expr.Within k 6) expr) :
    Gives (Within (k + 1)) (expression expr) :=
  hexpr.bind fun _ hvalue => .andThen fun _ => .pure (Nat.succ_le_succ hvalue)

theorem ofParts_gives (hstmt : Gives (Within k) stmt) (hexpr : Gives (Expr.Within k 6) expr) :
    Gives (Within (k + 1)) (ofParts stmt expr) := by
  refine .andThen fun t => ?_
  split
  · exact (blockBody_gives hstmt).bind fun body hbody => .pure (Nat.succ_le_succ hbody)
  · exact .andThen fun _ => .pure (Nat.le_add_left 1 k)
  · exact conditional_gives hstmt hexpr
  · exact whileLoop_gives hstmt hexpr
  · exact returned_gives hexpr
  · refine .andThen fun typed => ?_
    cases typed with
    | true => exact localVariable_gives hexpr
    | false =>
        refine .andThen fun second => ?_
        split
        · exact assignment_gives hexpr
        · exact expression_gives hexpr
  · exact expression_gives hexpr

/-- What is read as a statement has no more levels than are left. -/
theorem parser_gives : ∀ n, Gives (Within n) (parser n)
  | 0 => .andThen fun _ => .throw _
  | n + 1 => ofParts_gives (parser_gives n) (Expr.parser_gives n)

end Stmt

/-! ## Declarations -/

namespace Event

/-- The declaration of an event, if it is one, has at most `maxNesting` levels. -/
def Within (e : Event) : Prop := ∀ decl, e = .declaration decl → decl.nesting 0 ≤ maxNesting

theorem function_gives (start : Span) (result : ValueType) (name : String) :
    Gives (fun decl : Declaration => decl.nesting 0 ≤ maxNesting) (function start result name) := by
  refine .andThen fun params => .andThen fun ended => ?_
  have hrest (body : Option (List Stmt)) (hbody : ∀ ss ∈ body, Stmt.allNesting 0 ss ≤ maxNesting) :
      Gives (fun decl : Declaration => decl.nesting 0 ≤ maxNesting) (do
        return .function { result, name, params, body, span := start.cover (← previousSpan) } :
          ScriptParser Declaration) := by
    refine .andThen fun _ => .pure ?_
    cases body with
    | none => exact Nat.zero_le _
    | some ss => exact hbody ss rfl
  cases ended with
  | true => exact hrest none nofun
  | false =>
      have hbody : Gives (fun body : Option (List Stmt) =>
          ∀ ss ∈ body, Stmt.allNesting 0 ss ≤ maxNesting)
          (some <$> Stmt.blockBody (Stmt.parser maxNesting)) := by
        refine (Stmt.blockBody_gives (Stmt.parser_gives maxNesting)).bind fun ss hss => .pure ?_
        intro ss' hss'
        obtain rfl := Option.some.inj hss'
        exact hss
      exact hbody.bind hrest

theorem globalVariable_gives (start : Span) (type : ValueType) (name : Token) :
    Gives (fun decl : Declaration => decl.nesting 0 ≤ maxNesting) (globalVariable start type name) := by
  rw [globalVariable]
  split
  · exact .throw _
  · refine (Stmt.initializer_gives (Expr.parser_gives maxNesting)).bind fun init hinit => ?_
    exact .andThen fun _ => .andThen fun _ => .pure (Stmt.varNesting_le hinit)

theorem declared_gives : Gives (fun decl : Declaration => decl.nesting 0 ≤ maxNesting) declared := by
  have hrest : Gives (fun decl : Declaration => decl.nesting 0 ≤ maxNesting) (do
      let start := (← peek).span
      let type ← valueType
      let name ← expect .ident "identifier"
      if ← eat .lParen then function start type name.text
      else globalVariable start type name) := by
    refine .andThen fun _ => .andThen fun type => .andThen fun name => .andThen fun opened => ?_
    cases opened with
    | true => exact function_gives _ type _
    | false => exact globalVariable_gives _ type name
  refine .andThen fun word => ?_
  cases word with
  | true => exact .andThen fun _ => hrest
  | false => exact hrest

theorem next_gives : Gives Within next := by
  refine .andThen fun included => ?_
  cases included with
  | true => exact .andThen fun _ => .andThen fun _ => .pure nofun
  | false =>
      refine declared_gives.bind fun decl hdecl => .pure ?_
      intro decl' h
      obtain rfl := Event.declaration.inj h
      exact hdecl

theorem loop_within : ∀ (fuel : Nat) (s : ParseState), ∀ e ∈ loop fuel s, e.Within
  | 0, _ => List.forall_mem_nil _
  | fuel + 1, s => by
      intro e he
      rw [loop] at he
      split at he
      · cases he
      · split at he
        · next event s' h =>
            rcases List.mem_append.mp he with he | he
            · rcases List.mem_append.mp he with he | he
              · obtain ⟨d, -, rfl⟩ := List.mem_map.mp he
                rintro decl ⟨⟩
              · exact Stmt.recover_gives next_gives _ _ _ h e (Option.mem_toList.mp he)
            · exact loop_within fuel s' e he
        · obtain rfl := List.mem_singleton.mp he
          rintro decl ⟨⟩

/-- No declaration of a script is nested deeper than the parser goes. -/
theorem ofSource_within (source : String) : ∀ e ∈ ofSource source, e.Within := by
  intro e he
  rcases List.mem_append.mp he with he | he
  · obtain ⟨d, -, rfl⟩ := List.mem_map.mp he
    exact nofun
  · exact loop_within _ _ e he

/-- The trees of some scripts, all together, are as deep as their rows of binary operators are long:
apart from those, the parser keeps them within a bound that `maxNesting` gives. -/
theorem ofSource_depth (sources : Set String) :
    (∀ source ∈ sources, ∀ decl, declaration decl ∈ ofSource source →
      decl.nesting 0 ≤ maxNesting ∧ decl.depth ≤ (maxNesting + 1) * (6 * decl.run + 1)) ∧
    ((∃ bound, ∀ source ∈ sources, ∀ decl, declaration decl ∈ ofSource source →
        decl.depth ≤ bound) ↔
      ∃ bound, ∀ source ∈ sources, ∀ decl, declaration decl ∈ ofSource source →
        decl.run ≤ bound) := by
  have hdepth (source : String) (decl : Declaration) (hmem : declaration decl ∈ ofSource source) :
      decl.nesting 0 ≤ maxNesting ∧ decl.depth ≤ (maxNesting + 1) * (6 * decl.run + 1) := by
    have hnesting := ofSource_within source _ hmem decl rfl
    exact ⟨hnesting, Nat.le_trans decl.depth_le
      (Nat.mul_le_mul_right _ (Nat.succ_le_succ hnesting))⟩
  refine ⟨fun source _ decl hmem => hdepth source decl hmem, ?_, ?_⟩
  · rintro ⟨bound, hbound⟩
    refine ⟨bound, fun source hsource decl hmem => ?_⟩
    exact Nat.le_trans decl.run_le_depth (hbound source hsource decl hmem)
  · rintro ⟨bound, hbound⟩
    refine ⟨(maxNesting + 1) * (6 * bound + 1), fun source hsource decl hmem => ?_⟩
    refine Nat.le_trans (hdepth source decl hmem).2 (Nat.mul_le_mul_left _ ?_)
    exact Nat.succ_le_succ (Nat.mul_le_mul_left 6 (hbound source hsource decl hmem))

/-- In a sum no operand is nested in another one, and it is as deep as it is long. -/
theorem ofSource_depth_sum :
    ∃ decl, declaration decl ∈ ofSource "int g = 1 + 2 + 3;" ∧ decl.run = 2 ∧ decl.depth = 3 ∧
      decl.nesting 0 ≤ maxNesting ∧ decl.depth ≤ (maxNesting + 1) * (6 * decl.run + 1) := by
  have hmeasures : (ofSource "int g = 1 + 2 + 3;").map (fun
      | declaration decl => (decl.run, decl.depth)
      | _ => (0, 0)) = [(2, 3)] := by
    decide +kernel
  obtain ⟨e, hall, hmeasure⟩ := List.map_eq_singleton_iff.mp hmeasures
  have hmem : e ∈ ofSource "int g = 1 + 2 + 3;" := by
    rw [hall]
    exact List.mem_singleton_self e
  cases e with
  | inclusion | problem => cases hmeasure
  | declaration decl =>
      obtain ⟨hrun, hdepth⟩ := Prod.mk.inj hmeasure
      exact ⟨decl, hmem, hrun, hdepth, (ofSource_depth Set.univ).1 _ trivial decl hmem⟩

/-! ### Rows without end -/

/-- One and some more ones. -/
def sum : Nat → Expr
  | 0 => .int 1 .origin
  | n + 1 => .binary .add (sum n) (.int 1 .origin) .origin

theorem isPrintable_sum (n : Nat) : (sum n).isPrintable = true := by
  induction n with
  | zero => rfl
  | succ n ih => rw [sum, Expr.isPrintable, ih]; rfl

/-- All operands of a sum are on one level. -/
theorem nesting_sum (n : Nat) : (sum n).nesting 1 (BinaryOp.add.looseness + 1) = 1 := by
  induction n with
  | zero => rfl
  | succ n ih => rw [sum, Expr.nesting, ih]; rfl

theorem depth_sum (n : Nat) : (sum n).depth = n + 1 := by
  induction n with
  | zero => rfl
  | succ n ih =>
      rw [sum, Expr.depth, ih, Expr.depth]
      omega

/-- A variable that begins with a sum. -/
def summed (n : Nat) : VarDecl :=
  { type := .int, name := "g", init := some (sum n), span := .origin }

/-- A script with a sum in it is read as a tree that is as deep as the sum is long. -/
theorem exists_summed (n : Nat) :
    ∃ decl, declaration decl ∈ ofSource (Declaration.global (summed n)).printed ∧
      decl.depth = n + 1 := by
  have hprintable : (Declaration.global (summed n)).isPrintable = true := by
    show (!ValueType.isVoid .int && isName "g" && (sum n).isPrintable) = true
    rw [isPrintable_sum]
    decide
  have hnesting : Declaration.nesting 1 (.global (summed n)) ≤ maxNesting := by
    have hloose := (sum n).nesting_le_of_le 1 (show BinaryOp.add.looseness + 1 ≤ 6 by decide)
    rw [nesting_sum] at hloose
    exact Nat.le_trans hloose (by decide)
  have hevents := (map_unplaced_printed hprintable).trans (ofTokens_words hprintable hnesting)
  obtain ⟨e, hall, he⟩ := List.map_eq_singleton_iff.mp hevents
  obtain ⟨decl', rfl, hdecl⟩ := unplaced_eq_declaration he
  refine ⟨decl', by rw [hall]; exact List.mem_singleton_self _, ?_⟩
  cases decl' with
  | function decl => cases hdecl
  | global decl =>
      have hsame : decl.unplaced = (summed n).unplaced := Declaration.global.inj hdecl
      rw [Declaration.depth, ← decl.depth_unplaced, hsame, VarDecl.depth_unplaced]
      exact depth_sum n

/-- No bound on the depth of trees holds for all scripts. -/
theorem ofSource_unbounded :
    ¬ ∃ bound, ∀ source decl, declaration decl ∈ ofSource source → decl.depth ≤ bound := by
  rintro ⟨bound, hbound⟩
  obtain ⟨decl, hmem, hdepth⟩ := exists_summed bound
  have hle := hbound _ decl hmem
  omega

end Event

end Nss
