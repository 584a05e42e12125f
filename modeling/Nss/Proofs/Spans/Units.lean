/-
# Spans of events

A script that is broken here and there gives the events of what is whole, and a diagnostic for each
thing that is not.  Whatever the script is, the spans of all of them nest (`Event.ofSource_nests`).
-/
import Mathlib
import Nss.Proofs.Spans.Parsing

namespace Nss

namespace Event

variable {l : Lexed} {source : String} {j k k' : Nat}

/-! ## Events between two positions -/

/-- What was read from the first to the last token of a stretch goes around all that was read there. -/
theorem nests_of_ends {e : Event} (hl : l.InOrder source) (hlt : k < k')
    (hspan : e.span = (l.tokenAt k).span.cover (l.tokenAt (k' - 1)).span)
    (hexprs : ∀ x ∈ e.exprs, l.Stretch source k k' x.span ∧ ∀ y ∈ x.parts, y.span.Within x.span)
    (hstmts : ∀ s ∈ e.stmts, s.Fits l source k k') : e.Nests source := by
  have hspans : ∀ s ∈ e.spans, l.Stretch source k k' s := by
    refine List.forall_mem_cons.mpr ⟨hspan ▸ .ends hl hlt, List.forall_mem_append.mpr ⟨?_, ?_⟩⟩
    · intro span hmem
      obtain ⟨s, hs, hspan⟩ := List.mem_filterMap.mp hmem
      exact (hstmts s hs).span span hspan
    · exact List.forall_mem_map.mpr fun x hx => (hexprs x hx).1
  refine ⟨fun s hs => (hspans s hs).valid, fun x hx => (hexprs x hx).2,
    fun s hs _ => (hstmts s hs).within_allParts, ?_⟩
  rw [hspan]
  exact fun s hs => (hspans s hs).within_ends

theorem nests_problem {d : Diagnostic} (h : d.span.Valid source) : (problem d).Nests source where
  valid := List.forall_mem_singleton.mpr h
  exprs := List.forall_mem_nil _
  stmts := List.forall_mem_nil _
  inside := List.forall_mem_singleton.mpr (.refl _)

theorem nests_of_blames (hl : l.InOrder source) {d : Diagnostic} (h : l.Blames d) :
    (problem d).Nests source := by
  obtain ⟨k, hspan⟩ := h
  exact nests_problem (hspan ▸ hl.valid k)

/-! ## Directives and declarations -/

/-- Whatever a parser gives is an event whose spans nest. -/
abbrev Nesting (source : String) : Nat → Event → Prop := fun _ e => e.Nests source

theorem directive_comes (hl : l.InOrder source) (hk : k < l.tokens.length) :
    Comes l k (Nesting source) directive := by
  rw [directive]
  refine .step hl.closed hk (.expect hl.closed (by decide) _ (.pure ?_))
  exact nests_of_ends hl (Nat.lt_add_of_pos_right Nat.two_pos) rfl (List.forall_mem_nil _)
    (List.forall_mem_nil _)

theorem paramsLoop_comes (hl : l.Closed) : ∀ (fuel k : Nat) (ps : List Param),
    Comes l k (fun _ _ => True) (paramsLoop fuel ps)
  | 0, _, _ => .pure trivial
  | fuel + 1, k, ps => by
      rw [paramsLoop]
      refine .valueType hl fun type => ?_
      cases type.isVoid with
      | true => exact .previousSpan (.fail _ rfl)
      | false =>
          refine .expect hl (by decide) _ (.eat hl (by decide) (fun _ => .pure trivial) ?_)
          exact .expect hl (by decide) _ (paramsLoop_comes hl fuel _ _)

theorem params_comes (hl : l.Closed) (k : Nat) : Comes l k (fun _ _ => True) params := by
  rw [params]
  refine .eat hl (by decide) (fun _ => .pure trivial) ?_
  refine .look (l.reads_isAtWord "void" k) (.look (l.reads_peekSecond k) ?_)
  split
  · next hvoid =>
      simp only [Bool.and_eq_true, decide_eq_true_eq] at hvoid
      have hlt : k < l.tokens.length := hl.lt_length_of_kind (by rw [hvoid.1.1]; decide)
      have hlt' : k + 1 < l.tokens.length := hl.lt_length_of_kind (by rw [hvoid.2]; decide)
      exact .step hl hlt (.step hl hlt' (.pure trivial))
  · exact .remaining fun n => paramsLoop_comes hl (n + 1) k []

theorem function_comes (hl : l.InOrder source) (result : ValueType) (name : String) (hj : k < j) :
    Comes l j (fun _ decl => (declaration decl).Nests source)
      (function (l.tokenAt k).span result name) := by
  rw [function]
  refine (params_comes hl.closed j).bind fun params i hi _ => ?_
  have hrest (body : Option (List Stmt)) (i : Nat) (hi : k < i)
      (hbody : Stmt.AllRead l source k i (body.getD [])) :
      Comes l i (fun _ decl => (declaration decl).Nests source) (do
        let last ← ScriptParser.previousSpan
        return .function { result, name, params, body, span := (l.tokenAt k).span.cover last }) := by
    refine .previousSpan (.pure (nests_of_ends hl hi rfl ?_ hbody.allParts))
    intro x hx
    obtain ⟨s, hs, hx⟩ := List.mem_flatMap.mp hx
    exact Expr.AllRead.allParts (hbody.allParts s hs).exprs x hx
  refine .eat hl.closed (by decide) (fun _ => ?_) ?_
  · exact hrest none (i + 1) (by omega) (List.forall_mem_nil _)
  · have hbody : Comes l i (fun i' body => Stmt.AllRead l source k i' (body.getD []))
        (some <$> Stmt.blockBody (Stmt.parser maxNesting)) :=
      (Stmt.blockBody_comes hl (Stmt.parser_comes hl maxNesting) (by omega)).map fun _ _ h => h
    exact hbody.bind fun body i' hi' h => hrest body i' (by omega) h

theorem globalVariable_comes (hl : l.InOrder source) (type : ValueType) (i : Nat) (hj : k < j) :
    Comes l j (fun _ decl => (declaration decl).Nests source)
      (globalVariable (l.tokenAt k).span type (l.tokenAt i)) := by
  rw [globalVariable]
  cases type.isVoid with
  | true => exact .fail _ rfl
  | false =>
      refine (Stmt.initializer_comes hl (Expr.parser_comes hl maxNesting) (Nat.le_of_lt hj)).bind
        fun init j' hj' hinit => ?_
      refine .expect hl.closed (by decide) _ (.previousSpan (.pure ?_))
      refine nests_of_ends hl (by omega) rfl ?_ (List.forall_mem_nil _)
      exact (hinit.mono hl (Nat.le_refl k) (Nat.le_succ j')).allParts

theorem declared_comes (hl : l.InOrder source) (k : Nat) :
    Comes l k (fun _ decl => (declaration decl).Nests source) declared := by
  have hrest (k : Nat) : Comes l k (fun _ decl => (declaration decl).Nests source) (do
      let start := (← ScriptParser.peek).span
      let type ← ScriptParser.valueType
      let name ← ScriptParser.expect .ident "identifier"
      if ← ScriptParser.eat .lParen then function start type name.text
      else globalVariable start type name) := by
    refine .look (l.reads_peek k) (.valueType hl.closed fun type => ?_)
    refine .expect hl.closed (by decide) _ (.eat hl.closed (by decide) (fun _ => ?_) ?_)
    · exact function_comes hl type _ (by omega)
    · exact globalVariable_comes hl type (k + 1) (by omega)
  rw [declared]
  refine .look (l.reads_isAtWord "const" k) ?_
  cases hword : decide ((l.tokenAt k).kind = .ident) && decide ((l.tokenAt k).text = "const") with
  | true =>
      simp only [Bool.and_eq_true, decide_eq_true_eq] at hword
      exact .step hl.closed (hl.closed.lt_length_of_kind (by rw [hword.1]; decide)) (hrest (k + 1))
  | false => exact hrest k

theorem next_comes (hl : l.InOrder source) (k : Nat) : Comes l k (Nesting source) next := by
  rw [next]
  refine .look (l.reads_isAt .hashInclude k) ?_
  cases hhash : decide ((l.tokenAt k).kind = .hashInclude) with
  | true =>
      have hkind := of_decide_eq_true hhash
      exact directive_comes hl (hl.closed.lt_length_of_kind (by rw [hkind]; decide))
  | false => exact (declared_comes hl k).map fun _ _ h => h

/-! ## Units -/

/-- What the turns of the loop add nests, by induction on their number. -/
theorem loop_nests (hl : l.InOrder source) : ∀ (fuel k : Nat) (noted : List Diagnostic),
    k ≤ l.tokens.length → ∀ e ∈ loop fuel (l.stateAt k noted), e.Nests source
  | 0, _, _, _ => List.forall_mem_nil _
  | fuel + 1, k, noted, hk => by
      rcases Nat.lt_or_eq_of_le hk with hlt | rfl
      · have hturn := (next_comes hl k).recover fun j hj => by
          obtain ⟨j', hle, hj', -, htakes⟩ := synchronize_skips hl.closed hj
          exact ⟨j', hle, hj', htakes.1⟩
        obtain ⟨event, k', more, -, hk', -, hrun, -⟩ := unitTurn_run hl.closed hlt
        obtain ⟨r, k'', more', -, hk'', hrun', hblames, hok, -⟩ := hturn hk []
        rw [hrun] at hrun'
        cases r with
        | error d => cases hrun'
        | ok event' =>
            obtain ⟨rfl, hstate⟩ := EStateM.Result.ok.inj hrun'
            obtain ⟨rfl, rfl⟩ := Lexed.stateAt_inj hk' hk'' hstate
            rw [loop_turn hlt hrun]
            refine List.forall_mem_append.mpr ⟨List.forall_mem_append.mpr ⟨?_, ?_⟩, ?_⟩
            · exact List.forall_mem_map.mpr fun d hd => nests_of_blames hl (hblames d hd)
            · exact fun e he => hok event rfl e (Option.mem_toList.mp he)
            · exact loop_nests hl fuel k' _ hk'
      · rw [loop_end]
        exact List.forall_mem_nil _

/-- Whatever a script is, the spans of all that is read of it are parts of it, cut between characters,
and they nest: operands and arguments lie within the expressions that they are in, expressions within
the statements and the variables that they belong to, and all of them within the declaration. -/
theorem ofSource_nests (source : String) : ∀ e ∈ ofSource source, e.Nests source := by
  have hl := Lexed.ofSource_inOrder source
  rw [ofSource]
  refine List.forall_mem_append.mpr ⟨List.forall_mem_map.mpr fun d hd => ?_, ?_⟩
  · obtain ⟨text, hholds⟩ := Lexed.ofSource_trouble hd
    exact nests_problem hholds.valid
  · rw [Lexed.start_eq]
    exact loop_nests hl _ 0 [] (Nat.zero_le _)

/-- What is broken is passed by, and behind it an operand in parentheses takes their span. -/
theorem ofSource_nests_broken :
    ∃ d decl, ofSource "int f(int x) { int y 1; return (x + 1) * 2; }"
      = [problem d, declaration decl] ∧
      (problem d).Nests "int f(int x) { int y 1; return (x + 1) * 2; }" ∧
      (declaration decl).Nests "int f(int x) { int y 1; return (x + 1) * 2; }" := by
  have hevents : ofSource "int f(int x) { int y 1; return (x + 1) * 2; }"
      = [problem (.error (.expected "\";\" after declaration") ⟨21, 22⟩),
        declaration (.function ⟨.int, "f", [⟨.int, "x"⟩], some [.ret (some (.binary .mul
          (.binary .add (.ident "x" ⟨32, 33⟩) (.int 1 ⟨36, 37⟩) ⟨31, 38⟩) (.int 2 ⟨41, 42⟩) ⟨31, 42⟩))
          ⟨24, 43⟩], ⟨0, 45⟩⟩)] := by
    cbv
  refine ⟨_, _, hevents, ofSource_nests _ _ ?_, ofSource_nests _ _ ?_⟩
  · rw [hevents]
    exact List.mem_cons_self
  · rw [hevents]
    exact List.mem_cons_of_mem _ List.mem_cons_self

end Event
end Nss
