/-
# The parser always finishes

Whatever a script is, the walk over its tokens comes to the end, and there it has no level open
(`Event.ofSource_finishes`).  Every turn of the loop over a unit, and every one of the loop over a
block, goes on to a later token, and no step goes past the end.  What is read and noted in a turn is
paid for with the tokens of that turn, so that a unit has no more events than tokens, apart from those
for its characters.

A turn that fails at once has not read anything.  Then the search for a place to go on from reads at
least one token: the loop over a unit looks that the end is not next, and the one over a block that the
closing brace is not next either.
-/
import Nss.Proofs.Parsing.Statements

namespace Nss

open Steps

/-- The tokens of a script end with the only end among them. -/
theorem Lexed.ofSource_closed (source : String) : (ofSource source).Closed where
  tokens := ofSource_ne_eof source
  ending := rfl

namespace Event

variable {l : Lexed} {k : Nat}

/-! ## Directives and declarations -/

theorem directive_agrees (hl : l.Closed) (hk : k < l.tokens.length) :
    Agrees l 0 1 Anywhere k directive (Loops.directive l.all) := by
  rw [directive, Loops.directive]
  refine .step (Takes.advance hl hk) hk ?_
  exact (Agrees.expect hl (by decide) _).free.bind fun _ _ _ _ => .pure _ trivial

theorem paramsLoop_agrees (hl : l.Closed) : ∀ (fuel k : Nat) (ps : List Param),
    l.tokens.length - k < fuel →
      Agrees l 0 1 Anywhere k (paramsLoop fuel ps) (Loops.paramsLoop l.all ps)
  | 0, _, _, hfuel => absurd hfuel (Nat.not_lt_zero _)
  | fuel + 1, k, ps, hfuel => by
      rw [paramsLoop, Loops.paramsLoop]
      refine (Agrees.valueType hl).bind fun type j hj _ => ?_
      cases type.isVoid with
      | true => exact .previousSpan (.fail _ _)
      | false =>
          refine (Agrees.expect hl (by decide) _).free.bind fun name j' hj' _ => ?_
          refine .eat hl (by decide) (Nat.zero_le 1) ?_ ?_
          · exact .pure _ trivial
          · refine (Agrees.expect hl (by decide) _).free.bind fun _ j'' hj'' _ => ?_
            intro hle
            exact (paramsLoop_agrees hl fuel j'' _ (by omega)).free hle

theorem params_agrees (hl : l.Closed) (k : Nat) :
    Agrees l 0 0 Anywhere k params (Loops.params l.all) := by
  intro hk
  rw [params, Loops.params]
  refine Agrees.eat hl (by decide) (Nat.zero_le 1) ?_ ?_ hk
  · exact .pure _ trivial
  · refine .look (.isAtWord "void") (.look .peekSecond ?_)
    split
    · next hvoid =>
        have hparen : (l.tokenAt (k + 1)).kind = .rParen := by
          simp only [Bool.and_eq_true, decide_eq_true_eq] at hvoid
          exact hvoid.2
        have hword : (l.tokenAt k).kind = .ident := by
          simp only [Bool.and_eq_true, decide_eq_true_eq] at hvoid
          exact hvoid.1.1
        have hlt : k < l.tokens.length := hl.lt_of_kind hk (by rw [hword]; decide)
        have hlt' : k + 1 < l.tokens.length := hl.lt_of_kind hlt (by rw [hparen]; decide)
        refine Agrees.free (.step (Takes.advance hl hlt) hlt ?_)
        exact Agrees.free (.step (Takes.advance hl hlt') hlt' (.pure _ trivial))
    · exact .remaining (paramsLoop_agrees hl _ k [] (Nat.lt_succ_self _)).free

theorem function_agrees (hl : l.Closed) (start : Span) (result : ValueType) (name : String)
    (k : Nat) :
    Agrees l 0 0 Anywhere k (function start result name)
      (Loops.function l.all start result name) := by
  rw [function, Loops.function]
  refine (params_agrees hl k).bind fun params j _ _ => ?_
  have hrest (body : Option (List Stmt)) (j : Nat) : Agrees l 0 0 Anywhere j
      (do
        return .function
          { result, name, params, body, span := start.cover (← ScriptParser.previousSpan) } :
        ScriptParser Declaration)
      (do
        return .function
          { result, name, params, body, span := start.cover (← Loops.previousSpan l.all) }) :=
    .previousSpan (.pure _ trivial)
  refine .eat hl (by decide) (Nat.zero_le 1) ?_ ?_
  · exact hrest none (j + 1)
  · have hbody := Stmt.blockBody_agrees hl (Stmt.parser_agrees hl maxNesting 0 rfl) j
    exact hbody.free.map.bind fun body j _ _ => hrest body j

theorem globalVariable_agrees (hl : l.Closed) (start : Span) (type : ValueType) (name : Token)
    (k : Nat) :
    Agrees l 0 0 Anywhere k (globalVariable start type name)
      (Loops.globalVariable l.all start type name) := by
  rw [globalVariable, Loops.globalVariable]
  cases type.isVoid with
  | true => exact .fail _ _
  | false =>
      refine (Stmt.initializer_agrees hl (Expr.parser_agrees hl rfl) k).bind fun init j _ _ => ?_
      refine (Agrees.expect hl (by decide) _).free.bind fun _ _ _ _ => .previousSpan ?_
      exact .pure _ trivial

theorem declared_agrees (hl : l.Closed) (k : Nat) :
    Agrees l 0 1 Anywhere k declared (Loops.declared l.all) := by
  have hrest (k : Nat) : Agrees l 0 1 Anywhere k
      (do
        let start := (← ScriptParser.peek).span
        let type ← ScriptParser.valueType
        let name ← ScriptParser.expect .ident "identifier"
        if ← ScriptParser.eat .lParen then function start type name.text
        else globalVariable start type name)
      (do
        let start := (← Loops.peek l.all).span
        let type ← Loops.valueType l.all
        let name ← Loops.expect l.all .ident "identifier"
        if ← Loops.eat l.all .lParen then Loops.function l.all start type name.text
        else Loops.globalVariable l.all start type name) := by
    refine .look .peek ?_
    refine (Agrees.valueType hl).bind fun type j _ _ => ?_
    refine (Agrees.expect hl (by decide) _).free.bind fun name j _ _ => ?_
    refine .eat hl (by decide) (Nat.zero_le 1) ?_ ?_
    · exact function_agrees hl _ type name.text (j + 1)
    · exact globalVariable_agrees hl _ type name j
  intro hk
  rw [declared, Loops.declared]
  refine Agrees.look (.isAtWord "const") ?_ hk
  cases hword : decide ((l.tokenAt k).kind = .ident) && decide ((l.tokenAt k).text = "const") with
  | true =>
      have hlt : k < l.tokens.length := by
        simp only [Bool.and_eq_true, decide_eq_true_eq] at hword
        exact hl.lt_of_kind hk (by rw [hword.1]; decide)
      exact .step (Takes.advance hl hlt) hlt (hrest (k + 1)).free
  | false => exact hrest k

theorem next_agrees (hl : l.Closed) (k : Nat) :
    Agrees l 0 1 Anywhere k next (Loops.next l.all) := by
  intro hk
  rw [next, Loops.next]
  refine Agrees.look (.isAt .hashInclude) ?_ hk
  cases hhash : decide ((l.tokenAt k).kind = .hashInclude) with
  | true =>
      exact directive_agrees hl (hl.lt_of_kind hk (by rw [of_decide_eq_true hhash]; decide))
  | false => exact (declared_agrees hl k).map

/-! ## Broken declarations -/

theorem skipTo_skips (hl : l.Closed) (hk : k ≤ l.tokens.length) (depth : Nat) :
    Skips l 0 k ((l.tokenAt k).kind = .eof) (skipTo depth (l.tokens.drop k))
      (Loops.skipDeclaration l.all depth) := by
  induction hleft : l.tokens.length - k generalizing k depth with
  | zero =>
      have hend : (l.tokenAt k).kind = .eof := (hl.kind_eq_eof_iff hk).mpr (by omega)
      refine ⟨k, Nat.le_refl k, hk, fun h => absurd hend h, ?_⟩
      rw [List.drop_eq_nil_of_le (by omega), skipTo, Loops.skipDeclaration]
      refine .see (Takes.isAt .eof).2 ?_
      rw [if_pos (decide_eq_true hend)]
      exact .pure ()
  | succ n ih =>
      have hlt : k < l.tokens.length := by omega
      have hstop : ∃ k', k + 1 ≤ k' ∧ k' ≤ l.tokens.length ∧
          Takes l 0 (k + 1) k' (pure ()) (pure ()) () :=
        ⟨k + 1, Nat.le_refl _, hlt, .pure ()⟩
      have hgo (depth : Nat) : ∃ k', k + 1 ≤ k' ∧ k' ≤ l.tokens.length ∧
          Takes l 0 (k + 1) k' (skipTo depth (l.tokens.drop (k + 1)))
            (Loops.skipDeclaration l.all depth) () := by
        obtain ⟨k', hle, hk', -, hskip⟩ := ih (k := k + 1) hlt depth (by omega)
        exact ⟨k', hle, hk', hskip⟩
      have hread {p : Token → ScriptParser Unit} {w : Token → TokenWalk Unit}
          (h : ∃ k', k + 1 ≤ k' ∧ k' ≤ l.tokens.length ∧
            Takes l 0 (k + 1) k' (p (l.tokenAt k)) (w (l.tokenAt k)) ()) :
          Skips l 0 k ((l.tokenAt k).kind = .eof) (ScriptParser.advance >>= p)
            (Loops.isAt l.all .eof >>= fun found =>
              if found then pure () else Loops.advance l.all >>= w) := by
        obtain ⟨k', hle, hk', hskip⟩ := h
        refine ⟨k', by omega, hk', fun _ => hle, .see (Takes.isAt .eof).2 ?_⟩
        rw [if_neg fun h => hl.kind_ne_eof hlt (of_decide_eq_true h)]
        exact (Takes.advance hl hlt).bind hskip
      rw [Lexed.drop_eq hlt, skipTo, Loops.skipDeclaration]
      refine hread ?_
      cases (l.tokenAt k).kind with
      | lBrace => exact hgo (depth + 1)
      | rBrace =>
          by_cases hdepth : depth ≤ 1
          · simp only [hdepth, Nat.sub_eq_zero_of_le hdepth, if_true]
            exact hstop
          · have hdepth' : depth - 1 ≠ 0 := by omega
            simp only [hdepth, hdepth', if_false]
            exact hgo (depth - 1)
      | semi =>
          by_cases hdepth : depth = 0
          · simp only [hdepth, if_true]
            exact hstop
          · simp only [hdepth, if_false]
            exact hgo depth
      | _ => exact hgo depth

theorem synchronize_skips (hl : l.Closed) (hk : k ≤ l.tokens.length) :
    Skips l 0 k ((l.tokenAt k).kind = .eof) synchronize (Loops.skipDeclaration l.all 0) := by
  obtain ⟨k', hle, hk', hgo, hskip, hwalk⟩ := skipTo_skips hl hk 0
  exact ⟨k', hle, hk', hgo, hskip, hwalk⟩

/-! ## The loop over a unit -/

theorem unitTurn_eq (ts : List Token) :
    Loops.unitTurn ts = (do
      match ← Loops.recovering (Loops.next ts) (Loops.skipDeclaration ts 0) with
      | some e => Loops.note e
      | none => return ()) := by
  rw [Loops.unitTurn, Loops.recovering, bind_assoc]
  refine bind_congr fun r => ?_
  cases r with
  | ok e => rfl
  | error d => simp

/-- One turn of the loop over a unit. -/
theorem unitTurn_turns (hl : l.Closed) (hk : k < l.tokens.length) :
    Turns l 0 k (ScriptParser.recover next synchronize)
      (Loops.recovering (Loops.next l.all) (Loops.skipDeclaration l.all 0)) := by
  exact (next_agrees hl k).recover (fun j => (l.tokenAt j).kind = .eof) hk
    (hl.kind_ne_eof hk) fun j hj => synchronize_skips hl hj

/-- What a turn of the loop over a unit adds are the problems that it notes, and then the event that
it reads. -/
theorem unitTurn_run (hl : l.Closed) (hk : k < l.tokens.length) :
    ∃ event k' noted, k < k' ∧ k' ≤ l.tokens.length ∧
      noted.length + event.toList.length + k ≤ k' ∧
      ScriptParser.recover next synchronize (l.stateAt k []) = .ok event (l.stateAt k' noted) ∧
      ∀ before, (Loops.unitTurn l.all).run ⟨k, 0, before⟩
        = some ((), ⟨k', 0, before ++ (noted.map problem ++ event.toList)⟩) := by
  obtain ⟨event, k', noted, hlt, hk', hpays, hrun, hwalk⟩ := unitTurn_turns hl hk []
  refine ⟨event, k', noted, hlt, hk', hpays, hrun, ?_⟩
  intro before
  rw [unitTurn_eq, Loops.bind_of_some (hwalk before), ← List.append_assoc]
  cases event with
  | none =>
      rw [Option.toList_none, List.append_nil]
      rfl
  | some e => rfl

theorem loop_end (noted : List Diagnostic) :
    ∀ fuel, loop fuel (l.stateAt l.tokens.length noted) = []
  | 0 => rfl
  | fuel + 1 => by
      have hahead : (l.stateAt l.tokens.length noted).ahead = [] := List.drop_length
      rw [loop, hahead]

theorem loop_turn (hk : k < l.tokens.length) {event : Option Event} {k' : Nat}
    {noted noted' : List Diagnostic}
    (h : ScriptParser.recover next synchronize (l.stateAt k []) = .ok event (l.stateAt k' noted'))
    (fuel : Nat) : loop (fuel + 1) (l.stateAt k noted)
      = noted'.map problem ++ event.toList ++ loop fuel (l.stateAt k' noted') := by
  have hahead : (l.stateAt k noted).ahead = l.tokenAt k :: l.tokens.drop (k + 1) := Lexed.drop_eq hk
  have hrun : ScriptParser.recover next synchronize { l.stateAt k noted with noted := [] }
      = .ok event (l.stateAt k' noted') := h
  rw [loop]
  split
  · next hnil =>
      rw [hahead] at hnil
      cases hnil
  · rw [hrun]
    rfl

theorem unitLoop_end (hl : l.Closed) (before : List Event) :
    (Loops.unitLoop l.all).run ⟨l.tokens.length, 0, before⟩
      = some ((), ⟨l.tokens.length, 0, before⟩) := by
  have hend : (l.tokenAt l.tokens.length).kind = .eof :=
    (hl.kind_eq_eof_iff (Nat.le_refl _)).mpr rfl
  rw [Loops.unitLoop, Loops.bind_of_some ((Takes.isAt .eof).2 before), if_pos (decide_eq_true hend)]
  rfl

/-- The loop over a unit comes to the end, with the events that the parser gives. -/
theorem unitLoop_run (hl : l.Closed) : ∀ (fuel k : Nat) (noted : List Diagnostic)
    (before : List Event), k ≤ l.tokens.length → l.tokens.length - k ≤ fuel →
    (Loops.unitLoop l.all).run ⟨k, 0, before⟩
        = some ((), ⟨l.tokens.length, 0, before ++ loop fuel (l.stateAt k noted)⟩) ∧
      (loop fuel (l.stateAt k noted)).length + k ≤ l.tokens.length := by
  intro fuel
  induction fuel with
  | zero =>
      intro k noted before hk hfuel
      obtain rfl : k = l.tokens.length := by omega
      rw [loop_end, unitLoop_end hl, List.append_nil]
      exact ⟨rfl, Nat.le_of_eq (Nat.zero_add _)⟩
  | succ fuel ih =>
      intro k noted before hk hfuel
      rcases Nat.lt_or_eq_of_le hk with hlt | rfl
      · obtain ⟨event, k', noted', hkk', hk', hpays, hrun, hwalk⟩ := unitTurn_run hl hlt
        obtain ⟨hrest, hlength⟩ := ih k' noted' (before ++ (noted'.map problem ++ event.toList)) hk'
          (by omega)
        rw [loop_turn hlt hrun]
        refine ⟨?_, ?_⟩
        · rw [Loops.unitLoop, Loops.bind_of_some ((Takes.isAt .eof).2 before),
            if_neg fun h => hl.kind_ne_eof hlt (of_decide_eq_true h),
            Loops.bind_of_some (hwalk before), hrest, List.append_assoc]
        · simp only [List.length_append, List.length_map]
          omega
      · rw [loop_end, unitLoop_end hl, List.append_nil]
        exact ⟨rfl, Nat.le_of_eq (Nat.zero_add _)⟩

/-! ## Whole scripts -/

end Event
end Nss
