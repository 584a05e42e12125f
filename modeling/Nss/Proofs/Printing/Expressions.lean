/-
# Reading printed expressions

What is printed of an expression is read as that expression, without places, in front of anything that
does not go on with it.  Operators of one looseness are read in a loop that binds them to the left; the
words of the left operand are the beginning of that loop (`GoesOn`), so that the induction follows the
left operand down to one that binds tighter.
-/
import Nss.Proofs.Printing.Reading
import Nss.Proofs.Printing.Lexing

namespace Nss

open ScriptParser
open Word (mark next)

/-! ## What follows an expression -/

/-- What comes next is no operator of looseness below `n`, and no parenthesis that would make a name a
call. -/
def Stops (n : Nat) (ws : List Word) : Prop :=
  (next ws).kind ≠ .lParen ∧
    ∀ op, BinaryOp.ofToken? (next ws).kind = some op → n ≤ op.looseness

namespace Stops

theorem mono {m n : Nat} {ws : List Word} (hmn : m ≤ n) (h : Stops n ws) : Stops m ws :=
  ⟨h.1, fun op hop => Nat.le_trans hmn (h.2 op hop)⟩

/-- What is no part of an expression ends it. -/
theorem mark (kind : TokenKind) (hparen : kind ≠ .lParen) (hop : BinaryOp.ofToken? kind = none)
    (n : Nat) (rest : List Word) : Stops n (mark kind :: rest) := by
  refine ⟨hparen, fun op h => ?_⟩
  rw [show (next (Word.mark kind :: rest)).kind = kind from rfl, hop] at h
  cases h

end Stops

theorem BinaryOp.ofToken?_kind (op : BinaryOp) : ofToken? op.kind = some op := by
  cases op <;> rfl

theorem UnaryOp.ofToken?_kind (op : UnaryOp) : ofToken? op.kind = some op := by
  cases op <;> rfl

theorem Stops.operator (op : BinaryOp) (rest : List Word) :
    Stops op.looseness (.mark op.kind :: rest) := by
  refine ⟨?_, fun op' h => ?_⟩
  · cases op <;> nofun
  · rw [show (next (Word.mark op.kind :: rest)).kind = op.kind from rfl, op.ofToken?_kind] at h
    obtain rfl := Option.some.inj h
    exact Nat.le_refl _

/-! ## Literals -/

theorem unescape_escape (cs : List Char) : unescape (escape cs) = cs := by
  induction cs with
  | nil => rfl
  | cons c cs ih =>
      rw [escape]
      split
      · simp [unescape, *]
      · split
        · simp [unescape, *]
        · split
          · simp [unescape, *]
          · simp [unescape, *]

namespace Literal

theorem reads_int {n : Nat} (hn : n ≤ 0x80000000) (ws : List Word) :
    Reads (int (Word.integer n).token) ws (.int (Int32.ofNat n) .origin) ws := by
  have hvalue : Binary32.digitsValue (Word.integer n).token.text.toList = n := by
    have htext : (Word.integer n).token.text.toList = Binary32.natDigits n := String.toList_ofList
    rw [htext, Binary32.digitsValue_natDigits]
  have hmax : ¬ maxInteger < n := by
    rw [maxInteger]
    omega
  have hlarge : ¬ 0x80000000 < n := by omega
  rw [int, hvalue, if_neg hmax, if_neg hlarge]
  exact .pure _ ws

theorem reads_float {x : Binary32} (hx : x.magnitude < Binary32.infinityMagnitude)
    (hread : x.unsigned.readsBack = true) (ws : List Word) :
    Reads (float (Word.float x.unsigned).token) ws (.float x.unsigned .origin) ws := by
  obtain ⟨c, more, htext, hc, -⟩ := (Binary32.isDecimal_text hx).eq_cons
  rw [Binary32.readsBack, decide_eq_true_eq] at hread
  rw [float, show (Word.float x.unsigned).token.text = x.unsigned.text from rfl, hread, if_neg]
  · exact .pure _ ws
  · rintro ⟨hwhole, -⟩
    rw [htext, run, List.takeWhile_cons, hc] at hwhole
    cases hwhole

theorem string_word (s : String) : string (Word.string s).token = .string s .origin := by
  have htext : (Word.string s).token.text.toList = escape s.toList := String.toList_ofList
  rw [string, htext, unescape_escape, String.ofList_toList]
  rfl

theorem word?_name {name : String} (h : isName name = true) : word? (Word.ident name).token = none := by
  have hconstant : name ∉ ["TRUE", "FALSE", "OBJECT_SELF", "OBJECT_INVALID"] := by
    simp only [isName, Bool.and_eq_true, decide_eq_true_eq] at h
    exact h.2
  have htext : (Word.ident name).token.text = name := rfl
  rw [word?, htext]
  split
  · simp at hconstant
  · simp at hconstant
  · simp at hconstant
  · simp at hconstant
  · rfl

end Literal

/-! ## First words -/

/-- Whether an expression can begin with a word of a kind. -/
def TokenKind.opens : TokenKind → Bool
  | ident | intLiteral | floatLiteral | stringLiteral | lParen | minus | bang => true
  | _ => false

theorem ofName?_eq_none {name : String} (h : isName name = true) : ValueType.ofName? name = none := by
  simp only [isName, Bool.and_eq_true, decide_eq_true_eq] at h
  exact h.1.2

namespace Expr

/-- The first word of an expression tells it from everything else that could stand there: a name is no
type, and no assignment to it follows. -/
theorem words_eq_cons : ∀ (e : Expr), e.isPrintable = true → ∀ n, ∃ w ws, e.words n = w :: ws ∧
    w.kind.opens = true ∧ (w.kind = .ident → ValueType.ofName? w.text = none ∧
      ∀ rest, (next rest).kind ≠ .assign → (next (ws ++ rest)).kind ≠ .assign) := by
  intro e he n
  cases e with
  | int v _ | float v _ =>
      rw [words, Word.signed]
      split <;> exact ⟨_, _, rfl, rfl, by rintro ⟨⟩⟩
  | string s _ => exact ⟨_, _, rfl, rfl, by rintro ⟨⟩⟩
  | object v _ =>
      refine ⟨_, _, rfl, rfl, fun _ => ⟨?_, fun rest hrest => hrest⟩⟩
      split <;> rfl
  | ident name _ => exact ⟨_, _, rfl, rfl, fun _ => ⟨ofName?_eq_none he, fun rest hrest => hrest⟩⟩
  | call name args _ =>
      have hname : isName name = true := (Bool.and_eq_true_iff.mp he).1
      exact ⟨_, _, rfl, rfl, fun _ => ⟨ofName?_eq_none hname, fun rest _ => by rintro ⟨⟩⟩⟩
  | unary op x _ =>
      refine ⟨_, _, rfl, ?_, ?_⟩
      · cases op <;> rfl
      · cases op <;> rintro ⟨⟩
  | binary op l r _ =>
      have hl : l.isPrintable = true := (Bool.and_eq_true_iff.mp he).1
      obtain ⟨w, ws, hwords, hopens, hident⟩ := words_eq_cons l hl (op.looseness + 1)
      rw [words]
      split
      · refine ⟨w, ws ++ mark op.kind :: r.words op.looseness, by rw [hwords]; rfl, hopens, ?_⟩
        intro hkind
        obtain ⟨htype, hassign⟩ := hident hkind
        refine ⟨htype, fun rest _ => ?_⟩
        rw [List.append_assoc]
        refine hassign _ ?_
        cases op <;> rintro ⟨⟩
      · exact ⟨_, _, rfl, rfl, by rintro ⟨⟩⟩

/-- No expression begins with a word of any other kind. -/
theorem next_ne {e : Expr} (he : e.isPrintable = true) (n : Nat) (rest : List Word)
    {kind : TokenKind} (hkind : kind.opens = false) : (next (e.words n ++ rest)).kind ≠ kind := by
  obtain ⟨w, ws, hwords, hopens, -⟩ := words_eq_cons e he n
  rw [hwords]
  rintro rfl
  exact Bool.false_ne_true (hkind.symm.trans hopens)

/-! ## Operations -/

section

variable {o : ScriptParser Expr} {L n : Nat} {e l r : Expr}

/-- A printed expression is read where operators of looseness below `n` are allowed. -/
def ReadsAt (o : ScriptParser Expr) (n : Nat) (e : Expr) : Prop :=
  ∀ rest, Stops n rest → Reads (operations o n) (e.words n ++ rest) e.unplaced rest

/-- Behind a printed expression, the parser is in the loop that reads operators of looseness `L`. -/
def GoesOn (o : ScriptParser Expr) (L : Nat) (e : Expr) : Prop :=
  ∀ rest, Stops L rest → ∃ fuel, rest.length ≤ fuel ∧
    operations o (L + 1) (.over (e.words (L + 1) ++ rest))
      = chain L (operations o L) fuel e.unplaced (.over rest)

theorem reads_chain_stop {tighter : ScriptParser Expr} {rest : List Word} (h : Stops (L + 1) rest)
    (fuel : Nat) (left : Expr) : Reads (chain L tighter fuel left) rest left rest := by
  cases fuel with
  | zero => exact .pure left rest
  | succ fuel =>
      rw [chain]
      refine (reads_peek rest).bind ?_
      cases hop : BinaryOp.ofToken? (next rest).token.kind with
      | none => exact .pure left rest
      | some op =>
          have hloose : op.looseness ≠ L := by
            have := h.2 op hop
            omega
          dsimp only
          rw [if_neg hloose]
          exact .pure left rest

/-- One turn of the loop. -/
theorem chain_operator {tighter : ScriptParser Expr} (op : BinaryOp) {ws rest : List Word}
    (hr : Reads tighter ws r.unplaced rest) (fuel : Nat) (span : Span) :
    chain op.looseness tighter (fuel + 1) l.unplaced (.over (mark op.kind :: ws))
      = chain op.looseness tighter fuel (binary op l r span).unplaced (.over rest) := by
  rw [chain, (reads_peek _).bind_eq]
  rw [show BinaryOp.ofToken? (next (mark op.kind :: ws)).token.kind = some op from op.ofToken?_kind]
  dsimp only
  rw [if_pos rfl, (reads_advance _ ws).bind_eq, hr.bind_eq, span_unplaced, span_unplaced]
  rfl

theorem GoesOn.readsAt (h : GoesOn o L e) : ReadsAt o (L + 1) e := by
  intro rest hrest
  obtain ⟨fuel, -, hfuel⟩ := h rest (hrest.mono (Nat.le_succ L))
  exact hfuel.trans (reads_chain_stop hrest fuel _)

/-- An expression that binds tighter is the first one of the loop. -/
theorem ReadsAt.goesOn (h : ReadsAt o L e) (hwords : e.words (L + 1) = e.words L) :
    GoesOn o L e := by
  intro rest hrest
  refine ⟨rest.length, Nat.le_refl _, ?_⟩
  rw [operations, hwords, (h rest hrest).bind_eq, (reads_remaining rest).bind_eq]

/-- An expression is read where looser operators are allowed, too. -/
theorem ReadsAt.looser {m : Nat} (h : ReadsAt o m e) (hmn : m ≤ n)
    (hwords : ∀ k, m ≤ k → k < n → e.words (k + 1) = e.words k) : ReadsAt o n e := by
  induction hmn with
  | refl => exact h
  | @step k hmk ih =>
      have hk := ih fun i hi hik => hwords i hi (Nat.lt_succ_of_lt hik)
      exact (hk.goesOn (hwords k hmk (Nat.lt_succ_self k))).readsAt

/-- The loop goes on behind its left operand with the operator and the right one. -/
theorem GoesOn.binary {op : BinaryOp} {span : Span} (hl : GoesOn o op.looseness l)
    (hr : ReadsAt o op.looseness r) : GoesOn o op.looseness (binary op l r span) := by
  intro rest hrest
  obtain ⟨fuel, hlength, hfuel⟩ :=
    hl (mark op.kind :: (r.words op.looseness ++ rest)) (.operator op _)
  cases fuel with
  | zero => exact absurd hlength (by simp)
  | succ fuel =>
      refine ⟨fuel, ?_, ?_⟩
      · simp only [List.length_cons, List.length_append] at hlength
        omega
      · have hwords : (Expr.binary op l r span).words (op.looseness + 1) ++ rest
            = l.words (op.looseness + 1) ++ mark op.kind :: (r.words op.looseness ++ rest) := by
          simp [words]
        rw [hwords, hfuel]
        exact chain_operator op (hr rest hrest) fuel span

end

/-! ## Operands -/

section

variable {d : Nat} {ws rest : List Word} {a x : Expr}

theorem reads_operand_word {w : Word} (hw : UnaryOp.ofToken? w.kind = none)
    (h : Reads (primary (parser d)) (w :: ws) a rest) : Reads (operand (d + 1)) (w :: ws) a rest := by
  rw [operand]
  refine (reads_peek _).bind ?_
  rw [show UnaryOp.ofToken? (next (w :: ws)).token.kind = none from hw]
  exact h

theorem reads_operand_sign (op : UnaryOp) (hx : Reads (operand d) ws x rest)
    (hspan : x.span = .origin) :
    Reads (operand (d + 1)) (mark op.kind :: ws) (applyUnary op x .origin) rest := by
  rw [operand]
  refine (reads_peek _).bind ?_
  rw [show UnaryOp.ofToken? (next (mark op.kind :: ws)).token.kind = some op from op.ofToken?_kind]
  refine (reads_advance _ ws).bind (hx.bind ?_)
  rw [hspan]
  exact .pure _ rest

/-- A number is read with its sign. -/
theorem reads_signed {negative : Bool} {number : Word} {value : Expr}
    (hnumber : UnaryOp.ofToken? number.kind = none)
    (hread : ∀ d, Reads (primary (parser d)) (number :: rest) a rest) (hspan : a.span = .origin)
    (hvalue : (if negative then applyUnary .neg a .origin else a) = value)
    (hd : 1 + (if negative then 1 else 0) ≤ d) :
    Reads (operand d) (Word.signed negative number ++ rest) value rest := by
  cases negative with
  | false =>
      obtain ⟨d, rfl⟩ := Nat.exists_eq_add_of_le' hd
      obtain rfl : a = value := hvalue
      exact reads_operand_word hnumber (hread _)
  | true =>
      obtain ⟨d, rfl⟩ := Nat.exists_eq_add_of_le' hd
      obtain rfl : applyUnary .neg a .origin = value := hvalue
      exact reads_operand_sign .neg (reads_operand_word hnumber (hread _)) hspan

/-- What stands between parentheses is read as it is. -/
theorem reads_parenthesized (h : Reads (parser d) (ws ++ mark .rParen :: rest) x.unplaced
      (mark .rParen :: rest)) :
    Reads (operand (d + 1)) (Word.parenthesized ws ++ rest) x.unplaced rest := by
  rw [Word.parenthesized_append]
  refine reads_operand_word rfl ((reads_advance _ _).bind ?_)
  refine h.bind ((reads_mark _ _ rest).bind ?_)
  refine (reads_previousSpan rest).bind ?_
  have hspan : x.unplaced.withSpan ((mark .lParen).token.span.cover .origin) = x.unplaced :=
    x.withSpan_unplaced
  rw [hspan]
  exact .pure _ rest

/-! ### Calls -/

/-- Arguments are read one after the other, up to the closing parenthesis. -/
theorem reads_argsLoop {expr : ScriptParser Expr} (e : Expr) (more : List Expr)
    (h : ∀ x ∈ e :: more, ∀ rest, Stops 6 rest → Reads expr (x.words 6 ++ rest) x.unplaced rest)
    (fuel : Nat) (hfuel : more.length ≤ fuel) (before : List Expr) :
    Reads (argsLoop expr (fuel + 1) before)
      (e.words 6 ++ (moreArgWords more ++ mark .rParen :: rest))
      (before ++ (e :: more).map unplaced) rest := by
  induction more generalizing e fuel before with
  | nil =>
      rw [argsLoop]
      refine (h e (.head _) _ (.mark .rParen nofun rfl 6 rest)).bind ?_
      refine (reads_eat _ rest).bind ?_
      exact .pure _ rest
  | cons e' more ih =>
      cases fuel with
      | zero => cases hfuel
      | succ fuel =>
          have hwords : moreArgWords (e' :: more) ++ mark .rParen :: rest
              = mark .comma :: (e'.words 6 ++ (moreArgWords more ++ mark .rParen :: rest)) := by
            simp [moreArgWords]
          rw [argsLoop, hwords]
          refine (h e (.head _) _ (.mark .comma nofun rfl 6 _)).bind ?_
          have hcomma : (next (mark .comma ::
              (e'.words 6 ++ (moreArgWords more ++ mark .rParen :: rest)))).kind ≠ .rParen := nofun
          refine (reads_eat_other hcomma).bind ?_
          refine (reads_mark .comma _ _).bind ?_
          have hrest := ih e' (fun x hx => h x (.tail e hx)) fuel (Nat.le_of_succ_le_succ hfuel)
            (before ++ [e.unplaced])
          simpa using hrest

theorem length_le_moreArgWords (args : List Expr) : args.length ≤ (moreArgWords args).length := by
  induction args with
  | nil => exact Nat.zero_le _
  | cons e rest ih =>
      rw [moreArgWords, List.length_cons, List.length_append, List.length_cons]
      omega

theorem reads_args {expr : ScriptParser Expr} (args : List Expr)
    (h : ∀ x ∈ args, ∀ rest, Stops 6 rest → Reads expr (x.words 6 ++ rest) x.unplaced rest)
    (hargs : allPrintable args = true) :
    Reads (Expr.args expr) (argWords args ++ mark .rParen :: rest) (args.map unplaced) rest := by
  cases args with
  | nil => exact (reads_eat .rParen rest).bind (.pure [] rest)
  | cons e more =>
      have hwords : argWords (e :: more) ++ mark .rParen :: rest
          = e.words 6 ++ (moreArgWords more ++ mark .rParen :: rest) := by
        rw [argWords, List.append_assoc]
      rw [hwords]
      have hfirst : (next (e.words 6 ++ (moreArgWords more ++ mark .rParen :: rest))).kind ≠ .rParen :=
        next_ne (Bool.and_eq_true_iff.mp hargs).1 6 _ rfl
      refine (reads_eat_other hfirst).bind ?_
      refine (reads_remaining _).bind ?_
      have hlength : more.length
          ≤ (e.words 6 ++ (moreArgWords more ++ mark .rParen :: rest)).length := by
        have := length_le_moreArgWords more
        simp only [List.length_append, List.length_cons]
        omega
      exact reads_argsLoop e more h _ hlength []

end

/-! ## All expressions -/

/-- An expression is read wherever it may stand, if operands can be nested `d` deep and it is not nested
deeper. -/
structure Readable (d : Nat) (e : Expr) : Prop where
  readsAt : ∀ n, e.nesting 1 n ≤ d → ReadsAt (operand d) n e
  goesOn : ∀ L, e.nesting 1 (L + 1) ≤ d → GoesOn (operand d) L e

/-- An operand looks the same wherever it stands. -/
theorem readable_operand {d : Nat} {e : Expr} (hwords : ∀ n, e.words n = e.words 0)
    (hnesting : ∀ n, e.nesting 1 n = e.nesting 1 0)
    (h : e.nesting 1 0 ≤ d → ∀ rest, (next rest).kind ≠ .lParen →
      Reads (operand d) (e.words 0 ++ rest) e.unplaced rest) : Readable d e := by
  have hreads : e.nesting 1 0 ≤ d → ∀ n, ReadsAt (operand d) n e := by
    intro hd n
    have hzero : ReadsAt (operand d) 0 e := fun rest hrest => h hd rest hrest.1
    exact hzero.looser (Nat.zero_le n) fun k _ _ => (hwords _).trans (hwords k).symm
  constructor
  · intro n hn
    exact hreads (hnesting n ▸ hn) n
  · intro L hL
    exact (hreads (hnesting (L + 1) ▸ hL) L).goesOn ((hwords _).trans (hwords L).symm)

/-- A binary operation stands between parentheses where it is too loose. -/
theorem readable_binary {op : BinaryOp} {l r : Expr} {span : Span} (hl : ∀ d, Readable d l)
    (hr : ∀ d, Readable d r) (d : Nat) : Readable d (binary op l r span) := by
  have hloop {d : Nat} (hd : max (l.nesting 1 (op.looseness + 1)) (r.nesting 1 op.looseness) ≤ d) :
      GoesOn (operand d) op.looseness (binary op l r span) :=
    ((hl d).goesOn _ (Nat.le_trans (Nat.le_max_left _ _) hd)).binary
      ((hr d).readsAt _ (Nat.le_trans (Nat.le_max_right _ _) hd))
  have hbare {n : Nat} (hn : op.looseness < n) : (binary op l r span).words n
      = l.words (op.looseness + 1) ++ mark op.kind :: r.words op.looseness := by
    rw [words, if_pos hn]
  have hinner {n : Nat} (hn : ¬ op.looseness < n) : (binary op l r span).words n
      = Word.parenthesized (l.words (op.looseness + 1) ++ mark op.kind :: r.words op.looseness) := by
    rw [words, if_neg hn]
  have hreads {d n : Nat} (hd : (binary op l r span).nesting 1 n ≤ d) :
      ReadsAt (operand d) n (binary op l r span) := by
    rw [nesting] at hd
    by_cases hn : op.looseness < n
    · rw [if_pos hn] at hd
      refine (hloop hd).readsAt.looser hn fun k hk _ => ?_
      rw [hbare (Nat.lt_succ_of_lt hk), hbare hk]
    · rw [if_neg hn] at hd
      obtain ⟨d, rfl⟩ := Nat.exists_eq_add_of_le' (Nat.le_of_add_left_le hd)
      have hzero : ReadsAt (operand (d + 1)) 0 (binary op l r span) := by
        intro rest _
        have hall := (hloop (Nat.le_of_succ_le_succ hd)).readsAt.looser (n := 6) op.looseness_lt
          fun k hk _ => by rw [hbare (Nat.lt_succ_of_lt hk), hbare hk]
        rw [hinner (Nat.not_lt_zero _)]
        refine reads_parenthesized ?_
        rw [← hbare op.looseness_lt]
        exact hall _ (.mark .rParen nofun rfl 6 rest)
      refine hzero.looser (Nat.zero_le n) fun k _ hk => ?_
      rw [hinner (by omega), hinner (by omega)]
  refine ⟨fun n => hreads, fun L hL => ?_⟩
  by_cases hL' : op.looseness = L
  · subst hL'
    rw [nesting, if_pos (Nat.lt_succ_self _)] at hL
    exact hloop hL
  · have hiff : op.looseness < L + 1 ↔ op.looseness < L := by omega
    have hwords : (binary op l r span).words (L + 1) = (binary op l r span).words L := by
      rw [words, words]
      simp only [hiff]
    have hnesting : (binary op l r span).nesting 1 (L + 1) = (binary op l r span).nesting 1 L := by
      rw [nesting, nesting]
      simp only [hiff]
    exact (hreads (hnesting ▸ hL)).goesOn hwords

theorem applyUnary_of_printable {op : UnaryOp} {x : Expr} {span : Span}
    (h : (unary op x span).isPrintable = true) :
    applyUnary op x.unplaced .origin = (unary op x span).unplaced := by
  have hnumber : (!(op = .neg && x.isNumber)) = true := (Bool.and_eq_true_iff.mp h).1
  cases op with
  | not => rfl
  | neg =>
      cases x with
      | int v _ => cases hnumber
      | float v _ => cases hnumber
      | _ => rfl

theorem readable_int (v : Int32) (span : Span) (d : Nat) : Readable d (int v span) := by
  refine readable_operand (fun _ => rfl) (fun _ => rfl) fun hd rest _ => ?_
  have hbound : v.toInt.natAbs ≤ 0x80000000 := by
    have hlt := v.toInt_lt
    have hle := v.le_toInt
    omega
  refine reads_signed rfl (fun d => (reads_advance _ rest).bind (Literal.reads_int hbound rest)) rfl
    ?_ (by simpa [nesting] using hd)
  by_cases hneg : v < 0
  · have hnonpos : v.toInt ≤ 0 := Int.le_of_lt (Int32.lt_iff_toInt_lt.mp hneg)
    have hvalue : -Int32.ofNat v.toInt.natAbs = v := by
      rw [← Int32.ofInt_eq_ofNat, Int.ofNat_natAbs_of_nonpos hnonpos, ← Int32.ofInt_neg, Int.neg_neg,
        Int32.ofInt_toInt]
    simp only [hneg, decide_true, if_true, applyUnary, hvalue, unplaced]
  · have hnonneg : 0 ≤ v.toInt := Int.not_lt.mp fun h => hneg (Int32.lt_iff_toInt_lt.mpr h)
    have hvalue : Int32.ofNat v.toInt.natAbs = v := by
      rw [← Int32.ofInt_eq_ofNat, Int.natAbs_of_nonneg hnonneg, Int32.ofInt_toInt]
    simp [hneg, hvalue, unplaced]

theorem readable_float {v : Binary32} {span : Span} (h : (float v span).isPrintable = true) (d : Nat) :
    Readable d (float v span) := by
  obtain ⟨hfinite, hread⟩ := Bool.and_eq_true_iff.mp h
  rw [decide_eq_true_eq] at hfinite
  refine readable_operand (fun _ => rfl) (fun _ => rfl) fun hd rest _ => ?_
  refine reads_signed rfl
    (fun d => (reads_advance _ rest).bind (Literal.reads_float hfinite hread rest)) rfl ?_
    (by simpa [nesting] using hd)
  cases hneg : v.isNegative with
  | true => simp [Binary32.unsigned, hneg, applyUnary, Binary32.neg_neg, unplaced]
  | false => simp [Binary32.unsigned, hneg, unplaced]

theorem one_le_argNesting (args : List Expr) : 1 ≤ argNesting 1 args := by
  cases args with
  | nil => exact Nat.le_refl 1
  | cons e rest =>
      rw [argNesting]
      omega

theorem nesting_le_of_mem {args : List Expr} {d : Nat} (h : argNesting 1 args ≤ d + 1) {e : Expr}
    (he : e ∈ args) : e.nesting 1 6 ≤ d := by
  induction args with
  | nil => cases he
  | cons first rest ih =>
      rw [argNesting] at h
      rcases List.mem_cons.mp he with rfl | he
      · omega
      · exact ih (by omega) he

theorem reads_ofWord_ident {expr : ScriptParser Expr} {name : String} (h : isName name = true)
    {rest : List Word} (hrest : (next rest).kind ≠ .lParen) :
    Reads (ofWord expr (Word.ident name).token) rest (ident name .origin) rest := by
  rw [ofWord, Literal.word?_name h]
  exact (reads_eat_other hrest).bind (.pure _ rest)

theorem reads_ofWord_call {expr : ScriptParser Expr} {name : String} (h : isName name = true)
    {args : List Expr} {rest ws : List Word} (hargs : Reads (Expr.args expr) ws args rest) :
    Reads (ofWord expr (Word.ident name).token) (mark .lParen :: ws) (call name args .origin)
      rest := by
  rw [ofWord, Literal.word?_name h]
  refine (reads_eat .lParen ws).bind ?_
  refine hargs.bind ?_
  exact (reads_previousSpan rest).bind (.pure _ rest)

mutual

/-- Every printable expression is read wherever it may stand. -/
theorem readable : ∀ (e : Expr), e.isPrintable = true → ∀ d, Readable d e
  | int v _, _, d => readable_int v _ d
  | float _ _, he, d => readable_float he d
  | string s _, _, d => by
      refine readable_operand (fun _ => rfl) (fun _ => rfl) fun hd rest _ => ?_
      obtain ⟨d, rfl⟩ := Nat.exists_eq_add_of_le' hd
      have hstring : Reads (primary (parser d)) (.string s :: rest) (string s .origin) rest := by
        refine (reads_advance _ rest).bind ?_
        rw [← Literal.string_word]
        exact .pure _ rest
      exact reads_operand_word rfl hstring
  | object v _, he, d => by
      refine readable_operand (fun _ => rfl) (fun _ => rfl) fun hd rest _ => ?_
      obtain ⟨d, rfl⟩ := Nat.exists_eq_add_of_le' hd
      refine reads_operand_word rfl ((reads_advance _ rest).bind ?_)
      have hvalue : v = 0 ∨ v = 1 := by simpa [isPrintable] using he
      rcases hvalue with rfl | rfl
      · exact .pure _ rest
      · exact .pure _ rest
  | ident name _, he, d => by
      refine readable_operand (fun _ => rfl) (fun _ => rfl) fun hd rest hrest => ?_
      obtain ⟨d, rfl⟩ := Nat.exists_eq_add_of_le' hd
      exact reads_operand_word rfl ((reads_advance _ rest).bind (reads_ofWord_ident he hrest))
  | call name args span, he, d => by
      obtain ⟨hname, hargs⟩ := Bool.and_eq_true_iff.mp he
      have hall := allReadable args hargs
      refine readable_operand (fun _ => rfl) (fun _ => rfl) fun hd rest _ => ?_
      rw [nesting] at hd
      obtain ⟨d, rfl⟩ := Nat.exists_eq_add_of_le' (Nat.le_trans (one_le_argNesting args) hd)
      have hreads : Reads (Expr.args (parser d)) (argWords args ++ mark .rParen :: rest)
          (args.map unplaced) rest := by
        refine reads_args args (fun x hx rest hrest => ?_) hargs
        exact (hall x hx d).readsAt 6 (nesting_le_of_mem hd hx) rest hrest
      rw [words, List.cons_append, Word.parenthesized_append, unplaced_call]
      exact reads_operand_word rfl ((reads_advance _ _).bind (reads_ofWord_call hname hreads))
  | unary op x _, he, d => by
      have hx := readable x (Bool.and_eq_true_iff.mp he).2
      refine readable_operand (fun _ => rfl) (fun _ => rfl) fun hd rest hrest => ?_
      obtain ⟨d, rfl⟩ := Nat.exists_eq_add_of_le' (Nat.le_of_add_left_le hd)
      have hstop : Stops 0 rest := ⟨hrest, fun op _ => Nat.zero_le _⟩
      have hoperand := (hx d).readsAt 0 (Nat.le_of_succ_le_succ hd) rest hstop
      rw [← applyUnary_of_printable he]
      exact reads_operand_sign op hoperand x.span_unplaced
  | binary op l r _, he, d => by
      obtain ⟨hl, hr⟩ := Bool.and_eq_true_iff.mp he
      exact readable_binary (readable l hl) (readable r hr) d

theorem allReadable : ∀ (es : List Expr), allPrintable es = true → ∀ e ∈ es, ∀ d, Readable d e
  | [], _ => nofun
  | e :: rest, h => by
      obtain ⟨he, hrest⟩ := Bool.and_eq_true_iff.mp h
      intro x hx
      rcases List.mem_cons.mp hx with heq | hx
      · rw [heq]
        exact readable e he
      · exact allReadable rest hrest x hx

end

/-- What is printed of an expression is read as that expression. -/
theorem reads_words {e : Expr} (he : e.isPrintable = true) {d : Nat} (hd : e.nesting 1 6 ≤ d)
    {rest : List Word} (hrest : Stops 6 rest) :
    Reads (parser d) (e.words 6 ++ rest) e.unplaced rest :=
  (readable e he d).readsAt 6 hd rest hrest

end Expr

end Nss
