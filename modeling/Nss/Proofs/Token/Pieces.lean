/-
# The pieces of a script

The lexer cuts a script into pieces, one behind the other, and every character is in exactly one of
them.  What a piece can be is said by `Lexeme.Piece`: a blank, a comment, a token, or something that was
diagnosed, as a whole or, in a directive that is not known, up to the end of its word.  A comment on a
line ends before the line feed; a block comment ends with the first star and slash in it.

    // ... up to the line feed          /* ... without a star and a slash behind it ... */

That the pieces make up the script is `Lexeme.cuts_all`, by induction on what is left of it.
-/
import Nss.Proofs.Syntax.Words
import Mathlib.Data.List.Infix
import Mathlib.Tactic.Common

namespace Nss

/-- A text is a comment: the rest of a line, or what stands between its two ends. -/
inductive IsComment : List Char → Prop
  | line {line : List Char} : '\n' ∉ line → IsComment ('/' :: '/' :: line)
  | block {body : List Char} : ¬ ['*', '/'] <:+: body →
      IsComment ('/' :: '*' :: (body ++ ['*', '/']))

/-- A text is behind the end of a line: it begins with a line feed, unless there is nothing left. -/
def EndsLine (after : List Char) : Prop := ∀ c ∈ after.head?, c = '\n'

namespace Lexeme

/-- A piece of a script that begins at the byte offset `start` and consists of `text`, with `after`
behind it. -/
inductive Piece (start : Nat) (text after : List Char) : Yield → Prop
  | blank {c : Char} : isTokenBlank c = true → text = [c] → Piece start text after .skipped
  | comment : IsComment text → Piece start text after .skipped
  /-- A token has its text somewhere within. -/
  | token {t : Token} {before inner behind : List Char} : text ≠ [] →
      text = before ++ (inner ++ behind) → t.text = String.ofList inner → t.kind ≠ .eof →
      t.span = ⟨start, start + utf8Width text⟩ →
      t.textSpan = ⟨start + utf8Width before, start + utf8Width before + utf8Width inner⟩ →
      Piece start text after (.token t)
  | trouble {d : Diagnostic} : text ≠ [] → d.span = ⟨start, start + utf8Width text⟩ →
      Piece start text after (.trouble d)
  /-- The rest of a line goes with the word of a directive that is not known. -/
  | directive {d : Diagnostic} {word line : List Char} : text = '#' :: (word ++ line) →
      d.problem = .unknownDirective (String.ofList word) →
      d.span = ⟨start, start + utf8Width ('#' :: word)⟩ → '\n' ∉ line → EndsLine after →
      Piece start text after (.trouble d)

/-- A script is cut, from the byte offset `start` on, into pieces that are all of it. -/
inductive Cuts : Nat → List Char → List Yield → Prop
  | nil (start : Nat) : Cuts start [] []
  | cons {start : Nat} {text after : List Char} {y : Yield} {ys : List Yield} :
      Piece start text after y → Cuts (start + utf8Width text) after ys →
      Cuts start (text ++ after) (y :: ys)

/-- What was read behind the character `c` makes a piece with it. -/
def Whole (start : Nat) (c : Char) (rest : List Char) (piece : Lexeme) : Prop :=
  ∃ more after, rest = more ++ after ∧ piece.extra = more.length ∧
    Piece start (c :: more) after piece.yield

/-! ## Runs of characters -/

theorem run_eq_append (p : Char → Bool) (cs : List Char) :
    ∃ after, cs = run p cs ++ after ∧ ∀ c ∈ after.head?, p c = false := by
  refine ⟨cs.dropWhile p, List.takeWhile_append_dropWhile.symm, ?_⟩
  intro c hc
  have hnot := List.head?_dropWhile_not p cs
  rw [Option.mem_def.mp hc] at hnot
  simpa using hnot

/-- A run goes on up to the first character outside its class. -/
theorem run_of_head {p : Char → Bool} {cs after : List Char} (hcs : ∀ c ∈ cs, p c = true)
    (hafter : ∀ d ∈ after.head?, p d = false) : run p (cs ++ after) = cs := by
  rw [run, List.takeWhile_append_of_pos hcs]
  cases after with
  | nil => simp
  | cons d after => rw [List.takeWhile_cons_of_neg (by simp [hafter d rfl]), List.append_nil]

theorem of_mem_run {p : Char → Bool} {cs : List Char} {c : Char} (hc : c ∈ run p cs) : p c = true :=
  List.all_eq_true.mp List.all_takeWhile c hc

/-- The rest of a line, and what is behind it. -/
theorem restOfLine_eq (rest : List Char) :
    ∃ line after, rest = line ++ after ∧ restOfLine rest = line.length ∧ '\n' ∉ line ∧
      EndsLine after := by
  obtain ⟨after, hrest, hafter⟩ := run_eq_append (· ≠ '\n') rest
  refine ⟨run (· ≠ '\n') rest, after, hrest, rfl, ?_, ?_⟩
  · intro hmem
    simpa using of_mem_run hmem
  · intro c hc
    simpa using hafter c hc

/-! ## Pieces of each kind -/

variable {start : Nat} {c : Char} {rest : List Char}

theorem plain_whole {kind : TokenKind} (hkind : kind ≠ .eof) (more after : List Char) :
    Whole start c (more ++ after) (plain start kind c more) := by
  have htext : c :: more = [] ++ (c :: more ++ []) := (List.append_nil _).symm
  exact ⟨more, after, rfl, rfl, .token (List.cons_ne_nil c more) htext rfl hkind rfl rfl⟩

theorem unexpected_whole (more after : List Char) :
    Whole start c (more ++ after) (unexpected start c more) :=
  ⟨more, after, rfl, rfl, .trouble (List.cons_ne_nil c more) rfl⟩

theorem oneOrTwo_whole {short long : TokenKind} (hshort : short ≠ .eof) (hlong : long ≠ .eof)
    (second : Char) : Whole start c rest (oneOrTwo start short long c second rest) := by
  rw [oneOrTwo]
  split
  · next hsecond =>
      obtain ⟨after, rfl⟩ := List.head?_eq_some_iff.mp hsecond
      exact plain_whole hlong [second] after
  · exact plain_whole hshort [] rest

theorem twice_whole {kind : TokenKind} (hkind : kind ≠ .eof) :
    Whole start c rest (twice start kind c rest) := by
  rw [twice]
  split
  · next hsecond =>
      obtain ⟨after, rfl⟩ := List.head?_eq_some_iff.mp hsecond
      exact plain_whole hkind [c] after
  · exact unexpected_whole [] rest

/-- A block comment is closed by the first star with a slash behind it. -/
theorem blockComment?_eq_some {cs : List Char} {n : Nat} (h : blockComment? cs = some n) :
    ∃ body after, cs = body ++ ['*', '/'] ++ after ∧ n = body.length + 2 ∧
      ¬ ['*', '/'] <:+: body := by
  induction cs using blockComment?.induct generalizing n with
  | case1 after =>
      rw [blockComment?] at h
      obtain rfl := Option.some.inj h
      exact ⟨[], after, rfl, rfl, by simp⟩
  | case2 c rest hclose ih =>
      rw [blockComment?.eq_2 c rest hclose] at h
      obtain ⟨m, hm, rfl⟩ := Option.map_eq_some_iff.mp h
      obtain ⟨body, after, rfl, rfl, hbody⟩ := ih hm
      refine ⟨c :: body, after, rfl, rfl, ?_⟩
      rw [List.infix_cons_iff]
      rintro (hfront | hinside)
      · -- the comment would have been closed at once
        obtain ⟨tail, htail⟩ := hfront
        obtain ⟨rfl, rfl⟩ := List.cons.inj htail
        exact hclose _ rfl rfl
      · exact hbody hinside
  | case3 => cases h

theorem comment_whole (hstar : rest.head? = some '*') :
    Whole start '/' rest (comment start rest) := by
  obtain ⟨inner, rfl⟩ := List.head?_eq_some_iff.mp hstar
  rw [comment, List.drop_one, List.tail_cons]
  split
  · next n hclosed =>
      obtain ⟨body, after, rfl, rfl, hbody⟩ := blockComment?_eq_some hclosed
      refine ⟨'*' :: (body ++ ['*', '/']), after, by simp, by simp, .comment ?_⟩
      exact .block hbody
  · exact ⟨'*' :: inner, [], by simp, rfl, .trouble (List.cons_ne_nil _ _) rfl⟩

/-- The word of a directive ends before its line does. -/
theorem directive_whole : Whole start '#' rest (directive start rest) := by
  obtain ⟨behind, hrest, -⟩ := run_eq_append isLetter rest
  rw [directive]
  generalize hword : run isLetter rest = word at hrest ⊢
  split
  · rw [hrest]
    exact plain_whole (by decide) word behind
  · have hletters : ∀ c ∈ word, (decide (c ≠ '\n')) = true := by
      intro c hc
      rw [← hword] at hc
      refine decide_eq_true ?_
      rintro rfl
      exact Bool.noConfusion (of_mem_run hc)
    obtain ⟨line, after, hline, hlength, hnone, hends⟩ := restOfLine_eq behind
    refine ⟨word ++ line, after, by rw [hrest, hline, List.append_assoc], ?_, ?_⟩
    · rw [restOfLine] at hlength ⊢
      rw [hrest, run, List.takeWhile_append_of_pos hletters, List.length_append, List.length_append,
        ← hlength, run]
    · exact .directive rfl rfl rfl (fun hmem => hnone hmem) hends

/-- The characters of a string literal are the first ones, and its closing quote, if it is there, comes
next. -/
theorem stringBody_eq (cs : List Char) :
    ∃ after, cs = (stringBody cs).1 ++ after ∧ ((stringBody cs).2 = true → after.head? = some '"') := by
  induction cs using stringBody.induct with
  | case1 c rest body closed hbody ih =>
      obtain ⟨after, hrest, hclosed⟩ := ih
      rw [hbody] at hrest hclosed
      refine ⟨after, ?_, ?_⟩
      · simp [stringBody, hbody, ← hrest]
      · simpa [stringBody, hbody] using hclosed
  | case2 rest =>
      exact ⟨'"' :: rest, by simp [stringBody], fun _ => rfl⟩
  | case3 rest =>
      exact ⟨'\n' :: rest, by simp [stringBody], by simp [stringBody]⟩
  | case4 c rest hescape hquote hline body closed hbody ih =>
      obtain ⟨after, hrest, hclosed⟩ := ih
      rw [hbody] at hrest hclosed
      have hcons : stringBody (c :: rest) = (c :: body, closed) := by
        rw [stringBody.eq_2 c rest hescape, if_neg hquote, if_neg hline, hbody]
      rw [hcons]
      exact ⟨after, by rw [List.cons_append, ← hrest], hclosed⟩
  | case5 => exact ⟨[], rfl, by simp [stringBody]⟩

theorem string_whole : Whole start '"' rest (string start rest) := by
  obtain ⟨after, hrest, hclosed⟩ := stringBody_eq rest
  rw [string]
  generalize stringBody rest = read at hrest hclosed ⊢
  obtain ⟨body, closed⟩ := read
  cases closed with
  | true =>
      obtain ⟨behind, rfl⟩ := List.head?_eq_some_iff.mp (hclosed rfl)
      have htext : '"' :: (body ++ ['"']) = ['"'] ++ (body ++ ['"']) := rfl
      have hquote : utf8Width ['"'] = 1 := rfl
      refine ⟨body ++ ['"'], behind, by simp [hrest], by simp, ?_⟩
      refine .token (List.cons_ne_nil _ _) htext rfl (show TokenKind.stringLiteral ≠ .eof by decide) ?_ ?_
      · rw [utf8Width_cons, utf8Width_append, hquote]
        show (⟨start, start + 1 + utf8Width body + 1⟩ : Span) = ⟨start, start + (1 + _)⟩
        rw [← Nat.add_assoc, ← Nat.add_assoc]
      · rfl
  | false => 
      refine ⟨body, after, hrest, rfl, .trouble (List.cons_ne_nil _ _) ?_⟩
      show (⟨start, start + 1 + utf8Width body⟩ : Span) = ⟨start, start + (1 + utf8Width body)⟩
      rw [Nat.add_assoc]

/-- The characters of a decimal literal are the first ones. -/
theorem decimalBody_eq (cs : List Char) : ∃ after, cs = (decimalBody cs).1 ++ after := by
  obtain ⟨behind, hcs, -⟩ := run_eq_append isDigit cs
  rw [decimalBody]
  generalize run isDigit cs = whole at hcs ⊢
  rw [hcs, List.drop_left]
  cases behind with
  | nil => exact ⟨[], rfl⟩
  | cons d fraction =>
      by_cases hpoint : d = '.'
      · obtain rfl := hpoint
        obtain ⟨after, hfraction, -⟩ := run_eq_append isDigit fraction
        exact ⟨after, by simp [← hfraction]⟩
      · exact ⟨d :: fraction, by simp [hpoint]⟩

/-- A decimal literal that begins with a digit or a point has at least that. -/
theorem decimalBody_ne_nil (hc : isDigit c = true ∨ c = '.') : (decimalBody (c :: rest)).1 ≠ [] := by
  rcases hc with hc | rfl
  · have hrun : run isDigit (c :: rest) = c :: run isDigit rest := List.takeWhile_cons_of_pos hc
    rw [decimalBody, hrun]
    split <;> simp
  · have hrun : run isDigit ('.' :: rest) = [] := List.takeWhile_cons_of_neg (by decide)
    rw [decimalBody, hrun]
    simp

/-- The letter that may end a decimal literal, in front of what comes behind the literal. -/
def IsSuffix (suffix after : List Char) : Prop :=
  suffix = ['f'] ∨ suffix = ['F'] ∨ suffix = [] ∧ ∀ d ∈ after.head?, d ≠ 'f' ∧ d ≠ 'F'

theorem exists_suffix (behind : List Char) :
    ∃ suffix after, behind = suffix ++ after ∧ IsSuffix suffix after := by
  by_cases hsmall : behind.head? = some 'f'
  · obtain ⟨after, rfl⟩ := List.head?_eq_some_iff.mp hsmall
    exact ⟨['f'], after, rfl, .inl rfl⟩
  · by_cases hlarge : behind.head? = some 'F'
    · obtain ⟨after, rfl⟩ := List.head?_eq_some_iff.mp hlarge
      exact ⟨['F'], after, rfl, .inr (.inl rfl)⟩
    · refine ⟨[], behind, rfl, .inr (.inr ⟨rfl, fun d hd => ⟨?_, ?_⟩⟩)⟩
      · rintro rfl
        exact hsmall hd
      · rintro rfl
        exact hlarge hd

/-- What a decimal literal is read from: its first character, its other ones, the letter that may end it,
and what comes behind. -/
theorem exists_decimal (hc : isDigit c = true ∨ c = '.') (rest : List Char) :
    ∃ more suffix after pointed, rest = more ++ (suffix ++ after) ∧
      decimalBody (c :: (more ++ (suffix ++ after))) = (c :: more, pointed) ∧
      IsSuffix suffix after := by
  obtain ⟨behind, hcs⟩ := decimalBody_eq (c :: rest)
  have hne : (decimalBody (c :: rest)).1 ≠ [] := decimalBody_ne_nil hc
  generalize hread : decimalBody (c :: rest) = read at hcs hne
  obtain ⟨body, pointed⟩ := read
  obtain ⟨d, more, rfl⟩ := List.exists_cons_of_ne_nil hne
  rw [List.cons_append] at hcs
  obtain ⟨rfl, rfl⟩ := List.cons.inj hcs
  obtain ⟨suffix, after, rfl, hsuffix⟩ := exists_suffix behind
  exact ⟨more, suffix, after, pointed, rfl, hread, hsuffix⟩

/-- A decimal literal, with the letter that ends it. -/
theorem decimal_eq {more suffix after : List Char} {pointed : Bool}
    (hbody : decimalBody (c :: (more ++ (suffix ++ after))) = (c :: more, pointed))
    (hsuffix : IsSuffix suffix after) (start : Nat) :
    decimal start (c :: (more ++ (suffix ++ after))) = ⟨(more ++ suffix).length,
      .token ⟨if pointed || !suffix.isEmpty then .floatLiteral else .intLiteral,
        ⟨start, start + utf8Width (c :: more) + suffix.length⟩,
        ⟨start, start + utf8Width (c :: more)⟩, String.ofList (c :: more)⟩⟩ := by
  have hdrop : (c :: (more ++ (suffix ++ after))).drop (c :: more).length = suffix ++ after :=
    List.drop_left
  rw [decimal, hbody, List.length_append]
  dsimp only
  rw [hdrop]
  rcases hsuffix with rfl | rfl | ⟨rfl, hafter⟩
  · rfl
  · rfl
  · cases after with
    | nil => rfl
    | cons d after =>
        obtain ⟨hsmall, hlarge⟩ := hafter d rfl
        simp [hsmall, hlarge]

theorem decimal_whole (hc : isDigit c = true ∨ c = '.') :
    Whole start c rest (decimal start (c :: rest)) := by
  obtain ⟨more, suffix, after, pointed, rfl, hread, hsuffix⟩ := exists_decimal hc rest
  have hwidth : utf8Width suffix = suffix.length := by
    rcases hsuffix with rfl | rfl | ⟨rfl, -⟩ <;> rfl
  have hkind (b : Bool) : (if b then TokenKind.floatLiteral else .intLiteral) ≠ .eof := by
    cases b <;> decide
  rw [decimal_eq hread hsuffix]
  refine ⟨more ++ suffix, after, (List.append_assoc ..).symm, rfl, ?_⟩
  have htext : c :: (more ++ suffix) = [] ++ (c :: more ++ suffix) := rfl
  refine .token (List.cons_ne_nil _ _) htext rfl (hkind _) ?_ rfl
  rw [← List.cons_append, utf8Width_append, hwidth, Nat.add_assoc]

theorem number_whole (hc : isDigit c = true ∨ c = '.') :
    Whole start c rest (number start c rest) := by
  unfold number
  split
  · next x more =>
      split
      · obtain ⟨after, hmore, -⟩ := run_eq_append isHexDigit more
        generalize run isHexDigit more = digits at hmore ⊢
        obtain rfl := hmore
        split
        · exact unexpected_whole [x] after
        · exact plain_whole (by decide) (x :: digits) after
      · exact decimal_whole hc
  · exact decimal_whole hc

theorem word_whole : Whole start c rest (word start c rest) := by
  obtain ⟨after, hrest, -⟩ := run_eq_append isIdentRest rest
  rw [word]
  generalize run isIdentRest rest = more at hrest ⊢
  obtain rfl := hrest
  exact plain_whole (TokenKind.ofWord_ne_eof _) _ after

/-! ## Whole scripts -/

theorem read_whole (start : Nat) (c : Char) (rest : List Char) :
    Whole start c rest (read start c rest) := by
  unfold read
  split
  · next hblank => exact ⟨[], rest, rfl, rfl, .blank hblank rfl⟩
  split
  · next hslash =>
      obtain ⟨hc, hsecond⟩ := Bool.and_eq_true_iff.mp hslash
      obtain rfl := of_decide_eq_true hc
      obtain ⟨inner, rfl⟩ := List.head?_eq_some_iff.mp (of_decide_eq_true hsecond)
      obtain ⟨line, after, rfl, hlength, hnone, -⟩ := restOfLine_eq inner
      have hslashes : restOfLine ('/' :: (line ++ after)) = restOfLine (line ++ after) + 1 := rfl
      exact ⟨'/' :: line, after, rfl, by rw [hslashes, hlength]; rfl, .comment (.line hnone)⟩
  split
  · next hstar =>
      obtain ⟨hc, hsecond⟩ := Bool.and_eq_true_iff.mp hstar
      obtain rfl := of_decide_eq_true hc
      exact comment_whole (of_decide_eq_true hsecond)
  split
  · next hnumber =>
      refine number_whole ?_
      rcases Bool.or_eq_true_iff.mp hnumber with hdigit | hpoint
      · exact .inl hdigit
      · exact .inr (of_decide_eq_true (Bool.and_eq_true_iff.mp hpoint).1)
  split
  · exact word_whole
  split
  all_goals first
    | exact plain_whole (by decide) [] rest
    | exact oneOrTwo_whole (by decide) (by decide) _
    | exact twice_whole (by decide)
    | exact directive_whole
    | exact string_whole
    | exact unexpected_whole [] rest

/-- The pieces that a script is cut into are all of it. -/
theorem cuts_all (start : Nat) (cs : List Char) : Cuts start cs (all start cs) := by
  induction start, cs using all.induct with
  | case1 start =>
      rw [all]
      exact .nil start
  | case2 start c rest piece ih =>
      obtain ⟨more, after, rfl, hextra, hpiece⟩ := read_whole start c rest
      have hpieces : all start (c :: (more ++ after)) = (read start c (more ++ after)).yield
          :: all (start + utf8Width (c :: more)) after := by
        rw [all, hextra, List.take_left, List.drop_left]
      rw [hpieces]
      rw [show piece = read start c (more ++ after) from rfl, hextra, List.take_left,
        List.drop_left] at ih
      exact .cons hpiece ih

end Lexeme
end Nss
