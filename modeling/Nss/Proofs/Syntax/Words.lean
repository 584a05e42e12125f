/-
# Words of a script

Whatever stands in a script, no identifier of it is the name of the loader of the global variables:
identifiers begin with a letter or an underscore.  And no token of it is of the kind of the end, except
for the one that is put there.
-/
import Nss.Token.Lexer
import Nss.Symbols
import Mathlib.Tactic.Common

namespace Nss

/-- A token is not the name of the loader of the global variables. -/
def Token.Proper (t : Token) : Prop := t.kind = .ident → t.text ≠ globalsLoader

/-- A piece of a script is not that name. -/
def Yield.Proper (y : Yield) : Prop := ∀ t, y.token? = some t → t.Proper

/-- If a piece of a script is a token, that has a property. -/
def Yield.All (P : Token → Prop) (y : Yield) : Prop := ∀ t, y.token? = some t → P t

theorem TokenKind.ofWord_ne_eof (w : String) : ofWord w ≠ .eof := by
  unfold ofWord
  split <;> nofun

namespace Lexeme

/-- A property of everything that a token of a script can be: a word, or of a kind that is neither that
of words nor that of the end. -/
structure Covers (P : Token → Prop) : Prop where
  other : ∀ t : Token, t.kind ≠ .ident → t.kind ≠ .eof → P t
  word : ∀ (start : Nat) {c : Char} (rest : List Char), isIdentStart c = true →
    (word start c rest).yield.All P

variable {P : Token → Prop}

theorem plain_all (hP : Covers P) (start : Nat) {kind : TokenKind} (c : Char) (more : List Char)
    (hkind : kind ≠ .ident) (hend : kind ≠ .eof) : (plain start kind c more).yield.All P := by
  intro t ht
  obtain rfl := Option.some.inj ht
  exact hP.other _ hkind hend

theorem trouble_all (d : Diagnostic) : (Yield.trouble d).All P := by
  intro t ht
  cases ht

theorem oneOrTwo_all (hP : Covers P) (start : Nat) {short long : TokenKind} (c second : Char)
    (rest : List Char) (hshort : short ≠ .ident) (hshort' : short ≠ .eof) (hlong : long ≠ .ident)
    (hlong' : long ≠ .eof) : (oneOrTwo start short long c second rest).yield.All P := by
  rw [oneOrTwo]
  split
  · exact plain_all hP start c _ hlong hlong'
  · exact plain_all hP start c _ hshort hshort'

theorem twice_all (hP : Covers P) (start : Nat) {kind : TokenKind} (c : Char) (rest : List Char)
    (hkind : kind ≠ .ident) (hend : kind ≠ .eof) : (twice start kind c rest).yield.All P := by
  rw [twice]
  split
  · exact plain_all hP start c _ hkind hend
  · exact trouble_all _

theorem comment_all (start : Nat) (rest : List Char) : (comment start rest).yield.All P := by
  intro t ht
  rw [comment] at ht
  split at ht
  · cases ht
  · cases ht

theorem directive_all (hP : Covers P) (start : Nat) (rest : List Char) :
    (directive start rest).yield.All P := by
  simp only [directive]
  split
  · exact plain_all hP start _ _ nofun nofun
  · exact trouble_all _

theorem string_all (hP : Covers P) (start : Nat) (rest : List Char) :
    (string start rest).yield.All P := by
  intro t ht
  simp only [string] at ht
  split at ht
  · obtain rfl := Option.some.inj ht
    exact hP.other _ nofun nofun
  · cases ht

theorem decimal_all (hP : Covers P) (start : Nat) (cs : List Char) :
    (decimal start cs).yield.All P := by
  intro t ht
  have hkind : ∀ b : Bool, (if b then TokenKind.floatLiteral else .intLiteral) ≠ .ident
      ∧ (if b then TokenKind.floatLiteral else .intLiteral) ≠ .eof := by
    intro b
    cases b <;> exact ⟨nofun, nofun⟩
  obtain rfl := Option.some.inj ht
  exact hP.other _ (hkind _).1 (hkind _).2

theorem number_all (hP : Covers P) (start : Nat) (c : Char) (rest : List Char) :
    (number start c rest).yield.All P := by
  unfold number
  split
  · split
    · split
      · exact trouble_all _
      · exact plain_all hP start _ _ nofun nofun
    · exact decimal_all hP start _
  · exact decimal_all hP start _

theorem read_all (hP : Covers P) (start : Nat) (c : Char) (rest : List Char) :
    (read start c rest).yield.All P := by
  unfold read
  split
  · intro t ht
    cases ht
  split
  · intro t ht
    cases ht
  split
  · exact comment_all start rest
  split
  · exact number_all hP start c rest
  split
  · next hc => exact hP.word start rest hc
  split
  all_goals first
    | exact plain_all hP start _ _ nofun nofun
    | exact oneOrTwo_all hP start _ _ rest nofun nofun nofun nofun
    | exact twice_all hP start _ rest nofun nofun
    | exact directive_all hP start rest
    | exact string_all hP start rest
    | exact trouble_all _

/-- Whatever a script is, its tokens are what tokens of a script can be. -/
theorem all_of_covers (hP : Covers P) (start : Nat) (cs : List Char) : ∀ y ∈ all start cs, y.All P := by
  induction start, cs using all.induct with
  | case1 start =>
      intro y hy
      rw [all] at hy
      cases hy
  | case2 start c rest piece ih =>
      intro y hy
      rw [all] at hy
      rcases List.mem_cons.mp hy with rfl | hy
      · exact read_all hP start c rest
      · exact ih y hy

/-- A word begins with a letter or an underscore. -/
theorem word_proper (start : Nat) {c : Char} (rest : List Char) (hc : isIdentStart c = true) :
    (word start c rest).yield.Proper := by
  intro t ht _ htext
  obtain rfl := Option.some.inj ht
  have hlist : c :: run isIdentRest rest = globalsLoader.toList := by
    rw [← htext]
    exact (String.toList_ofList ..).symm
  have hhash : c = '#' := (List.cons.inj hlist).1
  rw [hhash] at hc
  cases hc

theorem covers_proper : Covers Token.Proper where
  other _ hkind _ hident := absurd hident hkind
  word start _ rest hc := word_proper start rest hc

theorem covers_ne_eof : Covers fun t => t.kind ≠ .eof where
  other _ _ hend := hend
  word start c rest _ := by
    intro t ht
    obtain rfl := Option.some.inj ht
    exact TokenKind.ofWord_ne_eof _

theorem all_proper (start : Nat) (cs : List Char) : ∀ y ∈ all start cs, y.Proper :=
  all_of_covers covers_proper start cs

end Lexeme

/-- No token of a script is the name of the loader. -/
theorem Lexed.ofSource_proper (source : String) : ∀ t ∈ (ofSource source).all, t.Proper := by
  intro t ht
  rcases List.mem_append.mp ht with ht | ht
  · obtain ⟨y, hy, hyt⟩ := List.mem_filterMap.mp ht
    exact Lexeme.all_proper 0 _ y hy t hyt
  · obtain rfl := List.mem_singleton.mp ht
    intro hident
    cases hident

/-- No token of a script before its end is an end. -/
theorem Lexed.ofSource_ne_eof (source : String) : ∀ t ∈ (ofSource source).tokens, t.kind ≠ .eof := by
  intro t ht
  obtain ⟨y, hy, hyt⟩ := List.mem_filterMap.mp ht
  exact Lexeme.all_of_covers Lexeme.covers_ne_eof 0 _ y hy t hyt

end Nss
