/-
# Reading words

What the parser does with a script that consists of words only is seen from the words before and after:
`Reads p ws a rest` says that `p` finds `a` at the front of `ws`, notes no problem, and leaves `rest`.
-/
import Nss.Proofs.Places.Syntax
import Nss.Proofs.Steps
import Nss.Proofs.Printing.Printer
import Nss.Syntax.Parser.Expression

namespace Nss

open Steps

/-- The beginning of a script that consists of words, without places. -/
def ParseState.over (ws : List Word) : ParseState where
  ahead := ws.map Word.token
  ending := .ending 0
  previous := .origin
  noted := []

/-- The next word, which at the end is an empty one. -/
def Word.next : List Word → Word
  | [] => ⟨.eof, ""⟩
  | w :: _ => w

open Word (mark next)

namespace ScriptParser

variable {α β : Type}

/-- A parser reads something at the front of words and leaves the rest of them. -/
def Reads (p : ScriptParser α) (ws : List Word) (a : α) (rest : List Word) : Prop :=
  p (.over ws) = .ok a (.over rest)

namespace Reads

variable {p : ScriptParser α} {k : α → ScriptParser β} {ws rest rest' : List Word} {a : α} {b : β}

theorem pure (a : α) (ws : List Word) : Reads (Pure.pure a) ws a ws := rfl

/-- What a sequence does before its second part does not matter to that. -/
theorem bind_eq (hp : Reads p ws a rest) : (p >>= k) (.over ws) = k a (.over rest) := by
  rw [bind_apply, hp]

theorem bind (hp : Reads p ws a rest) (hk : Reads (k a) rest b rest') :
    Reads (p >>= k) ws b rest' :=
  hp.bind_eq.trans hk

theorem map {f : α → β} (hp : Reads p ws a rest) : Reads (f <$> p) ws (f a) rest := by
  rw [Reads] at hp ⊢
  simp only [Functor.map, EStateM.map, hp]

end Reads

/-- Nothing is to be recovered from where a parser reads what it looks for. -/
theorem Reads.recover {p resume} {ws rest : List Word} {a : α} (hp : Reads p ws a rest) :
    Reads (ScriptParser.recover p resume) ws (some a) rest := by
  rw [Reads, ScriptParser.recover, hp]

/-! ## Tokens -/

variable {ws : List Word} {kind : TokenKind}

theorem reads_peek (ws : List Word) : Reads peek ws (next ws).token ws := by
  cases ws <;> rfl

theorem reads_peekSecond (ws : List Word) : Reads peekSecond ws (next ws.tail).token ws := by
  rcases ws with _ | ⟨w, _ | ⟨w', rest⟩⟩ <;> rfl

theorem reads_advance (w : Word) (rest : List Word) : Reads advance (w :: rest) w.token rest := rfl

theorem reads_remaining (ws : List Word) : Reads remaining ws ws.length ws := by
  have hlength : (ws.map Word.token).length = ws.length := List.length_map ..
  exact congrArg (fun n => EStateM.Result.ok n (ParseState.over ws)) hlength

theorem reads_previousSpan (ws : List Word) : Reads previousSpan ws .origin ws := rfl

theorem reads_isAt (kind : TokenKind) (ws : List Word) :
    Reads (isAt kind) ws (decide ((next ws).kind = kind)) ws :=
  (reads_peek ws).bind (.pure _ ws)

theorem reads_isAtWord (word : String) (ws : List Word) :
    Reads (isAtWord word) ws ((next ws).kind = .ident && (next ws).text = word) ws :=
  (reads_peek ws).bind (.pure _ ws)

theorem reads_isAtType (ws : List Word) :
    Reads isAtType ws ((next ws).kind = .ident && (ValueType.ofName? (next ws).text).isSome) ws :=
  (reads_peek ws).bind (.pure _ ws)

theorem reads_eat (kind : TokenKind) (rest : List Word) :
    Reads (eat kind) (mark kind :: rest) true rest := by
  refine (reads_isAt kind _).bind ?_
  rw [show (next (mark kind :: rest)).kind = kind from rfl, decide_eq_true rfl, if_pos rfl]
  exact (reads_advance _ rest).bind (.pure true rest)

theorem reads_eat_other (h : (next ws).kind ≠ kind) : Reads (eat kind) ws false ws := by
  refine (reads_isAt kind ws).bind ?_
  rw [decide_eq_false h, if_neg Bool.false_ne_true]
  exact .pure false ws

theorem reads_expect {w : Word} (h : w.kind = kind) (what : String) (rest : List Word) :
    Reads (expect kind what) (w :: rest) w.token rest := by
  refine (reads_isAt kind _).bind ?_
  rw [show (next (w :: rest)).kind = kind from h, decide_eq_true rfl, if_pos rfl]
  exact reads_advance w rest

theorem reads_mark (kind : TokenKind) (what : String) (rest : List Word) :
    Reads (expect kind what) (mark kind :: rest) (mark kind).token rest :=
  reads_expect rfl what rest

theorem reads_ident (name what : String) (rest : List Word) :
    Reads (expect .ident what) (.ident name :: rest) (Word.ident name).token rest :=
  reads_expect rfl what rest

theorem ofName?_name (type : ValueType) : ValueType.ofName? type.name = some type := by
  cases type <;> rfl

theorem reads_valueType (type : ValueType) (rest : List Word) :
    Reads valueType (.ident type.name :: rest) type rest := by
  refine (reads_peek _).bind ?_
  have hname : (if (next (.ident type.name :: rest)).token.kind = .ident then
      ValueType.ofName? (next (.ident type.name :: rest)).token.text else none) = some type :=
    ofName?_name type
  rw [hname]
  exact (reads_advance _ rest).bind (.pure type rest)

end ScriptParser

end Nss
