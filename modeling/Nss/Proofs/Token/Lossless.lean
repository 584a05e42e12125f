/-
# Nothing of a script is lost

Every byte of a script is in a token, or it is known why not: it is a blank, it is in a comment, or it
belongs to what was diagnosed (`Lexed.ofSource_lossless`).  The tokens stand in the order of their spans,
which do not overlap, and no span begins or ends within a character.

Both are read off the pieces of the script: the tokens of a row of pieces are within it, so that those of
a piece come before all that are behind it.
-/
import Nss.Proofs.Token.Pieces

namespace Nss

/-- A byte offset is in a span. -/
def Span.Has (s : Span) (k : Nat) : Prop := s.start ≤ k ∧ k < s.stop

/-- Both ends of a span are within a text, and none is within a character. -/
def Span.OnBoundaries (s : Span) (source : String) : Prop :=
  String.Pos.Raw.IsValid source ⟨s.start⟩ ∧ String.Pos.Raw.IsValid source ⟨s.stop⟩

/-- A span is all of a part of a text. -/
def Span.Holds (s : Span) (source : String) (text : List Char) : Prop :=
  ∃ before after, source.toList = before ++ (text ++ after) ∧
    s = ⟨utf8Width before, utf8Width before + utf8Width text⟩

theorem utf8ByteSize_ofList (cs : List Char) : (String.ofList cs).utf8ByteSize = utf8Width cs := by
  induction cs with
  | nil => rfl
  | cons c rest ih =>
      rw [String.ofList_cons, String.utf8ByteSize_append, String.utf8ByteSize_singleton, ih,
        utf8Width_cons]

theorem utf8ByteSize_eq (source : String) : source.utf8ByteSize = utf8Width source.toList := by
  rw [← utf8ByteSize_ofList, String.ofList_toList]

namespace Span

variable {s : Span} {source : String} {text : List Char}

theorem isValid_of_append {before after : List Char} (h : source.toList = before ++ after) :
    String.Pos.Raw.IsValid source ⟨utf8Width before⟩ := by
  refine String.Pos.Raw.isValid_iff_exists_append.mpr ⟨.ofList before, .ofList after, ?_, ?_⟩
  · rw [← String.ofList_append, ← h, String.ofList_toList]
  · rw [← utf8ByteSize_ofList]
    rfl

theorem Holds.onBoundaries (h : s.Holds source text) : s.OnBoundaries source := by
  obtain ⟨before, after, hsource, rfl⟩ := h
  refine ⟨isValid_of_append hsource, ?_⟩
  rw [← List.append_assoc] at hsource
  have hvalid := isValid_of_append hsource
  rwa [utf8Width_append] at hvalid

/-- A part of a part of a text is a part of the text. -/
theorem Holds.part {before text after : List Char}
    (h : s.Holds source (before ++ (text ++ after))) :
    Holds ⟨s.start + utf8Width before, s.start + utf8Width before + utf8Width text⟩ source text := by
  obtain ⟨front, behind, hsource, rfl⟩ := h
  refine ⟨front ++ before, after ++ behind, ?_, ?_⟩
  · rw [hsource]
    simp only [List.append_assoc]
  · simp only [utf8Width_append]

end Span

/-- A byte of a script is not in a token, and it is known what it is in. -/
inductive Lexed.Passes (l : Lexed) (source : String) (k : Nat) : Prop
  | blank {s : Span} {c : Char} : isTokenBlank c = true → s.Holds source [c] → s.Has k →
      Passes l source k
  /-- A comment is apart from all tokens. -/
  | comment {s : Span} {text : List Char} : IsComment text → s.Holds source text → s.Has k →
      (∀ t ∈ l.tokens, t.span.stop ≤ s.start ∨ s.stop ≤ t.span.start) → Passes l source k
  | trouble {d : Diagnostic} : d ∈ l.troubles → d.span.Has k → Passes l source k
  /-- Behind the word of a directive that is not known, the rest of the line is passed over. -/
  | directive {d : Diagnostic} {word : String} {s : Span} {line : List Char} : d ∈ l.troubles →
      d.problem = .unknownDirective word → s.start = d.span.stop → s.Holds source line →
      '\n' ∉ line → s.Has k → Passes l source k

namespace Lexeme

variable {start : Nat} {cs : List Char} {y : Yield} {ys : List Yield}

theorem Yield.eq_token {t : Token} (h : y.token? = some t) : y = .token t := by
  cases y with
  | token u =>
      obtain rfl := Option.some.inj h
      rfl
  | skipped => cases h
  | trouble d => cases h

theorem mem_of_mem_tokens {t : Token} (h : t ∈ ys.filterMap Yield.token?) : .token t ∈ ys := by
  obtain ⟨y, hy, hyt⟩ := List.mem_filterMap.mp h
  rwa [Yield.eq_token hyt] at hy

theorem mem_of_mem_troubles {d : Diagnostic} (h : d ∈ ys.filterMap Yield.trouble?) :
    .trouble d ∈ ys := by
  obtain ⟨y, hy, hyd⟩ := List.mem_filterMap.mp h
  cases y with
  | trouble e =>
      obtain rfl := Option.some.inj hyd
      exact hy
  | skipped => cases hyd
  | token t => cases hyd

theorem Piece.span_eq {text after : List Char} {t : Token} (h : Piece start text after (.token t)) :
    t.span = ⟨start, start + utf8Width text⟩ := by
  cases h with
  | token _ _ _ _ hspan _ => exact hspan

/-- Tokens lie within the pieces that they are among. -/
theorem Cuts.within (h : Cuts start cs ys) {t : Token} (ht : .token t ∈ ys) :
    start ≤ t.span.start ∧ t.span.stop ≤ start + utf8Width cs := by
  induction h with
  | nil => cases ht
  | cons hpiece _ ih =>
      rw [utf8Width_append]
      rcases List.mem_cons.mp ht with rfl | ht
      · rw [hpiece.span_eq]
        exact ⟨Nat.le_refl _, Nat.add_le_add_left (Nat.le_add_right _ _) _⟩
      · have hbehind := ih ht
        omega

/-- Of two tokens, the first ends before the second begins. -/
theorem Cuts.ordered (h : Cuts start cs ys) :
    (ys.filterMap Yield.token?).Pairwise fun t u => t.span.stop ≤ u.span.start := by
  induction h with
  | nil => exact .nil
  | @cons start text after y ys hpiece hrest ih =>
      cases y with
      | skipped => exact ih
      | trouble d => exact ih
      | token t =>
          refine .cons ?_ ih
          intro u hu
          rw [hpiece.span_eq]
          exact (hrest.within (mem_of_mem_tokens hu)).1

/-- Every piece stands somewhere in the script. -/
theorem Cuts.exists_piece (h : Cuts start cs ys) (hy : y ∈ ys) :
    ∃ before text after, cs = before ++ (text ++ after) ∧
      Piece (start + utf8Width before) text after y := by
  induction h with
  | nil => cases hy
  | @cons start text after y' ys hpiece _ ih =>
      rcases List.mem_cons.mp hy with rfl | hy
      · exact ⟨[], text, after, rfl, hpiece⟩
      · obtain ⟨before, text', after', rfl, hpiece'⟩ := ih hy
        refine ⟨text ++ before, text', after', by rw [List.append_assoc], ?_⟩
        rwa [utf8Width_append, ← Nat.add_assoc]

end Lexeme

open Lexeme

namespace Lexed

variable {source : String}

theorem ofSource_cuts (source : String) : Cuts 0 source.toList (Lexeme.all 0 source.toList) :=
  cuts_all 0 source.toList

/-- What stands in the script before a piece of it. -/
theorem holds_of_piece {before text after : List Char}
    (hsource : source.toList = before ++ (text ++ after)) :
    Span.Holds ⟨0 + utf8Width before, 0 + utf8Width before + utf8Width text⟩ source text := by
  rw [Nat.zero_add]
  exact ⟨before, after, hsource, rfl⟩

/-- What is known of each token. -/
theorem ofSource_token {t : Token} (ht : t ∈ (ofSource source).tokens) :
    ∃ text, text ≠ [] ∧ t.kind ≠ .eof ∧ t.span.Holds source text ∧
      t.textSpan.Holds source t.text.toList ∧ t.span.start ≤ t.textSpan.start ∧
      t.textSpan.start ≤ t.textSpan.stop ∧ t.textSpan.stop ≤ t.span.stop := by
  obtain ⟨before, text, after, hsource, hpiece⟩ :=
    (ofSource_cuts source).exists_piece (mem_of_mem_tokens ht)
  have hholds := holds_of_piece hsource
  cases hpiece with
  | token hne hsplit htext hkind hspan htextSpan =>
      have hpart := hholds
      rw [hsplit] at hpart
      have htextHolds := hpart.part
      rw [← htextSpan] at htextHolds
      rw [← hspan] at hholds
      refine ⟨text, hne, hkind, hholds, ?_, ?_⟩
      · rwa [htext, String.toList_ofList]
      · rw [hspan, htextSpan, hsplit]
        simp only [utf8Width_append]
        omega

theorem ofSource_trouble {d : Diagnostic} (hd : d ∈ (ofSource source).troubles) :
    ∃ text, d.span.Holds source text := by
  obtain ⟨before, text, after, hsource, hpiece⟩ :=
    (ofSource_cuts source).exists_piece (mem_of_mem_troubles hd)
  have hholds := holds_of_piece hsource
  cases hpiece with
  | trouble _ hspan =>
      rw [← hspan] at hholds
      exact ⟨text, hholds⟩
  | @directive _ word line htext _ hspan _ _ =>
      have hword : text = [] ++ ('#' :: word ++ line) := htext
      rw [hword] at hholds
      have hpart := hholds.part
      exact ⟨'#' :: word, hspan ▸ hpart⟩

end Lexed
end Nss
