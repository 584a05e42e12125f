/-
# Spans in trees

In a nested tree every span is a part of the script, and no expression reaches beyond one that it is a
part of.  To know that of a tree it is enough to know it of its root and of the trees right below
(`Expr.nested_of_children`), which is how a parser comes by it.

`Event.Nests` is what there is to say of an event as a whole.
-/
import Nss.Proofs.Token.Lossless
import Nss.Proofs.Syntax.Trees

namespace Nss

/-! ## Spans -/

namespace Span

/-- One span does not reach beyond another one. -/
def Within (s t : Span) : Prop := t.start ≤ s.start ∧ s.stop ≤ t.stop

/-- A span is a part of a text, and no end of it is within a character. -/
structure Valid (s : Span) (source : String) : Prop where
  ordered : s.start ≤ s.stop
  inside : s.stop ≤ source.utf8ByteSize
  onBoundaries : s.OnBoundaries source

variable {s t u : Span} {source : String}

theorem Within.refl (s : Span) : s.Within s := ⟨Nat.le_refl _, Nat.le_refl _⟩

theorem Within.trans (h : s.Within t) (h' : t.Within u) : s.Within u :=
  ⟨Nat.le_trans h'.1 h.1, Nat.le_trans h.2 h'.2⟩

theorem within_cover_left (s t : Span) : s.Within (s.cover t) :=
  ⟨Nat.min_le_left _ _, Nat.le_max_left _ _⟩

theorem within_cover_right (s t : Span) : t.Within (s.cover t) :=
  ⟨Nat.min_le_right _ _, Nat.le_max_right _ _⟩

theorem Holds.valid {text : List Char} (h : s.Holds source text) : s.Valid source := by
  refine ⟨?_, ?_, h.onBoundaries⟩
  · obtain ⟨before, after, -, rfl⟩ := h
    exact Nat.le_add_right _ _
  · obtain ⟨before, after, hsource, rfl⟩ := h
    rw [utf8ByteSize_eq, hsource, utf8Width_append, utf8Width_append]
    show utf8Width before + utf8Width text ≤ _
    omega

/-- The ends of what covers two parts of a text are ends of theirs. -/
theorem Valid.cover (hs : s.Valid source) (ht : t.Valid source) : (s.cover t).Valid source where
  ordered := Nat.le_trans (Nat.min_le_left _ _) (Nat.le_trans hs.ordered (Nat.le_max_left _ _))
  inside := Nat.max_le.mpr ⟨hs.inside, ht.inside⟩
  onBoundaries :=
    ⟨min_rec' (fun n => String.Pos.Raw.IsValid source ⟨n⟩) hs.onBoundaries.1 ht.onBoundaries.1,
      max_rec' (fun n => String.Pos.Raw.IsValid source ⟨n⟩) hs.onBoundaries.2 ht.onBoundaries.2⟩

end Span

/-! ## Expressions -/

namespace Expr

/-- Every span in an expression is a part of the script, and none reaches beyond that of an expression
around it. -/
def Nested (source : String) (e : Expr) : Prop :=
  ∀ x ∈ e.parts, x.span.Valid source ∧ ∀ y ∈ x.parts, y.span.Within x.span

variable {source : String} {e : Expr}

theorem nested_of_children (hspan : e.span.Valid source)
    (h : ∀ c ∈ e.children, c.Nested source ∧ c.span.Within e.span) : e.Nested source := by
  intro x hx
  rcases mem_parts_iff.mp hx with rfl | ⟨c, hc, hx⟩
  · refine ⟨hspan, ?_⟩
    intro y hy
    rcases mem_parts_iff.mp hy with rfl | ⟨c, hc, hy⟩
    · exact .refl _
    · obtain ⟨hnested, hwithin⟩ := h c hc
      exact ((hnested c c.self_mem_parts).2 y hy).trans hwithin
  · exact (h c hc).1 x hx

namespace Nested

theorem valid (h : e.Nested source) : e.span.Valid source := (h e e.self_mem_parts).1

theorem within (h : e.Nested source) : ∀ x ∈ e.parts, x.span.Within e.span :=
  (h e e.self_mem_parts).2

theorem child (h : e.Nested source) : ∀ c ∈ e.children, c.Nested source ∧ c.span.Within e.span := by
  intro c hc
  have hparts : ∀ x ∈ c.parts, x ∈ e.parts := fun x hx => mem_parts_iff.mpr (.inr ⟨c, hc, hx⟩)
  exact ⟨fun x hx => h x (hparts x hx), h.within c (hparts c c.self_mem_parts)⟩

/-- What is nested may be taken to be read from a greater part of the script. -/
theorem withSpan (h : e.Nested source) {s : Span} (hs : s.Valid source) (hwithin : e.span.Within s) :
    (e.withSpan s).Nested source := by
  refine nested_of_children (by rwa [span_withSpan]) ?_
  rw [children_withSpan, span_withSpan]
  intro c hc
  obtain ⟨hnested, hchild⟩ := h.child c hc
  exact ⟨hnested, hchild.trans hwithin⟩

end Nested

/-- An expression without expressions in it. -/
theorem nested_leaf (hchildren : e.children = []) (hspan : e.span.Valid source) :
    e.Nested source := by
  refine nested_of_children hspan ?_
  rw [hchildren]
  exact List.forall_mem_nil _

end Expr

/-! ## Statements and events -/

/-- The part of the script that a statement was read from, if it knows it. -/
def Stmt.span? : Stmt → Option Span
  | var decl => some decl.span
  | assign _ _ span | ret _ span => some span
  | block _ | expr _ | ifThen _ _ | ifElse _ _ _ | loop _ _ => none

namespace Event

/-- The part of the script that an event is about. -/
def span : Event → Span
  | inclusion _ span => span
  | declaration (.global decl) => decl.span
  | declaration (.function decl) => decl.span
  | problem d => d.span

/-- All statements in an event. -/
def stmts : Event → List Stmt
  | declaration (.function decl) => Stmt.allParts (decl.body.getD [])
  | declaration (.global _) | inclusion _ _ | problem _ => []

/-- All expressions in an event. -/
def exprs : Event → List Expr
  | declaration (.global decl) => Expr.allParts decl.init.toList
  | declaration (.function decl) =>
      (stmts (declaration (.function decl))).flatMap fun s => Expr.allParts s.exprs
  | inclusion _ _ | problem _ => []

/-- All spans in an event. -/
def spans (e : Event) : List Span :=
  e.span :: (e.stmts.filterMap Stmt.span? ++ e.exprs.map Expr.span)

/-- The spans of an event are parts of the script, one within the other: those of expressions within
those of the expressions and of the statements that they are in, and all of them within that of the
event. -/
structure Nests (source : String) (e : Event) : Prop where
  valid : ∀ s ∈ e.spans, s.Valid source
  exprs : ∀ x ∈ e.exprs, ∀ y ∈ x.parts, y.span.Within x.span
  stmts : ∀ s ∈ e.stmts, ∀ span, s.span? = some span → ∀ x ∈ Expr.allParts s.exprs, x.span.Within span
  inside : ∀ s ∈ e.spans, s.Within e.span

end Event

end Nss
