/-
# Parts of trees

The parts of a tree are its nodes, each before those below it.  The recursion that collects them is
that of the trees; what is said about them goes by the trees right below a node.
-/
import Nss.Syntax.Basic
import Mathlib.Tactic.Common

namespace Nss

/-! ## Expressions -/

namespace Expr

mutual

/-- An expression and all the expressions in it. -/
def parts : Expr → List Expr
  | call name args span => call name args span :: allParts args
  | unary op x span => unary op x span :: parts x
  | binary op l r span => binary op l r span :: (parts l ++ parts r)
  | e => [e]

/-- Some expressions and all the expressions in them. -/
def allParts : List Expr → List Expr
  | [] => []
  | e :: rest => parts e ++ allParts rest

end

/-- The operands or arguments of an expression. -/
def children : Expr → List Expr
  | call _ args _ => args
  | unary _ x _ => [x]
  | binary _ l r _ => [l, r]
  | _ => []

theorem allParts_eq (es : List Expr) : allParts es = es.flatMap parts := by
  induction es with
  | nil => rfl
  | cons e rest ih => rw [allParts, ih, List.flatMap_cons]

theorem parts_eq (e : Expr) : e.parts = e :: e.children.flatMap parts := by
  cases e with
  | call name args span => rw [parts, allParts_eq, children]
  | unary op x span => rw [parts, children, List.flatMap_cons, List.flatMap_nil, List.append_nil]
  | binary op l r span =>
      rw [parts, children, List.flatMap_cons, List.flatMap_cons, List.flatMap_nil, List.append_nil]
  | int | float | string | object | ident => simp only [parts, children, List.flatMap_nil]

theorem self_mem_parts (e : Expr) : e ∈ e.parts := by
  rw [parts_eq]
  exact List.mem_cons_self

theorem mem_parts_iff {e x : Expr} : x ∈ e.parts ↔ x = e ∨ ∃ c ∈ e.children, x ∈ c.parts := by
  rw [parts_eq, List.mem_cons, List.mem_flatMap]

theorem children_withSpan (e : Expr) (s : Span) : (e.withSpan s).children = e.children := by
  cases e <;> rfl

end Expr

/-! ## Statements -/

namespace Stmt

mutual

/-- A statement and all the statements in it. -/
def parts : Stmt → List Stmt
  | block body => block body :: allParts body
  | ifThen cond body => ifThen cond body :: parts body
  | ifElse cond body other => ifElse cond body other :: (parts body ++ parts other)
  | loop cond body => loop cond body :: parts body
  | s => [s]

/-- Some statements and all the statements in them. -/
def allParts : List Stmt → List Stmt
  | [] => []
  | s :: rest => parts s ++ allParts rest

end

/-- The statements right below a statement. -/
def children : Stmt → List Stmt
  | block body => body
  | ifThen _ body | loop _ body => [body]
  | ifElse _ body other => [body, other]
  | _ => []

/-- The expressions of a statement, apart from those of statements in it. -/
def exprs : Stmt → List Expr
  | var decl => decl.init.toList
  | assign _ value _ | expr value => [value]
  | ifThen cond _ | ifElse cond _ _ | loop cond _ => [cond]
  | ret value _ => value.toList
  | block _ => []

theorem allParts_eq (ss : List Stmt) : allParts ss = ss.flatMap parts := by
  induction ss with
  | nil => rfl
  | cons s rest ih => rw [allParts, ih, List.flatMap_cons]

theorem parts_eq (s : Stmt) : s.parts = s :: s.children.flatMap parts := by
  cases s with
  | block body => rw [parts, allParts_eq, children]
  | ifThen | loop => rw [parts, children, List.flatMap_cons, List.flatMap_nil, List.append_nil]
  | ifElse =>
      rw [parts, children, List.flatMap_cons, List.flatMap_cons, List.flatMap_nil, List.append_nil]
  | var | assign | expr | ret => simp only [parts, children, List.flatMap_nil]

theorem mem_parts_iff {s t : Stmt} : t ∈ s.parts ↔ t = s ∨ ∃ c ∈ s.children, t ∈ c.parts := by
  rw [parts_eq, List.mem_cons, List.mem_flatMap]

theorem mem_allParts_iff {ss : List Stmt} {t : Stmt} : t ∈ allParts ss ↔ ∃ s ∈ ss, t ∈ s.parts := by
  rw [allParts_eq, List.mem_flatMap]

end Stmt

end Nss
