/-
# How deep trees are

The parser counts how deep operands and statements are nested, and gives up at `maxNesting`.  The
depth of a tree, which is how deep a recursion over it goes, is something else: every operator makes
it one deeper, and in `a + b + c + …` no operand is nested in another one.  Between two levels of
nesting the looseness of operators falls from each one to its right operand, and stays what it was, or
falls, on the way to its left operand.  So apart from the levels, only rows of operators make a tree
deep, each one standing in the left operand of the one before:

    depth ≤ (levels + 1) * (6 * run + 1)          `Declaration.depth_le`

Numbers with a sign count as a level, and other operands as none; the parser counts one for each of
them (`Expr.nesting`).
-/
import Nss.Proofs.Printing.Expressions

namespace Nss

/-! ## Depth -/

namespace Expr

mutual

/-- The number of nodes on the longest way down an expression. -/
def depth : Expr → Nat
  | int _ _ | float _ _ | string _ _ | object _ _ | ident _ _ => 1
  | call _ args _ => argDepth args + 1
  | unary _ x _ => depth x + 1
  | binary _ l r _ => max (depth l) (depth r) + 1

/-- The depth of the deepest argument. -/
def argDepth : List Expr → Nat
  | [] => 0
  | e :: rest => max (depth e) (argDepth rest)

end

/-- The number of binary operators in a row at the root, each one in the left operand of the one
before. -/
def spine : Expr → Nat
  | binary _ l _ _ => spine l + 1
  | _ => 0

mutual

/-- The longest row of binary operators in an expression. -/
def run : Expr → Nat
  | int _ _ | float _ _ | string _ _ | object _ _ | ident _ _ => 0
  | call _ args _ => argRun args
  | unary _ x _ => run x
  | binary _ l r _ => max (spine l + 1) (max (run l) (run r))

/-- The longest row of binary operators in some arguments. -/
def argRun : List Expr → Nat
  | [] => 0
  | e :: rest => max (run e) (argRun rest)

end

theorem spine_le_run (e : Expr) : e.spine ≤ e.run := by
  cases e with
  | binary op l r span =>
      rw [spine, run]
      exact Nat.le_max_left _ _
  | int | float | string | object | ident | call | unary => exact Nat.zero_le _

theorem spine_lt_depth : ∀ e : Expr, e.spine < e.depth
  | binary _ l _ _ => by
      have hl := spine_lt_depth l
      rw [spine, depth]
      omega
  | int _ _ | float _ _ | string _ _ | object _ _ | ident _ _ | call _ _ _ | unary _ _ _ => by
      rw [spine, depth]
      · exact Nat.succ_pos _
      · exact nofun

mutual

/-- A row of operators is part of a way down. -/
theorem run_le_depth : ∀ e : Expr, e.run ≤ e.depth
  | int _ _ | float _ _ | string _ _ | object _ _ | ident _ _ => Nat.zero_le _
  | call _ args _ => by
      rw [run, depth]
      exact Nat.le_succ_of_le (argRun_le_argDepth args)
  | unary _ x _ => by
      rw [run, depth]
      exact Nat.le_succ_of_le (run_le_depth x)
  | binary _ l r _ => by
      have hspine := spine_lt_depth l
      have hl := run_le_depth l
      have hr := run_le_depth r
      rw [run, depth]
      omega

theorem argRun_le_argDepth : ∀ args : List Expr, argRun args ≤ argDepth args
  | [] => Nat.le_refl _
  | e :: rest => by
      have he := run_le_depth e
      have hrest := argRun_le_argDepth rest
      rw [argRun, argDepth]
      omega

end

mutual

/-- Places do not matter. -/
theorem depth_unplaced : ∀ e : Expr, e.unplaced.depth = e.depth
  | int _ _ | float _ _ | string _ _ | object _ _ | ident _ _ => rfl
  | call _ args _ => by rw [unplaced, depth, depth, argDepth_unplaced args]
  | unary _ x _ => by rw [unplaced, depth, depth, depth_unplaced x]
  | binary _ l r _ => by rw [unplaced, depth, depth, depth_unplaced l, depth_unplaced r]

theorem argDepth_unplaced : ∀ args : List Expr, argDepth (allUnplaced args) = argDepth args
  | [] => rfl
  | e :: rest => by rw [allUnplaced, argDepth, argDepth, depth_unplaced e, argDepth_unplaced rest]

end

/-- How much deeper than its levels an expression may be whose rows of operators are `row` long, where
operators of looseness below `n` are allowed: the operators at its root, and one row for every degree
of looseness below theirs. -/
def climb (row n : Nat) : Expr → Nat
  | binary op l _ _ => if op.looseness < n then op.looseness * row + (spine l + 1) else 0
  | _ => 0

theorem climb_le {row : Nat} {e : Expr} (h : e.run ≤ row) (n : Nat) : e.climb row n ≤ n * row := by
  cases e with
  | binary op l r span =>
      have hspine := Nat.le_trans (spine_le_run (binary op l r span)) h
      rw [climb]
      split
      · next hlt =>
          calc op.looseness * row + (l.spine + 1)
            _ ≤ op.looseness * row + row := Nat.add_le_add_left hspine _
            _ = (op.looseness + 1) * row := (Nat.succ_mul _ _).symm
            _ ≤ n * row := Nat.mul_le_mul_right _ hlt
      · exact Nat.zero_le _
  | int | float | string | object | ident | call | unary => exact Nat.zero_le _

/-- Where operators as loose as one of looseness `n` are allowed. -/
theorem climb_succ_le (row n : Nat) (e : Expr) : e.climb row (n + 1) ≤ n * row + e.spine := by
  cases e with
  | binary op l r span =>
      rw [climb, spine]
      split
      · next hlt => exact Nat.add_le_add_right (Nat.mul_le_mul_right _ (Nat.le_of_lt_succ hlt)) _
      · exact Nat.zero_le _
  | int | float | string | object | ident | call | unary => exact Nat.zero_le _

mutual

/-- An expression is no deeper than its levels and the rows of operators between them make it. -/
theorem depth_le_climb (row : Nat) : ∀ (e : Expr) (n : Nat), e.run ≤ row →
    e.depth ≤ nesting 0 n e * (6 * row + 1) + e.climb row n + 1
  | int _ _, _, _ | float _ _, _, _ | string _ _, _, _ | object _ _, _, _ | ident _ _, _, _ =>
      Nat.le_add_left 1 _
  | call _ args _, n, h => by
      rw [run] at h
      have hargs := argDepth_le row args h
      rw [depth, nesting, climb]
      · omega
      · exact nofun
  | unary _ x _, n, h => by
      rw [run] at h
      have hx := depth_le_climb row x 0 h
      have hclimb := climb_le h 0
      rw [depth, nesting, climb, Nat.succ_mul]
      · omega
      · exact nofun
  | binary op l r span, n, h => by
      rw [run] at h
      have hrun : r.run ≤ row := by omega
      have hl := depth_le_climb row l (op.looseness + 1) (by omega)
      have hr := depth_le_climb row r op.looseness hrun
      have hleft := climb_succ_le row op.looseness l
      have hright := climb_le hrun op.looseness
      rw [depth, nesting, climb]
      by_cases hlt : op.looseness < n
      · rw [if_pos hlt, if_pos hlt]
        rw [Nat.add_zero (max _ _), ← Nat.mul_max_mul_right]
        omega
      · have hloose : op.looseness * row ≤ 5 * row :=
          Nat.mul_le_mul_right _ (Nat.le_of_lt_succ op.looseness_lt)
        rw [if_neg hlt, if_neg hlt, Nat.succ_mul, ← Nat.mul_max_mul_right]
        omega

/-- An argument is a level of its own. -/
theorem argDepth_le (row : Nat) : ∀ args : List Expr, argRun args ≤ row →
    argDepth args ≤ argNesting 0 args * (6 * row + 1)
  | [], _ => Nat.zero_le _
  | e :: rest, h => by
      rw [argRun] at h
      have hrun : e.run ≤ row := by omega
      have he := depth_le_climb row e 6 hrun
      have hclimb := climb_le hrun 6
      have hrest := argDepth_le row rest (by omega)
      rw [argDepth, argNesting, ← Nat.mul_max_mul_right, Nat.succ_mul]
      omega

end

/-- The depth of an expression that stands alone. -/
theorem depth_le (row : Nat) (e : Expr) (h : e.run ≤ row) :
    e.depth ≤ (nesting 0 6 e + 1) * (6 * row + 1) := by
  have hdepth := depth_le_climb row e 6 h
  have hclimb := climb_le h 6
  rw [Nat.succ_mul]
  omega

end Expr

/-! ## Statements and declarations -/

namespace VarDecl

/-- The depth of the value that a variable begins with. -/
def depth (decl : VarDecl) : Nat :=
  match decl.init with
  | none => 0
  | some e => e.depth

/-- The longest row of binary operators in the value that a variable begins with. -/
def run (decl : VarDecl) : Nat :=
  match decl.init with
  | none => 0
  | some e => e.run

theorem run_le_depth (decl : VarDecl) : decl.run ≤ decl.depth := by
  rw [run, depth]
  cases decl.init with
  | none => exact Nat.le_refl 0
  | some e => exact e.run_le_depth

theorem depth_unplaced (decl : VarDecl) : decl.unplaced.depth = decl.depth := by
  rw [depth, depth, unplaced]
  cases decl.init with
  | none => rfl
  | some e => exact e.depth_unplaced

theorem depth_le (row : Nat) (decl : VarDecl) (h : decl.run ≤ row) :
    decl.depth ≤ (decl.nesting 0 + 1) * (6 * row + 1) := by
  rw [run] at h
  rw [depth, nesting]
  cases hinit : decl.init with
  | none => exact Nat.zero_le _
  | some e =>
      rw [hinit] at h
      exact e.depth_le row h

end VarDecl

namespace Stmt

mutual

/-- The number of nodes on the longest way down a statement. -/
def depth : Stmt → Nat
  | block body => allDepth body + 1
  | var decl => decl.depth + 1
  | assign _ value _ | expr value => value.depth + 1
  | ifThen cond body | loop cond body => max cond.depth (depth body) + 1
  | ifElse cond body other => max cond.depth (max (depth body) (depth other)) + 1
  | ret none _ => 1
  | ret (some value) _ => value.depth + 1

/-- The depth of the deepest statement. -/
def allDepth : List Stmt → Nat
  | [] => 0
  | s :: rest => max (depth s) (allDepth rest)

end

mutual

/-- The longest row of binary operators in a statement. -/
def run : Stmt → Nat
  | block body => allRun body
  | var decl => decl.run
  | assign _ value _ | expr value => value.run
  | ifThen cond body | loop cond body => max cond.run (run body)
  | ifElse cond body other => max cond.run (max (run body) (run other))
  | ret none _ => 0
  | ret (some value) _ => value.run

/-- The longest row of binary operators in some statements. -/
def allRun : List Stmt → Nat
  | [] => 0
  | s :: rest => max (run s) (allRun rest)

end

mutual

theorem run_le_depth : ∀ s : Stmt, s.run ≤ s.depth
  | block body => by
      rw [run, depth]
      exact Nat.le_succ_of_le (allRun_le_allDepth body)
  | var decl => by
      rw [run, depth]
      exact Nat.le_succ_of_le decl.run_le_depth
  | assign _ value _ | expr value | ret (some value) _ => by
      rw [run, depth]
      exact Nat.le_succ_of_le value.run_le_depth
  | ifThen cond body | loop cond body => by
      have hcond := cond.run_le_depth
      have hbody := run_le_depth body
      rw [run, depth]
      omega
  | ifElse cond body other => by
      have hcond := cond.run_le_depth
      have hbody := run_le_depth body
      have hother := run_le_depth other
      rw [run, depth]
      omega
  | ret none _ => Nat.zero_le _

theorem allRun_le_allDepth : ∀ ss : List Stmt, allRun ss ≤ allDepth ss
  | [] => Nat.le_refl _
  | s :: rest => by
      have hs := run_le_depth s
      have hrest := allRun_le_allDepth rest
      rw [allRun, allDepth]
      omega

end

mutual

/-- A statement is a level with the expressions in it. -/
theorem depth_le (row : Nat) : ∀ s : Stmt, s.run ≤ row →
    s.depth ≤ s.nesting 0 * (6 * row + 1) + 1
  | block body, h => by
      rw [run] at h
      have hbody := allDepth_le row body h
      rw [depth, nesting, Nat.succ_mul]
      omega
  | var decl, h => by
      rw [run] at h
      have hdecl := decl.depth_le row h
      rw [depth, nesting]
      omega
  | assign _ value _, h | expr value, h | ret (some value) _, h => by
      rw [run] at h
      have hvalue := value.depth_le row h
      rw [depth, nesting]
      omega
  | ifThen cond body, h | loop cond body, h => by
      rw [run] at h
      have hcond := cond.depth_le row (by omega)
      have hbody := depth_le row body (by omega)
      rw [depth, nesting, Nat.succ_mul, ← Nat.mul_max_mul_right]
      rw [Nat.succ_mul] at hcond
      omega
  | ifElse cond body other, h => by
      rw [run] at h
      have hcond := cond.depth_le row (by omega)
      have hbody := depth_le row body (by omega)
      have hother := depth_le row other (by omega)
      rw [depth, nesting, Nat.succ_mul, ← Nat.mul_max_mul_right, ← Nat.mul_max_mul_right]
      rw [Nat.succ_mul] at hcond
      omega
  | ret none _, _ => Nat.le_add_left 1 _

theorem allDepth_le (row : Nat) : ∀ ss : List Stmt, allRun ss ≤ row →
    allDepth ss ≤ allNesting 0 ss * (6 * row + 1) + 1
  | [], _ => Nat.zero_le _
  | s :: rest, h => by
      rw [allRun] at h
      have hs := depth_le row s (by omega)
      have hrest := allDepth_le row rest (by omega)
      rw [allDepth, allNesting, ← Nat.mul_max_mul_right]
      omega

end

end Stmt

namespace Declaration

/-- The depth of the deepest tree of a declaration. -/
def depth : Declaration → Nat
  | global decl => decl.depth
  | function decl => Stmt.allDepth (decl.body.getD [])

/-- The longest row of binary operators in a declaration. -/
def run : Declaration → Nat
  | global decl => decl.run
  | function decl => Stmt.allRun (decl.body.getD [])

theorem run_le_depth (decl : Declaration) : decl.run ≤ decl.depth := by
  cases decl with
  | global decl => exact decl.run_le_depth
  | function decl => exact Stmt.allRun_le_allDepth _

/-- A declaration is no deeper than its levels and its rows of operators make it. -/
theorem depth_le (decl : Declaration) :
    decl.depth ≤ (decl.nesting 0 + 1) * (6 * decl.run + 1) := by
  cases decl with
  | global decl => exact decl.depth_le decl.run (Nat.le_refl _)
  | function decl =>
      obtain ⟨result, name, params, body, span⟩ := decl
      have hbody := Stmt.allDepth_le _ (body.getD []) (Nat.le_refl _)
      have hnesting : nesting 0 (function ⟨result, name, params, body, span⟩)
          = Stmt.allNesting 0 (body.getD []) := by
        cases body with
        | none => rfl
        | some body => rfl
      rw [depth, run, hnesting, Nat.succ_mul]
      dsimp only
      omega

end Declaration

end Nss
