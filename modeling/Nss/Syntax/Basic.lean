/-
# Syntax trees

Declarations, statements and expressions as the parser delivers them.  Every expression knows the
part of the script it was read from; statements know theirs where a later problem may refer to it.
-/
import Nss.Source.Diagnostic
import Nss.Number.Binary32
import Nss.ValueType
import Nss.Operator

namespace Nss

/-- An expression. -/
inductive Expr where
  | int (value : Int32) (span : Span)
  | float (value : Binary32) (span : Span)
  | string (value : String) (span : Span)
  | object (value : Int32) (span : Span)
  | ident (name : String) (span : Span)
  | call (name : String) (args : List Expr) (span : Span)
  | unary (op : UnaryOp) (operand : Expr) (span : Span)
  | binary (op : BinaryOp) (left right : Expr) (span : Span)
deriving Repr, Inhabited

namespace Expr

/-- The part of the script that an expression was read from. -/
def span : Expr → Span
  | int _ s | float _ s | string _ s | object _ s | ident _ s | call _ _ s | unary _ _ s
  | binary _ _ _ s => s

/-- The same expression, read from another part of the script. -/
def withSpan (s : Span) : Expr → Expr
  | int v _ => int v s
  | float v _ => float v s
  | string v _ => string v s
  | object v _ => object v s
  | ident n _ => ident n s
  | call n args _ => call n args s
  | unary op x _ => unary op x s
  | binary op l r _ => binary op l r s

@[simp] theorem span_withSpan (s : Span) (e : Expr) : (e.withSpan s).span = s := by
  cases e <;> rfl

end Expr

/-- A variable, global or local, with the value it begins with. -/
structure VarDecl where
  type : ValueType
  name : String
  init : Option Expr
  span : Span
deriving Repr, Inhabited

/-- A statement. -/
inductive Stmt where
  | block (body : List Stmt)
  | var (decl : VarDecl)
  | assign (name : String) (value : Expr) (span : Span)
  | expr (value : Expr)
  /-- A condition without an alternative. -/
  | ifThen (cond : Expr) (body : Stmt)
  | ifElse (cond : Expr) (body other : Stmt)
  | loop (cond : Expr) (body : Stmt)
  | ret (value : Option Expr) (span : Span)
deriving Repr, Inhabited

/-- A parameter of a function. -/
structure Param where
  type : ValueType
  name : String
deriving DecidableEq, Repr, Inhabited

/-- A function: a prototype if it has no body, and a definition if it has one. -/
structure FunctionDecl where
  result : ValueType
  name : String
  params : List Param
  body : Option (List Stmt)
  span : Span
deriving Repr, Inhabited

/-- What a unit consists of. -/
inductive Declaration where
  | global (decl : VarDecl)
  | function (decl : FunctionDecl)
deriving Repr, Inhabited

/-- The name that a declaration introduces. -/
def Declaration.name : Declaration → String
  | global decl => decl.name
  | function decl => decl.name

/-- One step of reading a unit. -/
inductive Event where
  /-- A directive to include another unit. -/
  | inclusion (path : String) (span : Span)
  | declaration (decl : Declaration)
  | problem (diagnostic : Diagnostic)
deriving Repr, Inhabited

end Nss
