/-
# Writing declarations

A printer makes words of a declaration; `Word.print` writes them down with a blank behind each.

    expression    its operators, with parentheses where the operand of one is too loose for it
    number        the minus sign, if it is negative, and the digits
    string        between quotes, with backslash, quote and line feed escaped
    block         its statements between braces, also if there are none

A declaration is printable if its names are names for the parser too, its variables have types with
values, its literals can be written, and no statement of it would be read in another way.  Its nesting
is what the parser counts: statements, parentheses, unary operators and arguments of calls.
-/
import Nss.Proofs.Places.Syntax
import Nss.Syntax.Parser.Literal

namespace Nss

/-! ## Words -/

/-- The text of the words of a kind that has only one. -/
def TokenKind.spelling : TokenKind → String
  | lParen => "("
  | rParen => ")"
  | lBrace => "\x7b"
  | rBrace => "\x7d"
  | comma => ","
  | semi => ";"
  | assign => "="
  | plus => "+"
  | minus => "-"
  | star => "*"
  | slash => "/"
  | percent => "%"
  | bang => "!"
  | less => "<"
  | greater => ">"
  | lessEq => "<="
  | greaterEq => ">="
  | eqEq => "=="
  | notEq => "!="
  | andAnd => "&&"
  | orOr => "||"
  | ifWord => "if"
  | elseWord => "else"
  | whileWord => "while"
  | returnWord => "return"
  | eof | ident | intLiteral | hexLiteral | floatLiteral | stringLiteral | hashInclude => ""

def UnaryOp.kind : UnaryOp → TokenKind
  | neg => .minus
  | not => .bang

def BinaryOp.kind : BinaryOp → TokenKind
  | mul => .star
  | div => .slash
  | mod => .percent
  | add => .plus
  | sub => .minus
  | less => .less
  | lessEq => .lessEq
  | greater => .greater
  | greaterEq => .greaterEq
  | eq => .eqEq
  | notEq => .notEq
  | and => .andAnd
  | or => .orOr

/-- A text with backslash, quote and line feed escaped. -/
def escape : List Char → List Char
  | [] => []
  | c :: rest =>
    if c = '\\' then '\\' :: '\\' :: escape rest
    else if c = '"' then '\\' :: '"' :: escape rest
    else if c = '\n' then '\\' :: 'n' :: escape rest
    else c :: escape rest

namespace Word

/-- The word of a kind that has only one. -/
def mark (kind : TokenKind) : Word := ⟨kind, kind.spelling⟩

def ident (name : String) : Word := ⟨.ident, name⟩

/-- The digits of a number without a sign. -/
def integer (n : Nat) : Word := ⟨.intLiteral, String.ofList (Binary32.natDigits n)⟩

/-- The digits of a floating point number without a sign. -/
def float (x : Binary32) : Word := ⟨.floatLiteral, x.text⟩

def string (s : String) : Word := ⟨.stringLiteral, String.ofList (escape s.toList)⟩

/-- A number behind a minus sign, if it has one. -/
def signed (negative : Bool) (number : Word) : List Word :=
  if negative then [mark .minus, number] else [number]

/-- Words between parentheses. -/
def parenthesized (ws : List Word) : List Word := mark .lParen :: ws ++ [mark .rParen]

theorem parenthesized_append (ws rest : List Word) :
    parenthesized ws ++ rest = mark .lParen :: (ws ++ mark .rParen :: rest) := by
  simp [parenthesized]

/-- The characters of a word. -/
def written (w : Word) : List Char :=
  match w.kind with
  | .stringLiteral => '"' :: w.text.toList ++ ['"']
  | .floatLiteral => w.text.toList ++ ['f']
  | _ => w.text.toList

/-- Words with a blank behind each of them. -/
def print (ws : List Word) : List Char := ws.flatMap fun w => w.written ++ [' ']

end Word

/-- A number with its sign taken away. -/
def Binary32.unsigned (x : Binary32) : Binary32 := if x.isNegative then x.neg else x

/-- The text of a number without a sign is read as that number. -/
def Binary32.readsBack (x : Binary32) : Bool :=
  let whole := run isDigit x.text.toList
  let fraction := run isDigit (x.text.toList.drop (whole.length + 1))
  ofDecimal whole fraction = x

/-- Whether a text is one word for the lexer. -/
def isWord (s : String) : Bool :=
  match s.toList with
  | [] => false
  | c :: more => isIdentStart c && more.all isIdentRest

/-- Whether a text is a name for the parser: a word that is no keyword, type or constant. -/
def isName (s : String) : Bool :=
  isWord s && TokenKind.ofWord s = .ident && ValueType.ofName? s = none &&
    s ∉ ["TRUE", "FALSE", "OBJECT_SELF", "OBJECT_INVALID"]

/-! ## Expressions -/

namespace Expr

open Word (mark signed parenthesized)

mutual

/-- The words of an expression that stands where operators of looseness below `n` are allowed. -/
def words (n : Nat) : Expr → List Word
  | int v _ => signed (v < 0) (.integer v.toInt.natAbs)
  | float v _ => signed v.isNegative (.float v.unsigned)
  | string s _ => [.string s]
  | object v _ => [.ident (if v = 0 then "OBJECT_SELF" else "OBJECT_INVALID")]
  | ident name _ => [.ident name]
  | call name args _ => .ident name :: parenthesized (argWords args)
  | unary op x _ => mark op.kind :: words 0 x
  | binary op l r _ =>
    let inner := words (op.looseness + 1) l ++ mark op.kind :: words op.looseness r
    if op.looseness < n then inner else parenthesized inner

/-- The words of the arguments of a call. -/
def argWords : List Expr → List Word
  | [] => []
  | e :: rest => words 6 e ++ moreArgWords rest

/-- The words of the arguments behind another one. -/
def moreArgWords : List Expr → List Word
  | [] => []
  | e :: rest => mark .comma :: words 6 e ++ moreArgWords rest

end

mutual

/-- How deep an expression is nested that stands where operators of looseness below `n` are allowed.
A literal or a name, and a call without arguments, counts as `leaf`. -/
def nesting (leaf n : Nat) : Expr → Nat
  | int v _ => leaf + if v < 0 then 1 else 0
  | float v _ => leaf + if v.isNegative then 1 else 0
  | string _ _ | object _ _ | ident _ _ => leaf
  | call _ args _ => argNesting leaf args
  | unary _ x _ => nesting leaf 0 x + 1
  | binary op l r _ =>
    max (nesting leaf (op.looseness + 1) l) (nesting leaf op.looseness r)
      + if op.looseness < n then 0 else 1

/-- How deep a call is nested, with its arguments. -/
def argNesting (leaf : Nat) : List Expr → Nat
  | [] => leaf
  | e :: rest => max (nesting leaf 6 e + 1) (argNesting leaf rest)

end

def isNumber : Expr → Bool
  | int _ _ | float _ _ => true
  | _ => false

mutual

/-- Whether an expression can be written. -/
def isPrintable : Expr → Bool
  | int _ _ | string _ _ => true
  | float v _ => v.magnitude < Binary32.infinityMagnitude && v.unsigned.readsBack
  | object v _ => v = 0 || v = 1
  | ident name _ => isName name
  | call name args _ => isName name && allPrintable args
  | unary op x _ => !(op = .neg && x.isNumber) && isPrintable x
  | binary _ l r _ => isPrintable l && isPrintable r

def allPrintable : List Expr → Bool
  | [] => true
  | e :: rest => isPrintable e && allPrintable rest

end

end Expr

/-! ## Variables -/

namespace VarDecl

/-- The words for the value that a variable begins with, if there is one. -/
def initWords : Option Expr → List Word
  | none => []
  | some e => .mark .assign :: e.words 6

def words (decl : VarDecl) : List Word :=
  .ident decl.type.name :: .ident decl.name :: initWords decl.init ++ [.mark .semi]

/-- How deep the value is nested that a variable begins with. -/
def nesting (leaf : Nat) (decl : VarDecl) : Nat :=
  match decl.init with
  | none => 0
  | some e => e.nesting leaf 6

def isPrintable (decl : VarDecl) : Bool :=
  !decl.type.isVoid && isName decl.name && decl.init.all Expr.isPrintable

end VarDecl

/-! ## Statements -/

namespace Stmt

open Word (mark parenthesized)

mutual

def words : Stmt → List Word
  | block body => mark .lBrace :: allWords body ++ [mark .rBrace]
  | var decl => decl.words
  | assign name value _ => .ident name :: mark .assign :: value.words 6 ++ [mark .semi]
  | expr value => value.words 6 ++ [mark .semi]
  | ifThen cond body => mark .ifWord :: parenthesized (cond.words 6) ++ words body
  | ifElse cond body other =>
    mark .ifWord :: parenthesized (cond.words 6) ++ words body ++ mark .elseWord :: words other
  | loop cond body => mark .whileWord :: parenthesized (cond.words 6) ++ words body
  | ret none _ => [mark .returnWord, mark .semi]
  | ret (some value) _ => mark .returnWord :: value.words 6 ++ [mark .semi]

def allWords : List Stmt → List Word
  | [] => []
  | s :: rest => words s ++ allWords rest

end

mutual

/-- How deep a statement is nested. -/
def nesting (leaf : Nat) : Stmt → Nat
  | block body => allNesting leaf body + 1
  | var decl => decl.nesting leaf + 1
  | assign _ value _ | expr value => value.nesting leaf 6 + 1
  | ifThen cond body | loop cond body => max (cond.nesting leaf 6) (nesting leaf body) + 1
  | ifElse cond body other =>
    max (cond.nesting leaf 6) (max (nesting leaf body) (nesting leaf other)) + 1
  | ret none _ => 1
  | ret (some value) _ => value.nesting leaf 6 + 1

/-- How deep some statements are nested. -/
def allNesting (leaf : Nat) : List Stmt → Nat
  | [] => 0
  | s :: rest => max (nesting leaf s) (allNesting leaf rest)

end

/-- Whether a statement ends in a condition without an alternative, so that an alternative behind it
would be read as a part of it. -/
def endsOpen : Stmt → Bool
  | ifThen _ _ => true
  | ifElse _ _ other => endsOpen other
  | loop _ body => endsOpen body
  | _ => false

mutual

/-- Whether a statement can be written. -/
def isPrintable : Stmt → Bool
  | block body => allPrintable body
  | var decl => decl.isPrintable
  | assign name value _ => isName name && value.isPrintable
  | expr value => value.isPrintable
  | ifThen cond body | loop cond body => cond.isPrintable && isPrintable body
  | ifElse cond body other =>
    cond.isPrintable && isPrintable body && isPrintable other && !body.endsOpen
  | ret value _ => value.all Expr.isPrintable

def allPrintable : List Stmt → Bool
  | [] => true
  | s :: rest => isPrintable s && allPrintable rest

end

end Stmt

/-! ## Declarations -/

namespace Param

def words (param : Param) : List Word := [.ident param.type.name, .ident param.name]

def isPrintable (param : Param) : Bool := !param.type.isVoid && isName param.name

end Param

namespace FunctionDecl

open Word (mark parenthesized)

/-- The words of parameters behind another one. -/
def moreParamWords (params : List Param) : List Word :=
  params.flatMap fun p => mark .comma :: p.words

def paramWords : List Param → List Word
  | [] => []
  | p :: rest => p.words ++ moreParamWords rest

/-- The words for the body of a function, or for there being none. -/
def bodyWords : Option (List Stmt) → List Word
  | none => [mark .semi]
  | some body => (Stmt.block body).words

def words (decl : FunctionDecl) : List Word :=
  .ident decl.result.name :: .ident decl.name :: parenthesized (paramWords decl.params)
    ++ bodyWords decl.body

def nesting (leaf : Nat) (decl : FunctionDecl) : Nat :=
  match decl.body with
  | none => 0
  | some body => Stmt.allNesting leaf body

def isPrintable (decl : FunctionDecl) : Bool :=
  isName decl.name && decl.params.all Param.isPrintable && decl.body.all Stmt.allPrintable

end FunctionDecl

namespace Declaration

def words : Declaration → List Word
  | global decl => decl.words
  | function decl => decl.words

def nesting (leaf : Nat) : Declaration → Nat
  | global decl => decl.nesting leaf
  | function decl => decl.nesting leaf

def isPrintable : Declaration → Bool
  | global decl => decl.isPrintable
  | function decl => decl.isPrintable

/-- The text of a declaration. -/
def printed (decl : Declaration) : String := String.ofList (Word.print decl.words)

end Declaration

end Nss
