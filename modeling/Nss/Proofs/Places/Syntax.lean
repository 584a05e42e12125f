/-
# What is left without places

Tokens, trees and diagnostics know where in a script they were read.  Without its place, a thing is
taken as if it had been read at the very beginning of its unit: its spans are empty and its line, if it
has one, is the first.  Two scripts that differ in blanks and comments only are the same without places.
-/
import Nss.Lowering.Function
import Nss.Token.Lexer

namespace Nss

/-! ## Diagnostics and tokens -/

/-- A diagnostic without its place. -/
def Diagnostic.unplaced (d : Diagnostic) : Diagnostic :=
  { d with span := .origin, line := d.line.map fun _ => 1 }

namespace Diagnostic

@[simp] theorem unplaced_error (problem : Problem) (span : Span) :
    (error problem span).unplaced = error problem .origin := rfl

@[simp] theorem isError_unplaced (d : Diagnostic) : d.unplaced.isError = d.isError := rfl

@[simp] theorem message_unplaced (d : Diagnostic) : d.unplaced.message = d.message := rfl

/-- Without places, it makes no difference in which text a diagnostic is located. -/
theorem located_unplaced (d : Diagnostic) (unit text text' : String) :
    d.unplaced.located unit text' = (d.located unit text).unplaced := by
  rw [located, located]
  have hunit : d.unplaced.unit = d.unit := rfl
  rw [hunit]
  cases d.unit with
  | some _ => rfl
  | none => rfl

end Diagnostic

/-- A token without its place. -/
def Token.unplaced (t : Token) : Token := { t with span := .origin, textSpan := .origin }

/-- A word of a script: the kind and the text of a token. -/
structure Word where
  kind : TokenKind
  text : String
deriving DecidableEq, Repr

/-- The word that a token is. -/
def Token.word (t : Token) : Word := ⟨t.kind, t.text⟩

/-- A word as a token without a place. -/
def Word.token (w : Word) : Token := ⟨w.kind, .origin, .origin, w.text⟩

theorem Token.map_unplaced (ts : List Token) :
    ts.map Token.unplaced = (ts.map Token.word).map Word.token := by
  rw [List.map_map]
  rfl

/-- A unit in tokens without their places. -/
def Lexed.unplaced (l : Lexed) : Lexed where
  tokens := l.tokens.map Token.unplaced
  ending := l.ending.unplaced
  troubles := l.troubles.map Diagnostic.unplaced

/-- There is nothing to be covered without places. -/
@[simp] theorem Span.cover_origin : origin.cover origin = origin := rfl

/-! ## Trees -/

namespace Expr

mutual

/-- An expression without places. -/
def unplaced : Expr → Expr
  | int v _ => int v .origin
  | float v _ => float v .origin
  | string v _ => string v .origin
  | object v _ => object v .origin
  | ident name _ => ident name .origin
  | call name args _ => call name (allUnplaced args) .origin
  | unary op x _ => unary op (unplaced x) .origin
  | binary op l r _ => binary op (unplaced l) (unplaced r) .origin

/-- Expressions without places. -/
def allUnplaced : List Expr → List Expr
  | [] => []
  | e :: rest => unplaced e :: allUnplaced rest

end

theorem allUnplaced_eq_map (es : List Expr) : allUnplaced es = es.map unplaced := by
  induction es with
  | nil => rfl
  | cons e rest ih => rw [allUnplaced, ih, List.map_cons]

theorem unplaced_call (name : String) (args : List Expr) (span : Span) :
    (call name args span).unplaced = call name (args.map unplaced) .origin := by
  rw [unplaced, allUnplaced_eq_map]

@[simp] theorem span_unplaced (e : Expr) : e.unplaced.span = .origin := by
  cases e <;> rfl

@[simp] theorem unplaced_withSpan (e : Expr) (span : Span) :
    (e.withSpan span).unplaced = e.unplaced := by
  cases e <;> rfl

theorem withSpan_unplaced (e : Expr) : e.unplaced.withSpan .origin = e.unplaced := by
  cases e <;> rfl

end Expr

/-- A variable without places. -/
def VarDecl.unplaced (decl : VarDecl) : VarDecl :=
  { decl with init := decl.init.map Expr.unplaced, span := .origin }

namespace Stmt

mutual

/-- A statement without places. -/
def unplaced : Stmt → Stmt
  | block body => block (allUnplaced body)
  | var decl => var decl.unplaced
  | assign name value _ => assign name value.unplaced .origin
  | expr value => expr value.unplaced
  | ifThen cond body => ifThen cond.unplaced (unplaced body)
  | ifElse cond body other => ifElse cond.unplaced (unplaced body) (unplaced other)
  | loop cond body => loop cond.unplaced (unplaced body)
  | ret value _ => ret (value.map Expr.unplaced) .origin

/-- Statements without places. -/
def allUnplaced : List Stmt → List Stmt
  | [] => []
  | s :: rest => unplaced s :: allUnplaced rest

end

theorem allUnplaced_eq_map (ss : List Stmt) : allUnplaced ss = ss.map unplaced := by
  induction ss with
  | nil => rfl
  | cons s rest ih => rw [allUnplaced, ih, List.map_cons]

theorem unplaced_block (body : List Stmt) : (block body).unplaced = block (body.map unplaced) := by
  rw [unplaced, allUnplaced_eq_map]

end Stmt

/-- A function without places. -/
def FunctionDecl.unplaced (decl : FunctionDecl) : FunctionDecl :=
  { decl with body := decl.body.map (List.map Stmt.unplaced), span := .origin }

/-- A declaration without places. -/
def Declaration.unplaced : Declaration → Declaration
  | global decl => global decl.unplaced
  | function decl => function decl.unplaced

@[simp] theorem Declaration.name_unplaced (decl : Declaration) : decl.unplaced.name = decl.name := by
  cases decl <;> rfl

/-- A step of reading a unit, without places. -/
def Event.unplaced : Event → Event
  | inclusion path _ => inclusion path .origin
  | declaration decl => declaration decl.unplaced
  | problem d => problem d.unplaced

namespace Event

theorem unplaced_eq_problem {e : Event} {d : Diagnostic} (h : e.unplaced = (problem d).unplaced) :
    ∃ d', e = problem d' ∧ d'.unplaced = d.unplaced := by
  cases e with
  | problem d' => exact ⟨d', rfl, Event.problem.inj h⟩
  | declaration decl => cases h
  | inclusion path span => cases h

theorem unplaced_eq_declaration {e : Event} {decl : Declaration}
    (h : e.unplaced = (declaration decl).unplaced) :
    ∃ decl', e = declaration decl' ∧ decl'.unplaced = decl.unplaced := by
  cases e with
  | problem d => cases h
  | declaration decl' => exact ⟨decl', rfl, Event.declaration.inj h⟩
  | inclusion path span => cases h

theorem unplaced_eq_inclusion {e : Event} {path : String} {span : Span}
    (h : e.unplaced = (inclusion path span).unplaced) : ∃ span', e = inclusion path span' := by
  cases e with
  | problem d => cases h
  | declaration decl => cases h
  | inclusion path' span' =>
      obtain rfl := (Event.inclusion.inj h).1
      exact ⟨span', rfl⟩

end Event

/-! ## Symbol tables -/

/-- A global variable without places. -/
def GlobalSymbol.unplaced (g : GlobalSymbol) : GlobalSymbol := { g with decl := g.decl.unplaced }

/-- A symbol table without places. -/
def Symbols.unplaced (s : Symbols) : Symbols := { s with globals := s.globals.map GlobalSymbol.unplaced }

namespace Symbols

variable (s : Symbols)

@[simp] theorem lookup?_unplaced (name : String) : s.unplaced.lookup? name = s.lookup? name := rfl

theorem lookupGlobal?_unplaced (name : String) :
    s.unplaced.lookupGlobal? name = (s.lookupGlobal? name).map GlobalSymbol.unplaced := by
  rw [lookupGlobal?, lookupGlobal?, unplaced, List.find?_map]
  rfl

theorem isSome_lookupGlobal?_unplaced (name : String) :
    (s.unplaced.lookupGlobal? name).isSome = (s.lookupGlobal? name).isSome := by
  rw [lookupGlobal?_unplaced, Option.isSome_map]

/-- What a declaration gives, without places. -/
def declaredUnplaced : Except Diagnostic (Symbols × Nat) → Except Diagnostic (Symbols × Nat)
  | .ok (t, id) => .ok (t.unplaced, id)
  | .error d => .error d.unplaced

theorem declareFunction_unplaced (decl : FunctionDecl) (unit : String) :
    s.unplaced.declareFunction decl.unplaced unit = declaredUnplaced (s.declareFunction decl unit) := by
  have hname : decl.unplaced.name = decl.name := rfl
  have hparams : decl.unplaced.params = decl.params := rfl
  have hresult : decl.unplaced.result = decl.result := rfl
  have hbody : decl.unplaced.body.isSome = decl.body.isSome := by
    rw [FunctionDecl.unplaced, Option.isSome_map]
  rw [declareFunction, declareFunction, isSome_lookupGlobal?_unplaced, lookup?_unplaced, hname,
    hparams, hresult, hbody]
  split
  · rfl
  · cases s.lookup? decl.name with
    | none => rfl
    | some f =>
        dsimp only
        split
        · rfl
        · split
          · rfl
          · rfl

theorem declareGlobal_unplaced (decl : VarDecl) (unit : String) :
    s.unplaced.declareGlobal decl.unplaced unit = declaredUnplaced (s.declareGlobal decl unit) := by
  have hname : decl.unplaced.name = decl.name := rfl
  rw [declareGlobal, declareGlobal, isSome_lookupGlobal?_unplaced, lookup?_unplaced, hname]
  split
  · rfl
  · simp [declaredUnplaced, unplaced, GlobalSymbol.unplaced]

end Symbols

end Nss
