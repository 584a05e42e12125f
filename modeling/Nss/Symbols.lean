/-
# Symbol tables

The functions and the global variables that a compilation knows, numbered in the order of their
declaration.  One table serves a unit and all that it includes.  A function or a variable is found
by its name; no name stands for two of them.

The code of a function lies in the buffer of the unit that defines it.  When that buffer is merged
into another one, `rebase` moves the function along.
-/
import Nss.Syntax.Basic

namespace Nss

/-- Where the code of a function lies in a buffer: its first instruction, their number, and the
instruction that each label stands before, counted from the first. -/
structure FunctionBody where
  start : Nat
  length : Nat
  labels : List (Option Nat)
deriving DecidableEq, Repr, Inhabited

/-- A function. -/
structure FunctionSymbol where
  id : Nat
  name : String
  result : ValueType
  params : List ValueType
  /-- The unit that declared it first. -/
  unit : String
  body : Option FunctionBody
deriving DecidableEq, Repr, Inhabited

/-- A global variable. -/
structure GlobalSymbol where
  slot : Nat
  decl : VarDecl
  unit : String
deriving Repr, Inhabited

namespace GlobalSymbol

/-- The name of a global variable. -/
def name (g : GlobalSymbol) : String := g.decl.name

/-- The type of a global variable. -/
def type (g : GlobalSymbol) : ValueType := g.decl.type

end GlobalSymbol

/-- The name of the function that reserves the global variables and gives them their first values.
No script can declare it. -/
def globalsLoader : String := "#globals"

/-- Functions and global variables. -/
structure Symbols where
  functions : List FunctionSymbol
  globals : List GlobalSymbol
deriving Repr, Inhabited

namespace Symbols

/-- A table that knows nothing. -/
def empty : Symbols := ⟨[], []⟩

/-! ## Finding -/

/-- The function with a number. -/
def function? (s : Symbols) (id : Nat) : Option FunctionSymbol := s.functions[id]?

/-- The function with a name. -/
def lookup? (s : Symbols) (name : String) : Option FunctionSymbol :=
  s.functions.find? fun f => f.name = name

/-- The global variable with a name. -/
def lookupGlobal? (s : Symbols) (name : String) : Option GlobalSymbol :=
  s.globals.find? fun g => g.name = name

/-! ## Declaring -/

/-- Adds a function that is not in the table, and gives its number. -/
def insert (s : Symbols) (name : String) (result : ValueType) (params : List ValueType)
    (unit : String) : Symbols × Nat :=
  let id := s.functions.length
  ({ s with functions := s.functions ++ [{ id, name, result, params, unit, body := none }] }, id)

/-- Declares a function and gives its number.  It can be declared again with the same result and
parameters, as long as no two of its declarations have a body. -/
def declareFunction (s : Symbols) (decl : FunctionDecl) (unit : String) :
    Except Diagnostic (Symbols × Nat) :=
  let params := decl.params.map Param.type
  if (s.lookupGlobal? decl.name).isSome then
    .error (.error (.declaredAsVariable decl.name) decl.span)
  else match s.lookup? decl.name with
    | some f =>
      if f.result ≠ decl.result ∨ f.params ≠ params then
        .error (.error (.conflictingFunction decl.name) decl.span)
      else if f.body.isSome ∧ decl.body.isSome then
        .error (.error (.secondBody decl.name) decl.span)
      else .ok (s, f.id)
    | none => .ok (s.insert decl.name decl.result params unit)

/-- Declares a global variable and gives its number.  Its name must be new. -/
def declareGlobal (s : Symbols) (decl : VarDecl) (unit : String) :
    Except Diagnostic (Symbols × Nat) :=
  if (s.lookupGlobal? decl.name).isSome ∨ (s.lookup? decl.name).isSome then
    .error (.error (.alreadyDeclared decl.name) decl.span)
  else
    let slot := s.globals.length
    .ok ({ s with globals := s.globals ++ [{ slot, decl, unit }] }, slot)

/-- Changes the function with a number, if there is one. -/
def modifyFunction (s : Symbols) (id : Nat) (f : FunctionSymbol → FunctionSymbol) : Symbols :=
  { s with functions := s.functions.modify id f }

/-- Declares the loader of the global variables, in place of an earlier one. -/
def declareLoader (s : Symbols) (result : ValueType) (unit : String) : Symbols × Nat :=
  match s.lookup? globalsLoader with
  | some f => (s.modifyFunction f.id fun f => { f with result, body := none }, f.id)
  | none => s.insert globalsLoader result [] unit

/-! ## Bodies -/

/-- Gives a function its body. -/
def attachBody (s : Symbols) (id : Nat) (body : FunctionBody) : Symbols :=
  s.modifyFunction id fun f => { f with body := some body }

/-- Moves the body of a function, if it has one, by a number of instructions. -/
def shift (s : Symbols) (id offset : Nat) : Symbols :=
  s.modifyFunction id fun f =>
    { f with body := f.body.map fun b => { b with start := b.start + offset } }

/-- Moves the bodies of some functions by a number of instructions. -/
def rebase (s : Symbols) (ids : List Nat) (offset : Nat) : Symbols :=
  ids.foldl (fun s id => s.shift id offset) s

/-! ## A second pass -/

/-- A table that knows the functions of another one, but none of their bodies and no global
variables: calls to functions further down a unit can be resolved in it. -/
def seededFrom (s : Symbols) : Symbols :=
  let kept := s.functions.filter fun f => f.name ≠ globalsLoader
  { functions := kept.mapIdx fun id f => { f with id, body := none }
    globals := [] }

/-! ## The entry point -/

/-- The name of the function that an ordinary script begins with. -/
def mainName : String := "main"

/-- The name of the function that a script deciding a condition begins with. -/
def conditionName : String := "StartingConditional"

/-- The function that a script begins with, if it can be run: `main` without a result, or else the
condition with an integer one. -/
def startFunction? (s : Symbols) : Option FunctionSymbol :=
  match s.lookup? mainName with
  | some f => if f.result.isVoid then some f else none
  | none => (s.lookup? conditionName).filter fun f => f.result = .int

end Symbols
end Nss
