/-
# Functions that are called

A compiled script holds the function that it begins with and all the functions that can be called
from there, directly or through others.
-/
import Nss.Symbols
import Nss.Bytecode.Buffer
import Nss.Error

namespace Nss

/-- The function that a script begins with: `main` without a result, or else the condition with an
integer one. -/
def Symbols.entryPoint (s : Symbols) : Except Error FunctionSymbol :=
  match s.lookup? mainName with
  | some f =>
    if f.result.isVoid then .ok f else .error (.wrongReturnType mainName .void f.result)
  | none =>
    match s.lookup? conditionName with
    | some f =>
      if f.result = .int then .ok f else .error (.wrongReturnType conditionName .int f.result)
    | none => .error .noEntryPoint

/-- The function that an instruction calls. -/
def Instruction.callee? (i : Instruction) : Option Nat :=
  match i.operand with
  | .call f => some f
  | _ => none

/-- The name of a function that is not in the symbol table. -/
def unknownFunction (id : Nat) : String := "#" ++ id.repr

namespace Program

/-- The body of a function. -/
def bodyOf (f : FunctionSymbol) : Except Error FunctionBody :=
  match f.body with
  | some body => .ok body
  | none => .error (.unresolvedCall f.name)

/-- The instructions of a body. -/
def codeOf (records : Array Instruction) (f : FunctionSymbol) (body : FunctionBody) :
    Except Error (List Instruction) :=
  if body.start + body.length ≤ records.size then
    .ok (records.extract body.start (body.start + body.length)).toList
  else .error (.unresolvedCall f.name)

/-- Adds the functions that some instructions call and that were not seen before.  Those to be
looked at come with the latest first. -/
def visit (symbols : Symbols) : List Nat → List FunctionSymbol → List Instruction →
    Except Error (List Nat × List FunctionSymbol)
  | seen, pending, [] => .ok (seen, pending)
  | seen, pending, i :: rest =>
    match i.callee? with
    | none => visit symbols seen pending rest
    | some id =>
      if id ∈ seen then visit symbols seen pending rest
      else match symbols.function? id with
        | some f => visit symbols (id :: seen) (f :: pending) rest
        | none => .error (.unresolvedCall (unknownFunction id))

/-- The numbers of the functions that can be reached.  Every function is looked at once, so that
there are at most as many steps as functions. -/
def explore (symbols : Symbols) (records : Array Instruction) : Nat → List Nat →
    List FunctionSymbol → Except Error (List Nat)
  | 0, seen, _ => .ok seen
  | _ + 1, seen, [] => .ok seen
  | fuel + 1, seen, f :: pending => do
    let body ← bodyOf f
    let code ← codeOf records f body
    let (seen, pending) ← visit symbols seen pending code
    explore symbols records fuel seen pending

/-- A function and those that can be reached from it, the others in the order of their
declaration. -/
def reachable (symbols : Symbols) (records : Array Instruction) (entry : FunctionSymbol) :
    Except Error (List FunctionSymbol) := do
  let seen ← explore symbols records (symbols.functions.length + 1) [entry.id] [entry]
  return entry :: symbols.functions.filter fun f => f.id ≠ entry.id ∧ f.id ∈ seen

end Program
end Nss
