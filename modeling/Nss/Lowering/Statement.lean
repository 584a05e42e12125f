/-
# Lowering statements

The instructions for a statement leave the stack as it was, with the variables on it that the
statement declares.  A statement that cannot be lowered leaves a diagnostic, and its surroundings
are lowered as if it were there.  Label 0 of a function stands before its end.
-/
import Nss.Lowering.Expression

namespace Nss
namespace Stmt

open Lower

/-- Adds the instructions for the declaration of a variable. -/
def lowerVar (Γ : LoweringContext) (decl : VarDecl) : Lower Unit := do
  if (← get).scope.any (·.name = decl.name) then fail (.declaredInScope decl.name) decl.span
  else
    declare decl.name decl.type
    emitPush (.reserve decl.type)
    match decl.init with
    | none => return ()
    | some init =>
      let found ← init.lower Γ
      expectType decl.type found init.span
      emit (.storeCell (-2))
      popCells 1

/-- Adds the instructions for an assignment. -/
def lowerAssign (Γ : LoweringContext) (name : String) (value : Expr) (span : Span) :
    Lower Unit := do
  let place ← resolve Γ name span
  let found ← value.lower Γ
  expectType place.type found value.span
  match place with
  | .stack position _ => emit (.storeCell (← fromTop position))
  | .global slot _ => emit (.storeGlobal slot)
  popCells 1

/-- Adds the instructions for an expression whose value is not used. -/
def lowerExpr (Γ : LoweringContext) (value : Expr) : Lower Unit := do
  let type ← value.lower Γ
  if ¬ type.isVoid then popCells 1

/-- Adds the instructions for a condition. -/
def lowerCondition (Γ : LoweringContext) (cond : Expr) : Lower Unit := do
  let type ← cond.lower Γ
  if type ≠ .int then fail (.conditionNotInt type) cond.span

/-- Puts the value that a function returns into the cell for the result. -/
def lowerResult (Γ : LoweringContext) (value : Option Expr) (span : Span) : Lower Unit := do
  match value, Γ.result.isVoid with
  | some value, false =>
    let found ← value.lower Γ
    expectType Γ.result found value.span
    emit (.storeCell (← fromTop Γ.resultPosition))
  | none, true => return ()
  | some value, true => fail .voidReturnsValue value.span
  | none, false => fail (.missingResult Γ.result) span

/-- Adds the instructions that leave a function: those after them are lowered as if it went on. -/
def lowerReturn (Γ : LoweringContext) (value : Option Expr) (span : Span) : Lower Unit := do
  let before ← depth
  lowerResult Γ value span
  popCells (← depth)
  emit (.jump 0)
  modify fun f => { f with depth := before }

/-- Adds the instructions of a part with a scope of its own. -/
def inScope (part : Lower Unit) : Lower Unit := do
  openScope
  part
  closeScope

mutual

/-- Adds the instructions for a statement, or fails. -/
def lower (Γ : LoweringContext) : Stmt → Lower Unit
  | block body => inScope (lowerAll Γ body)
  | var decl => lowerVar Γ decl
  | assign name value span => lowerAssign Γ name value span
  | expr value => lowerExpr Γ value
  | ifThen cond body => do
    lowerCondition Γ cond
    let otherwise ← newLabel
    emitTake 1 (.jumpIfZero otherwise)
    inScope (settle (lower Γ body))
    bindLabel otherwise
  | ifElse cond body other => do
    lowerCondition Γ cond
    let otherwise ← newLabel
    emitTake 1 (.jumpIfZero otherwise)
    inScope (settle (lower Γ body))
    let finish ← newLabel
    emit (.jump finish)
    bindLabel otherwise
    inScope (settle (lower Γ other))
    bindLabel finish
  | loop cond body => do
    let top ← newLabel
    let finish ← newLabel
    bindLabel top
    lowerCondition Γ cond
    emitTake 1 (.jumpIfZero finish)
    inScope (settle (lower Γ body))
    emit (.jump top)
    bindLabel finish
  | ret value span => lowerReturn Γ value span

/-- Adds the instructions for statements one after the other. -/
def lowerAll (Γ : LoweringContext) : List Stmt → Lower Unit
  | [] => return ()
  | s :: rest => do
    settle (lower Γ s)
    lowerAll Γ rest

end

end Stmt
end Nss
