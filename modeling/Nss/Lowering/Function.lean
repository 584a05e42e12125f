/-
# Lowering functions

What a function is lowered to, and the loader of the global variables: a function without
parameters that reserves the globals one after the other, gives them their first values, saves the
base pointer so that they can be reached through it, and calls the entry point.
-/
import Nss.Lowering.Statement

namespace Nss

/-- The instructions of a function, the instruction that each label stands before, and what is wrong
with the function. -/
structure Lowering where
  code : Array Instruction
  labels : List (Option Nat)
  diagnostics : List Diagnostic
deriving Repr, Inhabited

namespace Lowering

open Lower

/-- What a frame has in the end. -/
def ofFrame (f : Frame) : Lowering := ⟨f.code, f.labels, f.diagnostics⟩

/-- The diagnostics for parameters that have the name of an earlier one. -/
def duplicateParams (span : Span) : List Param → List Param → List Diagnostic
  | _, [] => []
  | before, p :: rest =>
    (if before.any (·.name = p.name) then [.error (.duplicateParameter p.name) span] else [])
      ++ duplicateParams span (before ++ [p]) rest

/-- The instructions of a function. -/
def functionBody (Γ : LoweringContext) (decl : FunctionDecl) : Lower Unit := do
  let finish ← newLabel
  match decl.body with
  | some body => Stmt.inScope (Stmt.lowerAll Γ body)
  | none => pure ()
  bindLabel finish
  if 0 < Γ.params.length then emit (.pop Γ.params.length)
  emit .ending

/-- What a function is lowered to.  Nothing that was added for one with diagnostics is ever part of
a program. -/
def ofFunction (decl : FunctionDecl) (symbols : Symbols) : Lowering :=
  let start := { Frame.start with diagnostics := duplicateParams decl.span [] decl.params }
  ofFrame (start.after (functionBody (.ofFunction symbols decl) decl))

/-! ## Global variables -/

/-- Reserves global variables and gives them their first values. -/
def loadGlobals (Γ : LoweringContext) : List GlobalSymbol → Lower Unit
  | [] => return ()
  | g :: rest => do
    settle (Stmt.lower Γ (.var g.decl))
    loadGlobals Γ rest

/-- Calls the entry point and passes its result on. -/
def callEntry (Γ : LoweringContext) (entry : FunctionSymbol) : Lower Unit := do
  if entry.result.isVoid then emit (.callTo entry.id)
  else
    emitPush (.reserve entry.result)
    emit (.callTo entry.id)
    emit (.storeCell (← fromTop Γ.resultPosition))
    popCells 1

/-- The instructions of the loader. -/
def loaderBody (Γ : LoweringContext) (entry : Option FunctionSymbol) : Lower Unit := do
  loadGlobals Γ Γ.symbols.globals
  emitPush (.simple .saveBp)
  match entry with
  | some f => callEntry Γ f
  | none => pure ()
  emitTake 1 (.simple .restoreBp)
  if 0 < Γ.symbols.globals.length then emit (.pop Γ.symbols.globals.length)
  emit .ending

/-- What the loader of the global variables is lowered to. -/
def ofGlobals (symbols : Symbols) (entry : Option FunctionSymbol) : Lowering :=
  let result := match entry with
    | some f => f.result
    | none => .void
  ofFrame (Frame.start.after (loaderBody (.ofLoader symbols result) entry))

/-- Pushes global variables without their values. -/
def assumeGlobals : List GlobalSymbol → Lower Unit
  | [] => return ()
  | g :: rest => do
    declare g.name g.type
    modify fun f => { f with depth := f.depth + 1 }
    assumeGlobals rest

/-- What is wrong with the first value of a global variable, those before it being there. -/
def checkGlobal (slot : Nat) (symbols : Symbols) : List Diagnostic :=
  let check : Lower Unit := do
    assumeGlobals (symbols.globals.take slot)
    match symbols.globals[slot]? with
    | some g => settle (Stmt.lower (.ofLoader symbols .void) (.var g.decl))
    | none => pure ()
  (Frame.start.after check).diagnostics

end Lowering
end Nss
