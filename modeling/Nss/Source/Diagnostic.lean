/-
# Diagnostics

A diagnostic is a problem at a place.  It is found without knowing which unit is being read;
`located` adds the unit and the line, once, so that a diagnostic keeps the innermost unit it was
located in.
-/
import Nss.Source.Span
import Nss.Source.Problem

namespace Nss

/-- Whether a diagnostic stops a unit from being compiled. -/
inductive Severity where
  | error
  | warning
deriving DecidableEq, Repr, Inhabited

/-- The word for a severity. -/
def Severity.name : Severity → String
  | error => "error"
  | warning => "warning"

/-- A problem at a place in a unit. -/
structure Diagnostic where
  severity : Severity
  problem : Problem
  span : Span
  unit : Option String
  line : Option Nat
deriving DecidableEq, Repr, Inhabited

/-- The extension of script files. -/
def sourceExtension : String := "nss"

namespace Diagnostic

/-- An error that is not located yet. -/
def error (problem : Problem) (span : Span) : Diagnostic :=
  { severity := .error, problem, span, unit := none, line := none }

/-- Whether a diagnostic is an error. -/
def isError (d : Diagnostic) : Bool := d.severity = .error

/-- The wording of the problem. -/
def message (d : Diagnostic) : String := d.problem.message

/-- The diagnostic as part of a unit with the given text, unless it has a unit already. -/
def located (d : Diagnostic) (unit source : String) : Diagnostic :=
  match d.unit with
  | some _ => d
  | none => { d with unit := some unit, line := some (d.span.line source) }

/-- The number of errors among some diagnostics. -/
def errorCount (ds : List Diagnostic) : Nat := ds.countP isError

/-- A diagnostic as one line of text. -/
def text (d : Diagnostic) : String :=
  let rest := d.severity.name ++ ": " ++ d.message
  match d.unit, d.line with
  | some unit, some line => unit ++ "." ++ sourceExtension ++ "(" ++ line.repr ++ "): " ++ rest
  | some unit, none => unit ++ "." ++ sourceExtension ++ ": " ++ rest
  | none, _ => rest

end Diagnostic
end Nss
