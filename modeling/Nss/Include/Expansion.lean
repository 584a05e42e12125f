/-
# Expanding includes

What a unit consists of once its include directives are followed: a tree in which every directive
that opens a unit holds what that unit consists of.  A unit whose key is registered is not opened
again, so that the expansion ends even if units include one another in a circle; the number of
units that there are bounds how deep the tree can be.
-/
import Nss.Include.Registry
import Nss.Include.Loader
import Nss.Syntax.Basic

namespace Nss

/-- The parser of a compilation: the events of a unit, from its name and its text. -/
abbrev FrontEnd := String → String → List Event

/-- An event with its directive followed. -/
inductive Expanded where
  | problem (diagnostic : Diagnostic)
  | declaration (decl : Declaration)
  /-- A directive for a unit that was read before. -/
  | repeated (key : String)
  /-- A directive for a unit that cannot be loaded. -/
  | missing (key path : String) (span : Span)
  /-- A directive for a unit that is read here. -/
  | opened (key : String) (source : Bytes) (content : List Expanded)
deriving Repr, Inhabited

namespace Expanded

/-- Follows the directives among some events.  `descend` expands a unit that is opened, given the
keys registered before and its own. -/
def ofEvents (loader : Loader) (descend : Registry → String → Bytes → List Expanded × Registry) :
    Registry → List Event → List Expanded × Registry
  | r, [] => ([], r)
  | r, .problem d :: rest =>
    let (after, r') := ofEvents loader descend r rest
    (problem d :: after, r')
  | r, .declaration decl :: rest =>
    let (after, r') := ofEvents loader descend r rest
    (declaration decl :: after, r')
  | r, .inclusion path span :: rest =>
    let key := r.normalize path
    match r.register key with
    | (.alreadyProcessed, _) =>
      let (after, r') := ofEvents loader descend r rest
      (repeated key :: after, r')
    | (.new, registered) =>
      match loader.load key with
      | .error _ =>
        let (after, r') := ofEvents loader descend registered rest
        (missing key path span :: after, r')
      | .ok source =>
        let (content, inner) := descend registered key source
        let (after, r') := ofEvents loader descend inner rest
        (opened key source content :: after, r')

/-- What a unit consists of, directives being followed `n` deep. -/
def ofUnit (front : FrontEnd) (loader : Loader) : Nat → Registry → String → Bytes →
    List Expanded × Registry
  | 0, r, _, _ => ([], r)
  | n + 1, r, unit, source =>
    ofEvents loader (ofUnit front loader n) r (front unit (Bytes.toText source))

/-- What a unit consists of with all its directives followed. -/
def ofRoot (front : FrontEnd) (loader : Loader) (r : Registry) (unit : String) (source : Bytes) :
    List Expanded :=
  (ofUnit front loader (loader.supply + 1) r unit source).1

/-- What a unit consists of with its directives left out. -/
def scan (front : FrontEnd) (unit : String) (source : Bytes) : List Expanded :=
  (front unit (Bytes.toText source)).filterMap fun
    | .problem d => some (problem d)
    | .declaration decl => some (declaration decl)
    | .inclusion _ _ => none

end Expanded
end Nss
