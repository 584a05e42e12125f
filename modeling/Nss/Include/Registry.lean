/-
# Include keys and their registry

A unit is known by its key: its path without directories and extension.  A registry remembers the
keys that were met during a run, so that each unit is read once.  The key of an include directive is
lowercased, unless it is registered just as it is written.

The texts of the keys stand one behind the other in `names`; an entry says where its key begins and
how many bytes it takes.
-/
import Nss.Text.Cut
import Nss.Text.Case

namespace Nss

/-- Whether a key was met for the first time. -/
inductive Registration where
  | new
  | alreadyProcessed
deriving DecidableEq, Repr, Inhabited

namespace IncludeKey

/-- The characters that end a directory in a path. -/
def isSeparator (c : Char) : Bool := c = '\\' || c = '/' || c = ':'

/-- A name without its extension.  A dot at the beginning begins no extension. -/
def dropExtension (name : List Char) : List Char :=
  match Text.splitLast? (· = '.') name with
  | some ([], _) | none => name
  | some (stem, _) => stem

/-- The key of a path. -/
def ofPath (path : String) : String :=
  let name := match Text.splitLast? isSeparator path.toList with
    | some (_, name) => name
    | none => path.toList
  String.ofList (dropExtension name)

end IncludeKey

/-- A registered key, and where its text lies. -/
structure RegistryEntry where
  key : String
  offset : Nat
  length : Nat
deriving DecidableEq, Repr, Inhabited

/-- The keys met so far, in the order of their registration. -/
structure Registry where
  names : List Char
  entries : List RegistryEntry
deriving DecidableEq, Repr, Inhabited

namespace Registry

/-- A registry without keys. -/
def empty : Registry := ⟨[], []⟩

/-- Whether a key is registered. -/
def contains (r : Registry) (key : String) : Bool := r.entries.any fun e => e.key = key

/-- The text that an entry points to. -/
def text? (r : Registry) (e : RegistryEntry) : Option String :=
  ((Text.dropBytes? e.offset r.names).bind (Text.takeBytes? e.length)).map String.ofList

/-- The registered keys: the empty one first, the others in the order of their registration. -/
def keys (r : Registry) : List String :=
  ((r.entries.filter fun e => e.length = 0) ++ r.entries.filter fun e => e.length ≠ 0).filterMap
    r.text?

/-- Registers a key.  One that is registered already stays as it is. -/
def register (r : Registry) (key : String) : Registration × Registry :=
  if r.contains key then (.alreadyProcessed, r)
  else
    let cs := key.toList
    (.new,
      { names := r.names ++ cs
        entries := r.entries ++ [{ key, offset := utf8Width r.names, length := utf8Width cs }] })

/-- The key of an include directive. -/
def normalize (r : Registry) (path : String) : String :=
  let key := IncludeKey.ofPath path
  if r.contains key then key else Text.lowercase key

end Registry
end Nss
