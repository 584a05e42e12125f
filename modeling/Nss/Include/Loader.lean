/-
# Loaders

A loader supplies the sources of included units by their keys.  It comes with a bound on how many
units it can supply, and so on how deep they can include one another.
-/
import Nss.Files.Tree

namespace Nss

/-- A supply of sources. -/
structure Loader where
  load : String → Except Error Bytes
  /-- The number of units that there are to be loaded. -/
  supply : Nat

namespace Loader

/-- The name of the file of a unit. -/
def fileName (key : String) : String := key ++ "." ++ sourceExtension

/-- Sources given by their keys, found in capital or small letters.  Of two with one key the later
one counts. -/
def ofSources (sources : List (String × Bytes)) : Loader where
  load key :=
    match sources.reverse.find? fun s => Text.lowercase s.1 = Text.lowercase key with
    | some s => .ok s.2
    | none => .error (.sourceNotFound (fileName key))
  supply := sources.length

/-- The content of a file as the source of a unit. -/
def readSource (t : FileTree) (path : String) : Except Error Bytes :=
  match t.read path with
  | .ok content => .ok content
  | .error .notFound => .error (.sourceNotFound path)
  | .error cause => .error (.sourceIo cause)

/-- The path of a file in a directory: of that name if there is a file, and else of an entry whose
name differs only in the case of its letters. -/
def findIn? (t : FileTree) (dir name : String) : Option String :=
  let exact := Path.join dir name
  if t.isFile exact then some exact
  else
    ((t.entries? dir).getD []).findSome? fun e =>
      if Text.sameLetters e.1 name then some (Path.join dir e.1) else none

/-- The entries of the directory in which the name of a file is looked up.  That of an empty path is
the working directory. -/
def entriesAt (t : FileTree) (dir : String) : List (String × FileNode) :=
  (t.entries? (if dir = "" then "." else dir)).getD []

/-- Sources in the files of some directories, searched in order. -/
def ofDirs (t : FileTree) (dirs : List String) : Loader where
  load key :=
    match dirs.findSome? fun dir => findIn? t dir (fileName key) with
    | some path => readSource t path
    | none => .error (.sourceNotFound (fileName key))
  supply := (dirs.flatMap (entriesAt t)).length

end Loader
end Nss
