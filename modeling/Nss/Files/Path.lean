/-
# Paths

A path names a file by the directories on the way to it, with slashes between them.  Empty parts and
single dots mean nothing, except for a slash or a dot that the path begins with.  The operations
leave the parts that they do not concern as they are written.
-/
import Nss.Text.Cut
import Nss.Text.Blank
import Nss.Text.Case
import Nss.Source.Diagnostic

namespace Nss
namespace Path

/-- What a path begins with, the root or the current directory, and the parts behind it. -/
structure Parts where
  head : List Char
  body : List (List Char)
deriving DecidableEq, Repr

/-- A part without meaning. -/
def isEmptyPart (part : List Char) : Bool := part = [] || part = ['.']

/-- The parts of a path. -/
def parts (path : String) : Parts :=
  match path.toList with
  | '/' :: rest => ⟨['/'], Text.pieces '/' rest⟩
  | ['.'] => ⟨['.'], []⟩
  | '.' :: '/' :: rest => ⟨['.'], [] :: Text.pieces '/' rest⟩
  | cs => ⟨[], Text.pieces '/' cs⟩

/-- Parts without those at the end that have no meaning. -/
def trimEnd (body : List (List Char)) : List (List Char) :=
  (body.reverse.dropWhile isEmptyPart).reverse

/-- Parts with slashes between them. -/
def joinParts (body : List (List Char)) : List Char := Text.joinWith ['/'] body

/-- The parts of a path up to its last one with a meaning. -/
def meant (path : String) : List (List Char) := trimEnd (parts path).body

/-- The name of a file, unless the path ends with a step upwards or is the root or the current
directory. -/
def fileName? (path : String) : Option (List Char) :=
  match (meant path).getLast? with
  | some name => if name = ['.', '.'] then none else some name
  | none => none

/-- A name before its last dot, and what stands behind the dot.  A dot at the beginning does not
count. -/
def splitName (name : List Char) : List Char × Option (List Char) :=
  match Text.splitLast? (· = '.') name with
  | some ([], _) | none => (name, none)
  | some (stem, extension) => (stem, some extension)

/-- The extension of the name of a file. -/
def extension? (path : String) : Option String :=
  ((fileName? path).bind fun name => (splitName name).2).map String.ofList

/-- A path with an extension behind the stem of its name, if it has a name. -/
def setExtension (path : String) (extension : String) : String :=
  match fileName? path with
  | none => path
  | some name =>
    String.ofList ((parts path).head
      ++ joinParts ((meant path).dropLast ++ [(splitName name).1 ++ '.' :: extension.toList]))

/-- A path with another extension, or with one where it had none.  The old one is cut off before the
new one is set, so that `..nss` becomes `..`, a step upwards that can have no extension. -/
def withExtension (path : String) (extension : String) : String :=
  match extension? path with
  | none => setExtension path extension
  | some old =>
    let cs := path.toList
    setExtension (String.ofList (cs.take (cs.length - old.toList.length))) extension

/-- The directory that a path lies in. -/
def parent? (path : String) : Option String :=
  let p := parts path
  match meant path with
  | [] => if p.head = ['.'] then some "" else none
  | body => some (String.ofList (p.head ++ joinParts (trimEnd body.dropLast)))

/-- A path seen from a directory. -/
def join (dir path : String) : String :=
  if path.toList.head? = some '/' then path
  else if dir = "" ∨ dir.toList.getLast? = some '/' then dir ++ path
  else dir ++ "/" ++ path

/-! ## Order -/

/-- A step on a path. -/
inductive Step where
  | root
  | here
  | up
  | down (name : String)
deriving DecidableEq, Repr

/-- The steps on a path. -/
def steps (path : String) : List Step :=
  let p := parts path
  let first := match p.head with
    | ['/'] => [Step.root]
    | ['.'] => [Step.here]
    | _ => []
  first ++ (p.body.filter fun part => !isEmptyPart part).map fun part =>
    if part = ['.', '.'] then .up else .down (String.ofList part)

/-- Whether a step comes before another one or is the same. -/
def Step.le : Step → Step → Bool
  | root, _ => true
  | _, root => false
  | here, _ => true
  | _, here => false
  | up, _ => true
  | _, up => false
  | down a, down b => a ≤ b

/-- Whether some steps come before others or are the same: the first difference decides. -/
def stepsLe : List Step → List Step → Bool
  | [], _ => true
  | _ :: _, [] => false
  | a :: as, b :: bs => if a = b then stepsLe as bs else a.le b

/-- Whether a path comes before another one or has the same steps. -/
def le (a b : String) : Bool := stepsLe (steps a) (steps b)

/-! ## Scripts and their outputs -/

/-- The extension of compiled scripts. -/
def outputExtension : String := "ncs"

/-- Whether the extension of a path is that of scripts, in capital or small letters. -/
def isScript (path : String) : Bool :=
  (extension? path).any fun extension => Text.sameLetters extension sourceExtension

/-- The path of a script that may be given without its extension. -/
def ofScript (path : String) : String :=
  if (extension? path).isSome then path else withExtension path sourceExtension

/-- The path of the compiled script: next to the script, with its own extension in place of that of
scripts, and behind any other. -/
def ofOutput (source : String) : String :=
  if isScript source then withExtension source outputExtension
  else source ++ "." ++ outputExtension

end Path
end Nss
