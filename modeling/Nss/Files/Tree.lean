/-
# File trees

The files below the working directory, as a finite tree.  Names are told apart by the case of their
letters.  A path is followed step by step, as an operating system does: a step from something that
is no directory fails, also where the step has no meaning or leads back.

A path can also lead out of the working directory.  The directories above it are there, but nothing
is known to lie in them except what was written there.
-/
import Nss.Files.Path
import Nss.Error

namespace Nss

/-- A file with its content, or a directory with its entries. -/
inductive FileNode where
  | file (content : Bytes)
  | dir (entries : List (String × FileNode))
deriving Repr, Inhabited

namespace FileNode

/-- The entry with a name. -/
def child? (entries : List (String × FileNode)) (name : String) : Option FileNode :=
  (entries.find? fun e => e.1 = name).map Prod.snd

/-- Entries with one of them set. -/
def setEntry (name : String) (node : FileNode) :
    List (String × FileNode) → List (String × FileNode)
  | [] => [(name, node)]
  | e :: rest => if e.1 = name then (name, node) :: rest else e :: setEntry name node rest

/-- The entries of a directory; a file has none. -/
def entries : FileNode → List (String × FileNode)
  | file _ => []
  | dir es => es

/-- The node that some names lead to. -/
def at? : FileNode → List String → Option FileNode
  | node, [] => some node
  | node, name :: rest => (child? node.entries name).bind fun child => child.at? rest

/-- Puts a node where some names lead to, with the directories on the way there. -/
def put : FileNode → List String → FileNode → FileNode
  | _, [], new => new
  | node, name :: rest, new =>
    let child := (child? node.entries name).getD (dir [])
    dir (setEntry name (child.put rest new) node.entries)

mutual

/-- The files in a node, with the names that lead to them. -/
def files : FileNode → List (List String × Bytes)
  | file content => [([], content)]
  | dir es => filesIn es

/-- The files in some entries, with the names that lead to them. -/
def filesIn : List (String × FileNode) → List (List String × Bytes)
  | [] => []
  | (name, node) :: rest => (files node).map (fun f => (name :: f.1, f.2)) ++ filesIn rest

end

end FileNode

/-! ## Places -/

/-- A directory whose entries are known by their names: the working directory, one of those above it,
the nearest being `above 0`, or the one that absolute paths start from. -/
inductive Base where
  | working
  | above (further : Nat)
  | top
deriving DecidableEq, Repr, Inhabited

/-- The directory that a step back leads to. -/
def Base.parent : Base → Base
  | working => above 0
  | above n => above (n + 1)
  | top => top

/-- The path of a directory. -/
def Base.path : Base → String
  | working => ""
  | above 0 => ".."
  | above (n + 1) => Path.join ".." (Base.path (above n))
  | top => "/"

/-- A place, by the names that lead to it from a directory. -/
structure Location where
  base : Base
  names : List String
deriving DecidableEq, Repr, Inhabited

namespace Location

/-- The place that a step back leads to. -/
def parent (l : Location) : Location :=
  if l.names = [] then ⟨l.base.parent, []⟩ else { l with names := l.names.dropLast }

/-- The place of an entry of a directory. -/
def child (l : Location) (name : String) : Location := { l with names := l.names ++ [name] }

end Location

/-- The files below the working directory, and what is known of those outside of it. -/
structure FileTree where
  root : FileNode
  outside : List (Base × FileNode)
deriving Repr, Inhabited

namespace FileTree

/-- The files below the working directory, with nothing known outside of it. -/
def ofRoot (root : FileNode) : FileTree := ⟨root, []⟩

/-- A tree without files. -/
def empty : FileTree := ofRoot (.dir [])

/-- A directory with what is known to lie in it. -/
def node (t : FileTree) : Base → FileNode
  | .working => t.root
  | base => ((t.outside.find? fun e => e.1 = base).map Prod.snd).getD (.dir [])

/-- What is at a place. -/
def at? (t : FileTree) (l : Location) : Option FileNode := (t.node l.base).at? l.names

/-- Puts a node at a place. -/
def put (t : FileTree) (l : Location) (new : FileNode) : FileTree :=
  let node := (t.node l.base).put l.names new
  match l.base with
  | .working => { t with root := node }
  | base => { t with outside := (base, node) :: t.outside.filter fun e => e.1 ≠ base }

/-! ## Following paths -/

/-- The number of bytes that a name may have. -/
def maxName : Nat := 255

/-- The number of bytes that a path may have. -/
def maxPath : Nat := 4095

/-- One step of a path. -/
def step (t : FileTree) (here : Location) (part : List Char) : Except FileTrouble Location :=
  match t.at? here with
  | some (.dir entries) =>
    if Path.isEmptyPart part then .ok here
    else if part = ['.', '.'] then .ok here.parent
    else if maxName < utf8Width part then .error .nameTooLong
    else if (FileNode.child? entries (String.ofList part)).isSome then
      .ok (here.child (String.ofList part))
    else .error .notFound
  | some (.file _) => .error .notDirectory
  | none => .error .notFound

/-- The steps of a path one after the other. -/
def walk (t : FileTree) : Location → List (List Char) → Except FileTrouble Location
  | here, [] => .ok here
  | here, part :: rest => do t.walk (← t.step here part) rest

/-- Where a path starts, and its parts between the slashes. -/
def start (path : String) : Except FileTrouble (Location × List (List Char)) :=
  if '\x00' ∈ path.toList then .error .nulInName
  else if maxPath < utf8Width path.toList then .error .nameTooLong
  else
    match path.toList with
    | [] => .error .notFound
    | '/' :: cs => .ok (⟨.top, []⟩, Text.pieces '/' cs)
    | cs => .ok (⟨.working, []⟩, Text.pieces '/' cs)

/-- The node that a path leads to. -/
def locate (t : FileTree) (path : String) : Except FileTrouble FileNode := do
  let (origin, parts) ← start path
  match t.at? (← t.walk origin parts) with
  | some node => return node
  | none => throw .notFound

/-- The content of the file that a path leads to. -/
def read (t : FileTree) (path : String) : Except FileTrouble Bytes := do
  match ← t.locate path with
  | .file content => return content
  | .dir _ => throw .isDirectory

/-- Whether a path leads to a file. -/
def isFile (t : FileTree) (path : String) : Bool :=
  match t.locate path with
  | .ok (.file _) => true
  | _ => false

/-- Whether a path leads to a directory. -/
def isDir (t : FileTree) (path : String) : Bool :=
  match t.locate path with
  | .ok (.dir _) => true
  | _ => false

/-- The entries of the directory that a path leads to. -/
def entries? (t : FileTree) (path : String) : Option (List (String × FileNode)) :=
  match t.locate path with
  | .ok (.dir entries) => some entries
  | _ => none

/-! ## Changing a tree -/

/-- Writes a file, a new one or in place of another one.  The directory that it lies in must be
there. -/
def write (t : FileTree) (path : String) (content : Bytes) : Except FileTrouble FileTree := do
  let (origin, parts) ← start path
  let named := (parts.reverse.dropWhile (· = [])).reverse
  let here ← t.walk origin named.dropLast
  match t.at? here, named.getLast? with
  | some (.dir entries), some name =>
    if named.length < parts.length ∨ name = ['.'] ∨ name = ['.', '.'] then throw .isDirectory
    else if maxName < utf8Width name then throw .nameTooLong
    else
      match FileNode.child? entries (String.ofList name) with
      | some (.dir _) => throw .isDirectory
      | _ => return t.put (here.child (String.ofList name)) (.file content)
  | some (.dir _), none => throw .isDirectory
  | some (.file _), _ => throw .notDirectory
  | none, _ => throw .notFound

/-- The names on a path that leads downwards only. -/
def plainNames (path : String) : List String :=
  ((Text.pieces '/' path.toList).filter fun part => !Path.isEmptyPart part).map String.ofList

/-- Lays out a file, with the directories that it lies in. -/
def addFile (t : FileTree) (path : String) (content : Bytes) : FileTree :=
  t.put ⟨.working, plainNames path⟩ (.file content)

/-- Lays out a directory, with those that it lies in. -/
def addDir (t : FileTree) (path : String) : FileTree :=
  let l : Location := ⟨.working, plainNames path⟩
  if (t.at? l).isSome then t else t.put l (.dir [])

/-! ## All files -/

/-- The files below the working directory, each with its path. -/
def files (t : FileTree) : List (String × Bytes) :=
  t.root.files.map fun f => (String.ofList (Path.joinParts (f.1.map String.toList)), f.2)

/-- The files that are known outside of the working directory, each with its path. -/
def filesOutside (t : FileTree) : List (String × Bytes) :=
  t.outside.flatMap fun e => e.2.files.map fun f => (f.1.foldl Path.join e.1.path, f.2)

/-- The paths of the files in and below the place that a path leads to, seen from that path. -/
def below (t : FileTree) (path : String) : List String :=
  match t.locate path with
  | .ok node => node.files.map fun f => f.1.foldl Path.join path
  | .error _ => []

end FileTree
end Nss
