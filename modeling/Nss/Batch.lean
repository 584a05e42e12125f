/-
# Many scripts

Scripts are compiled one after the other in one session: given by their paths, found in a directory,
or named in a list file.
-/
import Nss.Session

namespace Nss

/-- What became of some scripts, in their order. -/
structure Batch where
  reports : List (String × Report)
deriving Repr, Inhabited

namespace Batch

/-- The number of scripts of a status. -/
def count (b : Batch) (status : Status) : Nat := b.reports.countP fun r => r.2.status = status

/-- The number of scripts. -/
def processed (b : Batch) : Nat := b.reports.length

/-- The scripts in and below a directory, in order. -/
def sourcesIn (files : FileTree) (dir : String) : List String :=
  ((files.below dir).filter Path.isScript).mergeSort Path.le

/-- The paths in a list file, one to a line.  Blank lines and those that begin with `#` are left out,
and relative paths are seen from the directory of the list. -/
def sourcesOfList (list : String) (content : Bytes) : List String :=
  let dir := (Path.parent? list).getD ""
  ((Text.lines (Bytes.toText content)).map fun line => Text.trim line.toList).filterMap fun line =>
    match line with
    | [] | '#' :: _ => none
    | cs => some (Path.join dir (String.ofList cs))

/-- The paths that a list file names. -/
def readList (files : FileTree) (list : String) : Except Error (List String) := do
  return sourcesOfList list (← Loader.readSource files list)

/-- Compiles scripts one after the other.  One that is given up is reported as failed. -/
def compile : Session → FileTree → List String → Batch × Session × FileTree
  | s, files, [] => (⟨[]⟩, s, files)
  | s, files, path :: rest =>
    let (outcome, s', files') := s.compileFile files path
    let report := match outcome with
      | .ok report => report
      | .error e => Report.aborted (IncludeKey.ofPath path) e
    let (b, s'', files'') := compile s' files' rest
    (⟨(path, report) :: b.reports⟩, s'', files'')

/-- Compiles the scripts in and below a directory. -/
def compileDirectory (s : Session) (files : FileTree) (dir : String) :
    Batch × Session × FileTree :=
  compile s files (sourcesIn files dir)

/-- Compiles the scripts that a list file names. -/
def compileList (s : Session) (files : FileTree) (list : String) :
    Except Error Batch × Session × FileTree :=
  match readList files list with
  | .error e => (.error e, s, files)
  | .ok sources =>
    let (b, s', files') := compile s files sources
    (.ok b, s', files')

end Batch
end Nss
