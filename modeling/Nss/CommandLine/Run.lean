/-
# The command line

What the command does with its arguments and the files below the working directory: it compiles
scripts, one to a line of its output, or shows compiled ones.
-/
import Nss.CommandLine.Arguments
import Nss.Batch
import Nss.Bytecode.Listing

namespace Nss

/-- What a run of the command leaves. -/
structure Outcome where
  exitCode : Nat
  stdout : String
  stderr : String
  files : FileTree
deriving Repr, Inhabited

/-- The files that are new or have another content than before. -/
def Outcome.written (o : Outcome) (before : FileTree) : List (String × Bytes) :=
  (o.files.files ++ o.files.filesOutside).filter fun f => (before.read f.1).toOption ≠ some f.2

/-- An error at the top level: a message, and what brought it about, the nearest cause first. -/
structure Complaint where
  message : String
  causes : List String
deriving DecidableEq, Repr, Inhabited

namespace Complaint

/-- A text whose lines after the first are indented. -/
def indented (margin : String) (text : String) : String :=
  String.ofList (Text.joinWith ('\n' :: margin.toList) (Text.pieces '\n' text.toList))

/-- Causes with their numbers, from `n` on. -/
def numbered : Nat → List String → String
  | _, [] => ""
  | n, cause :: rest =>
    let number := n.repr
    let margin := String.ofList (List.replicate (5 - number.length) ' ')
    "\n" ++ margin ++ number ++ ": " ++ indented "       " cause ++ numbered (n + 1) rest

/-- A complaint as text.  Several causes are numbered. -/
def text (c : Complaint) : String :=
  "Error: " ++ c.message ++
    match c.causes with
    | [] => "\n"
    | [cause] => "\n\nCaused by:\n    " ++ indented "    " cause ++ "\n"
    | causes => "\n\nCaused by:" ++ numbered 0 causes ++ "\n"

/-- A complaint that an error brought about. -/
def ofError (message : String) (e : Error) : Complaint :=
  ⟨message, e.message :: e.cause?.toList⟩

end Complaint

namespace Command

/-- Some lines of text. -/
def unlines (ls : List String) : String := ls.foldr (fun l rest => l ++ "\n" ++ rest) ""

/-! ## Showing compiled scripts -/

/-- The listing of a file. -/
def listing (files : FileTree) (path : String) : Except Complaint String :=
  match files.read path with
  | .error cause => .error ⟨"failed to read " ++ path, [cause.message]⟩
  | .ok bytes =>
    match Listing.ofFile bytes with
    | .error e => .error (.ofError ("failed to decode " ++ path) e)
    | .ok ds =>
      .ok ("; " ++ path ++ " (" ++ bytes.length.repr ++ " bytes)\n" ++ Listing.text ds)

/-- The listings of files one after the other, as far as there are any. -/
def listings (files : FileTree) : List String → String × Except Complaint Unit
  | [] => ("", .ok ())
  | path :: rest =>
    match listing files path with
    | .error c => ("", .error c)
    | .ok shown =>
      let (after, outcome) := listings files rest
      (shown ++ after, outcome)

/-! ## Compiling scripts -/

/-- The scripts in directories one after the other. -/
def sourcesInAll (files : FileTree) : List String → Except Complaint (List String)
  | [] => .ok []
  | dir :: rest => do
    if files.isDir dir then
      return Batch.sourcesIn files dir ++ (← sourcesInAll files rest)
    else throw ⟨dir ++ " is not a directory", []⟩

/-- The scripts that are asked for. -/
def sources (files : FileTree) (a : Arguments) : Except Complaint (List String) := do
  if a.output.isSome ∧ (a.directory ∨ a.list.isSome ∨ 1 < a.inputs.length) then
    throw ⟨"--output can only be used with a single input script", []⟩
  let given ← if a.directory then sourcesInAll files a.inputs else pure a.inputs
  match a.list with
  | none => return given
  | some list =>
    match Batch.readList files list with
    | .ok listed => return given ++ listed
    | .error e => throw (.ofError ("failed to read list file " ++ list) e)

/-- What is said about a script among the errors.  That an include has no entry point is not said
unless everything is to be. -/
def complaintsOn (verbose : Bool) (path : String) (r : Report) : List String :=
  (if r.status ≠ .included ∨ verbose then r.diagnostics.map Diagnostic.text else [])
    ++ (r.error.map fun e => path ++ ": error: " ++ e.message).toList

/-- What is said about a script in the output. -/
def lineOn (r : Report) : String := "Script " ++ r.unit ++ " - " ++ r.status.label

/-- What is said about all scripts. -/
def summary (b : Batch) : String :=
  "Processed " ++ b.processed.repr ++ " scripts: " ++ (b.count .compiled).repr ++ " passed, "
    ++ (b.count .included).repr ++ " include, " ++ (b.count .failed).repr ++ " failed"

/-- The options of the session that compiles the scripts. -/
def options (a : Arguments) : Options :=
  { debug := a.debug, includeDirs := a.includeDirs, output := a.output, outputDir := none }

/-- Compiles scripts. -/
def compile (a : Arguments) (files : FileTree) (paths : List String) : Outcome :=
  let session := Session.start (options a) scriptFrontEnd
  let (b, _, files') := Batch.compile session files paths
  let failed := b.count .failed
  let complaint := if 0 < failed then
      Complaint.text ⟨failed.repr ++ " of " ++ b.processed.repr ++ " scripts failed", []⟩
    else ""
  { exitCode := if 0 < failed then 1 else 0
    stdout := unlines (b.reports.map (fun r => lineOn r.2) ++ [summary b])
    stderr := unlines (b.reports.flatMap fun r => complaintsOn (0 < a.verbose) r.1 r.2) ++ complaint
    files := files' }

/-! ## The whole command -/

/-- Does what the arguments ask for. -/
def execute (a : Arguments) (files : FileTree) : Outcome :=
  if a.disasm then
    match listings files a.inputs with
    | (shown, .ok _) => { exitCode := 0, stdout := shown, stderr := "", files }
    | (shown, .error c) => { exitCode := 1, stdout := shown, stderr := c.text, files }
  else
    match sources files a with
    | .error c => { exitCode := 1, stdout := "", stderr := c.text, files }
    | .ok paths => compile a files paths

/-- How the command is used. -/
def usage : String :=
  "Usage: ncsc [OPTIONS] [INPUT]...\n\n" ++
  "  -l, --list <FILE>    compile the scripts named in a list file, one per line\n" ++
  "  -o, --output <FILE>  output file (single input only)\n" ++
  "  -i, --include <DIR>  additional include directory; may be repeated\n" ++
  "  -g, --debug          compile in debug mode\n" ++
  "  -d, --directory      treat inputs as directories and compile every .nss below them\n" ++
  "      --disasm         print the instruction listing of compiled .ncs files\n" ++
  "  -v, --verbose        also print the diagnostics of includes\n" ++
  "  -h, --help           print help\n" ++
  "  -V, --version        print version\n"

/-- The version of the command. -/
def version : String := "ncsc-cli 0.1.0\n"

/-- Runs the command on the files below the working directory. -/
def run (args : List String) (files : FileTree) : Outcome :=
  match Arguments.read args with
  | .ok a => execute a files
  | .error .help => { exitCode := 0, stdout := usage, stderr := "", files }
  | .error .version => { exitCode := 0, stdout := version, stderr := "", files }
  | .error .misuse => { exitCode := 2, stdout := "", stderr := usage, files }

end Command
end Nss
