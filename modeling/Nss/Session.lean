/-
# Sessions

A session compiles one unit after the other.  The units that it includes are kept in a registry that
lives as long as the session.

A unit is first compiled against that registry.  One without an entry point is an include.  A main
script with errors, or one that was met before as an include and so is only looked through, is
compiled a second time, with a registry of its own and with the functions that the first pass saw,
so that calls to functions further down can be resolved.  What comes out of it without errors is
assembled and written.

    start → parsed → [includeAlreadyDone →] includeAccepted
                   → mainWithErrors → rejected
                   → [mainWithErrors →] mainClean → serializedOk
                                                  → serializedFail
-/
import Nss.Unit.Emission
import Nss.Program.Assembly
import Nss.Syntax.Parser.Event

namespace Nss

/-- What a session is asked for. -/
structure Options where
  debug : Bool
  /-- Directories that includes are searched in behind that of the script. -/
  includeDirs : List String
  /-- The file to be written, whatever the script is called. -/
  output : Option String
  /-- The directory for files named after their scripts. -/
  outputDir : Option String
deriving DecidableEq, Repr, Inhabited

/-- The flags of every unit. -/
def Options.flags (o : Options) : UInt8 := if o.debug then OutputTables.debugFlag else 0

/-- What became of a unit. -/
inductive Status where
  | failed
  | compiled
  | included
deriving DecidableEq, Repr, Inhabited

namespace Status

/-- The number that stands for a status. -/
def code : Status → Nat
  | failed => 0
  | compiled => 1
  | included => 2

/-- The word for a status. -/
def label : Status → String
  | failed => "failed"
  | compiled => "passed"
  | included => "include"

end Status

/-- A stage on the way of a unit. -/
inductive Stage where
  | start
  | parsed
  | includeAlreadyDone
  | mainWithErrors
  | mainClean
  | serializedOk
  | serializedFail
  | includeAccepted
  | rejected
deriving DecidableEq, Repr, Inhabited

/-- What became of a unit, and how. -/
structure Report where
  unit : String
  status : Status
  trace : List Stage
  diagnostics : List Diagnostic
  output : Option String
  layout : List FunctionLayout
  error : Option Error
deriving Repr, Inhabited

namespace Report

/-- The report on a unit whose way ended before anything came of it. -/
def aborted (unit : String) (error : Error) : Report :=
  { unit, status := .failed, trace := [.start], diagnostics := [], output := none, layout := []
    error := some error }

/-- The number of errors in a report. -/
def errorCount (r : Report) : Nat := Diagnostic.errorCount r.diagnostics

end Report

/-- A run of the compiler. -/
structure Session where
  options : Options
  front : FrontEnd
  registry : Registry

/-- The parser of scripts. -/
def scriptFrontEnd : FrontEnd := fun _ source => Event.ofSource source

namespace Session

/-- A session at its beginning. -/
def start (options : Options) (front : FrontEnd) : Session := ⟨options, front, .empty⟩

/-- The file to be written for a script, if no other one is asked for. -/
def derivedOutput (s : Session) (source : String) : String :=
  let derived := Path.ofOutput source
  match s.options.outputDir, Path.fileName? derived with
  | some dir, some name => Path.join dir (String.ofList name)
  | _, _ => derived

/-! ## Passes -/

/-- What a pass over a unit leaves. -/
structure Pass where
  unit : Instance
  symbols : Symbols
deriving Repr, Inhabited

/-- The instance of a unit as a pass begins with it. -/
def openUnit (s : Session) (unitPath : String) (source : Bytes) (ownsRegistry : Bool)
    (registry : Registry) : Except Error (Instance × Registry) := do
  let (i, registry) ← Instance.create addressable (IncludeKey.ofPath unitPath) source
    (some unitPath) s.options.debug ownsRegistry registry
  return (if s.options.debug then i.applyFlags s.options.flags else i, registry)

/-- Emits a unit, and gives what that leaves, with the registry. -/
def emit (s : Session) (loader : Loader) (mode : EmitMode) (i : Instance) (registry : Registry)
    (symbols : Symbols) : Except Error Pass × Registry :=
  let e := emitRoot s.front loader mode [i] registry symbols
  match e.outcome, e.stack with
  | .error error, _ => (.error error, e.registry)
  | .ok _, [] => (.error .instanceDestroyed, e.registry)
  | .ok _, unit :: _ => (.ok { unit, symbols := e.symbols }, e.registry)

/-- The first pass, against the registry of the session.  A unit that was met before is only looked
through. -/
def firstPass (s : Session) (unitPath : String) (source : Bytes) (loader : Loader) :
    Except Error Pass × Registry :=
  match s.openUnit unitPath source false s.registry with
  | .error e => (.error e, s.registry)
  | .ok (i, registry) =>
    let mode := if i.registration = some .alreadyProcessed then .scanOnly else .full
    s.emit loader mode i registry .empty

/-- The second pass, with a registry of its own and the functions that the first one saw. -/
def secondPass (s : Session) (unitPath : String) (source : Bytes) (loader : Loader)
    (seen : Symbols) : Except Error Pass := do
  let (i, registry) ← s.openUnit unitPath source true .empty
  let i ← i.finalize s.options.flags
  (s.emit loader .full i registry seen.seededFrom).1

/-! ## The way of a unit -/

/-- What the passes make of a unit: a report, if that is all, and else a main script to be
written. -/
inductive Compiled where
  | done (report : Report)
  | main (trace : List Stage) (pass : Pass)
deriving Repr, Inhabited

/-- The report on a unit that was not written. -/
def unwritten (status : Status) (trace : List Stage) (i : Instance) : Report :=
  { unit := i.name, status, trace, diagnostics := i.diagnostics, output := none, layout := []
    error := none }

/-- Goes on from the first pass. -/
def afterFirst (s : Session) (unitPath : String) (source : Bytes) (loader : Loader)
    (first : Pass) : Except Error Compiled := do
  let alreadyDone : Bool := first.unit.registration = some .alreadyProcessed
  if 0 < first.unit.errors ∧ first.unit.isInclude then
    let trace := [.start, .parsed] ++ (if alreadyDone then [.includeAlreadyDone] else [])
      ++ [.includeAccepted]
    return .done (unwritten .included trace first.unit)
  else if 0 < first.unit.errors ∨ alreadyDone then
    let second ← s.secondPass unitPath source loader first.symbols
    if 0 < second.unit.errors then
      return .done (unwritten .failed [.start, .parsed, .mainWithErrors, .rejected] second.unit)
    else return .main [.start, .parsed, .mainWithErrors, .mainClean] second
  else
    let i ← first.unit.finalize s.options.flags
    return .main [.start, .parsed, .mainClean] { first with unit := i }

/-- Writes a main script, to the file that is asked for or else to `outputPath`. -/
def serialize (s : Session) (files : FileTree) (trace : List Stage) (pass : Pass)
    (outputPath : Option String) : Report × FileTree :=
  let (i, files', written) := Program.write pass.symbols s.options.output outputPath pass.unit files
  let report (status : Status) (stage : Stage) : Report :=
    { unwritten status (trace ++ [stage]) i with unit := pass.unit.name }
  match written with
  | .ok (artifact, path) =>
    ({ report .compiled .serializedOk with output := some path, layout := artifact.layout }, files')
  | .error e => ({ report .failed .serializedFail with error := some e }, files')

/-- Compiles a unit held in memory. -/
def compileSource (s : Session) (files : FileTree) (unitPath : String) (source : Bytes)
    (loader : Loader) (outputPath : Option String) :
    Except Error Report × Session × FileTree :=
  let (first, registry) := s.firstPass unitPath source loader
  let s' := { s with registry }
  match first.bind (s.afterFirst unitPath source loader) with
  | .error e => (.error e, s', files)
  | .ok (.done report) => (.ok report, s', files)
  | .ok (.main trace pass) =>
    let (report, files') := s.serialize files trace pass outputPath
    (.ok report, s', files')

/-- Compiles the unit in a file, which may be named without its extension.  Included units are
searched next to it and then in the directories that are asked for. -/
def compileFile (s : Session) (files : FileTree) (path : String) :
    Except Error Report × Session × FileTree :=
  let sourcePath := Path.ofScript path
  match Loader.readSource files sourcePath with
  | .error e => (.error e, s, files)
  | .ok source =>
    let base := match Path.parent? sourcePath with
      | none | some "" => "."
      | some dir => dir
    s.compileSource files sourcePath source (.ofDirs files (base :: s.options.includeDirs))
      (some (s.derivedOutput sourcePath))

end Session
end Nss
