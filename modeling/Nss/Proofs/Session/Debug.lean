/-
# Debug mode

Debug mode decides who holds the sources of the units, how these are flagged, and what is given back
when one is destroyed.  Nothing of that is ever looked at: two sessions that are alike but for debug
mode do the same with the same units, call by call, whatever else happens to the files between two
calls.
-/
import Nss.Proofs.Places.Session
import Nss.Proofs.Session.Alone

namespace Nss

namespace Session

/-- The session in debug mode, or out of it. -/
def inDebug (s : Session) (debug : Bool) : Session := { s with options := { s.options with debug } }

theorem inDebug_start (options : Options) (front : FrontEnd) (debug : Bool) :
    (start options front).inDebug debug = start { options with debug } front := rfl

/-! ## One unit -/

/-- All is seen of a unit, in debug mode or not. -/
theorem inView_inDebug (s : Session) (debug : Bool) (unitPath : String) (source : Bytes)
    (loader : Loader) : InView .whole s (s.inDebug debug) unitPath source source loader loader where
  output := rfl
  registry := rfl
  text := rfl
  content _ _ := rfl

theorem map_viewed_whole (x : Except Error Report) : x.map (Report.viewed .whole) = x := by
  cases x with
  | error e => rfl
  | ok report => exact congrArg Except.ok report.viewed_whole

/-- A unit is compiled to the same in debug mode, and the session goes on in debug mode. -/
theorem compileSource_inDebug (s : Session) (debug : Bool) (files : FileTree) (unitPath : String)
    (source : Bytes) (loader : Loader) (outputPath : Option String) :
    (s.inDebug debug).compileSource files unitPath source loader outputPath
      = ((s.compileSource files unitPath source loader outputPath).1,
          (s.compileSource files unitPath source loader outputPath).2.1.inDebug debug,
          (s.compileSource files unitPath source loader outputPath).2.2) := by
  obtain ⟨hreport, hregistry, hfiles⟩ :=
    compileSource_viewed (s.inView_inDebug debug unitPath source loader) files outputPath
  rw [map_viewed_whole, map_viewed_whole] at hreport
  rw [compileSource_session, compileSource_session] at hregistry
  refine Prod.ext hreport (Prod.ext ?_ hfiles)
  dsimp only
  rw [compileSource_session, compileSource_session]
  exact congrArg (fun r => { s.inDebug debug with registry := r }) hregistry

/-! ## Sequences of calls -/

/-- A unit to be compiled.  The loader may read the files that are there when its turn comes. -/
structure Call where
  unitPath : String
  source : Bytes
  loader : FileTree → Loader
  outputPath : Option String

/-- What a call gives, and what it leaves: the registered keys and the files. -/
structure Outcome where
  result : Except Error Report
  keys : List String
  files : FileTree

/-- The outcomes of calls one after the other. -/
def outcomes (s : Session) (files : FileTree) : List Call → List Outcome
  | [] => []
  | call :: rest =>
    let (result, s', files') :=
      s.compileSource files call.unitPath call.source (call.loader files) call.outputPath
    ⟨result, s'.registry.keys, files'⟩ :: outcomes s' files' rest

theorem outcomes_inDebug (debug : Bool) (calls : List Call) :
    ∀ (s : Session) (files : FileTree), (s.inDebug debug).outcomes files calls = s.outcomes files calls := by
  induction calls with
  | nil => exact fun _ _ => rfl
  | cons call rest ih =>
      intro s files
      have hregistry (t : Session) : (t.inDebug debug).registry = t.registry := rfl
      simp only [outcomes, compileSource_inDebug, hregistry, ih]

/-- Two new sessions whose options differ in debug mode only have the same outcomes. -/
theorem outcomes_start_debug (options : Options) (debug : Bool) (front : FrontEnd) (files : FileTree)
    (calls : List Call) :
    (start { options with debug } front).outcomes files calls
      = (start options front).outcomes files calls := by
  rw [← inDebug_start]
  exact outcomes_inDebug debug calls (start options front) files

end Session

end Nss
