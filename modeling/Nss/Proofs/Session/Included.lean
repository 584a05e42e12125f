/-
# Units that a session takes for includes

In a new session, a unit is reported as an include exactly if the parser finds no declaration of an
entry point in it or in what it includes.  A script whose `main` is broken off before its end has no
such declaration: it is passed over as an include.
-/
import Nss.Proofs.Unit.Entry
import Nss.Session

namespace Nss

namespace Session

variable {s : Session} {files : FileTree} {unitPath : String} {source : Bytes} {loader : Loader}

/-! ## Units at the beginning of a pass -/

/-- A unit as a pass begins with it, once its key is registered. -/
def opened (s : Session) (registration : Registration) (i : Instance) : Instance :=
  let registered := { i with registration := some registration }
  if s.options.debug then registered.applyFlags s.options.flags else registered

theorem openUnit_eq (s : Session) (unitPath : String) (source : Bytes) (owns : Bool)
    (r : Registry) :
    s.openUnit unitPath source owns r
      = (Instance.begin? addressable (IncludeKey.ofPath unitPath) source s.options.debug owns).map
          fun i => (s.opened (r.register (IncludeKey.ofPath unitPath)).1 i,
            (r.register (IncludeKey.ofPath unitPath)).2) := by
  rw [openUnit, Instance.create]
  cases Instance.begin? addressable (IncludeKey.ofPath unitPath) source s.options.debug owns with
  | error e => rfl
  | ok i => rfl

/-- What holds of a unit as a pass begins with it. -/
structure Opened (unitPath : String) (source : Bytes) (i : Instance) : Prop where
  roomy : i.Roomy
  name : i.name = IncludeKey.ofPath unitPath
  source : i.source.bytes? = some source
  isInclude : i.isInclude = false
  errors : i.errors = 0
  tables : i.tables = none
  output : ∃ capacity, addressable capacity = true ∧ i.output = some ⟨[], capacity⟩
  fresh : i.Fresh

theorem opened_of_begin? {owns : Bool} {registration : Registration} {i : Instance}
    (h : Instance.begin? addressable (IncludeKey.ofPath unitPath) source s.options.debug owns = .ok i) :
    Opened unitPath source (s.opened registration i) := by
  obtain ⟨halive, hbuffer, hgranted⟩ := Instance.roomy_of_begin? h
  obtain ⟨hname, hsource, hinclude⟩ := Instance.named_of_begin? h
  obtain ⟨-, -, -, herrors, -⟩ := Instance.blank_of_begin? h
  obtain ⟨houtput, hcapacity, htables⟩ := Instance.output_of_begin? h
  obtain ⟨hrecords, hdefined, -, hwindow⟩ := Instance.fresh_of_begin? h
  rw [opened]
  split
  · exact ⟨⟨halive, hbuffer, hgranted⟩, hname, hsource, hinclude, herrors, htables,
      ⟨_, hcapacity, houtput⟩, hrecords, hdefined, herrors, hwindow⟩
  · exact ⟨⟨halive, hbuffer, hgranted⟩, hname, hsource, hinclude, herrors, htables,
      ⟨_, hcapacity, houtput⟩, hrecords, hdefined, herrors, hwindow⟩

/-! ## The first pass of a new session -/

theorem emit_eq_ok {mode : EmitMode} {i : Instance} {r : Registry} {symbols : Symbols}
    {pass : Pass} (h : (s.emit loader mode i r symbols).1 = .ok pass) :
    ∃ t, Emit.root s.front loader mode (.start i [] r symbols) = .ok () t ∧
      pass = ⟨t.current, t.symbols⟩ := by
  simp only [emit, emitRoot_cons] at h
  cases hroot : Emit.root s.front loader mode (.start i [] r symbols) with
  | error e t =>
      rw [hroot] at h
      cases h
  | ok u t =>
      rw [hroot] at h
      exact ⟨t, rfl, (Except.ok.inj h).symm⟩

theorem registration_opened (s : Session) (registration : Registration) (i : Instance) :
    (s.opened registration i).registration = some registration := by
  rw [opened]
  split
  · rfl
  · rfl

/-- A unit that was not met before is emitted in full. -/
theorem firstPass_eq_ok {first : Pass} (hnew : s.registry.contains (IncludeKey.ofPath unitPath) = false)
    (h : (s.firstPass unitPath source loader).1 = .ok first) :
    ∃ i t, Opened unitPath source i ∧
      Emit.root s.front loader .full
        (.start i [] (s.registry.register (IncludeKey.ofPath unitPath)).2 .empty) = .ok () t ∧
      first = ⟨t.current, t.symbols⟩ := by
  rw [firstPass, openUnit_eq] at h
  cases hbegin : Instance.begin? addressable (IncludeKey.ofPath unitPath) source s.options.debug
    false with
  | error e =>
      rw [hbegin] at h
      cases h
  | ok i =>
      rw [hbegin] at h
      dsimp only [Except.map] at h
      have hregister : (s.registry.register (IncludeKey.ofPath unitPath)).1 = .new := by
        rw [Registry.register, if_neg (by rw [hnew]; nofun)]
      rw [registration_opened, hregister, if_neg (by decide)] at h
      obtain ⟨t, hroot, rfl⟩ := emit_eq_ok h
      exact ⟨_, t, opened_of_begin? hbegin, hroot, rfl⟩

/-- A unit is marked by the first pass exactly if no entry point is declared. -/
theorem isInclude_firstPass {first : Pass}
    (hnew : s.registry.contains (IncludeKey.ofPath unitPath) = false)
    (h : (s.firstPass unitPath source loader).1 = .ok first) :
    (first.unit.isInclude = true ↔
      ∀ decl ∈ Expanded.allDeclarations (Expanded.ofRoot s.front loader
        (s.registry.register (IncludeKey.ofPath unitPath)).2 (IncludeKey.ofPath unitPath) source),
        decl.isEntry = false) ∧
      (first.unit.isInclude = true → 0 < first.unit.errors) := by
  obtain ⟨i, t, hopened, hroot, rfl⟩ := firstPass_eq_ok hnew h
  have hmarked := Emit.isInclude_root hopened.roomy hopened.source hopened.isInclude hroot
  rw [hopened.name] at hmarked
  exact hmarked

/-! ## The way of a unit -/

theorem afterFirst_eq_done {first : Pass} {report : Report}
    (h : s.afterFirst unitPath source loader first = .ok (.done report)) :
    report.status = .included ↔ 0 < first.unit.errors ∧ first.unit.isInclude = true := by
  simp only [afterFirst] at h
  split at h
  · next hinclude =>
      obtain rfl := Compiled.done.inj (Except.ok.inj h)
      exact ⟨fun _ => hinclude, fun _ => rfl⟩
  · next hinclude =>
      have hfailed : report.status = .failed := by
        split at h
        · obtain ⟨second, -, h⟩ := Steps.except_bind_eq_ok.mp h
          split at h
          · obtain rfl := Compiled.done.inj (Except.ok.inj h)
            rfl
          · cases h
        · obtain ⟨i, -, h⟩ := Steps.except_bind_eq_ok.mp h
          cases h
      rw [hfailed]
      exact ⟨nofun, fun h => absurd h hinclude⟩

theorem afterFirst_eq_main {first pass : Pass} {trace : List Stage}
    (h : s.afterFirst unitPath source loader first = .ok (.main trace pass)) :
    ¬ (0 < first.unit.errors ∧ first.unit.isInclude = true) := by
  simp only [afterFirst] at h
  split at h
  · cases h
  · next hinclude => exact hinclude

theorem status_serialize (files : FileTree) (trace : List Stage) (pass : Pass)
    (outputPath : Option String) :
    (s.serialize files trace pass outputPath).1.status ≠ .included := by
  rw [serialize]
  dsimp only
  split
  · nofun
  · nofun

/-- In a new session, a unit is reported as an include exactly if neither it nor what it includes
declares an entry point. -/
theorem compileSource_included_iff {options : Options} {front : FrontEnd}
    {outputPath : Option String} {report : Report}
    (h : ((start options front).compileSource files unitPath source loader outputPath).1
      = .ok report) :
    report.status = .included ↔
      ∀ decl ∈ Expanded.allDeclarations (Expanded.ofRoot front loader
        (Registry.empty.register (IncludeKey.ofPath unitPath)).2 (IncludeKey.ofPath unitPath) source),
        decl.isEntry = false := by
  simp only [compileSource] at h
  cases hfirst : ((start options front).firstPass unitPath source loader).1 with
  | error e =>
      rw [hfirst] at h
      cases h
  | ok first =>
      obtain ⟨hmarked, herrors⟩ := isInclude_firstPass rfl hfirst
      have hiff : (0 < first.unit.errors ∧ first.unit.isInclude = true) ↔ _ :=
        Iff.trans ⟨And.right, fun h => ⟨herrors h, h⟩⟩ hmarked
      refine Iff.trans ?_ hiff
      rw [hfirst] at h
      cases hafter : (start options front).afterFirst unitPath source loader first with
      | error e =>
          simp only [Except.bind, hafter] at h
          cases h
      | ok compiled =>
          cases compiled with
          | done report' =>
              simp only [Except.bind, hafter] at h
              obtain rfl := Except.ok.inj h
              exact afterFirst_eq_done hafter
          | main trace pass =>
              simp only [Except.bind, hafter] at h
              obtain rfl := Except.ok.inj h
              exact ⟨fun hstatus => absurd hstatus (status_serialize _ _ _ _),
                fun hboth => absurd hboth (afterFirst_eq_main hafter)⟩

/-! ### A library, and a script that is broken off -/

/-- A function without an entry point. -/
def library : Bytes := Bytes.ofText "int Twice(int n) { return n + n; }"

/-- The options that are meant if none are given. -/
def plainOptions : Options := ⟨false, [], none, none⟩

theorem compileSource_included_iff_library :
    ∃ report, ((start plainOptions scriptFrontEnd).compileSource .empty "lib.nss" library
        (.ofSources []) none).1 = .ok report ∧ report.status = .included ∧
      ∀ decl ∈ Expanded.allDeclarations (Expanded.ofRoot scriptFrontEnd (.ofSources [])
        (Registry.empty.register (IncludeKey.ofPath "lib.nss")).2 (IncludeKey.ofPath "lib.nss")
          library), decl.isEntry = false := by
  have hstatus : ((start plainOptions scriptFrontEnd).compileSource .empty "lib.nss" library
      (.ofSources []) none).1.toOption.map Report.status = some .included := by decide +kernel
  cases h : ((start plainOptions scriptFrontEnd).compileSource .empty "lib.nss" library
      (.ofSources []) none).1 with
  | error e =>
      rw [h] at hstatus
      cases hstatus
  | ok report =>
      rw [h] at hstatus
      have hincluded := Option.some.inj hstatus
      exact ⟨report, rfl, hincluded, (compileSource_included_iff h).mp hincluded⟩

/-- The name in the header of a function: a type, a name and an opening parenthesis. -/
def headerName : ScriptParser String := do
  let _ ← ScriptParser.valueType
  let name ← ScriptParser.expect .ident "identifier"
  let _ ← ScriptParser.expect .lParen "("
  return name.text

/-- The name of the function that a unit begins with. -/
def firstHeader? (text : String) : Option String :=
  match headerName (.start (Lexed.ofSource text)) with
  | .ok name _ => some name
  | .error _ _ => none

/-- A script that ends behind the opening brace of its `main`. -/
def brokenOff : String := "void main() \x7b"

/-- The header of `main` is read, and the script is reported as an include all the same. -/
theorem compileSource_brokenOff :
    firstHeader? brokenOff = some "main" ∧
      ((start plainOptions scriptFrontEnd).compileSource .empty "broken.nss"
        (Bytes.ofText brokenOff) (.ofSources []) none).1.toOption.map Report.status
          = some .included := by
  decide +kernel

end Session

end Nss
