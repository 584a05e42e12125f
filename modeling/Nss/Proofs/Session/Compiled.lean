/-
# What stands behind a unit that was compiled

A unit is reported as compiled once its script was written.  The script was assembled from what one
pass over the unit left without an error:

| way | the pass | its registry | its symbol table |
| :-- | :-- | :-- | :-- |
| `mainClean` | the first one | that of the session | empty |
| `mainWithErrors`, `mainClean` | the second one | its own | seeded from the first one |

Either way, the program is made of the declarations of the unit and of all that the pass includes
(`Compiles.comesFrom`).
-/
import Nss.Proofs.Session.Reports
import Nss.Proofs.Unit.Origins

namespace Nss

open Steps

namespace Instance

variable {i j : Instance} {flags : UInt8}

theorem Blank.finalize (h : i.Blank) (hfinal : i.finalize flags = .ok j) : j.Blank := by
  obtain ⟨-, -, rfl⟩ := finalize_eq_ok.mp hfinal
  exact ⟨h.records, h.defined⟩

theorem records_finalize (hfinal : i.finalize flags = .ok j) : j.records = i.records := by
  obtain ⟨-, -, rfl⟩ := finalize_eq_ok.mp hfinal
  rfl

end Instance

namespace Session

variable {s : Session} {files : FileTree} {unitPath : String} {source : Bytes} {loader : Loader}
  {outputPath : Option String} {report : Report} {pass : Pass} {artifact : Artifact}

/-- The registry that the pass behind a report began with. -/
def passRegistry (s : Session) (unitPath : String) (report : Report) : Registry :=
  ((if .mainWithErrors ∈ report.trace then Registry.empty else s.registry).register
    (IncludeKey.ofPath unitPath)).2

/-- The declarations of a unit, and of all that the pass behind a report included. -/
def declarations (s : Session) (unitPath : String) (source : Bytes) (loader : Loader)
    (report : Report) : List Declaration :=
  Expanded.allDeclarations (Expanded.ofRoot s.front loader (s.passRegistry unitPath report)
    (IncludeKey.ofPath unitPath) source)

/-- What a report on a compiled unit is about: the pass that came out of it, and the script that was
assembled from that and written. -/
structure Compiles (s : Session) (files : FileTree) (unitPath : String) (source : Bytes)
    (loader : Loader) (outputPath : Option String) (report : Report) (pass : Pass)
    (artifact : Artifact) : Prop where
  main : ∃ first trace, (s.firstPass unitPath source loader).1 = .ok first ∧
    s.afterFirst unitPath source loader first = .ok (.main trace pass) ∧
    report.trace = trace ++ [.serializedOk]
  assembled : ∃ i, Program.assemble pass.symbols pass.unit = .ok artifact i
  layout : report.layout = artifact.layout
  written : ∃ path, report.output = some path ∧
    (s.compileSource files unitPath source loader outputPath).2.2.read path = .ok artifact.bytes

/-- A main script is reported as compiled once it is assembled and written. -/
theorem serialize_compiled {trace : List Stage}
    (h : (s.serialize files trace pass outputPath).1.status = .compiled) :
    (s.serialize files trace pass outputPath).1.trace = trace ++ [.serializedOk] ∧
      ∃ artifact, (∃ i, Program.assemble pass.symbols pass.unit = .ok artifact i) ∧
        (s.serialize files trace pass outputPath).1.layout = artifact.layout ∧
        ∃ path, (s.serialize files trace pass outputPath).1.output = some path ∧
          (s.serialize files trace pass outputPath).2.read path = .ok artifact.bytes := by
  rw [serialize] at h ⊢
  rcases hwrite : Program.write pass.symbols s.options.output outputPath pass.unit files
    with ⟨i, files', e | ⟨artifact, path⟩⟩
  · rw [hwrite] at h
    cases h
  · obtain ⟨hassemble, hread⟩ := Program.write_eq_ok hwrite
    exact ⟨rfl, artifact, ⟨i, hassemble⟩, rfl, path, rfl, hread⟩

/-- What is seen of a report is seen of one that was made. -/
theorem exists_report {α : Type} {result : Except Error Report} {view : Report → α} {a : α}
    (h : result.toOption.map view = some a) : ∃ report, result = .ok report ∧ view report = a := by
  cases result with
  | error e => cases h
  | ok report => exact ⟨report, rfl, Option.some.inj h⟩

/-- Behind every report on a compiled unit, there is a pass and a script. -/
theorem exists_compiles
    (h : (s.compileSource files unitPath source loader outputPath).1 = .ok report)
    (hcompiled : report.status = .compiled) :
    ∃ pass artifact, s.Compiles files unitPath source loader outputPath report pass artifact := by
  have heq := compileSource.eq_def s files unitPath source loader outputPath
  dsimp only at heq
  cases hfirst : (s.firstPass unitPath source loader).1 with
  | error e =>
      rw [hfirst] at heq
      rw [heq] at h
      cases h
  | ok first =>
      rw [hfirst] at heq
      cases hafter : s.afterFirst unitPath source loader first with
      | error e =>
          simp only [Except.bind, hafter] at heq
          rw [heq] at h
          cases h
      | ok compiled =>
          simp only [Except.bind, hafter] at heq
          have honward := onward_of_afterFirst hafter
          cases compiled with
          | done report' =>
              dsimp only at heq
              rw [heq] at h
              obtain rfl := Except.ok.inj h
              cases honward with
              | included | includedAgain | rejected => cases hcompiled
          | main trace pass =>
              dsimp only at heq
              rw [heq] at h
              obtain rfl := Except.ok.inj h
              obtain ⟨htrace, artifact, hassembled, hlayout, path, houtput, hread⟩ :=
                serialize_compiled hcompiled
              refine ⟨pass, artifact, ⟨first, trace, hfirst, hafter, htrace⟩, hassembled, hlayout,
                path, houtput, ?_⟩
              rw [heq]
              exact hread

/-- The pass over a unit that its script is assembled from, if it comes to that. -/
def scriptPass? (s : Session) (unitPath : String) (source : Bytes) (loader : Loader) : Option Pass :=
  match (s.firstPass unitPath source loader).1.bind (s.afterFirst unitPath source loader) with
  | .ok (.main _ pass) => some pass
  | _ => none

theorem Compiles.scriptPass?_eq
    (h : s.Compiles files unitPath source loader outputPath report pass artifact) :
    s.scriptPass? unitPath source loader = some pass := by
  obtain ⟨first, trace, hfirst, hafter, -⟩ := h.main
  rw [scriptPass?, hfirst, Except.bind, hafter]

/-- A script that was assembled begins with a function. -/
theorem Compiles.exists_entry
    (h : s.Compiles files unitPath source loader outputPath report pass artifact) :
    ∃ entry, pass.symbols.entryPoint = .ok entry := by
  obtain ⟨i, hassemble⟩ := h.assembled
  rw [Program.assemble] at hassemble
  obtain ⟨entry, _, hstep, -⟩ := bind_eq_ok.mp hassemble
  exact ⟨entry, (Program.orStop_eq_ok.mp hstep).1⟩

/-- The pass of a unit that comes to be written: the second one, or else the first one if there are no
errors in it and the unit was not registered before. -/
theorem afterFirst_eq_main_cases {first : Pass} {trace : List Stage}
    (h : s.afterFirst unitPath source loader first = .ok (.main trace pass)) :
    (.mainWithErrors ∈ trace ∧ s.secondPass unitPath source loader first.symbols = .ok pass ∧
        pass.unit.errors = 0) ∨
      (.mainWithErrors ∉ trace ∧ first.unit.registration ≠ some .alreadyProcessed ∧
        first.unit.errors = 0 ∧ ∃ unit, first.unit.finalize s.options.flags = .ok unit ∧
          pass = { first with unit }) := by
  simp only [afterFirst] at h
  split at h
  · cases Except.ok.inj h
  · split at h
    · obtain ⟨second, hsecond, h⟩ := except_bind_eq_ok.mp h
      split at h
      · cases Except.ok.inj h
      · next herrors =>
          obtain ⟨rfl, rfl⟩ := Compiled.main.inj (Except.ok.inj h)
          exact .inl ⟨by decide, hsecond, Nat.eq_zero_of_not_pos herrors⟩
    · next hclean =>
        obtain ⟨herrors, hnew⟩ := not_or.mp hclean
        obtain ⟨unit, hfinal, h⟩ := except_bind_eq_ok.mp h
        obtain ⟨rfl, rfl⟩ := Compiled.main.inj (Except.ok.inj h)
        exact .inr ⟨by decide, by simpa using hnew, Nat.eq_zero_of_not_pos herrors, unit, hfinal, rfl⟩

/-- No variable in the table that a first pass leaves is `void`. -/
theorem nonVoid_firstPass (hfront : s.front = scriptFrontEnd) {first : Pass}
    (h : (s.firstPass unitPath source loader).1 = .ok first) : first.symbols.NonVoid := by
  rw [firstPass, openUnit_eq] at h
  cases hbegin : Instance.begin? addressable (IncludeKey.ofPath unitPath) source s.options.debug
    false with
  | error e =>
      rw [hbegin] at h
      cases h
  | ok i =>
      rw [hbegin] at h
      obtain ⟨t, hroot, rfl⟩ := emit_eq_ok h
      rw [hfront] at hroot
      exact Emit.root_nonVoid Symbols.scripted_empty hroot

/-- A full pass without errors leaves a program that is made of declarations. -/
theorem comesFrom_of_root (hfront : s.front = scriptFrontEnd) {i : Instance} {r : Registry}
    {symbols : Symbols} {t : EmitState} (hi : i.Roomy) (hblank : i.Blank) (hzero : i.errors = 0)
    {name : String} (hname : i.name = name) (hsource : i.source.bytes? = some source)
    (hscripted : symbols.Scripted) (hbodies : ∀ id, symbols.body? id = none)
    (hglobals : symbols.globals = [])
    (h : Emit.root s.front loader .full (.start i [] r symbols) = .ok () t)
    (herrors : t.current.errors = 0) :
    t.symbols.ComesFrom t.current.records
      (Expanded.allDeclarations (Expanded.ofRoot s.front loader r name source)) := by
  rw [hfront] at h ⊢
  rw [← hname]
  exact Emit.root_comesFrom hi hblank hscripted hbodies hglobals hsource h
    (herrors.trans hzero.symm)

/-- The program of a compiled unit is made of the declarations of the unit and of what its pass
includes. -/
theorem Compiles.comesFrom (hfront : s.front = scriptFrontEnd)
    (h : s.Compiles files unitPath source loader outputPath report pass artifact) :
    pass.symbols.ComesFrom pass.unit.records (s.declarations unitPath source loader report) := by
  obtain ⟨first, trace, hfirst, hafter, htrace⟩ := h.main
  rw [declarations, passRegistry, htrace]
  rcases afterFirst_eq_main_cases hafter with ⟨hway, hsecond, herrors⟩ |
    ⟨hway, hnew, herrors, unit, hfinal, rfl⟩
  · rw [if_pos (List.mem_append_left _ hway)]
    rw [secondPass_eq] at hsecond
    obtain ⟨i, hbegin, hsecond⟩ := except_bind_eq_ok.mp hsecond
    obtain ⟨j, hfinal, hemit⟩ := except_bind_eq_ok.mp hsecond
    obtain ⟨t, hroot, rfl⟩ := emit_eq_ok hemit
    have hopened : Opened unitPath source
        (s.opened (Registry.empty.register (IncludeKey.ofPath unitPath)).1 i) :=
      opened_of_begin? hbegin
    obtain ⟨hroomy, hname, hsource, hzero, -⟩ := hopened.finalize hfinal
    have hblank : Instance.Blank _ := ⟨hopened.fresh.records, hopened.fresh.defined⟩
    exact comesFrom_of_root hfront hroomy (hblank.finalize hfinal) hzero hname hsource
      (Symbols.scripted_seededFrom (nonVoid_firstPass hfront hfirst)) (Symbols.body?_seededFrom _)
      rfl hroot herrors
  · have hregistered : Stage.mainWithErrors ∉ trace ++ [.serializedOk] := by simpa using hway
    rw [if_neg hregistered, Instance.records_finalize hfinal]
    rw [Ne, (firstPass_counted hfirst).2, Bool.not_eq_true] at hnew
    obtain ⟨i, t, hopened, hroot, rfl⟩ := firstPass_eq_ok hnew hfirst
    exact comesFrom_of_root hfront hopened.roomy ⟨hopened.fresh.records, hopened.fresh.defined⟩
      hopened.errors hopened.name hopened.source Symbols.scripted_empty (fun _ => rfl) rfl hroot
      herrors

end Session

end Nss
