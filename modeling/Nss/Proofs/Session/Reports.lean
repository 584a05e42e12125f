/-
# What a report says

The way of a unit and the report on it agree.  A way goes from stage to stage and ends in one of four
of them, and everything else in the report follows from that last stage:

| last stage | status | output, layout | error | errors among the diagnostics |
| :-- | :-- | :-- | :-- | :-- |
| `includeAccepted` | included | no | no | yes |
| `rejected` | failed | no | no | yes |
| `serializedOk` | compiled | yes | no | no |
| `serializedFail` | failed | no | yes | no |

Which way it is depends on whether the key of the unit was registered before.  Files are changed only
by a unit that is compiled, and then the file that is named holds the assembled script.

That the diagnostics of a unit without errors have none rests on `Instance.Counted`, which holds of
both passes.
-/
import Nss.Proofs.Unit.Enduring
import Nss.Proofs.Files.Writing
import Nss.Proofs.Session.Alone
import Nss.Proofs.Session.Order

namespace Nss

open Steps

/-! ## Ways -/

/-- What becomes of a unit whose way ends in a stage. -/
def Stage.status? : Stage → Option Status
  | .includeAccepted => some .included
  | .rejected | .serializedFail => some .failed
  | .serializedOk => some .compiled
  | .start | .parsed | .includeAlreadyDone | .mainWithErrors | .mainClean => none

/-- A stage that the way of a main script without errors ends in. -/
def Stage.EndsSerialization (last : Stage) : Prop := last = .serializedOk ∨ last = .serializedFail

/-- The ways of a unit, by whether its key was registered before: the stages before the last one, and
the last one. -/
inductive Stage.Way (registered : Bool) : List Stage → Stage → Prop
  | included : registered = false → Way registered [.start, .parsed] .includeAccepted
  | includedAgain : registered = true →
      Way registered [.start, .parsed, .includeAlreadyDone] .includeAccepted
  | rejected : Way registered [.start, .parsed, .mainWithErrors] .rejected
  | clean {last : Stage} : registered = false → last.EndsSerialization →
      Way registered [.start, .parsed, .mainClean] last
  | retried {last : Stage} : last.EndsSerialization →
      Way registered [.start, .parsed, .mainWithErrors, .mainClean] last

/-! ## Assembly -/

/-- Something about an instance that does not change when a script is made of it. -/
structure Instance.Lasts {β : Type} (π : Instance → β) : Prop where
  takeBuffer : ∀ i : Instance, π i.takeBuffer.2 = π i
  takeOutput : ∀ i : Instance, π i.takeOutput.2 = π i
  modifyTables : ∀ (i : Instance) (change : OutputTables → OutputTables),
    π (i.modifyTables change) = π i

theorem Instance.lasts_diagnostics : Lasts Instance.diagnostics :=
  ⟨fun _ => rfl, fun _ => rfl, fun _ _ => rfl⟩

namespace Program

/-- A step of an assembly leaves something about the instance as it is. -/
abbrev KeepsAbout {α β : Type} (π : Instance → β) (b : β) (p : Assemble α) : Prop :=
  Keeps (fun i : Instance => π i = b) (fun _ => True) p

variable {β : Type} {π : Instance → β} {b : β} {symbols : Symbols}

theorem keeps_orStop {α : Type} {x : Except Error α} {P : α → Prop} (h : ∀ a, x = .ok a → P a) :
    Keeps (fun i : Instance => π i = b) P (orStop x) := by
  cases x with
  | ok a => exact .pure (h a rfl)
  | error e => exact .throw e

theorem keeps_get : KeepsAbout π b (get : Assemble Instance) :=
  .of_ok (fun _ => rfl) fun _ hi => ⟨hi, trivial⟩

theorem keeps_modify {change : Instance → Instance} (h : ∀ i, π (change i) = π i) :
    KeepsAbout π b (modify change) :=
  .of_ok (fun i => modify_apply change i) fun i hi => ⟨(h i).trans hi, trivial⟩

section

variable (hπ : Instance.Lasts π)

include hπ

theorem keeps_takeRecords : KeepsAbout π b takeRecords :=
  .of_ok (fun _ => rfl) fun i hi => ⟨(hπ.takeBuffer i).trans hi, trivial⟩

theorem keeps_takeWindow : KeepsAbout π b takeWindow :=
  keeps_get.bind fun _ _ =>
    (keeps_orStop (P := fun _ => True) fun _ _ => trivial).bind fun _ _ =>
      .bind (keeps_modify hπ.takeOutput) fun _ _ => .pure trivial

theorem keeps_encodeFunctions (globals : Nat) (placed : List Placed) (ps : List Placed) :
    KeepsAbout π b (encodeFunctions globals placed ps) := by
  induction ps with
  | nil => exact .pure trivial
  | cons p rest ih =>
      refine .bind (keeps_modify fun i => hπ.modifyTables i _) fun _ _ => ?_
      exact (keeps_orStop (P := fun _ => True) fun _ _ => trivial).bind fun _ _ => ih

end

/-- There is a function in every script: the one that it begins with. -/
theorem layOut_ne_nil {records : Array Instruction} {entry : FunctionSymbol} {before : List FunctionSymbol}
    {reached : List FunctionSymbol} {at_ : Nat} {placed : List Placed}
    (hreached : reachable symbols records entry = .ok reached)
    (hplaced : layOut records at_ (before ++ reached) = .ok placed) : placed ≠ [] := by
  obtain ⟨seen, -, h⟩ := except_bind_eq_ok.mp hreached
  obtain rfl := Except.ok.inj h
  rintro rfl
  have hnone := (layOut_eq_ok.mp hplaced).1
  simp at hnone

/-- An assembly changes nothing about the instance but what it uses up, and gives a layout with a
function in it. -/
theorem keeps_assemble (hπ : Instance.Lasts π) :
    Keeps (fun i : Instance => π i = b) (fun artifact => artifact.layout ≠ [])
      (assemble symbols) := by
  refine (keeps_orStop (P := fun _ => True) fun _ _ => trivial).bind fun entry _ => ?_
  refine keeps_get.bind fun i _ => ?_
  dsimp only
  split
  · exact .bind (.throw (P := fun _ => False) _) fun _ h => h.elim
  · refine (keeps_takeRecords hπ).bind fun records _ => ?_
    refine (keeps_orStop fun _ h => h).bind fun reached hreached => ?_
    refine (keeps_orStop fun _ h => h).bind fun placed hplaced => ?_
    have hne := layOut_ne_nil hreached hplaced
    refine (keeps_orStop (P := fun _ => True) fun _ _ => trivial).bind fun _ _ => ?_
    refine (keeps_takeWindow hπ).bind fun window _ => ?_
    refine .bind (keeps_modify fun i => hπ.modifyTables i _) fun _ _ => ?_
    refine (keeps_encodeFunctions hπ _ _ _).bind fun _ _ => ?_
    refine keeps_get.bind fun j _ => ?_
    cases j.tables with
    | none => exact .throw _
    | some tables =>
        refine (keeps_orStop (P := fun _ => True) fun _ _ => trivial).bind fun _ _ => ?_
        exact .pure (by simpa using hne)

end Program

/-- A file that was written is read as the script that was assembled. -/
theorem Program.write_eq_ok {symbols : Symbols} {name path : Option String} {i i' : Instance}
    {files files' : FileTree} {artifact : Artifact} {target : String}
    (h : write symbols name path i files = (i', files', .ok (artifact, target))) :
    assemble symbols i = .ok artifact i' ∧ files'.read target = .ok artifact.bytes := by
  rw [write] at h
  cases hok : assemble symbols i with
  | error e j =>
      rw [hok] at h
      cases h
  | ok a j =>
      rw [hok] at h
      dsimp only at h
      cases htarget : name.or path with
      | none =>
          rw [htarget] at h
          cases h
      | some t =>
          rw [htarget] at h
          dsimp only at h
          rw [writeFile] at h
          cases hwrite : files.write t a.bytes with
          | error cause =>
              rw [hwrite] at h
              cases h
          | ok written =>
              rw [hwrite] at h
              cases h
              exact ⟨rfl, FileTree.read_write hwrite⟩

theorem Program.write_eq_error {symbols : Symbols} {name path : Option String} {i i' : Instance}
    {files files' : FileTree} {e : Error}
    (h : write symbols name path i files = (i', files', .error e)) : files' = files := by
  rw [write] at h
  cases hok : assemble symbols i with
  | error e j =>
      rw [hok] at h
      cases h
      rfl
  | ok a j =>
      rw [hok] at h
      dsimp only at h
      cases htarget : name.or path with
      | none =>
          rw [htarget] at h
          cases h
          rfl
      | some t =>
          rw [htarget] at h
          dsimp only at h
          rw [writeFile] at h
          cases hwrite : files.write t a.bytes with
          | error cause =>
              rw [hwrite] at h
              cases h
              rfl
          | ok written =>
              rw [hwrite] at h
              cases h

/-- Writing changes nothing about the instance but what it uses up. -/
theorem Program.lasts_write {β : Type} {π : Instance → β} (hπ : Instance.Lasts π) (symbols : Symbols)
    (name path : Option String) (i : Instance) (files : FileTree) :
    π (write symbols name path i files).1 = π i := by
  have hkept : (∀ a j, assemble symbols i = .ok a j → π j = π i ∧ a.layout ≠ []) ∧
      ∀ e j, assemble symbols i = .error e j → π j = π i :=
    keeps_assemble hπ i rfl
  rw [write]
  cases hok : assemble symbols i with
  | error e j => exact hkept.2 e j hok
  | ok artifact j =>
      have hj := (hkept.1 artifact j hok).1
      dsimp only
      split
      · exact hj
      · split
        · exact hj
        · exact hj

/-! ## Passes -/

theorem Diagnostic.exists_isError_iff (ds : List Diagnostic) :
    (∃ d ∈ ds, d.isError = true) ↔ 0 < errorCount ds :=
  List.countP_pos_iff.symm

namespace Session

variable {s : Session} {files : FileTree} {unitPath : String} {source : Bytes} {loader : Loader}
  {outputPath : Option String}

/-- A unit keeps its properties through a pass. -/
theorem emit_keeps {P Q : Instance → Prop} (hP : Instance.Enduring P Q)
    (hQ : Instance.Enduring Q Q) {mode : EmitMode} {i : Instance} {r : Registry} {symbols : Symbols}
    {pass : Pass} (hi : P i) (h : (s.emit loader mode i r symbols).1 = .ok pass) : P pass.unit := by
  obtain ⟨t, hroot, rfl⟩ := emit_eq_ok h
  exact ((Emit.keeps_root hP hQ s.front loader mode (.start i [] r symbols) hi).1 _ t hroot).1

/-- A unit has no diagnostics when a pass begins with it. -/
theorem counted_opened {i : Instance} {owns : Bool} (registration : Registration)
    (h : Instance.begin? addressable (IncludeKey.ofPath unitPath) source s.options.debug owns = .ok i) :
    (s.opened registration i).Counted := by
  have hi : i.Counted := Instance.counted_enduring.begun h
  rw [opened]
  split
  · exact hi
  · exact hi

/-- The first pass counts the errors, and knows whether the key of the unit was registered before. -/
theorem firstPass_counted {first : Pass} (h : (s.firstPass unitPath source loader).1 = .ok first) :
    first.unit.Counted ∧
      (first.unit.registration = some .alreadyProcessed ↔
        s.registry.contains (IncludeKey.ofPath unitPath) = true) := by
  rw [firstPass, openUnit_eq] at h
  cases hbegin : Instance.begin? addressable (IncludeKey.ofPath unitPath) source s.options.debug
    false with
  | error e =>
      rw [hbegin] at h
      cases h
  | ok i =>
      rw [hbegin] at h
      dsimp only [Except.map] at h
      have hcounted := emit_keeps Instance.counted_enduring Instance.counted_enduring
        (counted_opened _ hbegin) h
      have hregistration := emit_keeps (Instance.steady_registration.enduring _) Instance.trivial_enduring
        (registration_opened s _ i) h
      refine ⟨hcounted, ?_⟩
      rw [hregistration, Registry.register_fst]
      cases s.registry.contains (IncludeKey.ofPath unitPath) with
      | true => simp
      | false => simp

theorem secondPass_counted {seen : Symbols} {second : Pass}
    (h : s.secondPass unitPath source loader seen = .ok second) : second.unit.Counted := by
  rw [secondPass_eq] at h
  obtain ⟨i, hbegin, h⟩ := except_bind_eq_ok.mp h
  obtain ⟨j, hfinal, h⟩ := except_bind_eq_ok.mp h
  obtain ⟨-, -, rfl⟩ := Instance.finalize_eq_ok.mp hfinal
  have hopened := counted_opened (Registry.empty.register (IncludeKey.ofPath unitPath)).1 hbegin
  refine emit_keeps Instance.counted_enduring Instance.counted_enduring ?_ h
  exact hopened

/-! ## The way of a unit -/

/-- How the way of a unit goes on from its first pass. -/
inductive Onward (s : Session) (unitPath : String) (source : Bytes) (loader : Loader)
    (first : Pass) : Compiled → Prop
  | included : 0 < first.unit.errors → first.unit.registration ≠ some .alreadyProcessed →
      Onward s unitPath source loader first
        (.done (unwritten .included [.start, .parsed, .includeAccepted] first.unit))
  | includedAgain : 0 < first.unit.errors → first.unit.registration = some .alreadyProcessed →
      Onward s unitPath source loader first
        (.done (unwritten .included [.start, .parsed, .includeAlreadyDone, .includeAccepted]
          first.unit))
  | rejected {second : Pass} : second.unit.Counted → 0 < second.unit.errors →
      Onward s unitPath source loader first
        (.done (unwritten .failed [.start, .parsed, .mainWithErrors, .rejected] second.unit))
  | retried {second : Pass} : second.unit.Counted → second.unit.errors = 0 →
      Onward s unitPath source loader first
        (.main [.start, .parsed, .mainWithErrors, .mainClean] second)
  | clean {pass : Pass} : first.unit.registration ≠ some .alreadyProcessed →
      first.unit.errors = 0 → pass.unit.diagnostics = first.unit.diagnostics →
      Onward s unitPath source loader first (.main [.start, .parsed, .mainClean] pass)

theorem onward_of_afterFirst {first : Pass} {compiled : Compiled}
    (h : s.afterFirst unitPath source loader first = .ok compiled) :
    Onward s unitPath source loader first compiled := by
  simp only [afterFirst] at h
  split at h
  · next hinclude =>
      obtain rfl := Except.ok.inj h
      by_cases hagain : first.unit.registration = some .alreadyProcessed
      · simp only [hagain, decide_true, if_true]
        exact .includedAgain hinclude.1 hagain
      · simp only [hagain, decide_false]
        exact .included hinclude.1 hagain
  · split at h
    · obtain ⟨second, hsecond, h⟩ := except_bind_eq_ok.mp h
      have hcounted := secondPass_counted hsecond
      split at h
      · next herrors =>
          obtain rfl := Except.ok.inj h
          exact .rejected hcounted herrors
      · next herrors =>
          obtain rfl := Except.ok.inj h
          exact .retried hcounted (Nat.eq_zero_of_not_pos herrors)
    · next hclean =>
        obtain ⟨herrors, hnew⟩ := not_or.mp hclean
        obtain ⟨unit, hfinal, h⟩ := except_bind_eq_ok.mp h
        obtain ⟨-, -, rfl⟩ := Instance.finalize_eq_ok.mp hfinal
        obtain rfl := Except.ok.inj h
        exact .clean (by simpa using hnew) (Nat.eq_zero_of_not_pos herrors) rfl

/-- The script that is assembled from a unit. -/
def Assembles (s : Session) (unitPath : String) (source : Bytes) (loader : Loader)
    (artifact : Artifact) : Prop :=
  ∃ first trace pass i, (s.firstPass unitPath source loader).1 = .ok first ∧
    s.afterFirst unitPath source loader first = .ok (.main trace pass) ∧
    Program.assemble pass.symbols pass.unit = .ok artifact i

/-- What the report on a unit says, and what was done to the files, by the last stage of its way. -/
structure Accounts (s : Session) (unitPath : String) (source : Bytes) (loader : Loader)
    (files files' : FileTree) (report : Report) (last : Stage) : Prop where
  status : last.status? = some report.status
  output : report.output.isSome = true ↔ last = .serializedOk
  layout : report.layout ≠ [] ↔ last = .serializedOk
  error : report.error.isSome = true ↔ last = .serializedFail
  diagnostics : (∃ d ∈ report.diagnostics, d.isError = true) ↔
    last = .includeAccepted ∨ last = .rejected
  /-- The file that is named holds what was assembled. -/
  written : ∀ path, report.output = some path → ∃ artifact,
    s.Assembles unitPath source loader artifact ∧ report.layout = artifact.layout ∧
      files'.read path = .ok artifact.bytes
  untouched : last ≠ .serializedOk → files' = files

/-- The report on a unit that was not written, if it has errors. -/
theorem accounts_unwritten {i : Instance} {status : Status} {trace : List Stage} {last : Stage}
    (hcounted : i.Counted) (herrors : 0 < i.errors) (hstatus : last.status? = some status)
    (hlast : last = .includeAccepted ∨ last = .rejected) :
    Accounts s unitPath source loader files files (unwritten status trace i) last where
  status := hstatus
  output := by
    rcases hlast with rfl | rfl <;> simp [unwritten]
  layout := by
    rcases hlast with rfl | rfl <;> simp [unwritten]
  error := by
    rcases hlast with rfl | rfl <;> simp [unwritten]
  diagnostics := by
    rw [Diagnostic.exists_isError_iff]
    refine iff_of_true ?_ hlast
    rw [Instance.Counted] at hcounted
    simpa [unwritten, hcounted] using herrors
  written path h := by cases h
  untouched _ := rfl

variable (files outputPath) in
/-- The report on a main script without errors. -/
theorem accounts_serialize {first pass : Pass} {trace : List Stage}
    (hfirst : (s.firstPass unitPath source loader).1 = .ok first)
    (hmain : s.afterFirst unitPath source loader first = .ok (.main trace pass))
    (hclean : Diagnostic.errorCount pass.unit.diagnostics = 0) :
    ∃ last : Stage, last.EndsSerialization ∧
      (s.serialize files trace pass outputPath).1.trace = trace ++ [last] ∧
      Accounts s unitPath source loader files (s.serialize files trace pass outputPath).2
        (s.serialize files trace pass outputPath).1 last := by
  have hkept := Program.lasts_write Instance.lasts_diagnostics pass.symbols s.options.output
    outputPath pass.unit files
  rw [serialize]
  rcases hwrite : Program.write pass.symbols s.options.output outputPath pass.unit files
    with ⟨i, files', e | ⟨artifact, path⟩⟩
  · replace hkept : i.diagnostics = pass.unit.diagnostics := by rw [hwrite] at hkept; exact hkept
    refine ⟨.serializedFail, .inr rfl, rfl, ?_⟩
    exact {
      status := rfl
      output := by simp [unwritten]
      layout := by simp [unwritten]
      error := by simp
      diagnostics := by
        have hclean : Diagnostic.errorCount i.diagnostics = 0 := by rw [hkept, hclean]
        rw [Diagnostic.exists_isError_iff]
        simp [unwritten, hclean]
      written := by
        intro path h
        cases h
      untouched := fun _ => Program.write_eq_error hwrite }
  · replace hkept : i.diagnostics = pass.unit.diagnostics := by rw [hwrite] at hkept; exact hkept
    obtain ⟨hassemble, hread⟩ := Program.write_eq_ok hwrite
    refine ⟨.serializedOk, .inl rfl, rfl, ?_⟩
    exact {
      status := rfl
      output := by simp
      layout := by
        have hlayout : ∀ a j, Program.assemble pass.symbols pass.unit = .ok a j →
            j.diagnostics = pass.unit.diagnostics ∧ a.layout ≠ [] :=
          (Program.keeps_assemble Instance.lasts_diagnostics pass.unit rfl).1
        simpa [unwritten] using (hlayout artifact i hassemble).2
      error := by simp [unwritten]
      diagnostics := by
        have hclean : Diagnostic.errorCount i.diagnostics = 0 := by rw [hkept, hclean]
        rw [Diagnostic.exists_isError_iff]
        simp [unwritten, hclean]
      written := by
        intro path' h
        obtain rfl := Option.some.inj h
        exact ⟨artifact, ⟨first, trace, pass, i, hfirst, hmain, hassemble⟩, rfl, hread⟩
      untouched := fun h => absurd rfl h }

/-- A unit that is reported on went one of the ways, and the report says what its last stage says. -/
theorem compileSource_accounts {report : Report}
    (h : (s.compileSource files unitPath source loader outputPath).1 = .ok report) :
    ∃ before last, report.trace = before ++ [last] ∧
      Stage.Way (s.registry.contains (IncludeKey.ofPath unitPath)) before last ∧
      Accounts s unitPath source loader files
        (s.compileSource files unitPath source loader outputPath).2.2 report last := by
  simp only [compileSource] at h ⊢
  cases hfirst : (s.firstPass unitPath source loader).1 with
  | error e =>
      rw [hfirst] at h
      cases h
  | ok first =>
      obtain ⟨hcounted, hregistered⟩ := firstPass_counted hfirst
      rw [hfirst] at h
      cases hafter : s.afterFirst unitPath source loader first with
      | error e =>
          simp only [Except.bind, hafter] at h
          cases h
      | ok compiled =>
          have honward := onward_of_afterFirst hafter
          simp only [Except.bind, hafter] at h ⊢
          cases honward with
          | included herrors hnew =>
              obtain rfl := Except.ok.inj h
              rw [Ne, hregistered, Bool.not_eq_true] at hnew
              exact ⟨_, .includeAccepted, rfl, .included hnew,
                accounts_unwritten hcounted herrors rfl (.inl rfl)⟩
          | includedAgain herrors hagain =>
              obtain rfl := Except.ok.inj h
              exact ⟨_, .includeAccepted, rfl, .includedAgain (hregistered.mp hagain),
                accounts_unwritten hcounted herrors rfl (.inl rfl)⟩
          | rejected hsecond herrors =>
              obtain rfl := Except.ok.inj h
              exact ⟨_, .rejected, rfl, .rejected,
                accounts_unwritten hsecond herrors rfl (.inr rfl)⟩
          | retried hsecond herrors =>
              obtain rfl := Except.ok.inj h
              obtain ⟨last, hends, htrace, haccounts⟩ :=
                accounts_serialize files outputPath hfirst hafter
                  (hsecond.symm.trans herrors)
              exact ⟨_, last, htrace, .retried hends, haccounts⟩
          | clean hnew herrors hdiagnostics =>
              obtain rfl := Except.ok.inj h
              rw [Ne, hregistered, Bool.not_eq_true] at hnew
              obtain ⟨last, hends, htrace, haccounts⟩ :=
                accounts_serialize files outputPath hfirst hafter
                  (by rw [hdiagnostics]; exact hcounted.symm.trans herrors)
              exact ⟨_, last, htrace, .clean hnew hends, haccounts⟩

/-- A script whose first pass has an error, and that is compiled by the second one. -/
theorem compileSource_accounts_callsDown :
    ∃ (report : Report) (artifact : Artifact),
      ((start plainOptions scriptFrontEnd).compileSource .empty "down.nss" callsDown included
        (some "down.ncs")).1 = .ok report ∧
      report.trace = [.start, .parsed, .mainWithErrors, .mainClean] ++ [.serializedOk] ∧
      report.layout = artifact.layout ∧
      ((start plainOptions scriptFrontEnd).compileSource .empty "down.nss" callsDown included
        (some "down.ncs")).2.2.read "down.ncs" = .ok artifact.bytes := by
  have hcompiled : ((start plainOptions scriptFrontEnd).compileSource .empty "down.nss" callsDown
      included (some "down.ncs")).1.toOption.map (fun r => (r.trace, r.output))
        = some ([.start, .parsed, .mainWithErrors, .mainClean, .serializedOk], some "down.ncs") := by
    decide +kernel
  cases h : ((start plainOptions scriptFrontEnd).compileSource .empty "down.nss" callsDown
      included (some "down.ncs")).1 with
  | error e =>
      rw [h] at hcompiled
      cases hcompiled
  | ok report =>
      rw [h] at hcompiled
      obtain ⟨htrace, houtput⟩ := Prod.mk.inj (Option.some.inj hcompiled)
      obtain ⟨before, last, hway, -, haccounts⟩ := compileSource_accounts h
      obtain ⟨artifact, -, hlayout, hread⟩ := haccounts.written "down.ncs" houtput
      exact ⟨report, artifact, rfl, htrace, hlayout, hread⟩

end Session

end Nss
