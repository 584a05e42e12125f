/-
# Sessions in view

Two sessions are given a unit each, and the same is seen of the units and of what they consist of.
Then the same is seen of what the sessions make of them, pass by pass: the reports, the files and the
registries.

    units, instances    `InView`, `Instance.viewed`
    pass                `Pass.viewed`      firstPass_viewed, secondPass_viewed
    way of a unit       `Compiled.viewed`  afterFirst_viewed
    report              `Report.viewed`    serialize_viewed, compileSource_viewed
-/
import Nss.Proofs.Places.Emission
import Nss.Proofs.Places.Assembly
import Nss.Proofs.Session.Included

namespace Nss

open Steps

/-- What is seen of a report. -/
def Report.viewed (v : View) (r : Report) : Report :=
  { r with diagnostics := r.diagnostics.map v.diagnostic }

theorem Report.viewed_whole (r : Report) : r.viewed .whole = r := by
  rw [viewed, View.map_diagnostic_whole]

namespace Session

/-- What is seen of what a pass leaves. -/
def Pass.viewed (v : View) (p : Pass) : Pass := ⟨p.unit.viewed v, v.symbols p.symbols⟩

/-- What is seen of what the passes make of a unit. -/
def Compiled.viewed (v : View) : Compiled → Compiled
  | .done report => .done (report.viewed v)
  | .main trace pass => .main trace (pass.viewed v)

/-- The same is seen of two units in two sessions. -/
structure InView (v : View) (s s' : Session) (unitPath : String) (source source' : Bytes)
    (loader loader' : Loader) : Prop where
  /-- The file that is asked for. -/
  output : s'.options.output = s.options.output
  registry : s'.registry = s.registry
  text : v.source source' = v.source source
  content : ∀ mode r,
    Expanded.allViewed v (Emit.content s'.front loader' mode r (IncludeKey.ofPath unitPath) source')
      = Expanded.allViewed v (Emit.content s.front loader mode r (IncludeKey.ofPath unitPath) source)

variable {v : View} {s s' : Session} {unitPath : String} {source source' : Bytes}
  {loader loader' : Loader}

/-! ## Beginning of a pass -/

theorem opened_viewed (s : Session) (registration : Registration) (i : Instance) :
    (s.opened registration i).viewed v
      = { i with registration := some registration : Instance }.viewed v := by
  rw [opened]
  split
  · rfl
  · rfl

/-- The unit that a pass begins with, its source still being there. -/
structure Begun (v : View) (unitPath : String) (source source' : Bytes) (i i' : Instance) : Prop where
  viewed : i'.viewed v = i.viewed v
  name : i.name = IncludeKey.ofPath unitPath
  source : i.source.bytes? = some source
  source' : i'.source.bytes? = some source'

theorem Begun.name' {i i' : Instance} (h : Begun v unitPath source source' i i') :
    i'.name = IncludeKey.ofPath unitPath :=
  (congrArg Instance.name h.viewed).trans h.name

/-- A pass is begun in both sessions or in none of them. -/
theorem openUnit_viewed (h : InView v s s' unitPath source source' loader loader') (owns : Bool)
    (r : Registry) :
    (∃ e, s.openUnit unitPath source owns r = .error e ∧
        s'.openUnit unitPath source' owns r = .error e) ∨
      ∃ i i' r', s.openUnit unitPath source owns r = .ok (i, r') ∧
        s'.openUnit unitPath source' owns r = .ok (i', r') ∧
        Begun v unitPath source source' i i' := by
  have hbegin := Instance.begin?_viewed v (IncludeKey.ofPath unitPath) source s.options.debug owns
  have hbegin' := Instance.begin?_viewed v (IncludeKey.ofPath unitPath) source' s'.options.debug owns
  rw [h.text, hbegin] at hbegin'
  replace hbegin' := hbegin'.symm
  rw [openUnit_eq, openUnit_eq]
  rcases except_map_eq_map hbegin' with ⟨e, hi', hi⟩ | ⟨i', i, hi', hi, hviewed⟩
  · rw [hi, hi']
    exact .inl ⟨e, rfl, rfl⟩
  · have hopened := @opened_of_begin? _ _ _ _ (r.register (IncludeKey.ofPath unitPath)).1 _ hi
    have hopened' := @opened_of_begin? _ _ _ _ (r.register (IncludeKey.ofPath unitPath)).1 _ hi'
    rw [hi, hi']
    refine .inr ⟨_, _, _, rfl, rfl, ?_, hopened.name, hopened.source, hopened'.source⟩
    rw [opened_viewed, opened_viewed]
    exact congrArg (fun j : Instance =>
      { j with registration := some (r.register (IncludeKey.ofPath unitPath)).1 }) hviewed

/-! ## Passes -/

/-- What a pass makes of the end of an emission. -/
def passOf : EStateM.Result Error EmitState Unit → Except Error Pass × Registry
  | .ok _ t => (.ok ⟨t.current, t.symbols⟩, t.registry)
  | .error e t => (.error e, t.registry)

theorem emit_eq (s : Session) (loader : Loader) (mode : EmitMode) (i : Instance) (r : Registry)
    (symbols : Symbols) :
    s.emit loader mode i r symbols = passOf (Emit.root s.front loader mode (.start i [] r symbols)) := by
  simp only [emit, emitRoot_cons]
  cases Emit.root s.front loader mode (.start i [] r symbols) with
  | ok u t => rfl
  | error e t => rfl

theorem passOf_viewed (x : EStateM.Result Error EmitState Unit) :
    passOf (mapResult id (EmitState.viewed v) id x)
      = ((passOf x).1.map (Pass.viewed v), (passOf x).2) := by
  cases x with
  | ok u t => rfl
  | error e t => rfl

/-- The same is seen of two passes over units of which the same is seen. -/
theorem emit_viewed (h : InView v s s' unitPath source source' loader loader') (mode : EmitMode)
    {i i' : Instance} (hi : Begun v unitPath source source' i i') (r : Registry)
    {symbols symbols' : Symbols} (hsymbols : v.symbols symbols' = v.symbols symbols) :
    (s'.emit loader' mode i' r symbols').1.map (Pass.viewed v)
        = (s.emit loader mode i r symbols).1.map (Pass.viewed v) ∧
      (s'.emit loader' mode i' r symbols').2 = (s.emit loader mode i r symbols).2 := by
  have hstart : (EmitState.start i' [] r symbols').viewed v
      = (EmitState.start i [] r symbols).viewed v := by
    simp [EmitState.viewed, EmitState.start, hi.viewed, hsymbols]
  have htext : v = .whole → source' = source := by
    rintro rfl
    exact h.text
  have hcontent := h.content mode r
  rw [← hi.name'] at hcontent
  nth_rewrite 2 [hi.name'] at hcontent
  rw [← hi.name] at hcontent
  have hroot := Emit.root_viewed (s := .start i' [] r symbols') (t := .start i [] r symbols)
    hi.source' hi.source hstart htext hcontent
  have hpass := congrArg passOf hroot
  rw [passOf_viewed, passOf_viewed] at hpass
  rw [emit_eq, emit_eq]
  exact Prod.mk.inj hpass

theorem firstPass_viewed (h : InView v s s' unitPath source source' loader loader') :
    (s'.firstPass unitPath source' loader').1.map (Pass.viewed v)
        = (s.firstPass unitPath source loader).1.map (Pass.viewed v) ∧
      (s'.firstPass unitPath source' loader').2 = (s.firstPass unitPath source loader).2 := by
  rw [firstPass, firstPass, h.registry]
  rcases openUnit_viewed h false s.registry with ⟨e, hopen, hopen'⟩ | ⟨i, i', r, hopen, hopen', hi⟩
  · rw [hopen, hopen']
    exact ⟨rfl, rfl⟩
  · have hregistration : i'.registration = i.registration := (congrArg Instance.registration hi.viewed :)
    rw [hopen, hopen']
    dsimp only
    rw [hregistration]
    exact emit_viewed h _ hi r rfl

/-- Room for the output of a unit is made in the same way, whatever its flags. -/
theorem finalize_viewed (i : Instance) (flags : UInt8) :
    (i.finalize flags).map (Instance.viewed v)
      = ((i.viewed v).finalize 0).map fun j => { j with tables := j.tables.map OutputTables.flagless } := by
  have halive : (i.viewed v).isDestroyed = i.isDestroyed := rfl
  have htables : (i.viewed v).tables.isSome = i.tables.isSome := Option.isSome_map
  rw [Instance.finalize, Instance.finalize, halive, htables]
  split
  · rfl
  · split
    · rfl
    · rfl

theorem finalize_congr {i i' : Instance} (h : i'.viewed v = i.viewed v) (flags flags' : UInt8) :
    (i'.finalize flags').map (Instance.viewed v) = (i.finalize flags).map (Instance.viewed v) := by
  rw [finalize_viewed, finalize_viewed, h]

theorem secondPass_viewed (h : InView v s s' unitPath source source' loader loader')
    {seen seen' : Symbols} (hseen : v.symbols seen' = v.symbols seen) :
    (s'.secondPass unitPath source' loader' seen').map (Pass.viewed v)
      = (s.secondPass unitPath source loader seen).map (Pass.viewed v) := by
  have hseeded : seen'.seededFrom = seen.seededFrom := by
    rw [← View.seededFrom_symbols v, hseen, View.seededFrom_symbols]
  rw [secondPass, secondPass]
  rcases openUnit_viewed h true .empty with ⟨e, hopen, hopen'⟩ | ⟨i, i', r, hopen, hopen', hi⟩
  · rw [hopen, hopen']
    rfl
  · have hfinal := finalize_congr hi.viewed s.options.flags s'.options.flags
    rw [hopen, hopen', hseeded]
    dsimp only [bind, Except.bind]
    rcases except_map_eq_map hfinal with ⟨e, hj', hj⟩ | ⟨j', j, hj', hj, hviewed⟩
    · rw [hj, hj']
    · obtain ⟨-, -, rfl⟩ := Instance.finalize_eq_ok.mp hj
      obtain ⟨-, -, rfl⟩ := Instance.finalize_eq_ok.mp hj'
      rw [hj, hj']
      exact (emit_viewed h .full ⟨hviewed, hi.name, hi.source, hi.source'⟩ r rfl).1

/-! ## The way of a unit -/

theorem unwritten_viewed (status : Status) (trace : List Stage) (i : Instance) :
    (unwritten status trace i).viewed v = unwritten status trace (i.viewed v) := rfl

/-- Both units go on in the same way. -/
theorem afterFirst_viewed (h : InView v s s' unitPath source source' loader loader')
    {first first' : Pass} (hfirst : first'.viewed v = first.viewed v) :
    (s'.afterFirst unitPath source' loader' first').map (Compiled.viewed v)
      = (s.afterFirst unitPath source loader first).map (Compiled.viewed v) := by
  have hunit : first'.unit.viewed v = first.unit.viewed v := congrArg Pass.unit hfirst
  have hsymbols : v.symbols first'.symbols = v.symbols first.symbols := congrArg Pass.symbols hfirst
  have herrors : first'.unit.errors = first.unit.errors := (congrArg Instance.errors hunit :)
  have hinclude : first'.unit.isInclude = first.unit.isInclude := (congrArg Instance.isInclude hunit :)
  have hregistration : first'.unit.registration = first.unit.registration :=
    (congrArg Instance.registration hunit :)
  simp only [afterFirst, herrors, hinclude, hregistration]
  split
  · simp [pure, Except.pure, Except.map, Compiled.viewed, unwritten_viewed, hunit]
  · split
    · rcases except_map_eq_map (secondPass_viewed h hsymbols)
        with ⟨e, hx', hx⟩ | ⟨second', second, hx', hx, hpass⟩
      · rw [hx, hx']
      · have hunit' : second'.unit.viewed v = second.unit.viewed v := congrArg Pass.unit hpass
        have herrors' : second'.unit.errors = second.unit.errors := (congrArg Instance.errors hunit' :)
        rw [hx, hx']
        simp only [bind, Except.bind, herrors']
        split
        · simp [pure, Except.pure, Except.map, Compiled.viewed, unwritten_viewed, hunit']
        · simp [pure, Except.pure, Except.map, Compiled.viewed, hpass]
    · rcases except_map_eq_map (finalize_congr hunit s.options.flags s'.options.flags)
        with ⟨e, hj', hj⟩ | ⟨j', j, hj', hj, hviewed⟩
      · rw [hj, hj']
        rfl
      · rw [hj, hj']
        simp [bind, Except.bind, pure, Except.pure, Except.map, Compiled.viewed, Pass.viewed, hviewed,
          hsymbols]

/-- The same is reported on two scripts, and the same is written. -/
theorem serialize_viewed (houtput : s'.options.output = s.options.output) (files : FileTree)
    (trace : List Stage) {pass pass' : Pass} (hpass : pass'.viewed v = pass.viewed v)
    (outputPath : Option String) :
    (s'.serialize files trace pass' outputPath).1.viewed v
        = (s.serialize files trace pass outputPath).1.viewed v ∧
      (s'.serialize files trace pass' outputPath).2 = (s.serialize files trace pass outputPath).2 := by
  have hunit : pass'.unit.viewed v = pass.unit.viewed v := congrArg Pass.unit hpass
  have hsymbols : v.symbols pass'.symbols = v.symbols pass.symbols := congrArg Pass.symbols hpass
  have hname : pass'.unit.name = pass.unit.name := (congrArg Instance.name hunit :)
  have hwrite : Program.write (v.symbols pass.symbols) _ _ _ _ = _ :=
    Program.write_viewed s.options.output outputPath pass.unit files
  have hwrite' : Program.write (v.symbols pass'.symbols) _ _ _ _ = _ :=
    Program.write_viewed s.options.output outputPath pass'.unit files
  rw [hsymbols, hunit, hwrite] at hwrite'
  rw [serialize, serialize, houtput, hname]
  generalize Program.write pass'.symbols s.options.output outputPath pass'.unit files = x at hwrite'
  generalize Program.write pass.symbols s.options.output outputPath pass.unit files = y at hwrite'
  obtain ⟨i', files', written⟩ := x
  obtain ⟨i, files'', written'⟩ := y
  obtain ⟨hi, hrest⟩ := Prod.mk.inj hwrite'
  obtain ⟨rfl, rfl⟩ := Prod.mk.inj hrest
  have hdiagnostics : i.diagnostics.map v.diagnostic = i'.diagnostics.map v.diagnostic :=
    (congrArg Instance.diagnostics hi :)
  cases written' with
  | ok outcome => simp [Report.viewed, unwritten, hdiagnostics]
  | error e => simp [Report.viewed, unwritten, hdiagnostics]

/-- The same is seen of what two sessions make of units of which the same is seen. -/
theorem compileSource_viewed (h : InView v s s' unitPath source source' loader loader')
    (files : FileTree) (outputPath : Option String) :
    (s'.compileSource files unitPath source' loader' outputPath).1.map (Report.viewed v)
        = (s.compileSource files unitPath source loader outputPath).1.map (Report.viewed v) ∧
      (s'.compileSource files unitPath source' loader' outputPath).2.1.registry
        = (s.compileSource files unitPath source loader outputPath).2.1.registry ∧
      (s'.compileSource files unitPath source' loader' outputPath).2.2
        = (s.compileSource files unitPath source loader outputPath).2.2 := by
  obtain ⟨hpass, hregistry⟩ := firstPass_viewed h
  rw [compileSource, compileSource]
  generalize s'.firstPass unitPath source' loader' = x at hpass hregistry
  generalize s.firstPass unitPath source loader = y at hpass hregistry
  obtain ⟨x, r'⟩ := x
  obtain ⟨y, r⟩ := y
  dsimp only at hpass hregistry
  subst hregistry
  rcases except_map_eq_map hpass with ⟨e, rfl, rfl⟩ | ⟨first', first, rfl, rfl, hfirst⟩
  · exact ⟨rfl, rfl, rfl⟩
  · dsimp only [Except.bind]
    rcases except_map_eq_map (afterFirst_viewed h hfirst)
      with ⟨e, hc', hc⟩ | ⟨c', c, hc', hc, hcompiled⟩
    · rw [hc, hc']
      exact ⟨rfl, rfl, rfl⟩
    · rw [hc, hc']
      cases c with
      | done report =>
          cases c' with
          | done report' =>
              have hreport : report'.viewed v = report.viewed v := Compiled.done.inj hcompiled
              exact ⟨congrArg Except.ok hreport, rfl, rfl⟩
          | main trace' pass' => cases hcompiled
      | main trace pass =>
          cases c' with
          | done report' => cases hcompiled
          | main trace' pass' =>
              obtain ⟨rfl, hpass⟩ := Compiled.main.inj hcompiled
              obtain ⟨hreport, hfiles⟩ :=
                serialize_viewed h.output files trace' hpass outputPath
              exact ⟨congrArg Except.ok hreport, rfl, hfiles⟩

end Session

end Nss
