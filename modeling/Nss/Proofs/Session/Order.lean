/-
# Units whose functions come in another order

The order in which the functions of a unit are declared does not matter for what becomes of the
unit.  One order may need the second pass, and the other one may not; but in both cases the unit
comes out as from a pass that was seeded from the first one (`Retried`), and such passes over both
orders have errors together, and leave programs of the same size (`alike_of_exchanged`).
-/
import Nss.Proofs.Unit.Memory
import Nss.Proofs.Unit.Order
import Nss.Proofs.Program.Selective
import Nss.Proofs.Session.Included

namespace Nss

/-! ## Streams -/

/-- A loader that finds no source of one unit. -/
def Loader.lacking (loader : Loader) (key : String) : Loader :=
  { loader with
    load := fun k => if k = key then .error (.sourceNotFound (fileName k)) else loader.load k }

namespace Expanded

variable {front front' : FrontEnd} {loader : Loader} {key : String}

theorem ofEvents_lacking
    {descend descend' : Registry → String → Bytes → List Expanded × Registry}
    (hgrows : ∀ r unit source, Registry.Grows r (descend r unit source).2)
    (hdescend : ∀ r unit source, r.contains key = true →
      descend' r unit source = descend r unit source) (es : List Event) :
    ∀ {r : Registry}, r.contains key = true →
      ofEvents (loader.lacking key) descend' r es = ofEvents loader descend r es := by
  induction es with
  | nil => exact fun _ => rfl
  | cons e es ih =>
      intro r hr
      have hevent : ofEvent (loader.lacking key) descend' r e = ofEvent loader descend r e := by
        cases e with
        | problem d | declaration decl => rfl
        | inclusion path span =>
            simp only [ofEvent, ofInclusion]
            split
            · rfl
            · next hnew =>
                have hne : r.normalize path ≠ key := fun heq => hnew (heq ▸ hr)
                rw [Loader.lacking]
                dsimp only
                rw [if_neg hne]
                cases loader.load (r.normalize path) with
                | error e => rfl
                | ok source =>
                    dsimp only
                    rw [hdescend _ _ _ (Registry.Grows.register r _ key hr)]
      have hkept : (ofEvent loader descend r e).2.contains key = true := by
        cases e with
        | problem d | declaration decl => exact hr
        | inclusion path span => exact ofInclusion_grows hgrows r path span key hr
      rw [ofEvents_cons, ofEvents_cons, hevent, ih hkept]

/-- A unit that is registered is not loaded again. -/
theorem ofUnit_lacking (n : Nat) : ∀ (r : Registry) (unit : String) (source : Bytes),
    r.contains key = true →
      ofUnit front (loader.lacking key) n r unit source = ofUnit front loader n r unit source := by
  induction n with
  | zero => exact fun _ _ _ _ => rfl
  | succ n ih =>
      intro r unit source hr
      exact ofEvents_lacking (ofUnit_grows front loader n) ih _ hr

theorem ofRootEvents_lacking {r : Registry} (hr : r.contains key = true) (es : List Event) :
    ofRootEvents front (loader.lacking key) r es = ofRootEvents front loader r es :=
  ofEvents_lacking (ofUnit_grows front loader _) (ofUnit_lacking _) es hr

theorem withMore_refl (es : List Event) : Event.WithMore [] es es := by
  induction es with
  | nil => exact .nil
  | cons e es ih =>
    exact .same (fun _ _ => ⟨List.not_mem_nil, fun _ _ => List.not_mem_nil⟩) ih

theorem exchanged_ofRootEvents
    (hincludes : ∀ k text, k ≠ key → loader.load k = .ok text →
      front' k (Bytes.toText text) = front k (Bytes.toText text))
    {r : Registry} (hr : r.contains key = true)
    (before after : List Event) (d d' : FunctionDecl) (u v : Emit.UnitText) :
    Act.Exchanged
      (allActs u (ofRootEvents front loader r
        (before ++ .declaration (.function d) :: .declaration (.function d') :: after)).1)
      (allActs v (ofRootEvents front' loader r
        (before ++ .declaration (.function d') :: .declaration (.function d) :: after)).1) := by
  have hmore : IncludesMore [] front front' (loader.lacking key) (loader.lacking key) := by
    refine ⟨rfl, fun k e h => ⟨e, h⟩, fun k text h => ⟨text, h, ?_⟩⟩
    rw [Loader.lacking] at h
    dsimp only at h
    split at h
    · cases h
    next hne =>
    rw [hincludes k text hne h]
    exact withMore_refl _
  have hfirst := ofRootEvents_withMore hmore (withMore_refl before) r
  have hrest := ofRootEvents_withMore hmore (withMore_refl after)
    (ofRootEvents front (loader.lacking key) r before).2
  have hfollow (front : FrontEnd) (f g : FunctionDecl) (w : Emit.UnitText) (r' : Registry) :
      allActs w (ofRootEvents front (loader.lacking key) r'
          (.declaration (.function f) :: .declaration (.function g) :: after)).1
        = .declaration w (.function f) :: .declaration w (.function g)
          :: allActs w (ofRootEvents front (loader.lacking key) r' after).1 := rfl
  have hsame (front : FrontEnd) (es : List Event) : ofRootEvents front loader r es
      = ofRootEvents front (loader.lacking key) r es := (ofRootEvents_lacking hr es).symm
  rw [hsame front, hsame front', ofRootEvents_append,
    ofRootEvents_append, allActs_append, allActs_append, hfirst.registry, hfollow, hfollow]
  exact .mk (hfirst.acts u v) (hrest.acts u v)

end Expanded


/-! ## Writing -/

/-- Whether a file can be written does not depend on its content. -/
theorem FileTree.isOk_write (t : FileTree) (path : String) (content content' : Bytes) :
    (t.write path content).isOk = (t.write path content').isOk := by
  simp only [FileTree.write]
  cases FileTree.start path with
  | error e => rfl
  | ok parsed =>
      obtain ⟨origin, parts⟩ := parsed
      dsimp only [bind, Except.bind]
      split
      · rfl
      · split
        · split
          · rfl
          · split
            · rfl
            · split
              · rfl
              · rfl
        · rfl
        · rfl
        · rfl

/-- A unit has tables for its output, and its output window is not used. -/
structure Instance.Finalized (i : Instance) : Prop where
  tables : ∃ tables, i.tables = some tables
  output : ∃ capacity, addressable capacity = true ∧ i.output = some ⟨[], capacity⟩

namespace Program

variable {symbols : Symbols} {i : Instance} {files : FileTree}

/-- There is a path, and a file can be written there. -/
def Writable (files : FileTree) (path : Option String) : Prop :=
  ∃ target, path = some target ∧ (files.write target []).isOk = true

/-- There is room for a script of a program. -/
def Fits (symbols : Symbols) (records : Array Instruction) : Prop :=
  ∃ r : Script symbols records, addressable (max regionSize r.size) = true

/-- A window that there is memory for is large enough if there is memory for the script. -/
theorem hasRoom_iff {capacity size : Nat} (h : addressable capacity = true) :
    HasRoom capacity size ↔ addressable (max regionSize size) = true := by
  refine ⟨?_, .inr⟩
  rintro (hle | hgranted)
  · rw [addressable, decide_eq_true_eq] at h ⊢
    exact Nat.lt_of_le_of_lt hle h
  · exact hgranted

/-- A main script is written if there is a script of its program, room for that, and a path. -/
theorem exists_write_iff (hs : symbols.Numbered) (hi : i.Finalized) (name path : Option String) :
    (∃ written, (write symbols name path i files).2.2 = .ok written) ↔
      Fits symbols i.code ∧ Writable files (name.or path) := by
  obtain ⟨tables, htables⟩ := hi.tables
  obtain ⟨capacity, hcapacity, houtput⟩ := hi.output
  rw [write]
  cases hok : assemble symbols i with
  | error e i' =>
      constructor
      · rintro ⟨_, hwritten⟩
        cases hwritten
      · rintro ⟨⟨r, hroom⟩, -⟩
        obtain ⟨i'', hi''⟩ :=
          exists_assemble_script htables houtput r ((hasRoom_iff hcapacity).mpr hroom)
        rw [hok] at hi''
        cases hi''
  | ok artifact i' =>
      obtain ⟨r, hroom, rfl⟩ := script_of_assemble hs htables houtput hok
      have hfits : Fits symbols i.code := ⟨r, (hasRoom_iff hcapacity).mp hroom⟩
      dsimp only
      cases name.or path with
      | none =>
          constructor
          · rintro ⟨_, hwritten⟩
            cases hwritten
          · rintro ⟨-, target, hnone, -⟩
            cases hnone
      | some target =>
          have hsame := files.isOk_write target r.artifact.bytes []
          dsimp only
          rw [writeFile]
          cases hwrite : files.write target r.artifact.bytes with
          | error e =>
              rw [hwrite] at hsame
              constructor
              · rintro ⟨_, hwritten⟩
                cases hwritten
              · rintro ⟨-, target', heq, hok⟩
                obtain rfl := Option.some.inj heq
                rw [← hsame] at hok
                cases hok
          | ok files' =>
              rw [hwrite] at hsame
              exact ⟨fun _ => ⟨hfits, target, rfl, hsame.symm⟩, fun _ => ⟨_, rfl⟩⟩

end Program

namespace Session

open Emit EmitState Program

variable {s : Session} {options : Options} {front front' : FrontEnd} {loader : Loader}
  {files : FileTree} {unitPath : String} {source source' : Bytes} {outputPath : Option String}

/-! ## Passes that come to their end -/

/-- The registry that a pass begins with in a new session. -/
def rootRegistry (unitPath : String) : Registry :=
  (Registry.empty.register (IncludeKey.ofPath unitPath)).2

/-- What a unit consists of in a new session. -/
def rootParts (front : FrontEnd) (loader : Loader) (unitPath : String) (source : Bytes) :
    List Expanded :=
  Expanded.ofRoot front loader (rootRegistry unitPath) (IncludeKey.ofPath unitPath) source

/-- The acts of a unit in a new session. -/
def rootActs (front : FrontEnd) (loader : Loader) (unitPath : String) (source : Bytes) : List Act :=
  Expanded.allActs ⟨IncludeKey.ofPath unitPath, Bytes.toText source⟩
    (rootParts front loader unitPath source)

theorem runs_of_root {i : Instance} {symbols : Symbols} {t : EmitState} (hi : i.Roomy)
    (hsymbols : symbols.Numbered) (hname : i.name = IncludeKey.ofPath unitPath)
    (hsource : i.source.bytes? = some source)
    (h : Emit.root front loader .full (.start i [] (rootRegistry unitPath) symbols) = .ok () t) :
    (EmitState.start i [] (rootRegistry unitPath) symbols).runs
      (rootActs front loader unitPath source) = some t := by
  obtain ⟨source', t', hsource', -, hacts, hloads⟩ := (outermost_eq_ok_iff ⟨hi, hsymbols⟩).mp h
  obtain rfl := Option.some.inj (hsource.symm.trans hsource')
  have hname' : (EmitState.start i [] (rootRegistry unitPath) symbols).current.name
      = IncludeKey.ofPath unitPath := hname
  rw [hname'] at hacts
  exact Option.bind_eq_some_iff.mpr ⟨t', hacts, hloads⟩

theorem emit_eq_error {mode : EmitMode} {i : Instance} {r : Registry} {symbols : Symbols}
    {e : Error} (h : (s.emit loader mode i r symbols).1 = .error e) :
    ∃ t, Emit.root s.front loader mode (.start i [] r symbols) = .error e t := by
  simp only [emit, emitRoot_cons] at h
  cases hroot : Emit.root s.front loader mode (.start i [] r symbols) with
  | error e' t =>
      rw [hroot] at h
      exact ⟨t, congrArg (EStateM.Result.error · t) (Except.error.inj h)⟩
  | ok u t =>
      rw [hroot] at h
      cases h

/-- A second pass emits the unit in full, with a table that was seeded. -/
theorem secondPass_eq (seen : Symbols) :
    s.secondPass unitPath source loader seen
      = (Instance.begin? addressable (IncludeKey.ofPath unitPath) source s.options.debug true >>=
          fun i => (s.opened (Registry.empty.register (IncludeKey.ofPath unitPath)).1 i).finalize
            s.options.flags >>= fun j =>
              (s.emit loader .full j (rootRegistry unitPath) seen.seededFrom).1) := by
  rw [secondPass, openUnit_eq]
  cases Instance.begin? addressable (IncludeKey.ofPath unitPath) source s.options.debug true with
  | error e => rfl
  | ok i => rfl

/-- The first pass of a new session emits the unit in full, with a table that knows nothing. -/
theorem firstPass_eq :
    ((start options front).firstPass unitPath source loader).1
      = (Instance.begin? addressable (IncludeKey.ofPath unitPath) source options.debug false >>=
          fun i => ((start options front).emit loader .full
            ((start options front).opened .new i) (rootRegistry unitPath) .empty).1) := by
  rw [firstPass, openUnit_eq]
  have hstart : (start options front).options = options ∧
      (start options front).registry = .empty := ⟨rfl, rfl⟩
  rw [hstart.1, hstart.2]
  cases Instance.begin? addressable (IncludeKey.ofPath unitPath) source options.debug false with
  | error e => rfl
  | ok i =>
      dsimp only [Except.map, bind, Except.bind]
      rw [registration_opened]
      rfl

/-- A unit that was opened may be finalized. -/
theorem Opened.finalize {i j : Instance} {flags : UInt8} (h : Opened unitPath source i)
    (hfinal : i.finalize flags = .ok j) :
    j.Roomy ∧ j.name = IncludeKey.ofPath unitPath ∧ j.source.bytes? = some source ∧
      j.errors = 0 ∧ j.Finalized := by
  obtain ⟨-, -, rfl⟩ := Instance.finalize_eq_ok.mp hfinal
  exact ⟨⟨h.roomy.alive, h.roomy.buffer, h.roomy.granted⟩, h.name, h.source, h.errors,
    ⟨_, rfl⟩, h.output⟩

/-- A second pass that comes to its end. -/
theorem secondPass_eq_ok {seen : Symbols} {second : Pass}
    (h : s.secondPass unitPath source loader seen = .ok second) :
    ∃ j t, j.Roomy ∧ j.errors = 0 ∧
      (EmitState.start j [] (rootRegistry unitPath) seen.seededFrom).runs
        (rootActs s.front loader unitPath source) = some t ∧
      second = ⟨t.current, t.symbols⟩ ∧ t.current.Finalized := by
  rw [secondPass_eq] at h
  obtain ⟨i, hbegin, h⟩ := Steps.except_bind_eq_ok.mp h
  obtain ⟨j, hfinal, h⟩ := Steps.except_bind_eq_ok.mp h
  obtain ⟨t, hroot, rfl⟩ := emit_eq_ok h
  obtain ⟨hroomy, hname, hsource, herrors, hunit⟩ := (opened_of_begin? hbegin).finalize hfinal
  have hruns := runs_of_root hroomy (Symbols.numbered_seededFrom seen) hname hsource hroot
  obtain ⟨houtput, htables⟩ := sameOutput_runs hruns
  exact ⟨j, t, hroomy, herrors, hruns, rfl, ⟨htables ▸ hunit.tables, houtput ▸ hunit.output⟩⟩

/-- How a unit goes on from its first pass. -/
inductive Goes (s : Session) (unitPath : String) (source : Bytes) (loader : Loader) (first : Pass) :
    Compiled → Prop
  | included {report : Report} :
      report.status = .included → Goes s unitPath source loader first (.done report)
  | rejected {second : Pass} {report : Report} :
      s.secondPass unitPath source loader first.symbols = .ok second → second.unit.errors ≠ 0 →
      report.status = .failed → Goes s unitPath source loader first (.done report)
  | retried {second : Pass} {trace : List Stage} :
      s.secondPass unitPath source loader first.symbols = .ok second → second.unit.errors = 0 →
      Goes s unitPath source loader first (.main trace second)
  | clean {unit : Instance} {trace : List Stage} :
      first.unit.errors = 0 → first.unit.finalize s.options.flags = .ok unit →
      Goes s unitPath source loader first (.main trace { first with unit })

theorem goes_of_afterFirst {first : Pass} {compiled : Compiled}
    (h : s.afterFirst unitPath source loader first = .ok compiled) :
    Goes s unitPath source loader first compiled := by
  simp only [afterFirst] at h
  split at h
  · obtain rfl := Except.ok.inj h
    exact .included rfl
  · split at h
    · obtain ⟨second, hsecond, h⟩ := Steps.except_bind_eq_ok.mp h
      split at h
      · next herrors =>
          obtain rfl := Except.ok.inj h
          exact .rejected hsecond (Nat.pos_iff_ne_zero.mp herrors) rfl
      · next herrors =>
          obtain rfl := Except.ok.inj h
          exact .retried hsecond (Nat.eq_zero_of_not_pos herrors)
    · next herrors =>
        obtain ⟨unit, hfinal, h⟩ := Steps.except_bind_eq_ok.mp h
        obtain rfl := Except.ok.inj h
        exact .clean (Nat.eq_zero_of_not_pos fun hpos => herrors (.inl hpos)) hfinal

/-- A main script is compiled if it fits and can be written. -/
theorem serialize_eq_compiled (trace : List Stage) {pass : Pass} (hs : pass.symbols.Numbered)
    (hunit : pass.unit.Finalized) :
    (s.serialize files trace pass outputPath).1.status = .compiled ↔
      Fits pass.symbols pass.unit.code ∧ Writable files (s.options.output.or outputPath) := by
  rw [← exists_write_iff hs hunit, serialize]
  rcases write pass.symbols s.options.output outputPath pass.unit files with ⟨i, files', written⟩
  cases written with
  | ok written => exact ⟨fun _ => ⟨_, rfl⟩, fun _ => rfl⟩
  | error e =>
      refine iff_of_false Status.noConfusion ?_
      rintro ⟨_, hwritten⟩
      cases hwritten

/-! ## Units that are no includes -/

/-- A unit comes out as from a pass that was seeded from a first one: it is compiled if that pass
has no errors and its program fits and can be written. -/
structure Retried (options : Options) (front : FrontEnd) (loader : Loader) (files : FileTree)
    (unitPath : String) (source : Bytes) (outputPath : Option String) (status : Status)
    (i j : Instance) (f t : EmitState) : Prop where
  roomy : i.Roomy
  roomySeeded : j.Roomy
  errors : j.errors = 0
  first : (EmitState.start i [] (rootRegistry unitPath) .empty).performAll
    (rootActs front loader unitPath source) = some f
  seeded : (EmitState.start j [] (rootRegistry unitPath) f.symbols.seededFrom).runs
    (rootActs front loader unitPath source) = some t
  compiled : status = .compiled ↔ t.current.errors = 0 ∧ Fits t.symbols t.current.code ∧
    Writable files (options.output.or outputPath)

theorem unloaded_of_names
    (hnames : ∀ decl ∈ Expanded.allDeclarations (rootParts front loader unitPath source),
      decl.name ≠ globalsLoader) (decl : FunctionDecl)
    (hdecl : .function decl ∈ (rootActs front loader unitPath source).filterMap Act.declaration?) :
    decl.name ≠ globalsLoader := by
  rw [rootActs, Expanded.declaration?_allActs] at hdecl
  exact hnames _ hdecl

theorem alive_of_runs {s t : EmitState} {acts : List Act} (hs : s.Ready)
    (h : s.runs acts = some t) : t.current.isDestroyed = false := by
  obtain ⟨u, hu, hloads⟩ := Option.bind_eq_some_iff.mp h
  have hconcluded : u.concluded.current.isDestroyed = u.current.isDestroyed := by
    rw [EmitState.concluded]
    split
    · rfl
    · rfl
  have halive := hconcluded.trans (hs.performAll hu).roomy.alive
  rcases loads_eq_some hloads with rfl | rfl
  · exact halive
  · exact halive

/-- No declaration of a unit, or of what it includes, has the name of an entry point. -/
def WithoutEntry (front : FrontEnd) (loader : Loader) (unitPath : String) (source : Bytes) : Prop :=
  ∀ decl ∈ Expanded.allDeclarations (rootParts front loader unitPath source), decl.isEntry = false

/-- A first pass in a new session: what it performs, and what a second one is seeded with. -/
structure FirstPassed (front : FrontEnd) (loader : Loader) (unitPath : String) (source : Bytes)
    (first : Pass) (i : Instance) (f s : EmitState) : Prop where
  opened : Opened unitPath source i
  pass : first = ⟨s.current, s.symbols⟩
  acted : (EmitState.start i [] (rootRegistry unitPath) .empty).performAll
    (rootActs front loader unitPath source) = some f
  loaded : f.concluded.loads = some s
  apart : f.symbols.Apart
  seeds : first.symbols.seededFrom = f.symbols.seededFrom
  included : (0 < first.unit.errors ∧ first.unit.isInclude = true) ↔
    WithoutEntry front loader unitPath source

theorem exists_firstPassed {first : Pass}
    (hnames : ∀ decl ∈ Expanded.allDeclarations (rootParts front loader unitPath source),
      decl.name ≠ globalsLoader)
    (h : ((start options front).firstPass unitPath source loader).1 = .ok first) :
    ∃ i f s, FirstPassed front loader unitPath source first i f s := by
  obtain ⟨hmarked, herrors⟩ := isInclude_firstPass rfl h
  obtain ⟨i, s, hopened, hroot, hpass⟩ := firstPass_eq_ok rfl h
  obtain ⟨f, hacted, hloads⟩ := Option.bind_eq_some_iff.mp
    (runs_of_root hopened.roomy Symbols.numbered_empty hopened.name hopened.source hroot)
  have hapart := apart_of_run (unloaded_of_names hnames) hacted
  have hconcluded : f.concluded.symbols.Apart := f.symbols_concluded.symm ▸ hapart
  refine ⟨i, f, s, hopened, hpass, hacted, hloads, hapart, ?_,
    Iff.trans ⟨And.right, fun h => ⟨herrors h, h⟩⟩ hmarked⟩
  rw [hpass, seededFrom_loads hconcluded hloads, f.symbols_concluded]

namespace FirstPassed

variable {first : Pass} {i : Instance} {f t : EmitState}

/-- A second pass is seeded with what the first one performed. -/
theorem exists_second (h : FirstPassed front loader unitPath source first i f t) {second : Pass}
    (hsecond : (start options front).secondPass unitPath source loader first.symbols = .ok second) :
    second.symbols.Numbered ∧ second.unit.Finalized ∧ ∃ j t, ∀ status : Status,
      (status = .compiled ↔ second.unit.errors = 0 ∧ Fits second.symbols second.unit.code ∧
        Writable files (options.output.or outputPath)) →
      Retried options front loader files unitPath source outputPath status i j f t := by
  obtain ⟨j, t, hj, hzero, hagain, rfl, hunit⟩ := secondPass_eq_ok hsecond
  rw [h.seeds] at hagain
  exact ⟨numbered_runs ⟨hj, Symbols.numbered_seededFrom _⟩ hagain, hunit, j, t,
    fun _ hstatus => ⟨h.opened.roomy, hj, hzero, h.acted, hagain, hstatus⟩⟩

/-- A first pass without errors is such a pass itself. -/
theorem runs_of_clean (h : FirstPassed front loader unitPath source first i f t)
    (hclean : first.unit.errors = 0) :
    (EmitState.start i [] (rootRegistry unitPath) f.symbols.seededFrom).runs
      (rootActs front loader unitPath source) = some t := by
  have hnone : f.current.errors = 0 := by
    have hle := f.errors_le_concluded
    rw [← errors_loads h.loaded] at hle
    rw [h.pass] at hclean
    exact Nat.eq_zero_of_le_zero (hclean ▸ hle)
  exact Option.bind_eq_some_iff.mpr
    ⟨f, performAll_seededFrom h.opened.roomy h.acted hnone h.apart, h.loaded⟩

end FirstPassed

/-- In a new session, a unit without an entry point is an include, and what is reported on any other
unit is what comes of a pass that was seeded from a first one. -/
theorem exists_retried {report : Report}
    (hnames : ∀ decl ∈ Expanded.allDeclarations (rootParts front loader unitPath source),
      decl.name ≠ globalsLoader)
    (h : ((start options front).compileSource files unitPath source loader outputPath).1
      = .ok report) :
    report.status = .included ∧ WithoutEntry front loader unitPath source ∨
      report.status ≠ .included ∧ ¬ WithoutEntry front loader unitPath source ∧ ∃ i j f t,
        Retried options front loader files unitPath source outputPath report.status i j f t := by
  simp only [compileSource] at h
  cases hfirst : ((start options front).firstPass unitPath source loader).1 with
  | error e =>
      rw [hfirst] at h
      cases h
  | ok first =>
      rw [hfirst] at h
      obtain ⟨i, f, s, hpassed⟩ := exists_firstPassed hnames hfirst
      cases hafter : (start options front).afterFirst unitPath source loader first with
      | error e =>
          simp only [Except.bind, hafter] at h
          cases h
      | ok compiled =>
          simp only [Except.bind, hafter] at h
          cases goes_of_afterFirst hafter with
          | included hstatus =>
              obtain rfl := Except.ok.inj h
              exact .inl ⟨hstatus, hpassed.included.mp ((afterFirst_eq_done hafter).mp hstatus)⟩
          | rejected hsecond herrors hstatus =>
              obtain rfl := (Except.ok.inj h).symm
              have hother : report.status ≠ .included := by
                rw [hstatus]
                exact Status.noConfusion
              obtain ⟨-, -, j, t, hretried⟩ := hpassed.exists_second hsecond
              refine .inr ⟨hother, fun hnone => hother ((afterFirst_eq_done hafter).mpr
                (hpassed.included.mpr hnone)), i, j, f, t, hretried _ ?_⟩
              rw [hstatus]
              exact ⟨Status.noConfusion, fun hboth => absurd hboth.1 herrors⟩
          | retried hsecond hclean =>
              obtain rfl := Except.ok.inj h
              obtain ⟨hnumbered, hunit, j, t, hretried⟩ := hpassed.exists_second hsecond
              refine .inr ⟨status_serialize _ _ _ _,
                mt hpassed.included.mpr (afterFirst_eq_main hafter), i, j, f, t, hretried _ ?_⟩
              rw [serialize_eq_compiled _ hnumbered hunit]
              exact ⟨fun hboth => ⟨hclean, hboth⟩, And.right⟩
          | clean hclean hfinal =>
              obtain rfl := Except.ok.inj h
              have hroomy := hpassed.opened.roomy
              have hruns := hpassed.runs_of_clean hclean
              refine .inr ⟨status_serialize _ _ _ _,
                mt hpassed.included.mpr (afterFirst_eq_main hafter), i, i, f, s, hroomy, hroomy,
                hpassed.opened.errors, hpassed.acted, hruns, ?_⟩
              obtain rfl := hpassed.pass
              obtain ⟨-, -, rfl⟩ := Instance.finalize_eq_ok.mp hfinal
              have hnumbered := numbered_runs ⟨hroomy, Symbols.numbered_seededFrom _⟩ hruns
              rw [serialize_eq_compiled _ hnumbered
                ⟨⟨_, rfl⟩, (sameOutput_runs hruns).output ▸ hpassed.opened.output⟩]
              exact ⟨fun hboth => ⟨hclean, hboth⟩, And.right⟩

/-! ## Exchanged functions -/

/-- What a unit does in a new session, if two of its functions are exchanged. -/
theorem exchanged_rootActs {before after : List Event} {d d' : FunctionDecl}
    (hincludes : ∀ key text, key ≠ IncludeKey.ofPath unitPath → loader.load key = .ok text →
      front' key (Bytes.toText text) = front key (Bytes.toText text))
    (hevents : front (IncludeKey.ofPath unitPath) (Bytes.toText source)
      = before ++ .declaration (.function d) :: .declaration (.function d') :: after)
    (hevents' : front' (IncludeKey.ofPath unitPath) (Bytes.toText source')
      = before ++ .declaration (.function d') :: .declaration (.function d) :: after) :
    Act.Exchanged (rootActs front loader unitPath source)
      (rootActs front' loader unitPath source') := by
  rw [rootActs, rootActs, rootParts, rootParts, Expanded.ofRoot_eq, Expanded.ofRoot_eq, hevents,
    hevents']
  exact Expanded.exchanged_ofRootEvents hincludes (Registry.contains_register_self _ _) _ _ _ _ _ _

theorem declarations_perm (hacts : Act.Exchanged (rootActs front loader unitPath source)
    (rootActs front' loader unitPath source')) :
    (Expanded.allDeclarations (rootParts front loader unitPath source)).Perm
      (Expanded.allDeclarations (rootParts front' loader unitPath source')) := by
  have hperm := hacts.perm
  rwa [rootActs, rootActs, Expanded.declaration?_allActs, Expanded.declaration?_allActs] at hperm

/-- If a unit is compiled, so is one in which two neighbouring functions are exchanged. -/
theorem Retried.compiled_of_exchanged {status status' : Status} {i i' j j' : Instance}
    {f f' t t' : EmitState}
    (h : Retried options front loader files unitPath source outputPath status i j f t)
    (h' : Retried options front' loader files unitPath source' outputPath status' i' j' f' t')
    (hacts : Act.Exchanged (rootActs front loader unitPath source)
      (rootActs front' loader unitPath source'))
    (hunloaded : ∀ decl, .function decl ∈
      (rootActs front loader unitPath source).filterMap Act.declaration? →
      decl.name ≠ globalsLoader)
    (hcompiled : status = .compiled) : status' = .compiled := by
  obtain ⟨hclean, ⟨r, hfits⟩, hwritable⟩ := h.compiled.mp hcompiled
  obtain ⟨hclean', ρ, halike⟩ := alike_of_exchanged hacts hunloaded h.roomy h'.roomy h.roomySeeded
    h'.roomySeeded h.first h'.first h.seeded h'.seeded (hclean.trans h.errors.symm)
  obtain ⟨r', hsize⟩ := r.exists_mirror halike
  exact h'.compiled.mpr ⟨hclean'.trans h'.errors, ⟨r', hsize ▸ hfits⟩, hwritable⟩

/-- Units that are no includes have the same status if they are compiled together. -/
theorem status_eq_of_compiled {status status' : Status} (h : status ≠ .included)
    (h' : status' ≠ .included) (hcompiled : status = .compiled ↔ status' = .compiled) :
    status = status' := by
  cases status with
  | included => exact absurd rfl h
  | compiled => exact (hcompiled.mp rfl).symm
  | failed =>
      cases status' with
      | included => exact absurd rfl h'
      | compiled => exact hcompiled.mpr rfl
      | failed => rfl

/-- Both units are reported on with the same status. -/
theorem status_exchanged {report report' : Report}
    (hacts : Act.Exchanged (rootActs front loader unitPath source)
      (rootActs front' loader unitPath source'))
    (hacts' : Act.Exchanged (rootActs front' loader unitPath source')
      (rootActs front loader unitPath source))
    (hnames : ∀ decl ∈ Expanded.allDeclarations (rootParts front loader unitPath source),
      decl.name ≠ globalsLoader)
    (hreport : ((start options front).compileSource files unitPath source loader outputPath).1
      = .ok report)
    (hreport' : ((start options front').compileSource files unitPath source' loader outputPath).1
      = .ok report') : report'.status = report.status := by
  have hperm := declarations_perm hacts
  have hnames' : ∀ decl ∈ Expanded.allDeclarations (rootParts front' loader unitPath source'),
      decl.name ≠ globalsLoader := fun decl hdecl => hnames decl (hperm.mem_iff.mpr hdecl)
  have hentry : WithoutEntry front loader unitPath source ↔
      WithoutEntry front' loader unitPath source' :=
    forall_congr' fun decl => imp_congr_left hperm.mem_iff
  obtain ⟨hincluded, hnone⟩ | ⟨hother, hsome, i, j, f, t, hretried⟩ :=
    exists_retried hnames hreport
  · obtain ⟨hincluded', -⟩ | ⟨-, hsome, -⟩ := exists_retried hnames' hreport'
    · rw [hincluded, hincluded']
    · exact absurd (hentry.mp hnone) hsome
  · obtain ⟨-, hnone⟩ | ⟨hother', -, i', j', f', t', hretried'⟩ :=
      exists_retried hnames' hreport'
    · exact absurd (hentry.mpr hnone) hsome
    · exact status_eq_of_compiled hother' hother
        ⟨hretried'.compiled_of_exchanged hretried hacts' (unloaded_of_names hnames'),
          hretried.compiled_of_exchanged hretried' hacts (unloaded_of_names hnames)⟩

/-! ## Units that stop -/

theorem isMemory_of_emit {i : Instance} {symbols : Symbols} {e : Error} (hi : i.Roomy)
    (hsymbols : symbols.Numbered) (hsource : i.source.bytes? = some source)
    (h : (s.emit loader .full i (rootRegistry unitPath) symbols).1 = .error e) : e.IsMemory := by
  obtain ⟨t, hroot⟩ := emit_eq_error h
  exact isMemory_of_root (s := .start i [] (rootRegistry unitPath) symbols) ⟨hi, hsymbols⟩ hsource
    hroot

theorem isMemory_of_firstPass {e : Error}
    (h : ((start options front).firstPass unitPath source loader).1 = .error e) : e.IsMemory := by
  rw [firstPass_eq] at h
  rcases Steps.except_bind_eq_error.mp h with hbegin | ⟨i, hbegin, hemit⟩
  · exact Instance.isMemory_of_begin? hbegin
  · have hopened : Opened unitPath source ((start options front).opened .new i) :=
      opened_of_begin? hbegin
    exact isMemory_of_emit hopened.roomy Symbols.numbered_empty hopened.source hemit

/-- A unit with nothing in its tables that was not destroyed can be finalized. -/
theorem finalize_ne_error {i : Instance} {flags : UInt8} (halive : i.isDestroyed = false)
    (htables : i.tables = none) (e : Error) : i.finalize flags ≠ .error e := by
  rw [Instance.finalize_eq_ok.mpr ⟨halive, htables, rfl⟩]
  nofun

theorem isMemory_of_secondPass {seen : Symbols} {e : Error}
    (h : s.secondPass unitPath source loader seen = .error e) : e.IsMemory := by
  rw [secondPass_eq] at h
  rcases Steps.except_bind_eq_error.mp h with hbegin | ⟨i, hbegin, h⟩
  · exact Instance.isMemory_of_begin? hbegin
  · have hopened : Opened unitPath source
        (s.opened (Registry.empty.register (IncludeKey.ofPath unitPath)).1 i) :=
      opened_of_begin? hbegin
    rcases Steps.except_bind_eq_error.mp h with hfinal | ⟨j, hfinal, hemit⟩
    · exact absurd hfinal (finalize_ne_error hopened.roomy.alive hopened.tables e)
    · obtain ⟨hroomy, -, hsource, -⟩ := hopened.finalize hfinal
      exact isMemory_of_emit hroomy (Symbols.numbered_seededFrom seen) hsource hemit

/-- In a new session, the way of a unit stops only for want of memory. -/
theorem isMemory_of_compileSource {e : Error}
    (h : ((start options front).compileSource files unitPath source loader outputPath).1
      = .error e) : e.IsMemory := by
  simp only [compileSource] at h
  cases hfirst : ((start options front).firstPass unitPath source loader).1 with
  | error e' =>
      rw [hfirst] at h
      obtain rfl := Except.error.inj h
      exact isMemory_of_firstPass hfirst
  | ok first =>
      rw [hfirst] at h
      cases hafter : (start options front).afterFirst unitPath source loader first with
      | ok compiled =>
          simp only [Except.bind, hafter] at h
          cases compiled with
          | done report | main trace pass => cases h
      | error e' =>
          simp only [Except.bind, hafter] at h
          obtain rfl := Except.error.inj h
          simp only [afterFirst] at hafter
          split at hafter
          · cases hafter
          · split at hafter
            · rcases Steps.except_bind_eq_error.mp hafter with hsecond | ⟨second, -, hafter⟩
              · exact isMemory_of_secondPass hsecond
              · split at hafter
                · cases hafter
                · cases hafter
            · obtain hfinal | ⟨unit, -, hafter⟩ := Steps.except_bind_eq_error.mp hafter
              · obtain ⟨i, t, hopened, hroot, rfl⟩ := firstPass_eq_ok rfl hfirst
                have hruns := runs_of_root hopened.roomy Symbols.numbered_empty hopened.name
                  hopened.source hroot
                have htables := (sameOutput_runs hruns).tables.trans hopened.tables
                have halive := alive_of_runs ⟨hopened.roomy, Symbols.numbered_empty⟩ hruns
                exact absurd hfinal (finalize_ne_error halive htables e')
              · cases hafter

/-! ## The order of functions -/

/-- In a new session, two neighbouring functions of a unit may be exchanged: unless there is no
memory for one of the two units, both are reported on, with the same status. -/
theorem compileSource_exchanged {before after : List Event} {d d' : FunctionDecl}
    (hincludes : ∀ key text, key ≠ IncludeKey.ofPath unitPath → loader.load key = .ok text →
      front' key (Bytes.toText text) = front key (Bytes.toText text))
    (hevents : front (IncludeKey.ofPath unitPath) (Bytes.toText source)
      = before ++ .declaration (.function d) :: .declaration (.function d') :: after)
    (hevents' : front' (IncludeKey.ofPath unitPath) (Bytes.toText source')
      = before ++ .declaration (.function d') :: .declaration (.function d) :: after)
    (hnames : ∀ decl ∈ Expanded.allDeclarations (rootParts front loader unitPath source),
      decl.name ≠ globalsLoader)
    (hmemory : ∀ what bytes,
      ((start options front).compileSource files unitPath source loader outputPath).1
        ≠ .error (.outOfMemory what bytes))
    (hmemory' : ∀ what bytes,
      ((start options front').compileSource files unitPath source' loader outputPath).1
        ≠ .error (.outOfMemory what bytes)) :
    ∃ report report',
      ((start options front).compileSource files unitPath source loader outputPath).1
        = .ok report ∧
      ((start options front').compileSource files unitPath source' loader outputPath).1
        = .ok report' ∧
      report'.status = report.status := by
  have hacts := exchanged_rootActs hincludes hevents hevents'
  have hacts' := exchanged_rootActs (fun key text hne hload => (hincludes key text hne hload).symm)
    hevents' hevents
  cases hreport : ((start options front).compileSource files unitPath source loader
      outputPath).1 with
  | error e =>
      obtain ⟨what, bytes, rfl⟩ := isMemory_of_compileSource hreport
      exact absurd hreport (hmemory what bytes)
  | ok report =>
    cases hreport' : ((start options front').compileSource files unitPath source' loader
        outputPath).1 with
    | error e =>
        obtain ⟨what, bytes, rfl⟩ := isMemory_of_compileSource hreport'
        exact absurd hreport' (hmemory' what bytes)
    | ok report' =>
        exact ⟨report, report', rfl, rfl, status_exchanged hacts hacts' hnames hreport hreport'⟩

/-! ### A script with a call to a function further down -/

/-- Events with the first two exchanged. -/
def exchangeFirst : List Event → List Event
  | e :: e' :: rest => e' :: e :: rest
  | events => events

/-- A parser that exchanges the first two events of one unit. -/
def exchanging (front : FrontEnd) (unit : String) : FrontEnd := fun key text =>
  if key = unit then exchangeFirst (front key text) else front key text

/-- Whether events begin with two functions. -/
def beginsWithFunctions : List Event → Bool
  | .declaration (.function _) :: .declaration (.function _) :: _ => true
  | _ => false

theorem exists_functions {events : List Event} (h : beginsWithFunctions events = true) :
    ∃ d d' rest,
      events = [] ++ .declaration (.function d) :: .declaration (.function d') :: rest := by
  rw [beginsWithFunctions.eq_def] at h
  split at h
  · exact ⟨_, _, _, rfl⟩
  · cases h

/-- A script in which a function is called before it is declared.  Its first pass has an error. -/
def callsDown : Bytes :=
  Bytes.ofText ("int F(int n) { return G(n); } int G(int n) { return n; } "
    ++ "#include \"h\" void main() { F(H(2)); }")

/-- What it includes. -/
def included : Loader := .ofSources [("h", Bytes.ofText "int H(int n) { return n; }")]

theorem compileSource_exchanged_callsDown :
    ∃ report report',
      ((start plainOptions scriptFrontEnd).compileSource .empty "down.nss" callsDown
        included (some "down.ncs")).1 = .ok report ∧
      ((start plainOptions (exchanging scriptFrontEnd "down")).compileSource .empty "down.nss"
        callsDown included (some "down.ncs")).1 = .ok report' ∧
      report.status = .compiled ∧ report'.status = .compiled := by
  have hkey : IncludeKey.ofPath "down.nss" = "down" := by decide +kernel
  have hfunctions : beginsWithFunctions
      (scriptFrontEnd (IncludeKey.ofPath "down.nss") (Bytes.toText callsDown)) = true := by
    decide +kernel
  obtain ⟨d, d', rest, hevents⟩ := exists_functions hfunctions
  have hincludes : ∀ key text, key ≠ IncludeKey.ofPath "down.nss" →
      included.load key = .ok text →
      exchanging scriptFrontEnd "down" key (Bytes.toText text)
        = scriptFrontEnd key (Bytes.toText text) := by
    intro key text hne _
    rw [hkey] at hne
    rw [exchanging, if_neg hne]
  have hevents' : exchanging scriptFrontEnd "down" (IncludeKey.ofPath "down.nss")
      (Bytes.toText callsDown)
        = [] ++ .declaration (.function d') :: .declaration (.function d) :: rest := by
    rw [exchanging, if_pos hkey, hevents]
    rfl
  have hnames : (Expanded.allDeclarations (rootParts scriptFrontEnd included "down.nss"
      callsDown)).all (fun decl => decl.name ≠ globalsLoader) = true := by decide +kernel
  have hcompiled : ((start plainOptions scriptFrontEnd).compileSource .empty "down.nss" callsDown
      included (some "down.ncs")).1.toOption.map Report.status = some .compiled := by
    decide +kernel
  have hreported : ((start plainOptions (exchanging scriptFrontEnd "down")).compileSource .empty
      "down.nss" callsDown included (some "down.ncs")).1.isOk = true := by
    decide +kernel
  obtain ⟨report, report', hreport, hreport', hsame⟩ :=
    @compileSource_exchanged plainOptions scriptFrontEnd (exchanging scriptFrontEnd "down")
      included .empty "down.nss" callsDown callsDown (some "down.ncs") [] rest d d'
      hincludes hevents hevents'
      (fun decl hdecl => of_decide_eq_true (List.all_eq_true.mp hnames decl hdecl))
      (fun what bytes h => by
        rw [h] at hcompiled
        cases hcompiled)
      (fun what bytes h => by
        rw [h] at hreported
        cases hreported)
  rw [hreport] at hcompiled
  have hstatus := Option.some.inj hcompiled
  exact ⟨report, report', hreport, hreport', hstatus, hsame.trans hstatus⟩

end Session

end Nss
