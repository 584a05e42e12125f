/-
# Units compiled one after the other

What a session makes of a unit depends on the units before it only through the registry, and there
only through the keys of the unit and of what it can include.  If none of these was registered, the
unit comes out as in a new session.

If one of them was, it may come out otherwise: the first pass then passes over an include that was
read for an earlier unit, so that the second pass is not seeded with the functions of that include.
-/
import Nss.Proofs.Include.Expansion
import Nss.Proofs.Unit.Blind
import Nss.Proofs.Session.Included

namespace Nss

theorem Registry.register_fst (r : Registry) (key : String) :
    (r.register key).1 = if r.contains key then .alreadyProcessed else .new := by
  cases h : r.contains key with
  | true => rw [register_of_contains h, if_pos rfl]
  | false =>
      rw [register_of_not_contains h]
      rfl

namespace Session

variable {s : Session} {r : Registry} {unitPath : String} {source : Bytes} {loader : Loader}

theorem emit_agree {mode : EmitMode} {i : Instance} {symbols : Symbols} {r r' : Registry}
    (h : ∀ source, i.source.bytes? = some source →
      Emit.content s.front loader mode r' i.name source
        = Emit.content s.front loader mode r i.name source) :
    (s.emit loader mode i r' symbols).1 = (s.emit loader mode i r symbols).1 := by
  have hsame : Emit.SameResult (Emit.root s.front loader mode (.start i [] r symbols))
      (Emit.root s.front loader mode (.start i [] r' symbols)) :=
    Emit.root_sameResult (s := .start i [] r symbols) h
  simp only [emit, emitRoot_cons]
  generalize Emit.root s.front loader mode (.start i [] r symbols) = x at hsame
  generalize Emit.root s.front loader mode (.start i [] r' symbols) = y at hsame
  cases hsame with
  | ok a t r => rfl
  | error e t r => rfl

/-- The keys that matter for a unit: its own, and those that it can meet. -/
def Concerns (front : FrontEnd) (loader : Loader) (unitPath : String) (source : Bytes)
    (key : String) : Prop :=
  key = IncludeKey.ofPath unitPath ∨ Meets front loader (IncludeKey.ofPath unitPath) source key

/-- The first pass is the same with registries that agree on the keys that matter. -/
theorem firstPass_agree
    (h : Registry.AgreeOn (Concerns s.front loader unitPath source) s.registry r) :
    ({ s with registry := r }.firstPass unitPath source loader).1
      = (s.firstPass unitPath source loader).1 := by
  have hregistration : (r.register (IncludeKey.ofPath unitPath)).1
      = (s.registry.register (IncludeKey.ofPath unitPath)).1 := by
    rw [Registry.register_fst, Registry.register_fst, h _ (.inl rfl)]
  have hopen : { s with registry := r }.openUnit unitPath source false r
      = s.openUnit unitPath source false r := rfl
  rw [firstPass, firstPass]
  dsimp only
  rw [hopen, openUnit_eq, openUnit_eq, hregistration]
  cases hbegin : Instance.begin? addressable (IncludeKey.ofPath unitPath) source s.options.debug
    false with
  | error e => rfl
  | ok i =>
      have hopened : Opened unitPath source
          (s.opened (s.registry.register (IncludeKey.ofPath unitPath)).1 i) := opened_of_begin? hbegin
      refine emit_agree (s := s) fun source' hsource => ?_
      obtain rfl := Option.some.inj (hopened.source.symm.trans hsource)
      rw [hopened.name]
      split
      · rfl
      · refine Expanded.ofRoot_agree fun key hmeets => ?_
        rw [Registry.contains_register, Registry.contains_register, h _ (.inr hmeets)]

/-- A session stays what it is, apart from its registry. -/
theorem compileSource_session (files : FileTree) (outputPath : Option String) :
    (s.compileSource files unitPath source loader outputPath).2.1
      = { s with registry := (s.firstPass unitPath source loader).2 } := by
  simp only [compileSource]
  cases (s.firstPass unitPath source loader).1.bind (s.afterFirst unitPath source loader) with
  | error e => rfl
  | ok compiled =>
      cases compiled with
      | done report | main trace pass => rfl

/-- Neither the key of a unit nor one that it can meet is registered: then the unit comes out as in a
new session. -/
theorem compileSource_alone {files : FileTree} {outputPath : Option String}
    (h : ∀ key, Concerns s.front loader unitPath source key → s.registry.contains key = false) :
    (s.compileSource files unitPath source loader outputPath).1
        = ((start s.options s.front).compileSource files unitPath source loader outputPath).1 ∧
      (s.compileSource files unitPath source loader outputPath).2.2
        = ((start s.options s.front).compileSource files unitPath source loader outputPath).2.2 := by
  have hfirst : ((start s.options s.front).firstPass unitPath source loader).1
      = (s.firstPass unitPath source loader).1 :=
    firstPass_agree (s := s) (r := .empty) fun key hkey => (h key hkey).symm
  have hafter : (start s.options s.front).afterFirst unitPath source loader
      = s.afterFirst unitPath source loader := rfl
  have hserialize : (start s.options s.front).serialize = s.serialize := rfl
  simp only [compileSource, hfirst, hafter, hserialize]
  cases (s.firstPass unitPath source loader).1.bind (s.afterFirst unitPath source loader) with
  | error e => exact ⟨rfl, rfl⟩
  | ok compiled =>
      cases compiled with
      | done report | main trace pass => exact ⟨rfl, rfl⟩

/-! ### Two scripts, one with an include -/

/-- A unit to be included, in which a function is called before it is declared. -/
def callsAhead : Bytes :=
  Bytes.ofText ("int Twice(int n) { return Add(n, n); } "
    ++ "int Add(int a, int b) { return a + b; }")

/-- A script that includes it. -/
def includesCaller : Bytes := Bytes.ofText "#include \"lib\" void main() { int x = Twice(2); }"

/-- The sources that are there to be included. -/
def callers : Loader := .ofSources [("lib", callsAhead)]

/-- A session that has compiled one unit. -/
def after (unitPath : String) (source : Bytes) : Session :=
  ((start plainOptions scriptFrontEnd).compileSource .empty unitPath source callers none).2.1

/-- All keys that a unit names have a property. -/
def namesOnly (p : String → Bool) (unit : String) (source : Bytes) : Bool :=
  (scriptFrontEnd unit (Bytes.toText source)).all fun
    | .inclusion path _ => p (IncludeKey.ofPath path) && p (Text.lowercase (IncludeKey.ofPath path))
    | .problem _ | .declaration _ => true

theorem Names.of_namesOnly {p : String → Bool} {unit key : String} {source : Bytes}
    (h : namesOnly p unit source = true) (hnames : Names scriptFrontEnd unit source key) :
    p key = true := by
  obtain ⟨path, span, hmem, hkey⟩ := hnames
  have hboth := List.all_eq_true.mp h _ hmem
  rw [Bool.and_eq_true] at hboth
  rcases hkey with rfl | rfl
  · exact hboth.1
  · exact hboth.2

theorem concerns_includesCaller {key : String}
    (h : Concerns scriptFrontEnd callers "b.nss" includesCaller key) : key = "b" ∨ key = "lib" := by
  rcases h with rfl | hmeets
  · exact .inl (by decide +kernel)
  · right
    induction hmeets with
    | directly hnames =>
        have hall : namesOnly (· == "lib") (IncludeKey.ofPath "b.nss") includesCaller = true := by
          decide +kernel
        have hkey := Names.of_namesOnly hall hnames
        exact eq_of_beq hkey
    | through _ hload hnames ih =>
        obtain rfl := ih
        have hlib : callers.load "lib" = .ok callsAhead := by decide +kernel
        obtain rfl := Except.ok.inj (hlib.symm.trans hload)
        have hnone : namesOnly (fun _ => false) "lib" callsAhead = true := by decide +kernel
        have hfalse := Names.of_namesOnly hnone hnames
        cases hfalse

theorem compileSource_alone_includesCaller :
    (after "a.nss" (Bytes.ofText "void main() { }")).registry.contains "a" = true ∧
      ((after "a.nss" (Bytes.ofText "void main() { }")).compileSource .empty "b.nss" includesCaller
          callers (some "b.ncs")).1
        = ((start plainOptions scriptFrontEnd).compileSource .empty "b.nss" includesCaller callers
          (some "b.ncs")).1 := by
  have hregistered : (after "a.nss" (Bytes.ofText "void main() { }")).registry.contains "a" = true := by
    decide +kernel
  have hb : (after "a.nss" (Bytes.ofText "void main() { }")).registry.contains "b" = false := by
    decide +kernel
  have hlib : (after "a.nss" (Bytes.ofText "void main() { }")).registry.contains "lib" = false := by
    decide +kernel
  refine ⟨hregistered, ?_⟩
  rw [after, compileSource_session] at hb hlib ⊢
  refine (compileSource_alone ?_).1
  intro key hkey
  rcases concerns_includesCaller hkey with rfl | rfl
  · exact hb
  · exact hlib

/-- A script that includes a unit fails if that unit was compiled before it, and not if it is compiled
alone. -/
theorem compileSource_afterInclude :
    ((after "lib.nss" callsAhead).compileSource .empty "b.nss" includesCaller callers
        (some "b.ncs")).1.toOption.map Report.status = some .failed ∧
      ((start plainOptions scriptFrontEnd).compileSource .empty "b.nss" includesCaller callers
        (some "b.ncs")).1.toOption.map Report.status = some .compiled := by
  decide +kernel

end Session

end Nss
