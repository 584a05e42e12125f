/-
# Code that runs while global variables are loaded

The loader gives the global variables their first values before it saves the base pointer, and
addresses them without it.  The functions that it calls for that do not know: they reach a global
variable through the base pointer, whatever that is at the time.

    the loader, up to SAVEBP           never through the base pointer
    a function it calls until then,    exactly if it uses a variable that is neither a parameter nor
    directly or through others         declared in its body

So a program loads safely exactly if its declarations do (`safeLoad_iff`): no first value calls, by
name, its way to a function that uses a global variable.  Calls in the code and calls by name are the
same, step by step (`exists_nameCalls`, `exists_calls`) and so in whole runs of calls.
-/
import Nss.Proofs.Program.Loading
import Nss.Proofs.Session.Compiled

namespace Nss

/-! ## Calls by name -/

namespace Declaration

variable (decls : List Declaration)

/-- The definition of one function calls another one by its name. -/
def NameCalls (caller callee : String) : Prop :=
  ∃ d ∈ decls.filterMap Declaration.definition?, d.name = caller ∧ callee ∈ d.callees

/-- The definition of one function calls another one, directly or through others. -/
def NameReaches : String → String → Prop := Relation.ReflTransGen (NameCalls decls)

/-- No first value of a global variable calls its way to a definition that uses a variable which it
does not declare. -/
def LoadsSafely : Prop :=
  ∀ v ∈ decls.filterMap Declaration.variable?, ∀ name ∈ v.callees,
    ∀ d ∈ decls.filterMap Declaration.definition?, NameReaches decls name d.name →
      d.usesOutside = false

variable {decls}

/-- A first value must not call a function that uses such a variable. -/
theorem not_loadsSafely (h : ∃ v ∈ decls.filterMap Declaration.variable?,
    ∃ d ∈ decls.filterMap Declaration.definition?, d.name ∈ v.callees ∧ d.usesOutside = true) :
    ¬ LoadsSafely decls := by
  obtain ⟨v, hv, d, hd, hcalls, huses⟩ := h
  intro hsafe
  rw [hsafe v hv d.name hcalls d hd .refl] at huses
  cases huses

end Declaration

namespace Program

/-- No function that the loader comes to before it saves the base pointer addresses a global variable
through it. -/
def SafeLoad (symbols : Symbols) (records : List Instruction) : Prop :=
  ∀ loader b, loaderOf? symbols = some loader → loader.body = some b →
    ∀ i ∈ beforeSave (b.code records), ∀ id, i.callee? = some id →
      ∀ id' b', Reaches symbols records id id' → symbols.body? id' = some b' →
        (b'.code records).any Instruction.usesBase = false

/-- The loader itself does not do so either. -/
def PlainLoad (symbols : Symbols) (records : List Instruction) : Prop :=
  ∀ loader b, loaderOf? symbols = some loader → loader.body = some b →
    (beforeSave (b.code records)).any Instruction.usesBase = false

end Program

/-! ## The code of one definition -/

/-- What code refers to by one table, it refers to by a table that covers it. -/
theorem Refers.covered {known T : Symbols} {c : List Instruction} {called : List String} {o : Bool}
    (h : Refers known c called o) (hcovered : known.Covered T) : Refers T c called o where
  calls id := by
    rw [h.calls]
    refine exists_congr fun name => and_congr_right fun hname => ?_
    obtain ⟨f, hf⟩ := Option.isSome_iff_exists.mp (h.known name hname)
    obtain ⟨g, hg, hid, -⟩ := hcovered hf
    simp [hf, hg, hid]
  known name hname := by
    obtain ⟨f, hf⟩ := Option.isSome_iff_exists.mp (h.known name hname)
    obtain ⟨g, hg, -⟩ := hcovered hf
    rw [hg]
    rfl
  uses := h.uses
  saves := h.saves

namespace Symbols

open Program

variable {T known : Symbols} {records : List Instruction} {id id' : Nat} {name name' : String}
  {d : FunctionDecl} {decls : List Declaration} {b : FunctionBody}

/-- A number is that of the function with a name, which is not the loader. -/
structure Named (T : Symbols) (id : Nat) (name : String) : Prop where
  found : ∃ f, T.lookup? name = some f ∧ f.id = id
  unloaded : name ≠ globalsLoader

namespace Named

theorem name? (hs : T.Numbered) (h : T.Named id name) : T.name? id = some name := by
  obtain ⟨f, hf, rfl⟩ := h.found
  rw [Symbols.name?, hs.function?_of_lookup? hf, Option.map_some, name_of_lookup? hf]

theorem name_unique (hs : T.Numbered) (h : T.Named id name) (h' : T.Named id name') :
    name = name' :=
  Option.some.inj ((h.name? hs).symm.trans (h'.name? hs))

theorem id_unique (h : T.Named id name) (h' : T.Named id' name) : id = id' := by
  obtain ⟨f, hf, rfl⟩ := h.found
  obtain ⟨g, hg, rfl⟩ := h'.found
  rw [Option.some.inj (hf.symm.trans hg)]

end Named

/-- What code of a script calls by name, if another table covers the one of the script. -/
theorem Scripted.named {c : List Instruction} {called : List String} {o : Bool}
    (hs : known.Scripted) (h : Refers known c called o) (hcovered : known.Covered T)
    (hname : name ∈ called) : ∃ id, T.Named id name ∧ ∃ i ∈ c, i.callee? = some id := by
  obtain ⟨f, hf⟩ := Option.isSome_iff_exists.mp (h.known name hname)
  obtain ⟨g, hg, hid, -⟩ := hcovered hf
  refine ⟨g.id, ⟨⟨g, hg, rfl⟩, ?_⟩, ((h.covered hcovered).calls g.id).mpr ⟨name, hname, g, hg, rfl⟩⟩
  rw [← name_of_lookup? hf]
  exact hs.unloaded f (List.mem_of_find?_eq_some hf)

/-- The calls in the code of a script are calls by name. -/
theorem Scripted.exists_named {c : List Instruction} {called : List String} {o : Bool}
    (hs : known.Scripted) (h : Refers known c called o) (hcovered : known.Covered T)
    (hcall : ∃ i ∈ c, i.callee? = some id) : ∃ name ∈ called, T.Named id name := by
  obtain ⟨name, hname, f, hf, rfl⟩ := ((h.covered hcovered).calls id).mp hcall
  obtain ⟨id, hnamed, -⟩ := hs.named h hcovered hname
  exact ⟨name, hname, ⟨f, hf, rfl⟩, hnamed.unloaded⟩

namespace Realizes

theorem named (h : T.Realizes records id d) : T.Named id d.name := by
  obtain ⟨hbegins, hscripted, hf, rfl, -, -⟩ := h
  obtain ⟨g, hg, hid, -⟩ := hbegins.covered hf
  refine ⟨⟨g, hg, hid⟩, ?_⟩
  rw [← name_of_lookup? hf]
  exact hscripted.unloaded _ (List.mem_of_find?_eq_some hf)

theorem exists_body (h : T.Realizes records id d) : ∃ b, T.body? id = some b := by
  obtain ⟨-, -, -, -, hb, -⟩ := h
  exact ⟨_, hb⟩

/-- A function addresses global variables if its definition uses variables that it does not
declare. -/
theorem usesBase (h : T.Realizes records id d) (hb : T.body? id = some b) :
    (b.code records).any Instruction.usesBase = d.usesOutside := by
  obtain ⟨-, -, -, -, hb', hemits⟩ := h
  obtain rfl := Option.some.inj (hb'.symm.trans hb)
  exact hemits.refers.uses

/-- A name that a definition calls is that of a function which its code calls. -/
theorem calls (h : T.Realizes records id d) (hname : name ∈ d.callees) :
    ∃ id', Calls T records id id' ∧ T.Named id' name := by
  obtain ⟨hbegins, hscripted, -, -, hb, hemits⟩ := h
  obtain ⟨id', hnamed, hcall⟩ := hscripted.named hemits.refers hbegins.covered hname
  exact ⟨id', ⟨_, hb, hcall⟩, hnamed⟩

/-- A function that code calls is one that the definition calls by name. -/
theorem exists_callee (h : T.Realizes records id d) (hcalls : Calls T records id id') :
    ∃ name ∈ d.callees, T.Named id' name := by
  obtain ⟨hbegins, hscripted, -, -, hb, hemits⟩ := h
  obtain ⟨b, hb', hcall⟩ := hcalls
  obtain rfl := Option.some.inj (hb.symm.trans hb')
  exact hscripted.exists_named hemits.refers hbegins.covered hcall

end Realizes

/-! ## Runs of calls -/

namespace ComesFrom

/-- What has a name and a body is the function of a definition with that name. -/
theorem exists_realizes (h : T.ComesFrom records decls) (hnamed : T.Named id name)
    (hb : T.body? id = some b) :
    ∃ d ∈ decls.filterMap Declaration.definition?, d.name = name ∧ T.Realizes records id d := by
  rcases h.bodies id b hb with hloader | ⟨d, hd, hrealizes⟩
  · rw [hnamed.name? h.numbered] at hloader
    exact absurd (Option.some.inj hloader) hnamed.unloaded
  · exact ⟨d, hd, hrealizes.named.name_unique h.numbered hnamed, hrealizes⟩

/-- A definition with a name is that of the function with that name. -/
theorem realizes (h : T.ComesFrom records decls) (hnamed : T.Named id d.name)
    (hd : d ∈ decls.filterMap Declaration.definition?) : T.Realizes records id d := by
  obtain ⟨id', hrealizes⟩ := h.definitions d hd
  rwa [hrealizes.named.id_unique hnamed] at hrealizes

/-- One call in the code is a call by name. -/
theorem exists_nameCalls (h : T.ComesFrom records decls) (hnamed : T.Named id name)
    (hcalls : Calls T records id id') :
    ∃ name', Declaration.NameCalls decls name name' ∧ T.Named id' name' := by
  have ⟨b, hb, _⟩ := hcalls
  obtain ⟨d, hd, hname, hrealizes⟩ := h.exists_realizes hnamed hb
  obtain ⟨name', hmem, hnamed'⟩ := hrealizes.exists_callee hcalls
  exact ⟨name', ⟨d, hd, hname, hmem⟩, hnamed'⟩

/-- One call by name is a call in the code. -/
theorem exists_calls (h : T.ComesFrom records decls) (hnamed : T.Named id name)
    (hcalls : Declaration.NameCalls decls name name') :
    ∃ id', Calls T records id id' ∧ T.Named id' name' := by
  obtain ⟨d, hd, rfl, hmem⟩ := hcalls
  exact (h.realizes hnamed hd).calls hmem

theorem exists_nameReaches (h : T.ComesFrom records decls) (hnamed : T.Named id name)
    (hreaches : Reaches T records id id') :
    ∃ name', Declaration.NameReaches decls name name' ∧ T.Named id' name' := by
  induction hreaches with
  | refl => exact ⟨name, .refl, hnamed⟩
  | tail _ hcalls ih =>
      obtain ⟨between, hreaches, hbetween⟩ := ih
      obtain ⟨name', hlast, hnamed'⟩ := h.exists_nameCalls hbetween hcalls
      exact ⟨name', hreaches.tail hlast, hnamed'⟩

theorem exists_reaches (h : T.ComesFrom records decls) (hnamed : T.Named id name)
    (hreaches : Declaration.NameReaches decls name name') :
    ∃ id', Reaches T records id id' ∧ T.Named id' name' := by
  induction hreaches with
  | refl => exact ⟨id, .refl, hnamed⟩
  | tail _ hcalls ih =>
      obtain ⟨between, hreaches, hbetween⟩ := ih
      obtain ⟨id', hlast, hnamed'⟩ := h.exists_calls hbetween hcalls
      exact ⟨id', hreaches.tail hlast, hnamed'⟩

/-- A program with global variables has a loader. -/
theorem exists_loader (h : T.ComesFrom records decls) (hglobals : T.globals ≠ []) :
    ∃ loader b, loaderOf? T = some loader ∧ loader.body = some b := by
  obtain ⟨known, loader, hloaded⟩ := h.loader hglobals
  obtain ⟨b, hb, -⟩ := hloaded.code
  exact ⟨loader, b, hloaded.loaderOf? hglobals, hb⟩

/-- What the loader refers to before it saves the base pointer: what the first values of the
variables call, and no variable but its own ones. -/
theorem loader_refers (h : T.ComesFrom records decls) {entry loader : FunctionSymbol}
    (hentry : T.entryPoint = .ok entry) (hloader : loaderOf? T = some loader)
    (hb : loader.body = some b) :
    ∃ known, known.Scripted ∧ known.Covered T ∧ Refers known (beforeSave (b.code records))
      (Stmt.allCallees (GlobalSymbol.declarations T.globals)) false := by
  have hglobals : T.globals ≠ [] := by
    intro hnone
    rw [loaderOf?, hnone] at hloader
    cases hloader
  obtain ⟨known, loader', hloaded⟩ := h.loader hglobals
  obtain rfl := Option.some.inj (hloader.symm.trans (hloaded.loaderOf? hglobals))
  obtain ⟨c, hc, hbefore, -⟩ := hloaded.parts hentry hb
  have hbegins : known.Begins T := hloaded.table ▸ .withFunction known loader
  refine ⟨known, hloaded.scripted, hbegins.covered, ?_⟩
  rw [hbefore, ← hc.inSight rfl]
  exact hc.refers

/-- The loader of a program does not use the base pointer before it saves it. -/
theorem plainLoad (h : T.ComesFrom records decls) {entry : FunctionSymbol}
    (hentry : T.entryPoint = .ok entry) : PlainLoad T records := by
  intro loader b hloader hb
  obtain ⟨known, -, -, hrefers⟩ := h.loader_refers hentry hloader hb
  exact hrefers.uses

/-- A program loads safely exactly if the declarations that it is made of do. -/
theorem safeLoad_iff (h : T.ComesFrom records decls) {entry : FunctionSymbol}
    (hentry : T.entryPoint = .ok entry) : SafeLoad T records ↔ Declaration.LoadsSafely decls := by
  have hcallees (name : String) :
      name ∈ Stmt.allCallees (GlobalSymbol.declarations T.globals) ↔
        ∃ v ∈ decls.filterMap Declaration.variable?, name ∈ v.callees := by
    rw [GlobalSymbol.mem_allCallees, h.globals]
  constructor
  · intro hsafe v hv name hname d hd hreaches
    have hglobals : T.globals ≠ [] := by
      intro hnone
      rw [← h.globals, hnone] at hv
      cases hv
    obtain ⟨loader, b, hloader, hb⟩ := h.exists_loader hglobals
    obtain ⟨known, hscripted, hcovered, hrefers⟩ := h.loader_refers hentry hloader hb
    obtain ⟨id, hnamed, i, hi, hcallee⟩ :=
      hscripted.named hrefers hcovered ((hcallees name).mpr ⟨v, hv, hname⟩)
    obtain ⟨id', hreaches, hnamed'⟩ := h.exists_reaches hnamed hreaches
    have hrealizes := h.realizes hnamed' hd
    obtain ⟨b', hb'⟩ := hrealizes.exists_body
    rw [← hrealizes.usesBase hb']
    exact hsafe loader b hloader hb i hi id hcallee id' b' hreaches hb'
  · intro hsafe loader b hloader hb i hi id hcallee id' b' hreaches hb'
    obtain ⟨known, hscripted, hcovered, hrefers⟩ := h.loader_refers hentry hloader hb
    obtain ⟨name, hname, hnamed⟩ := hscripted.exists_named hrefers hcovered ⟨i, hi, hcallee⟩
    obtain ⟨v, hv, hname⟩ := (hcallees name).mp hname
    obtain ⟨name', hnames, hnamed'⟩ := h.exists_nameReaches hnamed hreaches
    obtain ⟨d, hd, rfl, hrealizes⟩ := h.exists_realizes hnamed' hb'
    rw [hrealizes.usesBase hb']
    exact hsafe v hv name hname d hd hnames

end ComesFrom
end Symbols

/-! ## Units that are compiled -/

namespace Session

variable {s : Session} {files : FileTree} {unitPath : String} {source : Bytes} {loader : Loader}
  {outputPath : Option String} {report : Report}

/-- In a compiled unit, the code that runs before the base pointer is saved stays away from it exactly
if no first value of a global variable calls its way to a function that uses one. -/
theorem compileSource_safeLoad_iff (hfront : s.front = scriptFrontEnd)
    (h : (s.compileSource files unitPath source loader outputPath).1 = .ok report)
    (hcompiled : report.status = .compiled) :
    ∃ pass artifact, s.Compiles files unitPath source loader outputPath report pass artifact ∧
      Program.PlainLoad pass.symbols pass.unit.records ∧
      (Program.SafeLoad pass.symbols pass.unit.records ↔
        Declaration.LoadsSafely (s.declarations unitPath source loader report)) := by
  obtain ⟨pass, artifact, hcompiles⟩ := exists_compiles h hcompiled
  have hcomes := hcompiles.comesFrom hfront
  obtain ⟨entry, hentry⟩ := hcompiles.exists_entry
  exact ⟨pass, artifact, hcompiles, hcomes.plainLoad hentry, hcomes.safeLoad_iff hentry⟩

/-- A unit whose first value calls a function that uses nothing but its parameter. -/
def callsTwice : Bytes :=
  Bytes.ofText "int Twice(int n) { return n + n; }\nint g = Twice(2);\nvoid main() { Twice(1); }"

/-- No code of that unit uses the base pointer before it is saved. -/
theorem compileSource_safeLoad_iff_callsTwice :
    ∃ report pass artifact,
      ((start plainOptions scriptFrontEnd).compileSource .empty "init.nss" callsTwice
        (.ofSources []) (some "init.ncs")).1 = .ok report ∧
      report.status = .compiled ∧
      (start plainOptions scriptFrontEnd).Compiles .empty "init.nss" callsTwice (.ofSources [])
        (some "init.ncs") report pass artifact ∧
      Program.SafeLoad pass.symbols pass.unit.records := by
  have hreport : ((start plainOptions scriptFrontEnd).compileSource .empty "init.nss" callsTwice
      (.ofSources []) (some "init.ncs")).1.toOption.map
        (fun r => (r.status, decide (.mainWithErrors ∈ r.trace))) = some (.compiled, false) := by
    decide +kernel
  obtain ⟨report, h, hview⟩ := exists_report hreport
  obtain ⟨hcompiled, htrace⟩ := Prod.mk.inj hview
  obtain ⟨pass, artifact, hcompiles, -, hsafe⟩ := compileSource_safeLoad_iff rfl h hcompiled
  refine ⟨report, pass, artifact, h, hcompiled, hcompiles, hsafe.mpr ?_⟩
  have hown : (((start plainOptions scriptFrontEnd).declarations "init.nss" callsTwice
      (.ofSources []) report).filterMap Declaration.definition?).all
        (fun d => !d.usesOutside) = true := by
    rw [declarations, passRegistry, if_neg (of_decide_eq_false htrace)]
    decide +kernel
  intro v _ name _ d hd _
  simpa using List.all_eq_true.mp hown d hd

/-- A unit whose first value calls a function that reads a global variable. -/
def callsReader : Bytes :=
  Bytes.ofText "int g = 1;\nint F() { return g; }\nint h = F();\nvoid main() { F(); }"

/-- That unit is compiled, and code of it uses the base pointer before it is saved. -/
theorem compileSource_readsUnset :
    ∃ report pass artifact,
      ((start plainOptions scriptFrontEnd).compileSource .empty "init.nss" callsReader
        (.ofSources []) (some "init.ncs")).1 = .ok report ∧
      report.status = .compiled ∧
      (start plainOptions scriptFrontEnd).Compiles .empty "init.nss" callsReader (.ofSources [])
        (some "init.ncs") report pass artifact ∧
      ¬ Program.SafeLoad pass.symbols pass.unit.records := by
  have hreport : ((start plainOptions scriptFrontEnd).compileSource .empty "init.nss" callsReader
      (.ofSources []) (some "init.ncs")).1.toOption.map
        (fun r => (r.status, decide (.mainWithErrors ∈ r.trace))) = some (.compiled, false) := by
    decide +kernel
  obtain ⟨report, h, hview⟩ := exists_report hreport
  obtain ⟨hcompiled, htrace⟩ := Prod.mk.inj hview
  obtain ⟨pass, artifact, hcompiles⟩ := exists_compiles h hcompiled
  obtain ⟨entry, hentry⟩ := hcompiles.exists_entry
  refine ⟨report, pass, artifact, h, hcompiled, hcompiles, ?_⟩
  rw [(hcompiles.comesFrom rfl).safeLoad_iff hentry]
  refine Declaration.not_loadsSafely ?_
  rw [declarations, passRegistry, if_neg (of_decide_eq_false htrace)]
  decide +kernel

end Session

end Nss
