/-
# Global variables that are checked

A variable that was checked without a diagnostic where it was declared is never wrong later on:
declarations only add functions, and variables behind it (`checkGlobal_declares`).  So the loader,
which lowers all variables at the end, has nothing to say that was not said before, and after an
emission without errors it has nothing to say at all.  That its diagnostics are dropped loses nothing.

One act keeps a table `Cleared` unless it adds an error (`perform`), and so does a whole run
(`performAll`).
-/
import Nss.Proofs.Lowering.Checking
import Nss.Proofs.Unit.Origins

namespace Nss

open Steps

namespace Symbols

/-- A table that declarations make of another one. -/
inductive Declares (s : Symbols) : Symbols → Prop
  | refl : Declares s s
  | function {t u : Symbols} {decl : FunctionDecl} {unit : String} {id : Nat} :
      Declares s t → t.declareFunction decl unit = .ok (u, id) → Declares s u
  | global {t u : Symbols} {decl : VarDecl} {unit : String} {slot : Nat} :
      Declares s t → t.declareGlobal decl unit = .ok (u, slot) → Declares s u

variable {s t : Symbols}

theorem Declares.begins (h : s.Declares t) : s.Begins t := by
  induction h with
  | refl => exact .refl s
  | function _ hdecl ih => exact ih.trans (.declareFunction hdecl)
  | global _ hdecl ih => exact ih.trans (.declareGlobal hdecl)

/-- A variable has another name than those before it. -/
theorem nodup_names_declareGlobal {decl : VarDecl} {unit : String} {slot : Nat}
    (h : s.declareGlobal decl unit = .ok (t, slot))
    (hs : (s.globals.map GlobalSymbol.name).Nodup) : (t.globals.map GlobalSymbol.name).Nodup := by
  obtain ⟨hnew, -, -, rfl⟩ := declareGlobal_eq_ok h
  rw [List.map_append, List.map_singleton]
  refine List.nodup_append'.mpr ⟨hs, List.nodup_singleton _, ?_⟩
  refine List.disjoint_singleton.mpr ?_
  intro hmem
  obtain ⟨g, hg, hname⟩ := List.mem_map.mp hmem
  exact lookupGlobal?_eq_none_iff.mp hnew g hg hname

theorem globals_declareFunction {decl : FunctionDecl} {unit : String} {id : Nat}
    (h : s.declareFunction decl unit = .ok (t, id)) : t.globals = s.globals := by
  obtain ⟨-, ⟨f, -, -, rfl⟩ | ⟨-, -, rfl⟩⟩ := declareFunction_eq_ok h
  · rfl
  · rfl

/-- The variables that are declared have different names. -/
theorem Declares.nodup_names (h : s.Declares t) (hs : (s.globals.map GlobalSymbol.name).Nodup) :
    (t.globals.map GlobalSymbol.name).Nodup := by
  induction h with
  | refl => exact hs
  | function _ hdecl ih => exact globals_declareFunction hdecl ▸ ih
  | global _ hdecl ih => exact nodup_names_declareGlobal hdecl ih

end Symbols

namespace Lowering

variable {s t : Symbols}

/-- The loader has to say what checking the variables one by one gives. -/
theorem diagnostics_ofGlobals_eq_flatMap (entry : Option FunctionSymbol)
    (hnames : (s.globals.map GlobalSymbol.name).Nodup) :
    (ofGlobals s entry).diagnostics
      = (List.range s.globals.length).flatMap fun slot => checkGlobal slot s := by
  rw [diagnostics_ofGlobals entry hnames, List.range_eq_range']
  exact faults_eq_flatMap [] s.globals rfl

/-- A variable that was checked without a diagnostic still is against a table that goes on. -/
theorem checkGlobal_begins {slot : Nat} (h : s.Begins t) (hslot : slot < s.globals.length)
    (hclean : checkGlobal slot s = []) : checkGlobal slot t = [] :=
  checkGlobal_eq_nil_mono h.covered h.globals hslot hclean

/-- A variable that was checked without a diagnostic where it was declared is never wrong later
on. -/
theorem checkGlobal_declares {u : Symbols} {decl : VarDecl} {unit : String} {slot : Nat}
    (hdecl : s.declareGlobal decl unit = .ok (t, slot)) (hclean : checkGlobal slot t = [])
    (hdeclares : t.Declares u) : checkGlobal slot u = [] := by
  refine checkGlobal_begins hdeclares.begins ?_ hclean
  obtain ⟨-, -, rfl, rfl⟩ := Symbols.declareGlobal_eq_ok hdecl
  rw [List.length_append]
  exact Nat.lt_succ_self _

end Lowering

/-! ## Emissions without errors -/

/-- The variables of a table have different names, and nothing is wrong with any of them. -/
structure Symbols.Cleared (s : Symbols) : Prop where
  names : (s.globals.map GlobalSymbol.name).Nodup
  checked : ∀ slot < s.globals.length, Lowering.checkGlobal slot s = []

namespace Symbols.Cleared

variable {s t : Symbols}

theorem of_globals_eq_nil (h : s.globals = []) : s.Cleared := by
  refine ⟨?_, ?_⟩
  · rw [h]
    exact List.nodup_nil
  · intro slot hslot
    rw [h] at hslot
    cases hslot

/-- More functions are known, or more is known of them. -/
theorem begins (hs : s.Cleared) (h : s.Begins t) (hglobals : t.globals = s.globals) : t.Cleared := by
  refine ⟨hglobals ▸ hs.names, ?_⟩
  rw [hglobals]
  exact fun slot hslot => Lowering.checkGlobal_begins h hslot (hs.checked slot hslot)

/-- One more variable was declared and checked. -/
theorem declareGlobal (hs : s.Cleared) {decl : VarDecl} {unit : String} {slot : Nat}
    (h : s.declareGlobal decl unit = .ok (t, slot)) (hclean : Lowering.checkGlobal slot t = []) :
    t.Cleared := by
  refine ⟨nodup_names_declareGlobal h hs.names, ?_⟩
  intro k hk
  obtain ⟨-, -, hslot, ht⟩ := declareGlobal_eq_ok h
  have hlength : t.globals.length = slot + 1 := by
    rw [ht, hslot]
    exact List.length_append
  rcases Nat.lt_succ_iff_lt_or_eq.mp (hlength ▸ hk) with hlt | rfl
  · exact Lowering.checkGlobal_begins (.declareGlobal h) (hslot ▸ hlt) (hs.checked k (hslot ▸ hlt))
  · exact hclean

/-- The loader has nothing to say. -/
theorem diagnostics_ofGlobals (hs : s.Cleared) (entry : Option FunctionSymbol) :
    (Lowering.ofGlobals s entry).diagnostics = [] := by
  rw [Lowering.diagnostics_ofGlobals_eq_flatMap entry hs.names, List.flatMap_eq_nil_iff]
  exact fun slot hslot => hs.checked slot (List.mem_range.mp hslot)

end Symbols.Cleared

namespace EmitState

variable {s t : EmitState} {a : Act} {acts : List Act}

/-- Declaring a function leaves the variables. -/
theorem globals_perform_function {u : Emit.UnitText} {decl : FunctionDecl}
    (h : s.perform (.declaration u (.function decl)) = some t) :
    t.symbols.globals = s.symbols.globals := by
  have heffect : ((Declaration.function decl).effect u.name s.symbols).symbols.globals
      = s.symbols.globals := by
    rcases (Declaration.function decl).effect_symbols u.name s.symbols with
      hsame | ⟨v, slot, heq, -⟩ | ⟨f, id, -, hdecl⟩
    · rw [hsame]
    · cases heq
    · exact Symbols.globals_declareFunction hdecl
  rcases takes_eq_some h with ⟨-, rfl⟩ | ⟨id, l, -, -, rfl⟩
  · exact heffect
  · exact heffect

/-- An act that adds no error. -/
theorem perform_cleared (hs : s.symbols.Cleared) (h : s.perform a = some t)
    (herrors : t.current.errors = s.current.errors) : t.symbols.Cleared := by
  have hbegins := perform_begins h
  cases a with
  | problem u d =>
      obtain rfl := Option.some.inj h
      exact hs
  | registered key =>
      obtain rfl := Option.some.inj h
      exact hs
  | declaration u decl =>
      cases decl with
      | global decl =>
          obtain ⟨hglobal, hfunction⟩ := new_of_perform h herrors
          have hextends := extends_of_new h hglobal hfunction
          have hdeclare : s.symbols.declareGlobal decl u.name
              = .ok (t.symbols, s.symbols.globals.length) := by
            have htable : t.symbols = ⟨s.symbols.functions, t.symbols.globals⟩ := by
              rw [← hextends.functions]
            rw [Symbols.declareGlobal, hglobal, hfunction, htable, hextends.globals]
            rfl
          refine hs.declareGlobal hdeclare (List.eq_nil_iff_forall_not_mem.mpr fun d hd => ?_)
          refine Diagnostic.errorCount_pos hd (Lowering.checkGlobal_errors _ _ d hd) ?_
          have hcount := hextends.errors
          omega
      | function decl => exact hs.begins hbegins (globals_perform_function h)

/-- A run that adds no error. -/
theorem performAll_cleared (hs : s.symbols.Cleared) (h : s.performAll acts = some t)
    (herrors : t.current.errors = s.current.errors) : t.symbols.Cleared := by
  induction acts generalizing s with
  | nil =>
      obtain rfl := Option.some.inj h
      exact hs
  | cons a rest ih =>
      obtain ⟨u, hu, hrest⟩ := Option.bind_eq_some_iff.mp h
      have hle := errors_le_perform hu
      have hle' := errors_le_performAll hrest
      exact ih (perform_cleared hs hu (by omega)) hrest (by omega)

end EmitState

/-- When an emission without errors comes to its end, the loader of the global variables has nothing
to say, whatever the entry point. -/
theorem Emit.root_cleared {front : FrontEnd} {loader : Loader} {s s' : EmitState} (hs : s.Ready)
    (hglobals : s.symbols.globals = []) (h : root front loader .full s = .ok () s')
    (herrors : s'.current.errors ≤ s.current.errors) :
    ∃ source t, s.current.source.bytes? = some source ∧
      parts .full ⟨s.current.name, Bytes.toText source⟩
        (Expanded.ofRoot front loader s.registry s.current.name source)
        { s with entrySeen := false } = .ok () t ∧
      finish .full t = .ok () s' ∧ t.symbols.Cleared := by
  rw [root_eq_outermost] at h
  obtain ⟨source, t, hsource, hloadable, hacts, hloads⟩ := (outermost_eq_ok_iff hs).mp h
  have hstart : EmitState.Ready { s with entrySeen := false } := ⟨hs.roomy, hs.numbered⟩
  have ht := hstart.performAll hacts
  refine ⟨source, t, hsource, (parts_eq_ok_iff _ _ hstart).mpr ⟨hloadable, hacts⟩,
    (finish_eq_ok_iff ht.roomy).mpr hloads, ?_⟩
  refine EmitState.performAll_cleared (s := { s with entrySeen := false })
    (.of_globals_eq_nil hglobals) hacts ?_
  have hle := EmitState.errors_le_performAll hacts
  have hle' := t.errors_le_concluded
  rw [← EmitState.errors_loads hloads] at hle'
  exact Nat.le_antisymm (Nat.le_trans hle' herrors) hle

/-- Checking global variables one by one is as good as lowering them all.  Against a table that
declarations make, the loader has to say what the single checks say, one after the other.  A variable
that was checked without a diagnostic where it was declared stays so after further declarations.  So
after an emission without errors there is nothing in the diagnostics of the loader, which are
dropped. -/
theorem Lowering.checked_one_by_one {start s : Symbols} (hstart : start.globals = [])
    (hs : start.Declares s) :
    (∀ entry, (ofGlobals s entry).diagnostics
      = (List.range s.globals.length).flatMap fun slot => checkGlobal slot s) ∧
    (∀ decl unit t slot, s.declareGlobal decl unit = .ok (t, slot) → checkGlobal slot t = [] →
      ∀ u, t.Declares u → checkGlobal slot u = []) ∧
    ∀ front loader i outer registry, i.Roomy → start.Numbered →
      (emitRoot front loader .full (i :: outer) registry start).outcome = .ok () →
      (emitRoot front loader .full (i :: outer) registry start).unit.errors ≤ i.errors →
      ∃ source t, i.source.bytes? = some source ∧
        Emit.parts .full ⟨i.name, Bytes.toText source⟩
          (Expanded.ofRoot front loader registry i.name source)
          (.start i outer registry start) = .ok () t ∧
        Emitted.ofResult (Emit.finish .full t)
          = emitRoot front loader .full (i :: outer) registry start ∧
        ∀ entry, (ofGlobals t.symbols entry).diagnostics = [] := by
  have hnodup : (start.globals.map GlobalSymbol.name).Nodup := by
    rw [hstart]
    exact List.nodup_nil
  refine ⟨fun entry => diagnostics_ofGlobals_eq_flatMap entry (hs.nodup_names hnodup),
    fun decl unit t slot hdecl hclean u => checkGlobal_declares hdecl hclean, ?_⟩
  intro front loader i outer registry hi hnumbered hok herrors
  rw [emitRoot_cons] at hok herrors ⊢
  cases hroot : Emit.root front loader .full (.start i outer registry start) with
  | error e s' =>
      rw [hroot] at hok
      cases hok
  | ok _ s' =>
      rw [hroot] at herrors
      obtain ⟨source, t, hsource, hparts, hfinish, hcleared⟩ :=
        Emit.root_cleared (s := .start i outer registry start) ⟨hi, hnumbered⟩ hstart hroot herrors
      exact ⟨source, t, hsource, hparts, by rw [hfinish], hcleared.diagnostics_ofGlobals⟩

/-- A variable that begins with the value of another one. -/
def VarDecl.copying (type : ValueType) (name source : String) : VarDecl :=
  ⟨type, name, some (.ident source .origin), .origin⟩

/-- The variables of `int a = b; float c = a;`, of which the first one is wrong, and so is the
second one for another reason. -/
def Symbols.mistaken : Symbols :=
  ⟨[], [⟨0, .copying .int "a" "b", "u"⟩, ⟨1, .copying .float "c" "a", "u"⟩]⟩

/-- The same variables, and one without mistakes. -/
def Symbols.lessMistaken : Symbols :=
  { mistaken with globals := mistaken.globals ++ [⟨2, .copying .int "d" "a", "u"⟩] }

/-- A script whose variables are initialized by a call and by each other. -/
def initializedScript : String := "int F() { return 1; } int g = F(); int h = g; void main() { }"

/-- Two mistakes are told by the loader as by the checks, a variable declared behind them stays right
when a function is declared, and the loader of a script without errors has nothing to say. -/
theorem Lowering.checked_one_by_one_mistaken :
    (ofGlobals .mistaken none).diagnostics
      = [.error (.undeclaredIdentifier "b") .origin, .error (.typeMismatch .float .int) .origin] ∧
    checkGlobal 2 (Symbols.lessMistaken.insert "F" .int [] "u").1 = [] ∧
    ∃ t, Emit.parts .full ⟨"script", initializedScript⟩
        (Expanded.ofRoot scriptFrontEnd (.ofSources []) .empty "script"
          (Bytes.ofText initializedScript))
        (.start (.ofText initializedScript) [] .empty .empty) = .ok () t ∧
      (ofGlobals t.symbols t.symbols.startFunction?).diagnostics = [] := by
  have hfirst : Symbols.empty.declareGlobal (.copying .int "a" "b") "u"
      = .ok (⟨[], [⟨0, .copying .int "a" "b", "u"⟩]⟩, 0) := rfl
  have hsecond : (Symbols.mk [] [⟨0, .copying .int "a" "b", "u"⟩]).declareGlobal
      (.copying .float "c" "a") "u" = .ok (.mistaken, 1) := rfl
  have hmistaken : Symbols.empty.Declares .mistaken := .global (.global .refl hfirst) hsecond
  obtain ⟨hall, hstays, hemit⟩ := checked_one_by_one rfl hmistaken
  refine ⟨(hall none).trans rfl, ?_, ?_⟩
  · have hdeclare : Symbols.mistaken.declareGlobal (.copying .int "d" "a") "u"
        = .ok (.lessMistaken, 2) := rfl
    have hfunction : Symbols.lessMistaken.declareFunction ⟨.int, "F", [], none, .origin⟩ "u"
        = .ok (Symbols.lessMistaken.insert "F" .int [] "u") := rfl
    exact hstays _ _ _ _ hdeclare rfl _ (.function .refl hfunction)
  · obtain ⟨source, t, hsource, hparts, -, hclean⟩ := hemit scriptFrontEnd (.ofSources [])
      (.ofText initializedScript) [] .empty (Instance.roomy_ofText _) Symbols.numbered_empty
      (by decide +kernel) (by decide +kernel)
    obtain rfl : Bytes.ofText initializedScript = source := Option.some.inj hsource
    have htext : Bytes.toText (Bytes.ofText initializedScript) = initializedScript :=
      Bytes.toText_ofText _
    rw [htext] at hparts
    exact ⟨t, hparts, hclean _⟩

end Nss
