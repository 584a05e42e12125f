/-
# The loader of a program

A pass without errors that declares global variables ends with a loader for them.  Its code passes
the verifier of functions, with one stage more for the time in which the base pointer is saved; its
cells, the offsets that are encoded for the variables and the cell for the result fit together; and
on the machine it does what the declarations and the entry point mean (`Program.Loads`).

Variables that were all checked without a diagnostic have declarations that follow the rules
(`Symbols.Cleared.initialized`), which is all that the code of the loader depends on.
-/
import Nss.Proofs.Unit.Checked
import Nss.Proofs.Machine.Loader
import Nss.Proofs.Session.StartUp

namespace Nss

open Steps

/-! ## Variables that were checked -/

namespace Symbols

variable {s T known : Symbols} {records : List Instruction} {loader entry : FunctionSymbol}
  {b : FunctionBody}

/-- Checking the variables one by one is enough for their declarations to follow the rules. -/
theorem Cleared.allEmit (h : s.Cleared) (hs : s.NonVoid) : ∀ k, k ≤ s.globals.length →
    ∃ c, Stmt.AllEmit (.ofLoader s .void) ⟨0, 0, []⟩
      (GlobalSymbol.declarations (s.globals.take k)) c [] (GlobalSymbol.vars (s.globals.take k))
  | 0, _ => ⟨[], .nil⟩
  | k + 1, hk => by
      obtain ⟨d, hd⟩ := h.allEmit hs k (Nat.le_of_succ_le hk)
      have hg := List.getElem?_eq_getElem hk
      obtain ⟨p, c, ls, vs, hp, hemits⟩ := Lowering.checkGlobal_emits hs hg (h.checked k hk)
      obtain ⟨rfl, rfl⟩ := hemits.var_eq
      have htake : s.globals.take (k + 1) = s.globals.take k ++ [s.globals[k]] := by
        rw [List.take_add_one, hg, Option.toList_some]
      rw [htake, GlobalSymbol.vars_concat, GlobalSymbol.declarations, List.map_append]
      refine ⟨d ++ c, hd.concat (hemits.var_mono rfl (Covered.refl s) ?_)⟩
      rw [hp]
      exact List.append_nil _

theorem Cleared.initialized (h : s.Cleared) (hs : s.NonVoid) : s.Initialized := by
  obtain ⟨c, hc⟩ := h.allEmit hs s.globals.length (Nat.le_refl _)
  rw [List.take_length] at hc
  exact ⟨h.names, c, hc⟩

end Symbols

/-! ## Passes with variables -/

/-- No variable is there when a pass begins. -/
theorem Symbols.Start.globals {start : Symbols} (h : start.Start) : start.globals = [] := by
  cases h with
  | empty => rfl
  | seeded _ _ => rfl

/-- A full pass that adds no error and declares variables ends with their loader. -/
theorem Emit.root_loadedFrom {loader : Loader} {s s' : EmitState} (hs : s.symbols.Scripted)
    (hroomy : s.current.Roomy) (hglobals : s.symbols.globals = [])
    (h : root scriptFrontEnd loader .full s = .ok () s')
    (herrors : s'.current.errors ≤ s.current.errors) (hsome : s'.symbols.globals ≠ []) :
    s'.symbols.Numbered ∧ ∃ known f, s'.symbols.LoadedFrom s'.current.records known f := by
  obtain ⟨source, t, -, hparts, hfinish, hcleared⟩ :=
    Emit.root_cleared ⟨hroomy, hs.toNumbered⟩ hglobals h herrors
  have hready : EmitState.Ready { s with entrySeen := false } := ⟨hroomy, hs.toNumbered⟩
  have hran := parts_ran (s := { s with entrySeen := false }) .full _ _
    (content_proper loader .full _ _ source) hs hparts
  have ht := hready.performAll ((parts_eq_ok_iff _ _ hready).mp hparts).2
  have hloads := (finish_eq_ok_iff ht.roomy).mp hfinish
  have hsymbols := t.symbols_concluded
  have hscripted : t.concluded.symbols.Scripted := hsymbols ▸ hran.scripted
  have hinitialized : t.concluded.symbols.Initialized :=
    hsymbols ▸ hcleared.initialized hran.scripted.toNonVoid
  have hknown : t.concluded.symbols.globals ≠ [] := by
    intro hnil
    rw [EmitState.loads, if_pos (by rw [hnil]; rfl)] at hloads
    obtain rfl := Option.some.inj hloads
    exact hsome hnil
  obtain ⟨f, htable, hname, hparams, hresult, hcode⟩ :=
    EmitState.loads_spec hscripted hknown hloads
  have hnone : ∀ g, t.concluded.symbols.lookup? globalsLoader = some g → g.body = none := by
    rw [Symbols.lookup?_globalsLoader hscripted]
    rintro g ⟨⟩
  have hgains := addLoader_gains hscripted.toNumbered hnone
    ((addLoader_eq_ok_iff ht.concluded.roomy).mpr hloads)
  refine ⟨hgains.numbered, t.concluded.symbols, f, htable, hscripted, hinitialized, hname, hparams,
    ?_, hcode⟩
  intro g hg
  rw [hresult, EmitState.loaderResult, hg]

/-! ## What a loader does -/

namespace Program

open Verifier Symbols.LoadedFrom

/-- A program begins with the loader of its variables, and that loads them: its code passes the
verifier, its cells are those that the encoded offsets lead to, and it calls the entry point on
them. -/
structure Loads (T : Symbols) (records : List Instruction) (entry loader : FunctionSymbol)
    (b : FunctionBody) : Prop where
  /-- The loader is what the start calls, on a cell for the result of the entry point. -/
  starts : startCode T entry = reserveCode entry.result ++ [.callTo loader.id] ++ [.ending]
  found : T.function? loader.id = some loader
  params : loader.params = []
  body : loader.body = some b
  /-- From the cells of the start back to them, with the variables on top at SAVEBP. -/
  verified : ∃ stages,
    VerifiedBy (Advances T (callShape entry)) ⟨b.code records, b.labels⟩ (.plain (callShape entry))
      stages ∧
    (b.code records)[(beforeSave (b.code records)).length]? = some (.simple .saveBp) ∧
    stages[(beforeSave (b.code records)).length]? = some (.plain (savedShape T entry)) ∧
    ∀ n : Nat, (b.code records)[n]? = some .ending → stages[n]? = some (.plain (callShape entry))
  /-- The offset that is encoded for a variable leads from SAVEBP to its cell. -/
  addresses : ∀ (slot : Nat) (v : GlobalSymbol), T.globals[slot]? = some v → v.slot = slot ∧
    ∀ placed p at_, ∃ offset k, resolve T.globals.length placed p at_ (.global slot) = .ok offset ∧
      (Operand.stack offset (UInt16.ofNat cellSize)).cell? = some k ∧
      (GlobalSymbol.vars T.globals)[k]? = some v.param
  /-- Behind SAVEBP nothing is called but the entry point. -/
  calls : (behindSave (b.code records)).filterMap Instruction.callee? = [entry.id]
  /-- The values of the variables are on the stack at SAVEBP, the entry point runs on them, and its
  result is in the cell of the start when the loader ends. -/
  runs : ∀ {Cell : Type} (I : Interpretation Cell) (bp : Cell) (below rest : List Cell) (n : Nat)
    (env : Env Cell) (g₀ g₁ : Globals Cell), below.length = entry.result.width →
    Stmt.execAll I T n (GlobalSymbol.declarations T.globals) [] g₀ = some (.normal env g₁) →
    env.map Prod.fst = GlobalSymbol.vars T.globals ∧
      Machine.LoaderRuns I T bp ⟨b.code records, b.labels⟩ ⟨0, below ++ rest, g₀⟩
        ⟨(beforeSave (b.code records)).length, env.cells ++ (below ++ rest), g₁⟩ ∧
      ∃ g, (∀ v ∈ T.globals, env.lookup? v.name = some ⟨v.type, g v.slot⟩) ∧
        ∀ res g₂, Machine.call? I T entry.id (entry.result.cells.map I.initial) g = some (res, g₂) →
          ∃ pc, (b.code records)[pc]? = some .ending ∧
            Machine.LoaderRuns I T bp ⟨b.code records, b.labels⟩ ⟨0, below ++ rest, g₀⟩
              ⟨pc, res ++ rest, g₂⟩

/-- The offset that is encoded for a variable leads from SAVEBP to its cell. -/
theorem resolve_global {T : Symbols} (hrep : Representable T.globals.length) {slot : Nat}
    {v : GlobalSymbol} (hv : T.globals[slot]? = some v) (placed : List Placed) (p : Placed)
    (at_ : Nat) :
    ∃ offset k, resolve T.globals.length placed p at_ (.global slot) = .ok offset ∧
      (Operand.stack offset (UInt16.ofNat cellSize)).cell? = some k ∧
      (GlobalSymbol.vars T.globals)[k]? = some v.param := by
  have hslot := (List.getElem?_eq_some_iff.mp hv).1
  refine ⟨_, _, rfl, Machine.cell?_globalOffset hslot hrep, ?_⟩
  have hback : T.globals.length - 1 - (T.globals.length - 1 - slot) = slot := by omega
  rw [GlobalSymbol.vars, List.getElem?_reverse (by rw [List.length_map]; omega), List.length_map,
    List.getElem?_map, hback, hv, Option.map_some]

end Program

namespace Symbols.LoadedFrom

open Program Verifier

variable {T known : Symbols} {records : List Instruction} {loader entry : FunctionSymbol}
  {b : FunctionBody}

/-- The whole code of a loader passes the verifier. -/
theorem verified (h : T.LoadedFrom records known loader) (hn : T.Numbered)
    (hentry : T.entryPoint = .ok entry) (hparams : entry.params = []) (hb : loader.body = some b)
    (hrep : Representable (T.loaderHeight entry)) :
    ∃ stages,
      VerifiedBy (Advances T (callShape entry)) ⟨b.code records, b.labels⟩ (.plain (callShape entry))
        stages ∧
      (b.code records)[(beforeSave (b.code records)).length]? = some (.simple .saveBp) ∧
      stages[(beforeSave (b.code records)).length]? = some (.plain (savedShape T entry)) ∧
      ∀ n : Nat, (b.code records)[n]? = some .ending → stages[n]? = some (.plain (callShape entry)) := by
  obtain ⟨c, -, hbefore, hcode, hbehind⟩ := h.parts hentry hb
  obtain ⟨stages, hfirst⟩ := h.passes_beforeSave hn hentry hb hrep
  obtain ⟨stages', hlast⟩ := h.passes_behindSave hn hentry hparams hb hrep
  have hlength := hfirst.length_eq
  have hall := hfirst.append hlast
  rw [hbefore] at hall hlength ⊢
  rw [← hcode] at hall
  refine ⟨stages ++ stages', ?_, ?_, ?_, ?_⟩
  · have hsplit : b.code records = (c ++ .simple .saveBp :: (known.entryCode entry
        ++ [.simple .restoreBp] ++ popCode T.globals.length)) ++ [.ending] := by
      rw [hcode, hbehind]
      simp only [List.append_assoc, List.cons_append]
    rw [hsplit] at hall ⊢
    exact hall.verifiedBy rfl b.labels
  · rw [hcode, List.getElem?_append_right (Nat.le_refl _), Nat.sub_self]
    rfl
  · rw [List.getElem?_append_right (Nat.le_of_eq hlength), hlength, Nat.sub_self]
    cases hlast with
    | cons _ _ _ _ => rfl
  · intro n hend
    obtain ⟨U, V, hU, hleaves, -, -⟩ := hall.step hend
    rw [hU, hleaves.eq_stop]

/-- Behind SAVEBP nothing is called but the entry point. -/
theorem callees_behindSave (h : T.LoadedFrom records known loader) (hentry : T.entryPoint = .ok entry)
    (hb : loader.body = some b) :
    (behindSave (b.code records)).filterMap Instruction.callee? = [entry.id] := by
  obtain ⟨c, -, -, -, hbehind⟩ := h.parts hentry hb
  have hpop : (popCode T.globals.length).filterMap Instruction.callee? = [] := by
    rw [popCode]
    split
    · rfl
    · rfl
  have hcall : (known.entryCode entry).filterMap Instruction.callee? = [entry.id] := by
    rw [entryCode, reserveCode]
    cases entry.result.isVoid with
    | true => rfl
    | false => rfl
  rw [hbehind, List.filterMap_append, List.filterMap_append, List.filterMap_append, hcall, hpop]
  rfl

/-- The loader of a program loads its variables. -/
theorem loads (h : T.LoadedFrom records known loader) (hn : T.Numbered) (hglobals : T.globals ≠ [])
    (hentry : T.entryPoint = .ok entry) (hparams : entry.params = []) (hb : loader.body = some b)
    (hrep : Representable (T.loaderHeight entry)) : Loads T records entry loader b where
  starts := by
    have hsome := h.loaderOf? hglobals
    exact startCode_eq (by rw [hsome]; rfl)
  found := (loaderOf?_eq_some hn (h.loaderOf? hglobals)).1
  params := h.params
  body := hb
  verified := h.verified hn hentry hparams hb hrep
  addresses := by
    intro slot v hv
    have hlength : Representable T.globals.length := by
      refine hrep.mono ?_
      rw [loaderHeight]
      omega
    exact ⟨hn.global slot v hv, resolve_global hlength hv⟩
  calls := h.callees_behindSave hentry hb
  runs := by
    intro Cell I bp below rest n env g₀ g₁ hbelow hvalues
    exact h.runs hn hentry hparams hb hrep hbelow rest hvalues

end Symbols.LoadedFrom

/-- The global variables of a script are loaded.  After a full pass that ends without errors and
leaves variables, the program begins with their loader, and that gives every variable its first value
in the cell that the encoded offsets lead to, calls the entry point on them, and leaves nothing but its
result, in the cell that the start has reserved for it. -/
theorem emitRoot_loads {loader : Loader} {i : Instance} {outer : List Instance} {registry : Registry}
    {start : Symbols} (hstart : start.Start) (hi : i.Roomy)
    (hok : (emitRoot scriptFrontEnd loader .full (i :: outer) registry start).outcome = .ok ())
    (hclean : (emitRoot scriptFrontEnd loader .full (i :: outer) registry start).unit.errors = 0)
    (hglobals : (emitRoot scriptFrontEnd loader .full (i :: outer) registry start).symbols.globals ≠ [])
    {entry : FunctionSymbol}
    (hentry : (emitRoot scriptFrontEnd loader .full (i :: outer) registry start).symbols.entryPoint
      = .ok entry)
    (hparams : entry.params = [])
    (hsize : Representable
      ((emitRoot scriptFrontEnd loader .full (i :: outer) registry start).symbols.loaderHeight entry)) :
    ∃ f b, Program.Loads
      (emitRoot scriptFrontEnd loader .full (i :: outer) registry start).symbols
      (emitRoot scriptFrontEnd loader .full (i :: outer) registry start).unit.records entry f b := by
  rw [emitRoot_cons] at hok hclean hglobals hentry hsize ⊢
  cases hroot : Emit.root scriptFrontEnd loader .full (.start i outer registry start) with
  | error e s' =>
      rw [hroot] at hok
      cases hok
  | ok _ s' =>
      rw [hroot] at hclean hglobals hentry hsize
      have herrors : s'.current.errors = 0 := hclean
      obtain ⟨hn, known, f, hloaded⟩ := Emit.root_loadedFrom (s := .start i outer registry start)
        hstart.scripted.1 hi hstart.globals hroot (by omega) hglobals
      obtain ⟨b, hb, -⟩ := hloaded.code
      exact ⟨f, b, hloaded.loads hn hglobals hentry hparams hb hsize⟩

/-- A condition whose value comes from a variable that a function initializes. -/
def conditionScript : String :=
  "int F() { return 1; } int g = F(); float h; int StartingConditional() { return g; }"

/-- The variables of a condition are loaded, and the cell for its value is handed through. -/
theorem emitRoot_loads_condition :
    ∃ entry f b, (emitText conditionScript).symbols.entryPoint = .ok entry ∧ entry.result = .int ∧
      Program.Loads (emitText conditionScript).symbols (emitText conditionScript).unit.records entry f
        b := by
  let e := emitText conditionScript
  let entry := e.symbols.functions[1]!
  have hrun : e.outcome = .ok () ∧ e.unit.errors = 0 ∧ e.symbols.globals ≠ [] ∧
      e.symbols.entryPoint = .ok entry ∧ entry.params = [] ∧ entry.result = .int ∧
      Representable (e.symbols.loaderHeight entry) := by
    decide +kernel
  obtain ⟨hok, hclean, hglobals, hentry, hparams, hresult, hsize⟩ := hrun
  obtain ⟨f, b, hloads⟩ := emitRoot_loads .empty (Instance.roomy_ofText conditionScript) hok hclean
    hglobals hentry hparams hsize
  exact ⟨entry, f, b, hentry, hresult, hloads⟩

end Nss
