/-
# The stack while a script starts

A script is started with a stack that belongs to whoever starts it.  Its first instructions reserve a
cell for the result, if there is one, and call the loader of the global variables, or else the
function that the script begins with; no arguments are ever pushed for them.

    no variables     RSADD?  JSR entry  RETN
    variables        RSADD?  JSR loader  RETN
    the loader       first values  SAVEBP  RSADD?  JSR entry  ...  RESTOREBP  MOVSP  RETN

By the convention of calls, a callee takes its parameters.  So all of this is balanced exactly if the
function that the script begins with has none (`ComesFrom.balanced_iff`), as long as the size of the
variables can be given to the one instruction that takes them all.
-/
import Nss.Proofs.Program.Loading
import Nss.Proofs.Lowering.Balance
import Nss.Proofs.Session.Compiled

namespace Nss

namespace Program

/-- The start of a script finds the stack as callees should, and leaves it as it was, with the value
of a condition on top.  So does the loader, if there is one: it leaves what it was called on, and when
it calls the function that the script begins with, that finds its cells above the saved base
pointer. -/
structure Balanced (symbols : Symbols) (records : List Instruction) (entry : FunctionSymbol) :
    Prop where
  calls : symbols.CallsFit 0 (startCode symbols entry)
  ends : symbols.rise (startCode symbols entry)
    = if entry.name = Symbols.conditionName then 1 else 0
  loaderCalls : ∀ loader b, loaderOf? symbols = some loader → loader.body = some b →
    symbols.CallsFit 0 (behindSave (b.code records))
  loaderEnds : ∀ loader b, loaderOf? symbols = some loader → loader.body = some b →
    symbols.rise (b.code records) = -(loader.params.length : Int)

end Program

namespace Symbols

open Program

variable {T known : Symbols} {records : List Instruction} {entry f loader : FunctionSymbol}
  {decls : List Declaration}

/-- Only a condition has a result. -/
theorem width_of_entryPoint (h : T.entryPoint = .ok entry) :
    entry.result.width = if entry.name = conditionName then 1 else 0 := by
  rw [Symbols.entryPoint] at h
  split at h
  · next g hmain =>
      split at h
      · next hvoid =>
          obtain rfl := Except.ok.inj h
          rw [name_of_lookup? hmain, ValueType.width, if_pos hvoid, if_neg (by decide)]
      · cases h
  · split at h
    · next g hcondition =>
        split at h
        · next hint =>
            obtain rfl := Except.ok.inj h
            rw [name_of_lookup? hcondition, hint, if_pos rfl]
            rfl
        · cases h
    · cases h

/-! ## One call -/

/-- Code that reserves a cell for the result, if there is one, and calls a function right after. -/
theorem callsFit_call (hf : T.function? f.id = some f) {t : ValueType} {rest : List Instruction}
    (hrest : ∀ i ∈ rest, i.callee? = none) :
    T.CallsFit 0 (reserveCode t ++ [.callTo f.id] ++ rest) ↔
      t.width = f.result.width + f.params.length := by
  have hreserve : ∀ i ∈ reserveCode t, i.callee? = none := by
    intro i hi
    rw [reserveCode] at hi
    split at hi
    · cases hi
    · rw [List.mem_singleton.mp hi]
      rfl
  rw [callsFit_append, callsFit_append, callsFit_callTo hf, rise_reserveCode, Int.zero_add]
  constructor
  · rintro ⟨⟨-, hwidth⟩, -⟩
    exact_mod_cast hwidth
  · intro hwidth
    exact ⟨⟨callsFit_of_plain hreserve _, by exact_mod_cast hwidth⟩, callsFit_of_plain hrest _⟩

theorem rise_call (hf : T.function? f.id = some f) (t : ValueType) :
    T.rise (reserveCode t ++ [.callTo f.id]) = t.width - (f.params.length : Int) := by
  rw [rise_append, rise_reserveCode, rise_cons, rise_nil, Instruction.change_callTo hf]
  omega

/-- The start calls the loader, or else the function that the script begins with. -/
theorem startCode_eq (hf : (loaderOf? T).getD entry = f) :
    startCode T entry = reserveCode entry.result ++ [.callTo f.id] ++ [.ending] := by
  rw [startCode, hf, reserveCode, List.append_assoc]
  rfl

/-- The start is in order if what it calls has no parameters. -/
theorem callsFit_startCode (hf : T.function? f.id = some f) (hcalled : (loaderOf? T).getD entry = f)
    (hresult : f.result = entry.result) : T.CallsFit 0 (startCode T entry) ↔ f.params = [] := by
  rw [startCode_eq hcalled, callsFit_call hf (List.forall_mem_singleton.mpr rfl), hresult,
    ← List.length_eq_zero_iff]
  omega

/-- What is left at the end of the start. -/
theorem rise_startCode (hf : T.function? f.id = some f) (hcalled : (loaderOf? T).getD entry = f)
    (hparams : f.params = []) (hentry : T.entryPoint = .ok entry) :
    T.rise (startCode T entry) = if entry.name = conditionName then 1 else 0 := by
  rw [startCode_eq hcalled, rise_append, rise_call hf, hparams, rise_cons, rise_nil,
    Instruction.change_ending, width_of_entryPoint hentry]
  split
  · rfl
  · rfl

/-! ## The loader -/

namespace LoadedFrom

/-- The functions of the table without the loader are found in the one with it. -/
theorem foundIn (h : T.LoadedFrom records known loader) : known.FoundIn T := by
  intro name f hf
  rw [h.table]
  exact function?_withFunction_of_lt (h.scripted.function?_of_lookup? hf)

/-- The call of the function that the script begins with, and what is left of its result. -/
theorem rise_entryCode (hentry : T.function? entry.id = some entry) :
    T.rise (known.entryCode entry) = -(entry.params.length : Int) := by
  have hpop : (Instruction.pop 1).change T = -1 := Instruction.change_pop_iff.mpr (by decide)
  rw [entryCode, rise_append, rise_call hentry, ValueType.width]
  cases entry.result.isVoid with
  | true => simp
  | false =>
      simp only [Bool.false_eq_true, if_false, rise_cons, rise_nil, Instruction.change_storeCell,
        hpop]
      omega

/-- The cells that the loader leaves. -/
theorem rise_code (h : T.LoadedFrom records known loader) (hentry : T.entryPoint = .ok entry)
    (hnumbered : T.Numbered) {b : FunctionBody} (hb : loader.body = some b) :
    T.rise (b.code records) = (T.globals.length : Int) - entry.params.length
      + T.rise (popCode T.globals.length) := by
  obtain ⟨hfun, -, -⟩ := entryPoint_eq_ok hnumbered hentry
  obtain ⟨c, hc, -, hcode, hbehind⟩ := h.parts hentry hb
  have hvoid : ∀ g ∈ T.globals, g.type ≠ .void := h.globals_eq ▸ h.scripted.globals
  have hvalues : T.rise c = T.globals.length :=
    hc.rise h.foundIn ⟨h.scripted.toNonVoid, List.forall_mem_nil _⟩ hvoid
  rw [hcode, hbehind]
  simp only [rise_append, rise_cons, rise_nil, hvalues, rise_entryCode hfun,
    Instruction.change_saveBp, Instruction.change_restoreBp, Instruction.change_ending]
  omega

/-- The loader calls the function that the script begins with in order if that has no parameters. -/
theorem callsFit_behindSave (h : T.LoadedFrom records known loader)
    (hentry : T.entryPoint = .ok entry) (hnumbered : T.Numbered) {b : FunctionBody}
    (hb : loader.body = some b) :
    T.CallsFit 0 (behindSave (b.code records)) ↔ entry.params = [] := by
  obtain ⟨hfun, -, -⟩ := entryPoint_eq_ok hnumbered hentry
  obtain ⟨c, -, -, -, hbehind⟩ := h.parts hentry hb
  have hplain : ∀ i ∈ (if entry.result.isVoid then []
      else [.storeCell (Spot.fromTop 1 (known.globals.length + 1)), .pop 1])
        ++ [Instruction.simple .restoreBp] ++ popCode T.globals.length ++ [.ending],
      i.callee? = none := by
    intro i hi
    simp only [List.mem_append, List.mem_singleton, popCode] at hi
    grind [Instruction.callee?, Instruction.simple, Instruction.ending, Instruction.pop,
      Instruction.storeCell]
  have hshape : behindSave (b.code records) = reserveCode entry.result ++ [.callTo entry.id]
      ++ ((if entry.result.isVoid then []
        else [.storeCell (Spot.fromTop 1 (known.globals.length + 1)), .pop 1])
          ++ [Instruction.simple .restoreBp] ++ popCode T.globals.length ++ [.ending]) := by
    rw [hbehind, entryCode]
    simp only [List.append_assoc]
  rw [hshape, callsFit_call hfun hplain, ← List.length_eq_zero_iff]
  omega

end LoadedFrom

/-! ## Programs -/

/-- A program without global variables starts in order exactly if the function that it begins with has
no parameters. -/
theorem balanced_iff_of_bare (hnone : loaderOf? T = none) (hentry : T.entryPoint = .ok entry)
    (hfun : T.function? entry.id = some entry) : Balanced T records entry ↔ entry.params = [] := by
  have hcalled : (loaderOf? T).getD entry = entry := by rw [hnone]; rfl
  have hcalls := callsFit_startCode hfun hcalled rfl
  constructor
  · intro hbalanced
    exact hcalls.mp hbalanced.calls
  · intro hparams
    refine ⟨hcalls.mpr hparams, rise_startCode hfun hcalled hparams hentry, ?_, ?_⟩
    · rw [hnone]
      exact nofun
    · rw [hnone]
      exact nofun

/-- A program with global variables starts in order exactly if, besides, the loader takes all of its
variables. -/
theorem LoadedFrom.balanced_iff (h : T.LoadedFrom records known loader) (hglobals : T.globals ≠ [])
    (hentry : T.entryPoint = .ok entry) (hnumbered : T.Numbered) :
    Balanced T records entry ↔
      entry.params = [] ∧ T.rise (popCode T.globals.length) = -(T.globals.length : Int) := by
  obtain ⟨b, hb, -⟩ := h.code
  have hsome := h.loaderOf? hglobals
  obtain ⟨hload, -⟩ := loaderOf?_eq_some hnumbered hsome
  have hcalled : (Program.loaderOf? T).getD entry = loader := by rw [hsome]; rfl
  have hresult := h.result entry (h.startFunction? hentry)
  have hrise := h.rise_code hentry hnumbered hb
  have hcalls := h.callsFit_behindSave hentry hnumbered hb
  have hnone : (loader.params.length : Int) = 0 := by rw [h.params]; rfl
  constructor
  · intro hbalanced
    have hparams := hcalls.mp (hbalanced.loaderCalls loader b hsome hb)
    have hends := hbalanced.loaderEnds loader b hsome hb
    rw [hrise, hparams, hnone, List.length_nil] at hends
    exact ⟨hparams, by omega⟩
  · rintro ⟨hparams, hpop⟩
    refine ⟨(callsFit_startCode hload hcalled hresult).mpr h.params,
      rise_startCode hload hcalled h.params hentry, ?_, ?_⟩
    · intro loader' b' hloader' hb'
      obtain rfl := Option.some.inj (hsome.symm.trans hloader')
      obtain rfl := Option.some.inj (hb.symm.trans hb')
      exact hcalls.mpr hparams
    · intro loader' b' hloader' hb'
      obtain rfl := Option.some.inj (hsome.symm.trans hloader')
      obtain rfl := Option.some.inj (hb.symm.trans hb')
      rw [hrise, hpop, hparams, hnone, List.length_nil]
      omega

/-- A program starts in order exactly if the function that it begins with has no parameters, and the
size of its variables can be given to one instruction. -/
theorem ComesFrom.balanced_iff (h : T.ComesFrom records decls) (hentry : T.entryPoint = .ok entry) :
    Balanced T records entry ↔
      entry.params = [] ∧ cellSize * T.globals.length ≤ 2 ^ 31 := by
  by_cases hglobals : T.globals = []
  · obtain ⟨hfun, -, -⟩ := entryPoint_eq_ok h.numbered hentry
    have hnone : loaderOf? T = none := by rw [loaderOf?, hglobals]; rfl
    rw [balanced_iff_of_bare hnone hentry hfun, hglobals]
    exact (and_iff_left (by decide)).symm
  · obtain ⟨known, loader, hloaded⟩ := h.loader hglobals
    rw [hloaded.balanced_iff hglobals hentry h.numbered, rise_popCode_iff]

end Symbols

/-! ## Units that are compiled -/

namespace Session

variable {s : Session} {files : FileTree} {unitPath : String} {source : Bytes} {loader : Loader}
  {outputPath : Option String} {report : Report}

/-- A compiled unit starts in order exactly if the function that it begins with has no parameters, and
the size of its variables can be given to one instruction. -/
theorem compileSource_balanced_iff (hfront : s.front = scriptFrontEnd)
    (h : (s.compileSource files unitPath source loader outputPath).1 = .ok report)
    (hcompiled : report.status = .compiled) :
    ∃ pass artifact entry,
      s.Compiles files unitPath source loader outputPath report pass artifact ∧
      pass.symbols.entryPoint = .ok entry ∧
      (Program.Balanced pass.symbols pass.unit.records entry ↔
        entry.params = [] ∧ cellSize * pass.symbols.globals.length ≤ 2 ^ 31) := by
  obtain ⟨pass, artifact, hcompiles⟩ := exists_compiles h hcompiled
  obtain ⟨entry, hentry⟩ := hcompiles.exists_entry
  exact ⟨pass, artifact, entry, hcompiles, hentry, (hcompiles.comesFrom hfront).balanced_iff hentry⟩

/-- A condition that depends on a global variable. -/
def readsGlobal : Bytes :=
  Bytes.ofText "int g = 2;\nint StartingConditional() { return g; }"

/-- That condition starts in order. -/
theorem compileSource_balanced_iff_readsGlobal :
    ∃ report pass artifact entry,
      ((start plainOptions scriptFrontEnd).compileSource .empty "check.nss" readsGlobal
        (.ofSources []) (some "check.ncs")).1 = .ok report ∧
      report.status = .compiled ∧
      (start plainOptions scriptFrontEnd).Compiles .empty "check.nss" readsGlobal (.ofSources [])
        (some "check.ncs") report pass artifact ∧
      pass.symbols.entryPoint = .ok entry ∧
      Program.Balanced pass.symbols pass.unit.records entry := by
  have hreport : ((start plainOptions scriptFrontEnd).compileSource .empty "check.nss" readsGlobal
      (.ofSources []) (some "check.ncs")).1.toOption.map Report.status = some .compiled := by
    decide +kernel
  have hpass : ((start plainOptions scriptFrontEnd).scriptPass? "check.nss" readsGlobal
      (.ofSources [])).map (fun p => (p.symbols.entryPoint.toOption.map FunctionSymbol.params,
        p.symbols.globals.length)) = some (some [], 1) := by
    decide +kernel
  obtain ⟨report, h, hcompiled⟩ := exists_report hreport
  obtain ⟨pass, artifact, entry, hcompiles, hentry, hbalanced⟩ :=
    compileSource_balanced_iff rfl h hcompiled
  rw [hcompiles.scriptPass?_eq, Option.map_some, hentry] at hpass
  obtain ⟨hparams, hglobals⟩ := Prod.mk.inj (Option.some.inj hpass)
  refine ⟨report, pass, artifact, entry, h, hcompiled, hcompiles, hentry, hbalanced.mpr ⟨?_, ?_⟩⟩
  · exact Option.some.inj hparams
  · rw [hglobals]
    decide

/-- A script that begins with a function of one parameter. -/
def wantsArgument : Bytes := Bytes.ofText "void main(int n) { }"

/-- That script is compiled, and does not start in order. -/
theorem compileSource_unbalanced :
    ∃ report pass artifact entry,
      ((start plainOptions scriptFrontEnd).compileSource .empty "init.nss" wantsArgument
        (.ofSources []) (some "init.ncs")).1 = .ok report ∧
      report.status = .compiled ∧
      (start plainOptions scriptFrontEnd).Compiles .empty "init.nss" wantsArgument (.ofSources [])
        (some "init.ncs") report pass artifact ∧
      pass.symbols.entryPoint = .ok entry ∧
      ¬ Program.Balanced pass.symbols pass.unit.records entry := by
  have hreport : ((start plainOptions scriptFrontEnd).compileSource .empty "init.nss" wantsArgument
      (.ofSources []) (some "init.ncs")).1.toOption.map Report.status = some .compiled := by
    decide +kernel
  have hpass : ((start plainOptions scriptFrontEnd).scriptPass? "init.nss" wantsArgument
      (.ofSources [])).map (fun p => p.symbols.entryPoint.toOption.map FunctionSymbol.params)
        = some (some [.int]) := by
    decide +kernel
  obtain ⟨report, h, hcompiled⟩ := exists_report hreport
  obtain ⟨pass, artifact, hcompiles⟩ := exists_compiles h hcompiled
  obtain ⟨entry, hentry⟩ := hcompiles.exists_entry
  rw [hcompiles.scriptPass?_eq, Option.map_some, hentry] at hpass
  have hparams : entry.params = [.int] := Option.some.inj (Option.some.inj hpass)
  refine ⟨report, pass, artifact, entry, h, hcompiled, hcompiles, hentry, ?_⟩
  rw [(hcompiles.comesFrom rfl).balanced_iff hentry, hparams]
  simp

end Session

end Nss
