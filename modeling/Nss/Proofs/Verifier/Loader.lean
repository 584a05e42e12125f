/-
# Loaders pass the verifier

The verifier does not know a base pointer, and the code of functions never saves one.  The loader of
the global variables does: from SAVEBP to RESTOREBP there is a cell in its stack that is no value, and
what lies below that cell are the global variables, which are reached through the base pointer from
then on.  A `Stage` is a shape together with this: either the base pointer is still that of the
caller, or it is saved, with some values above it and a frame below.

    SAVEBP     from a frame without values on it; the frame is now below
    between    what fits the values above the saved base pointer, and no end of the function
    CPDOWNSP   may also store in a cell of the frame below
    RESTOREBP  when no values are left above; the frame is on top again

Nothing goes through the base pointer before it is saved.  Apart from that the instructions fit as
they do in functions: `VerifiedBy` is what it takes for code to be verified, for shapes and for stages
(`verified_iff`).
-/
import Nss.Proofs.Verifier.Functions
import Nss.Proofs.Program.Loading

namespace Nss

namespace Verifier

/-! ## Stages -/

/-- The shape of a stack in the code of a loader. -/
inductive Stage where
  /-- The base pointer is that of the caller. -/
  | plain (S : Shape)
  /-- The base pointer is saved, with some values above it and a frame below. -/
  | saved (values frame : List ValueType)
deriving DecidableEq, Repr

/-- An instruction of a loader fits a stage and leaves another one. -/
inductive Advances (symbols : Symbols) (stop : Shape) : Instruction → Stage → Stage → Prop
  | plain {i : Instruction} {S S' : Shape} :
      i.usesBase = false → Leaves symbols stop i S S' →
      Advances symbols stop i (.plain S) (.plain S')
  | save {frame : List ValueType} :
      Advances symbols stop (.simple .saveBp) (.plain ⟨[], frame⟩) (.saved [] frame)
  | above {i : Instruction} {values values' frame : List ValueType} :
      i.op ≠ .retn → transfer? symbols stop i ⟨values, []⟩ = some ⟨values', []⟩ →
      Advances symbols stop i (.saved values frame) (.saved values' frame)
  | store {x : Operand} {k : Nat} {t : ValueType} {values frame : List ValueType} :
      x.cell? = some (values.length + 2 + k) → frame[k]? = some t →
      Advances symbols stop ⟨.cpDownSp, x⟩ (.saved (t :: values) frame) (.saved (t :: values) frame)
  | restore {frame : List ValueType} :
      Advances symbols stop (.simple .restoreBp) (.saved [] frame) (.plain ⟨[], frame⟩)

/-- The end of a loader fits nothing but what the caller is left with. -/
theorem Advances.eq_stop {symbols : Symbols} {stop : Shape} {B B' : Stage}
    (h : Advances symbols stop .ending B B') : B = .plain stop := by
  cases h with
  | @plain _ S _ _ hleaves =>
      rcases hleaves with htransfer | hdeclare
      · have hend : (if S = stop then some S else none) = some _ := htransfer
        obtain ⟨rfl, -⟩ := Option.ite_none_right_eq_some.mp hend
        rfl
      · cases hdeclare
  | above hne _ => exact absurd rfl hne

/-- Every instruction of some code has a shape that it fits, and what it leaves is the shape of each
instruction that may be run next. -/
structure VerifiedBy {σ : Type} (leaves : Instruction → σ → σ → Prop) (R : Routine) (start : σ)
    (shapes : List σ) : Prop where
  length : shapes.length = R.code.length
  start : shapes[0]? = some start
  step : ∀ (n : Nat) (i : Instruction), R.code[n]? = some i →
    ∃ S S', shapes[n]? = some S ∧ leaves i S S' ∧
      (i.fallsThrough = true → shapes[n + 1]? = some S') ∧
      (∀ l, i.label? = some l →
        ∃ target, R.labels[l]? = some (some target) ∧ shapes[target]? = some S')

/-- This is what the verifier demands of functions, if their labels stand before instructions. -/
theorem verified_iff {symbols : Symbols} {R : Routine} {start stop : Shape} {shapes : List Shape} :
    Verified symbols R start stop shapes ↔
      VerifiedBy (Leaves symbols stop) R start shapes ∧
        ∀ label ∈ R.labels, ∃ target, label = some target ∧ target < R.code.length :=
  ⟨fun h => ⟨⟨h.length, h.start, h.step⟩, h.labels⟩, fun h => ⟨h.1.length, h.1.start, h.1.step, h.2⟩⟩

/-! ## Code without jumps -/

/-- Code without jumps goes from one shape to another, with a shape for each instruction. -/
inductive Passes {σ : Type} (leaves : Instruction → σ → σ → Prop) :
    σ → List Instruction → List σ → σ → Prop
  | nil {S : σ} : Passes leaves S [] [] S
  | cons {S S' T U : σ} {i : Instruction} {code : List Instruction} {shapes : List σ} :
      leaves i S S' → i.label? = none → (i.fallsThrough = true → T = S') →
      Passes leaves T code shapes U → Passes leaves S (i :: code) (S :: shapes) U

namespace Passes

variable {σ : Type} {leaves : Instruction → σ → σ → Prop} {S T U : σ} {i : Instruction}
  {code code' : List Instruction} {shapes shapes' : List σ}

theorem single (h : leaves i S T) (hi : i.label? = none) : Passes leaves S [i] [S] T :=
  .cons h hi (fun _ => rfl) .nil

theorem append (h : Passes leaves S code shapes T) (h' : Passes leaves T code' shapes' U) :
    Passes leaves S (code ++ code') (shapes ++ shapes') U := by
  induction h with
  | nil => exact h'
  | cons hleaves hlabel hnext _ ih => exact .cons hleaves hlabel hnext (ih h')

theorem length_eq (h : Passes leaves S code shapes T) : shapes.length = code.length := by
  induction h with
  | nil => rfl
  | cons _ _ _ _ ih => exact congrArg (· + 1) ih

/-- The first shape, or the last one if there is no code. -/
theorem head (h : Passes leaves S code shapes T) (hT : shapes'[0]? = some T) :
    (shapes ++ shapes')[0]? = some S := by
  cases h with
  | nil => exact hT
  | cons _ _ _ _ => rfl

/-- Every instruction fits its shape, and leaves the shape that comes next. -/
theorem step (h : Passes leaves S code shapes T) {n : Nat} (hi : code[n]? = some i) :
    ∃ U V, shapes[n]? = some U ∧ leaves i U V ∧ i.label? = none ∧
      (i.fallsThrough = true → (shapes ++ [T])[n + 1]? = some V) := by
  induction h generalizing n with
  | nil => cases hi
  | @cons S S' T U _ _ shapes hleaves hlabel hnext hrest ih =>
      cases n with
      | zero =>
          obtain rfl := Option.some.inj hi
          refine ⟨S, S', rfl, hleaves, hlabel, ?_⟩
          intro hfalls
          rw [← hnext hfalls]
          exact hrest.head rfl
      | succ n => exact ih hi

/-- Code without jumps is verified, whatever the labels, if nothing follows its last instruction. -/
theorem verifiedBy (h : Passes leaves S (code ++ [i]) shapes T) (hi : i.fallsThrough = false)
    (labels : List (Option Nat)) : VerifiedBy leaves ⟨code ++ [i], labels⟩ S shapes where
  length := h.length_eq
  start := by
    cases code with
    | nil =>
        cases h with
        | cons _ _ _ _ => rfl
    | cons _ _ =>
        cases h with
        | cons _ _ _ _ => rfl
  step n j hj := by
    obtain ⟨U, V, hU, hleaves, hlabel, hnext⟩ := h.step hj
    refine ⟨U, V, hU, hleaves, ?_, ?_⟩
    · intro hfalls
      have hlen := h.length_eq
      have hlt := (List.getElem?_eq_some_iff.mp hj).1
      have hne : n ≠ code.length := by
        rintro rfl
        rw [List.getElem?_append_right (Nat.le_refl _), Nat.sub_self] at hj
        obtain rfl := Option.some.inj hj
        rw [hi] at hfalls
        cases hfalls
      rw [List.length_append, List.length_singleton] at hlen hlt
      rw [← hnext hfalls, List.getElem?_append_left (by omega)]
    · intro l hl
      rw [hlabel] at hl
      cases hl

end Passes

/-- Code that fits its shapes without any labels passes as part of a loader, if nothing in it goes
through the base pointer. -/
theorem Fits.passes {symbols : Symbols} {stop S T : Shape} {c : List Instruction}
    {shapes : List Shape} (h : Fits symbols stop [] S c shapes T)
    (hbase : ∀ i ∈ c, i.usesBase = false) :
    Passes (Advances symbols stop) (.plain S) c (shapes.map .plain) (.plain T) := by
  induction h with
  | nil => exact .nil
  | @cons _ _ _ _ i _ _ hleaves hnext hlabel _ ih =>
      obtain ⟨hi, hc⟩ := List.forall_mem_cons.mp hbase
      refine .cons (.plain hi hleaves) ?_ (fun hfalls => congrArg _ (hnext hfalls)) (ih hc)
      refine Option.eq_none_iff_forall_ne_some.mpr ?_
      intro l hl
      cases hlabel l hl

/-! ## The declarations of global variables -/

variable {Γ : LoweringContext} {stop : Shape}

/-- The declarations of global variables go from the variables before them to those behind. -/
theorem declarations_fit (hn : Γ.symbols.Numbered) :
    ∀ (gs : List GlobalSymbol) {p : Site} {c : List Instruction} {ls : List Nat} {vs : List Param},
      Stmt.AllEmit Γ p (GlobalSymbol.declarations gs) c ls vs → Γ.NonVoid p.vars →
      (∀ g ∈ gs, g.type ≠ .void) →
      Representable (p.vars.length + Stmt.allHeight Γ.symbols (GlobalSymbol.declarations gs)) →
      ∃ shapes, Fits Γ.symbols stop [] (Γ.shape p.vars) c shapes (Γ.shape (vs ++ p.vars))
  | [], _, _, _, _, .nil, _, _, _ => ⟨[], .nil⟩
  | g :: rest, p, _, _, _, @Stmt.AllEmit.cons _ _ _ _ c _ ls _ vs _ hfirst hrest, hΓ, hvoid, hrep => by
      obtain ⟨hg, hvoid⟩ := List.forall_mem_cons.mp hvoid
      rw [GlobalSymbol.declarations, List.map_cons, Stmt.allHeight] at hrep
      obtain ⟨rfl, rfl⟩ := hfirst.var_eq
      obtain ⟨shapes, hfits⟩ : ∃ shapes, Fits Γ.symbols stop [] (Γ.shape p.vars) c shapes
          (Γ.shape ([g.param] ++ p.vars)) :=
        var_fits hn hg hΓ hfirst (hrep.mono (by omega))
      have hnew : ∀ v ∈ [g.param], v.type ≠ .void := List.forall_mem_singleton.mpr hg
      have hheight : (Stmt.declared (.var g.decl)).length = 1 := rfl
      obtain ⟨shapes', hfits'⟩ := declarations_fit hn rest hrest (hΓ.append hnew) hvoid
        (hrep.mono (by
          show ([g.param] ++ p.vars).length + Stmt.allHeight _ (rest.map _) ≤ _
          rw [List.length_append, List.length_singleton]
          omega))
      rw [List.append_assoc]
      exact ⟨_, hfits.append hfits'⟩

/-! ## Behind SAVEBP -/

section Behind

variable {symbols : Symbols} {entry : FunctionSymbol} {frame : List ValueType}

/-- An instruction that changes the values above the saved base pointer. -/
theorem passes_above {i : Instruction} {values values' : List ValueType} (hi : i.op ≠ .retn)
    (hlabel : i.label? = none)
    (h : transfer? symbols stop i ⟨values, []⟩ = some ⟨values', []⟩) :
    Passes (Advances symbols stop) (.saved values frame) [i] [.saved values frame]
      (.saved values' frame) :=
  .single (.above hi h) hlabel

/-- The entry point is called with a cell for its result above the saved base pointer, and the result
is stored in a cell below it. -/
theorem entryCode_passes (stop : Shape) (hentry : symbols.function? entry.id = some entry)
    (hparams : entry.params = []) {s : Symbols}
    (hframe : frame.drop s.globals.length = entry.result.cells)
    (hrep : Representable (s.globals.length + 1 + 2 * entry.result.width)) :
    ∃ stages, Passes (Advances symbols stop) (.saved [] frame) (s.entryCode entry) stages
      (.saved [] frame) := by
  have hcall : transfer? symbols stop (.callTo entry.id) ⟨entry.result.cells, []⟩
      = some ⟨entry.result.cells, []⟩ := by
    have hplain : transfer? symbols stop (.callTo entry.id)
        ⟨entry.params ++ (entry.result.cells ++ []), []⟩ = some ⟨entry.result.cells ++ [], []⟩ :=
      transfer?_call hentry
    rwa [hparams, List.nil_append, List.append_nil] at hplain
  rw [Symbols.entryCode, reserveCode]
  by_cases hvoid : entry.result = .void
  · rw [hvoid] at hcall ⊢
    exact ⟨_, passes_above (i := .callTo _) (by rintro ⟨⟩) rfl hcall⟩
  · have hisVoid := mt ValueType.isVoid_iff.mp hvoid
    rw [ValueType.cells_of_ne_void hvoid] at hcall hframe
    rw [ValueType.width_of_ne_void hvoid] at hrep
    have hresult : frame[s.globals.length]? = some entry.result := by
      have hfirst : (frame.drop s.globals.length)[0]? = some entry.result := by rw [hframe]; rfl
      rwa [List.getElem?_drop, Nat.add_zero] at hfirst
    have hcell : (Operand.stack (Instruction.cells (Spot.fromTop 1 (s.globals.length + 1))) _).cell?
        = some (1 + (s.globals.length + 1)) :=
      Operand.cell?_fromTop (Nat.le_of_lt (hrep.mono (by omega)))
    have hreserve : transfer? symbols stop (.reserve entry.result) ⟨[], []⟩
        = some ⟨[entry.result], []⟩ := transfer?_reserve hvoid
    have hstore : Passes (Advances symbols stop) (.saved [entry.result] frame)
        [.storeCell (Spot.fromTop 1 (s.globals.length + 1))] [.saved [entry.result] frame]
        (.saved [entry.result] frame) := by
      have hbelow : 1 + (s.globals.length + 1) = ([] : List ValueType).length + 2 + s.globals.length := by
        rw [List.length_nil]
        omega
      exact .single (.store (hcell.trans (congrArg some hbelow)) hresult) rfl
    have hpop : transfer? symbols stop (.pop 1) ⟨[entry.result], []⟩ = some ⟨[], []⟩ :=
      transfer?_pop (by decide) (Nat.le_refl 1)
    rw [if_neg hisVoid, if_neg hisVoid]
    exact ⟨_, ((passes_above (i := .reserve _) (by rintro ⟨⟩) rfl hreserve).append
      (passes_above (i := .callTo _) (by rintro ⟨⟩) rfl hcall)).append
      (hstore.append (passes_above (i := .pop 1) (by rintro ⟨⟩) rfl hpop))⟩

end Behind

end Verifier

/-! ## The whole loader -/

/-- The number of cells that the loader of the global variables needs with the cell for the result of
the entry point: those of the declarations, and then the saved base pointer and the result once more
above the variables. -/
def Symbols.loaderHeight (s : Symbols) (entry : FunctionSymbol) : Nat :=
  entry.result.width + max (Stmt.allHeight s (GlobalSymbol.declarations s.globals))
    (s.globals.length + 1 + entry.result.width)

namespace Symbols.LoadedFrom

open Verifier Program

variable {T known : Symbols} {records : List Instruction} {loader entry : FunctionSymbol}

theorem nonVoid (h : T.LoadedFrom records known loader) : T.NonVoid := by
  rw [h.table]
  refine ⟨List.forall_mem_append.mpr ⟨h.scripted.params, ?_⟩, h.scripted.globals⟩
  refine List.forall_mem_singleton.mpr ?_
  rw [h.params]
  exact List.forall_mem_nil _

/-- The shape that a loader is called on, and that it leaves: the cell for the result of the entry
point, if that has one. -/
def callShape (entry : FunctionSymbol) : Shape := ⟨[], entry.result.cells⟩

/-- The shape at SAVEBP: the cells of the global variables, the last one on top, above those that
were there at the beginning. -/
def savedShape (T : Symbols) (entry : FunctionSymbol) : Shape :=
  ⟨[], (GlobalSymbol.vars T.globals).map Param.type ++ entry.result.cells⟩

/-- The variables of a program as cells. -/
theorem length_vars (gs : List GlobalSymbol) : (GlobalSymbol.vars gs).length = gs.length := by
  rw [GlobalSymbol.vars, List.length_reverse, List.length_map]

/-- Up to SAVEBP a loader makes a cell for each variable. -/
theorem passes_beforeSave (h : T.LoadedFrom records known loader) (hn : T.Numbered)
    (hentry : T.entryPoint = .ok entry) {b : FunctionBody} (hb : loader.body = some b)
    (hrep : Representable (T.loaderHeight entry)) :
    ∃ stages, Passes (Advances T (callShape entry)) (.plain (callShape entry))
      (beforeSave (b.code records)) stages (.plain (savedShape T entry)) := by
  obtain ⟨c, hc, hbefore, -, -⟩ := h.parts hentry hb
  have hcovered : known.Covered T := by
    rw [h.table]
    exact (Begins.withFunction known loader).covered
  have hall : Stmt.AllEmit (.ofLoader T entry.result) ⟨0, 0, []⟩
      (GlobalSymbol.declarations T.globals) c [] (GlobalSymbol.vars T.globals) :=
    hc.mono rfl hcovered
  have hheight : 0 + Stmt.allHeight T (GlobalSymbol.declarations T.globals) ≤ T.loaderHeight entry := by
    rw [Symbols.loaderHeight]
    omega
  obtain ⟨shapes, hfits⟩ : ∃ shapes, Fits T (callShape entry) [] (callShape entry) c shapes
      (LoweringContext.shape (.ofLoader T entry.result) (GlobalSymbol.vars T.globals ++ [])) :=
    declarations_fit hn T.globals hall ⟨h.nonVoid, List.forall_mem_nil _⟩ h.nonVoid.globals
      (hrep.mono hheight)
  rw [List.append_nil] at hfits
  have hbase : ∀ i ∈ c, i.usesBase = false := by
    have huses := hall.refers.uses
    rw [hall.inSight rfl, List.any_eq_false] at huses
    exact fun i hi => Bool.eq_false_iff.mpr (huses i hi)
  exact ⟨_, hbefore ▸ hfits.passes hbase⟩

/-- From SAVEBP on a loader calls the entry point, passes on its result, and takes the variables. -/
theorem passes_behindSave (h : T.LoadedFrom records known loader) (hn : T.Numbered)
    (hentry : T.entryPoint = .ok entry) (hparams : entry.params = []) {b : FunctionBody}
    (hb : loader.body = some b) (hrep : Representable (T.loaderHeight entry)) :
    ∃ stages, Passes (Advances T (callShape entry)) (.plain (savedShape T entry))
      (.simple .saveBp :: behindSave (b.code records)) stages (.plain (callShape entry)) := by
  obtain ⟨-, -, -, -, hbehind⟩ := h.parts hentry hb
  obtain ⟨hfound, -, -⟩ := entryPoint_eq_ok hn hentry
  rw [Symbols.loaderHeight] at hrep
  have hframe : ((GlobalSymbol.vars T.globals).map Param.type ++ entry.result.cells).drop
      known.globals.length = entry.result.cells := by
    rw [← h.globals_eq, List.drop_left']
    rw [List.length_map, length_vars]
  obtain ⟨stages, hcall⟩ := entryCode_passes (callShape entry) hfound hparams hframe
    (hrep.mono (by rw [← h.globals_eq]; omega))
  let Γ : LoweringContext := .ofLoader T entry.result
  obtain ⟨shapes, hpop⟩ : ∃ shapes, Fits Γ.symbols (callShape entry) []
      (Γ.shape (GlobalSymbol.vars T.globals ++ [])) (popCode (GlobalSymbol.vars T.globals).length)
      shapes (Γ.shape []) := by
    refine popScope_fits (hrep.mono ?_)
    rw [length_vars]
    omega
  rw [List.append_nil, length_vars] at hpop
  have htake := hpop.passes (by
    rw [popCode]
    split
    · exact List.forall_mem_singleton.mpr rfl
    · exact List.forall_mem_nil _)
  have hend : Passes (Advances T (callShape entry)) (.plain (callShape entry)) [.ending]
      [.plain (callShape entry)] (.plain (callShape entry)) :=
    .single (.plain rfl (.inl transfer?_ending)) rfl
  rw [hbehind]
  exact ⟨_, (Passes.single .save rfl).append
    (((hcall.append (.single .restore rfl)).append htake).append hend)⟩

end Symbols.LoadedFrom

end Nss
