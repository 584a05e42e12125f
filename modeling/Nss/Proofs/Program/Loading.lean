/-
# Programs that begin with the loader

A program with global variables enters the loader, and the loader enters the function that the
program begins with:

    c                      the first values of the variables       `Program.beforeSave`
    SAVEBP
    ...                    calls the function                      `Program.behindSave`
    RESTOREBP, MOVSP, RETN

The first values are lowered with the global variables out of sight: they have cells of the loader's
own, so that nothing before SAVEBP goes through the base pointer (`Expr.Emits.inSight`).
-/
import Nss.Proofs.Unit.Origins
import Nss.Proofs.Lowering.References
import Nss.Proofs.Program.Reachable

namespace Nss

/-! ## Variables that are in sight -/

section InSight

variable {Γ : LoweringContext} {vars : List Param}

/-- A name that leads somewhere is that of a variable in sight, if no global one is. -/
theorem Spot.inSight (hhidden : Γ.globalsVisible = false) {name : String} {spot : Spot}
    (h : Spot.ofName? Γ vars name = some spot) : name ∈ vars.map Param.name := by
  induction vars generalizing spot with
  | nil => simp [Spot.ofName?, hhidden] at h
  | cons p rest ih =>
      rw [Spot.ofName?_cons] at h
      split at h
      · next heq => exact heq ▸ List.mem_cons_self
      · obtain ⟨spot', hspot, -⟩ := Option.map_eq_some_iff.mp h
        exact List.mem_cons_of_mem _ (ih hspot)

mutual

/-- An expression that is lowered without the global variables uses those in sight only. -/
theorem Expr.Emits.inSight (hhidden : Γ.globalsVisible = false) :
    ∀ {e : Expr} {temps : Nat} {t : ValueType} {c : List Instruction}, e.Emits Γ vars temps t c →
      e.usesOutside (vars.map Param.name) = false
  | .int _ _, _, _, _, _ | .float _ _, _, _, _, _ | .string _ _, _, _, _, _
  | .object _ _, _, _, _, _ => by rw [Expr.usesOutside]
  | .ident _ _, _, _, _, .ident hspot => by
      rw [Expr.usesOutside, decide_eq_false_iff_not, not_not]
      exact Spot.inSight hhidden hspot
  | .call _ _ _, _, _, _, .call _ _ hargs => by
      rw [Expr.usesOutside]
      exact hargs.inSight hhidden
  | .unary _ _ _, _, _, _, .unary hx _ => by
      rw [Expr.usesOutside]
      exact hx.inSight hhidden
  | .binary _ _ _ _, _, _, _, .binary hl hr _ => by
      rw [Expr.usesOutside, hl.inSight hhidden, hr.inSight hhidden]
      rfl

/-- The same for arguments. -/
theorem Expr.ArgsEmit.inSight (hhidden : Γ.globalsVisible = false) :
    ∀ {args : List Expr} {temps : Nat} {types : List ValueType} {c : List Instruction},
      Expr.ArgsEmit Γ vars temps args types c →
      Expr.anyUsesOutside (vars.map Param.name) args = false
  | [], _, _, _, _ => by rw [Expr.anyUsesOutside]
  | _ :: _, _, _, _, .cons _ hargs harg => by
      rw [Expr.anyUsesOutside, harg.inSight hhidden, hargs.inSight hhidden]
      rfl

end

/-- The declarations of global variables use those before them only. -/
theorem Stmt.AllEmit.inSight (hhidden : Γ.globalsVisible = false) :
    ∀ {gs : List GlobalSymbol} {p : Site} {c : List Instruction} {ls : List Nat} {vs : List Param},
      Stmt.AllEmit Γ p (GlobalSymbol.declarations gs) c ls vs →
      Stmt.anyUsesOutside (p.vars.map Param.name) (GlobalSymbol.declarations gs) = false
  | [], p, _, _, _, _ => by rw [GlobalSymbol.declarations, List.map_nil, Stmt.anyUsesOutside]
  | g :: rest, p, _, _, _, .cons hg hrest => by
      have hbehind := hrest.inSight hhidden
      rw [hg.eq_declared, List.map_append] at hbehind
      rw [GlobalSymbol.declarations, List.map_cons, Stmt.anyUsesOutside, Bool.or_eq_false_iff]
      refine ⟨?_, hbehind⟩
      rw [Stmt.usesOutside]
      cases hg with
      | var hinit => rw [hinit, Option.map_none, Option.getD_none]
      | varInit hinit he =>
          rw [hinit]
          exact he.inSight hhidden

end InSight

/-- What the declarations of global variables call, their first values call. -/
theorem GlobalSymbol.mem_allCallees {gs : List GlobalSymbol} {name : String} :
    name ∈ Stmt.allCallees (GlobalSymbol.declarations gs) ↔
      ∃ v ∈ gs.map GlobalSymbol.decl, name ∈ v.callees := by
  induction gs with
  | nil => simp [GlobalSymbol.declarations, Stmt.allCallees]
  | cons g rest ih =>
      rw [GlobalSymbol.declarations, List.map_cons, Stmt.allCallees, Stmt.callees, List.mem_append,
        List.map_cons, List.exists_mem_cons_iff]
      exact or_congr_right ih

/-! ## The two parts of a loader -/

namespace Program

/-- The code of a loader up to the point where it saves the base pointer. -/
def beforeSave (code : List Instruction) : List Instruction :=
  code.takeWhile fun i => i.op ≠ .saveBp

/-- The code of a loader behind that point. -/
def behindSave (code : List Instruction) : List Instruction :=
  (code.dropWhile fun i => i.op ≠ .saveBp).tail

variable {c rest : List Instruction}

theorem beforeSave_append (h : ∀ i ∈ c, i.op ≠ .saveBp) :
    beforeSave (c ++ .simple .saveBp :: rest) = c := by
  rw [beforeSave, List.takeWhile_append_of_pos fun i hi => decide_eq_true (h i hi),
    List.takeWhile_cons_of_neg (by decide), List.append_nil]

theorem behindSave_append (h : ∀ i ∈ c, i.op ≠ .saveBp) :
    behindSave (c ++ .simple .saveBp :: rest) = rest := by
  rw [behindSave, List.dropWhile_append_of_pos fun i hi => decide_eq_true (h i hi),
    List.dropWhile_cons_of_neg (by decide), List.tail_cons]

end Program

/-! ## The loader of a program -/

namespace Symbols

open Program

variable {T known : Symbols} {records : List Instruction} {loader entry : FunctionSymbol}
  {decls : List Declaration}

/-- Where an entry point is found, the loader finds it as well. -/
theorem startFunction?_of_entryPoint (h : T.entryPoint = .ok entry) :
    T.startFunction? = some entry := by
  rw [Symbols.entryPoint] at h
  rw [Symbols.startFunction?]
  cases hmain : T.lookup? mainName with
  | some f =>
      rw [hmain] at h
      dsimp only at h ⊢
      split at h
      · next hvoid =>
          obtain rfl := Except.ok.inj h
          exact if_pos hvoid
      · cases h
  | none =>
      rw [hmain] at h
      cases hcondition : T.lookup? conditionName with
      | none =>
          rw [hcondition] at h
          cases h
      | some f =>
          rw [hcondition] at h
          dsimp only at h ⊢
          split at h
          · next hint =>
              obtain rfl := Except.ok.inj h
              simpa using hint
          · cases h

namespace LoadedFrom

/-- All functions but the loader are those of the table without it. -/
theorem lookup?_eq (h : T.LoadedFrom records known loader) {name : String}
    (hne : name ≠ globalsLoader) : T.lookup? name = known.lookup? name := by
  have hnone : [loader].find? (fun f => f.name = name) = none := by
    rw [List.find?_singleton, h.name, if_neg (by simpa using Ne.symm hne)]
  rw [h.table, Symbols.lookup?, withFunction, List.find?_append, hnone, Option.or_none]
  rfl

theorem globals_eq (h : T.LoadedFrom records known loader) : T.globals = known.globals := by
  rw [h.table]
  rfl

theorem loaderOf? (h : T.LoadedFrom records known loader) (hglobals : T.globals ≠ []) :
    Program.loaderOf? T = some loader := by
  rw [Program.loaderOf?, if_neg (by simpa using hglobals), h.table]
  exact lookup?_withFunction h.scripted h.name

theorem startFunction? (h : T.LoadedFrom records known loader) (hentry : T.entryPoint = .ok entry) :
    known.startFunction? = some entry := by
  have hmain := h.lookup?_eq (show mainName ≠ globalsLoader by decide)
  have hcondition := h.lookup?_eq (show conditionName ≠ globalsLoader by decide)
  rw [← startFunction?_of_entryPoint hentry, Symbols.startFunction?, Symbols.startFunction?, hmain,
    hcondition]

/-- The loader of a program gives the variables their first values, saves the base pointer and calls
the function that the program begins with. -/
theorem parts (h : T.LoadedFrom records known loader) (hentry : T.entryPoint = .ok entry)
    {b : FunctionBody} (hb : loader.body = some b) :
    ∃ c, Stmt.AllEmit (.ofLoader known .void) ⟨0, 0, []⟩ (GlobalSymbol.declarations T.globals) c []
        (GlobalSymbol.vars T.globals) ∧
      beforeSave (b.code records) = c ∧
      b.code records = c ++ .simple .saveBp :: behindSave (b.code records) ∧
      behindSave (b.code records) = known.entryCode entry ++ [.simple .restoreBp]
        ++ popCode T.globals.length ++ [.ending] := by
  obtain ⟨b', hb', hcode⟩ := h.code
  obtain rfl := Option.some.inj (hb.symm.trans hb')
  rw [h.startFunction? hentry] at hcode
  obtain ⟨c, hc, heq⟩ := Lowering.ofGlobals_emits h.scripted.toNonVoid h.initialized
  rw [heq] at hcode
  rw [← h.globals_eq] at hc hcode
  have hparts : b.code records = c ++ .simple .saveBp :: (known.entryCode entry
      ++ [.simple .restoreBp] ++ popCode T.globals.length ++ [.ending]) := by
    simpa using hcode
  have hsaves := hc.refers.saves
  refine ⟨c, hc, ?_, ?_, ?_⟩
  · rw [hparts, beforeSave_append hsaves]
  · rw [hparts, behindSave_append hsaves]
  · rw [hparts, behindSave_append hsaves]

end LoadedFrom
end Symbols

end Nss
