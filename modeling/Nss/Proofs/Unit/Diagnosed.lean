/-
# The diagnostics of an emission

Every instance collects diagnostics, and hands them on to the one around it when it is taken over.
What arrives at the outermost unit can be told from the events alone, without instances:

    problem        itself
    declaration    why it is rejected, or what is found in it once it is accepted
    inclusion      nothing | that it cannot be opened | the diagnostics of the unit that it opens

`Reports` says this, with what is known between two events: the registry, the symbol table and
whether an entry point was seen.  Where the code of a function comes to lie is not known there, as it
depends on the instances (`Symbols.outlined`).

`Walk.reports` is by induction on the walk.  A unit that is opened begins without diagnostics, so that
those which it hands on are its own.
-/
import Nss.Proofs.Unit.Ending
import Nss.Proofs.Unit.Bare

namespace Nss

/-! ## Tables in outline -/

/-- A function of whose body it is known only whether it is there. -/
def FunctionSymbol.outlined (f : FunctionSymbol) : FunctionSymbol :=
  { f with body := f.body.map fun _ => ⟨0, 0, []⟩ }

namespace Symbols

/-- A symbol table that does not tell where code lies. -/
def outlined (s : Symbols) : Symbols := { s with functions := s.functions.map FunctionSymbol.outlined }

variable {s s' : Symbols}

theorem lookup?_outlined (s : Symbols) (name : String) :
    s.outlined.lookup? name = (s.lookup? name).map FunctionSymbol.outlined := by
  rw [lookup?, lookup?, outlined, List.find?_map]
  rfl

/-- A declaration does not see where code lies. -/
theorem unseen_outlined (unit : String) : Unseen outlined unit unit where
  lookup s name := by
    rw [lookup?_outlined]
    cases s.lookup? name with
    | none => exact .none
    | some f => exact .some ⟨⟨rfl, rfl, rfl⟩, Option.isSome_map⟩
  globals _ := rfl
  insert s name result params := by
    rw [insert, insert, outlined, outlined]
    simp only [List.length_map, List.map_append]
    rfl
  extend _ _ := rfl

/-- Where the body of a function lies is forgotten. -/
theorem attachBody_outlined (s : Symbols) (id : Nat) (b : FunctionBody) :
    (s.attachBody id b).outlined = s.outlined.attachBody id ⟨0, 0, []⟩ := by
  have hgiven : ∀ f : FunctionSymbol, FunctionSymbol.outlined { f with body := some b }
      = { f.outlined with body := some ⟨0, 0, []⟩ } :=
    fun _ => rfl
  exact congrArg (Symbols.mk · s.globals) (map_modify hgiven s.functions id)

theorem shift_outlined (s : Symbols) (i offset : Nat) : (s.shift i offset).outlined = s.outlined := by
  have hmoved : ∀ f, (moveBody offset f).outlined = id f.outlined := by
    intro f
    rw [FunctionSymbol.outlined, moveBody, Option.map_map]
    rfl
  rw [shift_eq, modifyFunction, outlined, map_modify hmoved, List.modify_id]
  rfl

theorem rebase_outlined (ids : List Nat) (offset : Nat) (s : Symbols) :
    (s.rebase ids offset).outlined = s.outlined := by
  induction ids generalizing s with
  | nil => rfl
  | cons id ids ih =>
      show ((s.shift id offset).rebase ids offset).outlined = s.outlined
      rw [ih, shift_outlined]

end Symbols

/-! ## What is reported of a unit -/

/-- What is known between two events. -/
structure Known where
  registry : Registry
  symbols : Symbols
  /-- Whether a declaration had the name of an entry point. -/
  entrySeen : Bool

namespace Known

/-- What is known after a declaration. -/
def declaring (k : Known) (unit : String) (decl : Declaration) : Known :=
  let e := decl.effect unit k.symbols
  { registry := k.registry
    symbols := match e.body with
      | some (id, _) => e.symbols.attachBody id ⟨0, 0, []⟩
      | none => e.symbols
    entrySeen := k.entrySeen || isEntryName decl.name }

/-- What is known once a key is registered. -/
def registering (k : Known) (key : String) : Known :=
  { k with registry := (k.registry.register key).2 }

/-- An entry point was declared, or its name was seen. -/
def HasEntry (k : Known) : Prop :=
  (k.symbols.lookup? Symbols.mainName).isSome = true ∨
    (k.symbols.lookup? Symbols.conditionName).isSome = true ∨ k.entrySeen = true

instance (k : Known) : Decidable k.HasEntry := by
  unfold HasEntry
  infer_instance

/-- What is reported at the end of the outermost unit. -/
def ending (k : Known) : List Diagnostic :=
  if k.HasEntry then [] else [.error .noEntryPoint .origin]

end Known

/-- Diagnostics as those of a unit, unless they have a unit already. -/
def Emit.UnitText.located (u : Emit.UnitText) (ds : List Diagnostic) : List Diagnostic :=
  ds.map fun d => d.located u.name u.text

/-- What is reported of the events of a unit, each directive being followed where it stands.  Nothing
is reported of a directive for a unit that was met before; those of a unit that is opened are the
diagnostics of its own events. -/
inductive Reports (front : FrontEnd) (loader : Loader) :
    Emit.UnitText → List Event → Known → List Diagnostic → Known → Prop
  | done {u : Emit.UnitText} {k : Known} : Reports front loader u [] k [] k
  | problem {u : Emit.UnitText} {d : Diagnostic} {es : List Event} {k k' : Known}
      {ds : List Diagnostic} :
      Reports front loader u es k ds k' →
      Reports front loader u (.problem d :: es) k (u.located [d] ++ ds) k'
  | declaration {u : Emit.UnitText} {decl : Declaration} {es : List Event} {k k' : Known}
      {ds : List Diagnostic} :
      Reports front loader u es (k.declaring u.name decl) ds k' →
      Reports front loader u (.declaration decl :: es) k
        (u.located (decl.effect u.name k.symbols).diagnostics ++ ds) k'
  | repeated {u : Emit.UnitText} {path : String} {span : Span} {es : List Event} {k k' : Known}
      {ds : List Diagnostic} :
      k.registry.contains (k.registry.normalize path) = true →
      Reports front loader u es k ds k' → Reports front loader u (.inclusion path span :: es) k ds k'
  | missing {u : Emit.UnitText} {path : String} {span : Span} {es : List Event} {k k' : Known}
      {ds : List Diagnostic} {e : Error} :
      k.registry.contains (k.registry.normalize path) = false →
      loader.load (k.registry.normalize path) = .error e →
      Reports front loader u es (k.registering (k.registry.normalize path)) ds k' →
      Reports front loader u (.inclusion path span :: es) k
        (u.located [.error (.cannotOpenInclude path) span] ++ ds) k'
  | opened {u : Emit.UnitText} {path key : String} {span : Span} {es : List Event}
      {k inner k' : Known} {source : Bytes} {ds ds' : List Diagnostic} :
      key = k.registry.normalize path → k.registry.contains key = false →
      loader.load key = .ok source →
      Reports front loader ⟨key, Bytes.toText source⟩ (front key (Bytes.toText source))
        (k.registering key) ds inner →
      Reports front loader u es inner ds' k' →
      Reports front loader u (.inclusion path span :: es) k (ds ++ ds') k'

/-- Nothing else is reported of the same events. -/
theorem Reports.unique {front : FrontEnd} {loader : Loader} {u : Emit.UnitText} {es : List Event}
    {k l l' : Known} {ds ds' : List Diagnostic} (h : Reports front loader u es k ds l)
    (h' : Reports front loader u es k ds' l') : ds' = ds ∧ l' = l := by
  induction h generalizing ds' l' with
  | done =>
      cases h'
      exact ⟨rfl, rfl⟩
  | problem _ ih =>
      cases h' with
      | problem hrest =>
          obtain ⟨rfl, rfl⟩ := ih hrest
          exact ⟨rfl, rfl⟩
  | declaration _ ih =>
      cases h' with
      | declaration hrest =>
          obtain ⟨rfl, rfl⟩ := ih hrest
          exact ⟨rfl, rfl⟩
  | repeated hmet _ ih =>
      cases h' with
      | repeated _ hrest => exact ih hrest
      | missing hnew => cases hmet.symm.trans hnew
      | opened hkey hnew =>
          rw [← hkey] at hmet
          cases hmet.symm.trans hnew
  | missing hnew hload _ ih =>
      cases h' with
      | repeated hmet => cases hmet.symm.trans hnew
      | missing _ _ hrest =>
          obtain ⟨rfl, rfl⟩ := ih hrest
          exact ⟨rfl, rfl⟩
      | opened hkey _ hload' =>
          rw [hkey] at hload'
          cases hload.symm.trans hload'
  | opened hkey hnew hload _ _ ihinner ih =>
      cases h' with
      | repeated hmet =>
          rw [← hkey] at hmet
          cases hmet.symm.trans hnew
      | missing _ hload' =>
          rw [← hkey] at hload'
          cases hload.symm.trans hload'
      | opened hkey' _ hload' hinner hrest =>
          obtain rfl := hkey.trans hkey'.symm
          obtain rfl := Except.ok.inj (hload.symm.trans hload')
          obtain ⟨rfl, rfl⟩ := ihinner hinner
          obtain ⟨rfl, rfl⟩ := ih hrest
          exact ⟨rfl, rfl⟩

/-! ## What instances collect -/

/-- A unit takes over all diagnostics of a finished one with their number of errors, and leaves it
none. -/
theorem Instance.absorb_diagnostics {granted : Memory} {i i' child child' : Instance} {offset : Nat}
    (h : i.absorb granted child = (i', child', .ok offset)) :
    i'.diagnostics = i.diagnostics ++ child.diagnostics ∧ i'.errors = i.errors + child.errors ∧
      child'.diagnostics = [] ∧ child'.errors = 0 := by
  simp only [absorb] at h
  split at h
  · simp only [Prod.mk.injEq] at h
    obtain ⟨rfl, rfl, -⟩ := h
    exact ⟨rfl, rfl, rfl, rfl⟩
  · split at h
    · cases (Prod.mk.inj (Prod.mk.inj h).2).2
    · split at h
      · cases (Prod.mk.inj (Prod.mk.inj h).2).2
      · simp only [Prod.mk.injEq] at h
        obtain ⟨rfl, rfl, -⟩ := h
        exact ⟨rfl, rfl, rfl, rfl⟩

namespace EmitState

/-- What is known in a state of an emission. -/
def known (s : EmitState) : Known := ⟨s.registry, s.symbols.outlined, s.entrySeen⟩

/-- The instance at hand has more diagnostics than before, and they are counted. -/
structure Gathers (s : EmitState) (ds : List Diagnostic) (t : EmitState) : Prop where
  diagnostics : t.current.diagnostics = s.current.diagnostics ++ ds
  errors : t.current.errors = s.current.errors + Diagnostic.errorCount ds

variable {s t v : EmitState} {ds ds' : List Diagnostic}

namespace Gathers

theorem of_same (hdiagnostics : t.current.diagnostics = s.current.diagnostics)
    (herrors : t.current.errors = s.current.errors) : s.Gathers [] t where
  diagnostics := hdiagnostics.trans (List.append_nil _).symm
  errors := herrors

theorem trans (h : s.Gathers ds t) (h' : t.Gathers ds' v) : s.Gathers (ds ++ ds') v where
  diagnostics := by rw [h'.diagnostics, h.diagnostics, List.append_assoc]
  errors := by
    rw [h'.errors, h.errors, Diagnostic.errorCount, Diagnostic.errorCount, Diagnostic.errorCount,
      List.countP_append, Nat.add_assoc]

/-- It does not matter what else a state holds. -/
theorem of_current {s' : EmitState} (h : s'.Gathers ds t) (hsame : s'.current = s.current) :
    s.Gathers ds t where
  diagnostics := hsame ▸ h.diagnostics
  errors := hsame ▸ h.errors

theorem of_reports (s : EmitState) (u : Emit.UnitText) (ds : List Diagnostic) :
    s.Gathers (u.located ds) (s.reports u ds) :=
  ⟨rfl, rfl⟩

end Gathers

end EmitState

namespace Emit

open EmitState

variable {s t : EmitState} {u : UnitText}

/-- Code is added without diagnostics, and it is known of its function that it has a body. -/
theorem addBody_gathers {id : Nat} {l : Lowering} (h : addBody id l s = .ok () t) :
    s.Gathers [] t ∧
      t.known = { s.known with symbols := s.symbols.outlined.attachBody id ⟨0, 0, []⟩ } := by
  obtain ⟨i, hsame, -, rfl⟩ := addBody_eq_ok h
  refine ⟨.of_same ?_ ?_, ?_⟩
  · show i.diagnostics = s.current.diagnostics
    rw [hsame]
  · show i.errors = s.current.errors
    rw [hsame]
  · rw [known, Symbols.attachBody_outlined]
    rfl

theorem carry_gathers {e : Effect} (h : carry u e s = .ok () t) :
    s.Gathers (u.located e.diagnostics) t ∧
      t.known = { s.known with
        symbols := match e.body with
          | some (id, _) => e.symbols.outlined.attachBody id ⟨0, 0, []⟩
          | none => e.symbols.outlined } := by
  have hreports : s.Gathers (u.located e.diagnostics)
      (EmitState.reports { s with symbols := e.symbols } u e.diagnostics) :=
    .of_current (.of_reports _ u e.diagnostics) rfl
  rw [carry] at h
  cases hbody : e.body with
  | none =>
      rw [hbody] at h
      obtain rfl := (EStateM.Result.ok.inj h).2
      exact ⟨hreports, rfl⟩
  | some added =>
      rw [hbody] at h
      obtain ⟨hadds, hknown⟩ := addBody_gathers h
      have hall := hreports.trans hadds
      rw [List.append_nil] at hall
      exact ⟨hall, hknown⟩

/-- A declaration is reported as its effect says. -/
theorem declaration_gathers {decl : Declaration}
    (h : part .full u (.declaration decl) s = .ok () t) :
    s.Gathers (u.located (decl.effect u.name s.known.symbols).diagnostics) t ∧
      t.known = s.known.declaring u.name decl := by
  have houtlined : decl.effect u.name s.known.symbols
      = (decl.effect u.name s.symbols).map Symbols.outlined :=
    (Symbols.unseen_outlined u.name).effect s.symbols decl
  rw [part_declaration_apply] at h
  obtain ⟨hgathers, hknown⟩ := carry_gathers h
  rw [Known.declaring, houtlined]
  exact ⟨.of_current hgathers rfl, hknown⟩

/-- When a unit is left, its diagnostics are handed on to the one around it. -/
theorem leave_gathers {v : EmitState} {ds : List Diagnostic}
    (hinner : v.current.diagnostics = ds ∧ v.current.errors = Diagnostic.errorCount ds)
    (houter : v.outer = s.current :: s.outer) (h : leave (.ok () v) = .ok () t) :
    s.Gathers ds t ∧ t.known = v.known := by
  obtain ⟨hdiagnostics, herrors⟩ := hinner
  rw [leave, houter] at h
  dsimp only at h
  obtain ⟨i, left, offset, habsorb, rfl⟩ := absorb_eq_ok.mp h
  obtain ⟨htaken, hcounted, -⟩ := Instance.absorb_diagnostics habsorb
  refine ⟨⟨?_, ?_⟩, ?_⟩
  · rw [← hdiagnostics]
    exact htaken
  · rw [← herrors]
    exact hcounted
  · rw [known, known, Symbols.rebase_outlined]

end Emit

/-! ## Walks -/

open Emit EmitState

/-- What a walk to its end reports. -/
theorem Walk.reports {front : FrontEnd} {loader : Loader} {mode : EmitMode} {u : UnitText}
    {es : List Event} {s : EmitState} {log : List Encounter}
    {r : EStateM.Result Error EmitState Unit} (h : Walk front loader mode u es s log r)
    (hfull : mode = .full) {t : EmitState} (hok : r = .ok () t) :
    ∃ ds, Reports front loader u es s.known ds t.known ∧ s.Gathers ds t := by
  induction h generalizing t with
  | done =>
      obtain rfl := (EStateM.Result.ok.inj hok).2
      exact ⟨[], .done, .of_same rfl rfl⟩
  | @own mode u e es x s t' log r hown hpart _ ih =>
      subst hfull
      obtain ⟨ds, hreports, hgathers⟩ := ih rfl hok
      cases e with
      | problem d =>
          obtain rfl := Option.some.inj hown
          rw [part_problem_apply] at hpart
          obtain rfl := (EStateM.Result.ok.inj hpart).2
          exact ⟨_, .problem hreports, (Gathers.of_reports s u [d]).trans hgathers⟩
      | declaration decl =>
          obtain rfl := Option.some.inj hown
          obtain ⟨hfirst, hknown⟩ := declaration_gathers hpart
          rw [hknown] at hreports
          exact ⟨_, .declaration hreports, hfirst.trans hgathers⟩
      | inclusion path span => cases hown
  | failed | refused | broken => cases hok
  | passed => cases hfull
  | @repeated u path span es s log r hturn _ ih =>
      obtain ⟨ds, hreports, hgathers⟩ := ih rfl hok
      exact ⟨ds, .repeated (turn_eq_repeated hturn) hreports, hgathers⟩
  | @missing u path span es s t' log r hturn hpart _ ih =>
      obtain ⟨ds, hreports, hgathers⟩ := ih rfl hok
      obtain ⟨hnew, e, hload⟩ := turn_eq_missing hturn
      rw [part_missing_apply] at hpart
      obtain rfl := (EStateM.Result.ok.inj hpart).2
      have hfirst := Gathers.of_reports (s.registering (s.registry.normalize path)) u
        [.error (.cannotOpenInclude path) span]
      exact ⟨_, .missing hnew hload hreports, .of_current (hfirst.trans hgathers) rfl⟩
  | @opened u path key span es s t' source child inner log content r hkey hturn hinner hleave _
      ihinner ih =>
      obtain ⟨hnew, hload, hbegin⟩ := turn_eq_opened hturn
      rw [← hkey] at hnew hload hbegin
      obtain ⟨v, rfl⟩ := leave_eq_ok hleave
      obtain ⟨ds, hinside, hcollected⟩ := ihinner rfl rfl
      have houter : v.outer = s.current :: s.outer := hinner.travels.outer
      -- what the opened unit has in the end was reported inside
      have hown : v.current.diagnostics = ds ∧ v.current.errors = Diagnostic.errorCount ds := by
        obtain ⟨-, -, -, herrors, hdiagnostics⟩ := Instance.blank_of_begin? hbegin
        refine ⟨?_, ?_⟩
        · rw [hcollected.diagnostics]
          show child.diagnostics ++ ds = ds
          rw [hdiagnostics, List.nil_append]
        · rw [hcollected.errors]
          show child.errors + Diagnostic.errorCount ds = Diagnostic.errorCount ds
          rw [herrors, Nat.zero_add]
      obtain ⟨hfirst, hknown⟩ := leave_gathers hown houter hleave
      obtain ⟨ds', hreports, hgathers⟩ := ih rfl hok
      rw [hknown] at hreports
      exact ⟨_, .opened hkey hnew hload hinside hreports, hfirst.trans hgathers⟩

/-! ## Outermost units -/

namespace Emission

variable {s t : EmitState}

theorem addLoader_gathers (h : addLoader s = .ok () t) : s.Gathers [] t := by
  rw [addLoader_apply] at h
  split at h
  · obtain rfl := (EStateM.Result.ok.inj h).2
    exact .of_same rfl rfl
  · exact .of_current (addBody_gathers h).1 rfl

theorem concluded_gathers (s : EmitState) : s.Gathers s.known.ending s.concluded := by
  have hentry : s.known.HasEntry ↔ ¬(!((s.symbols.lookup? Symbols.mainName).isSome
      || (s.symbols.lookup? Symbols.conditionName).isSome) && !s.entrySeen) = true := by
    simp only [Known.HasEntry, known, Symbols.lookup?_outlined, Option.isSome_map, ← Bool.not_or,
      Bool.not_eq_true', Bool.not_eq_false, Bool.or_eq_true, or_assoc]
  rw [concluded, Known.ending]
  split
  · next hsome =>
      rw [if_neg (hentry.mp hsome)]
      exact .of_same rfl rfl
  · next hnone =>
      rw [if_pos (not_not.mp (mt hentry.mpr hnone))]
      exact ⟨rfl, rfl⟩

/-- At its end it is reported of the outermost unit whether it has an entry point. -/
theorem finish_gathers (h : finish .full s = .ok () t) : s.Gathers s.known.ending t := by
  rw [finish_apply] at h
  have hall := (concluded_gathers s).trans (addLoader_gathers h)
  rw [List.append_nil] at hall
  exact hall

/-- What an emission to its end reports. -/
theorem reports {front : FrontEnd} {loader : Loader} {log : List Encounter}
    (h : Emission front loader .full s log (.ok () t)) :
    ∃ source ds k, s.current.source.bytes? = some source ∧
      Reports front loader ⟨s.current.name, Bytes.toText source⟩
        (front s.current.name (Bytes.toText source)) s.known ds k ∧
      s.Gathers (ds ++ k.ending) t := by
  generalize hr : EStateM.Result.ok () t = r at h
  cases h with
  | destroyed | failed => cases hr
  | @finished v source log hsource hwalk =>
      obtain ⟨ds, hreports, hgathers⟩ := hwalk.reports rfl rfl
      exact ⟨source, ds, v.known, hsource, hreports, hgathers.trans (finish_gathers hr.symm)⟩

end Emission

/-- No diagnostic is lost, duplicated or misplaced.  When an outermost unit is emitted to its end, its
instance has got exactly those that are reported of the events, in their order, the diagnostics of
an opened unit where its directive stands, and those of the end; each of them has the unit whose
events it comes from, and its line there, unless it had a unit before.  They are counted by the
instance, all other instances on the stack are as before, and an instance that was taken over keeps
none.  This holds of every loader by which the emission ends, and it does by one that has not more
units than it says. -/
theorem emitRoot_reports (front : FrontEnd) (loader : Loader) (i : Instance) (outer : List Instance)
    (registry : Registry) (symbols : Symbols) :
    (∀ log e, RootEmission front loader .full (i :: outer) registry symbols log e →
      e.outcome = .ok () →
      ∃ source ds k j, i.source.bytes? = some source ∧
        Reports front loader ⟨i.name, Bytes.toText source⟩ (front i.name (Bytes.toText source))
          ⟨registry, symbols.outlined, false⟩ ds k ∧
        (∀ ds' k', Reports front loader ⟨i.name, Bytes.toText source⟩
          (front i.name (Bytes.toText source)) ⟨registry, symbols.outlined, false⟩ ds' k' →
          ds' = ds ∧ k' = k) ∧
        e.stack = j :: outer ∧ j.diagnostics = i.diagnostics ++ (ds ++ k.ending) ∧
        j.errors = i.errors + Diagnostic.errorCount (ds ++ k.ending)) ∧
    (loader.Bounded →
      ∃ log, RootEmission front loader .full (i :: outer) registry symbols log
        (emitRoot front loader .full (i :: outer) registry symbols)) ∧
    ∀ (granted : Memory) (j child j' child' : Instance) (offset : Nat),
      j.absorb granted child = (j', child', .ok offset) →
        child'.diagnostics = [] ∧ child'.errors = 0 := by
  refine ⟨?_, ?_, ?_⟩
  · intro log e hrun hok
    cases hrun with
    | @innermost _ _ _ _ _ r hemission =>
        cases r with
        | error error t => cases hok
        | ok v t =>
            obtain ⟨source, ds, k, hsource, hreports, hgathers⟩ := hemission.reports
            have houter : t.outer = outer := hemission.travels.outer
            have hstack : (Emitted.ofResult (.ok v t)).stack = t.current :: outer := by
              rw [← houter]
              rfl
            exact ⟨source, ds, k, t.current, hsource, hreports, fun _ _ => hreports.unique, hstack,
              hgathers.diagnostics, hgathers.errors⟩
  · intro hbounded
    obtain ⟨log, hemission⟩ :=
      Emission.of_root (s := .start i outer registry symbols) front hbounded .full rfl
    exact ⟨log, hemission.innermost⟩
  · intro granted j child j' child' offset habsorb
    obtain ⟨-, -, hdiagnostics, herrors⟩ := Instance.absorb_diagnostics habsorb
    exact ⟨hdiagnostics, herrors⟩

/-- A unit to be included with an error in its second line. -/
def flawed : List (String × Bytes) :=
  [("lib", Bytes.ofText "\nint Four() { return four; }")]

/-- A script without an entry point, with an error on each side of an include. -/
def includesFlawed : String := "int n = m;\n#include \"lib\"\n#include \"gone\""

theorem emitRoot_reports_includesFlawed :
    (Loader.ofSources flawed).Bounded ∧ ∃ log ds k,
      RootEmission scriptFrontEnd (.ofSources flawed) .full [.ofText includesFlawed] .empty .empty log
        (emitRoot scriptFrontEnd (.ofSources flawed) .full [.ofText includesFlawed] .empty .empty) ∧
      (emitRoot scriptFrontEnd (.ofSources flawed) .full [.ofText includesFlawed] .empty
        .empty).outcome = .ok () ∧
      Reports scriptFrontEnd (.ofSources flawed) ⟨"script", includesFlawed⟩
        (scriptFrontEnd "script" includesFlawed) ⟨.empty, .empty, false⟩ ds k ∧
      (ds ++ k.ending).map Diagnostic.text =
        ["script.nss(1): error: undeclared identifier \"m\"",
          "lib.nss(2): error: undeclared identifier \"four\"",
          "script.nss(3): error: unable to open include file \"gone\"",
          "error: No \"main\" or \"StartingConditional\" found"] := by
  have hok : (emitRoot scriptFrontEnd (.ofSources flawed) .full [.ofText includesFlawed] .empty
      .empty).outcome = .ok () := by decide +kernel
  have htexts : (emitRoot scriptFrontEnd (.ofSources flawed) .full [.ofText includesFlawed] .empty
      .empty).stack.map (fun i => i.diagnostics.map Diagnostic.text) =
        [["script.nss(1): error: undeclared identifier \"m\"",
          "lib.nss(2): error: undeclared identifier \"four\"",
          "script.nss(3): error: unable to open include file \"gone\"",
          "error: No \"main\" or \"StartingConditional\" found"]] := by decide +kernel
  have hbounded := Loader.bounded_ofSources flawed
  obtain ⟨hreports, hends, -⟩ := emitRoot_reports scriptFrontEnd (.ofSources flawed)
    (.ofText includesFlawed) [] .empty .empty
  obtain ⟨log, hrun⟩ := hends hbounded
  obtain ⟨source, ds, k, j, hsource, hds, -, hstack, hdiagnostics, -⟩ := hreports log _ hrun hok
  obtain rfl := Option.some.inj hsource
  rw [Bytes.toText_ofText] at hds
  rw [hstack, List.map_singleton, hdiagnostics] at htexts
  exact ⟨hbounded, log, ds, k, hrun, hok, hds, List.singleton_inj.mp htexts⟩

end Nss
