/-
# Scripts without errors

A pass over a script begins with an empty table, or with one that was seeded from an earlier pass,
and in the end it adds the loader of the global variables.  If there are no errors, what it leaves
is a program that can be put together: `Emitted.linkable`.
-/
import Nss.Proofs.Unit.Emission

namespace Nss

open Steps

/-! ## The loader -/

namespace Symbols

variable {s : Symbols}

theorem lookup?_globalsLoader (hs : s.Scripted) : s.lookup? globalsLoader = none :=
  lookup?_eq_none_iff.mpr hs.unloaded

theorem function?_withFunction_of_lt {f g : FunctionSymbol} {id : Nat}
    (h : s.function? id = some g) : (s.withFunction f).function? id = some g := by
  have hlt := (List.getElem?_eq_some_iff.mp h).1
  rw [function?, withFunction, List.getElem?_append_left hlt]
  exact h

theorem lookup?_withFunction (hs : s.Scripted) {f : FunctionSymbol} (hf : f.name = globalsLoader) :
    (s.withFunction f).lookup? globalsLoader = some f := by
  have hnone := lookup?_globalsLoader hs
  rw [lookup?] at hnone ⊢
  rw [withFunction, List.find?_append, hnone, List.find?_singleton, hf]
  simp

/-- A function that was added last is given its body. -/
theorem attachBody_insert (name : String) (result : ValueType) (params : List ValueType)
    (unit : String) (b : FunctionBody) :
    (s.insert name result params unit).1.attachBody s.functions.length b
      = s.withFunction ⟨s.functions.length, name, result, params, unit, some b⟩ := by
  have hlast (f : FunctionSymbol) : (s.functions ++ [f]).modify s.functions.length
      (fun f => { f with body := some b }) = s.functions ++ [{ f with body := some b }] :=
    List.modifyTailIdx_add _ 0 s.functions [f]
  rw [attachBody, modifyFunction, insert, hlast]
  rfl

theorem declareLoader_eq_insert (hs : s.Scripted) (result : ValueType) (unit : String) :
    s.declareLoader result unit = s.insert globalsLoader result [] unit := by
  rw [declareLoader, lookup?_globalsLoader hs]

end Symbols

namespace Emit

variable {s s' : EmitState}

/-- The loader comes behind the functions, and its code behind theirs. -/
theorem addLoader_eq_ok (hs : s.symbols.Scripted) (hglobals : s.symbols.globals ≠ [])
    (h : addLoader s = .ok () s') :
    ∃ l f i, l = Lowering.ofGlobals s.symbols s.symbols.startFunction? ∧
      f.id = s.symbols.functions.length ∧ f.name = globalsLoader ∧ f.params = [] ∧
      f.body = some ⟨s.current.records.length, l.code.size, l.labels⟩ ∧
      s.current.SameButBuffer i ∧ i.records = s.current.records ++ l.code.toList ∧
      s' = { s with current := i.define f.id, symbols := s.symbols.withFunction f } := by
  rw [addLoader_apply, if_neg (mt List.isEmpty_iff.mp hglobals),
    Symbols.declareLoader_eq_insert hs] at h
  obtain ⟨i, hsame, hrecords, rfl⟩ := addBody_eq_ok h
  refine ⟨_, ⟨s.symbols.functions.length, globalsLoader, s.loaderResult, [], s.current.name, _⟩, i,
    rfl, rfl, rfl, rfl, rfl, hsame, hrecords, ?_⟩
  rw [← Symbols.attachBody_insert]
  rfl

/-- Adding the loader changes neither the number of errors nor the output window. -/
theorem addLoader_same (hs : s.symbols.Scripted) (h : addLoader s = .ok () s') :
    s'.current.errors = s.current.errors ∧ s'.current.output = s.current.output ∧
      s'.symbols.NonVoid := by
  by_cases hglobals : s.symbols.globals = []
  · rw [addLoader_apply, if_pos (List.isEmpty_iff.mpr hglobals)] at h
    obtain rfl := (EStateM.Result.ok.inj h).2
    exact ⟨rfl, rfl, hs.toNonVoid⟩
  · obtain ⟨l, f, i, -, -, -, hparams, -, hsame, -, rfl⟩ := addLoader_eq_ok hs hglobals h
    show i.errors = _ ∧ i.output = _ ∧ _
    rw [hsame]
    refine ⟨rfl, rfl, ⟨List.forall_mem_append.mpr ⟨hs.params, ?_⟩, hs.globals⟩⟩
    refine List.forall_mem_singleton.mpr ?_
    rw [hparams]
    exact List.forall_mem_nil _

theorem startFunction?_mem {symbols : Symbols} {f : FunctionSymbol}
    (h : symbols.startFunction? = some f) : f ∈ symbols.functions := by
  rw [Symbols.startFunction?] at h
  split at h
  · next g hg =>
      split at h
      · obtain rfl := Option.some.inj h
        exact List.mem_of_find?_eq_some hg
      · cases h
  · exact List.mem_of_find?_eq_some (Option.filter_eq_some_iff.mp h).1

/-- With the loader, the functions of a script are a program. -/
theorem addLoader_linkable (hs : s.symbols.Scripted)
    (hb : s.symbols.Backed s.current.records) (h : addLoader s = .ok () s') :
    s'.symbols.Linkable s'.current.records := by
  by_cases hglobals : s.symbols.globals = []
  · obtain ⟨_, t, ht, h⟩ := bind_eq_ok.mp h
    obtain ⟨rfl, rfl⟩ := EStateM.Result.ok.inj ht
    rw [if_pos (by rw [hglobals]; rfl)] at h
    obtain rfl := (EStateM.Result.ok.inj h).2
    exact ⟨hs.toNumbered, hb, fun hne => absurd hglobals hne⟩
  · obtain ⟨l, f, i, rfl, hid, hname, -, hbody, -, hrecords, rfl⟩ :=
      addLoader_eq_ok hs hglobals h
    have hclosed := Lowering.ofGlobals_closed hs.toNonVoid
      (fun f hf => startFunction?_mem hf)
    have hrecords : (i.define f.id).records = s.current.records ++ _ := hrecords
    refine ⟨hs.toNumbered.withFunction hid, ⟨?_, ?_, ?_⟩,
      fun _ => ⟨f, _, Symbols.lookup?_withFunction hs hname, hbody⟩⟩
    · rw [hrecords]
      exact List.forall_mem_append.mpr ⟨hb.wellFormed, hclosed.wellFormed⟩
    · rw [hrecords]
      refine List.forall_mem_append.mpr ⟨?_, ?_⟩
      · intro r hr id hid
        obtain ⟨g, hg, hne⟩ := hb.callee r hr id hid
        exact ⟨g, Symbols.function?_withFunction_of_lt hg, hne⟩
      · intro r hr id hid
        obtain ⟨g, hg, rfl⟩ := hclosed.callee r hr id hid
        exact ⟨g, Symbols.function?_withFunction_of_lt (hs.function?_of_mem hg), hs.unloaded g hg⟩
    · rw [hrecords]
      refine List.forall_mem_append.mpr ⟨?_, ?_⟩
      · intro g hg b hgb
        exact (hb.bodies g hg b hgb).append _
      · refine List.forall_mem_singleton.mpr ?_
        intro b hb
        obtain rfl := Option.some.inj (hbody.symm.trans hb)
        exact .ofClosed hclosed s.current.records

end Emit

/-! ## A whole pass -/

/-- Where there were no instructions and no bodies before, all bodies are sound afterwards. -/
theorem EmitState.Adds.backed {s t : EmitState} {new : List Instruction} {ids : List Nat}
    (h : s.Adds t new ids) (hrecords : s.current.records = [])
    (hbodies : ∀ id, s.symbols.body? id = none) (ht : t.symbols.Scripted) :
    t.symbols.Backed t.current.records := by
  have hnew : t.current.records = new := by rw [h.records, hrecords, List.nil_append]
  refine ⟨?_, ?_, ?_⟩
  · rw [hnew]
    exact h.wellFormed
  · rw [hnew]
    intro i hi id hid
    have hlt := h.callee i hi id hid
    exact ⟨_, List.getElem?_eq_getElem hlt, ht.unloaded _ (List.getElem_mem hlt)⟩
  · intro f hf b hb
    have hbody : t.symbols.body? f.id = some b := by
      rw [Symbols.body?, ht.function?_of_mem hf]
      exact hb
    by_cases hid : f.id ∈ ids
    · obtain ⟨b', hb', hsound⟩ := h.bodies f.id hid
      obtain rfl := Option.some.inj (hbody.symm.trans hb')
      exact hsound
    · rw [h.others f.id hid, hbodies] at hbody
      cases hbody

namespace Emit

open EmitState

variable {s s' : EmitState}

/-- At the end of the outermost unit there is at most one diagnostic more. -/
theorem concluded_ran (hs : s.symbols.Scripted) : s.Ran s.concluded := by
  rw [concluded]
  split
  · exact .of_same hs rfl rfl rfl rfl (Nat.le_succ _)
  · exact .refl hs

/-- A pass goes through the parts of the unit and then comes to its end. -/
theorem root_eq_ok {loader : Loader} {mode : EmitMode} (hs : s.symbols.Scripted)
    (h : root scriptFrontEnd loader mode s = .ok () s') :
    ∃ t, s.Ran t ∧ finish mode t = .ok () s' := by
  have hstart : s.Ran { s with entrySeen := false } := .of_same hs rfl rfl rfl rfl (Nat.le_refl _)
  rw [root_apply] at h
  split at h
  · cases h
  · next source _ =>
      obtain ⟨_, t, hparts, hfinish⟩ := bind_eq_ok.mp h
      have hran := parts_ran mode _ _ (content_proper loader mode _ _ source) hstart.scripted hparts
      exact ⟨t, hstart.trans hran, hfinish⟩

theorem root_nonVoid {loader : Loader} {mode : EmitMode} (hs : s.symbols.Scripted)
    (h : root scriptFrontEnd loader mode s = .ok () s') : s'.symbols.NonVoid := by
  obtain ⟨t, hran, hfinish⟩ := root_eq_ok hs h
  have hended := (concluded_ran hran.scripted).scripted
  rw [finish_apply] at hfinish
  cases mode with
  | full => exact (addLoader_same hended hfinish).2.2
  | scanOnly =>
      obtain rfl := (EStateM.Result.ok.inj hfinish).2
      exact hended.toNonVoid

/-- A full pass without errors over a new unit leaves a program. -/
theorem root_linkable {loader : Loader} (hs : s.symbols.Scripted)
    (hbodies : ∀ id, s.symbols.body? id = none) (hfresh : s.current.Fresh)
    (h : root scriptFrontEnd loader .full s = .ok () s') (herrors : s'.current.errors = 0) :
    s'.symbols.Linkable s'.current.records ∧ s'.current.output = s.current.output := by
  obtain ⟨t, hran, hload⟩ := root_eq_ok hs h
  rw [finish_apply] at hload
  have hall := hran.trans (concluded_ran hran.scripted)
  obtain ⟨hsame, houtput, -⟩ := addLoader_same hall.scripted hload
  obtain ⟨new, ids, hadds⟩ := hall.adds (hsame.symm.trans herrors)
  refine ⟨addLoader_linkable hall.scripted ?_ hload, houtput.trans hall.output⟩
  exact hadds.backed hfresh.records hbodies hall.scripted

end Emit

theorem emitRoot_eq_ok {loader : Loader} {mode : EmitMode} {stack : List Instance}
    {registry : Registry} {start : Symbols}
    (h : (emitRoot scriptFrontEnd loader mode stack registry start).outcome = .ok ()) :
    ∃ i outer s, stack = i :: outer ∧
      Emit.root scriptFrontEnd loader mode
        { current := i, outer, registry, symbols := start, entrySeen := false } = .ok () s ∧
      emitRoot scriptFrontEnd loader mode stack registry start
        = ⟨s.current :: s.outer, s.registry, s.symbols, .ok ()⟩ := by
  cases stack with
  | nil => cases h
  | cons i outer =>
      refine ⟨i, outer, ?_⟩
      simp only [emitRoot] at h ⊢
      split at h
      · next s hs => exact ⟨s, trivial, hs, rfl⟩
      · cases h

/-- The tables that a pass over a script begins with: an empty one, or one that is seeded with the
functions that an earlier pass saw. -/
inductive Symbols.Start : Symbols → Prop
  | empty : Symbols.Start .empty
  | seeded {loader : Loader} {mode : EmitMode} {stack : List Instance} {registry : Registry}
      {start : Symbols} :
      Symbols.Start start →
      (emitRoot scriptFrontEnd loader mode stack registry start).outcome = .ok () →
      Symbols.Start (emitRoot scriptFrontEnd loader mode stack registry start).symbols.seededFrom

theorem Symbols.body?_seededFrom (s : Symbols) (id : Nat) : s.seededFrom.body? id = none := by
  rw [body?, function?, seededFrom, List.getElem?_mapIdx]
  cases (s.functions.filter fun f => f.name ≠ globalsLoader)[id]? with
  | none => rfl
  | some f => rfl

/-- No body is there when a pass begins. -/
theorem Symbols.Start.scripted {start : Symbols} (h : start.Start) :
    start.Scripted ∧ ∀ id, start.body? id = none := by
  induction h with
  | empty => exact ⟨scripted_empty, fun _ => rfl⟩
  | @seeded loader mode stack registry start _ hok ih =>
      obtain ⟨i, outer, s, rfl, hroot, he⟩ := emitRoot_eq_ok hok
      rw [he]
      exact ⟨scripted_seededFrom (Emit.root_nonVoid ih.1 hroot), body?_seededFrom _⟩

/-- A program comes from a script if a full pass over a new unit emitted it without errors, and the
unit was finalized before or after. -/
inductive FromScript (symbols : Symbols) (i : Instance) : Prop
  | intro {loader : Loader} {fresh unit : Instance} {outer rest : List Instance}
      {registry : Registry} {start : Symbols} :
      start.Start → fresh.Fresh →
      (emitRoot scriptFrontEnd loader .full (fresh :: outer) registry start).outcome = .ok () →
      (emitRoot scriptFrontEnd loader .full (fresh :: outer) registry start).stack = unit :: rest →
      (emitRoot scriptFrontEnd loader .full (fresh :: outer) registry start).symbols = symbols →
      unit.errors = 0 →
      (unit = i ∧ i.tables.isSome = true ∨ ∃ flags, unit.finalize flags = .ok i) →
      FromScript symbols i

namespace FromScript

variable {symbols : Symbols} {i unit : Instance}

/-- What comes from a script can be put together, and its output window is not used. -/
theorem linkable (h : FromScript symbols i) :
    symbols.Linkable i.records ∧ i.tables.isSome = true ∧
      ∃ capacity, i.output = some ⟨[], capacity⟩ := by
  obtain ⟨hstart, hfresh, hok, hstack, hsymbols, herrors, hfinal⟩ := h
  obtain ⟨j, outer, s, heq, hroot, he⟩ := emitRoot_eq_ok hok
  obtain ⟨rfl, rfl⟩ := List.cons.inj heq
  rw [he] at hstack hsymbols
  obtain ⟨rfl, -⟩ := List.cons.inj hstack
  obtain rfl := hsymbols
  obtain ⟨hscripted, hbodies⟩ := hstart.scripted
  obtain ⟨hlinkable, houtput⟩ := Emit.root_linkable hscripted hbodies hfresh hroot herrors
  obtain ⟨capacity, hcapacity⟩ := hfresh.output
  have houtput := houtput.trans hcapacity
  rcases hfinal with ⟨rfl, htables⟩ | ⟨flags, hfinal⟩
  · exact ⟨hlinkable, htables, capacity, houtput⟩
  · obtain ⟨-, -, rfl⟩ := Instance.finalize_eq_ok.mp hfinal
    exact ⟨hlinkable, rfl, capacity, houtput⟩

end FromScript

/-! ## Single texts -/

/-- A unit before its first pass, finalized beforehand. -/
def Instance.ofText (text : String) : Instance where
  name := "script"
  source := .borrowed (Bytes.ofText text)
  output := some ⟨[], (Bytes.ofText text).length⟩
  debug := false
  errors := 0
  diagnostics := []
  settings := ⟨false, 0⟩
  ownsRegistry := true
  registration := none
  buffer := none
  defined := []
  isInclude := false
  tables := some (.ofFlags 0)
  isDestroyed := false

/-- What a full pass over a text leaves, with nothing to be included. -/
def emitText (text : String) : Emitted :=
  emitRoot scriptFrontEnd (.ofSources []) .full [.ofText text] .empty .empty

/-- The unit that a pass leaves. -/
def Emitted.unit (e : Emitted) : Instance := e.stack.headD default

/-- A pass came to its end and left a finalized unit without errors. -/
def Emitted.Clean (e : Emitted) : Prop :=
  e.outcome = .ok () ∧ e.stack.isEmpty = false ∧ e.unit.errors = 0 ∧ e.unit.tables.isSome = true

instance (e : Emitted) : Decidable e.Clean := inferInstanceAs (Decidable (_ ∧ _ ∧ _ ∧ _))

theorem FromScript.ofText (text : String) (h : (emitText text).Clean) :
    FromScript (emitText text).symbols (emitText text).unit := by
  obtain ⟨hok, hstack, herrors, htables⟩ := h
  have hunit : (emitText text).stack = (emitText text).unit :: (emitText text).stack.tail := by
    rw [Emitted.unit]
    cases h : (emitText text).stack with
    | nil => rw [h] at hstack; cases hstack
    | cons i rest => rfl
  exact ⟨.empty, ⟨rfl, rfl, rfl, _, rfl⟩, hok, hunit, rfl, herrors, .inl ⟨rfl, htables⟩⟩

end Nss
