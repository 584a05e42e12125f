/-
# A second pass over what has no errors

A second pass over a unit begins with a table that was seeded from the first one, so that it knows
every function before its declaration.  If the first pass has no errors, the second one does exactly
the same.

While both go along, the table of the second pass is `ahead` of that of the first one: behind the
functions met so far, it has those that are still to come, under the numbers that they will get and
without their bodies.  At the beginning this is the seeded table, and in the end there is nothing
left to come.

    function met again     found in the same place by both
    function met first     added by the first pass, found by the second one as what comes next
    global variable        new to both, as no function that comes later has its name
    code                   the same, as a call to a function that comes later would be an error
-/
import Nss.Proofs.Unit.Flat

namespace Nss

/-- A function without its body. -/
def FunctionSymbol.unbodied (f : FunctionSymbol) : FunctionSymbol := { f with body := none }

namespace Symbols

variable {s s' t T : Symbols}

/-! ## Tables that others begin with -/

/-- A table goes on where another one ends, with other bodies. -/
structure Begins (s T : Symbols) : Prop where
  functions : s.functions.map FunctionSymbol.unbodied <+: T.functions.map FunctionSymbol.unbodied
  globals : s.globals <+: T.globals

namespace Begins

theorem refl (s : Symbols) : s.Begins s := ⟨List.prefix_rfl, List.prefix_rfl⟩

theorem trans (h : s.Begins t) (h' : t.Begins T) : s.Begins T :=
  ⟨h.functions.trans h'.functions, h.globals.trans h'.globals⟩

theorem insert (s : Symbols) (name : String) (result : ValueType) (params : List ValueType)
    (unit : String) : s.Begins (s.insert name result params unit).1 := by
  refine ⟨?_, List.prefix_rfl⟩
  rw [Symbols.insert, List.map_append]
  exact List.prefix_append _ _

theorem attachBody (s : Symbols) (id : Nat) (b : FunctionBody) : s.Begins (s.attachBody id b) := by
  refine ⟨?_, List.prefix_rfl⟩
  have hsame : (s.attachBody id b).functions.map FunctionSymbol.unbodied
      = s.functions.map FunctionSymbol.unbodied := by
    refine List.ext_getElem? fun i => ?_
    rw [Symbols.attachBody, modifyFunction, List.getElem?_map, List.getElem?_modify,
      List.getElem?_map, Option.map_eq_map, Option.map_map]
    refine Option.map_congr fun f _ => ?_
    show FunctionSymbol.unbodied (if id = i then _ else f) = f.unbodied
    split
    · rfl
    · rfl
  exact hsame.symm ▸ List.prefix_rfl

end Begins

/-! ## Tables that tell their names apart -/

/-- No function has the name of a global variable or of the loader. -/
structure Apart (s : Symbols) : Prop where
  globals : ∀ f ∈ s.functions, ∀ g ∈ s.globals, f.name ≠ g.name
  unloaded : ∀ f ∈ s.functions, f.name ≠ globalsLoader

theorem apart_empty : empty.Apart := ⟨List.forall_mem_nil _, List.forall_mem_nil _⟩

theorem Apart.attachBody (h : s.Apart) (id : Nat) (b : FunctionBody) : (s.attachBody id b).Apart := by
  have hname : ∀ f ∈ (s.attachBody id b).functions, ∃ g ∈ s.functions, f.name = g.name := by
    intro f hf
    obtain ⟨g, hg, rfl | rfl⟩ := mem_modifyFunction hf
    · exact ⟨_, hg, rfl⟩
    · exact ⟨g, hg, rfl⟩
  constructor
  · intro f hf v hv
    obtain ⟨g, hg, heq⟩ := hname f hf
    rw [heq]
    exact h.globals g hg v hv
  · intro f hf
    obtain ⟨g, hg, heq⟩ := hname f hf
    rw [heq]
    exact h.unloaded g hg

/-! ## Accepted declarations -/

theorem Begins.declareFunction {decl : FunctionDecl} {unit : String} {id : Nat}
    (h : s.declareFunction decl unit = .ok (s', id)) : s.Begins s' := by
  obtain ⟨-, ⟨f, -, -, rfl⟩ | ⟨-, -, rfl⟩⟩ := declareFunction_eq_ok h
  · exact .refl _
  · exact .insert _ _ _ _ _

theorem Begins.declareGlobal {decl : VarDecl} {unit : String} {slot : Nat}
    (h : s.declareGlobal decl unit = .ok (s', slot)) : s.Begins s' := by
  obtain ⟨-, -, -, rfl⟩ := declareGlobal_eq_ok h
  exact ⟨List.prefix_rfl, List.prefix_append _ _⟩

theorem Apart.declareFunction (hs : s.Apart) {decl : FunctionDecl} (hdecl : decl.name ≠ globalsLoader)
    {unit : String} {id : Nat} (h : s.declareFunction decl unit = .ok (s', id)) : s'.Apart := by
  obtain ⟨hglobal, ⟨f, -, -, rfl⟩ | ⟨-, -, rfl⟩⟩ := declareFunction_eq_ok h
  · exact hs
  · refine ⟨List.forall_mem_append.mpr ⟨hs.globals, ?_⟩, List.forall_mem_append.mpr ⟨hs.unloaded, ?_⟩⟩
    · refine List.forall_mem_singleton.mpr fun g hg => ?_
      exact (lookupGlobal?_eq_none_iff.mp hglobal g hg).symm
    · exact List.forall_mem_singleton.mpr hdecl

theorem Apart.declareGlobal (hs : s.Apart) {decl : VarDecl} {unit : String} {slot : Nat}
    (h : s.declareGlobal decl unit = .ok (s', slot)) : s'.Apart := by
  obtain ⟨-, hfunction, -, rfl⟩ := declareGlobal_eq_ok h
  refine ⟨?_, hs.unloaded⟩
  intro f hf
  exact List.forall_mem_append.mpr
    ⟨hs.globals f hf, List.forall_mem_singleton.mpr (lookup?_eq_none_iff.mp hfunction f hf)⟩

/-! ## The table of the second pass -/

/-- A table with the functions that come later in another one, without their bodies. -/
def ahead (s T : Symbols) : Symbols :=
  { s with
    functions := s.functions
      ++ (T.functions.map FunctionSymbol.unbodied).drop s.functions.length }

theorem ahead_self (T : Symbols) : T.ahead T = T := by
  rw [ahead, ← List.length_map FunctionSymbol.unbodied, List.drop_length, List.append_nil]

/-- A function that was met is found in the same place. -/
theorem lookup?_ahead {name : String} {f : FunctionSymbol} (h : s.lookup? name = some f) :
    (s.ahead T).lookup? name = some f := by
  rw [lookup?] at h
  rw [lookup?, ahead, List.find?_append, h, Option.some_or]

theorem within_ahead (s T : Symbols) : s.Within (s.ahead T) :=
  ⟨fun {_ f} h => ⟨f, lookup?_ahead h, rfl, rfl, rfl⟩, rfl⟩

/-- What comes next is the function that is added next. -/
theorem ahead_insert {name : String} {result : ValueType} {params : List ValueType}
    {unit : String} (h : (s.insert name result params unit).1.Begins T) :
    ∃ later, (s.ahead T).functions
        = s.functions ++ ⟨s.functions.length, name, result, params, unit, none⟩ :: later ∧
      (s.insert name result params unit).1.ahead T = s.ahead T := by
  obtain ⟨later, hlater⟩ := h.functions
  have hmap : T.functions.map FunctionSymbol.unbodied
      = s.functions.map FunctionSymbol.unbodied
        ++ ⟨s.functions.length, name, result, params, unit, none⟩ :: later := by
    rw [← hlater, insert, List.map_append, List.append_assoc]
    rfl
  have hdrop : (T.functions.map FunctionSymbol.unbodied).drop s.functions.length
      = ⟨s.functions.length, name, result, params, unit, none⟩ :: later := by
    rw [hmap]
    exact List.drop_left' (List.length_map _)
  have hnext : (T.functions.map FunctionSymbol.unbodied).drop (s.functions.length + 1) = later := by
    rw [← List.tail_drop, hdrop, List.tail_cons]
  refine ⟨later, ?_, ?_⟩
  · rw [ahead, hdrop]
  · rw [ahead, ahead, hdrop, insert]
    dsimp only
    rw [List.length_append, List.length_singleton, hnext, List.append_assoc, List.singleton_append]

theorem declareFunction_ahead {decl : FunctionDecl} {unit : String} {id : Nat}
    (h : s.declareFunction decl unit = .ok (s', id)) (hT : s'.Begins T) :
    (s.ahead T).declareFunction decl unit = .ok (s'.ahead T, id) := by
  obtain ⟨hglobal, ⟨f, hf, rfl, rfl⟩ | ⟨hnone, rfl, rfl⟩⟩ := declareFunction_eq_ok h
  · -- both find the same function
    have hahead : (s'.ahead T).Redeclares decl f :=
      ⟨lookup?_ahead hf.found, hf.result, hf.params, hf.body⟩
    exact hahead.declareFunction hglobal unit
  · obtain ⟨later, hfunctions, hahead⟩ := ahead_insert hT
    have hglobals : (s.ahead T).lookupGlobal? decl.name = none := hglobal
    have hfound : (s.ahead T).lookup? decl.name = some ⟨s.functions.length, decl.name, decl.result,
        decl.params.map Param.type, unit, none⟩ := by
      rw [lookup?] at hnone
      rw [lookup?, hfunctions, List.find?_append, hnone, Option.none_or]
      exact List.find?_cons_of_pos (decide_eq_true rfl)
    rw [hahead, declareFunction, hglobals, hfound]
    simp

/-- A global variable is new to the second pass as well. -/
theorem declareGlobal_ahead {decl : VarDecl} {unit : String} {slot : Nat}
    (h : s.declareGlobal decl unit = .ok (s', slot)) (hT : s'.Begins T) (hapart : T.Apart) :
    (s.ahead T).declareGlobal decl unit = .ok (s'.ahead T, slot) := by
  obtain ⟨hglobal, hfunction, rfl, rfl⟩ := declareGlobal_eq_ok h
  have hmem : (⟨s.globals.length, decl, unit⟩ : GlobalSymbol) ∈ T.globals :=
    hT.globals.subset (List.mem_append_right _ List.mem_cons_self)
  have hglobals : (s.ahead T).lookupGlobal? decl.name = none := hglobal
  have hfunctions : (s.ahead T).lookup? decl.name = none := by
    rw [lookup?] at hfunction
    rw [lookup?, ahead, List.find?_append, hfunction, Option.none_or]
    refine List.find?_eq_none.mpr fun f hf => ?_
    obtain ⟨g, hg, rfl⟩ := List.mem_map.mp (List.mem_of_mem_drop hf)
    exact fun heq => hapart.globals g hg _ hmem (of_decide_eq_true heq)
  rw [declareGlobal, hglobals, hfunctions]
  simp [ahead]

theorem modify_append_of_lt {α : Type} {change : α → α} :
    ∀ {l : List α} {i : Nat} (more : List α), i < l.length →
      (l ++ more).modify i change = l.modify i change ++ more
  | _ :: _, 0, _, _ => rfl
  | a :: l, i + 1, more, h => by
      rw [List.cons_append, List.modify_succ_cons, List.modify_succ_cons, List.cons_append,
        modify_append_of_lt more (Nat.lt_of_succ_lt_succ h)]

theorem attachBody_ahead {id : Nat} (h : id < s.functions.length) (b : FunctionBody) :
    (s.ahead T).attachBody id b = (s.attachBody id b).ahead T := by
  rw [attachBody, attachBody, modifyFunction, modifyFunction, ahead, ahead]
  dsimp only
  rw [modify_append_of_lt _ h, List.length_modify]

end Symbols

/-! ## Effects -/

theorem Diagnostic.errorCount_pos {d : Diagnostic} {ds : List Diagnostic} (hd : d ∈ ds)
    (herror : d.isError = true) : Diagnostic.errorCount ds ≠ 0 := by
  intro hzero
  exact List.countP_eq_zero.mp hzero d hd herror

namespace Declaration

open Symbols

variable {s T : Symbols}

theorem effect_begins (decl : Declaration) (unit : String) (s : Symbols) :
    s.Begins (decl.effect unit s).symbols := by
  rcases decl.effect_symbols unit s with h | ⟨v, slot, -, h⟩ | ⟨f, id, -, h⟩
  · rw [h]
    exact .refl s
  · exact .declareGlobal h
  · exact .declareFunction h

theorem effect_apart {decl : Declaration}
    (hdecl : ∀ f, decl = .function f → f.name ≠ globalsLoader) (unit : String) (hs : s.Apart) :
    (decl.effect unit s).symbols.Apart := by
  rcases decl.effect_symbols unit s with h | ⟨v, slot, -, h⟩ | ⟨f, id, hf, h⟩
  · rwa [h]
  · exact hs.declareGlobal h
  · exact hs.declareFunction (hdecl f hf) h

/-- What is done without errors is also done knowing the functions that come later. -/
theorem effect_ahead {decl : Declaration} {unit : String}
    (hclean : Diagnostic.errorCount (decl.effect unit s).diagnostics = 0)
    (hT : (decl.effect unit s).symbols.Begins T) (hapart : T.Apart) :
    decl.effect unit (s.ahead T) = (decl.effect unit s).map (·.ahead T) := by
  have hmisses {s s' : Symbols} {ds : List Diagnostic} (hds : Diagnostic.errorCount ds = 0) :
      ¬ ∃ d ∈ ds, s.Misses s' d := by
    rintro ⟨d, hd, name, span, g, rfl, -⟩
    exact Diagnostic.errorCount_pos hd rfl hds
  cases decl with
  | global decl =>
      rw [effect, VarDecl.effect] at hclean hT
      rw [effect, effect, VarDecl.effect, VarDecl.effect]
      cases h : s.declareGlobal decl unit with
      | error d =>
          rw [h] at hclean
          exact absurd hclean (Diagnostic.errorCount_pos List.mem_cons_self (isError_declareGlobal h))
      | ok declared =>
          obtain ⟨s', slot⟩ := declared
          rw [h] at hclean hT
          rw [declareGlobal_ahead h hT hapart]
          dsimp only [Effect.map]
          rw [(Lowering.checkGlobal_within (within_ahead s' T) slot).resolve_right (hmisses hclean)]
  | function decl =>
      rw [effect, FunctionDecl.effect] at hclean hT
      rw [effect, effect, FunctionDecl.effect, FunctionDecl.effect]
      cases h : s.declareFunction decl unit with
      | error d =>
          rw [h] at hclean
          exact absurd hclean
            (Diagnostic.errorCount_pos List.mem_cons_self (isError_declareFunction h))
      | ok declared =>
          obtain ⟨s', id⟩ := declared
          rw [h] at hclean hT
          dsimp only at hclean hT ⊢
          split at hclean
          · next hbody =>
              rw [if_pos hbody] at hT
              rw [declareFunction_ahead h hT]
              dsimp only
              rw [if_pos hbody, if_pos hbody,
                (Lowering.ofFunction_within (within_ahead s' T) decl).resolve_right (hmisses hclean)]
              rfl
          · next hbody =>
              rw [if_neg hbody] at hT
              rw [declareFunction_ahead h hT]
              dsimp only
              rw [if_neg hbody, if_neg hbody]
              rfl

end Declaration

/-! ## Acts -/

/-- An act does not declare the loader. -/
def Act.Unloaded (a : Act) : Prop :=
  ∀ u decl, a = .declaration u (.function decl) → decl.name ≠ globalsLoader

namespace EmitState

open Symbols

variable {s t : EmitState} {a : Act} {acts : List Act} {T : Symbols}

/-- A state of the second pass. -/
def ahead (s : EmitState) (T : Symbols) : EmitState := { s with symbols := s.symbols.ahead T }

/-! ### What one act does -/

theorem errors_le_perform (h : s.perform a = some t) : s.current.errors ≤ t.current.errors := by
  have hreports (s : EmitState) (u : Emit.UnitText) (ds : List Diagnostic) :
      s.current.errors ≤ (s.reports u ds).current.errors := Nat.le_add_right _ _
  cases a with
  | problem u d =>
      obtain rfl := Option.some.inj h
      exact hreports s u [d]
  | registered key =>
      obtain rfl := Option.some.inj h
      exact Nat.le_refl _
  | declaration u decl =>
      rcases takes_eq_some h with ⟨-, rfl⟩ | ⟨id, l, -, -, rfl⟩
      · exact hreports _ u _
      · exact hreports _ u _

theorem perform_begins (h : s.perform a = some t) : s.symbols.Begins t.symbols := by
  cases a with
  | problem u d =>
      obtain rfl := Option.some.inj h
      exact .refl _
  | registered key =>
      obtain rfl := Option.some.inj h
      exact .refl _
  | declaration u decl =>
      have hbegins := decl.effect_begins u.name s.symbols
      rcases takes_eq_some h with ⟨-, rfl⟩ | ⟨id, l, -, -, rfl⟩
      · exact hbegins
      · exact hbegins.trans (.attachBody _ _ _)

theorem perform_apart (ha : a.Unloaded) (hs : s.symbols.Apart) (h : s.perform a = some t) :
    t.symbols.Apart := by
  cases a with
  | problem u d =>
      obtain rfl := Option.some.inj h
      exact hs
  | registered key =>
      obtain rfl := Option.some.inj h
      exact hs
  | declaration u decl =>
      have hapart := Declaration.effect_apart (fun f hf => ha u f (hf ▸ rfl)) u.name hs
      rcases takes_eq_some h with ⟨-, rfl⟩ | ⟨id, l, -, -, rfl⟩
      · exact hapart
      · exact hapart.attachBody _ _

theorem takes_ahead {u : Emit.UnitText} {e : Effect}
    (hknown : ∀ id l, e.body = some (id, l) → id < e.symbols.functions.length) :
    (s.ahead T).takes u (e.map (·.ahead T)) = (s.takes u e).map (·.ahead T) := by
  rw [takes, takes, Effect.map]
  dsimp only
  cases hbody : e.body with
  | none => rfl
  | some added =>
      obtain ⟨id, l⟩ := added
      dsimp only
      have hadds : ({ s.ahead T with symbols := e.symbols.ahead T }.reports u e.diagnostics).adds id l
          = (({ s with symbols := e.symbols }.reports u e.diagnostics).adds id l).ahead T :=
        congrArg (fun symbols => { (({ s with symbols := e.symbols }.reports u e.diagnostics).adds
          id l) with symbols }) (attachBody_ahead (hknown id l hbody) _)
      by_cases hgranted : Buffer.Granted (s.current.code.size + l.code.size)
      · rw [if_pos hgranted, Option.map_some, ← hadds]
        exact if_pos hgranted
      · rw [if_neg hgranted]
        exact if_neg hgranted

/-- An act without errors does the same in the second pass. -/
theorem perform_ahead (hs : s.symbols.Numbered) (h : s.perform a = some t)
    (herrors : t.current.errors = 0) (hT : t.symbols.Begins T) (hapart : T.Apart) :
    (s.ahead T).perform a = some (t.ahead T) := by
  cases a with
  | problem u d =>
      obtain rfl := Option.some.inj h
      rfl
  | registered key =>
      obtain rfl := Option.some.inj h
      rfl
  | declaration u decl =>
      have hsound := decl.effect_sound hs u.name
      have heffect : decl.effect u.name (s.symbols.ahead T)
          = (decl.effect u.name s.symbols).map (·.ahead T) := by
        have hclean (t : EmitState) (ht : (t.reports u (decl.effect u.name s.symbols).diagnostics
            ).current.errors = 0) :
            Diagnostic.errorCount (decl.effect u.name s.symbols).diagnostics = 0 := by
          rw [Emit.errors_reports] at ht
          exact (Nat.add_eq_zero_iff.mp ht).2
        rcases takes_eq_some h with ⟨-, rfl⟩ | ⟨id, l, -, -, rfl⟩
        · exact Declaration.effect_ahead (hclean _ herrors) hT hapart
        · exact Declaration.effect_ahead (hclean _ herrors) ((Begins.attachBody _ _ _).trans hT)
            hapart
      have hsame := takes_ahead (s := s.notes decl) (T := T) (u := u) hsound.known
      rw [← heffect] at hsame
      rw [perform] at h
      rw [h] at hsame
      exact hsame

/-! ### What a run does -/

theorem errors_le_performAll (h : s.performAll acts = some t) :
    s.current.errors ≤ t.current.errors := by
  induction acts generalizing s with
  | nil =>
      obtain rfl := Option.some.inj h
      exact Nat.le_refl _
  | cons a rest ih =>
      obtain ⟨s', hs', h⟩ := Option.bind_eq_some_iff.mp h
      exact Nat.le_trans (errors_le_perform hs') (ih h)

theorem performAll_begins (h : s.performAll acts = some t) : s.symbols.Begins t.symbols := by
  induction acts generalizing s with
  | nil =>
      obtain rfl := Option.some.inj h
      exact .refl _
  | cons a rest ih =>
      obtain ⟨s', hs', h⟩ := Option.bind_eq_some_iff.mp h
      exact (perform_begins hs').trans (ih h)

theorem performAll_apart (hacts : ∀ a ∈ acts, a.Unloaded) (hs : s.symbols.Apart)
    (h : s.performAll acts = some t) : t.symbols.Apart := by
  induction acts generalizing s with
  | nil =>
      obtain rfl := Option.some.inj h
      exact hs
  | cons a rest ih =>
      obtain ⟨s', hs', h⟩ := Option.bind_eq_some_iff.mp h
      obtain ⟨ha, hrest⟩ := List.forall_mem_cons.mp hacts
      exact ih hrest (perform_apart ha hs hs') h

/-- Acts without errors do the same in the second pass. -/
theorem performAll_ahead (hs : s.Ready) (h : s.performAll acts = some t)
    (herrors : t.current.errors = 0) (hT : t.symbols.Begins T) (hapart : T.Apart) :
    (s.ahead T).performAll acts = some (t.ahead T) := by
  induction acts generalizing s with
  | nil =>
      obtain rfl := Option.some.inj h
      rfl
  | cons a rest ih =>
      obtain ⟨s', hs', h⟩ := Option.bind_eq_some_iff.mp h
      have hnone : s'.current.errors = 0 :=
        Nat.eq_zero_of_le_zero (herrors ▸ errors_le_performAll h)
      have hfirst := perform_ahead hs.numbered hs' hnone ((performAll_begins h).trans hT) hapart
      rw [performAll, hfirst, Option.bind_some]
      exact ih (hs.perform hs') h

end EmitState

/-! ## Whole passes -/

namespace Symbols

variable {s : Symbols}

theorem filter_loader (hs : s.Apart) :
    (s.functions.filter fun f => f.name ≠ globalsLoader) = s.functions :=
  List.filter_eq_self.mpr fun f hf => decide_eq_true (hs.unloaded f hf)

/-- What a table is seeded with is all still to come. -/
theorem seededFrom_eq_ahead (hs : s.Numbered) (hapart : s.Apart) : s.seededFrom = empty.ahead s := by
  have hfunctions : s.functions.mapIdx (fun id f => ({ f with id, body := none } : FunctionSymbol))
      = s.functions.map FunctionSymbol.unbodied := by
    refine List.ext_getElem? fun i => ?_
    rw [List.getElem?_mapIdx, List.getElem?_map]
    cases hf : s.functions[i]? with
    | none => rfl
    | some f =>
        rw [Option.map_some, Option.map_some, ← hs.function i f hf]
        rfl
  rw [seededFrom, filter_loader hapart, hfunctions]
  rfl

theorem seededFrom_withFunction {f : FunctionSymbol} (hf : f.name = globalsLoader) :
    (s.withFunction f).seededFrom = s.seededFrom := by
  have hleft : [f].filter (fun f => f.name ≠ globalsLoader) = [] :=
    List.filter_cons_of_neg (by simp [hf])
  rw [seededFrom, seededFrom, withFunction, List.filter_append, hleft, List.append_nil]

end Symbols

namespace EmitState

variable {s s' : EmitState}

/-- The loader is left out when a table is seeded. -/
theorem seededFrom_loads (hs : s.symbols.Apart) (h : s.loads = some s') :
    s'.symbols.seededFrom = s.symbols.seededFrom := by
  rcases loads_eq_some h with rfl | rfl
  · rfl
  · rw [Symbols.declareLoader, Symbols.lookup?_eq_none_iff.mpr hs.unloaded]
    exact (congrArg Symbols.seededFrom (Symbols.attachBody_insert _ _ _ _ _)).trans
      (Symbols.seededFrom_withFunction rfl)

/-- A run without errors is repeated by one that begins with the table seeded from it. -/
theorem performAll_seededFrom {i : Instance} {outer : List Instance} {r : Registry}
    {acts : List Act} (hi : i.Roomy) (h : (start i outer r .empty).performAll acts = some s)
    (herrors : s.current.errors = 0) (hapart : s.symbols.Apart) :
    (start i outer r s.symbols.seededFrom).performAll acts = some s := by
  have hempty : (start i outer r .empty).Ready := ⟨hi, Symbols.numbered_empty⟩
  have hrun := performAll_ahead hempty h herrors (.refl _) hapart
  have hend : s.ahead s.symbols = s :=
    congrArg (fun symbols => { s with symbols }) s.symbols.ahead_self
  rw [hend] at hrun
  rw [Symbols.seededFrom_eq_ahead (hempty.performAll h).numbered hapart]
  exact hrun

theorem errors_le_concluded (s : EmitState) : s.current.errors ≤ s.concluded.current.errors := by
  rw [concluded]
  split
  · exact Nat.le_succ s.current.errors
  · exact Nat.le_refl _

end EmitState

/-- A pass that ends without errors is repeated, step by step, by one that begins with the table
seeded from it: the same instructions and bodies, the same diagnostics, the same registry. -/
theorem emitRoot_seededFrom {front : FrontEnd} {loader : Loader} {i : Instance}
    {outer : List Instance} {r : Registry}
    (hfront : ∀ unit text decl, .declaration (.function decl) ∈ front unit text →
      decl.name ≠ globalsLoader)
    (hi : i.Roomy)
    (hok : (emitRoot front loader .full (i :: outer) r .empty).outcome = .ok ())
    (herrors : (emitRoot front loader .full (i :: outer) r .empty).unit.errors = 0) :
    emitRoot front loader .full (i :: outer) r
        (emitRoot front loader .full (i :: outer) r .empty).symbols.seededFrom
      = emitRoot front loader .full (i :: outer) r .empty := by
  have hready {symbols : Symbols} (hs : symbols.Numbered) :
      (EmitState.start i outer r symbols).Ready := ⟨hi, hs⟩
  have hempty := hready Symbols.numbered_empty
  rw [emitRoot_cons] at hok herrors
  rw [emitRoot_cons, emitRoot_cons]
  cases hfirst : Emit.root front loader .full (.start i outer r .empty) with
  | error e s =>
      rw [hfirst] at hok
      cases hok
  | ok u s =>
      rw [hfirst] at herrors
      obtain ⟨source, t, hsource, hloadable, hacts, hloads⟩ :=
        (Emit.outermost_eq_ok_iff hempty).mp hfirst
      have ht : t.Ready := hempty.performAll hacts
      have hapart : t.symbols.Apart := by
        refine EmitState.performAll_apart ?_ Symbols.apart_empty hacts
        rintro a ha v decl rfl
        obtain ⟨unit, text, hmem⟩ := Expanded.declaration_mem_allActs_ofUnit _ _ _ _ _ ha
        exact hfront unit text decl hmem
      rw [← t.symbols_concluded] at hapart
      have hseeded := EmitState.seededFrom_loads hapart hloads
      rw [t.symbols_concluded] at hapart hseeded
      have hnone : t.current.errors = 0 := by
        have hle := t.errors_le_concluded
        rw [← EmitState.errors_loads hloads] at hle
        exact Nat.eq_zero_of_le_zero (Nat.le_trans hle (Nat.le_of_eq herrors))
      have hsecond : Emit.root front loader .full (.start i outer r s.symbols.seededFrom)
          = .ok () s := by
        rw [hseeded]
        exact (Emit.outermost_eq_ok_iff (hready (Symbols.numbered_seededFrom _))).mpr
          ⟨source, t, hsource, hloadable,
            EmitState.performAll_seededFrom hi hacts hnone hapart, hloads⟩
      exact congrArg Emitted.ofResult hsecond

/-! ### A unit with an include and a global variable -/

/-- Functions to be included. -/
def doublers : List (String × Bytes) :=
  [("lib", Bytes.ofText ("int Twice(int n) { return n + n; } "
    ++ "int Four(int n) { return Twice(Twice(n)); }"))]

/-- A script that includes functions, and calls one for the first value of a global variable. -/
def includesDoublers : String :=
  "#include \"lib\" int n = Four(2); int Next(int x); void main() { n = Next(n); } "
    ++ "int Next(int x) { return Twice(x) + 1; }"

theorem emitRoot_seededFrom_includesDoublers :
    (emitRoot scriptFrontEnd (.ofSources doublers) .full [.ofText includesDoublers] .empty
        .empty).unit.errors = 0 ∧
      emitRoot scriptFrontEnd (.ofSources doublers) .full [.ofText includesDoublers] .empty
          (emitRoot scriptFrontEnd (.ofSources doublers) .full [.ofText includesDoublers] .empty
            .empty).symbols.seededFrom
        = emitRoot scriptFrontEnd (.ofSources doublers) .full [.ofText includesDoublers] .empty
            .empty := by
  have hclean : (emitRoot scriptFrontEnd (.ofSources doublers) .full [.ofText includesDoublers]
      .empty .empty).Clean := by decide +kernel
  obtain ⟨hok, -, herrors, -⟩ := hclean
  refine ⟨herrors, emitRoot_seededFrom ?_ (Instance.roomy_ofText _) hok herrors⟩
  intro unit text decl hmem
  cases Event.ofSource_proper text _ hmem _ rfl with
  | function _ hname => exact hname

end Nss
