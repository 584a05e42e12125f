/-
# Symbol tables with indices

In place, a symbol table is two lists and two indices.  An index gives the number of a name, and what
stands at that number is taken from the list without a check.

    functions    ids       the functions, and the number of each by its name
    globals      slots     the global variables, and the number of each by its name

An operation changes these parts one after the other.  It goes wrong if a number leads nowhere, and
then no diagnostic says so.  A table is coherent if its numbers are places, its indices are those of
its names, and no name stands for two things.  On a coherent table an operation in place leaves what
the functions of `Symbols` give, and the table is coherent again (`Request.follows`); so it is after
any history of operations (`run_coherent`).

Only the loader of the global variables is ever declared anew with another result.  Scripts cannot
name it.
-/
import Nss.Proofs.Unit.Mirror
import Std.Data.HashMap.Lemmas

namespace Nss

open Steps

/-- What a call has to know of a function. -/
def FunctionSymbol.signature (f : FunctionSymbol) : String × ValueType × List ValueType :=
  (f.name, f.result, f.params)

namespace Symbols

/-! ## Indices -/

/-- An index gives every name of a list its place, and knows no other name. -/
def Indexes (index : Std.HashMap String Nat) (names : List String) : Prop :=
  ∀ (name : String) (i : Nat), index[name]? = some i ↔ names[i]? = some name

namespace Indexes

variable {index : Std.HashMap String Nat} {names : List String} {name : String}

theorem empty : Indexes ∅ [] := by
  intro name i
  simp

theorem contains_iff (h : Indexes index names) : index.contains name = true ↔ name ∈ names := by
  rw [Std.HashMap.contains_eq_isSome_getElem?, Option.isSome_iff_exists, List.mem_iff_getElem?]
  exact exists_congr fun i => h name i

theorem getElem?_eq_none (h : Indexes index names) (hname : name ∉ names) : index[name]? = none := by
  rw [Option.eq_none_iff_forall_ne_some]
  intro i hi
  exact hname (List.mem_of_getElem? ((h name i).mp hi))

/-- A new name is put behind the others. -/
theorem insert (h : Indexes index names) (hnew : name ∉ names) :
    Indexes (index.insert name names.length) (names ++ [name]) := by
  intro other i
  rw [Std.HashMap.getElem?_insert, List.getElem?_append]
  by_cases hname : name = other
  · subst hname
    rw [if_pos (beq_self_eq_true name)]
    split
    · next hlt =>
        have hne : names[i]? ≠ some name := fun hi => hnew (List.mem_of_getElem? hi)
        simp [hne, Nat.ne_of_gt hlt]
    · next hge =>
        rw [List.getElem?_singleton]
        constructor
        · intro hi
          obtain rfl := Option.some.inj hi
          simp
        · intro hi
          split at hi
          · exact congrArg some (by omega)
          · cases hi
  · rw [if_neg (by simpa using hname), h other i]
    split
    · rfl
    · next hge =>
        rw [List.getElem?_eq_none (Nat.le_of_not_lt hge), List.getElem?_singleton]
        split
        · simp [hname]
        · rfl

end Indexes

/-! ## Tables -/

/-- The names of the global variables, in the order of their slots. -/
def globalNames (s : Symbols) : List String := s.globals.map GlobalSymbol.name

theorem mem_globalNames {s : Symbols} {name : String} :
    name ∈ s.globalNames ↔ (s.lookupGlobal? name).isSome = true := by
  rw [lookupGlobal?, List.find?_isSome, globalNames, List.mem_map]
  exact exists_congr fun g => and_congr Iff.rfl decide_eq_true_iff.symm

/-- A symbol table with its indices. -/
structure Indexed where
  functions : List FunctionSymbol
  ids : Std.HashMap String Nat
  globals : List GlobalSymbol
  slots : Std.HashMap String Nat

/-- What an operation on a table ends with instead of its end: a declaration is refused, or there is
no function with a number. -/
inductive Fault where
  | refused (d : Diagnostic)
  | outOfRange (id : Nat)

namespace Indexed

/-- A table that knows nothing. -/
def empty : Indexed := ⟨[], ∅, [], ∅⟩

/-- A table without its indices. -/
def table (t : Indexed) : Symbols := ⟨t.functions, t.globals⟩

/-- The function with a number that an index gave. -/
def reach (id : Nat) : EStateM Fault Indexed FunctionSymbol := do
  match (← get).functions[id]? with
  | some f => return f
  | none => throw (.outOfRange id)

/-- Adds a function, to the index first. -/
def push (f : FunctionSymbol) : EStateM Fault Indexed Unit := do
  modify fun t => { t with ids := t.ids.insert f.name f.id }
  modify fun t => { t with functions := t.functions ++ [f] }

/-- Changes the function with a number, if there is one. -/
def change (id : Nat) (f : FunctionSymbol → FunctionSymbol) : EStateM Fault Indexed Unit :=
  modify fun t => { t with functions := t.functions.modify id f }

/-- Adds a function that is not in the table, and gives its number. -/
def insertFunction (name : String) (result : ValueType) (params : List ValueType) (unit : String) :
    EStateM Fault Indexed Nat := do
  let id := (← get).functions.length
  push { id, name, result, params, unit, body := none }
  return id

/-- Declares a function and gives its number. -/
def declareFunction (decl : FunctionDecl) (unit : String) : EStateM Fault Indexed Nat := do
  let t ← get
  if t.slots.contains decl.name then
    throw (.refused (.error (.declaredAsVariable decl.name) decl.span))
  else
    let params := decl.params.map Param.type
    match t.ids[decl.name]? with
    | some id =>
      let f ← reach id
      if f.result ≠ decl.result ∨ f.params ≠ params then
        throw (.refused (.error (.conflictingFunction decl.name) decl.span))
      else if f.body.isSome ∧ decl.body.isSome then
        throw (.refused (.error (.secondBody decl.name) decl.span))
      else return id
    | none => insertFunction decl.name decl.result params unit

/-- Declares the loader of the global variables, in place of an earlier one. -/
def declareLoader (result : ValueType) (unit : String) : EStateM Fault Indexed Nat := do
  match (← get).ids[globalsLoader]? with
  | some id =>
    let _ ← reach id
    change id fun f => { f with result, body := none }
    return id
  | none => insertFunction globalsLoader result [] unit

/-- Declares a global variable and gives its number. -/
def declareGlobal (decl : VarDecl) (unit : String) : EStateM Fault Indexed Nat := do
  let t ← get
  if t.slots.contains decl.name ∨ t.ids.contains decl.name then
    throw (.refused (.error (.alreadyDeclared decl.name) decl.span))
  else
    let slot := t.globals.length
    modify fun t => { t with slots := t.slots.insert decl.name slot }
    modify fun t => { t with globals := t.globals ++ [{ slot, decl, unit }] }
    return slot

/-- Moves the bodies of some functions by a number of instructions. -/
def rebase (ids : List Nat) (offset : Nat) : EStateM Fault Indexed Unit :=
  ids.forM fun id => change id fun f =>
    { f with body := f.body.map fun b => { b with start := b.start + offset } }

/-- Takes over a function of another table, without its body.  The loader is left out. -/
def take (f : FunctionSymbol) : EStateM Fault Indexed Unit := do
  if f.name = globalsLoader then return ()
  else
    let id := (← get).functions.length
    push { f with id, body := none }

/-- Begins a new table with the functions of this one. -/
def seed : EStateM Fault Indexed Unit := do
  let previous := (← get).functions
  set empty
  previous.forM take

/-! ## Coherence -/

/-- A table whose numbers are places, whose indices are those of its names, and in which no name
stands for two things. -/
structure Coherent (t : Indexed) : Prop where
  numbered : t.table.Numbered
  ids : Indexes t.ids t.table.names
  slots : Indexes t.slots t.table.globalNames
  distinct : (t.table.names ++ t.table.globalNames).Nodup
  apart : globalsLoader ∉ t.table.globalNames
  loader : ∀ f ∈ t.functions, f.name = globalsLoader → f.params = []

theorem coherent_empty : empty.Coherent where
  numbered := numbered_empty
  ids := Indexes.empty
  slots := Indexes.empty
  distinct := List.nodup_nil
  apart := List.not_mem_nil
  loader := List.forall_mem_nil _

namespace Coherent

variable {t : Indexed}

theorem nodup_names (ht : t.Coherent) : t.table.names.Nodup := ht.distinct.of_append_left

/-- The index knows the function that is found by a name. -/
theorem ids_of_lookup? (ht : t.Coherent) {name : String} {f : FunctionSymbol}
    (h : t.table.lookup? name = some f) : t.ids[name]? = some f.id := by
  rw [ht.ids, names, List.getElem?_map]
  have hf : t.table.functions[f.id]? = some f := ht.numbered.function?_of_lookup? h
  rw [hf, Option.map_some, name_of_lookup? h]

theorem ids_of_lookup?_eq_none (ht : t.Coherent) {name : String}
    (h : t.table.lookup? name = none) : t.ids[name]? = none := by
  refine ht.ids.getElem?_eq_none fun hmem => ?_
  rw [mem_names, h] at hmem
  cases hmem

theorem contains_ids (ht : t.Coherent) (name : String) :
    t.ids.contains name = (t.table.lookup? name).isSome := by
  rw [Bool.eq_iff_iff, ht.ids.contains_iff, mem_names]

theorem contains_slots (ht : t.Coherent) (name : String) :
    t.slots.contains name = (t.table.lookupGlobal? name).isSome := by
  rw [Bool.eq_iff_iff, ht.slots.contains_iff, mem_globalNames]

/-- A number that the index gives leads to a function. -/
theorem reach_of_lookup? (ht : t.Coherent) {name : String} {f : FunctionSymbol}
    (h : t.table.lookup? name = some f) : reach f.id t = .ok f t := by
  have hf : t.functions[f.id]? = some f := ht.numbered.function?_of_lookup? h
  rw [reach, bind_apply, get_apply]
  simp only [hf]
  rfl

/-- A function with a new name is put behind the others. -/
theorem push (ht : t.Coherent) {f : FunctionSymbol} (hid : f.id = t.functions.length)
    (hnew : f.name ∉ t.table.names) (hglobal : f.name ∉ t.table.globalNames)
    (hloader : f.name = globalsLoader → f.params = []) :
    ∃ t', Indexed.push f t = .ok () t' ∧ t'.table = t.table.withFunction f ∧ t'.Coherent := by
  refine ⟨_, rfl, rfl, ?_⟩
  have hnames : (t.table.withFunction f).names = t.table.names ++ [f.name] := List.map_append
  have hlength : f.id = t.table.names.length := by
    rw [hid, names, List.length_map]
    rfl
  constructor
  · exact ht.numbered.withFunction hid
  · show Indexes _ (t.table.withFunction f).names
    rw [hnames, hlength]
    exact ht.ids.insert hnew
  · exact ht.slots
  · show ((t.table.withFunction f).names ++ t.table.globalNames).Nodup
    rw [hnames, List.append_assoc, List.nodup_append']
    obtain ⟨hnames, hglobals, hdisjoint⟩ := List.nodup_append'.mp ht.distinct
    refine ⟨hnames, List.nodup_cons.mpr ⟨hglobal, hglobals⟩, ?_⟩
    exact List.disjoint_cons_right.mpr ⟨hnew, hdisjoint⟩
  · exact ht.apart
  · exact List.forall_mem_append.mpr ⟨ht.loader, List.forall_mem_singleton.mpr hloader⟩

/-- What is changed of a function is neither its number nor its name nor its parameters. -/
theorem modify (ht : t.Coherent) (id : Nat) {f : FunctionSymbol → FunctionSymbol}
    (hid : ∀ g, (f g).id = g.id) (hname : ∀ g, (f g).name = g.name)
    (hparams : ∀ g, (f g).params = g.params) :
    ∃ t', change id f t = .ok () t' ∧ t'.table = t.table.modifyFunction id f ∧ t'.Coherent := by
  refine ⟨_, rfl, rfl, ?_⟩
  have hnames := names_modifyFunction hname ht.numbered id
  constructor
  · exact ht.numbered.modifyFunction id hid
  · show Indexes t.ids (t.table.modifyFunction id f).names
    rw [hnames]
    exact ht.ids
  · exact ht.slots
  · show ((t.table.modifyFunction id f).names ++ t.table.globalNames).Nodup
    rw [hnames]
    exact ht.distinct
  · exact ht.apart
  · intro g hg hloader
    obtain ⟨g', hg', rfl | rfl⟩ := mem_modifyFunction (s := t.table) hg
    · exact ht.loader g hg' hloader
    · rw [hparams]
      exact ht.loader g' hg' ((hname g').symm.trans hloader)

end Coherent

/-! ## What the operations do -/

/-- An operation in place does what a function of tables gives: it leaves that table, coherent, or the
table as it was and the diagnostic. -/
def Follows {α : Type} (t : Indexed) :
    Except Diagnostic (Symbols × α) → EStateM.Result Fault Indexed α → Prop
  | .ok (s, a), r => ∃ t', r = .ok a t' ∧ t'.table = s ∧ t'.Coherent
  | .error d, r => r = .error (.refused d) t

namespace Coherent

variable {t : Indexed}

theorem insertFunction (ht : t.Coherent) {name : String} (result : ValueType)
    {params : List ValueType} (unit : String) (hnew : t.table.lookup? name = none)
    (hglobal : t.table.lookupGlobal? name = none) (hloader : name = globalsLoader → params = []) :
    t.Follows (.ok (t.table.insert name result params unit))
      (insertFunction name result params unit t) := by
  have hname : name ∉ t.table.names := by simp [mem_names, hnew]
  have hglobal : name ∉ t.table.globalNames := by simp [mem_globalNames, hglobal]
  let f : FunctionSymbol := ⟨t.functions.length, name, result, params, unit, none⟩
  obtain ⟨t', hpush, htable, ht'⟩ := ht.push (f := f) rfl hname hglobal hloader
  refine ⟨t', ?_, htable, ht'⟩
  rw [Indexed.insertFunction, bind_apply, get_apply]
  dsimp only
  rw [bind_of_ok hpush]
  rfl

theorem declareFunction (ht : t.Coherent) {decl : FunctionDecl} (hname : decl.name ≠ globalsLoader)
    (unit : String) :
    t.Follows (t.table.declareFunction decl unit) (declareFunction decl unit t) := by
  rw [Indexed.declareFunction, bind_apply, get_apply, Symbols.declareFunction]
  dsimp only
  rw [ht.contains_slots]
  by_cases hglobal : (t.table.lookupGlobal? decl.name).isSome = true
  · rw [if_pos hglobal, if_pos hglobal]
    rfl
  · rw [if_neg hglobal, if_neg hglobal]
    cases hf : t.table.lookup? decl.name with
    | none =>
        rw [ht.ids_of_lookup?_eq_none hf]
        exact ht.insertFunction _ _ hf (by simpa using hglobal) (absurd · hname)
    | some f =>
        rw [ht.ids_of_lookup? hf]
        dsimp only
        rw [bind_of_ok (ht.reach_of_lookup? hf)]
        split
        · rfl
        · split
          · rfl
          · exact ⟨t, rfl, rfl, ht⟩

theorem declareLoader (ht : t.Coherent) (result : ValueType) (unit : String) :
    t.Follows (.ok (t.table.declareLoader result unit)) (declareLoader result unit t) := by
  rw [Indexed.declareLoader, bind_apply, get_apply, Symbols.declareLoader]
  dsimp only
  cases hf : t.table.lookup? globalsLoader with
  | none =>
      have hglobal : t.table.lookupGlobal? globalsLoader = none := by
        simpa [mem_globalNames] using ht.apart
      rw [ht.ids_of_lookup?_eq_none hf]
      exact ht.insertFunction _ _ hf hglobal fun _ => rfl
  | some f =>
      let f' (g : FunctionSymbol) : FunctionSymbol := { g with result, body := none }
      obtain ⟨t', hchange, htable, ht'⟩ :=
        ht.modify f.id (f := f') (fun _ => rfl) (fun _ => rfl) fun _ => rfl
      refine ⟨t', ?_, htable, ht'⟩
      rw [ht.ids_of_lookup? hf]
      dsimp only
      rw [bind_of_ok (ht.reach_of_lookup? hf), bind_of_ok hchange]
      rfl

theorem declareGlobal (ht : t.Coherent) {decl : VarDecl} (hname : decl.name ≠ globalsLoader)
    (unit : String) : t.Follows (t.table.declareGlobal decl unit) (declareGlobal decl unit t) := by
  rw [Indexed.declareGlobal, bind_apply, get_apply, Symbols.declareGlobal]
  dsimp only
  rw [ht.contains_slots, ht.contains_ids]
  split
  · rfl
  · next hnew =>
      obtain ⟨hglobal, hfunction⟩ := not_or.mp hnew
      rw [← mem_globalNames] at hglobal
      rw [← mem_names] at hfunction
      refine ⟨_, rfl, rfl, ?_⟩
      let g : GlobalSymbol := ⟨t.globals.length, decl, unit⟩
      let s : Symbols := { t.table with globals := t.table.globals ++ [g] }
      have hadded : t.table.declareGlobal decl unit = .ok (s, t.globals.length) := by
        rw [Symbols.declareGlobal, if_neg hnew]
        rfl
      have hnames : s.globalNames = t.table.globalNames ++ [decl.name] := List.map_append
      have hlength : t.globals.length = t.table.globalNames.length :=
        (List.length_map _).symm
      constructor
      · exact ht.numbered.declareGlobal hadded
      · exact ht.ids
      · show Indexes (t.slots.insert decl.name t.globals.length) s.globalNames
        rw [hnames, hlength]
        exact ht.slots.insert hglobal
      · show (t.table.names ++ s.globalNames).Nodup
        rw [hnames, ← List.append_assoc]
        refine List.Nodup.append ht.distinct (List.nodup_singleton _) ?_
        exact List.disjoint_singleton.mpr fun hmem => (List.mem_append.mp hmem).elim hfunction hglobal
      · show globalsLoader ∉ s.globalNames
        rw [hnames, List.mem_append, List.mem_singleton]
        exact fun h => h.elim ht.apart (Ne.symm hname)
      · exact ht.loader

theorem rebase (ids : List Nat) (offset : Nat) : ∀ {t : Indexed}, t.Coherent →
    ∃ t', rebase ids offset t = .ok () t' ∧ t'.table = t.table.rebase ids offset ∧ t'.Coherent := by
  induction ids with
  | nil => exact fun ht => ⟨_, rfl, rfl, ht⟩
  | cons id ids ih =>
      intro t ht
      let f (g : FunctionSymbol) : FunctionSymbol :=
        { g with body := g.body.map fun b => { b with start := b.start + offset } }
      obtain ⟨t₁, hchange, htable, ht₁⟩ :=
        ht.modify id (f := f) (fun _ => rfl) (fun _ => rfl) fun _ => rfl
      obtain ⟨t', hrest, htable', ht'⟩ := ih ht₁
      refine ⟨t', ?_, ?_, ht'⟩
      · exact (bind_of_ok hchange).trans hrest
      · rw [htable', htable]
        rfl

end Coherent

/-- A function as a seeded table takes it over. -/
def seeded (f : FunctionSymbol) (id : Nat) : FunctionSymbol := { f with id, body := none }

/-- The functions that a seeded table takes over. -/
def kept (functions : List FunctionSymbol) : List FunctionSymbol :=
  functions.filter fun f => f.name ≠ globalsLoader

theorem take_of_loader {f : FunctionSymbol} (h : f.name = globalsLoader) (t : Indexed) :
    take f t = .ok () t := by
  rw [take, if_pos h]
  rfl

theorem take_of_ne {f : FunctionSymbol} (h : f.name ≠ globalsLoader) (t : Indexed) :
    take f t = push (seeded f t.functions.length) t := by
  rw [take, if_neg h, bind_apply, get_apply]
  rfl

/-- The functions that are taken over come behind the others, in their order. -/
theorem Coherent.takeAll : ∀ (fs : List FunctionSymbol) {t : Indexed}, t.Coherent →
    t.globals = [] → (t.table.names ++ (kept fs).map FunctionSymbol.name).Nodup →
    ∃ t', fs.forM take t = .ok () t' ∧ t'.Coherent ∧
      t'.table = ⟨t.functions ++ (kept fs).mapIdx fun i f => seeded f (t.functions.length + i), []⟩
  | [], t, ht, hglobals, _ => by
      refine ⟨t, rfl, ht, ?_⟩
      rw [table, hglobals]
      exact congrArg (Symbols.mk · []) (List.append_nil _).symm
  | f :: fs, t, ht, hglobals, hnodup => by
      by_cases hname : f.name = globalsLoader
      · have hkept : kept (f :: fs) = kept fs := List.filter_cons_of_neg (by simp [hname])
        obtain ⟨t', hrest, ht', htable⟩ := takeAll fs ht hglobals (hkept ▸ hnodup)
        exact ⟨t', (bind_of_ok (take_of_loader hname t)).trans hrest, ht', hkept ▸ htable⟩
      · have hkept : kept (f :: fs) = f :: kept fs := List.filter_cons_of_pos (by simp [hname])
        rw [hkept, List.map_cons] at hnodup
        obtain ⟨-, -, hdisjoint⟩ := List.nodup_append'.mp hnodup
        have hnew : f.name ∉ t.table.names := (List.disjoint_cons_right.mp hdisjoint).1
        have hglobal : f.name ∉ t.table.globalNames := by
          rw [globalNames, show t.table.globals = [] from hglobals]
          exact List.not_mem_nil
        obtain ⟨t₁, hpush, htable, ht₁⟩ :=
          ht.push (f := seeded f t.functions.length) rfl hnew hglobal (absurd · hname)
        obtain ⟨hfunctions, hnone⟩ := Symbols.mk.inj htable
        have hnames : t₁.table.names = t.table.names ++ [f.name] := by
          rw [htable]
          exact List.map_append
        obtain ⟨t', hrest, ht', htable'⟩ := takeAll fs ht₁ (hnone.trans hglobals) (by
          rwa [hnames, List.append_assoc])
        refine ⟨t', ?_, ht', ?_⟩
        · exact (bind_of_ok ((take_of_ne hname t).trans hpush)).trans hrest
        · have hbehind (i : Nat) : t₁.functions.length + i = t.functions.length + (i + 1) := by
            rw [hfunctions, List.length_append, List.length_singleton]
            show t.functions.length + 1 + i = _
            omega
          rw [htable', hkept, List.mapIdx_cons, hfunctions, List.append_assoc]
          simp only [← hfunctions, hbehind]
          rfl

theorem Coherent.seed {t : Indexed} (ht : t.Coherent) :
    ∃ t', seed t = .ok () t' ∧ t'.table = t.table.seededFrom ∧ t'.Coherent := by
  have hnodup : ((kept t.functions).map FunctionSymbol.name).Nodup :=
    ht.nodup_names.sublist (List.filter_sublist.map _)
  obtain ⟨t', htake, ht', htable⟩ := coherent_empty.takeAll t.functions rfl hnodup
  refine ⟨t', htake, ?_, ht'⟩
  rw [htable]
  simp only [empty, List.nil_append, List.length_nil, Nat.zero_add]
  rfl

/-! ## Requests -/

/-- What a table can be asked for. -/
inductive Request where
  | declareFunction (decl : FunctionDecl) (unit : String)
  | declareGlobal (decl : VarDecl) (unit : String)
  | declareLoader (result : ValueType) (unit : String)
  | attachBody (id : Nat) (body : FunctionBody)
  | rebase (ids : List Nat) (offset : Nat)
  | seed

namespace Request

/-- Does what is asked for, in place, and gives a number if something is declared. -/
def perform : Request → EStateM Fault Indexed (Option Nat)
  | declareFunction decl unit => do return some (← Indexed.declareFunction decl unit)
  | declareGlobal decl unit => do return some (← Indexed.declareGlobal decl unit)
  | declareLoader result unit => do return some (← Indexed.declareLoader result unit)
  | attachBody id body => do
    change id fun f => { f with body := some body }
    return none
  | rebase ids offset => do
    Indexed.rebase ids offset
    return none
  | seed => do
    Indexed.seed
    return none

/-- What a request gives by the functions of tables. -/
def outcome (s : Symbols) : Request → Except Diagnostic (Symbols × Option Nat)
  | declareFunction decl unit => (s.declareFunction decl unit).map (Prod.map id some)
  | declareGlobal decl unit => (s.declareGlobal decl unit).map (Prod.map id some)
  | declareLoader result unit => .ok (Prod.map id some (s.declareLoader result unit))
  | attachBody id body => .ok (s.attachBody id body, none)
  | rebase ids offset => .ok (s.rebase ids offset, none)
  | seed => .ok (s.seededFrom, none)

/-- A request that declares nothing by the name of the loader, as no script can. -/
def Nameable : Request → Prop
  | declareFunction decl _ => decl.name ≠ globalsLoader
  | declareGlobal decl _ => decl.name ≠ globalsLoader
  | declareLoader _ _ | attachBody _ _ | rebase _ _ | seed => True

/-- A request that a table grants: a function that fits what is known under its name, a variable with
a new name, or anything that declares neither. -/
def Admitted (s : Symbols) : Request → Prop
  | declareFunction decl _ => s.Accepts decl
  | declareGlobal decl _ => decl.name ∉ s.names ∧ decl.name ∉ s.globalNames
  | declareLoader _ _ | attachBody _ _ | rebase _ _ | seed => True

/-- What is admitted gives a table. -/
theorem exists_outcome_iff {s : Symbols} {r : Request} :
    (∃ given, r.outcome s = .ok given) ↔ r.Admitted s := by
  cases r with
  | declareFunction decl unit =>
      constructor
      · rintro ⟨given, h⟩
        obtain ⟨⟨s', id⟩, hdecl, -⟩ := except_map_eq_ok.mp h
        exact accepts_of_declareFunction hdecl
      · intro h
        exact ⟨_, except_map_eq_ok.mpr ⟨_, declareFunction_of_accepts h unit, rfl⟩⟩
  | declareGlobal decl unit =>
      rw [outcome, Symbols.declareGlobal, Admitted, mem_names, mem_globalNames, and_comm, ← not_or]
      split
      · next htaken =>
          refine iff_of_false ?_ (not_not.mpr htaken)
          rintro ⟨_, h⟩
          cases h
      · next hnew => exact iff_of_true ⟨_, rfl⟩ hnew
  | declareLoader result unit => exact iff_of_true ⟨_, rfl⟩ trivial
  | attachBody id body => exact iff_of_true ⟨_, rfl⟩ trivial
  | rebase ids offset => exact iff_of_true ⟨_, rfl⟩ trivial
  | seed => exact iff_of_true ⟨_, rfl⟩ trivial

end Request

theorem Follows.number {t : Indexed} {outcome : Except Diagnostic (Symbols × Nat)}
    {p : EStateM Fault Indexed Nat} (h : t.Follows outcome (p t)) :
    t.Follows (outcome.map (Prod.map id some)) ((do return some (← p) : EStateM _ _ _) t) := by
  rw [bind_apply]
  rcases outcome with d | ⟨s, a⟩
  · rw [show p t = _ from h]
    rfl
  · obtain ⟨t', hp, htable, ht'⟩ := h
    exact ⟨t', by rw [hp]; rfl, htable, ht'⟩

theorem Follows.silent {t : Indexed} {s : Symbols} {p : EStateM Fault Indexed Unit}
    (h : ∃ t', p t = .ok () t' ∧ t'.table = s ∧ t'.Coherent) :
    t.Follows (.ok (s, none)) ((do p; return (none : Option Nat) : EStateM _ _ _) t) := by
  obtain ⟨t', hp, htable, ht'⟩ := h
  exact ⟨t', bind_of_ok hp, htable, ht'⟩

/-- In place, a request does what it gives. -/
theorem Request.follows {t : Indexed} (ht : t.Coherent) {r : Request} (hr : r.Nameable) :
    t.Follows (r.outcome t.table) (r.perform t) := by
  cases r with
  | declareFunction decl unit => exact (ht.declareFunction hr unit).number
  | declareGlobal decl unit => exact (ht.declareGlobal hr unit).number
  | declareLoader result unit => exact (ht.declareLoader result unit).number
  | attachBody id body =>
      exact .silent (ht.modify id (fun _ => rfl) (fun _ => rfl) fun _ => rfl)
  | rebase ids offset => exact .silent (ht.rebase ids offset)
  | seed => exact .silent ht.seed

/-! ## Signatures -/

end Indexed

/-- Every function keeps its number and its name, and its signature unless it is the loader. -/
def KeepsSignatures (s s' : Symbols) : Prop :=
  ∀ id f, s.function? id = some f → ∃ f', s'.function? id = some f' ∧ f'.name = f.name ∧
    (f.name ≠ globalsLoader → f'.signature = f.signature)

namespace KeepsSignatures

variable {s s' s'' : Symbols}

theorem refl (s : Symbols) : s.KeepsSignatures s :=
  fun _ f hf => ⟨f, hf, rfl, fun _ => rfl⟩

theorem trans (h : s.KeepsSignatures s') (h' : s'.KeepsSignatures s'') :
    s.KeepsSignatures s'' := by
  intro id f hf
  obtain ⟨f', hf', hname, hsame⟩ := h id f hf
  obtain ⟨f'', hf'', hname', hsame'⟩ := h' id f' hf'
  refine ⟨f'', hf'', hname'.trans hname, fun hne => ?_⟩
  exact (hsame' (hname ▸ hne)).trans (hsame hne)

theorem insert (s : Symbols) (name : String) (result : ValueType) (params : List ValueType)
    (unit : String) : s.KeepsSignatures (s.insert name result params unit).1 := by
  intro id f hf
  have hlt := (List.getElem?_eq_some_iff.mp hf).1
  exact ⟨f, (List.getElem?_append_left hlt).trans hf, rfl, fun _ => rfl⟩

theorem modifyFunction {id : Nat} {change : FunctionSymbol → FunctionSymbol}
    (hname : ∀ f, (change f).name = f.name)
    (hchange : ∀ f, s.function? id = some f → f.name ≠ globalsLoader →
      (change f).signature = f.signature) :
    s.KeepsSignatures (s.modifyFunction id change) := by
  intro i f hf
  refine ⟨if id = i then change f else f, ?_, ?_, fun hne => ?_⟩
  · rw [function?, Symbols.modifyFunction, List.getElem?_modify, show s.functions[i]? = some f from hf]
    rfl
  · split
    · exact hname f
    · rfl
  · split
    · next hid => exact hchange f (hid ▸ hf) hne
    · rfl

theorem declareLoader (hs : s.Numbered) (result : ValueType) (unit : String) :
    s.KeepsSignatures (s.declareLoader result unit).1 := by
  rw [Symbols.declareLoader]
  split
  · next f hf =>
      refine modifyFunction (fun _ => rfl) fun g hg hne => absurd ?_ hne
      obtain rfl := Option.some.inj ((hs.function?_of_lookup? hf).symm.trans hg)
      exact name_of_lookup? hf
  · exact insert _ _ _ _ _

theorem rebase (s : Symbols) (ids : List Nat) (offset : Nat) :
    s.KeepsSignatures (s.rebase ids offset) := by
  rw [Symbols.rebase]
  induction ids generalizing s with
  | nil => exact refl s
  | cons id ids ih =>
      have hshift : s.KeepsSignatures (s.shift id offset) :=
        modifyFunction (fun _ => rfl) fun _ _ _ => rfl
      exact hshift.trans (ih _)

/-- If no name stands for two functions, a function is found by its name afterwards as well. -/
theorem lookup? (h : s.KeepsSignatures s') (hs : s.Numbered) (hs' : s'.names.Nodup) {name : String}
    {f : FunctionSymbol} (hname : name ≠ globalsLoader) (hf : s.lookup? name = some f) :
    ∃ f', s'.lookup? name = some f' ∧ f'.signature = f.signature := by
  obtain ⟨f', hf', hsame, hkept⟩ := h f.id f (hs.function?_of_lookup? hf)
  have hfound := name_of_lookup? hf
  refine ⟨f', ?_, hkept (hfound ▸ hname)⟩
  rw [← hfound, ← hsame]
  exact lookup?_of_mem hs' (List.mem_of_getElem? hf')

end KeepsSignatures

/-- A seeded table has the functions that are not the loader, in their order. -/
theorem signatures_seededFrom (s : Symbols) :
    s.seededFrom.functions.map FunctionSymbol.signature
      = (s.functions.filter fun f => f.name ≠ globalsLoader).map FunctionSymbol.signature := by
  refine List.ext_getElem? fun i => ?_
  rw [seededFrom, List.getElem?_map, List.getElem?_mapIdx, Option.map_map, List.getElem?_map]
  rfl

theorem body_seededFrom {s : Symbols} {f : FunctionSymbol} (h : f ∈ s.seededFrom.functions) :
    f.body = none := by
  obtain ⟨i, hi⟩ := List.mem_iff_getElem?.mp h
  rw [seededFrom, List.getElem?_mapIdx] at hi
  obtain ⟨g, -, rfl⟩ := Option.map_eq_some_iff.mp hi
  rfl

namespace Indexed
namespace Request

/-- What a request that does not begin a new table leaves of a function. -/
theorem keepsSignatures {s s' : Symbols} (hs : s.Numbered) {r : Request} (hr : r ≠ seed)
    {number : Option Nat} (h : r.outcome s = .ok (s', number)) : s.KeepsSignatures s' := by
  cases r with
  | declareFunction decl unit =>
      obtain ⟨⟨s₁, id⟩, hdecl, heq⟩ := except_map_eq_ok.mp h
      obtain rfl := (Prod.mk.inj heq).1
      obtain ⟨-, ⟨f, -, -, hsame⟩ | ⟨-, -, hnew⟩⟩ := declareFunction_eq_ok hdecl
      · rw [id_eq, hsame]
        exact .refl s
      · rw [id_eq, hnew]
        exact .insert _ _ _ _ _
  | declareGlobal decl unit =>
      obtain ⟨⟨s₁, slot⟩, hdecl, heq⟩ := except_map_eq_ok.mp h
      obtain rfl := (Prod.mk.inj heq).1
      intro id f hf
      refine ⟨f, ?_, rfl, fun _ => rfl⟩
      rw [id_eq, function?, functions_declareGlobal hdecl]
      exact hf
  | declareLoader result unit =>
      obtain rfl := (Prod.mk.inj (Except.ok.inj h)).1
      exact .declareLoader hs result unit
  | attachBody id body =>
      obtain rfl := (Prod.mk.inj (Except.ok.inj h)).1
      exact .modifyFunction (fun _ => rfl) fun _ _ _ => rfl
  | rebase ids offset =>
      obtain rfl := (Prod.mk.inj (Except.ok.inj h)).1
      exact .rebase s ids offset
  | seed => exact absurd rfl hr

/-- The table after a request, whether it was refused or not. -/
def next (r : Request) (t : Indexed) : Indexed :=
  match r.perform t with
  | .ok _ t' | .error _ t' => t'

/-- The table after a request by the functions of tables. -/
def after (r : Request) (s : Symbols) : Symbols :=
  match r.outcome s with
  | .ok (s', _) => s'
  | .error _ => s

theorem next_coherent {t : Indexed} (ht : t.Coherent) {r : Request} (hr : r.Nameable) :
    (r.next t).Coherent ∧ (r.next t).table = r.after t.table := by
  have h := follows ht hr
  rw [next, after]
  rcases hout : r.outcome t.table with d | ⟨s, number⟩
  · rw [hout] at h
    rw [show r.perform t = _ from h]
    exact ⟨ht, rfl⟩
  · rw [hout] at h
    obtain ⟨t', hperform, htable, ht'⟩ := h
    rw [hperform]
    exact ⟨ht', htable⟩

theorem keepsSignatures_after {s : Symbols} (hs : s.Numbered) {r : Request} (hr : r ≠ seed) :
    s.KeepsSignatures (r.after s) := by
  rw [after]
  rcases hout : r.outcome s with d | ⟨s', number⟩
  · exact .refl s
  · exact keepsSignatures hs hr hout

/-- A name other than that of the loader stands for the same after a request. -/
theorem lookup?_after {t : Indexed} (ht : t.Coherent) {r : Request} (hr : r.Nameable)
    {name : String} {f : FunctionSymbol} (hname : name ≠ globalsLoader)
    (hf : t.table.lookup? name = some f) :
    ∃ f', (r.next t).table.lookup? name = some f' ∧ f'.signature = f.signature := by
  obtain ⟨ht', htable⟩ := next_coherent ht hr
  by_cases hseed : r = seed
  · subst hseed
    -- the function is among those of the seeded table, at whatever number
    have hfound := name_of_lookup? hf
    have hkept : f ∈ t.table.functions.filter fun f => f.name ≠ globalsLoader :=
      List.mem_filter.mpr ⟨List.mem_of_find?_eq_some hf, by simpa [hfound] using hname⟩
    have hmem := List.mem_map_of_mem (f := FunctionSymbol.signature) hkept
    rw [← signatures_seededFrom] at hmem
    obtain ⟨f', hf', hsame⟩ := List.mem_map.mp hmem
    refine ⟨f', ?_, hsame⟩
    rw [← hfound, ← (Prod.mk.inj hsame).1]
    refine lookup?_of_mem ht'.nodup_names ?_
    rw [htable]
    exact hf'
  · have hkeeps := keepsSignatures_after ht.numbered hseed
    rw [← htable] at hkeeps
    exact hkeeps.lookup? ht.numbered ht'.nodup_names hname hf

end Request

/-! ## Histories -/

/-- The table after some requests. -/
def run (t : Indexed) (history : List Request) : Indexed := history.foldl (fun t r => r.next t) t

theorem run_cons (t : Indexed) (r : Request) (later : List Request) :
    t.run (r :: later) = (r.next t).run later := rfl

theorem run_coherent : ∀ (history : List Request), (∀ r ∈ history, r.Nameable) →
    ∀ {t : Indexed}, t.Coherent →
      (t.run history).Coherent ∧
        (t.run history).table = history.foldl (fun s r => r.after s) t.table
  | [], _, t, ht => ⟨ht, rfl⟩
  | r :: later, h, t, ht => by
      obtain ⟨hr, hlater⟩ := List.forall_mem_cons.mp h
      obtain ⟨hnext, htable⟩ := Request.next_coherent ht hr
      rw [run_cons, List.foldl_cons, ← htable]
      exact run_coherent later hlater hnext

theorem run_keepsSignatures : ∀ (history : List Request), (∀ r ∈ history, r.Nameable) →
    Request.seed ∉ history → ∀ {t : Indexed}, t.Coherent →
      t.table.KeepsSignatures (t.run history).table
  | [], _, _, t, _ => .refl t.table
  | r :: later, h, hseed, t, ht => by
      obtain ⟨hr, hlater⟩ := List.forall_mem_cons.mp h
      obtain ⟨hnext, htable⟩ := Request.next_coherent ht hr
      obtain ⟨hne, hseed⟩ := List.ne_and_not_mem_of_not_mem_cons hseed
      have hstep := Request.keepsSignatures_after ht.numbered (Ne.symm hne)
      rw [← htable] at hstep
      exact hstep.trans (run_keepsSignatures later hlater hseed hnext)

theorem lookup?_run : ∀ (history : List Request), (∀ r ∈ history, r.Nameable) →
    ∀ {t : Indexed}, t.Coherent → ∀ {name : String} {f : FunctionSymbol}, name ≠ globalsLoader →
      t.table.lookup? name = some f →
        ∃ f', (t.run history).table.lookup? name = some f' ∧ f'.signature = f.signature
  | [], _, _, _, _, f, _, hf => ⟨f, hf, rfl⟩
  | r :: later, h, t, ht, name, f, hname, hf => by
      obtain ⟨hr, hlater⟩ := List.forall_mem_cons.mp h
      obtain ⟨f₁, hf₁, hsame₁⟩ := Request.lookup?_after ht hr hname hf
      obtain ⟨f', hf', hsame⟩ :=
        lookup?_run later hlater (Request.next_coherent ht hr).1 hname hf₁
      exact ⟨f', hf', hsame.trans hsame₁⟩

/-- Whatever a new table is asked for, where nothing is declared by the name of the loader: its numbers
are places, its indices are those of its names, and no name stands for two things.  It is the table
that the functions of tables give.  Later requests change no signature but that of the loader, neither
under a number as long as no new table is begun, nor under a name.  A request is granted exactly if it
is admitted; if not, the table stays as it was.  A table that is begun with the functions of this one
has them in their order, with new numbers and without bodies, and no loader and no variables. -/
theorem history_coherent (past later : List Request) (r : Request)
    (hpast : ∀ r ∈ past, r.Nameable) (hlater : ∀ r ∈ later, r.Nameable) (hr : r.Nameable) :
    let t := empty.run past
    t.table = past.foldl (fun s r => r.after s) Symbols.empty ∧
    (∀ (i : Nat) (f : FunctionSymbol), t.functions[i]? = some f → f.id = i) ∧
    (∀ (i : Nat) (g : GlobalSymbol), t.globals[i]? = some g → g.slot = i) ∧
    (∀ (name : String) (i : Nat),
      t.ids[name]? = some i ↔ ∃ f, t.functions[i]? = some f ∧ f.name = name) ∧
    (∀ (name : String) (i : Nat),
      t.slots[name]? = some i ↔ ∃ g, t.globals[i]? = some g ∧ g.name = name) ∧
    (t.functions.map FunctionSymbol.name ++ t.globals.map GlobalSymbol.name).Nodup ∧
    (Request.seed ∉ later → t.table.KeepsSignatures (t.run later).table) ∧
    (∀ name f, name ≠ globalsLoader → t.table.lookup? name = some f →
      ∃ f', (t.run later).table.lookup? name = some f' ∧ f'.signature = f.signature) ∧
    t.Follows (r.outcome t.table) (r.perform t) ∧
    ((∃ number t', r.perform t = .ok number t') ↔ r.Admitted t.table) ∧
    (∀ e t', r.perform t = .error e t' → t' = t ∧ ∃ d, e = .refused d) ∧
    let next := Request.seed.next t
    next.functions.map FunctionSymbol.signature
      = (t.functions.filter fun f => f.name ≠ globalsLoader).map FunctionSymbol.signature ∧
    (∀ (i : Nat) (f : FunctionSymbol), next.functions[i]? = some f → f.id = i ∧ f.body = none) ∧
    next.globals = [] := by
  intro t
  obtain ⟨ht, htable⟩ : t.Coherent ∧ _ := run_coherent past hpast coherent_empty
  have hfollows := Request.follows ht hr
  obtain ⟨hnext, hseeded⟩ := Request.next_coherent ht (r := .seed) trivial
  refine ⟨htable, ht.numbered.function, ht.numbered.global, ?_, ?_, ht.distinct,
    fun hseed => run_keepsSignatures later hlater hseed ht,
    fun name f hname hf => lookup?_run later hlater ht hname hf, hfollows, ?_, ?_, ?_⟩
  · intro name i
    rw [ht.ids, names, List.getElem?_map, Option.map_eq_some_iff]
    rfl
  · intro name i
    rw [ht.slots, globalNames, List.getElem?_map, Option.map_eq_some_iff]
    rfl
  · rw [← Request.exists_outcome_iff]
    rcases hout : r.outcome t.table with d | ⟨s, number⟩
    · rw [hout] at hfollows
      rw [show r.perform t = _ from hfollows]
      simp
    · rw [hout] at hfollows
      obtain ⟨t', hperform, -, -⟩ := hfollows
      exact iff_of_true ⟨number, t', hperform⟩ ⟨_, rfl⟩
  · intro e t' hfailed
    rcases hout : r.outcome t.table with d | ⟨s, number⟩
    · rw [hout] at hfollows
      obtain ⟨rfl, rfl⟩ := EStateM.Result.error.inj (hfailed.symm.trans hfollows)
      exact ⟨rfl, d, rfl⟩
    · rw [hout] at hfollows
      obtain ⟨t'', hperform, -, -⟩ := hfollows
      rw [hfailed] at hperform
      cases hperform
  · obtain ⟨hfunctions, hglobals⟩ := Symbols.mk.inj hseeded
    refine ⟨?_, ?_, hglobals⟩
    · rw [hfunctions]
      exact signatures_seededFrom t.table
    · intro i f hf
      refine ⟨hnext.numbered.function i f hf, body_seededFrom (s := t.table) ?_⟩
      rw [← show _ = t.table.seededFrom.functions from hfunctions]
      exact List.mem_of_getElem? hf

/-- A prototype and a variable, and then the loader. -/
def firstPass : List Request :=
  [.declareFunction ⟨.int, "Later", [⟨.int, "n"⟩], none, ⟨0, 5⟩⟩ "main",
    .declareGlobal ⟨.int, "g", none, ⟨0, 5⟩⟩ "main",
    .declareLoader .void "main"]

theorem history_coherent_firstPass :
    (∀ r ∈ firstPass, r.Nameable) ∧
      let next := Request.seed.next (empty.run firstPass)
      next.functions.map FunctionSymbol.signature = [("Later", .int, [.int])] ∧
        next.globals = [] := by
  have hnameable : ∀ r ∈ firstPass, r.Nameable := by
    simp [firstPass, Request.Nameable, globalsLoader]
  obtain ⟨htable, -, -, -, -, -, -, -, -, -, -, hfunctions, -, hglobals⟩ :=
    history_coherent firstPass [] .seed hnameable (List.forall_mem_nil _) trivial
  refine ⟨hnameable, ?_, hglobals⟩
  rw [hfunctions, (Symbols.mk.inj htable).1]
  rfl

end Indexed
end Symbols
end Nss
