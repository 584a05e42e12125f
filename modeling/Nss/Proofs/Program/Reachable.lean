/-
# Functions that can be reached

The search for the functions of a program keeps the numbers that it has seen and the functions that
it still has to look at.  `Program.Search` is its invariant: everything seen can be reached, and what
is called by a function that was looked at was seen.  As every function is looked at once at most,
the search has looked at all that it has seen when it ends, and so has seen all that can be reached.
-/
import Nss.Proofs.Program.Layout
import Mathlib.Logic.Relation

namespace Nss

open Steps

namespace Program

/-- The code of one function calls another one. -/
def Calls (symbols : Symbols) (records : List Instruction) (caller callee : Nat) : Prop :=
  ∃ b, symbols.body? caller = some b ∧ ∃ i ∈ b.code records, i.callee? = some callee

/-- A function can be reached from another one by calls. -/
def Reaches (symbols : Symbols) (records : List Instruction) : Nat → Nat → Prop :=
  Relation.ReflTransGen (Calls symbols records)

/-- The function with a number has a body that lies in the instructions. -/
def HasBody (symbols : Symbols) (records : List Instruction) (id : Nat) : Prop :=
  ∃ f b, symbols.function? id = some f ∧ f.body = some b ∧
    b.start + b.length ≤ records.length

variable {symbols : Symbols} {seen seen' : List Nat} {pending pending' : List FunctionSymbol}

/-! ## Looking at one function -/

/-- What looking at some code adds to what was seen and to what is to be looked at. -/
structure Visited (symbols : Symbols) (code : List Instruction) (seen : List Nat)
    (new : List FunctionSymbol) : Prop where
  nodup : seen.Nodup → (new.map FunctionSymbol.id ++ seen).Nodup
  known : ∀ f ∈ new, symbols.function? f.id = some f
  called : ∀ f ∈ new, ∃ i ∈ code, i.callee? = some f.id
  all : ∀ i ∈ code, ∀ id, i.callee? = some id → id ∈ new.map FunctionSymbol.id ++ seen

namespace Visited

variable {i : Instruction} {rest : List Instruction} {new : List FunctionSymbol}

/-- An instruction that calls nothing new. -/
theorem skip (h : Visited symbols rest seen new)
    (hi : ∀ id, i.callee? = some id → id ∈ new.map FunctionSymbol.id ++ seen) :
    Visited symbols (i :: rest) seen new where
  nodup := h.nodup
  known := h.known
  called f hf := by
    obtain ⟨j, hj, hcall⟩ := h.called f hf
    exact ⟨j, .tail _ hj, hcall⟩
  all := List.forall_mem_cons.mpr ⟨hi, h.all⟩

/-- An instruction that calls a function that was not seen before. -/
theorem look {f : FunctionSymbol} (h : Visited symbols rest (f.id :: seen) new)
    (hi : i.callee? = some f.id) (hf : symbols.function? f.id = some f) (hnot : f.id ∉ seen) :
    Visited symbols (i :: rest) seen (new ++ [f]) where
  nodup hseen := by
    rw [List.map_append, List.append_assoc]
    exact h.nodup (List.nodup_cons.mpr ⟨hnot, hseen⟩)
  known := List.forall_mem_append.mpr ⟨h.known, List.forall_mem_singleton.mpr hf⟩
  called := by
    refine List.forall_mem_append.mpr ⟨?_, ?_⟩
    · intro g hg
      obtain ⟨j, hj, hcall⟩ := h.called g hg
      exact ⟨j, .tail _ hj, hcall⟩
    · exact List.forall_mem_singleton.mpr ⟨i, List.mem_cons_self, hi⟩
  all := by
    rw [List.map_append, List.append_assoc]
    refine List.forall_mem_cons.mpr ⟨?_, h.all⟩
    intro id hid
    obtain rfl := Option.some.inj (hi.symm.trans hid)
    exact List.mem_append_right _ List.mem_cons_self

end Visited

theorem visit_eq_ok (hs : symbols.Numbered) :
    ∀ {code : List Instruction} {seen seen' : List Nat} {pending pending' : List FunctionSymbol},
      visit symbols seen pending code = .ok (seen', pending') →
        ∃ new, seen' = new.map FunctionSymbol.id ++ seen ∧ pending' = new ++ pending ∧
          Visited symbols code seen new
  | [], seen, seen', pending, pending', h => by
      obtain ⟨rfl, rfl⟩ := Prod.mk.inj (Except.ok.inj h)
      exact ⟨[], rfl, rfl, id, List.forall_mem_nil _, List.forall_mem_nil _, List.forall_mem_nil _⟩
  | i :: rest, seen, seen', pending, pending', h => by
      rw [visit] at h
      cases hcallee : i.callee? with
      | none =>
          rw [hcallee] at h
          obtain ⟨new, hseen, hpending, hv⟩ := visit_eq_ok hs h
          refine ⟨new, hseen, hpending, hv.skip ?_⟩
          intro id hid
          rw [hcallee] at hid
          cases hid
      | some id =>
          simp only [hcallee] at h
          split at h
          · next hmem =>
              obtain ⟨new, hseen, hpending, hv⟩ := visit_eq_ok hs h
              refine ⟨new, hseen, hpending, hv.skip ?_⟩
              intro id' hid
              obtain rfl := Option.some.inj (hcallee.symm.trans hid)
              exact List.mem_append_right _ hmem
          · next hnot =>
              cases hf : symbols.function? id with
              | none =>
                  rw [hf] at h
                  cases h
              | some f =>
                  rw [hf] at h
                  obtain rfl := hs.id_of_function? hf
                  obtain ⟨new, rfl, rfl, hv⟩ := visit_eq_ok hs h
                  refine ⟨new ++ [f], ?_, ?_, hv.look hcallee hf hnot⟩
                  · rw [List.map_append, List.append_assoc]
                    rfl
                  · rw [List.append_assoc]
                    rfl

/-- Looking at code succeeds if only functions of the table are called. -/
theorem exists_visit :
    ∀ {code : List Instruction} (seen : List Nat) (pending : List FunctionSymbol),
      (∀ i ∈ code, ∀ id, i.callee? = some id → ∃ f, symbols.function? id = some f) →
      ∃ result, visit symbols seen pending code = .ok result
  | [], seen, pending, _ => ⟨_, rfl⟩
  | i :: rest, seen, pending, h => by
      obtain ⟨hi, hrest⟩ := List.forall_mem_cons.mp h
      rw [visit]
      cases hcallee : i.callee? with
      | none => exact exists_visit _ _ hrest
      | some id =>
          obtain ⟨f, hf⟩ := hi id hcallee
          simp only [hf]
          split
          · exact exists_visit _ _ hrest
          · exact exists_visit _ _ hrest

/-! ## The search -/

/-- The invariant of the search from a function. -/
structure Search (symbols : Symbols) (records : List Instruction) (entry : Nat) (seen : List Nat)
    (pending : List FunctionSymbol) : Prop where
  nodup : seen.Nodup
  known : ∀ id ∈ seen, id < symbols.functions.length
  reached : ∀ id ∈ seen, Reaches symbols records entry id
  root : entry ∈ seen
  waiting : ∀ f ∈ pending, f.id ∈ seen ∧ symbols.function? f.id = some f
  closed : ∀ id ∈ seen, (∃ f ∈ pending, f.id = id) ∨
    ∀ callee, Calls symbols records id callee → callee ∈ seen

namespace Search

variable {records : List Instruction} {entry : Nat}

theorem start {f : FunctionSymbol} (hf : symbols.function? f.id = some f) :
    Search symbols records f.id [f.id] [f] where
  nodup := List.nodup_cons.mpr ⟨List.not_mem_nil, List.nodup_nil⟩
  known := List.forall_mem_singleton.mpr (List.getElem?_eq_some_iff.mp hf).1
  reached := List.forall_mem_singleton.mpr .refl
  root := List.mem_singleton_self _
  waiting := List.forall_mem_singleton.mpr ⟨List.mem_singleton_self _, hf⟩
  closed := List.forall_mem_singleton.mpr (.inl ⟨f, List.mem_singleton_self _, rfl⟩)

theorem calls_iff {f : FunctionSymbol} (hf : symbols.function? f.id = some f) {b : FunctionBody}
    (hb : f.body = some b) {callee : Nat} :
    Calls symbols records f.id callee ↔ ∃ i ∈ b.code records, i.callee? = some callee := by
  have hbody : symbols.body? f.id = some b := by
    rw [Symbols.body?, hf]
    exact hb
  refine ⟨?_, fun h => ⟨b, hbody, h⟩⟩
  rintro ⟨b', hb', h⟩
  obtain rfl := Option.some.inj (hbody.symm.trans hb')
  exact h

/-- Looking at the next function preserves the invariant. -/
theorem next {f : FunctionSymbol} {b : FunctionBody} {new : List FunctionSymbol}
    (h : Search symbols records entry seen (f :: pending)) (hb : f.body = some b)
    (hv : Visited symbols (b.code records) seen new) :
    Search symbols records entry (new.map FunctionSymbol.id ++ seen) (new ++ pending) := by
  obtain ⟨⟨hseen, hf⟩, hpending⟩ := List.forall_mem_cons.mp h.waiting
  refine ⟨hv.nodup h.nodup, ?_, ?_, List.mem_append_right _ h.root, ?_, ?_⟩
  · refine List.forall_mem_append.mpr ⟨?_, h.known⟩
    intro id hid
    obtain ⟨g, hg, rfl⟩ := List.mem_map.mp hid
    exact (List.getElem?_eq_some_iff.mp (hv.known g hg)).1
  · refine List.forall_mem_append.mpr ⟨?_, h.reached⟩
    intro id hid
    obtain ⟨g, hg, rfl⟩ := List.mem_map.mp hid
    exact (h.reached f.id hseen).tail ((calls_iff hf hb).mpr (hv.called g hg))
  · refine List.forall_mem_append.mpr ⟨?_, ?_⟩
    · intro g hg
      exact ⟨List.mem_append_left _ (List.mem_map_of_mem hg), hv.known g hg⟩
    · intro g hg
      obtain ⟨hgseen, hgf⟩ := hpending g hg
      exact ⟨List.mem_append_right _ hgseen, hgf⟩
  · refine List.forall_mem_append.mpr ⟨?_, ?_⟩
    · intro id hid
      obtain ⟨g, hg, rfl⟩ := List.mem_map.mp hid
      exact .inl ⟨g, List.mem_append_left _ hg, rfl⟩
    · intro id hid
      rcases h.closed id hid with ⟨g, hg, rfl⟩ | hclosed
      · rcases List.mem_cons.mp hg with rfl | hg
        · -- the function that was looked at
          refine .inr ?_
          intro callee hcalls
          obtain ⟨i, hi, hcallee⟩ := (calls_iff hf hb).mp hcalls
          exact hv.all i hi callee hcallee
        · exact .inl ⟨g, List.mem_append_right _ hg, rfl⟩
      · exact .inr fun callee hcalls => List.mem_append_right _ (hclosed callee hcalls)

/-- When nothing is to be looked at, all that can be reached was seen. -/
theorem mem_iff (h : Search symbols records entry seen []) (id : Nat) :
    id ∈ seen ↔ Reaches symbols records entry id := by
  refine ⟨h.reached id, ?_⟩
  intro hreach
  induction hreach with
  | refl => exact h.root
  | tail _ hcalls ih =>
      rcases h.closed _ ih with ⟨f, hf, -⟩ | hclosed
      · cases hf
      · exact hclosed _ hcalls

/-- There are at most as many functions seen as there are functions. -/
theorem length_le (h : Search symbols records entry seen pending) :
    seen.length ≤ symbols.functions.length := by
  have hsubset : seen ⊆ List.range symbols.functions.length := by
    intro id hid
    exact List.mem_range.mpr (h.known id hid)
  have hle := h.nodup.length_le_of_subset hsubset
  rwa [List.length_range] at hle

/-- With enough steps, the search ends with nothing more to be looked at. -/
theorem explore_eq_ok {records : Array Instruction} (hs : symbols.Numbered) :
    ∀ {fuel : Nat} {seen seen' : List Nat} {pending : List FunctionSymbol},
      Search symbols records.toList entry seen pending →
      symbols.functions.length + pending.length ≤ fuel + seen.length →
      explore symbols records fuel seen pending = .ok seen' →
      Search symbols records.toList entry seen' []
  | 0, seen, seen', pending, hsearch, hfuel, h => by
      have hle := hsearch.length_le
      have hnone : pending = [] := List.eq_nil_of_length_eq_zero (by omega)
      obtain rfl := Except.ok.inj h
      rwa [hnone] at hsearch
  | fuel + 1, seen, seen', [], hsearch, _, h => by
      obtain rfl := Except.ok.inj h
      exact hsearch
  | fuel + 1, seen, seen', f :: pending, hsearch, hfuel, h => by
      obtain ⟨b, hb, h⟩ := except_bind_eq_ok.mp h
      obtain ⟨code, hcode, h⟩ := except_bind_eq_ok.mp h
      obtain ⟨⟨seen'', pending'⟩, hvisit, h⟩ := except_bind_eq_ok.mp h
      obtain ⟨-, rfl⟩ := codeOf_eq_ok.mp hcode
      obtain ⟨new, rfl, rfl, hv⟩ := visit_eq_ok hs hvisit
      refine explore_eq_ok hs (hsearch.next (bodyOf_eq_ok.mp hb) hv) ?_ h
      rw [List.length_cons] at hfuel
      rw [List.length_append, List.length_append, List.length_map]
      omega

/-- The search succeeds if all functions that can be reached have bodies. -/
theorem exists_explore {records : Array Instruction} (hs : symbols.Numbered) :
    ∀ {fuel : Nat} {seen : List Nat} {pending : List FunctionSymbol},
      Search symbols records.toList entry seen pending →
      (∀ id, Reaches symbols records.toList entry id → HasBody symbols records.toList id) →
      ∃ seen', explore symbols records fuel seen pending = .ok seen'
  | 0, seen, _, _, _ => ⟨seen, rfl⟩
  | _ + 1, seen, [], _, _ => ⟨seen, rfl⟩
  | fuel + 1, seen, f :: pending, hsearch, hbodies => by
      obtain ⟨⟨hseen, hf⟩, -⟩ := List.forall_mem_cons.mp hsearch.waiting
      obtain ⟨g, b, hg, hb, hinside⟩ := hbodies f.id (hsearch.reached f.id hseen)
      obtain rfl := Option.some.inj (hf.symm.trans hg)
      have hcalled : ∀ i ∈ b.code records.toList, ∀ id, i.callee? = some id →
          ∃ g, symbols.function? id = some g := by
        intro i hi id hid
        have hcalls := (calls_iff hf hb).mpr ⟨i, hi, hid⟩
        obtain ⟨g, -, hg, -⟩ := hbodies id ((hsearch.reached f.id hseen).tail hcalls)
        exact ⟨g, hg⟩
      obtain ⟨⟨seen', pending'⟩, hvisit⟩ := exists_visit seen pending hcalled
      obtain ⟨new, hseen', hpending', hv⟩ := visit_eq_ok hs hvisit
      have hnext := hsearch.next hb hv
      rw [← hseen', ← hpending'] at hnext
      obtain ⟨seen'', hrest⟩ :
          ∃ seen'', explore symbols records fuel seen' pending' = .ok seen'' :=
        exists_explore hs hnext hbodies
      refine ⟨seen'', except_bind_eq_ok.mpr ⟨b, bodyOf_eq_ok.mpr hb, ?_⟩⟩
      refine except_bind_eq_ok.mpr ⟨_, codeOf_eq_ok.mpr ⟨hinside, rfl⟩, ?_⟩
      exact except_bind_eq_ok.mpr ⟨_, hvisit, hrest⟩

end Search

/-- The functions of a program besides the one that it begins with: all others that can be reached
from that one, in the order of their declaration. -/
structure Others (symbols : Symbols) (records : List Instruction) (entry : FunctionSymbol)
    (others : List FunctionSymbol) : Prop where
  declared : others.Sublist symbols.functions
  reached : ∀ f, f ∈ others ↔
    f ∈ symbols.functions ∧ f.id ≠ entry.id ∧ Reaches symbols records entry.id f.id
  known : ∀ id, Reaches symbols records entry.id id → ∃ f ∈ entry :: others, f.id = id

/-- The functions of a program are the first one and the others that can be reached from it. -/
theorem reachable_eq_ok {records : Array Instruction} (hs : symbols.Numbered)
    {entry : FunctionSymbol} (hentry : symbols.function? entry.id = some entry)
    {reached : List FunctionSymbol} (h : reachable symbols records entry = .ok reached) :
    ∃ others, reached = entry :: others ∧ Others symbols records.toList entry others := by
  obtain ⟨seen, hseen, h⟩ := except_bind_eq_ok.mp h
  obtain rfl := Except.ok.inj h
  have hsearch := Search.explore_eq_ok hs (.start hentry) (by simp) hseen
  have hreached (f : FunctionSymbol) :
      f ∈ symbols.functions.filter (fun f => f.id ≠ entry.id ∧ f.id ∈ seen) ↔
        f ∈ symbols.functions ∧ f.id ≠ entry.id ∧ Reaches symbols records.toList entry.id f.id := by
    rw [List.mem_filter, ← hsearch.mem_iff f.id]
    simp
  refine ⟨_, rfl, List.filter_sublist, hreached, ?_⟩
  intro id hreach
  have hlt := hsearch.known id ((hsearch.mem_iff id).mpr hreach)
  have hid := hs.function id _ (List.getElem?_eq_getElem hlt)
  refine ⟨symbols.functions[id], ?_, hid⟩
  by_cases heq : id = entry.id
  · have hsame : symbols.functions[id] = entry := by
      rw [← heq, Symbols.function?, List.getElem?_eq_getElem hlt] at hentry
      exact Option.some.inj hentry
    rw [hsame]
    exact List.mem_cons_self
  · exact .tail _ ((hreached _).mpr ⟨List.getElem_mem hlt, hid.symm ▸ heq, hid.symm ▸ hreach⟩)

theorem exists_reachable {records : Array Instruction} (hs : symbols.Numbered)
    {entry : FunctionSymbol} (hentry : symbols.function? entry.id = some entry)
    (hbodies : ∀ id, Reaches symbols records.toList entry.id id →
      HasBody symbols records.toList id) :
    ∃ reached, reachable symbols records entry = .ok reached := by
  obtain ⟨seen, hseen⟩ : ∃ seen, explore symbols records (symbols.functions.length + 1)
      [entry.id] [entry] = .ok seen := Search.exists_explore hs (.start hentry) hbodies
  exact ⟨_, except_bind_eq_ok.mpr ⟨seen, hseen, rfl⟩⟩

/-! ## The functions of a program -/

section Functions

variable {entry : FunctionSymbol} {records : List Instruction}

/-- The function that a script begins with has a name that the loader does not have. -/
theorem lookup_of_entryPoint (h : symbols.entryPoint = .ok entry) :
    ∃ name, symbols.lookup? name = some entry ∧ name ≠ globalsLoader ∧
      (entry.result = .void ∨ entry.result = .int) := by
  rw [Symbols.entryPoint] at h
  split at h
  · next f hmain =>
      split at h
      · next hvoid =>
          obtain rfl := Except.ok.inj h
          exact ⟨_, hmain, by decide, .inl (ValueType.isVoid_iff.mp hvoid)⟩
      · cases h
  · split at h
    · next f hcondition =>
        split at h
        · next hint =>
            obtain rfl := Except.ok.inj h
            exact ⟨_, hcondition, by decide, .inr hint⟩
        · cases h
    · cases h

theorem name_ne_of_entryPoint (h : symbols.entryPoint = .ok entry) :
    entry.name ≠ globalsLoader := by
  obtain ⟨name, hlookup, hne, -⟩ := lookup_of_entryPoint h
  rwa [Symbols.name_of_lookup? hlookup]

/-- The function that a script begins with is in the table, and it is not the loader. -/
theorem entryPoint_eq_ok (hs : symbols.Numbered) (h : symbols.entryPoint = .ok entry) :
    symbols.function? entry.id = some entry ∧ entry.name ≠ globalsLoader ∧
      (entry.result = .void ∨ entry.result = .int) := by
  obtain ⟨name, hlookup, -, hresult⟩ := lookup_of_entryPoint h
  exact ⟨hs.function?_of_lookup? hlookup, name_ne_of_entryPoint h, hresult⟩

/-- The loader is in the table. -/
theorem loaderOf?_eq_some (hs : symbols.Numbered) {loader : FunctionSymbol}
    (h : loaderOf? symbols = some loader) :
    symbols.function? loader.id = some loader ∧ loader.name = globalsLoader := by
  rw [loaderOf?] at h
  split at h
  · cases h
  · exact ⟨hs.function?_of_lookup? h, Symbols.name_of_lookup? h⟩

/-- What is called is not the loader. -/
theorem name_ne_of_calls (hs : symbols.Backed records) {caller : Nat} {f : FunctionSymbol}
    (hf : symbols.function? f.id = some f) (h : Calls symbols records caller f.id) :
    f.name ≠ globalsLoader := by
  obtain ⟨b, -, i, hi, hcallee⟩ := h
  obtain ⟨g, hg, hne⟩ := hs.callee i (FunctionBody.mem_of_mem_code hi) f.id hcallee
  obtain rfl := Option.some.inj (hf.symm.trans hg)
  exact hne

/-- The functions of a program, the loader first, are different ones, and only the first can be the
loader. -/
theorem placed_functions (hs : symbols.Linkable records) (hentry : symbols.entryPoint = .ok entry)
    {others : List FunctionSymbol} (hsublist : others.Sublist symbols.functions)
    (hothers : ∀ f ∈ others, f.id ≠ entry.id ∧ Reaches symbols records entry.id f.id) :
    (∀ f ∈ ((loaderOf? symbols).toList ++ entry :: others).tail, f.name ≠ globalsLoader) ∧
      (((loaderOf? symbols).toList ++ entry :: others).map FunctionSymbol.id).Nodup := by
  obtain ⟨hfun, hname, -⟩ := entryPoint_eq_ok hs.toNumbered hentry
  have hknown : ∀ f ∈ entry :: others, symbols.function? f.id = some f := by
    refine List.forall_mem_cons.mpr ⟨hfun, ?_⟩
    intro f hf
    exact hs.function?_of_mem (hsublist.subset hf)
  have hnames : ∀ f ∈ entry :: others, f.name ≠ globalsLoader := by
    refine List.forall_mem_cons.mpr ⟨hname, ?_⟩
    intro f hf
    obtain ⟨hne, hreach⟩ := hothers f hf
    rcases Relation.ReflTransGen.cases_tail hreach with heq | ⟨caller, -, hcalls⟩
    · exact absurd heq hne
    · exact name_ne_of_calls hs.toBacked (hknown f (.tail _ hf)) hcalls
  have hnodup : ((entry :: others).map FunctionSymbol.id).Nodup := by
    refine List.nodup_cons.mpr ⟨?_, hs.toNumbered.nodup_ids.sublist (hsublist.map _)⟩
    intro hmem
    obtain ⟨f, hf, heq⟩ := List.mem_map.mp hmem
    exact (hothers f hf).1 heq
  cases hloader : loaderOf? symbols with
  | none => exact ⟨fun f hf => hnames f (List.mem_of_mem_tail hf), hnodup⟩
  | some loader =>
      obtain ⟨hload, hloadName⟩ := loaderOf?_eq_some hs.toNumbered hloader
      refine ⟨hnames, List.nodup_cons.mpr ⟨?_, hnodup⟩⟩
      intro hmem
      obtain ⟨f, hf, heq⟩ := List.mem_map.mp hmem
      have hsame := hknown f hf
      rw [heq, hload] at hsame
      obtain rfl := Option.some.inj hsame
      exact hnames loader hf hloadName

end Functions

end Program

end Nss
