/-
# Code stays where the symbol table says

While a unit is emitted, the code of a function moves from the buffer of the unit that defines it
into those of the units around it.  At every moment the table says where it is:

    recorded   a function with a body is recorded by one instance, and once
    held       its window in the buffer of that instance holds the code lowered from its definition
    tiled      the windows of an instance lie one behind the other, without gap or overlap

The proof keeps a ledger: for each instance, the definitions whose code lies in its buffer, in that
order.  A definition that is accepted is entered for the unit at hand, and when a unit is finished,
what was entered for it comes behind what is there for the unit around it.
-/
import Nss.Proofs.Unit.Course
import Nss.Proofs.Unit.InPlace
import Mathlib.Data.List.Forall2

namespace Nss

open Steps

/-! ## Bodies one behind the other -/

/-- Windows that fill the instructions from one place to another. -/
def Tiles : Nat → List FunctionBody → Nat → Prop
  | n, [], m => n = m
  | n, b :: rest, m => b.start = n ∧ Tiles (n + b.length) rest m

namespace Log

variable {log new : Log}

theorem code_append (log new : Log) : code (log ++ new) = code log ++ code new :=
  List.flatMap_append

theorem length_code_cons (e : Nat × Origin) (log : Log) :
    (code (e :: log)).length = e.2.lowering.code.size + (code log).length := by
  rw [code, List.flatMap_cons, List.length_append, Array.length_toList]
  rfl

/-- The numbers of the functions of a log. -/
def ids (log : Log) : List Nat := log.map Prod.fst

/-- The entries of some logs, one log behind the other. -/
def all (logs : List Log) : Log := logs.flatten

theorem all_cons (log : Log) (logs : List Log) : all (log :: logs) = log ++ all logs := rfl

theorem all_perm_added (log new : Log) (logs : List Log) :
    (all ((log ++ new) :: logs)).Perm (all (log :: logs) ++ new) := by
  rw [all_cons, all_cons, List.append_assoc, List.append_assoc]
  exact List.perm_append_comm.append_left _

theorem all_perm_merged (log log' : Log) (logs : List Log) :
    (all ((log ++ log') :: logs)).Perm (all (log' :: log :: logs)) := by
  rw [all_cons, all_cons, all_cons, ← List.append_assoc]
  exact List.perm_append_comm.append_right _

theorem all_empty {α : Type} (l : List α) : all (l.map fun _ => []) = [] := by
  induction l with
  | nil => rfl
  | cons a l ih => exact ih

theorem ids_append (log new : Log) : ids (log ++ new) = ids log ++ ids new :=
  List.map_append

end Log

namespace Symbols

variable {s s' : Symbols} {log new : Log} {n : Nat}

namespace Placed

theorem append : ∀ {log : Log} {n : Nat}, s.Placed n log → s.Placed (n + log.code.length) new →
    s.Placed n (log ++ new)
  | [], n, _, h' => h'
  | e :: log, n, h, h' => by
      rw [Log.length_code_cons, ← Nat.add_assoc] at h'
      exact ⟨h.1, append h.2 h'⟩

/-- A function that is placed has a body. -/
theorem isSome : ∀ {log : Log} {n : Nat}, s.Placed n log → ∀ id ∈ log.ids,
    (s.body? id).isSome = true
  | e :: log, n, h, id, hid => by
      rcases List.mem_cons.mp hid with rfl | hid
      · rw [h.1]
        rfl
      · exact isSome h.2 id hid

theorem congr : ∀ {log : Log} {n : Nat}, (∀ id ∈ log.ids, s'.body? id = s.body? id) →
    s.Placed n log → s'.Placed n log
  | [], _, _, _ => trivial
  | e :: log, n, hsame, h => by
      obtain ⟨hfirst, hrest⟩ := List.forall_mem_cons.mp hsame
      exact ⟨hfirst.trans h.1, congr hrest h.2⟩

/-- All bodies of a unit are moved by the same distance. -/
theorem moved {offset : Nat} : ∀ {log : Log} {n : Nat},
    (∀ id ∈ log.ids, s'.body? id = (s.body? id).map (·.moved offset)) → s.Placed n log →
      s'.Placed (n + offset) log
  | [], _, _, _ => trivial
  | e :: log, n, hmoved, h => by
      obtain ⟨hfirst, hrest⟩ := List.forall_mem_cons.mp hmoved
      refine ⟨?_, ?_⟩
      · rw [hfirst, h.1]
        rfl
      · rw [Nat.add_right_comm]
        exact moved hrest h.2

/-- Functions that are placed one behind the other fill the instructions that they have. -/
theorem tiles : ∀ {log : Log} {n : Nat}, s.Placed n log →
    Tiles n (log.ids.filterMap s.body?) (n + log.code.length)
  | [], n, _ => rfl
  | e :: log, n, h => by
      rw [Log.ids, List.map_cons, List.filterMap_cons, h.1, Log.length_code_cons, ← Nat.add_assoc]
      exact ⟨rfl, tiles h.2⟩

/-- The window of a function that is placed holds its code. -/
theorem window : ∀ {log : Log} {before : List Instruction}, s.Placed before.length log →
    ∀ e ∈ log, ∃ b, s.body? e.1 = some b ∧
      b.start + b.length ≤ (before ++ log.code).length ∧
      b.code (before ++ log.code) = e.2.lowering.code.toList ∧ b.labels = e.2.lowering.labels
  | e :: log, before, h, e', he' => by
      have hcode : before ++ Log.code (e :: log)
          = (before ++ e.2.lowering.code.toList) ++ Log.code log := by
        rw [Log.code, List.flatMap_cons, List.append_assoc]
        rfl
      have hlength : (before ++ e.2.lowering.code.toList).length
          = before.length + e.2.lowering.code.size := List.length_append
      rw [hcode]
      rcases List.mem_cons.mp he' with rfl | he'
      · refine ⟨_, h.1, ?_, ?_, rfl⟩
        · rw [List.length_append, hlength]
          exact Nat.le_add_right _ _
        · rw [FunctionBody.code_append (by exact Nat.le_of_eq hlength.symm), FunctionBody.code,
            List.drop_left, ← Array.length_toList, List.take_length]
      · refine window ?_ e' he'
        rw [hlength]
        exact h.2

end Placed

end Symbols

/-! ## The invariant -/

/-- The code of the functions of a table lies where the table says, in the buffers of some
instances.  `log` holds the definitions that were accepted. -/
structure Symbols.Kept (s : Symbols) (stack : List Instance) (log : Log) : Prop where
  /-- The functions with bodies are those that are recorded. -/
  recorded : ∀ id, (s.body? id).isSome = true ↔ id ∈ stack.flatMap Instance.defined
  /-- No function is recorded twice, be it by one instance or by two. -/
  once : (stack.flatMap Instance.defined).Nodup
  /-- The window of a function lies in the buffer and holds the code of its definition. -/
  held : ∀ i ∈ stack, ∀ id ∈ i.defined, ∃ b o, s.body? id = some b ∧ (id, o) ∈ log ∧
    b.start + b.length ≤ i.records.length ∧ b.code i.records = o.lowering.code.toList ∧
    b.labels = o.lowering.labels
  /-- The windows fill the buffer. -/
  tiled : ∀ i ∈ stack, Tiles 0 (i.defined.filterMap s.body?) i.records.length
  /-- One definition is accepted for a function. -/
  accepted : log.ids.Nodup
  named : ∀ e ∈ log, s.name? e.1 = some e.2.name

/-! ## Ledgers -/

/-- The code of some definitions makes up the buffer of an instance. -/
structure Symbols.Holds (s : Symbols) (i : Instance) (log : Log) : Prop where
  defined : i.defined = log.ids
  records : i.records = log.code
  placed : s.Placed 0 log

/-- Nothing was emitted into an instance. -/
structure Instance.Blank (i : Instance) : Prop where
  records : i.records = []
  defined : i.defined = []

/-- The definitions whose code lies in the buffers of some instances, for each of them. -/
structure Symbols.Ledger (s : Symbols) (stack : List Instance) (entries : List Log) : Prop where
  held : List.Forall₂ s.Holds stack entries
  once : (Log.all entries).ids.Nodup
  bodied : ∀ id, (s.body? id).isSome = true → id ∈ (Log.all entries).ids
  named : ∀ e ∈ Log.all entries, s.name? e.1 = some e.2.name

namespace Symbols

variable {s s' : Symbols} {stack : List Instance} {entries : List Log} {log : Log}

theorem isSome_body?_rebase (ids : List Nat) (offset id : Nat) :
    ((s.rebase ids offset).body? id).isSome = (s.body? id).isSome := by
  rw [rebase]
  induction ids generalizing s with
  | nil => rfl
  | cons id' ids ih =>
      rw [List.foldl_cons, ih]
      by_cases heq : id' = id
      · rw [heq, body?_shift_self, Option.isSome_map]
      · rw [shift, body?_modifyFunction_ne heq]

theorem holds_congr (h : List.Forall₂ s.Holds stack entries)
    (hsame : ∀ id ∈ (Log.all entries).ids, s'.body? id = s.body? id) :
    List.Forall₂ s'.Holds stack entries := by
  induction h with
  | nil => exact .nil
  | cons hi _ ih =>
      rw [Log.all_cons, Log.ids_append] at hsame
      obtain ⟨hfirst, hrest⟩ := List.forall_mem_append.mp hsame
      exact .cons ⟨hi.defined, hi.records, hi.placed.congr hfirst⟩ (ih hrest)

/-- All that is entered has a body. -/
theorem isSome_of_holds (h : List.Forall₂ s.Holds stack entries) :
    ∀ id ∈ (Log.all entries).ids, (s.body? id).isSome = true := by
  induction h with
  | nil => exact List.forall_mem_nil _
  | cons hi _ ih =>
      rw [Log.all_cons, Log.ids_append]
      exact List.forall_mem_append.mpr ⟨hi.placed.isSome, ih⟩

theorem Holds.blank {i : Instance} (h : i.Blank) : s.Holds i [] :=
  ⟨h.defined, h.records, trivial⟩

namespace Ledger

/-- Where nothing was emitted, nothing is entered. -/
theorem blank (hbodies : ∀ id, s.body? id = none) (h : ∀ i ∈ stack, i.Blank) :
    s.Ledger stack (stack.map fun _ => []) := by
  refine ⟨?_, ?_, ?_, ?_⟩
  · rw [List.forall₂_map_right_iff, List.forall₂_same]
    exact fun i hi => .blank (h i hi)
  · rw [Log.all_empty]
    exact .nil
  · intro id hid
    rw [hbodies] at hid
    cases hid
  · rw [Log.all_empty]
    exact List.forall_mem_nil _

theorem flatMap_defined (h : s.Ledger stack entries) :
    stack.flatMap Instance.defined = (Log.all entries).ids := by
  have hall := h.held
  clear h
  induction hall with
  | nil => rfl
  | cons hi _ ih =>
      rw [List.flatMap_cons, Log.all_cons, Log.ids_append, hi.defined, ih]

/-- What is entered holds at all moments. -/
theorem kept (h : s.Ledger stack entries) (hlog : (Log.all entries).Perm log) : s.Kept stack log := by
  have hentered {i : Instance} (hi : i ∈ stack) : ∃ part ∈ entries, s.Holds i part := by
    obtain ⟨k, hk, rfl⟩ := List.getElem_of_mem hi
    have hk' : k < entries.length := h.held.length_eq ▸ hk
    exact ⟨_, List.getElem_mem hk', h.held.get hk hk'⟩
  constructor
  case recorded =>
    intro id
    rw [h.flatMap_defined]
    refine ⟨h.bodied id, ?_⟩
    intro hid
    rw [← h.flatMap_defined] at hid
    obtain ⟨i, hi, hid⟩ := List.mem_flatMap.mp hid
    obtain ⟨part, -, hholds⟩ := hentered hi
    exact hholds.placed.isSome id (hholds.defined ▸ hid)
  case once =>
    rw [h.flatMap_defined]
    exact h.once
  case held =>
    intro i hi id hid
    obtain ⟨part, hpart, hholds⟩ := hentered hi
    rw [hholds.defined] at hid
    obtain ⟨e, he, rfl⟩ := List.mem_map.mp hid
    obtain ⟨b, hb, hinside, hcode, hlabels⟩ := @Placed.window s part [] hholds.placed e he
    rw [List.nil_append, ← hholds.records] at hinside hcode
    exact ⟨b, e.2, hb, hlog.mem_iff.mp (List.mem_flatten.mpr ⟨part, hpart, he⟩), hinside, hcode,
      hlabels⟩
  case tiled =>
    intro i hi
    obtain ⟨part, -, hholds⟩ := hentered hi
    have htiles := hholds.placed.tiles
    rw [Nat.zero_add] at htiles
    rw [hholds.defined, hholds.records]
    exact htiles
  case accepted => exact (hlog.map Prod.fst).nodup_iff.mp h.once
  case named => exact fun e he => h.named e (hlog.mem_iff.mpr he)

/-! ## Steps -/

variable {i p c : Instance} {part part' : Log} {parts : List Log} {new : Log}

/-- An opened unit comes with nothing. -/
theorem enter (h : s.Ledger stack entries) (hc : c.Blank) : s.Ledger (c :: stack) ([] :: entries) :=
  ⟨.cons (.blank hc) h.held, h.once, h.bodied, h.named⟩

/-- What was entered for a finished unit comes behind what was entered for the one around it. -/
theorem leave (h : s.Ledger (c :: p :: stack) (part' :: part :: parts))
    (hrecords : i.records = p.records ++ c.records) (hdefined : i.defined = p.defined ++ c.defined) :
    (s.rebase c.defined p.records.length).Ledger (i :: stack) ((part ++ part') :: parts) := by
  obtain ⟨hchild, hparent, hrest⟩ : s.Holds c part' ∧ s.Holds p part ∧
      List.Forall₂ s.Holds stack parts := by
    cases h.held with
    | cons hc hall =>
      cases hall with
      | cons hp hall => exact ⟨hc, hp, hall⟩
  have hperm := Log.all_perm_merged part part' parts
  have honce := h.once
  rw [Log.all_cons, Log.ids_append, List.nodup_append] at honce
  obtain ⟨hnodup, -, hapart⟩ := honce
  -- only the bodies of the finished unit are moved
  have hstays {log : Log} (hmem : ∀ id ∈ log.ids, id ∈ (Log.all (part :: parts)).ids) :
      ∀ id ∈ log.ids, (s.rebase c.defined p.records.length).body? id = s.body? id := by
    intro id hid
    refine body?_rebase_of_notMem ?_ _
    rw [hchild.defined]
    exact fun hid' => hapart id hid' id (hmem id hid) rfl
  constructor
  case held =>
    refine .cons ⟨?_, ?_, ?_⟩ ?_
    · rw [hdefined, hparent.defined, hchild.defined, Log.ids_append]
    · rw [hrecords, hparent.records, hchild.records, Log.code_append]
    · refine .append (hparent.placed.congr (hstays ?_)) ?_
      · intro id hid
        rw [Log.all_cons, Log.ids_append]
        exact List.mem_append_left _ hid
      · rw [← hparent.records]
        refine hchild.placed.moved ?_
        intro id hid
        rw [hchild.defined, body?_rebase_of_mem hnodup hid]
    · refine holds_congr hrest (hstays ?_)
      intro id hid
      rw [Log.all_cons, Log.ids_append]
      exact List.mem_append_right _ hid
  case once => exact (hperm.map Prod.fst).nodup_iff.mpr h.once
  case bodied =>
    intro id hid
    rw [isSome_body?_rebase] at hid
    exact (hperm.map Prod.fst).mem_iff.mpr (h.bodied id hid)
  case named =>
    intro e he
    rw [name?_rebase]
    exact h.named e (hperm.mem_iff.mp he)

/-- What a unit gains is entered behind what is there for it. -/
theorem gains {t t' : EmitState} (h : t.symbols.Ledger t.stack (part :: parts))
    (hgains : t.Gains t' new) : t'.symbols.Ledger t'.stack ((part ++ new) :: parts) := by
  obtain ⟨hfirst, hrest⟩ := List.forall₂_cons.mp h.held
  have hperm := Log.all_perm_added part new parts
  have hids : (Log.all ((part ++ new) :: parts)).ids.Perm
      ((Log.all (part :: parts)).ids ++ new.ids) := by
    rw [← Log.ids_append]
    exact hperm.map Prod.fst
  have hapart : ∀ id ∈ (Log.all (part :: parts)).ids, id ∉ new.ids := by
    intro id hid hnew
    have hsome := isSome_of_holds h.held id hid
    rw [hgains.fresh id hnew] at hsome
    cases hsome
  have hsame : ∀ id ∈ (Log.all (part :: parts)).ids, t'.symbols.body? id = t.symbols.body? id :=
    fun id hid => hgains.others id (hapart id hid)
  constructor
  case held =>
    rw [Log.all_cons, Log.ids_append] at hsame
    obtain ⟨hsamefirst, hsamerest⟩ := List.forall_mem_append.mp hsame
    rw [EmitState.stack, hgains.outer]
    refine .cons ⟨?_, ?_, ?_⟩ (holds_congr hrest hsamerest)
    · rw [hgains.defined, hfirst.defined, Log.ids_append]
      rfl
    · rw [hgains.records, hfirst.records, Log.code_append]
    · refine .append (hfirst.placed.congr hsamefirst) ?_
      rw [Nat.zero_add, ← hfirst.records]
      exact hgains.placed
  case once =>
    refine hids.nodup_iff.mpr (List.nodup_append.mpr ⟨h.once, hgains.nodup, ?_⟩)
    rintro id hid id' hid' rfl
    exact hapart id hid hid'
  case bodied =>
    intro id hid
    refine hids.mem_iff.mpr (List.mem_append.mpr ?_)
    by_cases hnew : id ∈ new.ids
    · exact .inr hnew
    · rw [hgains.others id hnew] at hid
      exact .inl (h.bodied id hid)
  case named =>
    intro e he
    rcases List.mem_append.mp (hperm.mem_iff.mp he) with he | he
    · exact hgains.known _ _ (h.named e he)
    · exact hgains.named e he

end Ledger

end Symbols

/-! ## Courses -/

namespace EmitState

/-- A ledger with all that was accepted. -/
structure Accounted (s : EmitState) (log : Log) : Prop where
  numbered : s.symbols.Numbered
  ledger : ∃ entries, s.symbols.Ledger s.stack entries ∧ (Log.all entries).Perm log

namespace Accounted

variable {s s' : EmitState} {log new : Log}

theorem kept (h : s.Accounted log) : s.symbols.Kept s.stack log := by
  obtain ⟨entries, hledger, hperm⟩ := h.ledger
  exact hledger.kept hperm

theorem gains (h : s.Accounted log) (hgains : s.Gains s' new) : s'.Accounted (log ++ new) := by
  obtain ⟨entries, hledger, hperm⟩ := h.ledger
  obtain ⟨part, parts, -, -, rfl⟩ := List.forall₂_cons_left_iff.mp hledger.held
  exact ⟨hgains.numbered, _, hledger.gains hgains,
    (Log.all_perm_added part new parts).trans (hperm.append_right new)⟩

/-- Where no definition is one of the loader, the table knows no code of it. -/
theorem unloaded (h : s.Accounted log) (hlog : ∀ e ∈ log, e.2.name ≠ globalsLoader) :
    ∀ f, s.symbols.lookup? globalsLoader = some f → f.body = none := by
  intro f hf
  have hfunction := h.numbered.function?_of_lookup? hf
  cases hbody : f.body with
  | none => rfl
  | some b =>
      have hsome : s.symbols.body? f.id = some b := by
        rw [Symbols.body?, hfunction, Option.bind_some, hbody]
      obtain ⟨i, hi, hid⟩ := List.mem_flatMap.mp ((h.kept.recorded f.id).mp (by rw [hsome]; rfl))
      obtain ⟨-, o, -, hmem, -⟩ := h.kept.held i hi f.id hid
      have hname := h.kept.named _ hmem
      rw [Symbols.name?, hfunction, Option.map_some, Symbols.name_of_lookup? hf] at hname
      exact absurd (Option.some.inj hname).symm (hlog _ hmem)

end Accounted

end EmitState

namespace Moment

open EmitState

variable {m m' : Moment} {log new : Log}

/-- One step keeps the account. -/
theorem Step.accounted (hstep : Step m new m') (h : m.state.Accounted log) :
    m'.state.Accounted (log ++ new) := by
  cases hstep with
  | part hopened hpart => exact h.gains (Emit.part_gains h.numbered hopened hpart)
  | enter hbegin =>
      obtain ⟨entries, hledger, hperm⟩ := h.ledger
      have hfresh := Instance.fresh_of_begin? hbegin
      rw [List.append_nil]
      exact ⟨h.numbered, _, hledger.enter ⟨hfresh.records, hfresh.defined⟩, hperm⟩
  | @leave s s' u p outer v around houter habsorb =>
      obtain ⟨entries, hledger, hperm⟩ := h.ledger
      obtain ⟨i, left, offset, htaken, rfl⟩ := Emit.absorb_eq_ok.mp habsorb
      obtain ⟨rfl, hrecords, hdefined, -, -⟩ := Instance.absorb_eq_ok htaken
      rw [List.append_nil]
      simp only [EmitState.stack, houter] at hledger
      obtain ⟨part', parts', -, hheld, rfl⟩ := List.forall₂_cons_left_iff.mp hledger.held
      obtain ⟨part, parts, -, -, rfl⟩ := List.forall₂_cons_left_iff.mp hheld
      exact ⟨h.numbered.rebase _ _, _, hledger.leave hrecords hdefined,
        (Log.all_perm_merged part part' parts).trans hperm⟩

/-- A whole course keeps the account. -/
theorem Course.accounted (hcourse : Course m new m') (h : m.state.Accounted log) :
    m'.state.Accounted (log ++ new) := by
  induction hcourse with
  | refl =>
      rw [List.append_nil]
      exact h
  | step _ hstep ih =>
      rw [← List.append_assoc]
      exact hstep.accounted ih

end Moment

/-! ## The end of the outermost unit -/

/-- The loader of the global variables, if there is one. -/
def EmitState.loaderLog (s : EmitState) : Log :=
  if s.symbols.globals.isEmpty then []
  else [((s.symbols.declareLoader s.loaderResult s.current.name).2, .loader s.symbols)]

namespace Symbols

variable {s : Symbols}

/-- The loader is declared without a body, under a number of its own. -/
theorem declareLoader_spec (hs : s.Numbered)
    (hnone : ∀ f, s.lookup? globalsLoader = some f → f.body = none) (result : ValueType)
    (unit : String) :
    (s.declareLoader result unit).2 < (s.declareLoader result unit).1.functions.length ∧
      (s.declareLoader result unit).1.name? (s.declareLoader result unit).2 = some globalsLoader ∧
      s.body? (s.declareLoader result unit).2 = none ∧
      (∀ id, (s.declareLoader result unit).1.body? id = s.body? id) ∧
      ∀ id name, s.name? id = some name →
        (s.declareLoader result unit).1.name? id = some name := by
  rw [declareLoader]
  cases hf : s.lookup? globalsLoader with
  | none =>
      refine ⟨?_, name?_insert_self _ _ _ _, ?_, body?_insert _ _ _ _,
        fun id name hname => name?_insert hname _ _ _⟩
      · show s.functions.length < (s.functions ++ [_]).length
        rw [List.length_append]
        exact Nat.lt_succ_self _
      · show (s.functions[s.functions.length]?).bind _ = none
        rw [List.getElem?_eq_none (Nat.le_refl _)]
        rfl
  | some f =>
      have hfunction := hs.function?_of_lookup? hf
      have hbody : s.body? f.id = none := by
        rw [body?, hfunction, Option.bind_some, hnone f hf]
      have hname (id : Nat) : (s.modifyFunction f.id
          fun f => { f with result, body := none }).name? id = s.name? id :=
        name?_modifyFunction (by intro f; rfl) f.id id
      refine ⟨?_, ?_, hbody, ?_, fun id name h => (hname id).trans h⟩
      · rw [length_modifyFunction]
        exact (List.getElem?_eq_some_iff.mp hfunction).1
      · rw [hname, name?, hfunction, Option.map_some, name_of_lookup? hf]
      · intro id
        by_cases heq : f.id = id
        · obtain rfl := heq
          rw [hbody]
          show Option.bind ((s.functions.modify f.id _)[f.id]?) _ = none
          rw [List.getElem?_modify_eq]
          cases s.functions[f.id]? with
          | none => rfl
          | some g => rfl
        · exact body?_modifyFunction_ne heq _

end Symbols

namespace Emit

variable {s s' : EmitState}

/-- The loader is added to the outermost unit. -/
theorem addLoader_gains (hs : s.symbols.Numbered)
    (hnone : ∀ f, s.symbols.lookup? globalsLoader = some f → f.body = none)
    (h : addLoader s = .ok () s') : s.Gains s' s.loaderLog := by
  rw [addLoader_apply] at h
  rw [EmitState.loaderLog]
  split
  · next hempty =>
      rw [if_pos hempty] at h
      obtain rfl := (EStateM.Result.ok.inj h).2
      exact .of_symbols rfl rfl rfl rfl hs
  · next hglobals =>
      rw [if_neg hglobals] at h
      obtain ⟨hknown, hname, hfresh, hbodies, hnames⟩ :=
        Symbols.declareLoader_spec hs hnone s.loaderResult s.current.name
      exact .addBody (o := .loader s.symbols) h rfl rfl rfl (hs.declareLoader _ _) hknown hfresh
        hname hbodies hnames

/-- An emission that comes to its end has a course, and ends with the loader. -/
theorem root_course {front : FrontEnd} {loader : Loader} {text : Bytes}
    (hs : s.symbols.Numbered) (hstart : s.entrySeen = false)
    (htext : s.current.source.bytes? = some text) (h : root front loader .full s = .ok () s') :
    ∃ t log, t.outer = s.outer ∧
      Moment.Course ⟨s, [(⟨s.current.name, Bytes.toText text⟩,
        Expanded.ofRoot front loader s.registry s.current.name text)]⟩ log
          ⟨t, [(⟨s.current.name, Bytes.toText text⟩, [])]⟩ ∧
      addLoader t.concluded = .ok () s' := by
  have hsame : { s with entrySeen := false } = s := by rw [← hstart]
  rw [root_apply, htext, hsame] at h
  obtain ⟨_, t, hparts, hfinish⟩ := bind_eq_ok.mp h
  obtain ⟨houter, -, hcourse⟩ := Moment.passes_parts _ _ hs hparts
  obtain ⟨log, hlog⟩ := hcourse []
  rw [finish_apply] at hfinish
  exact ⟨t, log, houter, hlog, hfinish⟩

end Emit

theorem EmitState.loaderLog_concluded (s : EmitState) : s.concluded.loaderLog = s.loaderLog := by
  rw [concluded]
  split
  · rfl
  · rfl

/-- A state at the end of the outermost unit holds the same code. -/
theorem EmitState.concluded_gains {s : EmitState} (hs : s.symbols.Numbered) :
    s.Gains s.concluded [] := by
  rw [concluded]
  split
  · exact .of_symbols rfl rfl rfl rfl hs
  · exact .of_symbols rfl rfl rfl rfl hs

/-- What is recorded is recorded by the outermost unit alone if there is nothing around it. -/
theorem Symbols.Kept.alone {s : Symbols} {i : Instance} {outer : List Instance} {log : Log}
    (h : s.Kept (i :: outer) log) (hblank : ∀ j ∈ outer, j.Blank) : s.Kept [i] log := by
  have hnone : outer.flatMap Instance.defined = [] :=
    List.flatMap_eq_nil_iff.mpr fun j hj => (hblank j hj).defined
  have hall : (i :: outer).flatMap Instance.defined = [i].flatMap Instance.defined := by
    rw [List.flatMap_cons, List.flatMap_cons, hnone, List.flatMap_nil]
  refine ⟨?_, ?_, ?_, ?_, h.accepted, h.named⟩
  · rw [← hall]
    exact h.recorded
  · rw [← hall]
    exact h.once
  · exact List.forall_mem_singleton.mpr (h.held i List.mem_cons_self)
  · exact List.forall_mem_singleton.mpr (h.tiled i List.mem_cons_self)

/-- The first moment of an emission. -/
def Moment.start (front : FrontEnd) (loader : Loader) (i : Instance) (outer : List Instance)
    (r : Registry) (symbols : Symbols) (text : Bytes) : Moment where
  state := .start i outer r symbols
  left := [(⟨i.name, Bytes.toText text⟩, Expanded.ofRoot front loader r i.name text)]

/-- At every moment of an emission that begins without bodies, and in its end, the code of every
function lies where the symbol table says, in the one instance that records it, and the code of the
functions of an instance fills its buffer.  In the end that is the outermost one, with the loader. -/
theorem emitRoot_kept {front : FrontEnd} {loader : Loader} {i : Instance} {outer : List Instance}
    {r : Registry} {symbols : Symbols} {text : Bytes} (hsymbols : symbols.Numbered)
    (hbodies : ∀ id, symbols.body? id = none) (hblank : ∀ j ∈ i :: outer, j.Blank)
    (htext : i.source.bytes? = some text)
    (hfront : ∀ unit text decl, .declaration (.function decl) ∈ front unit text →
      decl.name ≠ globalsLoader) :
    let start := Moment.start front loader i outer r symbols text
    let e := emitRoot front loader .full (i :: outer) r symbols
    (∀ m log, Moment.Course start log m → m.state.symbols.Kept m.state.stack log) ∧
      (e.outcome = .ok () → ∃ s log root,
        Moment.Course start log ⟨s, [(⟨i.name, Bytes.toText text⟩, [])]⟩ ∧
        e.stack = root :: outer ∧ e.symbols.Kept [root] (log ++ s.loaderLog)) := by
  intro start e
  have hstart : start.state.Accounted [] := by
    refine ⟨hsymbols, _, .blank hbodies hblank, ?_⟩
    rw [Log.all_empty]
  have hcourse {m : Moment} {log : Log} (h : Moment.Course start log m) : m.state.Accounted log :=
    h.accounted hstart
  refine ⟨fun m log h => (hcourse h).kept, ?_⟩
  intro hok
  have he : e = _ := emitRoot_cons front loader .full i outer r symbols
  cases hroot : Emit.root front loader .full (.start i outer r symbols) with
  | error err s' =>
      rw [he, hroot] at hok
      cases hok
  | ok u s' =>
  rw [hroot] at he
  obtain ⟨t, log, houter, hlog, hloader⟩ := Emit.root_course hsymbols rfl htext hroot
  have hall := hcourse hlog
  have hnone : ∀ f, t.concluded.symbols.lookup? globalsLoader = some f → f.body = none := by
    rw [t.symbols_concluded]
    refine hall.unloaded ?_
    intro entry hentry
    obtain ⟨u, decl, known, horigin, hact⟩ := hlog.acts.2 entry hentry
    simp only [Moment.acts, List.flatMap_singleton] at hact
    obtain ⟨unit, text, hdeclared⟩ := Expanded.declaration_mem_allActs_ofUnit _ _ _ _ _ hact
    rw [horigin]
    exact hfront unit text _ hdeclared
  have hconcluded := EmitState.concluded_gains hall.numbered
  have hloaded := Emit.addLoader_gains hconcluded.numbered hnone hloader
  have hend := (hall.gains hconcluded).gains hloaded
  rw [List.append_nil, t.loaderLog_concluded] at hend
  have hstack : s'.stack = s'.current :: outer := by
    rw [EmitState.stack, hloaded.outer, hconcluded.outer, houter]
    rfl
  refine ⟨t, log, s'.current, hlog, he ▸ hstack, ?_⟩
  have hkept := hend.kept
  rw [hstack] at hkept
  rw [he]
  exact hkept.alone fun j hj => hblank j (.tail _ hj)

theorem emitRoot_kept_includesLayers :
    (emitRoot scriptFrontEnd (.ofSources layers) .full [.ofText includesLayers] .empty
        .empty).outcome = .ok () ∧
      ∃ s log root,
        Moment.Course
          (.start scriptFrontEnd (.ofSources layers) (.ofText includesLayers) [] .empty .empty
            (Bytes.ofText includesLayers)) log
          ⟨s, [(⟨"script", Bytes.toText (Bytes.ofText includesLayers)⟩, [])]⟩ ∧
        (emitRoot scriptFrontEnd (.ofSources layers) .full [.ofText includesLayers] .empty
          .empty).stack = [root] ∧
        (emitRoot scriptFrontEnd (.ofSources layers) .full [.ofText includesLayers] .empty
          .empty).symbols.Kept [root] (log ++ s.loaderLog) := by
  have hok : (emitRoot scriptFrontEnd (.ofSources layers) .full [.ofText includesLayers] .empty
      .empty).outcome = .ok () := by decide +kernel
  have hfront : ∀ unit text decl, .declaration (.function decl) ∈ scriptFrontEnd unit text →
      decl.name ≠ globalsLoader := by
    intro unit text decl hmem
    cases Event.ofSource_proper text _ hmem _ rfl with
    | function _ hname => exact hname
  have hblank : ∀ j ∈ [Instance.ofText includesLayers], j.Blank :=
    List.forall_mem_singleton.mpr ⟨rfl, rfl⟩
  have hkept := @emitRoot_kept scriptFrontEnd (.ofSources layers) (.ofText includesLayers) [] .empty
    .empty _ Symbols.numbered_empty (fun _ => rfl) hblank rfl hfront
  exact ⟨hok, hkept.2 hok⟩

end Nss
