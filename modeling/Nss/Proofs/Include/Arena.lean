/-
# Registries over time

A registry is asked to register keys, and now and then it is cleared.  In place it has two parts: one
row of texts, and an index that gives the place of each key in that row.

    names      libutilLib_2
    extents    lib ↦ 0+3    util ↦ 3+4    Lib_2 ↦ 7+5

The index tells whether a key was met before.  The order of the keys is not in it; it comes back by
sorting the places.  An empty key begins where the next one does, so that its own turn is lost.

After any history the keys are those that were asked for since the registry was cleared, each where
it was asked for first, and their texts stand one behind the other: the registry is `ofKeys` of them
(`run_eq`), and in place it `Holds` them (`Indexed.run_holds`).  What a registry does is read off from
that.
-/
import Nss.Proofs.Include.Expansion
import Std.Data.HashMap.Lemmas
import Mathlib.Data.List.Induction
import Mathlib.Data.List.Nodup
import Mathlib.Data.List.Pairwise

namespace Nss
namespace Registry

/-! ## Requests -/

/-- What a registry is asked for. -/
inductive Request where
  | register (key : String)
  | clear
deriving DecidableEq

namespace Request

/-- The keys that were asked for since the registry was cleared, once one more request is made. -/
def since (keys : List String) : Request → List String
  | register key => keys ++ [key]
  | clear => []

/-- The registry after a request. -/
def next (r : Registry) : Request → Registry
  | register key => (r.register key).2
  | clear => .empty

end Request

/-- The keys that were asked for since the registry was cleared, in their order. -/
def asked (history : List Request) : List String := history.foldl Request.since []

/-- The registry after some requests. -/
def run (r : Registry) (history : List Request) : Registry := history.foldl Request.next r

/-! ## Texts one behind the other -/

/-- The texts of some keys in one row. -/
def texts (keys : List String) : List Char := keys.flatMap String.toList

/-- The entries of some keys whose texts begin at an offset. -/
def laidOut : Nat → List String → List RegistryEntry
  | _, [] => []
  | start, key :: rest =>
    let length := utf8Width key.toList
    { key, offset := start, length } :: laidOut (start + length) rest

/-- The registry that some keys give, each of them registered once. -/
def ofKeys (keys : List String) : Registry := ⟨texts keys, laidOut 0 keys⟩

/-- The part of a row of texts at an offset. -/
def cut? (names : List Char) (offset length : Nat) : Option String :=
  ((Text.dropBytes? offset names).bind (Text.takeBytes? length)).map String.ofList

theorem cut?_append (before after : List Char) (key : String) :
    cut? (before ++ (key.toList ++ after)) (utf8Width before) (utf8Width key.toList) = some key := by
  simp [cut?, Text.dropBytes?_append, Text.takeBytes?_append]

theorem map_key_laidOut (start : Nat) (keys : List String) :
    (laidOut start keys).map RegistryEntry.key = keys := by
  induction keys generalizing start with
  | nil => rfl
  | cons key rest ih => simp [laidOut, ih]

theorem laidOut_append (start : Nat) (keys later : List String) :
    laidOut start (keys ++ later)
      = laidOut start keys ++ laidOut (start + utf8Width (texts keys)) later := by
  induction keys generalizing start with
  | nil => simp [laidOut, texts]
  | cons key rest ih => simp [laidOut, texts, ih, Nat.add_assoc]

/-- An entry begins at the first offset or behind it, and its length is that of its key. -/
theorem bounds_of_mem_laidOut {start : Nat} {keys : List String} {e : RegistryEntry}
    (h : e ∈ laidOut start keys) : start ≤ e.offset ∧ e.length = utf8Width e.key.toList := by
  induction keys generalizing start with
  | nil => cases h
  | cons key rest ih =>
    rcases List.mem_cons.mp h with rfl | hrest
    · exact ⟨Nat.le_refl _, rfl⟩
    · obtain ⟨hle, hlength⟩ := ih hrest
      exact ⟨Nat.le_of_add_right_le hle, hlength⟩

/-- The row is cut into the keys by their entries. -/
theorem cut?_of_mem_laidOut {before : List Char} {keys : List String} {e : RegistryEntry}
    (h : e ∈ laidOut (utf8Width before) keys) :
    cut? (before ++ texts keys) e.offset e.length = some e.key := by
  induction keys generalizing before with
  | nil => cases h
  | cons key rest ih =>
    rcases List.mem_cons.mp h with rfl | hrest
    · exact cut?_append before (texts rest) key
    · rw [← utf8Width_append] at hrest
      simpa [texts] using ih hrest

theorem cut?_texts {keys : List String} {e : RegistryEntry} (h : e ∈ laidOut 0 keys) :
    cut? (texts keys) e.offset e.length = some e.key := by
  have hcut := @cut?_of_mem_laidOut [] keys e h
  exact hcut

/-- An entry ends before those behind it begin. -/
theorem pairwise_laidOut (start : Nat) (keys : List String) :
    (laidOut start keys).Pairwise fun e e' => e.offset + e.length ≤ e'.offset := by
  induction keys generalizing start with
  | nil => exact .nil
  | cons key rest ih => exact .cons (fun e he => (bounds_of_mem_laidOut he).1) (ih _)

/-- The texts of two keys do not overlap. -/
theorem apart_of_mem_laidOut {start : Nat} {keys : List String} {e e' : RegistryEntry}
    (h : e ∈ laidOut start keys) (h' : e' ∈ laidOut start keys) (hne : e ≠ e') :
    e.offset + e.length ≤ e'.offset ∨ e'.offset + e'.length ≤ e.offset := by
  induction keys generalizing start with
  | nil => cases h
  | cons key rest ih =>
    rcases List.mem_cons.mp h with rfl | hrest <;> rcases List.mem_cons.mp h' with rfl | hrest'
    · exact absurd rfl hne
    · exact .inl (bounds_of_mem_laidOut hrest').1
    · exact .inr (bounds_of_mem_laidOut hrest).1
    · exact ih hrest hrest'

theorem length_eq_zero_iff {start : Nat} {keys : List String} {e : RegistryEntry}
    (h : e ∈ laidOut start keys) : e.length = 0 ↔ e.key = "" := by
  rw [(bounds_of_mem_laidOut h).2, ← String.toList_eq_nil_iff]
  cases e.key.toList with
  | nil => simp
  | cons c rest =>
    have hpos := c.utf8Size_pos
    simp only [utf8Width_cons, reduceCtorEq, iff_false]
    omega

/-! ## A registry of some keys -/

theorem contains_ofKeys (keys : List String) (key : String) :
    (ofKeys keys).contains key = true ↔ key ∈ keys := by
  conv_rhs => rw [← map_key_laidOut 0 keys]
  simp [contains, ofKeys]

theorem register_ofKeys {keys : List String} {key : String} (h : key ∉ keys) :
    (ofKeys keys).register key = (.new, ofKeys (keys ++ [key])) := by
  rw [register, if_neg (by rwa [contains_ofKeys])]
  simp [ofKeys, laidOut_append, laidOut, texts]

theorem registration_ofKeys (keys : List String) (key : String) :
    ((ofKeys keys).register key).1 = if key ∈ keys then .alreadyProcessed else .new := by
  by_cases hmem : key ∈ keys
  · rw [if_pos hmem, register_of_contains ((contains_ofKeys keys key).mpr hmem)]
  · rw [if_neg hmem, register_ofKeys hmem]

/-- The keys of a registry, the empty one first. -/
theorem keys_ofKeys (keys : List String) :
    (ofKeys keys).keys = keys.filter (· = "") ++ keys.filter (· ≠ "") := by
  have hfilter (p : RegistryEntry → Bool) (q : String → Bool)
      (hpq : ∀ e ∈ laidOut 0 keys, p e = q e.key) :
      ((laidOut 0 keys).filter p).filterMap (ofKeys keys).text? = keys.filter q := by
    have htext : ∀ e ∈ (laidOut 0 keys).filter p, (ofKeys keys).text? e = some e.key :=
      fun e he => cut?_texts (List.mem_of_mem_filter he)
    conv_rhs => rw [← map_key_laidOut 0 keys]
    rw [List.filterMap_congr htext, List.filterMap_eq_map', List.filter_map, List.filter_congr hpq]
    rfl
  rw [Registry.keys, List.filterMap_append]
  refine congrArg₂ _ (hfilter _ _ fun e he => ?_) (hfilter _ _ fun e he => ?_)
  · exact decide_eq_decide.mpr (length_eq_zero_iff he)
  · exact decide_eq_decide.mpr (length_eq_zero_iff he).not

theorem eraseDups_concat (asked : List String) (key : String) :
    (asked ++ [key]).eraseDups
      = if key ∈ asked then asked.eraseDups else asked.eraseDups ++ [key] := by
  rw [List.eraseDups_append]
  by_cases h : key ∈ asked
  · simp [List.removeAll, h]
  · simp [List.removeAll, h, List.eraseDups_cons]

theorem nodup_eraseDups (asked : List String) : asked.eraseDups.Nodup := by
  induction asked using List.reverseRecOn with
  | nil => exact .nil
  | append_singleton asked key ih =>
    rw [eraseDups_concat]
    split
    · exact ih
    · next hnew =>
      have hne : ∀ other ∈ asked, other ≠ key := fun other hother h => hnew (h ▸ hother)
      simpa [List.nodup_append, ih] using hne

theorem next_ofKeys (asked : List String) (r : Request) :
    r.next (ofKeys asked.eraseDups) = ofKeys (r.since asked).eraseDups := by
  cases r with
  | register key =>
    rw [Request.next, Request.since, eraseDups_concat]
    split
    · next hmem =>
      rw [register_of_contains]
      rwa [contains_ofKeys, List.mem_eraseDups]
    · next hnew =>
      rw [register_ofKeys]
      rwa [List.mem_eraseDups]
  | clear => rfl

/-- After any history, a registry is that of the keys asked for since it was cleared. -/
theorem run_eq (history : List Request) : empty.run history = ofKeys (asked history).eraseDups := by
  have hrun : ∀ keys : List String, (ofKeys keys.eraseDups).run history
      = ofKeys (history.foldl Request.since keys).eraseDups := by
    induction history with
    | nil => exact fun keys => rfl
    | cons r later ih =>
      intro keys
      show (r.next (ofKeys keys.eraseDups)).run later = _
      rw [next_ofKeys, ih]
      rfl
  exact hrun []

/-! ## In place -/

/-- The place of the text of a key, and whether its unit was read. -/
structure Extent where
  offset : Nat
  length : Nat
  processed : Bool
deriving DecidableEq

/-- The place that an entry says. -/
def extentOf (e : RegistryEntry) : Extent := ⟨e.offset, e.length, true⟩

/-- A registry with an index. -/
structure Indexed where
  names : List Char
  extents : Std.HashMap String Extent

namespace Indexed

/-- A registry without keys. -/
def empty : Indexed := ⟨[], ∅⟩

/-- Registers a key.  Its text is put behind the others first. -/
def register (key : String) : StateM Indexed Registration := do
  let t ← get
  if t.extents.contains key then return .alreadyProcessed
  else
    let extent := { offset := utf8Width t.names, length := utf8Width key.toList, processed := true }
    modify fun t => { t with names := t.names ++ key.toList }
    modify fun t => { t with extents := t.extents.insert key extent }
    return .new

/-- Takes all keys out. -/
def clear : StateM Indexed Unit := do
  modify fun t => { t with names := [] }
  modify fun t => { t with extents := ∅ }

/-- The key of an include directive. -/
def normalize (t : Indexed) (path : String) : String :=
  let key := IncludeKey.ofPath path
  if t.extents.contains key then key else Text.lowercase key

/-- The keys in the order of their places, if each place can be cut out.  The index gives its entries
in an order of its own; equal places stay in that order. -/
def keys? (t : Indexed) (entries : List (String × Extent)) : Option (List String) :=
  ((entries.map Prod.snd).mergeSort fun x y => x.offset ≤ y.offset).mapM
    fun x => cut? t.names x.offset x.length

/-- The registry after a request. -/
def next (t : Indexed) : Request → Indexed
  | .register key => (register key t).2
  | .clear => (clear t).2

/-- The registry after some requests. -/
def run (t : Indexed) (history : List Request) : Indexed := history.foldl next t

theorem register_apply (key : String) (t : Indexed) :
    register key t
      = if t.extents.contains key then (.alreadyProcessed, t)
        else (.new, {
          names := t.names ++ key.toList
          extents := t.extents.insert key
            { offset := utf8Width t.names, length := utf8Width key.toList, processed := true } }) := by
  simp only [register, bind, StateT.bind, get, getThe, MonadStateOf.get, StateT.get, pure]
  split
  · rfl
  · rfl

/-- The texts of some keys stand one behind the other, and the index gives their places. -/
structure Holds (t : Indexed) (keys : List String) : Prop where
  names : t.names = texts keys
  extents : ∀ (key : String) (x : Extent),
    t.extents[key]? = some x ↔ ∃ e ∈ laidOut 0 keys, e.key = key ∧ extentOf e = x

namespace Holds

variable {t : Indexed} {keys : List String} {key : String}

theorem empty : Indexed.empty.Holds [] := ⟨rfl, fun key x => by simp [Indexed.empty, laidOut]⟩

theorem contains_iff (h : t.Holds keys) : t.extents.contains key = true ↔ key ∈ keys := by
  rw [Std.HashMap.contains_eq_isSome_getElem?, Option.isSome_iff_exists]
  simp only [h.extents, exists_comm, exists_and_left]
  conv_rhs => rw [← map_key_laidOut 0 keys]
  simp

theorem registration (h : t.Holds keys) (key : String) :
    (Indexed.register key t).1 = if key ∈ keys then .alreadyProcessed else .new := by
  rw [register_apply]
  by_cases hmem : key ∈ keys
  · rw [if_pos (h.contains_iff.mpr hmem), if_pos hmem]
  · rw [if_neg (mt h.contains_iff.mp hmem), if_neg hmem]

/-- A key that is there already changes nothing. -/
theorem register_of_mem (h : t.Holds keys) (hmem : key ∈ keys) :
    Indexed.register key t = (.alreadyProcessed, t) := by
  rw [register_apply, if_pos (h.contains_iff.mpr hmem)]

/-- A new key is put behind the others. -/
theorem register (h : t.Holds keys) (hnew : key ∉ keys) :
    (Indexed.register key t).2.Holds (keys ++ [key]) := by
  rw [register_apply, if_neg (mt h.contains_iff.mp hnew)]
  refine ⟨by simp [h.names, texts], fun other x => ?_⟩
  rw [Std.HashMap.getElem?_insert, laidOut_append]
  by_cases heq : key = other
  · subst heq
    have hother : ∀ e ∈ laidOut 0 keys, e.key ≠ key := by
      intro e he hkey
      rw [← map_key_laidOut 0 keys] at hnew
      exact hnew (List.mem_map.mpr ⟨e, he, hkey⟩)
    simp only [beq_self_eq_true, if_true, Option.some.injEq, List.mem_append]
    constructor
    · rintro rfl
      exact ⟨_, .inr (List.mem_singleton_self _), rfl, by simp [extentOf, h.names]⟩
    · rintro ⟨e, he | he, hkey, rfl⟩
      · exact absurd hkey (hother e he)
      · obtain rfl := List.mem_singleton.mp he
        simp [extentOf, h.names]
  · simp [heq, h.extents, laidOut]

/-- One more request. -/
theorem next {asked : List String} (h : t.Holds asked.eraseDups) (r : Request) :
    (t.next r).Holds (r.since asked).eraseDups := by
  cases r with
  | register key =>
    rw [Request.since, eraseDups_concat]
    by_cases hmem : key ∈ asked
    · rw [if_pos hmem, Indexed.next, h.register_of_mem (List.mem_eraseDups.mpr hmem)]
      exact h
    · rw [if_neg hmem]
      exact h.register (mt List.mem_eraseDups.mp hmem)
  | clear => exact empty

end Holds

theorem run_holds (history : List Request) : (empty.run history).Holds (asked history).eraseDups := by
  have hrun : ∀ (t : Indexed) (keys : List String), t.Holds keys.eraseDups →
      (t.run history).Holds (history.foldl Request.since keys).eraseDups := by
    induction history with
    | nil => exact fun t keys h => h
    | cons r later ih => exact fun t keys h => ih (t.next r) (r.since keys) (h.next r)
  exact hrun empty [] .empty

/-! ## The order of the keys -/

/-- The places of the keys, each with its key. -/
def placed (keys : List String) : List (String × Extent) :=
  (laidOut 0 keys).map fun e => (e.key, extentOf e)

theorem map_fst_placed (keys : List String) : (placed keys).map Prod.fst = keys := by
  simp [placed, Function.comp_def, map_key_laidOut]

/-- The entries of the index, in any order, are the places of the keys. -/
theorem Holds.entries_perm {t : Indexed} {keys : List String} (h : t.Holds keys) (hkeys : keys.Nodup)
    {entries : List (String × Extent)} (hentries : entries.Perm t.extents.toList) :
    entries.Perm (placed keys) := by
  refine hentries.trans ((List.perm_ext_iff_of_nodup ?_ ?_).mpr ?_)
  · exact Std.HashMap.distinct_keys_toList.imp fun hne heq => by simp [heq] at hne
  · refine List.Nodup.of_map Prod.fst ?_
    rwa [map_fst_placed]
  · rintro ⟨key, x⟩
    simp [Std.HashMap.mem_toList_iff_getElem?_eq_some, h.extents, placed]

theorem keys?_eq {t : Indexed} {entries : List (String × Extent)}
    (hcut : ∀ p ∈ entries, cut? t.names p.2.offset p.2.length = some p.1) :
    t.keys? entries
      = some ((entries.mergeSort fun p q => p.2.offset ≤ q.2.offset).map Prod.fst) := by
  have hmapM : ∀ {pairs : List (String × Extent)},
      (∀ p ∈ pairs, cut? t.names p.2.offset p.2.length = some p.1) →
      (pairs.map Prod.snd).mapM (fun x => cut? t.names x.offset x.length)
        = some (pairs.map Prod.fst) := by
    intro pairs hpairs
    induction pairs with
    | nil => rfl
    | cons p rest ih =>
      obtain ⟨hp, hrest⟩ := List.forall_mem_cons.mp hpairs
      simp [List.mapM_cons, hp, ih hrest]
  have hsort := List.map_mergeSort (f := Prod.snd) (l := entries)
    (r := fun p q => decide (p.2.offset ≤ q.2.offset))
    (s := fun x y : Extent => decide (x.offset ≤ y.offset)) fun _ _ _ _ => rfl
  rw [Indexed.keys?, ← hsort]
  exact hmapM fun p hp => hcut p (List.mem_mergeSort.mp hp)

/-- However the places of the keys were mixed up, sorting brings the order of the keys back, but for
that of the empty one. -/
theorem filter_sorted {keys : List String} {sorted : List (String × Extent)}
    (hperm : sorted.Perm (placed keys))
    (hsorted : sorted.Pairwise fun p q => p.2.offset ≤ q.2.offset) :
    sorted.filter (fun p => p.1 ≠ "") = (placed keys).filter fun p => p.1 ≠ "" := by
  refine List.Perm.eq_of_pairwise ?_ (hsorted.filter _) ?_ (hperm.filter _)
  · intro p q hp hq hle hge
    obtain ⟨hp, hpkey⟩ := List.mem_filter.mp hp
    obtain ⟨hq, hqkey⟩ := List.mem_filter.mp hq
    obtain ⟨e, he, rfl⟩ := List.mem_map.mp (hperm.mem_iff.mp hp)
    obtain ⟨e', he', rfl⟩ := List.mem_map.mp hq
    by_contra hne
    -- two places that are not empty cannot begin together
    have hpos : e.length ≠ 0 := by simpa [length_eq_zero_iff he] using hpkey
    have hpos' : e'.length ≠ 0 := by simpa [length_eq_zero_iff he'] using hqkey
    have happart := apart_of_mem_laidOut he he' fun h => hne (h ▸ rfl)
    simp only [extentOf] at hle hge
    omega
  · refine List.Pairwise.filter _ (List.pairwise_map.mpr ((pairwise_laidOut 0 keys).imp ?_))
    intro e e' hle
    exact Nat.le_of_add_right_le hle

/-- The keys are given, in an order in which the empty one alone may stand elsewhere. -/
theorem Holds.keys?_eq_some {t : Indexed} {keys : List String} (h : t.Holds keys)
    (hkeys : keys.Nodup) {entries : List (String × Extent)}
    (hentries : entries.Perm t.extents.toList) :
    ∃ given, t.keys? entries = some given ∧ given.Perm keys ∧
      given.filter (· ≠ "") = keys.filter (· ≠ "") := by
  have hperm := h.entries_perm hkeys hentries
  have hsort := (List.mergeSort_perm entries fun p q => p.2.offset ≤ q.2.offset).trans hperm
  refine ⟨_, keys?_eq ?_, ?_, ?_⟩
  · intro p hp
    obtain ⟨e, he, rfl⟩ := List.mem_map.mp (hperm.mem_iff.mp hp)
    rw [h.names]
    exact cut?_texts he
  · simpa only [map_fst_placed] using hsort.map Prod.fst
  · have hsorted : (entries.mergeSort fun p q => p.2.offset ≤ q.2.offset).Pairwise
        fun p q => p.2.offset ≤ q.2.offset := by
      simpa using @List.pairwise_mergeSort _
        (fun p q : String × Extent => decide (p.2.offset ≤ q.2.offset))
        (by simpa using fun a b c => Nat.le_trans) (by simpa using fun a b => Nat.le_total _ _)
        entries
    have hfilter := filter_sorted hsort hsorted
    conv_rhs => rw [← map_fst_placed keys]
    rw [List.filter_map, List.filter_map]
    exact congrArg (List.map Prod.fst) hfilter

/-! ## A history -/

/-- Until a registry is cleared, the keys asked for are added to those before. -/
theorem asked_append (past : List Request) {later : List Request} (h : .clear ∉ later) :
    asked past <+: asked (past ++ later) := by
  rw [asked, asked, List.foldl_append]
  generalize past.foldl Request.since [] = keys
  induction later generalizing keys with
  | nil => exact List.prefix_rfl
  | cons r later ih =>
    obtain ⟨hr, hlater⟩ := List.ne_and_not_mem_of_not_mem_cons h
    cases r with
    | register key => exact (List.prefix_append keys [key]).trans (ih hlater (keys ++ [key]))
    | clear => exact absurd rfl hr

/-- What is registered later changes neither a place nor the texts before. -/
theorem Holds.kept {t t' : Indexed} {keys more : List String} (h : t.Holds keys)
    (h' : t'.Holds (keys ++ more)) :
    t.names <+: t'.names ∧
      ∀ (key : String) (x : Extent), t.extents[key]? = some x → t'.extents[key]? = some x := by
  refine ⟨⟨texts more, by simp [h.names, h'.names, texts]⟩, fun key x hx => ?_⟩
  obtain ⟨e, he, hkey, hextent⟩ := (h.extents key x).mp hx
  rw [h'.extents, laidOut_append]
  exact ⟨e, List.mem_append_left _ he, hkey, hextent⟩

theorem contains_run (history : List Request) (key : String) :
    (empty.run history).extents.contains key = true ↔ key ∈ asked history :=
  (run_holds history).contains_iff.trans List.mem_eraseDups

theorem run_append (t : Indexed) (past later : List Request) :
    t.run (past ++ later) = (t.run past).run later := List.foldl_append

theorem normalize_run (history : List Request) (path : String) :
    (empty.run history).normalize path
      = if IncludeKey.ofPath path ∈ asked history then IncludeKey.ofPath path
        else Text.lowercase (IncludeKey.ofPath path) := by
  simp only [normalize, contains_run]

/-- A path whose key is asked for has a registered key. -/
theorem contains_normalize_run (past : List Request) {later : List Request} (path : String)
    (h : .clear ∉ later) :
    let history := past ++ .register ((empty.run past).normalize path) :: later
    (empty.run history).extents.contains ((empty.run history).normalize path) = true := by
  intro history
  have hasked : asked past ++ [(empty.run past).normalize path] <+: asked history := by
    have hlater := asked_append (past ++ [.register ((empty.run past).normalize path)]) h
    rwa [List.append_assoc, asked, List.foldl_append] at hlater
  rw [contains_run, normalize_run]
  split
  · assumption
  · next hnot =>
    -- then the path did not have its own key before either
    have hbefore : IncludeKey.ofPath path ∉ asked past :=
      fun hmem => hnot (hasked.subset (List.mem_append_left _ hmem))
    rw [normalize_run, if_neg hbefore] at hasked
    exact hasked.subset (List.mem_append_right _ (List.mem_singleton_self _))

/-- Whatever a registry is asked for, a key is new if it was not asked for since the registry was
cleared, and later keys change neither an entry nor the texts before theirs.  The entries are those
of the keys asked for; each cuts its key out of the row of texts, and no two of them overlap.  In
whatever order the index gives its entries, the keys come back once each, all but the empty one in
the order of their registration.  A path has its own key if that is registered, and else the one in
small letters; once the key that it has is registered, it has a registered key until the registry is
cleared.  All this is what the functions of registries give. -/
theorem history_faithful (past later : List Request) (key path : String) :
    let t := Indexed.empty.run past
    let r := Registry.empty.run past
    ((Indexed.register key t).1 = .new ↔ key ∉ asked past) ∧
    (∀ key, t.extents.contains key = true ↔ key ∈ asked past) ∧
    (.clear ∉ later → t.names <+: (t.run later).names ∧
      ∀ (key : String) (x : Extent),
        t.extents[key]? = some x → (t.run later).extents[key]? = some x) ∧
    (∀ (key : String) (x : Extent), t.extents[key]? = some x →
      cut? t.names x.offset x.length = some key ∧ x.processed = true) ∧
    (∀ (key key' : String) (x x' : Extent),
      t.extents[key]? = some x → t.extents[key']? = some x' → key ≠ key' →
        x.offset + x.length ≤ x'.offset ∨ x'.offset + x'.length ≤ x.offset) ∧
    (∀ entries, entries.Perm t.extents.toList → ∃ given, t.keys? entries = some given ∧
      given.Nodup ∧ (∀ key, key ∈ given ↔ key ∈ asked past) ∧
      given.filter (· ≠ "") = (asked past).eraseDups.filter (· ≠ "") ∧
      r.keys = given.filter (· = "") ++ given.filter (· ≠ "")) ∧
    t.normalize path = (if IncludeKey.ofPath path ∈ asked past then IncludeKey.ofPath path
      else Text.lowercase (IncludeKey.ofPath path)) ∧
    (.clear ∉ later →
      let t' := (Indexed.register (t.normalize path) t).2.run later
      t'.extents.contains (t'.normalize path) = true) ∧
    t.names = r.names ∧
    (∀ (key : String) (x : Extent),
      t.extents[key]? = some x ↔ ∃ e ∈ r.entries, e.key = key ∧ extentOf e = x) ∧
    (Indexed.register key t).1 = (r.register key).1 ∧
    t.normalize path = r.normalize path := by
  intro t r
  have ht : t.Holds (asked past).eraseDups := run_holds past
  have hr : r = ofKeys (asked past).eraseDups := run_eq past
  have hkeys := nodup_eraseDups (asked past)
  refine ⟨?_, contains_run past, ?_, ?_, ?_, ?_, normalize_run past path, ?_, ?_, ?_, ?_, ?_⟩
  · simp [ht.registration]
  · intro hlater
    obtain ⟨more, hmore⟩ := asked_append past hlater
    have ht' : (t.run later).Holds (asked (past ++ later)).eraseDups := by
      rw [← run_append]
      exact run_holds (past ++ later)
    rw [← hmore, List.eraseDups_append] at ht'
    exact ht.kept ht'
  · intro key x hx
    obtain ⟨e, he, rfl, rfl⟩ := (ht.extents key x).mp hx
    rw [ht.names]
    exact ⟨cut?_texts he, rfl⟩
  · intro key key' x x' hx hx' hne
    obtain ⟨e, he, rfl, rfl⟩ := (ht.extents key x).mp hx
    obtain ⟨e', he', rfl, rfl⟩ := (ht.extents key' x').mp hx'
    exact apart_of_mem_laidOut he he' fun h => hne (congrArg RegistryEntry.key h)
  · intro entries hentries
    obtain ⟨given, hgiven, hperm, hfilter⟩ := ht.keys?_eq_some hkeys hentries
    refine ⟨given, hgiven, hperm.nodup_iff.mpr hkeys, fun key => ?_, hfilter, ?_⟩
    · rw [hperm.mem_iff, List.mem_eraseDups]
    · have hempty : given.filter (· = "") = (asked past).eraseDups.filter (· = "") := by
        refine @List.Perm.eq_of_pairwise _ (fun _ _ => True) _ _ (fun a b ha hb _ _ => ?_)
          (List.pairwise_of_forall fun _ _ => trivial) (List.pairwise_of_forall fun _ _ => trivial)
          (hperm.filter _)
        have hempty : ∀ {keys : List String} {key : String},
            key ∈ keys.filter (· = "") → key = "" := by simp
        rw [hempty ha, hempty hb]
      rw [hr, keys_ofKeys, hempty, hfilter]
  · intro hlater
    have hcontains := contains_normalize_run past path hlater
    simp only [run_append] at hcontains
    exact hcontains
  · rw [ht.names, hr]
    rfl
  · intro key x
    rw [ht.extents, hr]
    rfl
  · rw [ht.registration, hr, registration_ofKeys]
  · rw [normalize_run, hr, Registry.normalize]
    simp only [contains_ofKeys, List.mem_eraseDups]

end Indexed
end Registry
end Nss
