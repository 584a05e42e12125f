/-
# The events that an expansion meets

An expansion meets the events of the outermost unit one after the other, and those of an opened unit
right behind the directive that opens it.  A visit is an event with its position and the
registry with which it is met.

Two things hold of all visits, however units include one another:

    no position is visited twice     a unit is opened once, as it is registered then
    a key stays registered           from the directive that names it up to the end

`Tour` states both of the visits of a part of an expansion, with the registries before and after it.
-/
import Nss.Proofs.Include.Expansion

namespace Nss

/-- The position of an event: the number of events before it in its unit, which is the outermost one
or one that is opened. -/
structure Position where
  unit : Option String
  index : Nat
deriving DecidableEq, Repr

/-- An event that is met. -/
structure Visit where
  position : Position
  event : Event
  registry : Registry

namespace Visit

/-- The key of the directive that is met. -/
def key? (v : Visit) : Option String := v.event.path?.map v.registry.normalize

/-- The visit of a directive whose key is met for the first time. -/
def Activates (v : Visit) (key : String) : Prop :=
  v.key? = some key ∧ v.registry.contains key = false

/-- The visit of a directive that names a key, be it in capital letters or with directories. -/
def Asks (v : Visit) (key : String) : Prop :=
  v.event.path?.map (fun path => Text.lowercase (IncludeKey.ofPath path)) = some key

/-- The visit of a directive whose key is registered already. -/
def Repeats (v : Visit) : Prop := ∃ key, v.key? = some key ∧ v.registry.contains key = true

instance (v : Visit) (key : String) : Decidable (v.Activates key) :=
  inferInstanceAs (Decidable (_ ∧ _))

instance (v : Visit) (key : String) : Decidable (v.Asks key) :=
  inferInstanceAs (Decidable (_ = _))

end Visit

/-! ## Visits in order -/

namespace Expanded

variable {front : FrontEnd} {loader : Loader}
  {descend : Registry → String → Bytes → List Expanded × Registry}

/-- What an event is expanded to, and what registry it leaves. -/
def ofEvent (loader : Loader)
    (descend : Registry → String → Bytes → List Expanded × Registry) (r : Registry) :
    Event → Expanded × Registry
  | .problem d => (.problem d, r)
  | .declaration decl => (.declaration decl, r)
  | .inclusion path span => ofInclusion loader descend r path span

theorem ofEvents_cons (e : Event) (es : List Event) (r : Registry) :
    ofEvents loader descend r (e :: es)
      = ((ofEvent loader descend r e).1
          :: (ofEvents loader descend (ofEvent loader descend r e).2 es).1,
        (ofEvents loader descend (ofEvent loader descend r e).2 es).2) := by
  cases e with
  | problem d | declaration decl => rfl
  | inclusion path span => exact ofEvents_inclusion path span es r

end Expanded

namespace Visit

/-- The visits of the unit that an event opens.  `look` gives the visits of a unit. -/
def ofOpened (loader : Loader) (look : Registry → String → Bytes → List Visit) (r : Registry) :
    Event → List Visit
  | .problem _ | .declaration _ => []
  | .inclusion path _ =>
    let key := r.normalize path
    if r.contains key then []
    else
      match loader.load key with
      | .error _ => []
      | .ok source => look (r.register key).2 key source

/-- The visits of some events of a unit, `n` of which stand before them. -/
def ofEvents (loader : Loader)
    (descend : Registry → String → Bytes → List Expanded × Registry)
    (look : Registry → String → Bytes → List Visit) (unit : Option String) :
    Nat → Registry → List Event → List Visit
  | _, _, [] => []
  | n, r, e :: es =>
    ⟨⟨unit, n⟩, e, r⟩ :: (ofOpened loader look r e
      ++ ofEvents loader descend look unit (n + 1) (Expanded.ofEvent loader descend r e).2 es)

/-- The visits of a unit, directives being followed `n` deep. -/
def ofUnit (front : FrontEnd) (loader : Loader) : Nat → Registry → String → Bytes → List Visit
  | 0, _, _, _ => []
  | n + 1, r, unit, source =>
    ofEvents loader (Expanded.ofUnit front loader n) (ofUnit front loader n) (some unit) 0 r
      (front unit (Bytes.toText source))

/-- The visits of an outermost unit whose events are given. -/
def ofRootEvents (front : FrontEnd) (loader : Loader) (r : Registry) (es : List Event) :
    List Visit :=
  ofEvents loader (Expanded.ofUnit front loader loader.supply) (ofUnit front loader loader.supply)
    none 0 r es

/-- Of two visits the later one is of another position, and finds the key of the former registered. -/
def Before (v w : Visit) : Prop :=
  v.position ≠ w.position ∧ ∀ key, v.key? = some key → w.registry.contains key = true

/-! ## Directives that are repeated -/

/-- A key that is registered in small letters is found, however it is written. -/
theorem contains_normalize {r : Registry} {path : String}
    (h : r.contains (Text.lowercase (IncludeKey.ofPath path)) = true) :
    r.contains (r.normalize path) = true := by
  rw [Registry.normalize]
  split
  · assumption
  · exact h

/-- A directive for a key that was met before is repeated. -/
theorem repeats_of_before {v w : Visit} {key : String} (hbefore : v.Before w)
    (hv : v.key? = some key) (hw : w.Asks key) : w.Repeats := by
  obtain ⟨path, hpath, rfl⟩ := Option.map_eq_some_iff.mp hw
  refine ⟨w.registry.normalize path, ?_, contains_normalize (hbefore.2 _ hv)⟩
  rw [key?, hpath, Option.map_some]

end Visit

/-! ## The order of visits -/

/-- What holds of the visits of some events of a unit, the first of which has the number `n`: they
are in order, they are of positions that were not visited, and every key is registered in the end. -/
structure Tour (unit : Option String) (n : Nat) (r : Registry) (visits : List Visit)
    (r' : Registry) : Prop where
  grows : r.Grows r'
  starts : ∀ v ∈ visits, r.Grows v.registry
  ends : ∀ v ∈ visits, ∀ key, v.key? = some key → r'.contains key = true
  positions : ∀ v ∈ visits, (v.position.unit = unit ∧ n ≤ v.position.index) ∨
    ∃ key, v.position.unit = some key ∧ r.contains key = false ∧ r'.contains key = true
  order : visits.Pairwise Visit.Before

namespace Tour

variable {unit : Option String} {n : Nat} {r r₁ r₂ r' : Registry} {inner rest : List Visit}

theorem nil (unit : Option String) (n : Nat) (r : Registry) : Tour unit n r [] r where
  grows := .refl r
  starts := List.forall_mem_nil _
  ends := List.forall_mem_nil _
  positions := List.forall_mem_nil _
  order := .nil

/-- A tour through an opened unit is none through the unit around it. -/
theorem opened {key : String} (hnew : r.contains key = false)
    (h : Tour (some key) 0 (r.register key).2 inner r') :
    ∀ v ∈ inner, ∃ k, v.position.unit = some k ∧ r.contains k = false ∧ r'.contains k = true := by
  intro v hv
  rcases h.positions v hv with ⟨hunit, -⟩ | ⟨k, hk, hbefore, hafter⟩
  · exact ⟨key, hunit, hnew, h.grows key (r.contains_register_self key)⟩
  · exact ⟨k, hk, (Registry.Grows.register r key).not_contains hbefore, hafter⟩

/-- A tour begins with an event and with the unit that it opens. -/
theorem cons {e : Event} (hunit : ∀ k, unit = some k → r.contains k = true)
    (hopened : r.Grows r₁) (hstarts : ∀ v ∈ inner, r.Grows v.registry ∧
      ∀ k, (Visit.mk ⟨unit, n⟩ e r).key? = some k → v.registry.contains k = true)
    (hkey : ∀ k, (Visit.mk ⟨unit, n⟩ e r).key? = some k → r₁.contains k = true)
    (hends : ∀ v ∈ inner, ∀ k, v.key? = some k → r₁.contains k = true)
    (hpositions : ∀ v ∈ inner, ∃ k, v.position.unit = some k ∧ r.contains k = false ∧
      r₁.contains k = true)
    (horder : inner.Pairwise Visit.Before) (hrest : Tour unit (n + 1) r₁ rest r') :
    Tour unit n r (⟨⟨unit, n⟩, e, r⟩ :: (inner ++ rest)) r' where
  grows := hopened.trans hrest.grows
  starts := by
    simp only [List.forall_mem_cons, List.forall_mem_append]
    exact ⟨.refl r, fun v hv => (hstarts v hv).1, fun v hv => hopened.trans (hrest.starts v hv)⟩
  ends := by
    simp only [List.forall_mem_cons, List.forall_mem_append]
    exact ⟨fun k hk => hrest.grows k (hkey k hk),
      fun v hv k hk => hrest.grows k (hends v hv k hk), hrest.ends⟩
  positions := by
    refine List.forall_mem_cons.mpr ⟨.inl ⟨rfl, Nat.le_refl n⟩, List.forall_mem_append.mpr ⟨?_, ?_⟩⟩
    · intro v hv
      obtain ⟨k, hk, hbefore, hafter⟩ := hpositions v hv
      exact .inr ⟨k, hk, hbefore, hrest.grows k hafter⟩
    · intro v hv
      rcases hrest.positions v hv with ⟨hsame, hle⟩ | ⟨k, hk, hbefore, hafter⟩
      · exact .inl ⟨hsame, Nat.le_of_succ_le hle⟩
      · exact .inr ⟨k, hk, hopened.not_contains hbefore, hafter⟩
  order := by
    -- a unit that is opened is not the one around it
    have hother : ∀ v ∈ inner, v.position.unit ≠ unit := by
      rintro v hv rfl
      obtain ⟨k, hk, hbefore, -⟩ := hpositions v hv
      rw [hunit k hk] at hbefore
      cases hbefore
    refine List.pairwise_cons.mpr ⟨?_, List.pairwise_append.mpr ⟨horder, hrest.order, ?_⟩⟩
    · simp only [List.forall_mem_append]
      constructor
      · intro v hv
        refine ⟨?_, (hstarts v hv).2⟩
        rintro hposition
        exact hother v hv (congrArg Position.unit hposition).symm
      · intro v hv
        refine ⟨?_, fun k hk => hrest.starts v hv k (hkey k hk)⟩
        rintro hposition
        rcases hrest.positions v hv with ⟨-, hle⟩ | ⟨k, hk, hbefore, -⟩
        · rw [← hposition] at hle
          exact absurd hle (Nat.not_succ_le_self n)
        · rw [← hposition] at hk
          rw [hopened k (hunit k hk)] at hbefore
          cases hbefore
    · intro v hv w hw
      refine ⟨?_, fun k hk => hrest.starts w hw k (hends v hv k hk)⟩
      rintro hposition
      rcases hrest.positions w hw with ⟨hsame, -⟩ | ⟨k, hk, hbefore, -⟩
      · exact hother v hv (hposition ▸ hsame)
      · obtain ⟨k', hk', -, hafter⟩ := hpositions v hv
        rw [hposition, hk] at hk'
        obtain rfl := Option.some.inj hk'
        rw [hbefore] at hafter
        cases hafter

/-- A tour begins with an event that opens no unit. -/
theorem event {e : Event} (hunit : ∀ k, unit = some k → r.contains k = true) (hgrows : r.Grows r₁)
    (hkey : ∀ k, (Visit.mk ⟨unit, n⟩ e r).key? = some k → r₁.contains k = true)
    (hrest : Tour unit (n + 1) r₁ rest r') :
    Tour unit n r (⟨⟨unit, n⟩, e, r⟩ :: ([] ++ rest)) r' :=
  .cons hunit hgrows (List.forall_mem_nil _) hkey (List.forall_mem_nil _) (List.forall_mem_nil _)
    .nil hrest

end Tour

namespace Visit

variable {front : FrontEnd} {loader : Loader}
  {descend : Registry → String → Bytes → List Expanded × Registry}
  {look : Registry → String → Bytes → List Visit}

/-- The events of a unit are visited in order if those of the units it opens are. -/
theorem tour_ofEvents
    (hlook : ∀ r key source, r.contains key = true →
      Tour (some key) 0 r (look r key source) (descend r key source).2)
    {unit : Option String} {es : List Event} {n : Nat} {r : Registry}
    (hunit : ∀ k, unit = some k → r.contains k = true) :
    Tour unit n r (ofEvents loader descend look unit n r es)
      (Expanded.ofEvents loader descend r es).2 := by
  induction es generalizing n r with
  | nil => exact .nil unit n r
  | cons e es ih =>
      rw [Expanded.ofEvents_cons, ofEvents]
      cases e with
      | problem d => exact .event hunit (.refl r) nofun (ih hunit)
      | declaration decl => exact .event hunit (.refl r) nofun (ih hunit)
      | inclusion path span =>
          have hkey (k : String) : (Visit.mk ⟨unit, n⟩ (.inclusion path span) r).key? = some k ↔
              r.normalize path = k := Option.some_inj
          simp only [ofOpened, Expanded.ofEvent, Expanded.ofInclusion]
          cases hnew : r.contains (r.normalize path) with
          | true =>
              refine .event hunit (.refl r) ?_ (ih hunit)
              intro k hk
              rw [← (hkey k).mp hk, hnew]
          | false =>
              have hself := r.contains_register_self (r.normalize path)
              have hgrows := Registry.Grows.register r (r.normalize path)
              cases hload : loader.load (r.normalize path) with
              | error err =>
                  refine .event hunit hgrows ?_ (ih fun k hk => hgrows k (hunit k hk))
                  intro k hk
                  rw [← (hkey k).mp hk]
                  exact hself
              | ok source =>
                  have htour := hlook _ (r.normalize path) source hself
                  have hopened := hgrows.trans htour.grows
                  refine .cons hunit hopened ?_ ?_ htour.ends (htour.opened hnew) htour.order
                    (ih fun k hk => hopened k (hunit k hk))
                  · intro v hv
                    refine ⟨hgrows.trans (htour.starts v hv), ?_⟩
                    intro k hk
                    rw [← (hkey k).mp hk]
                    exact htour.starts v hv _ hself
                  · intro k hk
                    rw [← (hkey k).mp hk]
                    exact htour.grows _ hself

theorem tour_ofUnit (front : FrontEnd) (loader : Loader) (n : Nat) :
    ∀ (r : Registry) (unit : String) (source : Bytes), r.contains unit = true →
      Tour (some unit) 0 r (ofUnit front loader n r unit source)
        (Expanded.ofUnit front loader n r unit source).2 := by
  induction n with
  | zero =>
      intro r unit source _
      exact .nil (some unit) 0 r
  | succ n ih =>
      intro r unit source hunit
      refine tour_ofEvents ih ?_
      rintro k ⟨⟩
      exact hunit

/-- All events of an emission are visited in order. -/
theorem tour_ofRootEvents (front : FrontEnd) (loader : Loader) (r : Registry) (es : List Event) :
    Tour none 0 r (ofRootEvents front loader r es)
      (Expanded.ofRootEvents front loader r es).2 :=
  tour_ofEvents (tour_ofUnit front loader _) nofun

/-- A directive that asks for a key once it was activated is repeated, and its position is visited
once. -/
theorem repeats_at {r : Registry} {es : List Event} {m n : Nat} {v w : Visit} {key : String}
    (hv : (ofRootEvents front loader r es)[m]? = some v)
    (hw : (ofRootEvents front loader r es)[n]? = some w) (hlt : m < n) (hkey : v.Activates key)
    (hasks : w.Asks key) :
    ∀ u ∈ ofRootEvents front loader r es, u.position = w.position → u.Repeats := by
  have horder := (tour_ofRootEvents front loader r es).order
  obtain ⟨hm, rfl⟩ := List.getElem?_eq_some_iff.mp hv
  obtain ⟨hn, rfl⟩ := List.getElem?_eq_some_iff.mp hw
  have hordered := List.pairwise_iff_getElem.mp horder
  have hrepeats := repeats_of_before (hordered m n hm hn hlt) hkey.1 hasks
  intro u hu hposition
  obtain ⟨i, hi, rfl⟩ := List.getElem_of_mem hu
  rcases Nat.lt_trichotomy i n with hin | rfl | hni
  · exact absurd hposition (hordered i n hi hn hin).1
  · exact hrepeats
  · exact absurd hposition.symm (hordered n i hn hi hni).1

end Visit

end Nss
