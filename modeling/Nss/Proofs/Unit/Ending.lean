/-
# Emissions end

An emission whose loader has no more units than it says is a walk over the events of its unit, so
that it ends however units include one another.  The induction is on the depth to which directives
are followed: it is enough if it goes beyond the number of keys still to be read, which every opened
unit makes smaller, and the walk leaves the same registry as the expansion.

With that, `emitRoot_ends` says of every emission what `Travels` says of its walk.
-/
import Mathlib.Data.List.Dedup
import Mathlib.Data.List.Perm.Subperm
import Nss.Proofs.Unit.Walk

namespace Nss

open Steps

/-! ## Emissions are walks -/

namespace Expanded

variable {loader : Loader} {descend : Registry → String → Bytes → List Expanded × Registry}
  {r : Registry} {path : String} {span : Span}

theorem ofInclusion_repeated (h : r.contains (r.normalize path) = true) :
    ofInclusion loader descend r path span = (.repeated (r.normalize path), r) := by
  rw [ofInclusion, if_pos h]

theorem ofInclusion_missing {e : Error} (h : r.contains (r.normalize path) = false)
    (hload : loader.load (r.normalize path) = .error e) :
    ofInclusion loader descend r path span
      = (.missing (r.normalize path) path span, (r.register (r.normalize path)).2) := by
  rw [ofInclusion, if_neg (by rw [h]; exact Bool.false_ne_true), hload]

theorem ofInclusion_opened {source : Bytes} (h : r.contains (r.normalize path) = false)
    (hload : loader.load (r.normalize path) = .ok source) :
    ofInclusion loader descend r path span
      = (.opened (r.normalize path) source
          (descend (r.register (r.normalize path)).2 (r.normalize path) source).1,
        (descend (r.register (r.normalize path)).2 (r.normalize path) source).2) := by
  rw [ofInclusion, if_neg (by rw [h]; exact Bool.false_ne_true), hload]

/-- What is looked through is what the events are by themselves. -/
theorem scan_eq (front : FrontEnd) (unit : String) (source : Bytes) :
    scan front unit source = (front unit (Bytes.toText source)).filterMap Event.own? := by
  refine List.filterMap_congr ?_
  intro e _
  cases e with
  | problem d | declaration decl | inclusion path span => rfl

end Expanded

namespace Emit

open EmitState

variable {s : EmitState} {key : String} {source : Bytes} {content : Emit Unit}

/-- A unit of its own is emitted between entering and leaving it. -/
theorem nested_eq_leave {child : Instance}
    (hbegin : Instance.begin? addressable key source s.current.debug false = .ok child)
    (houter : (reached (content (s.entering key child))).outer = s.current :: s.outer) :
    nested key source content s = leave (content (s.entering key child)) := by
  rw [nested_apply, hbegin]
  dsimp only
  cases hcontent : content (s.entering key child) with
  | ok _ t =>
      rw [hcontent] at houter
      have houter : t.outer = s.current :: s.outer := houter
      rw [leave, houter]
  | error e t =>
      rw [hcontent] at houter
      have houter : t.outer = s.current :: s.outer := houter
      rw [leave, houter]

theorem nested_refused {error : Error}
    (hbegin : Instance.begin? addressable key source s.current.debug false = .error error) :
    nested key source content s = .error error (s.registering key) := by
  rw [nested_apply, hbegin]

end Emit

namespace Walk

open Emit EmitState

variable {front : FrontEnd} {loader : Loader} {mode : EmitMode} {u : UnitText} {es : List Event}
  {s : EmitState}

/-- Events are emitted as a walk over them, once they are expanded.  The registry that the expansion
leaves is that of the walk. -/
def Follows (front : FrontEnd) (loader : Loader) (u : UnitText) (es : List Event) (s : EmitState)
    (tree : List Expanded × Registry) : Prop :=
  (∃ log, Walk front loader .full u es s log (parts .full u tree.1 s)) ∧
    ∀ t, parts .full u tree.1 s = .ok () t → t.registry = tree.2

namespace Follows

variable {e : Event} {x : Expanded} {descend : Registry → String → Bytes → List Expanded × Registry}

/-- An event that is no directive is made before the others. -/
theorem own (hown : e.own? = some x)
    (ih : ∀ t, t.registry = s.registry →
      Follows front loader u es t (Expanded.ofEvents loader descend t.registry es)) :
    Follows front loader u (e :: es) s (Expanded.ofEvents loader descend s.registry (e :: es)) := by
  have htree : Expanded.ofEvents loader descend s.registry (e :: es)
      = (x :: (Expanded.ofEvents loader descend s.registry es).1,
        (Expanded.ofEvents loader descend s.registry es).2) := by
    cases e with
    | problem d | declaration decl =>
        obtain rfl := Option.some.inj hown
        rfl
    | inclusion path span => cases hown
  have hstays := own_stays hown .full u s
  rw [Follows, htree, parts, bind_apply]
  cases hpart : part .full u x s with
  | error error t =>
      dsimp only
      refine ⟨⟨[], .failed hown hpart⟩, ?_⟩
      intro t' ht'
      cases ht'
  | ok v t =>
      dsimp only
      rw [hpart] at hstays
      have hsame : t.registry = s.registry := hstays.registry
      have hrest := ih t hsame
      rw [Follows, hsame] at hrest
      obtain ⟨⟨log, hwalk⟩, hregistry⟩ := hrest
      exact ⟨⟨_, .own hown hpart hwalk⟩, hregistry⟩

end Follows

section

variable {keys : List String} {n : Nat}

open Expanded

/-- Units for which there is enough depth are emitted as walks over their events. -/
def FollowsUnits (front : FrontEnd) (loader : Loader) (keys : List String) (n : Nat) : Prop :=
  ∀ (key : String) (source : Bytes) (s : EmitState), unread keys s.registry < n →
    Follows front loader ⟨key, Bytes.toText source⟩ (front key (Bytes.toText source))
      s (ofUnit front loader n s.registry key source)

/-- A unit that is opened by a directive is emitted as a walk, and so is what follows it. -/
theorem follows_opened (hkeys : loader.Among keys)
    (hunits : FollowsUnits front loader keys n) (hn : unread keys s.registry ≤ n)
    (ih : ∀ t, unread keys t.registry ≤ n →
      Follows front loader u es t
        (ofEvents loader (ofUnit front loader n) t.registry es))
    {path key : String} {source : Bytes} (span : Span) (hkey : key = s.registry.normalize path)
    (hnew : s.registry.contains key = false)
    (hload : loader.load key = .ok source) :
    let inner := ofUnit front loader n (s.registry.register key).2 key source
    let rest := ofEvents loader (ofUnit front loader n) inner.2 es
    Follows front loader u (.inclusion path span :: es) s
      (.opened key source inner.1 :: rest.1, rest.2) := by
  intro inner rest
  rw [Follows, parts, part, bind_apply]
  cases hbegin : Instance.begin? addressable key source s.current.debug false with
  | error error =>
      have hturn : s.turn loader path = .refused error := by
        simp only [turn, ← hkey, hnew, hload, hbegin]
        rfl
      rw [nested_refused hbegin, hkey]
      dsimp only
      refine ⟨⟨_, .refused hturn⟩, ?_⟩
      intro t ht
      cases ht
  | ok child =>
      have hturn : s.turn loader path = .opened source child := by
        simp only [turn, ← hkey, hnew, hload, hbegin]
        rfl
      have hlt : unread keys (s.entering key child).registry < unread keys s.registry := by
        subst hkey
        exact unread_register_lt hkeys hnew hload
      have hcontent : Follows front loader ⟨key, Bytes.toText source⟩
          (front key (Bytes.toText source)) (s.entering key child) inner :=
        hunits key source (s.entering key child) (Nat.lt_of_lt_of_le hlt hn)
      obtain ⟨⟨log, hinner⟩, hregistry⟩ := hcontent
      have htravels := hinner.travels
      have hnested : nested key source (parts .full ⟨key, Bytes.toText source⟩ inner.1) s
          = leave (parts .full ⟨key, Bytes.toText source⟩ inner.1 (s.entering key child)) :=
        nested_eq_leave hbegin htravels.outer
      rw [hnested]
      generalize parts .full ⟨key, Bytes.toText source⟩ inner.1 (s.entering key child) = content at *
      have houter : (reached content).outer = s.current :: s.outer := htravels.outer
      obtain ⟨hsame, -⟩ := leave_outer houter
      cases hleave : leave content with
      | error error t =>
          dsimp only
          refine ⟨⟨_, .broken hkey hturn hinner hleave⟩, ?_⟩
          intro t' ht'
          cases ht'
      | ok v t =>
          dsimp only
          obtain ⟨t', rfl⟩ := leave_eq_ok hleave
          rw [hleave] at hsame
          have ht : t.registry = inner.2 := hsame.trans (hregistry t' rfl)
          have hle : unread keys t.registry ≤ n := by
            rw [ht]
            have hgrows := (Registry.Grows.register s.registry key).trans
              (ofUnit_grows front loader n _ key source)
            exact Nat.le_trans (unread_le_of_grows hgrows) hn
          have hrest := ih t hle
          rw [Follows, ht] at hrest
          obtain ⟨⟨log', hwalk⟩, hend⟩ := hrest
          exact ⟨⟨_, .opened hkey hturn hinner hleave hwalk⟩, hend⟩

/-- Events for which there is enough depth are emitted as a walk over them. -/
theorem follows_ofEvents (hkeys : loader.Among keys) (hunits : FollowsUnits front loader keys n)
    (u : UnitText) :
    ∀ (es : List Event) (s : EmitState), unread keys s.registry ≤ n →
      Follows front loader u es s
        (ofEvents loader (ofUnit front loader n) s.registry es)
  | [], s, _ => by
      refine ⟨⟨[], .done⟩, ?_⟩
      intro t ht
      rw [ofEvents, parts] at ht
      obtain rfl := (EStateM.Result.ok.inj ht).2
      rfl
  | .problem d :: es, s, hn =>
      .own rfl fun t ht => follows_ofEvents hkeys hunits u es t (ht ▸ hn)
  | .declaration decl :: es, s, hn =>
      .own rfl fun t ht => follows_ofEvents hkeys hunits u es t (ht ▸ hn)
  | .inclusion path span :: es, s, hn => by
      have ih := follows_ofEvents hkeys hunits u es
      rw [ofEvents_inclusion]
      cases hnew : s.registry.contains (s.registry.normalize path) with
      | true =>
          rw [ofInclusion_repeated hnew]
          have hturn : s.turn loader path = .repeated := by
            rw [turn, if_pos hnew]
          obtain ⟨⟨log, hwalk⟩, hregistry⟩ := ih s hn
          exact ⟨⟨_, .repeated hturn hwalk⟩, hregistry⟩
      | false =>
          cases hload : loader.load (s.registry.normalize path) with
          | ok source =>
              rw [ofInclusion_opened hnew hload]
              exact follows_opened hkeys hunits hn ih span rfl hnew hload
          | error e =>
              rw [ofInclusion_missing hnew hload]
              have hturn : s.turn loader path = .missing := by
                simp only [turn, hnew, hload]
                rfl
              have hmissing := part_missing_apply .full u (s.registry.normalize path) path span s
              have hle : unread keys (s.registry.register (s.registry.normalize path)).2 ≤ _ :=
                unread_le_of_grows (.register s.registry (s.registry.normalize path))
              obtain ⟨⟨log, hwalk⟩, hregistry⟩ := ih
                ((s.registering (s.registry.normalize path)).reports u
                  [.error (.cannotOpenInclude path) span]) (Nat.le_trans hle hn)
              rw [Follows, parts, bind_apply, hmissing]
              exact ⟨⟨_, .missing hturn hmissing hwalk⟩, hregistry⟩

/-- A depth beyond the number of keys still to be read is enough. -/
theorem followsUnits (front : FrontEnd) (hkeys : loader.Among keys) :
    ∀ n, FollowsUnits front loader keys n
  | 0 => fun _ _ _ hn => absurd hn (Nat.not_lt_zero _)
  | n + 1 => fun key source s hn =>
      follows_ofEvents hkeys (followsUnits front hkeys n) ⟨key, Bytes.toText source⟩
        (front key (Bytes.toText source)) s (Nat.le_of_lt_succ hn)

end

/-- A unit is looked through as a walk that passes its directives. -/
theorem walk_scan (front : FrontEnd) (loader : Loader) (u : UnitText) :
    ∀ (es : List Event) (s : EmitState),
      ∃ log, Walk front loader .scanOnly u es s log (parts .scanOnly u (es.filterMap Event.own?) s) := by
  intro es
  induction es with
  | nil => exact fun s => ⟨[], .done⟩
  | cons e es ih =>
      intro s
      cases hown : e.own? with
      | some x =>
          rw [List.filterMap_cons_some hown, parts, bind_apply]
          cases hpart : part .scanOnly u x s with
          | error error t => exact ⟨[], .failed hown hpart⟩
          | ok v t =>
              obtain ⟨log, hwalk⟩ := ih t
              exact ⟨log, .own hown hpart hwalk⟩
      | none =>
          rw [List.filterMap_cons_none hown]
          cases e with
          | inclusion path span =>
              obtain ⟨log, hwalk⟩ := ih s
              exact ⟨log, .passed hwalk⟩
          | problem d | declaration decl => cases hown

/-- What a unit consists of is emitted as a walk over its events. -/
theorem walk_content (front : FrontEnd) (hbounded : loader.Bounded) (mode : EmitMode)
    (unit : String) (source : Bytes) (s : EmitState) :
    ∃ log, Walk front loader mode ⟨unit, Bytes.toText source⟩
      (front unit (Bytes.toText source)) s log
      (parts mode ⟨unit, Bytes.toText source⟩
        (content front loader mode s.registry unit source) s) := by
  cases mode with
  | full =>
      obtain ⟨keys, hkeys⟩ := hbounded
      have hlt : Expanded.unread keys s.registry < loader.supply + 1 :=
        Nat.lt_succ_of_le (Expanded.unread_le_supply hkeys s.registry)
      exact (followsUnits front hkeys _ unit source s hlt).1
  | scanOnly =>
      rw [content, Expanded.scan_eq]
      exact walk_scan front loader _ _ s

end Walk

/-! ## Outermost units -/

/-- The outermost unit is emitted: its events, and then its end. -/
inductive Emission (front : FrontEnd) (loader : Loader) (mode : EmitMode) :
    EmitState → List Encounter → EStateM.Result Error EmitState Unit → Prop
  | destroyed {s : EmitState} :
      s.current.source.bytes? = none → Emission front loader mode s [] (.error .instanceDestroyed s)
  | failed {s t : EmitState} {source : Bytes} {log : List Encounter} {error : Error} :
      s.current.source.bytes? = some source →
      Walk front loader mode ⟨s.current.name, Bytes.toText source⟩
        (front s.current.name (Bytes.toText source)) s log (.error error t) →
      Emission front loader mode s log (.error error t)
  | finished {s t : EmitState} {source : Bytes} {log : List Encounter} :
      s.current.source.bytes? = some source →
      Walk front loader mode ⟨s.current.name, Bytes.toText source⟩
        (front s.current.name (Bytes.toText source)) s log (.ok () t) →
      Emission front loader mode s log (Emit.finish mode t)

namespace Emission

open Emit EmitState

variable {front : FrontEnd} {loader : Loader} {mode : EmitMode} {s : EmitState}
  {log log' : List Encounter} {r r' : EStateM.Result Error EmitState Unit}

/-- An emission ends in one way only. -/
theorem unique (h : Emission front loader mode s log r)
    (h' : Emission front loader mode s log' r') : log' = log ∧ r' = r := by
  cases h with
  | destroyed hsource =>
      cases h' with
      | destroyed => exact ⟨rfl, rfl⟩
      | failed hsource' | finished hsource' => cases hsource.symm.trans hsource'
  | failed hsource hwalk =>
      cases h' with
      | destroyed hsource' => cases hsource.symm.trans hsource'
      | failed hsource' hwalk' =>
          obtain rfl := Option.some.inj (hsource.symm.trans hsource')
          exact hwalk.unique hwalk'
      | finished hsource' hwalk' =>
          obtain rfl := Option.some.inj (hsource.symm.trans hsource')
          cases (hwalk.unique hwalk').2
  | finished hsource hwalk =>
      cases h' with
      | destroyed hsource' => cases hsource.symm.trans hsource'
      | failed hsource' hwalk' =>
          obtain rfl := Option.some.inj (hsource.symm.trans hsource')
          cases (hwalk.unique hwalk').2
      | finished hsource' hwalk' =>
          obtain rfl := Option.some.inj (hsource.symm.trans hsource')
          obtain ⟨rfl, heq⟩ := hwalk.unique hwalk'
          obtain rfl := (EStateM.Result.ok.inj heq).2
          exact ⟨rfl, rfl⟩

theorem addLoader_stays (s : EmitState) : s.Stays (reached (addLoader s)) := by
  rw [addLoader_apply]
  split
  · exact ⟨rfl, rfl⟩
  · obtain ⟨hregistry, houter⟩ := addBody_stays _ _ _
    exact ⟨hregistry, houter⟩

theorem concluded_stays (s : EmitState) : s.Stays s.concluded := by
  rw [concluded]
  split
  · exact ⟨rfl, rfl⟩
  · exact ⟨rfl, rfl⟩

/-- The end of the outermost unit is made in its place. -/
theorem finish_stays (mode : EmitMode) (s : EmitState) : s.Stays (reached (finish mode s)) := by
  have hconcluded := concluded_stays s
  rw [finish_apply]
  cases mode with
  | scanOnly => exact hconcluded
  | full =>
      have hload := addLoader_stays s.concluded
      exact ⟨hload.registry.trans hconcluded.registry, hload.outer.trans hconcluded.outer⟩

/-- What holds of every walk holds of every emission. -/
theorem tracked {R : EmitState → List Encounter → EmitState → Prop} (hR : Walk.Tracks loader R)
    (h : Emission front loader mode s log r) : R s log (reached r) := by
  cases h with
  | destroyed => exact hR.stays ⟨rfl, rfl⟩
  | failed _ hwalk => exact (hwalk.tracked hR).2
  | finished _ hwalk =>
      have hall := hR.trans (hwalk.tracked hR).2 (hR.stays (finish_stays mode _))
      rw [List.append_nil] at hall
      exact hall

/-- What an emission does to the stack and to the registry, however it ends. -/
theorem travels (h : Emission front loader mode s log r) : s.Travels loader log (reached r) :=
  h.tracked (Walk.tracks_travels loader)

/-- The outermost unit is emitted in this way. -/
theorem of_root (front : FrontEnd) (hbounded : loader.Bounded) (mode : EmitMode)
    (hs : s.entrySeen = false) :
    ∃ log, Emission front loader mode s log (root front loader mode s) := by
  have hstart : { s with entrySeen := false } = s := by
    rw [← hs]
  rw [root_apply, hstart]
  cases hsource : s.current.source.bytes? with
  | none => exact ⟨[], .destroyed hsource⟩
  | some source =>
      dsimp only
      obtain ⟨log, hwalk⟩ := Walk.walk_content front hbounded mode s.current.name source s
      rw [bind_apply]
      cases hparts : parts mode ⟨s.current.name, Bytes.toText source⟩
          (content front loader mode s.registry s.current.name source) s with
      | error error t =>
          rw [hparts] at hwalk
          exact ⟨log, .failed hsource hwalk⟩
      | ok v t =>
          rw [hparts] at hwalk
          exact ⟨log, .finished hsource hwalk⟩

end Emission

/-! ## Emissions of a stack of instances -/

/-- The unit of the innermost of some instances is emitted. -/
inductive RootEmission (front : FrontEnd) (loader : Loader) (mode : EmitMode) :
    List Instance → Registry → Symbols → List Encounter → Emitted → Prop
  | empty {registry : Registry} {symbols : Symbols} :
      RootEmission front loader mode [] registry symbols []
        ⟨[], registry, symbols, .error .instanceDestroyed⟩
  | innermost {i : Instance} {outer : List Instance} {registry : Registry} {symbols : Symbols}
      {log : List Encounter} {r : EStateM.Result Error EmitState Unit} :
      Emission front loader mode (.start i outer registry symbols) log r →
      RootEmission front loader mode (i :: outer) registry symbols log (.ofResult r)

/-- The unit of an instance is emitted as the outermost one. -/
theorem Emission.innermost {front : FrontEnd} {loader : Loader} {mode : EmitMode} {i : Instance}
    {outer : List Instance} {registry : Registry} {symbols : Symbols} {log : List Encounter}
    (h : Emission front loader mode (.start i outer registry symbols) log
      (Emit.root front loader mode (.start i outer registry symbols))) :
    RootEmission front loader mode (i :: outer) registry symbols log
      (emitRoot front loader mode (i :: outer) registry symbols) := by
  rw [emitRoot_cons]
  exact .innermost h

/-- The names of the files that sources come from, each of them once. -/
def Loader.fileNames (sources : List (String × Bytes)) : List String :=
  (sources.map fun s => Text.lowercase s.1).dedup

/-- A source that is found under a key in small letters is in the file of that name. -/
theorem Loader.mem_fileNames {sources : List (String × Bytes)} {key : String} {source : Bytes}
    (hload : (Loader.ofSources sources).load key = .ok source) (hsmall : Text.lowercase key = key) :
    key ∈ Loader.fileNames sources := by
  obtain ⟨s, hs, hkey⟩ := Loader.mem_of_load_ofSources hload
  rw [Loader.fileNames, List.mem_dedup]
  exact List.mem_map.mpr ⟨s, hs, hkey.trans hsmall⟩

/-- Units are walked through no more often than there are files. -/
theorem EmitState.Travels.length_le {sources : List (String × Bytes)} {s t : EmitState}
    {log : List Encounter} (h : s.Travels (.ofSources sources) log t) :
    (Encounter.openedKeys log).length ≤ (Loader.fileNames sources).length := by
  refine (List.subperm_of_subset h.nodup ?_).length_le
  intro key hkey
  obtain ⟨source, hload⟩ := h.loaded key hkey
  exact Loader.mem_fileNames hload (h.small key hkey)

/-- An emission ends, whatever units include one another, and it ends in one way only.  The units
that are walked through on the way have different keys, none of which was registered before; there
are no more of them than files, and so the stack is never higher than before by more than that.  In
the end, also after an error, the stack has all instances around the one at hand as before, and the
registry begins with what it held before. -/
theorem emitRoot_ends (front : FrontEnd) (sources : List (String × Bytes)) (mode : EmitMode)
    (stack : List Instance) (registry : Registry) (symbols : Symbols) :
    let e := emitRoot front (.ofSources sources) mode stack registry symbols
    ∃ log, RootEmission front (.ofSources sources) mode stack registry symbols log e ∧
      (∀ log' e', RootEmission front (.ofSources sources) mode stack registry symbols log' e' →
        log' = log ∧ e' = e) ∧
      (Encounter.openedKeys log).Nodup ∧
      (∀ key ∈ Encounter.openedKeys log, registry.contains key = false) ∧
      (Encounter.openedKeys log).length ≤ (Loader.fileNames sources).length ∧
      (∀ m ∈ log, ∀ height, m.height? = some height →
        height ≤ stack.length + (Loader.fileNames sources).length) ∧
      e.stack.length = stack.length ∧ e.stack.tail = stack.tail ∧
      registry.Continues e.registry := by
  cases stack with
  | nil =>
      refine ⟨[], .empty, ?_, .nil, List.forall_mem_nil _, Nat.zero_le _, List.forall_mem_nil _, rfl,
        rfl, .refl _⟩
      rintro log' e' ⟨⟩
      exact ⟨rfl, rfl⟩
  | cons i outer =>
      obtain ⟨log, hemission⟩ :=
        Emission.of_root (s := .start i outer registry symbols) front (Loader.bounded_ofSources sources) mode
          rfl
      have htravels := hemission.travels
      have hlength := htravels.length_le
      rw [emitRoot_cons]
      generalize Emit.root front (.ofSources sources) mode (.start i outer registry symbols) = r at *
      have houter : (Emitted.ofResult r).stack.tail = outer := by
        cases r with
        | ok v t | error e t => exact htravels.outer
      have hstack : (Emitted.ofResult r).stack.length = outer.length + 1 := by
        cases r with
        | ok v t | error e t => exact congrArg (·.length + 1) htravels.outer
      have hregistry : registry.Continues (Emitted.ofResult r).registry := by
        cases r with
        | ok v t | error e t => exact htravels.registry
      refine ⟨log, .innermost hemission, ?_, htravels.nodup, htravels.fresh, hlength, ?_, hstack,
        houter, hregistry⟩
      · rintro log' e' ⟨hemission'⟩
        obtain ⟨rfl, rfl⟩ := hemission.unique ‹_›
        exact ⟨rfl, rfl⟩
      · intro m hm height hheight
        have hle := htravels.heights m hm height hheight
        have hstart : (EmitState.start i outer registry symbols).stack.length = (i :: outer).length :=
          rfl
        omega

end Nss
