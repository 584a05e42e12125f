/-
# Walks through units

An expansion follows the directives of a unit beforehand, and no deeper than its bound allows.  A
walk knows neither: it takes the events of a unit one after the other and asks the registry at each
directive, as that is by then.  The instance of an opened unit is put on the stack, and taken off
again when the walk through the unit is over, be it by an error.

    own events       made as they are
    directives       repeated | missing | refused | opened, by `EmitState.turn`
    opened units     walked through from `entering` to `leave`

A walk can end in one way only (`Walk.unique`).  What holds of single events holds of every walk, by
induction on the walk (`Walk.tracked`).  One such relation is `Travels`, which tells what a walk does
to the stack and to the registry: whatever was registered stays where it was, and a unit is opened
only if its key was not.
-/
import Nss.Proofs.Include.Expansion
import Nss.Proofs.Unit.Course

namespace Nss

/-! ## Registries that go on -/

namespace Registry

/-- A registry holds what another one does, and more behind it. -/
structure Continues (r r' : Registry) : Prop where
  names : r.names <+: r'.names
  entries : r.entries <+: r'.entries

namespace Continues

variable {r r' r'' : Registry}

theorem refl (r : Registry) : r.Continues r := ⟨List.prefix_rfl, List.prefix_rfl⟩

theorem trans (h : r.Continues r') (h' : r'.Continues r'') : r.Continues r'' :=
  ⟨h.names.trans h'.names, h.entries.trans h'.entries⟩

theorem register (r : Registry) (key : String) : r.Continues (r.register key).2 := by
  rw [Registry.register]
  split
  · exact .refl r
  · exact ⟨List.prefix_append _ _, List.prefix_append _ _⟩

theorem grows (h : r.Continues r') : Registry.Grows r r' := by
  intro key hkey
  obtain ⟨e, he, heq⟩ := List.any_eq_true.mp hkey
  exact List.any_eq_true.mpr ⟨e, h.entries.subset he, heq⟩

end Continues

end Registry

/-! ## Directives that are met -/

/-- What becomes of a directive. -/
inductive Fate where
  /-- Its unit was met before. -/
  | repeated
  /-- Its unit cannot be loaded. -/
  | missing
  /-- There is no memory for an instance of its unit. -/
  | refused
  /-- Its unit is walked through, with so many instances on the stack. -/
  | opened (height : Nat)
deriving DecidableEq, Repr

/-- A directive that is met, with the key of its unit. -/
structure Encounter where
  path : String
  key : String
  fate : Fate
deriving DecidableEq, Repr

namespace Encounter

/-- The number of instances on the stack when the unit of a directive is walked through. -/
def height? (m : Encounter) : Option Nat :=
  match m.fate with
  | .opened height => some height
  | .repeated | .missing | .refused => none

/-- The key of a directive whose unit is walked through. -/
def openedKey? (m : Encounter) : Option String := m.height?.map fun _ => m.key

/-- The keys of the units that are walked through. -/
def openedKeys (log : List Encounter) : List String := log.filterMap openedKey?

theorem openedKeys_append (log log' : List Encounter) :
    openedKeys (log ++ log') = openedKeys log ++ openedKeys log' :=
  List.filterMap_append

theorem openedKeys_cons (path key : String) (height : Nat) (log : List Encounter) :
    openedKeys (⟨path, key, .opened height⟩ :: log) = key :: openedKeys log :=
  rfl

end Encounter

/-- Where a directive leads. -/
inductive Turn where
  | repeated
  | missing
  | refused (error : Error)
  | opened (source : Bytes) (child : Instance)

namespace EmitState

/-- Where a directive leads in a state of an emission. -/
def turn (loader : Loader) (s : EmitState) (path : String) : Turn :=
  let key := s.registry.normalize path
  if s.registry.contains key then .repeated
  else
    match loader.load key with
    | .error _ => .missing
    | .ok source =>
      match Instance.begin? addressable key source s.current.debug false with
      | .error e => .refused e
      | .ok child => .opened source child

end EmitState

namespace Emit

/-- The state that a part of an emission ends in. -/
def reached : EStateM.Result Error EmitState Unit → EmitState
  | .ok _ t => t
  | .error _ t => t

/-- The instance at hand is taken off the stack.  What a unit that was emitted to its end holds is
taken over by the instance below. -/
def leave : EStateM.Result Error EmitState Unit → EStateM.Result Error EmitState Unit
  | .ok _ t =>
    match t.outer with
    | [] => .error .instanceDestroyed t
    | i :: outer => absorb t.current { t with current := i, outer }
  | .error e t =>
    match t.outer with
    | [] => .error .instanceDestroyed t
    | i :: outer => .error e { t with current := i, outer }

end Emit

/-! ## Walks -/

/-- The part of a unit that an event is by itself. -/
def Event.own? : Event → Option Expanded
  | .problem d => some (.problem d)
  | .declaration decl => some (.declaration decl)
  | .inclusion _ _ => none

/-- The events of a unit are emitted in a state, with their directives followed as they are met. -/
inductive Walk (front : FrontEnd) (loader : Loader) :
    EmitMode → Emit.UnitText → List Event → EmitState → List Encounter →
      EStateM.Result Error EmitState Unit → Prop
  | done {mode : EmitMode} {u : Emit.UnitText} {s : EmitState} :
      Walk front loader mode u [] s [] (.ok () s)
  | own {mode : EmitMode} {u : Emit.UnitText} {e : Event} {es : List Event} {x : Expanded}
      {s t : EmitState} {log : List Encounter} {r : EStateM.Result Error EmitState Unit} :
      e.own? = some x → Emit.part mode u x s = .ok () t → Walk front loader mode u es t log r →
      Walk front loader mode u (e :: es) s log r
  | failed {mode : EmitMode} {u : Emit.UnitText} {e : Event} {es : List Event} {x : Expanded}
      {s t : EmitState} {error : Error} :
      e.own? = some x → Emit.part mode u x s = .error error t →
      Walk front loader mode u (e :: es) s [] (.error error t)
  | passed {u : Emit.UnitText} {path : String} {span : Span} {es : List Event} {s : EmitState}
      {log : List Encounter} {r : EStateM.Result Error EmitState Unit} :
      Walk front loader .scanOnly u es s log r →
      Walk front loader .scanOnly u (.inclusion path span :: es) s log r
  | repeated {u : Emit.UnitText} {path : String} {span : Span} {es : List Event} {s : EmitState}
      {log : List Encounter} {r : EStateM.Result Error EmitState Unit} :
      s.turn loader path = .repeated → Walk front loader .full u es s log r →
      Walk front loader .full u (.inclusion path span :: es) s
        (⟨path, s.registry.normalize path, .repeated⟩ :: log) r
  | missing {u : Emit.UnitText} {path : String} {span : Span} {es : List Event} {s t : EmitState}
      {log : List Encounter} {r : EStateM.Result Error EmitState Unit} :
      s.turn loader path = .missing →
      Emit.part .full u (.missing (s.registry.normalize path) path span) s = .ok () t →
      Walk front loader .full u es t log r →
      Walk front loader .full u (.inclusion path span :: es) s
        (⟨path, s.registry.normalize path, .missing⟩ :: log) r
  | refused {u : Emit.UnitText} {path : String} {span : Span} {es : List Event} {s : EmitState}
      {error : Error} :
      s.turn loader path = .refused error →
      Walk front loader .full u (.inclusion path span :: es) s
        [⟨path, s.registry.normalize path, .refused⟩]
        (.error error (s.registering (s.registry.normalize path)))
  | opened {u : Emit.UnitText} {path key : String} {span : Span} {es : List Event}
      {s t : EmitState} {source : Bytes} {child : Instance} {inner log : List Encounter}
      {content r : EStateM.Result Error EmitState Unit} :
      key = s.registry.normalize path → s.turn loader path = .opened source child →
      Walk front loader .full ⟨key, Bytes.toText source⟩ (front key (Bytes.toText source))
        (s.entering key child) inner content →
      Emit.leave content = .ok () t → Walk front loader .full u es t log r →
      Walk front loader .full u (.inclusion path span :: es) s
        (⟨path, key, .opened (s.stack.length + 1)⟩ :: (inner ++ log)) r
  | broken {u : Emit.UnitText} {path key : String} {span : Span} {es : List Event}
      {s t : EmitState} {source : Bytes} {child : Instance} {inner : List Encounter} {error : Error}
      {content : EStateM.Result Error EmitState Unit} :
      key = s.registry.normalize path → s.turn loader path = .opened source child →
      Walk front loader .full ⟨key, Bytes.toText source⟩ (front key (Bytes.toText source))
        (s.entering key child) inner content →
      Emit.leave content = .error error t →
      Walk front loader .full u (.inclusion path span :: es) s
        (⟨path, key, .opened (s.stack.length + 1)⟩ :: inner) (.error error t)

namespace Walk

variable {front : FrontEnd} {loader : Loader} {mode : EmitMode} {u : Emit.UnitText}
  {es : List Event} {s : EmitState} {log log' : List Encounter}
  {r r' : EStateM.Result Error EmitState Unit}

/-- A walk ends in one way only. -/
theorem unique (h : Walk front loader mode u es s log r)
    (h' : Walk front loader mode u es s log' r') : log' = log ∧ r' = r := by
  induction h generalizing log' r' with
  | done =>
      cases h'
      exact ⟨rfl, rfl⟩
  | own hown hpart _ ih =>
      cases h' with
      | own hown' hpart' hrest =>
          obtain rfl := Option.some.inj (hown.symm.trans hown')
          obtain rfl := (EStateM.Result.ok.inj (hpart.symm.trans hpart')).2
          exact ih hrest
      | failed hown' hpart' =>
          obtain rfl := Option.some.inj (hown.symm.trans hown')
          cases hpart.symm.trans hpart'
      | passed | repeated | missing | refused | opened | broken => cases hown
  | failed hown hpart =>
      cases h' with
      | own hown' hpart' =>
          obtain rfl := Option.some.inj (hown.symm.trans hown')
          cases hpart.symm.trans hpart'
      | failed hown' hpart' =>
          obtain rfl := Option.some.inj (hown.symm.trans hown')
          obtain ⟨rfl, rfl⟩ := EStateM.Result.error.inj (hpart.symm.trans hpart')
          exact ⟨rfl, rfl⟩
      | passed | repeated | missing | refused | opened | broken => cases hown
  | passed _ ih =>
      cases h' with
      | own hown' | failed hown' => cases hown'
      | passed hrest => exact ih hrest
  | repeated hturn _ ih =>
      cases h' with
      | own hown' | failed hown' => cases hown'
      | repeated _ hrest =>
          obtain ⟨rfl, rfl⟩ := ih hrest
          exact ⟨rfl, rfl⟩
      | missing hturn' | refused hturn' => cases hturn.symm.trans hturn'
      | opened _ hturn' | broken _ hturn' => cases hturn.symm.trans hturn'
  | missing hturn hpart _ ih =>
      cases h' with
      | own hown' | failed hown' => cases hown'
      | missing _ hpart' hrest =>
          obtain rfl := (EStateM.Result.ok.inj (hpart.symm.trans hpart')).2
          obtain ⟨rfl, rfl⟩ := ih hrest
          exact ⟨rfl, rfl⟩
      | repeated hturn' | refused hturn' => cases hturn.symm.trans hturn'
      | opened _ hturn' | broken _ hturn' => cases hturn.symm.trans hturn'
  | refused hturn =>
      cases h' with
      | own hown' | failed hown' => cases hown'
      | refused hturn' =>
          cases hturn.symm.trans hturn'
          exact ⟨rfl, rfl⟩
      | repeated hturn' | missing hturn' => cases hturn.symm.trans hturn'
      | opened _ hturn' | broken _ hturn' => cases hturn.symm.trans hturn'
  | opened hkey hturn _ hleave _ ihinner ih =>
      cases h' with
      | own hown' | failed hown' => cases hown'
      | repeated hturn' | missing hturn' | refused hturn' => cases hturn.symm.trans hturn'
      | opened hkey' hturn' hinner' hleave' hrest =>
          obtain rfl := hkey.trans hkey'.symm
          cases hturn.symm.trans hturn'
          obtain ⟨rfl, rfl⟩ := ihinner hinner'
          obtain rfl := (EStateM.Result.ok.inj (hleave.symm.trans hleave')).2
          obtain ⟨rfl, rfl⟩ := ih hrest
          exact ⟨rfl, rfl⟩
      | broken hkey' hturn' hinner' hleave' =>
          obtain rfl := hkey.trans hkey'.symm
          cases hturn.symm.trans hturn'
          obtain ⟨rfl, rfl⟩ := ihinner hinner'
          cases hleave.symm.trans hleave'
  | broken hkey hturn _ hleave ihinner =>
      cases h' with
      | own hown' | failed hown' => cases hown'
      | repeated hturn' | missing hturn' | refused hturn' => cases hturn.symm.trans hturn'
      | opened hkey' hturn' hinner' hleave' =>
          obtain rfl := hkey.trans hkey'.symm
          cases hturn.symm.trans hturn'
          obtain ⟨rfl, rfl⟩ := ihinner hinner'
          cases hleave.symm.trans hleave'
      | broken hkey' hturn' hinner' hleave' =>
          obtain rfl := hkey.trans hkey'.symm
          cases hturn.symm.trans hturn'
          obtain ⟨rfl, rfl⟩ := ihinner hinner'
          obtain ⟨rfl, rfl⟩ := EStateM.Result.error.inj (hleave.symm.trans hleave')
          exact ⟨rfl, rfl⟩

end Walk

/-! ## What walks leave -/

namespace EmitState

/-- A step leaves the registry and the instances around the one at hand as they are. -/
structure Stays (s t : EmitState) : Prop where
  registry : t.registry = s.registry
  outer : t.outer = s.outer

/-- What holds between the states before and after a walk, also after one that ends with an error. -/
structure Travels (loader : Loader) (s : EmitState) (log : List Encounter) (t : EmitState) :
    Prop where
  outer : t.outer = s.outer
  registry : s.registry.Continues t.registry
  nodup : (Encounter.openedKeys log).Nodup
  fresh : ∀ key ∈ Encounter.openedKeys log, s.registry.contains key = false
  known : ∀ key ∈ Encounter.openedKeys log, t.registry.contains key = true
  small : ∀ key ∈ Encounter.openedKeys log, Text.lowercase key = key
  loaded : ∀ key ∈ Encounter.openedKeys log, ∃ source, loader.load key = .ok source
  heights : ∀ m ∈ log, ∀ height, m.height? = some height →
    height ≤ s.stack.length + (Encounter.openedKeys log).length

variable {loader : Loader} {s t t' : EmitState} {log log' : List Encounter}

namespace Travels

/-- No unit is walked through. -/
theorem of_none (houter : t.outer = s.outer) (hregistry : s.registry.Continues t.registry)
    (hlog : ∀ m ∈ log, m.height? = none) : s.Travels loader log t := by
  have hnone : Encounter.openedKeys log = [] := by
    refine List.filterMap_eq_nil_iff.mpr ?_
    intro m hm
    rw [Encounter.openedKey?, hlog m hm]
    rfl
  constructor
  case outer => exact houter
  case registry => exact hregistry
  case nodup => exact hnone ▸ .nil
  case fresh => exact hnone ▸ List.forall_mem_nil _
  case known => exact hnone ▸ List.forall_mem_nil _
  case small => exact hnone ▸ List.forall_mem_nil _
  case loaded => exact hnone ▸ List.forall_mem_nil _
  case heights =>
    intro m hm height hheight
    rw [hlog m hm] at hheight
    cases hheight

theorem of_stays (h : s.Stays t) : s.Travels loader [] t :=
  .of_none h.outer (h.registry ▸ .refl _) (List.forall_mem_nil _)

/-- One walk after another one. -/
theorem trans (h : s.Travels loader log t) (h' : t.Travels loader log' t') :
    s.Travels loader (log ++ log') t' := by
  have hstack : t.stack.length = s.stack.length := by
    rw [EmitState.stack, EmitState.stack, List.length_cons, List.length_cons, h.outer]
  have hlength : (Encounter.openedKeys (log ++ log')).length
      = (Encounter.openedKeys log).length + (Encounter.openedKeys log').length := by
    rw [Encounter.openedKeys_append, List.length_append]
  constructor
  case outer => exact h'.outer.trans h.outer
  case registry => exact h.registry.trans h'.registry
  case nodup =>
    rw [Encounter.openedKeys_append]
    refine List.nodup_append.mpr ⟨h.nodup, h'.nodup, ?_⟩
    rintro key hkey _ hkey' rfl
    have hfresh := h'.fresh key hkey'
    rw [h.known key hkey] at hfresh
    cases hfresh
  case fresh =>
    rw [Encounter.openedKeys_append, List.forall_mem_append]
    exact ⟨h.fresh, fun key hkey => h.registry.grows.not_contains (h'.fresh key hkey)⟩
  case known =>
    rw [Encounter.openedKeys_append, List.forall_mem_append]
    exact ⟨fun key hkey => h'.registry.grows key (h.known key hkey), h'.known⟩
  case small =>
    rw [Encounter.openedKeys_append, List.forall_mem_append]
    exact ⟨h.small, h'.small⟩
  case loaded =>
    rw [Encounter.openedKeys_append, List.forall_mem_append]
    exact ⟨h.loaded, h'.loaded⟩
  case heights =>
    rw [hlength, List.forall_mem_append]
    refine ⟨?_, ?_⟩
    · intro m hm height hheight
      have := h.heights m hm height hheight
      omega
    · intro m hm height hheight
      have := h'.heights m hm height hheight
      omega

/-- A unit is walked through, and its instance is taken off the stack. -/
theorem opened {path key : String} {source : Bytes} {child : Instance}
    (hnew : s.registry.contains key = false) (hsmall : Text.lowercase key = key)
    (hload : loader.load key = .ok source)
    (h : (s.entering key child).Travels loader log t) (hregistry : t'.registry = t.registry)
    (houter : t'.outer = s.outer) :
    s.Travels loader (⟨path, key, .opened (s.stack.length + 1)⟩ :: log) t' := by
  have hentering : s.registry.Continues (s.entering key child).registry := .register _ _
  have hself : (s.entering key child).registry.contains key = true :=
    s.registry.contains_register_self key
  constructor
  case outer => exact houter
  case registry => exact hregistry ▸ hentering.trans h.registry
  case nodup =>
    refine List.nodup_cons.mpr ⟨?_, h.nodup⟩
    intro hmem
    have hfresh := h.fresh key hmem
    rw [hself] at hfresh
    cases hfresh
  case fresh =>
    rw [Encounter.openedKeys_cons, List.forall_mem_cons]
    exact ⟨hnew, fun key' hkey' => hentering.grows.not_contains (h.fresh key' hkey')⟩
  case known =>
    rw [Encounter.openedKeys_cons, List.forall_mem_cons, hregistry]
    exact ⟨h.registry.grows key hself, h.known⟩
  case small =>
    rw [Encounter.openedKeys_cons, List.forall_mem_cons]
    exact ⟨hsmall, h.small⟩
  case loaded =>
    rw [Encounter.openedKeys_cons, List.forall_mem_cons]
    exact ⟨⟨source, hload⟩, h.loaded⟩
  case heights =>
    rw [Encounter.openedKeys_cons, List.length_cons, List.forall_mem_cons]
    refine ⟨?_, ?_⟩
    · intro height hheight
      obtain rfl := Option.some.inj hheight
      omega
    · intro m hm height hheight
      have hinner := h.heights m hm height hheight
      rw [EmitState.stack, EmitState.entering, List.length_cons, List.length_cons] at hinner
      rw [EmitState.stack, List.length_cons]
      omega

end Travels

/-! ### Where directives lead -/

theorem turn_eq_repeated {path : String} (h : s.turn loader path = .repeated) :
    s.registry.contains (s.registry.normalize path) = true := by
  rw [turn] at h
  split at h
  · assumption
  · split at h
    · cases h
    · split at h
      · cases h
      · cases h

theorem turn_eq_missing {path : String} (h : s.turn loader path = .missing) :
    s.registry.contains (s.registry.normalize path) = false ∧
      ∃ e, loader.load (s.registry.normalize path) = .error e := by
  rw [turn] at h
  split at h
  · cases h
  · next hnew =>
      split at h
      · next e hload => exact ⟨Bool.eq_false_iff.mpr hnew, e, hload⟩
      · split at h
        · cases h
        · cases h

/-- A directive is refused if there is no memory for the source that it loads. -/
theorem turn_eq_refused {path : String} {error : Error}
    (h : s.turn loader path = .refused error) :
    ∃ source, loader.load (s.registry.normalize path) = .ok source ∧
      addressable source.length = false := by
  rw [turn] at h
  split at h
  · cases h
  · split at h
    · cases h
    · next source hload =>
        split at h
        · next e hbegin =>
            refine ⟨source, hload, Bool.eq_false_iff.mpr ?_⟩
            intro hgranted
            obtain ⟨child, hok⟩ := Instance.begin?_eq_ok.mpr hgranted
            rw [hbegin] at hok
            cases hok
        · cases h

/-- A directive that opens a unit has a new key, under which there is a source, and an instance is
begun for it. -/
theorem turn_eq_opened {path : String} {source : Bytes} {child : Instance}
    (h : s.turn loader path = .opened source child) :
    s.registry.contains (s.registry.normalize path) = false ∧
      loader.load (s.registry.normalize path) = .ok source ∧
      Instance.begin? addressable (s.registry.normalize path) source s.current.debug false
        = .ok child := by
  rw [turn] at h
  split at h
  · cases h
  · next hnew =>
      split at h
      · cases h
      · next source' hload =>
          split at h
          · cases h
          · next hbegin =>
              cases h
              exact ⟨Bool.eq_false_iff.mpr hnew, hload, hbegin⟩

end EmitState

namespace Emit

open EmitState

variable {mode : EmitMode} {u : UnitText} {s t : EmitState}

theorem addBody_stays (id : Nat) (l : Lowering) (s : EmitState) :
    s.Stays (reached (addBody id l s)) := by
  rw [addBody_apply]
  rcases s.current.appendCode addressable l with ⟨i, error | body⟩
  · exact ⟨rfl, rfl⟩
  · exact ⟨rfl, rfl⟩

theorem carry_stays (u : UnitText) (e : Effect) (s : EmitState) :
    s.Stays (reached (carry u e s)) := by
  rw [carry]
  cases e.body with
  | none => exact ⟨rfl, rfl⟩
  | some added =>
      obtain ⟨hregistry, houter⟩ := addBody_stays added.1 added.2
        (EmitState.reports { s with symbols := e.symbols } u e.diagnostics)
      exact ⟨hregistry, houter⟩

/-- What an event is by itself is made in its place. -/
theorem own_stays {e : Event} {x : Expanded} (h : e.own? = some x) (mode : EmitMode) (u : UnitText)
    (s : EmitState) : s.Stays (reached (part mode u x s)) := by
  cases e with
  | problem d =>
      obtain rfl := Option.some.inj h
      rw [part_problem_apply]
      exact ⟨rfl, rfl⟩
  | declaration decl =>
      obtain rfl := Option.some.inj h
      rw [part_declaration_apply]
      cases mode with
      | scanOnly => exact ⟨rfl, rfl⟩
      | full =>
          obtain ⟨hregistry, houter⟩ :=
            carry_stays u (decl.effect u.name s.symbols) (s.notes decl)
          exact ⟨hregistry, houter⟩
  | inclusion path span => cases h

/-- When a unit is left, the instances are those below its own. -/
theorem leave_outer {content : EStateM.Result Error EmitState Unit} {i : Instance}
    {outer : List Instance} (h : (reached content).outer = i :: outer) :
    (reached (leave content)).registry = (reached content).registry ∧
      (reached (leave content)).outer = outer := by
  cases content with
  | error e t =>
      have h : t.outer = i :: outer := h
      rw [leave, h]
      exact ⟨rfl, rfl⟩
  | ok v t =>
      have h : t.outer = i :: outer := h
      rw [leave, h]
      dsimp only
      rw [absorb_apply]
      dsimp only
      rcases i.absorb addressable t.current with ⟨j, child, error | offset⟩
      · exact ⟨rfl, rfl⟩
      · exact ⟨rfl, rfl⟩

/-- Only a unit that was emitted to its end is taken over. -/
theorem leave_eq_ok {content : EStateM.Result Error EmitState Unit}
    (h : leave content = .ok () t) : ∃ t', content = .ok () t' := by
  cases content with
  | ok v t' => exact ⟨t', rfl⟩
  | error e t' =>
      rw [leave] at h
      split at h
      · cases h
      · cases h

end Emit

namespace Walk

open Emit EmitState

variable {front : FrontEnd} {loader : Loader} {mode : EmitMode} {u : UnitText}
  {es : List Event} {s : EmitState} {log : List Encounter}
  {r : EStateM.Result Error EmitState Unit}

/-- A relation between the states before and after walks, with the directives that are met, which is
known of single events. -/
structure Tracks (loader : Loader) (R : EmitState → List Encounter → EmitState → Prop) : Prop where
  stays : ∀ {s t}, s.Stays t → R s [] t
  trans : ∀ {s t t' log log'}, R s log t → R t log' t' → R s (log ++ log') t'
  repeated : ∀ {s path}, s.turn loader path = .repeated →
    R s [⟨path, s.registry.normalize path, .repeated⟩] s
  missing : ∀ {s t path}, s.turn loader path = .missing →
    t.registry = (s.registering (s.registry.normalize path)).registry → t.outer = s.outer →
    R s [⟨path, s.registry.normalize path, .missing⟩] t
  refused : ∀ {s path error}, s.turn loader path = .refused error →
    R s [⟨path, s.registry.normalize path, .refused⟩]
      (s.registering (s.registry.normalize path))
  opened : ∀ {s t t' path source child log}, s.turn loader path = .opened source child →
    R (s.entering (s.registry.normalize path) child) log t →
    t'.registry = t.registry → t'.outer = s.outer →
    R s (⟨path, s.registry.normalize path, .opened (s.stack.length + 1)⟩ :: log) t'

variable {R : EmitState → List Encounter → EmitState → Prop}

/-- A unit that is opened is walked through and left. -/
theorem Tracks.left (hR : Tracks loader R) {path key : String} {source : Bytes} {child : Instance}
    {content : EStateM.Result Error EmitState Unit} (hkey : key = s.registry.normalize path)
    (hturn : s.turn loader path = .opened source child)
    (houter : (reached content).outer = s.current :: s.outer)
    (hinner : R (s.entering key child) log (reached content)) :
    (reached (leave content)).outer = s.outer ∧
      R s (⟨path, key, .opened (s.stack.length + 1)⟩ :: log) (reached (leave content)) := by
  subst hkey
  obtain ⟨hregistry, houter⟩ := leave_outer houter
  exact ⟨houter, hR.opened hturn hinner hregistry houter⟩

/-- What is known of single events holds of every walk, however it ends, and the instances around the
unit at hand are as before. -/
theorem tracked (hR : Tracks loader R) (h : Walk front loader mode u es s log r) :
    (reached r).outer = s.outer ∧ R s log (reached r) := by
  induction h with
  | done => exact ⟨rfl, hR.stays ⟨rfl, rfl⟩⟩
  | @own mode u e es x s t log r hown hpart _ ih =>
      have hstays := own_stays hown mode u s
      rw [hpart] at hstays
      exact ⟨ih.1.trans hstays.outer, hR.trans (hR.stays hstays) ih.2⟩
  | @failed mode u e es x s t error hown hpart =>
      have hstays := own_stays hown mode u s
      rw [hpart] at hstays
      exact ⟨hstays.outer, hR.stays hstays⟩
  | passed _ ih => exact ih
  | repeated hturn _ ih => exact ⟨ih.1, hR.trans (hR.repeated hturn) ih.2⟩
  | missing hturn hpart _ ih =>
      rw [part_missing_apply] at hpart
      obtain rfl := (EStateM.Result.ok.inj hpart).2
      refine ⟨ih.1, hR.trans (hR.missing hturn ?_ ?_) ih.2⟩
      · rfl
      · rfl
  | refused hturn => exact ⟨rfl, hR.refused hturn⟩
  | opened hkey hturn _ hleave _ ihinner ih =>
      have hleft := hR.left hkey hturn ihinner.1 ihinner.2
      rw [hleave] at hleft
      exact ⟨ih.1.trans hleft.1, hR.trans hleft.2 ih.2⟩
  | broken hkey hturn _ hleave ihinner =>
      have hleft := hR.left hkey hturn ihinner.1 ihinner.2
      rw [hleave] at hleft
      exact hleft

theorem tracks_travels (loader : Loader) : Tracks loader (Travels loader) where
  stays := .of_stays
  trans := .trans
  repeated _ := .of_none rfl (.refl _) (List.forall_mem_singleton.mpr rfl)
  missing _ hregistry houter :=
    .of_none houter (hregistry ▸ .register _ _) (List.forall_mem_singleton.mpr rfl)
  refused _ := .of_none rfl (.register _ _) (List.forall_mem_singleton.mpr rfl)
  opened hturn hinner hregistry houter := by
    obtain ⟨hnew, hload, -⟩ := turn_eq_opened hturn
    exact .opened hnew (Registry.lowercase_normalize hnew) hload hinner hregistry houter

/-- What a walk does to the stack and to the registry, however it ends. -/
theorem travels (h : Walk front loader mode u es s log r) : s.Travels loader log (reached r) :=
  (h.tracked (tracks_travels loader)).2

end Walk

end Nss
