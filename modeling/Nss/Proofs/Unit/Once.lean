/-
# Units that are emitted again

The key of the outermost unit is registered just as its path is written, that of an opened unit in
small letters, and a loader takes no notice of the difference:

    outermost unit   Main.nss         registered as   Main
    directive        "dir/Main.nss"   normalized to   Main   repeated
    directive        "main"           normalized to   main   opened: the same source again

`Logged` says how the directives that are met and the keys that are registered depend on one another;
`tracks_logged` is what single events do to that.  With it, `emitRoot_once_iff` tells exactly when an
emission goes through the events of a source twice: when the key of the outermost unit has capital
letters, and a directive asks for it in other ones.
-/
import Nss.Session
import Nss.Proofs.Include.Visits
import Nss.Proofs.Unit.Ending
import Nss.Proofs.Unit.Room

namespace Nss

open Steps

/-- The keys of the directives in a log are those that a walk registers. -/
structure EmitState.Logged (loader : Loader) (s : EmitState) (log : List Encounter)
    (t : EmitState) : Prop where
  known : ∀ key, t.registry.contains key = true ↔
    s.registry.contains key = true ∨ ∃ m ∈ log, m.key = key
  named : ∀ m ∈ log,
    m.key = IncludeKey.ofPath m.path ∨ m.key = Text.lowercase (IncludeKey.ofPath m.path)
  /-- A key that is registered as it is written is not put in small letters. -/
  written : ∀ m ∈ log, s.registry.contains (IncludeKey.ofPath m.path) = true →
    m.key = IncludeKey.ofPath m.path
  small : ∀ m ∈ log, s.registry.contains m.key = false → Text.lowercase m.key = m.key
  /-- A unit that can be loaded is walked through when its key is met for the first time. -/
  opened : ∀ m ∈ log, s.registry.contains m.key = false → ∀ source,
    loader.load m.key = .ok source → addressable source.length = true →
    m.key ∈ Encounter.openedKeys log

namespace EmitState.Logged

variable {loader : Loader} {s t t' : EmitState} {log log' : List Encounter}

/-- No directive is met. -/
theorem of_stays (h : s.Stays t) : s.Logged loader [] t where
  known key := by
    rw [h.registry]
    simp
  named := List.forall_mem_nil _
  written := List.forall_mem_nil _
  small := List.forall_mem_nil _
  opened := List.forall_mem_nil _

/-- One walk after another one. -/
theorem trans (h : s.Logged loader log t) (h' : t.Logged loader log' t') :
    s.Logged loader (log ++ log') t' := by
  constructor
  case known =>
    intro key
    rw [h'.known, h.known, or_assoc]
    simp only [List.mem_append, or_and_right, exists_or]
  case named => exact List.forall_mem_append.mpr ⟨h.named, h'.named⟩
  case written =>
    refine List.forall_mem_append.mpr ⟨h.written, ?_⟩
    intro m hm hcontains
    exact h'.written m hm ((h.known _).mpr (.inl hcontains))
  case small =>
    refine List.forall_mem_append.mpr ⟨h.small, ?_⟩
    intro m hm hnew
    cases hmid : t.registry.contains m.key with
    | false => exact h'.small m hm hmid
    | true =>
        rcases (h.known _).mp hmid with hold | ⟨m', hm', heq⟩
        · rw [hnew] at hold
          cases hold
        · rw [← heq] at hnew ⊢
          exact h.small m' hm' hnew
  case opened =>
    rw [Encounter.openedKeys_append]
    refine List.forall_mem_append.mpr ⟨?_, ?_⟩
    · intro m hm hnew source hload hgranted
      exact List.mem_append_left _ (h.opened m hm hnew source hload hgranted)
    · intro m hm hnew source hload hgranted
      cases hmid : t.registry.contains m.key with
      | false => exact List.mem_append_right _ (h'.opened m hm hmid source hload hgranted)
      | true =>
          rcases (h.known _).mp hmid with hold | ⟨m', hm', heq⟩
          · rw [hnew] at hold
            cases hold
          · rw [← heq] at hnew hload ⊢
            exact List.mem_append_left _ (h.opened m' hm' hnew source hload hgranted)

/-- A directive is met and leads to no other ones. -/
theorem met {path : String} {fate : Fate}
    (hregistry : t.registry = (s.registry.register (s.registry.normalize path)).2)
    (hclosed : s.registry.contains (s.registry.normalize path) = false →
      ∀ source, loader.load (s.registry.normalize path) = .ok source →
        addressable source.length = false) :
    s.Logged loader [⟨path, s.registry.normalize path, fate⟩] t := by
  constructor
  case known =>
    intro key
    rw [hregistry, Registry.contains_register]
    simp
  case named => exact List.forall_mem_singleton.mpr (s.registry.normalize_eq path)
  case written =>
    refine List.forall_mem_singleton.mpr ?_
    intro hcontains
    exact if_pos hcontains
  case small => exact List.forall_mem_singleton.mpr Registry.lowercase_normalize
  case opened =>
    refine List.forall_mem_singleton.mpr ?_
    intro hnew source hload hgranted
    rw [hclosed hnew source hload] at hgranted
    cases hgranted

/-- A directive is met whose unit is walked through. -/
theorem opening {path key : String} {height : Nat} {child : Instance}
    (hkey : key = s.registry.normalize path)
    (h : (s.entering key child).Logged loader log t) (hregistry : t'.registry = t.registry) :
    s.Logged loader (⟨path, key, .opened height⟩ :: log) t' := by
  have hentering (key' : String) : (s.entering key child).registry.contains key' = true ↔
      s.registry.contains key' = true ∨ key = key' := by
    show (s.registry.register key).2.contains key' = true ↔ _
    rw [Registry.contains_register, Bool.or_eq_true, decide_eq_true_eq]
  have hhead (hnew : s.registry.contains key = false) : Text.lowercase key = key := by
    subst hkey
    exact Registry.lowercase_normalize hnew
  -- a key that is new outside is new inside, or that of the unit
  have hinside {key' : String} (hnew : s.registry.contains key' = false) :
      key = key' ∨ (s.entering key child).registry.contains key' = false := by
    cases hentered : (s.entering key child).registry.contains key' with
    | false => exact .inr rfl
    | true =>
        rcases (hentering key').mp hentered with hold | heq
        · rw [hnew] at hold
          cases hold
        · exact .inl heq
  constructor
  case known =>
    intro key'
    rw [hregistry, h.known, hentering, or_assoc]
    simp only [List.mem_cons, exists_eq_or_imp]
  case named =>
    refine List.forall_mem_cons.mpr ⟨?_, h.named⟩
    subst hkey
    exact s.registry.normalize_eq path
  case written =>
    refine List.forall_mem_cons.mpr ⟨?_, ?_⟩
    · intro hcontains
      exact hkey.trans (if_pos hcontains)
    · intro m hm hcontains
      exact h.written m hm ((hentering _).mpr (.inl hcontains))
  case small =>
    refine List.forall_mem_cons.mpr ⟨hhead, ?_⟩
    intro m hm hnew
    rcases hinside hnew with heq | hfresh
    · rw [← heq] at hnew ⊢
      exact hhead hnew
    · exact h.small m hm hfresh
  case opened =>
    rw [Encounter.openedKeys_cons]
    refine List.forall_mem_cons.mpr ⟨fun _ _ _ _ => List.mem_cons_self, ?_⟩
    intro m hm hnew source hload hgranted
    rcases hinside hnew with heq | hfresh
    · exact List.mem_cons.mpr (.inl heq.symm)
    · exact List.mem_cons_of_mem _ (h.opened m hm hfresh source hload hgranted)

end EmitState.Logged

namespace Walk

open EmitState

theorem tracks_logged (loader : Loader) : Tracks loader (Logged loader) where
  stays := .of_stays
  trans := .trans
  repeated hturn := by
    have hcontains := turn_eq_repeated hturn
    refine .met ?_ ?_
    · rw [Registry.register_of_contains hcontains]
    · intro hnew
      rw [hcontains] at hnew
      cases hnew
  missing hturn hregistry _ := by
    obtain ⟨-, e, hload⟩ := turn_eq_missing hturn
    refine .met hregistry ?_
    intro _ source hsource
    cases hload.symm.trans hsource
  refused hturn := by
    obtain ⟨source, hload, hgranted⟩ := turn_eq_refused hturn
    refine .met rfl ?_
    intro _ source' hsource
    obtain rfl := Except.ok.inj (hload.symm.trans hsource)
    exact hgranted
  opened _ hinner hregistry _ := .opening rfl hinner hregistry

end Walk

namespace Emission

open Emit EmitState

variable {front : FrontEnd} {loader : Loader} {mode : EmitMode} {s : EmitState}
  {log : List Encounter} {r : EStateM.Result Error EmitState Unit}

/-- The directives that an emission meets, however it ends. -/
theorem logged (h : Emission front loader mode s log r) : s.Logged loader log (reached r) :=
  h.tracked (Walk.tracks_logged loader)

end Emission

/-! ## The source of the outermost unit -/

/-- The names of the files whose events are emitted, in the order in which they are come to: that of
the outermost unit with a path, and those of the units that are walked through. -/
def Encounter.emittedFiles (path : String) (log : List Encounter) : List String :=
  Text.lowercase (IncludeKey.ofPath path) :: Encounter.openedKeys log

theorem Encounter.key_of_openedKey? {m : Encounter} {key : String}
    (h : m.openedKey? = some key) : m.key = key := by
  obtain ⟨height, -, heq⟩ := Option.map_eq_some_iff.mp h
  exact heq

/-- A loader takes no notice of capital letters. -/
theorem Loader.load_lowercase {sources : List (String × Bytes)} {key : String} {source : Bytes}
    (h : (Loader.ofSources sources).load key = .ok source) :
    (Loader.ofSources sources).load (Text.lowercase key) = .ok source := by
  simp only [Loader.ofSources, Text.lowercase_lowercase] at h ⊢
  split at h
  · exact h
  · cases h

/-- What is emitted once and what twice follows from the directives that are met. -/
theorem EmitState.Logged.once_iff {loader : Loader} {s t : EmitState} {log : List Encounter}
    {path : String} {source : Bytes} (hlog : s.Logged loader log t)
    (htravels : s.Travels loader log t)
    (hregistry : s.registry = (Registry.empty.register (IncludeKey.ofPath path)).2)
    (hload : loader.load (Text.lowercase (IncludeKey.ofPath path)) = .ok source)
    (hgranted : addressable source.length = true) :
    (Encounter.emittedFiles path log).Nodup ↔
      Text.lowercase (IncludeKey.ofPath path) = IncludeKey.ofPath path ∨
        ∀ m ∈ log, Text.lowercase (IncludeKey.ofPath m.path)
          = Text.lowercase (IncludeKey.ofPath path) →
            IncludeKey.ofPath m.path = IncludeKey.ofPath path := by
  have hcontains (key : String) : s.registry.contains key = true ↔ IncludeKey.ofPath path = key := by
    rw [hregistry, Registry.contains_register, Bool.or_eq_true, decide_eq_true_eq]
    exact or_iff_right nofun
  constructor
  · intro hnodup
    by_cases hsmall : Text.lowercase (IncludeKey.ofPath path) = IncludeKey.ofPath path
    · exact .inl hsmall
    refine .inr ?_
    intro m hm hasks
    by_contra hother
    have hnew : s.registry.contains m.key = false := by
      refine Bool.eq_false_iff.mpr ?_
      intro hold
      have hkey := (hcontains _).mp hold
      rcases hlog.named m hm with heq | heq
      · exact hother (heq.symm.trans hkey.symm)
      · exact hsmall (hasks.symm.trans (heq.symm.trans hkey.symm))
    have hkey : m.key = Text.lowercase (IncludeKey.ofPath path) := by
      rcases hlog.named m hm with heq | heq
      · rw [← hlog.small m hm hnew, heq, hasks]
      · rw [heq, hasks]
    have hopened := hlog.opened m hm hnew source (hkey ▸ hload) hgranted
    rw [hkey] at hopened
    exact (List.nodup_cons.mp hnodup).1 hopened
  · intro hspelled
    refine List.nodup_cons.mpr ⟨?_, htravels.nodup⟩
    intro hmem
    have hfresh := htravels.fresh _ hmem
    have hne : IncludeKey.ofPath path ≠ Text.lowercase (IncludeKey.ofPath path) := by
      intro heq
      rw [(hcontains _).mpr heq] at hfresh
      cases hfresh
    rcases hspelled with hsmall | hall
    · exact hne hsmall.symm
    · obtain ⟨m, hm, hopened⟩ := List.mem_filterMap.mp hmem
      have hkey := Encounter.key_of_openedKey? hopened
      have hasks : Text.lowercase (IncludeKey.ofPath m.path)
          = Text.lowercase (IncludeKey.ofPath path) := by
        rcases hlog.named m hm with heq | heq
        · rw [← heq, hkey, Text.lowercase_lowercase]
        · rw [← heq, hkey]
      have hwritten := hall m hm hasks
      have hkept := hlog.written m hm ((hcontains _).mpr hwritten.symm)
      exact hne (hwritten.symm.trans (hkept.symm.trans hkey))

/-- What is known of an instance that is created for a unit with a path. -/
theorem Instance.create_eq_ok {name path : String} {source : Bytes} {debug owns : Bool}
    {registry registry' : Registry} {i : Instance}
    (h : create addressable name source (some path) debug owns registry = .ok (i, registry')) :
    registry' = (registry.register (IncludeKey.ofPath path)).2 ∧
      addressable source.length = true := by
  rw [create] at h
  obtain ⟨c, hbegin, h⟩ := except_bind_eq_ok.mp h
  exact ⟨(Prod.mk.inj (Except.ok.inj h)).2.symm, begin?_eq_ok.mp ⟨c, hbegin⟩⟩

/-- An instance is created for a source for which there is memory. -/
theorem Instance.exists_create {source : Bytes} (h : addressable source.length = true)
    (name path : String) (debug owns : Bool) (registry : Registry) :
    ∃ i, create addressable name source (some path) debug owns registry
        = .ok (i, (registry.register (IncludeKey.ofPath path)).2) ∧
      i.name = name ∧ i.source.bytes? = some source := by
  simp only [create, begin?, Window.ofCapacity, h]
  cases debug with
  | false | true => exact ⟨_, rfl, rfl, rfl⟩

/-- An emission with a registry of its own goes through the events of each file once, exactly if the
key of the outermost unit has no capital letters, or every directive that asks for that unit writes
its key in the same way. -/
theorem emitRoot_once_iff {front : FrontEnd} {sources : List (String × Bytes)} {name path : String}
    {source : Bytes} {debug owns : Bool} {i : Instance} {registry : Registry}
    (hcreate : Instance.create addressable name source (some path) debug owns .empty
      = .ok (i, registry))
    (hload : (Loader.ofSources sources).load (IncludeKey.ofPath path) = .ok source)
    (outer : List Instance) (symbols : Symbols) :
    ∃ log, RootEmission front (.ofSources sources) .full (i :: outer) registry symbols log
        (emitRoot front (.ofSources sources) .full (i :: outer) registry symbols) ∧
      ((Encounter.emittedFiles path log).Nodup ↔
        Text.lowercase (IncludeKey.ofPath path) = IncludeKey.ofPath path ∨
          ∀ m ∈ log, Text.lowercase (IncludeKey.ofPath m.path)
            = Text.lowercase (IncludeKey.ofPath path) →
              IncludeKey.ofPath m.path = IncludeKey.ofPath path) := by
  obtain ⟨hregistry, hgranted⟩ := Instance.create_eq_ok hcreate
  obtain ⟨log, hemission⟩ :=
    Emission.of_root (s := .start i outer registry symbols) front (Loader.bounded_ofSources sources) .full
      rfl
  exact ⟨log, hemission.innermost,
    hemission.logged.once_iff hemission.travels hregistry (Loader.load_lowercase hload) hgranted⟩

/-- The source of a unit `Main` that includes itself in small letters. -/
def includesItself : Bytes := Bytes.ofText "#include \"main\"\nvoid main() { }"

theorem emitRoot_once_iff_includesItself :
    ∃ i registry, Instance.create addressable "Main" includesItself (some "scripts/Main.nss") false
        true .empty = .ok (i, registry) ∧
      (Loader.ofSources [("MAIN", includesItself)]).load (IncludeKey.ofPath "scripts/Main.nss")
        = .ok includesItself ∧
      ∃ log, RootEmission scriptFrontEnd (.ofSources [("MAIN", includesItself)]) .full [i] registry
          .empty log
          (emitRoot scriptFrontEnd (.ofSources [("MAIN", includesItself)]) .full [i] registry
            .empty) ∧
        ((Encounter.emittedFiles "scripts/Main.nss" log).Nodup ↔
          Text.lowercase (IncludeKey.ofPath "scripts/Main.nss")
              = IncludeKey.ofPath "scripts/Main.nss" ∨
            ∀ m ∈ log, Text.lowercase (IncludeKey.ofPath m.path)
              = Text.lowercase (IncludeKey.ofPath "scripts/Main.nss") →
                IncludeKey.ofPath m.path = IncludeKey.ofPath "scripts/Main.nss") := by
  obtain ⟨i, hcreate, -, -⟩ := @Instance.exists_create includesItself (by decide +kernel) "Main"
    "scripts/Main.nss" false true .empty
  have hload : (Loader.ofSources [("MAIN", includesItself)]).load
      (IncludeKey.ofPath "scripts/Main.nss") = .ok includesItself := by decide +kernel
  exact ⟨i, _, hcreate, hload, emitRoot_once_iff hcreate hload [] .empty⟩

/-- A directive that a unit begins with is met. -/
theorem Walk.met {front : FrontEnd} {loader : Loader} {u : Emit.UnitText} {es : List Event}
    {s : EmitState} {log : List Encounter} {r : EStateM.Result Error EmitState Unit} {path : String}
    (h : Walk front loader .full u es s log r) (hpath : es.head?.bind Event.path? = some path) :
    ∃ m ∈ log, m.path = path := by
  cases h with
  | done => cases hpath
  | @own _ _ e _ _ _ _ _ _ hown | @failed _ _ e _ _ _ _ _ hown =>
      obtain ⟨span, rfl⟩ := Event.eq_inclusion_of_path? hpath
      cases hown
  | repeated | missing | refused | opened | broken =>
      obtain rfl := Option.some.inj hpath
      exact ⟨_, List.mem_cons_self, rfl⟩

/-- A directive that the outermost unit begins with is met. -/
theorem Emission.met {front : FrontEnd} {loader : Loader} {s : EmitState} {log : List Encounter}
    {r : EStateM.Result Error EmitState Unit} {source : Bytes} {path : String}
    (h : Emission front loader .full s log r) (hsource : s.current.source.bytes? = some source)
    (hpath : (front s.current.name (Bytes.toText source)).head?.bind Event.path? = some path) :
    ∃ m ∈ log, m.path = path := by
  cases h with
  | destroyed hnone => cases hnone.symm.trans hsource
  | failed hsome hwalk | finished hsome hwalk =>
      obtain rfl := Option.some.inj (hsome.symm.trans hsource)
      exact hwalk.met hpath

/-- A unit is emitted twice whose key has a capital letter, if it includes itself in small letters. -/
theorem emitRoot_twice :
    ∃ i registry log, Instance.create addressable "Main" includesItself (some "Main.nss") false true
        .empty = .ok (i, registry) ∧
      (Loader.ofSources [("Main", includesItself)]).load (IncludeKey.ofPath "Main.nss")
        = .ok includesItself ∧
      RootEmission scriptFrontEnd (.ofSources [("Main", includesItself)]) .full [i] registry .empty
        log
        (emitRoot scriptFrontEnd (.ofSources [("Main", includesItself)]) .full [i] registry
          .empty) ∧
      ¬ (Encounter.emittedFiles "Main.nss" log).Nodup := by
  have hgranted : addressable includesItself.length = true := by decide +kernel
  obtain ⟨i, hcreate, hname, hsource⟩ :=
    Instance.exists_create hgranted "Main" "Main.nss" false true .empty
  have hload : (Loader.ofSources [("Main", includesItself)]).load (IncludeKey.ofPath "Main.nss")
      = .ok includesItself := by decide +kernel
  have hpath : (scriptFrontEnd "Main" (Bytes.toText includesItself)).head?.bind Event.path?
      = some "main" := by decide +kernel
  obtain ⟨log, hemission⟩ := Emission.of_root
    (s := .start i [] (Registry.empty.register (IncludeKey.ofPath "Main.nss")).2 .empty)
    scriptFrontEnd (Loader.bounded_ofSources [("Main", includesItself)]) .full rfl
  have hmet : ∃ m ∈ log, m.path = "main" := by
    refine hemission.met hsource ?_
    show (scriptFrontEnd i.name _).head?.bind Event.path? = _
    rw [hname]
    exact hpath
  refine ⟨i, _, log, hcreate, hload, hemission.innermost, ?_⟩
  rw [hemission.logged.once_iff hemission.travels rfl (Loader.load_lowercase hload) hgranted]
  rintro (hsmall | hall)
  · revert hsmall
    decide +kernel
  · obtain ⟨m, hm, hmpath⟩ := hmet
    have heq := hall m hm (by rw [hmpath]; decide +kernel)
    rw [hmpath] at heq
    revert heq
    decide +kernel

end Nss
