/-
# What an expansion depends on

An expansion asks its registry for one thing only: whether a key is registered.  So registries that
agree on the keys which a unit can meet give the same expansion of it.  The bound on the depth does
not matter either, as every unit that is opened leaves one fewer to be opened.

With that, a directive which opens a unit may be replaced by the events of that unit, if its key is
registered beforehand: the content of the opened unit then stands where the unit did.
-/
import Nss.Include.Expansion
import Nss.Proofs.Text.Case

namespace Nss

/-! ## Registries -/

namespace Registry

variable {r r' : Registry} {key : String}

theorem register_of_contains (h : r.contains key = true) :
    r.register key = (.alreadyProcessed, r) := by
  rw [register, if_pos h]

theorem register_of_not_contains (h : r.contains key = false) :
    r.register key = (.new, (r.register key).2) := by
  rw [register, if_neg (by rw [h]; nofun)]

theorem contains_register (r : Registry) (key key' : String) :
    (r.register key).2.contains key' = (r.contains key' || key = key') := by
  cases h : r.contains key with
  | true =>
      rw [register_of_contains h]
      by_cases heq : key = key'
      · rw [← heq, h]
        rfl
      · rw [decide_eq_false heq, Bool.or_false]
  | false =>
      rw [register, if_neg (by rw [h]; nofun)]
      simp only [contains, List.any_append, List.any_cons, List.any_nil, Bool.or_false]

theorem contains_register_self (r : Registry) (key : String) :
    (r.register key).2.contains key = true := by
  rw [contains_register, decide_eq_true rfl, Bool.or_true]

/-- The key of a directive is the one that it names, as it is written or in small letters. -/
theorem normalize_eq (r : Registry) (path : String) :
    r.normalize path = IncludeKey.ofPath path ∨
      r.normalize path = Text.lowercase (IncludeKey.ofPath path) := by
  rw [normalize]
  split
  · exact .inl rfl
  · exact .inr rfl

/-- A key that is met for the first time is in small letters. -/
theorem lowercase_normalize {path : String} (h : r.contains (r.normalize path) = false) :
    Text.lowercase (r.normalize path) = r.normalize path := by
  rw [normalize] at h ⊢
  split at h
  · next hcontains =>
      rw [hcontains] at h
      cases h
  · next hcontains =>
      rw [if_neg hcontains]
      exact Text.lowercase_lowercase _

/-! ### What registries have in common -/

/-- Whatever is registered stays so. -/
def Grows (r r' : Registry) : Prop := ∀ key, r.contains key = true → r'.contains key = true

namespace Grows

theorem refl (r : Registry) : r.Grows r := fun _ h => h

theorem trans {r r' r'' : Registry} (h : r.Grows r') (h' : r'.Grows r'') : r.Grows r'' :=
  fun key hkey => h' key (h key hkey)

theorem register (r : Registry) (key : String) : r.Grows (r.register key).2 := by
  intro key' h
  rw [contains_register, h, Bool.true_or]

theorem not_contains (h : r.Grows r') (hkey : r'.contains key = false) : r.contains key = false := by
  cases hr : r.contains key with
  | false => rfl
  | true =>
      rw [h key hr] at hkey
      cases hkey

end Grows

/-- Two registries agree on some keys. -/
def AgreeOn (K : String → Prop) (r r' : Registry) : Prop :=
  ∀ key, K key → r'.contains key = r.contains key

namespace AgreeOn

variable {K : String → Prop}

theorem register (h : AgreeOn K r r') (key : String) :
    AgreeOn K (r.register key).2 (r'.register key).2 := by
  intro key' hkey
  rw [contains_register, contains_register, h key' hkey]

theorem normalize {path : String} (h : AgreeOn K r r') (hpath : K (IncludeKey.ofPath path)) :
    r'.normalize path = r.normalize path := by
  rw [Registry.normalize, Registry.normalize, h _ hpath]

end AgreeOn

end Registry

/-! ## The paths of directives -/

/-- The path that an inclusion names. -/
def Event.path? : Event → Option String
  | .inclusion path _ => some path
  | .declaration _ | .problem _ => none

theorem Event.eq_inclusion_of_path? {e : Event} {path : String} (h : e.path? = some path) :
    ∃ span, e = .inclusion path span := by
  cases e with
  | inclusion path' span =>
      obtain rfl := Option.some.inj h
      exact ⟨span, rfl⟩
  | declaration _ => cases h
  | problem _ => cases h

/-! ## The keys that a unit can meet -/

/-- A directive of a unit names a key, as it is written or in small letters. -/
def Names (front : FrontEnd) (unit : String) (source : Bytes) (key : String) : Prop :=
  ∃ path span, .inclusion path span ∈ front unit (Bytes.toText source) ∧
    (key = IncludeKey.ofPath path ∨ key = Text.lowercase (IncludeKey.ofPath path))

/-- A key is named by a directive of a unit, or of one that is included. -/
inductive Meets (front : FrontEnd) (loader : Loader) (unit : String) (source : Bytes) : String → Prop
  | directly {key : String} : Names front unit source key → Meets front loader unit source key
  | through {key key' : String} {source' : Bytes} :
      Meets front loader unit source key → loader.load key = .ok source' →
      Names front key source' key' → Meets front loader unit source key'

/-- Some keys come with all that is named by their units. -/
def ClosedUnder (front : FrontEnd) (loader : Loader) (K : String → Prop) : Prop :=
  ∀ key source key', K key → loader.load key = .ok source → Names front key source key' → K key'

/-! ## The units that a loader has -/

namespace Loader

/-- The keys for which a directive can find a source are among some keys, and there are no more of
these than the loader has units. -/
structure Among (loader : Loader) (keys : List String) : Prop where
  found : ∀ (path : String) (source : Bytes),
    loader.load (Text.lowercase (IncludeKey.ofPath path)) = .ok source →
      Text.lowercase (IncludeKey.ofPath path) ∈ keys
  length_le : keys.length ≤ loader.supply

/-- A loader has no more units than it says. -/
def Bounded (loader : Loader) : Prop := ∃ keys, loader.Among keys

theorem Among.bounded {loader : Loader} {keys : List String} (h : loader.Among keys) :
    loader.Bounded :=
  ⟨keys, h⟩

/-- A directive whose key is new finds no source but under a key of the loader. -/
theorem Among.mem_of_new {loader : Loader} {keys : List String} (h : loader.Among keys)
    {r : Registry} {path : String} {source : Bytes}
    (hnew : r.contains (r.normalize path) = false)
    (hload : loader.load (r.normalize path) = .ok source) : r.normalize path ∈ keys := by
  have hsmall : r.normalize path = Text.lowercase (IncludeKey.ofPath path) := by
    rw [Registry.normalize] at hnew ⊢
    split at hnew
    · next hcontains =>
        rw [hcontains] at hnew
        cases hnew
    · next hcontains => exact if_neg hcontains
  rw [hsmall] at hload ⊢
  exact h.found path source hload

/-- A source that is found has one of the keys that were given. -/
theorem mem_of_load_ofSources {sources : List (String × Bytes)} {key : String} {source : Bytes}
    (h : (ofSources sources).load key = .ok source) :
    ∃ s ∈ sources, Text.lowercase s.1 = Text.lowercase key := by
  simp only [ofSources] at h
  split at h
  · next s hfind =>
      have hkey : Text.lowercase s.1 = Text.lowercase key := by simpa using List.find?_some hfind
      exact ⟨s, List.mem_reverse.mp (List.mem_of_find?_eq_some hfind), hkey⟩
  · cases h

theorem among_ofSources (sources : List (String × Bytes)) :
    (ofSources sources).Among (sources.map fun s => Text.lowercase s.1) where
  found path source h := by
    obtain ⟨s, hs, hkey⟩ := mem_of_load_ofSources h
    rw [Text.lowercase_lowercase] at hkey
    exact List.mem_map.mpr ⟨s, hs, hkey⟩
  length_le := by
    rw [List.length_map]
    exact Nat.le_refl _

theorem bounded_ofSources (sources : List (String × Bytes)) : (ofSources sources).Bounded :=
  (among_ofSources sources).bounded

end Loader

namespace Expanded

variable {front : FrontEnd} {loader : Loader} {r r' : Registry}
  {descend descend' : Registry → String → Bytes → List Expanded × Registry}

/-! ## Events one after the other -/

theorem ofEvents_append : ∀ (es fs : List Event) (r : Registry),
    ofEvents loader descend r (es ++ fs)
      = ((ofEvents loader descend r es).1
          ++ (ofEvents loader descend (ofEvents loader descend r es).2 fs).1,
        (ofEvents loader descend (ofEvents loader descend r es).2 fs).2)
  | [], fs, r => rfl
  | .problem d :: es, fs, r => by
      simp only [List.cons_append, ofEvents, ofEvents_append es fs]
  | .declaration decl :: es, fs, r => by
      simp only [List.cons_append, ofEvents, ofEvents_append es fs]
  | .inclusion path span :: es, fs, r => by
      simp only [List.cons_append, ofEvents, ofEvents_append es fs]
      split
      · rfl
      · split
        · rfl
        · rfl

/-- What a directive is expanded to, and what registry it leaves. -/
def ofInclusion (loader : Loader)
    (descend : Registry → String → Bytes → List Expanded × Registry) (r : Registry)
    (path : String) (span : Span) : Expanded × Registry :=
  let key := r.normalize path
  if r.contains key then (.repeated key, r)
  else
    let registered := (r.register key).2
    match loader.load key with
    | .error _ => (.missing key path span, registered)
    | .ok source =>
      let (content, inner) := descend registered key source
      (.opened key source content, inner)

theorem ofEvents_inclusion (path : String) (span : Span) (es : List Event) (r : Registry) :
    ofEvents loader descend r (.inclusion path span :: es)
      = ((ofInclusion loader descend r path span).1
          :: (ofEvents loader descend (ofInclusion loader descend r path span).2 es).1,
        (ofEvents loader descend (ofInclusion loader descend r path span).2 es).2) := by
  rw [ofEvents, ofInclusion]
  cases h : r.contains (r.normalize path) with
  | true => rw [Registry.register_of_contains h, if_pos rfl]
  | false =>
      rw [Registry.register_of_not_contains h, if_neg nofun]
      cases loader.load (r.normalize path) with
      | error e => rfl
      | ok source => rfl

/-! ## Registries only grow -/

theorem ofInclusion_grows (hdescend : ∀ r key source, Registry.Grows r (descend r key source).2)
    (r : Registry) (path : String) (span : Span) :
    r.Grows (ofInclusion loader descend r path span).2 := by
  rw [ofInclusion]
  dsimp only
  split
  · exact .refl r
  · split
    · exact .register r _
    · exact (Registry.Grows.register r _).trans (hdescend _ _ _)

theorem ofEvents_grows (hdescend : ∀ r key source, Registry.Grows r (descend r key source).2) :
    ∀ (es : List Event) (r : Registry), r.Grows (ofEvents loader descend r es).2
  | [], r => .refl r
  | .problem d :: es, r => ofEvents_grows hdescend es r
  | .declaration decl :: es, r => ofEvents_grows hdescend es r
  | .inclusion path span :: es, r => by
      rw [ofEvents_inclusion]
      exact (ofInclusion_grows hdescend r path span).trans (ofEvents_grows hdescend es _)

theorem ofUnit_grows (front : FrontEnd) (loader : Loader) :
    ∀ (n : Nat) (r : Registry) (unit : String) (source : Bytes),
      r.Grows (ofUnit front loader n r unit source).2
  | 0, r, _, _ => .refl r
  | n + 1, r, _, _ => ofEvents_grows (ofUnit_grows front loader n) _ r

/-! ## Registries that agree on what is met -/

/-- Two expansions are the same, and the registries that they leave agree on some keys. -/
def SameOn {α : Type} (K : String → Prop) (x y : α × Registry) : Prop :=
  y.1 = x.1 ∧ Registry.AgreeOn K x.2 y.2

section Agree

variable {K : String → Prop}
  (hdescend : ∀ key source, K key → loader.load key = .ok source → ∀ r r', Registry.AgreeOn K r r' →
    SameOn K (descend r key source) (descend r' key source))

include hdescend

theorem ofInclusion_agree (h : Registry.AgreeOn K r r') {path : String} (span : Span)
    (hwritten : K (IncludeKey.ofPath path)) (hsmall : K (Text.lowercase (IncludeKey.ofPath path))) :
    SameOn K (ofInclusion loader descend r path span) (ofInclusion loader descend r' path span) := by
  have hkey : K (r.normalize path) := by
    rcases r.normalize_eq path with heq | heq
    · rw [heq]
      exact hwritten
    · rw [heq]
      exact hsmall
  rw [ofInclusion, ofInclusion, h.normalize hwritten]
  dsimp only
  rw [h _ hkey]
  split
  · exact ⟨rfl, h⟩
  · split
    · exact ⟨rfl, h.register _⟩
    · next source hload =>
        obtain ⟨hsame, hagree⟩ := hdescend _ source hkey hload _ _ (h.register (r.normalize path))
        exact ⟨congrArg (opened (r.normalize path) source) hsame, hagree⟩

theorem ofEvents_agree : ∀ {es : List Event},
    (∀ path span, .inclusion path span ∈ es →
      K (IncludeKey.ofPath path) ∧ K (Text.lowercase (IncludeKey.ofPath path))) →
    ∀ {r r' : Registry}, Registry.AgreeOn K r r' →
      SameOn K (ofEvents loader descend r es) (ofEvents loader descend r' es)
  | [], _, r, r', h => ⟨rfl, h⟩
  | .problem d :: es, hes, r, r', h => by
      obtain ⟨hsame, hagree⟩ := ofEvents_agree (fun path span hmem => hes path span (.tail _ hmem)) h
      exact ⟨congrArg (problem d :: ·) hsame, hagree⟩
  | .declaration decl :: es, hes, r, r', h => by
      obtain ⟨hsame, hagree⟩ := ofEvents_agree (fun path span hmem => hes path span (.tail _ hmem)) h
      exact ⟨congrArg (declaration decl :: ·) hsame, hagree⟩
  | .inclusion path span :: es, hes, r, r', h => by
      obtain ⟨hwritten, hsmall⟩ := hes path span List.mem_cons_self
      obtain ⟨hfirst, hinner⟩ := ofInclusion_agree hdescend h span hwritten hsmall
      obtain ⟨hrest, hagree⟩ :=
        ofEvents_agree (fun path span hmem => hes path span (.tail _ hmem)) hinner
      rw [ofEvents_inclusion, ofEvents_inclusion, SameOn, hfirst, hrest]
      exact ⟨rfl, hagree⟩

end Agree

/-- Registries that agree on all keys which a unit can meet give the same expansion of it. -/
theorem ofUnit_agree {K : String → Prop} (hK : ClosedUnder front loader K) :
    ∀ {n : Nat} {r r' : Registry} {unit : String} {source : Bytes},
      (∀ key, Names front unit source key → K key) → Registry.AgreeOn K r r' →
        SameOn K (ofUnit front loader n r unit source) (ofUnit front loader n r' unit source)
  | 0, r, r', unit, source, _, h => ⟨rfl, h⟩
  | n + 1, r, r', unit, source, hnames, h => by
      rw [ofUnit, ofUnit]
      refine ofEvents_agree ?_ ?_ h
      · intro key inner hkey hload r r' hagree
        exact ofUnit_agree hK (fun key' hnamed => hK key inner key' hkey hload hnamed) hagree
      · intro path span hmem
        exact ⟨hnames _ ⟨path, span, hmem, .inl rfl⟩, hnames _ ⟨path, span, hmem, .inr rfl⟩⟩

/-- The expansion of a unit is that in a registry which knows no key that can be met. -/
theorem ofRoot_agree {unit : String} {source : Bytes}
    (h : Registry.AgreeOn (Meets front loader unit source) r r') :
    ofRoot front loader r' unit source = ofRoot front loader r unit source :=
  (ofUnit_agree (fun _ _ _ hkey hload hnamed => .through hkey hload hnamed)
    (fun _ hnamed => .directly hnamed) h).1

/-! ## A key that is not met -/

/-- A registry with one more key. -/
def WithKey (k : String) (r r' : Registry) : Prop :=
  ∀ key, r'.contains key = (r.contains key || k = key)

theorem withKey_register (r : Registry) (k : String) : WithKey k r (r.register k).2 :=
  r.contains_register k

namespace WithKey

variable {k key : String}

theorem contains_of_ne (h : WithKey k r r') (hne : k ≠ key) : r'.contains key = r.contains key := by
  rw [h, decide_eq_false hne, Bool.or_false]

theorem register (h : WithKey k r r') (key : String) :
    WithKey k (r.register key).2 (r'.register key).2 := by
  intro key'
  rw [Registry.contains_register, Registry.contains_register, h, Bool.or_right_comm]

end WithKey

section Unmet

variable {k : String} (hsmall : Text.lowercase k = k)

include hsmall

/-- A directive does not name a key that is not registered even afterwards. -/
theorem ne_of_ofInclusion (hdescend : ∀ r key source, Registry.Grows r (descend r key source).2)
    {path : String} {span : Span}
    (hk : (ofInclusion loader descend r path span).2.contains k = false) :
    k ≠ IncludeKey.ofPath path ∧ (r.contains (r.normalize path) = false → k ≠ r.normalize path) := by
  have hregistered : r.contains (r.normalize path) = false → k ≠ r.normalize path := by
    rintro hnew rfl
    have hcontains : (ofInclusion loader descend r path span).2.contains (r.normalize path) = true := by
      rw [ofInclusion, if_neg (by rw [hnew]; nofun)]
      split
      · exact r.contains_register_self _
      · exact hdescend _ _ _ _ (r.contains_register_self _)
    rw [hk] at hcontains
    cases hcontains
  refine ⟨?_, hregistered⟩
  rintro rfl
  have hnew := (ofInclusion_grows hdescend r path span).not_contains hk
  have hnormal : r.normalize path = IncludeKey.ofPath path := by
    rw [Registry.normalize, if_neg (by rw [hnew]; nofun)]
    exact hsmall
  exact hregistered (hnormal ▸ hnew) hnormal.symm

/-- The same is expanded, and a key that is not met is registered in the end if it was before. -/
def SameBut {α : Type} (k : String) (x y : α × Registry) : Prop :=
  y.1 = x.1 ∧ WithKey k x.2 y.2

variable (hgrows : ∀ r key source, Registry.Grows r (descend r key source).2)
  (hdescend : ∀ key source r r', WithKey k r r' → (descend r key source).2.contains k = false →
    SameBut k (descend r key source) (descend r' key source))

include hgrows hdescend

theorem ofInclusion_withKey (h : WithKey k r r') {path : String} (span : Span)
    (hk : (ofInclusion loader descend r path span).2.contains k = false) :
    SameBut k (ofInclusion loader descend r path span)
      (ofInclusion loader descend r' path span) := by
  obtain ⟨hwritten, hnew⟩ := ne_of_ofInclusion hsmall hgrows hk
  have hnormal : r'.normalize path = r.normalize path := by
    rw [Registry.normalize, Registry.normalize, h.contains_of_ne hwritten]
  rw [ofInclusion] at hk
  rw [ofInclusion, ofInclusion, hnormal]
  cases hcontains : r.contains (r.normalize path) with
  | true =>
      have hcontains' : r'.contains (r.normalize path) = true := by
        rw [h, hcontains, Bool.true_or]
      rw [hcontains']
      exact ⟨rfl, h⟩
  | false =>
      rw [h.contains_of_ne (hnew hcontains), hcontains]
      rw [hcontains] at hk
      have hregistered := h.register (r.normalize path)
      cases hload : loader.load (r.normalize path) with
      | error e => exact ⟨rfl, hregistered⟩
      | ok source =>
          rw [hload] at hk
          obtain ⟨hsame, hwith⟩ := hdescend _ source _ _ hregistered hk
          exact ⟨congrArg (opened (r.normalize path) source) hsame, hwith⟩

theorem ofEvents_withKey : ∀ (es : List Event) {r r' : Registry}, WithKey k r r' →
    (ofEvents loader descend r es).2.contains k = false →
      SameBut k (ofEvents loader descend r es) (ofEvents loader descend r' es)
  | [], r, r', h, _ => ⟨rfl, h⟩
  | .problem d :: es, r, r', h, hk => by
      obtain ⟨hsame, hwith⟩ := ofEvents_withKey es h hk
      exact ⟨congrArg (problem d :: ·) hsame, hwith⟩
  | .declaration decl :: es, r, r', h, hk => by
      obtain ⟨hsame, hwith⟩ := ofEvents_withKey es h hk
      exact ⟨congrArg (declaration decl :: ·) hsame, hwith⟩
  | .inclusion path span :: es, r, r', h, hk => by
      rw [ofEvents_inclusion] at hk
      obtain ⟨hfirst, hinner⟩ := ofInclusion_withKey hsmall hgrows hdescend h span
        ((ofEvents_grows hgrows es _).not_contains hk)
      obtain ⟨hrest, hwith⟩ := ofEvents_withKey es hinner hk
      rw [ofEvents_inclusion, ofEvents_inclusion, SameBut, hfirst, hrest]
      exact ⟨rfl, hwith⟩

end Unmet

/-- An expansion is the same if a key is registered beforehand that is not met. -/
theorem ofUnit_withKey {k : String} (hsmall : Text.lowercase k = k) :
    ∀ {n : Nat} {r r' : Registry} {unit : String} {source : Bytes}, WithKey k r r' →
      (ofUnit front loader n r unit source).2.contains k = false →
        SameBut k (ofUnit front loader n r unit source) (ofUnit front loader n r' unit source)
  | 0, _, _, _, _, h, _ => ⟨rfl, h⟩
  | n + 1, _, _, _, _, h, hk =>
      ofEvents_withKey hsmall (ofUnit_grows front loader n)
        (fun _ _ _ _ hwith hk => ofUnit_withKey hsmall hwith hk) _ h hk

/-! ## The bound on the depth -/

/-- The number of some keys that are not registered. -/
def unread (keys : List String) (r : Registry) : Nat := keys.countP fun key => !r.contains key

section Depth

variable {keys : List String}

theorem countP_lt {α : Type} {p q : α → Bool} {l : List α} (h : ∀ x, p x = true → q x = true)
    {a : α} (ha : a ∈ l) (hp : p a = false) (hq : q a = true) : l.countP p < l.countP q := by
  obtain ⟨before, after, rfl⟩ := List.append_of_mem ha
  have hbefore := List.countP_mono_left (l := before) fun x _ => h x
  have hafter := List.countP_mono_left (l := after) fun x _ => h x
  rw [List.countP_append, List.countP_append, List.countP_cons_of_neg (by rw [hp]; nofun),
    List.countP_cons_of_pos hq]
  omega

theorem unread_le_of_grows (h : r.Grows r') : unread keys r' ≤ unread keys r := by
  refine List.countP_mono_left ?_
  intro key _ hkey
  rw [Bool.not_eq_true'] at hkey ⊢
  exact h.not_contains hkey

variable (hkeys : loader.Among keys)

include hkeys

theorem unread_le_supply (r : Registry) : unread keys r ≤ loader.supply :=
  Nat.le_trans List.countP_le_length hkeys.length_le

/-- Every unit that is opened leaves one fewer to be opened. -/
theorem unread_register_lt {path : String} {source : Bytes}
    (hnew : r.contains (r.normalize path) = false)
    (hload : loader.load (r.normalize path) = .ok source) :
    unread keys (r.register (r.normalize path)).2 < unread keys r := by
  refine countP_lt ?_ (hkeys.mem_of_new hnew hload) ?_ ?_
  · intro key hkey
    rw [Bool.not_eq_true'] at hkey ⊢
    exact (Registry.Grows.register r _).not_contains hkey
  · rw [Registry.contains_register_self]
    rfl
  · rw [hnew]
    rfl

variable {n m : Nat}
  (hsame : ∀ r unit source, unread keys r < n → unread keys r < m →
    ofUnit front loader n r unit source = ofUnit front loader m r unit source)

include hsame

theorem ofInclusion_depth {path : String} {span : Span} (hn : unread keys r ≤ n)
    (hm : unread keys r ≤ m) :
    ofInclusion loader (ofUnit front loader n) r path span
      = ofInclusion loader (ofUnit front loader m) r path span := by
  rw [ofInclusion, ofInclusion]
  cases hnew : r.contains (r.normalize path) with
  | true => rfl
  | false =>
      cases hload : loader.load (r.normalize path) with
      | error e => rfl
      | ok source =>
          have hlt := unread_register_lt hkeys hnew hload
          dsimp only
          rw [hsame _ _ source (Nat.lt_of_lt_of_le hlt hn) (Nat.lt_of_lt_of_le hlt hm)]

theorem ofEvents_depth : ∀ (es : List Event) {r : Registry}, unread keys r ≤ n →
    unread keys r ≤ m →
      ofEvents loader (ofUnit front loader n) r es = ofEvents loader (ofUnit front loader m) r es
  | [], _, _, _ => rfl
  | .problem d :: es, r, hn, hm => by
      rw [ofEvents, ofEvents, ofEvents_depth es hn hm]
  | .declaration decl :: es, r, hn, hm => by
      rw [ofEvents, ofEvents, ofEvents_depth es hn hm]
  | .inclusion path span :: es, r, hn, hm => by
      rw [ofEvents_inclusion, ofEvents_inclusion, ofInclusion_depth hkeys hsame hn hm]
      have hgrows : r.Grows (ofInclusion loader (ofUnit front loader m) r path span).2 :=
        ofInclusion_grows (ofUnit_grows front _ m) r path span
      have hle : unread keys _ ≤ _ := unread_le_of_grows hgrows
      rw [ofEvents_depth es (Nat.le_trans hle hn) (Nat.le_trans hle hm)]

omit hsame

/-- All depths that leave room for the units still to be read give the same expansion. -/
theorem ofUnit_depth : ∀ {n m : Nat} (r : Registry) (unit : String) (source : Bytes),
    unread keys r < n → unread keys r < m →
      ofUnit front loader n r unit source = ofUnit front loader m r unit source
  | 0, _, _, _, _, hn, _ => absurd hn (Nat.not_lt_zero _)
  | _ + 1, 0, _, _, _, _, hm => absurd hm (Nat.not_lt_zero _)
  | _ + 1, _ + 1, _, _, _, hn, hm =>
      ofEvents_depth hkeys (fun r unit source hn hm => ofUnit_depth r unit source hn hm) _
        (Nat.le_of_lt_succ hn) (Nat.le_of_lt_succ hm)

end Depth

/-! ## A unit in the place of its directive -/

/-- What an outermost unit consists of whose events are given. -/
def ofRootEvents (front : FrontEnd) (loader : Loader) (r : Registry) (es : List Event) :
    List Expanded × Registry :=
  ofEvents loader (ofUnit front loader loader.supply) r es

theorem ofRoot_eq (r : Registry) (unit : String) (source : Bytes) :
    ofRoot front loader r unit source
      = (ofRootEvents front loader r (front unit (Bytes.toText source))).1 :=
  rfl

theorem ofRootEvents_append (r : Registry) (es fs : List Event) :
    ofRootEvents front loader r (es ++ fs)
      = ((ofRootEvents front loader r es).1
          ++ (ofRootEvents front loader (ofRootEvents front loader r es).2 fs).1,
        (ofRootEvents front loader (ofRootEvents front loader r es).2 fs).2) :=
  ofEvents_append es fs r

/-- Registries that agree on all keys are the same for an expansion. -/
theorem ofRootEvents_congr (h : Registry.AgreeOn (fun _ => True) r r') (es : List Event) :
    SameOn (fun _ => True) (ofRootEvents front loader r es) (ofRootEvents front loader r' es) := by
  refine ofEvents_agree ?_ (fun _ _ _ => ⟨trivial, trivial⟩) h
  intro key source _ _ r r' hagree
  exact ofUnit_agree (fun _ _ _ _ _ _ => trivial) (fun _ _ => trivial) hagree

theorem ofRootEvents_withKey {k : String} (hsmall : Text.lowercase k = k) {es : List Event}
    (h : WithKey k r r') (hk : (ofRootEvents front loader r es).2.contains k = false) :
    SameBut k (ofRootEvents front loader r es) (ofRootEvents front loader r' es) :=
  ofEvents_withKey hsmall (ofUnit_grows front loader _)
    (fun _ _ _ _ hwith hk => ofUnit_withKey hsmall hwith hk) es h hk

section InPlace

variable {path : String} {source : Bytes} (hbounded : loader.Bounded)

include hbounded

/-- A unit that is opened has as much room for its includes as the outermost one. -/
theorem ofRootEvents_opened (hnew : r.contains (r.normalize path) = false)
    (hload : loader.load (r.normalize path) = .ok source) (span : Span)
    (after : List Event) :
    let content := ofRootEvents front loader (r.register (r.normalize path)).2
      (front (r.normalize path) (Bytes.toText source))
    (ofRootEvents front loader r (.inclusion path span :: after)).1
      = opened (r.normalize path) source content.1
        :: (ofRootEvents front loader content.2 after).1 := by
  obtain ⟨keys, hkeys⟩ := hbounded
  have hlt := Nat.lt_of_lt_of_le (unread_register_lt hkeys hnew hload) (unread_le_supply hkeys r)
  let descend := ofUnit front loader loader.supply
  have hcontent : descend _ (r.normalize path) source = ofUnit front loader _ _ _ _ :=
    ofUnit_depth hkeys _ (r.normalize path) source hlt (Nat.lt_succ_of_lt hlt)
  have hinclusion := congrArg Prod.fst
    (@ofEvents_inclusion loader descend path span after r)
  rw [ofInclusion, if_neg (by rw [hnew]; nofun)] at hinclusion
  simp only [hload, hcontent] at hinclusion
  exact hinclusion

/-- A directive that opens a unit is expanded to what the events of the unit are expanded to in its
place, if its key is registered beforehand. -/
theorem ofRootEvents_inPlace {before : List Event} {inner : Registry}
    (hinner : (ofRootEvents front loader r before).2 = inner)
    (hnew : inner.contains (inner.normalize path) = false)
    (hload : loader.load (inner.normalize path) = .ok source)
    (span : Span) (after : List Event) :
    ∃ xs content ys,
      (ofRootEvents front loader r (before ++ .inclusion path span :: after)).1
        = xs ++ opened (inner.normalize path) source content :: ys ∧
      (ofRootEvents front loader (r.register (inner.normalize path)).2
        (before ++ (front (inner.normalize path) (Bytes.toText source) ++ after))).1
        = xs ++ (content ++ ys) := by
  have hopened := @ofRootEvents_opened front _ _ _ _ hbounded hnew hload span after
  have hsmall := Registry.lowercase_normalize hnew
  generalize inner.normalize path = key at *
  -- the events before the directive do not meet the key
  obtain ⟨hxs, hwith⟩ := ofRootEvents_withKey hsmall (withKey_register r key)
    (show (ofRootEvents front loader r before).2.contains key = false by
      rw [hinner, hnew])
  have hagree : Registry.AgreeOn (fun _ => True) (inner.register key).2
      (ofRootEvents front loader (r.register key).2 before).2 := by
    intro key' _
    rw [hwith, Registry.contains_register, hinner]
  obtain ⟨hcontent, hrest⟩ :=
    @ofRootEvents_congr front loader _ _ hagree
      (front key (Bytes.toText source))
  obtain ⟨hafter, -⟩ :=
    @ofRootEvents_congr front loader _ _ hrest after
  refine ⟨(ofRootEvents front loader r before).1,
    (ofRootEvents front loader (inner.register key).2
      (front key (Bytes.toText source))).1,
    (ofRootEvents front loader (ofRootEvents front loader
      (inner.register key).2 (front key (Bytes.toText source))).2 after).1, ?_, ?_⟩
  · rw [ofRootEvents_append, hinner, hopened]
  · rw [ofRootEvents_append, ofRootEvents_append, hxs, hcontent, hafter]

end InPlace

end Expanded

end Nss
