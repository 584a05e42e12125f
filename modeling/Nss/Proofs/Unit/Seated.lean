/-
# Emissions among numbered registries

An emission knows one registry.  In truth every instance holds the number of one (`Seated`): a unit
that is opened by a directive holds that of the unit around it, which it does not own, and whenever an
instance is destroyed its registry is cleared if it is its own.

    units taken over        destroyed when their records were handed on
    units broken off        destroyed when they are taken off the stack

`SeatedEmit.parts` emits units in this way.  It is an emission on the registry of the instance at
hand, and no other registry is touched, however it ends: `Lifts` says so of a step, and a sequence of
such steps is one.
-/
import Nss.Unit.Bench
import Nss.Proofs.Unit.Ending
import Nss.Proofs.Unit.Enduring

namespace Nss

open Steps

/-! ## Instances at their registries -/

/-- The registries once an instance is destroyed. -/
def Seated.release (x : Seated) (registries : List Registry) : List Registry :=
  if x.unit.clearsRegistry then registries.set x.registry .empty else registries

theorem Bench.registries_cleared (b : Bench) (x : Seated) :
    (b.cleared x).registries = x.release b.registries := by
  rw [cleared, Seated.release]
  split
  · rfl
  · rfl

theorem Seated.release_of_foreign {x : Seated} (h : x.unit.clearsRegistry = false)
    (registries : List Registry) : x.release registries = registries := by
  rw [release, h]
  rfl

/-- The state of an emission whose instances hold their registries by number. -/
structure SeatedState where
  current : Seated
  outer : List Seated
  registries : List Registry
  symbols : Symbols
  entrySeen : Bool

namespace SeatedState

/-- There is a registry with the number that the instance at hand holds. -/
def Valid (s : SeatedState) : Prop := s.current.registry < s.registries.length

/-- The state as the instance at hand sees it. -/
def view (s : SeatedState) : EmitState where
  current := s.current.unit
  outer := s.outer.map Seated.unit
  registry := s.registries.getD s.current.registry .empty
  symbols := s.symbols
  entrySeen := s.entrySeen

/-- The state once the instance at hand sees another one. -/
def after (s : SeatedState) (t : EmitState) : SeatedState where
  current := ⟨t.current, s.current.registry⟩
  outer := s.outer
  registries := s.registries.set s.current.registry t.registry
  symbols := t.symbols
  entrySeen := t.entrySeen

/-- An instance is destroyed. -/
def dropping (s : SeatedState) (x : Seated) : SeatedState :=
  { s with registries := x.release s.registries }

variable {s : SeatedState} {t : EmitState}

theorem Valid.after (hs : s.Valid) (t : EmitState) : (s.after t).Valid := by
  rw [Valid, SeatedState.after, List.length_set]
  exact hs

theorem view_after (hs : s.Valid) (houter : t.outer = s.view.outer) : (s.after t).view = t := by
  have hregistry : (s.registries.set s.current.registry t.registry).getD s.current.registry .empty
      = t.registry := by
    rw [List.getD_eq_getElem?_getD, List.getElem?_set_self hs, Option.getD_some]
  rw [view, SeatedState.after]
  simp only [hregistry]
  show ({ t with outer := s.view.outer } : EmitState) = t
  rw [← houter]

theorem after_after (s : SeatedState) (t t' : EmitState) : (s.after t).after t' = s.after t' := by
  rw [SeatedState.after, SeatedState.after, SeatedState.after]
  simp only [List.set_set]

theorem after_view (hs : s.Valid) : s.after s.view = s := by
  have hsame : s.registries.set s.current.registry
      (s.registries.getD s.current.registry .empty) = s.registries := by
    have hlt : s.current.registry < s.registries.length := hs
    rw [List.getD_eq_getElem?_getD, List.getElem?_eq_getElem hlt, Option.getD_some,
      List.set_getElem_self]
  rw [SeatedState.after, view]
  simp only [hsame]

/-- The instance at hand and the symbol table are changed, the registry is not. -/
theorem after_change (hs : s.Valid) (i : Instance) (symbols : Symbols) :
    s.after { s.view with current := i, symbols }
      = { s with current := { s.current with unit := i }, symbols } := by
  have hregistries : s.registries.set s.current.registry s.view.registry = s.registries :=
    congrArg SeatedState.registries (after_view hs)
  rw [SeatedState.after]
  simp only [hregistries]
  rfl

theorem dropping_of_foreign {x : Seated} (h : x.unit.clearsRegistry = false) :
    s.dropping x = s := by
  rw [dropping, x.release_of_foreign h]

end SeatedState

/-! ## Emission -/

/-- A step of an emission whose instances hold their registries by number. -/
abbrev SeatedEmit := EStateM Error SeatedState

namespace SeatedEmit

/-- A step that the instance at hand makes with its registry. -/
def here (p : Emit Unit) : SeatedEmit Unit := fun s =>
  match p s.view with
  | .ok _ t => .ok () (s.after t)
  | .error e t => .error e (s.after t)

/-- Runs a part of the emission in an instance of its own, and gives that instance as it is
afterwards, or destroys it after an error. -/
def inside (child : Seated) (content : SeatedEmit Unit) : SeatedEmit Seated := fun s =>
  match content { s with current := child, outer := s.current :: s.outer } with
  | .ok _ t => .ok t.current { t with current := s.current, outer := s.outer }
  | .error e t =>
    .error e (SeatedState.dropping { t with current := s.current, outer := s.outer } t.current)

/-- Takes over what a finished instance holds, and destroys it. -/
def absorb (child : Seated) : SeatedEmit Unit := do
  let s ← get
  match s.current.unit.absorb addressable child.unit with
  | (i, left, .error e) =>
    set (SeatedState.dropping { s with current := { s.current with unit := i } }
      { child with unit := left })
    throw e
  | (i, left, .ok offset) =>
    let symbols := s.symbols.rebase child.unit.defined offset
    set (SeatedState.dropping { s with current := { s.current with unit := i }, symbols }
      { child with unit := left })

/-- Emits a unit that is opened by a directive, with the registry of the instance at hand. -/
def nested (key : String) (source : Bytes) (content : SeatedEmit Unit) : SeatedEmit Unit := do
  here (Emit.register key)
  let s ← get
  match Instance.begin? addressable key source s.current.unit.debug false with
  | .error e => throw e
  | .ok child => absorb (← inside ⟨child, s.current.registry⟩ content)

mutual

/-- Emits a part of a unit. -/
def part (mode : EmitMode) (u : Emit.UnitText) : Expanded → SeatedEmit Unit
  | .problem d => here (Emit.part mode u (.problem d))
  | .declaration decl => here (Emit.part mode u (.declaration decl))
  | .repeated key => here (Emit.part mode u (.repeated key))
  | .missing key path span => here (Emit.part mode u (.missing key path span))
  | .opened key source content =>
    nested key source (parts mode ⟨key, Bytes.toText source⟩ content)

/-- Emits parts of a unit one after the other. -/
def parts (mode : EmitMode) (u : Emit.UnitText) : List Expanded → SeatedEmit Unit
  | [] => return ()
  | x :: rest => do
    part mode u x
    parts mode u rest

end

/-- Emits the outermost unit. -/
def root (front : FrontEnd) (loader : Loader) (mode : EmitMode) : SeatedEmit Unit := do
  here (modify fun s => { s with entrySeen := false })
  let s ← get
  match s.current.unit.source.bytes? with
  | none => throw .instanceDestroyed
  | some source =>
    let name := s.current.unit.name
    parts mode ⟨name, Bytes.toText source⟩
      (Emit.content front loader mode s.view.registry name source)
    here (Emit.finish mode)

/-! ## One registry among many -/

theorem here_apply (q : Emit Unit) (s : SeatedState) :
    here q s = match q s.view with
      | .ok _ t => .ok () (s.after t)
      | .error e t => .error e (s.after t) :=
  rfl

/-- A step is one that the instance at hand makes with its registry, with all instances around it as
they are. -/
structure Lifts (p : SeatedEmit Unit) (q : Emit Unit) : Prop where
  run : ∀ s : SeatedState, s.Valid → p s = here q s
  outer : ∀ s : EmitState, (Emit.reached (q s)).outer = s.outer

namespace Lifts

variable {p p' : SeatedEmit Unit} {q q' : Emit Unit}

theorem of_here (h : ∀ s : EmitState, (Emit.reached (q s)).outer = s.outer) : Lifts (here q) q :=
  ⟨fun _ _ => rfl, h⟩

theorem pure : Lifts (Pure.pure ()) (Pure.pure ()) where
  run s hs := by
    rw [here_apply, pure_apply, pure_apply]
    dsimp only
    rw [SeatedState.after_view hs]
  outer _ := rfl

theorem throw (e : Error) : Lifts (throw e) (throw e) where
  run s hs := by
    rw [here_apply, throw_apply, throw_apply]
    dsimp only
    rw [SeatedState.after_view hs]
  outer _ := rfl

/-- One step after another one. -/
theorem bind (hp : Lifts p q) (hp' : Lifts p' q') :
    Lifts (p >>= fun _ => p') (q >>= fun _ => q') where
  run s hs := by
    rw [here_apply, bind_apply, bind_apply, hp.run s hs, here_apply]
    have houter := hp.outer s.view
    cases hq : q s.view with
    | error e t => rfl
    | ok v t =>
        rw [hq] at houter
        have houter : t.outer = s.view.outer := houter
        dsimp only
        rw [hp'.run _ (hs.after t), here_apply, SeatedState.view_after hs houter]
        cases q' t with
        | error e t' =>
            dsimp only
            rw [SeatedState.after_after]
        | ok v t' =>
            dsimp only
            rw [SeatedState.after_after]
  outer s := by
    rw [bind_apply]
    have houter := hp.outer s
    cases hq : q s with
    | error e t =>
        rw [hq] at houter
        exact houter
    | ok v t =>
        rw [hq] at houter
        exact (hp'.outer t).trans houter

end Lifts

end SeatedEmit

/-! ### Units that are opened -/

namespace Instance

variable {i : Instance}

/-- Whether an instance clears its registry in the end does not depend on what it emits. -/
theorem steady_clearsRegistry : Steady clearsRegistry := fun _ _ _ _ _ _ => rfl

theorem clearsRegistry_of_begin? {granted : Memory} {name : String} {source : Bytes}
    {debug owns : Bool} (h : begin? granted name source debug owns = .ok i) :
    i.clearsRegistry = owns := by
  obtain ⟨-, rfl⟩ := eq_blank_of_begin? h
  exact Bool.and_true owns

end Instance

namespace Emit

/-- The instance at hand is the same again after a part in an instance of its own, and so are those
around it. -/
theorem inside_outer (child : Instance) (q : Emit Unit) (s : EmitState) :
    (∀ i t, inside child q s = .ok i t → t.outer = s.outer) ∧
      ∀ e t, inside child q s = .error e t → t.outer = s.outer := by
  rw [inside]
  cases q { s with current := child, outer := s.current :: s.outer } with
  | ok v t' =>
      refine ⟨?_, ?_⟩
      · intro i t h
        obtain rfl := (EStateM.Result.ok.inj h).2
        rfl
      · intro e t h
        cases h
  | error e' t' =>
      refine ⟨?_, ?_⟩
      · intro i t h
        cases h
      · intro e t h
        obtain rfl := (EStateM.Result.error.inj h).2
        rfl

theorem absorb_outer (child : Instance) (s : EmitState) :
    (reached (absorb child s)).outer = s.outer := by
  rw [absorb, bind_apply, get_apply]
  dsimp only
  rcases s.current.absorb addressable child with ⟨i, left, e | offset⟩
  · rfl
  · rfl

end Emit

namespace SeatedEmit

variable {p : SeatedEmit Unit} {q : Emit Unit} {child : Instance} {s : SeatedState}

/-- What is run in an instance of its own that does not own the registry leaves all other ones as they
are, also if that instance is destroyed. -/
theorem inside_eq (h : Lifts p q) (hkeeps : Emit.KeepsUnit (fun i => i.clearsRegistry = false) q)
    (hchild : child.clearsRegistry = false) (hs : s.Valid) :
    inside ⟨child, s.current.registry⟩ p s = match Emit.inside child q s.view with
      | .ok i t => .ok ⟨i, s.current.registry⟩ (s.after t)
      | .error e t => .error e (s.after t) := by
  have hkept := hkeeps { s.view with current := child, outer := s.view.current :: s.view.outer } hchild
  have hrun := h.run { s with
    current := ⟨child, s.current.registry⟩
    outer := s.current :: s.outer } hs
  have hview : SeatedState.view { s with
      current := ⟨child, s.current.registry⟩
      outer := s.current :: s.outer }
        = { s.view with current := child, outer := s.view.current :: s.view.outer } := rfl
  rw [here_apply, hview] at hrun
  rw [inside, hrun, Emit.inside]
  cases hq : q { s.view with current := child, outer := s.view.current :: s.view.outer } with
  | ok v t => rfl
  | error e t =>
      have hforeign : t.current.clearsRegistry = false := hkept.2 e t hq
      dsimp only
      rw [SeatedState.dropping_of_foreign hforeign]
      rfl

/-- An instance that does not own the registry is destroyed without a trace once it was taken over. -/
theorem absorb_eq (hchild : child.clearsRegistry = false) (hs : s.Valid) :
    absorb ⟨child, s.current.registry⟩ s = here (Emit.absorb child) s := by
  rw [here_apply, absorb, Emit.absorb, bind_apply, bind_apply, get_apply, get_apply]
  have hleft := (Instance.steady_clearsRegistry.absorb s.current.unit child).2.trans hchild
  have hview : s.view.current = s.current.unit := rfl
  dsimp only
  rw [hview]
  generalize s.current.unit.absorb addressable child = taken at hleft
  obtain ⟨i, left, e | offset⟩ := taken
  · dsimp only
    rw [bind_apply, bind_apply, set_apply, set_apply]
    dsimp only
    rw [throw_apply, throw_apply, SeatedState.dropping_of_foreign hleft]
    dsimp only
    rw [← SeatedState.after_change hs i s.symbols]
    rfl
  · dsimp only
    rw [set_apply, set_apply, SeatedState.dropping_of_foreign hleft]
    dsimp only
    rw [← SeatedState.after_change hs]
    rfl

/-- A unit that is opened by a directive is emitted on the registry of the instance at hand. -/
theorem Lifts.nested (key : String) (source : Bytes) (h : Lifts p q)
    (hkeeps : Emit.KeepsUnit (fun i => i.clearsRegistry = false) q) :
    Lifts (nested key source p) (Emit.nested key source q) := by
  refine (Lifts.of_here fun _ => rfl).bind ⟨?_, ?_⟩
  · intro s hs
    rw [here_apply, bind_apply, bind_apply, get_apply, get_apply]
    have hdebug : s.view.current.debug = s.current.unit.debug := rfl
    dsimp only
    rw [hdebug]
    cases hbegin : Instance.begin? addressable key source s.current.unit.debug false with
    | error e => exact (Lifts.throw e).run s hs
    | ok child =>
        have hforeign := Instance.clearsRegistry_of_begin? hbegin
        have hended := Emit.keeps_inside (P := fun _ => True) hforeign hkeeps s.view trivial
        dsimp only
        rw [bind_apply, bind_apply, inside_eq h hkeeps hforeign hs]
        cases hinside : Emit.inside child q s.view with
        | error e t => rfl
        | ok i t =>
            have houter : t.outer = s.view.outer := (Emit.inside_outer child q s.view).1 i t hinside
            have hafter := absorb_eq (hended.1 i t hinside).2 (hs.after t)
            rw [here_apply, SeatedState.view_after hs houter] at hafter
            dsimp only
            refine hafter.trans ?_
            cases Emit.absorb i t with
            | error e t' =>
                dsimp only
                rw [SeatedState.after_after]
            | ok v t' =>
                dsimp only
                rw [SeatedState.after_after]
  · intro s
    rw [bind_apply, get_apply]
    dsimp only
    cases Instance.begin? addressable key source s.current.debug false with
    | error e => rfl
    | ok child =>
        dsimp only
        rw [bind_apply]
        cases hinside : Emit.inside child q s with
        | error e t => exact (Emit.inside_outer child q s).2 e t hinside
        | ok i t => exact (Emit.absorb_outer i t).trans ((Emit.inside_outer child q s).1 i t hinside)

mutual

theorem lifts_part (mode : EmitMode) : ∀ (u : Emit.UnitText) (x : Expanded),
    Lifts (part mode u x) (Emit.part mode u x)
  | u, .problem d => by
      rw [part]
      exact .of_here fun s => (Emit.own_stays (e := .problem d) rfl mode u s).outer
  | u, .declaration decl => by
      rw [part]
      exact .of_here fun s => (Emit.own_stays (e := .declaration decl) rfl mode u s).outer
  | u, .repeated key => by
      rw [part]
      exact .of_here fun s => by
        rw [Emit.part]
        rfl
  | u, .missing key path span => by
      rw [part]
      exact .of_here fun s => by
        rw [Emit.part_missing_apply]
        rfl
  | u, .opened key source content => by
      rw [part, Emit.part]
      exact (lifts_parts mode _ content).nested key source
        (Emit.keeps_parts mode (Instance.steady_clearsRegistry.enduring false) Instance.trivial_enduring _
          content)

/-- Units are emitted on the registry of the instance at hand, and no other registry is touched. -/
theorem lifts_parts (mode : EmitMode) : ∀ (u : Emit.UnitText) (xs : List Expanded),
    Lifts (parts mode u xs) (Emit.parts mode u xs)
  | u, [] => by
      rw [parts, Emit.parts]
      exact .pure
  | u, x :: rest => by
      rw [parts, Emit.parts]
      exact (lifts_part mode u x).bind (lifts_parts mode u rest)

end

end SeatedEmit

end Nss
