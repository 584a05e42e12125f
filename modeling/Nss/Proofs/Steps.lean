/-
# Running stateful steps

Lowering, parsing, emission and assembly are all steps that change a state and may fail.  What such
a step did is read off its parts: a sequence succeeds when both parts do, and fails when one of them
does.

Two steps are compared by maps: one of them, seen through maps of its states, values and errors, may
be the other one.
-/
import Mathlib.Tactic.Common

namespace Nss.Steps

variable {ε σ α β : Type}

/-! ## Single steps -/

theorem pure_apply (a : α) (s : σ) : (pure a : EStateM ε σ α) s = .ok a s := rfl

theorem get_apply (s : σ) : (get : EStateM ε σ σ) s = .ok s s := rfl

theorem set_apply (t s : σ) : (set t : EStateM ε σ PUnit) s = .ok ⟨⟩ t := rfl

theorem modify_apply (f : σ → σ) (s : σ) : (modify f : EStateM ε σ PUnit) s = .ok ⟨⟩ (f s) := rfl

theorem throw_apply (e : ε) (s : σ) : (throw e : EStateM ε σ α) s = .error e s := rfl

/-! ## Sequences -/

theorem bind_apply (p : EStateM ε σ α) (k : α → EStateM ε σ β) (s : σ) :
    (p >>= k) s = match p s with
      | .ok a t => k a t
      | .error e t => .error e t := rfl

/-- Behind a part that succeeds, a sequence goes on with the rest. -/
theorem bind_of_ok {p : EStateM ε σ α} {k : α → EStateM ε σ β} {s t : σ} {a : α}
    (h : p s = .ok a t) : (p >>= k) s = k a t := by
  rw [bind_apply, h]

/-- A sequence succeeds when both of its parts do. -/
theorem bind_eq_ok {p : EStateM ε σ α} {k : α → EStateM ε σ β} {s s' : σ} {b : β} :
    (p >>= k) s = .ok b s' ↔ ∃ a t, p s = .ok a t ∧ k a t = .ok b s' := by
  rw [bind_apply]
  cases h : p s with
  | ok a t => simp
  | error e t => simp

/-- A sequence fails when its first part does, or when that succeeds and the second one fails. -/
theorem bind_eq_error {p : EStateM ε σ α} {k : α → EStateM ε σ β} {s s' : σ} {e : ε} :
    (p >>= k) s = .error e s' ↔
      p s = .error e s' ∨ ∃ a t, p s = .ok a t ∧ k a t = .error e s' := by
  rw [bind_apply]
  cases h : p s with
  | ok a t => simp
  | error e t => simp

/-- A sequence without a state succeeds when both of its parts do. -/
theorem except_bind_eq_ok {x : Except ε α} {k : α → Except ε β} {b : β} :
    (x >>= k) = .ok b ↔ ∃ a, x = .ok a ∧ k a = .ok b := by
  cases x with
  | error e =>
      refine ⟨?_, ?_⟩
      · intro h
        cases h
      · rintro ⟨a, ha, -⟩
        cases ha
  | ok a =>
      refine ⟨fun h => ⟨a, rfl, h⟩, ?_⟩
      rintro ⟨a', ha, h⟩
      obtain rfl := Except.ok.inj ha
      exact h

theorem except_bind_eq_error {x : Except ε α} {k : α → Except ε β} {e : ε} :
    (x >>= k) = .error e ↔ x = .error e ∨ ∃ a, x = .ok a ∧ k a = .error e := by
  cases x with
  | error e' => simp [bind, Except.bind]
  | ok a => simp [bind, Except.bind]

theorem except_map_eq_ok {f : α → β} {x : Except ε α} {b : β} :
    x.map f = .ok b ↔ ∃ a, x = .ok a ∧ f a = b := by
  cases x with
  | error e => simp [Except.map]
  | ok a => simp [Except.map]

/-- Two outcomes of which the same is seen are failures with the same error, or the same is seen of
what they give. -/
theorem except_map_eq_map {f : α → β} {x y : Except ε α} (h : x.map f = y.map f) :
    (∃ e, x = .error e ∧ y = .error e) ∨ ∃ a b, x = .ok a ∧ y = .ok b ∧ f a = f b := by
  cases x with
  | error e =>
      cases y with
      | error e' =>
          obtain rfl := Except.error.inj h
          exact .inl ⟨e, rfl, rfl⟩
      | ok b => cases h
  | ok a =>
      cases y with
      | error e => cases h
      | ok b => exact .inr ⟨a, b, rfl, rfl, Except.ok.inj h⟩

/-! ## Relations that steps stay in -/

/-- A step stays in a relation between states, also if it fails, and what it fails with has a
property. -/
def Moves (R : σ → σ → Prop) (E : ε → Prop) (p : EStateM ε σ α) : Prop :=
  ∀ s, (∀ a t, p s = .ok a t → R s t) ∧ ∀ e t, p s = .error e t → R s t ∧ E e

namespace Moves

variable {R : σ → σ → Prop} {E : ε → Prop}

theorem of_ok {p : EStateM ε σ α} {a : σ → α} {step : σ → σ} (hp : ∀ s, p s = .ok (a s) (step s))
    (h : ∀ s, R s (step s)) : Moves R E p := by
  intro s
  rw [hp]
  refine ⟨?_, ?_⟩
  · intro b t ht
    obtain rfl := (EStateM.Result.ok.inj ht).2
    exact h s
  · intro e t ht
    cases ht

theorem pure (hrefl : ∀ s, R s s) (a : α) : Moves R E (Pure.pure a : EStateM ε σ α) :=
  of_ok (fun s => pure_apply a s) hrefl

theorem get (hrefl : ∀ s, R s s) : Moves R E (MonadState.get : EStateM ε σ σ) :=
  of_ok (fun s => get_apply s) hrefl

theorem throw (hrefl : ∀ s, R s s) {e : ε} (he : E e) :
    Moves R E (throw e : EStateM ε σ α) := by
  intro s
  rw [throw_apply]
  refine ⟨?_, ?_⟩
  · intro a t ht
    cases ht
  · intro e' t ht
    obtain ⟨rfl, rfl⟩ := EStateM.Result.error.inj ht
    exact ⟨hrefl s, he⟩

/-- The second part of a sequence may rely on what the first one gave. -/
theorem bind_of (htrans : ∀ s t u, R s t → R t u → R s u) {p : EStateM ε σ α}
    {k : α → EStateM ε σ β} (hp : Moves R E p)
    (hk : ∀ s a t, p s = .ok a t → Moves R E (k a)) : Moves R E (p >>= k) := by
  intro s
  refine ⟨?_, ?_⟩
  · intro b u hu
    obtain ⟨a, t, ht, hu⟩ := bind_eq_ok.mp hu
    exact htrans _ _ _ ((hp s).1 a t ht) ((hk s a t ht t).1 b u hu)
  · intro e u hu
    rcases bind_eq_error.mp hu with hu | ⟨a, t, ht, hu⟩
    · exact (hp s).2 e u hu
    · obtain ⟨htu, he⟩ := (hk s a t ht t).2 e u hu
      exact ⟨htrans _ _ _ ((hp s).1 a t ht) htu, he⟩

end Moves

/-! ## What steps keep -/

/-- A step keeps an invariant, also if it fails, and what it gives has a property. -/
def Keeps (I : σ → Prop) (P : α → Prop) (p : EStateM ε σ α) : Prop :=
  ∀ s, I s → (∀ a t, p s = .ok a t → I t ∧ P a) ∧ ∀ e t, p s = .error e t → I t

namespace Keeps

variable {I : σ → Prop} {P : α → Prop} {Q : β → Prop}

theorem of_ok {p : EStateM ε σ α} {a : σ → α} {step : σ → σ} (hp : ∀ s, p s = .ok (a s) (step s))
    (h : ∀ s, I s → I (step s) ∧ P (a s)) : Keeps I P p := by
  intro s hs
  rw [hp]
  refine ⟨?_, ?_⟩
  · intro b t ht
    obtain ⟨rfl, rfl⟩ := EStateM.Result.ok.inj ht
    exact h s hs
  · intro e t ht
    cases ht

theorem pure {a : α} (ha : P a) : Keeps I P (Pure.pure a : EStateM ε σ α) :=
  of_ok (fun s => pure_apply a s) fun _ hs => ⟨hs, ha⟩

theorem throw (e : ε) : Keeps I P (throw e : EStateM ε σ α) := by
  intro s hs
  rw [throw_apply]
  refine ⟨?_, ?_⟩
  · intro a t ht
    cases ht
  · intro e' t ht
    obtain rfl := (EStateM.Result.error.inj ht).2
    exact hs

/-- The second part of a sequence may rely on what the first one gave. -/
theorem bind {p : EStateM ε σ α} {k : α → EStateM ε σ β} (hp : Keeps I P p)
    (hk : ∀ a, P a → Keeps I Q (k a)) : Keeps I Q (p >>= k) := by
  intro s hs
  refine ⟨?_, ?_⟩
  · intro b u hu
    obtain ⟨a, t, ht, hu⟩ := bind_eq_ok.mp hu
    obtain ⟨hinv, ha⟩ := (hp s hs).1 a t ht
    exact (hk a ha t hinv).1 b u hu
  · intro e u hu
    rcases bind_eq_error.mp hu with hu | ⟨a, t, ht, hu⟩
    · exact (hp s hs).2 e u hu
    · obtain ⟨hinv, ha⟩ := (hp s hs).1 a t ht
      exact (hk a ha t hinv).2 e u hu

end Keeps

/-! ## Steps seen through maps -/

section

variable {δ τ α' β' : Type} {η : ε → δ} {φ : σ → τ}

/-- What a step gives, seen through maps of errors, states and values. -/
def mapResult (η : ε → δ) (φ : σ → τ) (u : α → α') :
    EStateM.Result ε σ α → EStateM.Result δ τ α'
  | .ok a s => .ok (u a) (φ s)
  | .error e s => .error (η e) (φ s)

/-- A step that is seen through maps is another step. -/
def Seen (η : ε → δ) (φ : σ → τ) (u : α → α') (p : EStateM ε σ α) (q : EStateM δ τ α') : Prop :=
  ∀ s, q (φ s) = mapResult η φ u (p s)

namespace Seen

variable {u : α → α'} {v : β → β'}

theorem pure (a : α) : Seen η φ u (Pure.pure a) (Pure.pure (u a)) := fun _ => rfl

theorem throw (e : ε) : Seen η φ u (MonadExcept.throw e) (MonadExcept.throw (η e)) := fun _ => rfl

theorem update {f : σ → σ} {g : τ → τ} (h : ∀ s, g (φ s) = φ (f s)) :
    Seen η φ id (modify f) (modify g) := by
  intro s
  rw [modify_apply, modify_apply, h s]
  rfl

theorem bind {p : EStateM ε σ α} {q : EStateM δ τ α'} {k : α → EStateM ε σ β}
    {l : α' → EStateM δ τ β'} (hp : Seen η φ u p q) (hk : ∀ a, Seen η φ v (k a) (l (u a))) :
    Seen η φ v (p >>= k) (q >>= l) := by
  intro s
  rw [bind_apply, bind_apply, hp s]
  cases p s with
  | ok a t => exact hk a t
  | error e t => rfl

theorem map {p : EStateM ε σ α} {q : EStateM δ τ α'} {f : α → β} {g : α' → β'}
    (hp : Seen η φ u p q) (h : ∀ a, g (u a) = v (f a)) : Seen η φ v (f <$> p) (g <$> q) := by
  intro s
  have hrun := hp s
  simp only [Functor.map, EStateM.map, hrun]
  cases p s with
  | ok a t => simp [mapResult, h]
  | error e t => rfl

/-- What is done with a state may depend on it, as long as it is seen in the same way. -/
theorem read {k : σ → EStateM ε σ β} {l : τ → EStateM δ τ β'}
    (h : ∀ s, Seen η φ v (k s) (l (φ s))) :
    Seen η φ v (MonadState.get >>= k) (MonadState.get >>= l) :=
  fun s => h s s

end Seen

end

end Nss.Steps
