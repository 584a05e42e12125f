/-
# Including a unit again

A directive whose key was activated before opens nothing.  It may be left out, wherever it stands:

    expansion      the same but for the mark of a repeated directive, and with the same registry
    emission       such a mark is passed over

The position of a directive matters only because a parser is asked for whole units.  As no position
is visited twice, leaving out the event at it does not change anything else that is read.
-/
import Nss.Proofs.Include.Visits
import Nss.Proofs.Unit.InPlace

namespace Nss

/-! ## Streams without an event -/

/-- Some events of a unit, `n` of which stand before them, without the one at a position. -/
def Position.remove (position : Position) (unit : Option String) : Nat → List Event → List Event
  | _, [] => []
  | n, e :: es =>
    let rest := position.remove unit (n + 1) es
    if position = ⟨unit, n⟩ then rest else e :: rest

/-- A parser that leaves out the event at a position. -/
def FrontEnd.without (front : FrontEnd) (position : Position) : FrontEnd :=
  fun unit text => position.remove (some unit) 0 (front unit text)

/-- An event at a position does nothing, whenever the position is visited. -/
def Position.Idle (position : Position) (visits : List Visit) : Prop :=
  ∀ v ∈ visits, v.position = position → v.Repeats

/-! ## Expansions without repeated directives -/

namespace Expanded

mutual

/-- What is left of a part of a unit without the marks of repeated directives. -/
def prune : Expanded → List Expanded
  | .problem d => [.problem d]
  | .declaration decl => [.declaration decl]
  | .repeated _ => []
  | .missing key path span => [.missing key path span]
  | .opened key source content => [.opened key source (pruneAll content)]

/-- What is left of parts of a unit without the marks of repeated directives. -/
def pruneAll : List Expanded → List Expanded
  | [] => []
  | x :: rest => prune x ++ pruneAll rest

end

/-- Two expansions are the same but for repeated directives, and leave the same registry. -/
def SamePruned (x y : List Expanded × Registry) : Prop :=
  pruneAll y.1 = pruneAll x.1 ∧ y.2 = x.2

variable {front : FrontEnd} {loader : Loader} {position : Position}
  {descend descend' : Registry → String → Bytes → List Expanded × Registry}
  {look : Registry → String → Bytes → List Visit}

theorem SamePruned.cons {x y : Expanded} {xs ys : List Expanded} {r r' : Registry}
    (hx : y.prune = x.prune) (h : SamePruned (xs, r) (ys, r')) :
    SamePruned (x :: xs, r) (y :: ys, r') :=
  ⟨by rw [pruneAll, pruneAll, hx, h.1], h.2⟩

/-- A directive whose key is registered is marked as repeated, and opens nothing. -/
theorem ofEvent_repeats {unit : Option String} {n : Nat} {e : Event} {r : Registry}
    (h : (Visit.mk ⟨unit, n⟩ e r).Repeats) : ∃ key, ofEvent loader descend r e = (.repeated key, r) := by
  obtain ⟨key, hkey, hcontains⟩ := h
  cases e with
  | problem d | declaration decl => cases hkey
  | inclusion path span =>
      obtain rfl := Option.some.inj hkey
      exact ⟨_, if_pos hcontains⟩

section

variable (hdescend : ∀ r key source, position.Idle (look r key source) →
  SamePruned (descend r key source) (descend' r key source))

include hdescend

/-- An event is followed in the same way if the events that it opens are. -/
theorem ofEvent_same {r : Registry} {e : Event} (h : position.Idle (Visit.ofOpened loader look r e)) :
    (ofEvent loader descend' r e).1.prune = (ofEvent loader descend r e).1.prune ∧
      (ofEvent loader descend' r e).2 = (ofEvent loader descend r e).2 := by
  cases e with
  | problem d => exact ⟨rfl, rfl⟩
  | declaration decl => exact ⟨rfl, rfl⟩
  | inclusion path span =>
      simp only [ofEvent, ofInclusion]
      simp only [Visit.ofOpened] at h
      split
      · exact ⟨rfl, rfl⟩
      · next hnew =>
          rw [if_neg hnew] at h
          cases hload : loader.load (r.normalize path) with
          | error err => exact ⟨rfl, rfl⟩
          | ok source =>
              rw [hload] at h
              obtain ⟨hsame, hregistry⟩ := hdescend _ _ _ h
              exact ⟨by simp only [prune, hsame], hregistry⟩

/-- Events are expanded in the same way without one that does nothing. -/
theorem ofEvents_remove {unit : Option String} {es : List Event} {n : Nat} {r : Registry}
    (h : position.Idle (Visit.ofEvents loader descend look unit n r es)) :
    SamePruned (ofEvents loader descend r es)
      (ofEvents loader descend' r (position.remove unit n es)) := by
  induction es generalizing n r with
  | nil => exact ⟨rfl, rfl⟩
  | cons e es ih =>
      rw [Visit.ofEvents] at h
      obtain ⟨hfirst, hlater⟩ := List.forall_mem_cons.mp h
      obtain ⟨hopened, hrest⟩ := List.forall_mem_append.mp hlater
      have hsame := ih hrest
      rw [ofEvents_cons, Position.remove]
      split
      · next hposition =>
          obtain ⟨key, hkey⟩ := ofEvent_repeats (hfirst hposition.symm)
          rw [hkey] at hsame ⊢
          exact ⟨hsame.1.trans (List.nil_append _).symm, hsame.2⟩
      · obtain ⟨hx, hregistry⟩ := ofEvent_same hdescend hopened
        rw [ofEvents_cons, hregistry]
        exact hsame.cons hx

end

theorem ofUnit_without (front : FrontEnd) (loader : Loader) (position : Position) (n : Nat) :
    ∀ (r : Registry) (unit : String) (source : Bytes),
      position.Idle (Visit.ofUnit front loader n r unit source) →
        SamePruned (ofUnit front loader n r unit source)
          (ofUnit (front.without position) loader n r unit source) := by
  induction n with
  | zero =>
      intro r unit source _
      exact ⟨rfl, rfl⟩
  | succ n ih =>
      intro r unit source h
      exact ofEvents_remove ih h

/-- A unit is expanded in the same way without an event that does nothing, in it or in any unit that
it includes. -/
theorem ofRootEvents_without {r : Registry} {es : List Event}
    (h : position.Idle (Visit.ofRootEvents front loader r es)) :
    SamePruned (ofRootEvents front loader r es)
      (ofRootEvents (front.without position) loader r (position.remove none 0 es)) :=
  ofEvents_remove (ofUnit_without front loader position _) h

end Expanded

/-! ## Emission without repeated directives -/

namespace Emit

theorem parts_append (mode : EmitMode) (u : UnitText) (xs ys : List Expanded) :
    parts mode u (xs ++ ys) = (parts mode u xs >>= fun _ => parts mode u ys) := by
  induction xs with
  | nil =>
      rw [List.nil_append, parts, pure_bind]
  | cons x xs ih =>
      rw [List.cons_append, parts, parts, ih]
      exact (bind_assoc _ _ _).symm

theorem parts_singleton (mode : EmitMode) (u : UnitText) (x : Expanded) :
    parts mode u [x] = part mode u x := by
  rw [parts, parts]
  exact bind_pure_unit

mutual

theorem parts_prune (mode : EmitMode) : ∀ (u : UnitText) (x : Expanded),
    parts mode u x.prune = part mode u x
  | u, .problem d => by
      rw [Expanded.prune, parts_singleton]
  | u, .declaration decl => by
      rw [Expanded.prune, parts_singleton]
  | u, .repeated key => by
      rw [Expanded.prune, parts, part]
  | u, .missing key path span => by
      rw [Expanded.prune, parts_singleton]
  | u, .opened key source content => by
      rw [Expanded.prune, parts_singleton, part, part, parts_pruneAll mode _ content]

theorem parts_pruneAll (mode : EmitMode) : ∀ (u : UnitText) (xs : List Expanded),
    parts mode u (Expanded.pruneAll xs) = parts mode u xs
  | u, [] => by
      rw [Expanded.pruneAll]
  | u, x :: rest => by
      rw [Expanded.pruneAll, parts_append, parts_prune mode u x, parts_pruneAll mode u rest, parts]

end

/-- What is left without the marks of repeated directives is emitted in the same way. -/
theorem parts_congr {mode : EmitMode} (u : UnitText) {xs ys : List Expanded}
    (h : Expanded.pruneAll ys = Expanded.pruneAll xs) : parts mode u ys = parts mode u xs := by
  rw [← parts_pruneAll mode u ys, h, parts_pruneAll]

end Emit

/-- An emission only depends on what the outermost unit consists of but for repeated directives. -/
theorem emitEvents_congr {front front' : FrontEnd} {loader : Loader} {i : Instance}
    {outer : List Instance} {r : Registry} {symbols : Symbols} {es es' : List Event}
    (h : Expanded.SamePruned (Expanded.ofRootEvents front loader r es)
      (Expanded.ofRootEvents front' loader r es')) :
    emitEvents front' loader i outer r symbols es' = emitEvents front loader i outer r symbols es := by
  simp only [emitEvents, Emit.rootOfEvents, Emit.outermost, Steps.bind_apply, Steps.modify_apply,
    Steps.get_apply, EmitState.start, Emit.parts_congr _ h.1]

/-- Once a directive has activated a key, any later one that asks for the key may be left out, in
whatever unit the two stand: the emission ends in the same way, with the same instances, the same
registry and the same symbol table. -/
theorem emitRoot_without_repeated {front : FrontEnd} {loader : Loader} {i : Instance}
    {outer : List Instance} {r : Registry} {symbols : Symbols} {text : Bytes} {m n : Nat}
    {v w : Visit} {key : String} (htext : i.source.bytes? = some text)
    (hv : (Visit.ofRootEvents front loader r (front i.name (Bytes.toText text)))[m]? = some v)
    (hw : (Visit.ofRootEvents front loader r (front i.name (Bytes.toText text)))[n]? = some w)
    (hlater : m < n) (hactivates : v.Activates key) (hasks : w.Asks key) :
    emitEvents (front.without w.position) loader i outer r symbols
        (w.position.remove none 0 (front i.name (Bytes.toText text)))
      = emitRoot front loader .full (i :: outer) r symbols := by
  rw [emitRoot_eq_emitEvents htext]
  refine emitEvents_congr (Expanded.ofRootEvents_without ?_)
  exact Visit.repeats_at hv hw hlater hactivates hasks

/-! ### Units that include each other -/

/-- Two units to be included, each of which includes the other. -/
def circle : List (String × Bytes) :=
  [("lib", Bytes.ofText "#include \"base\" int Four(int n) { return Twice(Twice(n)); }"),
    ("base", Bytes.ofText "#include \"sub/LIB.nss\" int Twice(int n) { return n + n; }")]

/-- A script that includes one of them. -/
def includesCircle : String := "#include \"lib\" void main() { Four(1); }"

theorem emitRoot_without_repeated_includesCircle :
    ∃ v w : Visit,
      (Visit.ofRootEvents scriptFrontEnd (.ofSources circle) .empty
        (scriptFrontEnd "script" includesCircle))[0]? = some v ∧
      (Visit.ofRootEvents scriptFrontEnd (.ofSources circle) .empty
        (scriptFrontEnd "script" includesCircle))[2]? = some w ∧
      v.Activates "lib" ∧ w.Asks "lib" ∧ w.position = ⟨some "base", 0⟩ ∧
      emitEvents (scriptFrontEnd.without w.position) (.ofSources circle) (.ofText includesCircle) []
          .empty .empty (w.position.remove none 0 (scriptFrontEnd "script" includesCircle))
        = emitRoot scriptFrontEnd (.ofSources circle) .full [.ofText includesCircle] .empty
          .empty := by
  have hread : scriptFrontEnd (Instance.ofText includesCircle).name
      (Bytes.toText (Bytes.ofText includesCircle)) = scriptFrontEnd "script" includesCircle := by
    rw [Bytes.toText_ofText]
    rfl
  have hfirst : (Visit.ofRootEvents scriptFrontEnd (.ofSources circle) .empty
      (scriptFrontEnd "script" includesCircle))[0]?.any (fun v => v.Activates "lib") = true := by
    decide +kernel
  have hsecond : (Visit.ofRootEvents scriptFrontEnd (.ofSources circle) .empty
      (scriptFrontEnd "script" includesCircle))[2]?.any
        (fun w => w.Asks "lib" ∧ w.position = ⟨some "base", 0⟩) = true := by
    decide +kernel
  obtain ⟨v, hv, hactivates⟩ := (Option.any_eq_true _ _).mp hfirst
  obtain ⟨w, hw, hasks⟩ := (Option.any_eq_true _ _).mp hsecond
  rw [decide_eq_true_eq] at hactivates hasks
  refine ⟨v, w, hv, hw, hactivates, hasks.1, hasks.2, ?_⟩
  rw [← hread] at hv hw ⊢
  exact emitRoot_without_repeated rfl hv hw (by decide) hactivates hasks.1

end Nss
