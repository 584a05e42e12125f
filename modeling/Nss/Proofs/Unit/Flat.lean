/-
# Emission without nesting

A unit that is opened is emitted into an instance of its own, which is then taken over by the one
around it.  The same comes out if no such instance is made and everything is emitted into the
outermost one: a tree of units is a list of acts, each of which knows the unit that it belongs to.

    parts of a unit       their acts, one after the other
    an opened unit        its key is registered, then come the acts of what it consists of

It does not matter whether an act of an opened unit is performed before or after the unit is taken
over (`perform_closed`): its effect on the symbol table is the same on moved bodies, and the code
that it adds comes to lie in the same place.  From this step follows the same for all acts of the
unit, and then `parts_eq_ok_iff` by induction on the tree.
-/
import Nss.Proofs.Unit.Room
import Nss.Proofs.Unit.Root

namespace Nss

open Steps

/-! ## Acts -/

/-- A step of an emission, with the unit that it belongs to. -/
inductive Act where
  | problem (u : Emit.UnitText) (d : Diagnostic)
  | declaration (u : Emit.UnitText) (decl : Declaration)
  | registered (key : String)

theorem Instance.Roomy.reports {i : Instance} (h : i.Roomy) (ds : List Diagnostic) :
    (i.reports ds).Roomy :=
  ⟨h.alive, h.buffer, h.granted⟩

namespace EmitState

/-- A state with the code of one more function. -/
def adds (s : EmitState) (id : Nat) (l : Lowering) : EmitState :=
  { s with
    current := (s.current.withCode l.code).define id
    symbols := s.symbols.attachBody id ⟨s.current.code.size, l.code.size, l.labels⟩ }

/-- A state after an effect, if there is memory for it. -/
def takes (s : EmitState) (u : Emit.UnitText) (e : Effect) : Option EmitState :=
  let t := { s with symbols := e.symbols }.reports u e.diagnostics
  match e.body with
  | none => some t
  | some (id, l) =>
    if Buffer.Granted (s.current.code.size + l.code.size) then some (t.adds id l) else none

/-- A state after an act, if there is memory for it. -/
def perform (s : EmitState) : Act → Option EmitState
  | .problem u d => some (s.reports u [d])
  | .declaration u decl => (s.notes decl).takes u (decl.effect u.name s.symbols)
  | .registered key => some { s with registry := (s.registry.register key).2 }

/-- A state after some acts, if there is memory for them. -/
def performAll (s : EmitState) : List Act → Option EmitState
  | [] => some s
  | a :: rest => (s.perform a).bind fun t => t.performAll rest

theorem performAll_append : ∀ (acts more : List Act) (s : EmitState),
    s.performAll (acts ++ more) = (s.performAll acts).bind fun t => t.performAll more
  | [], _, _ => rfl
  | a :: acts, more, s => by
      rw [List.cons_append, performAll, performAll, Option.bind_assoc]
      exact congrArg _ (funext fun t => performAll_append acts more t)

end EmitState

mutual

/-- The acts of a part of a unit. -/
def Expanded.acts (u : Emit.UnitText) : Expanded → List Act
  | .problem d => [.problem u d]
  | .declaration decl => [.declaration u decl]
  | .repeated _ => []
  | .missing key path span => [.registered key, .problem u (.error (.cannotOpenInclude path) span)]
  | .opened key source content =>
    .registered key :: Expanded.allActs ⟨key, Bytes.toText source⟩ content

/-- The acts of parts of a unit. -/
def Expanded.allActs (u : Emit.UnitText) : List Expanded → List Act
  | [] => []
  | x :: rest => Expanded.acts u x ++ Expanded.allActs u rest

end

mutual

/-- There is memory for the sources of the units that are opened in a part of a unit. -/
def Expanded.Loadable : Expanded → Prop
  | .problem _ | .declaration _ | .repeated _ | .missing _ _ _ => True
  | .opened _ source content => addressable source.length = true ∧ Expanded.AllLoadable content

/-- There is memory for the sources of the units that are opened in parts of a unit. -/
def Expanded.AllLoadable : List Expanded → Prop
  | [] => True
  | x :: rest => x.Loadable ∧ Expanded.AllLoadable rest

end

/-! ## Single steps of an emission as acts -/

namespace Emit

open EmitState

variable {s s' : EmitState} {u : UnitText}

/-- Code can be added to a unit exactly when there is memory for it. -/
theorem addBody_eq_ok_iff (hs : s.current.Roomy) {id : Nat} {l : Lowering} :
    addBody id l s = .ok () s' ↔
      Buffer.Granted (s.current.code.size + l.code.size) ∧ s' = s.adds id l := by
  rw [addBody_apply]
  constructor
  · intro h
    rcases happend : s.current.appendCode addressable l with ⟨i, e | body⟩
    · rw [happend] at h
      cases h
    · rw [happend] at h
      obtain ⟨hgranted, rfl, rfl⟩ := hs.appendCode_eq_ok.mp happend
      exact ⟨hgranted, (EStateM.Result.ok.inj h).2.symm⟩
  · rintro ⟨hgranted, rfl⟩
    rw [hs.appendCode_eq_ok.mpr ⟨hgranted, rfl, rfl⟩]
    rfl

theorem carry_eq_ok_iff (hs : s.current.Roomy) {e : Effect} :
    carry u e s = .ok () s' ↔ s.takes u e = some s' := by
  rw [carry, takes]
  cases e.body with
  | none => simp
  | some added =>
      dsimp only
      rw [addBody_eq_ok_iff (hs.reports _), Option.ite_none_right_eq_some, Option.some.injEq]
      exact and_congr Iff.rfl eq_comm

theorem part_declaration_eq_ok_iff (hs : s.current.Roomy) {decl : Declaration} :
    part .full u (.declaration decl) s = .ok () s' ↔
      s.perform (.declaration u decl) = some s' := by
  rw [part_declaration_apply]
  exact carry_eq_ok_iff (s := s.notes decl) hs

/-! ## Units that are taken over -/

end Emit

/-- A state of an opened unit once the unit is taken over by the one around it. -/
def EmitState.closed (s : EmitState) (around : Instance) (outer : List Instance) : EmitState :=
  { s with
    current := around.joined s.current
    outer := outer
    symbols := s.symbols.rebase s.current.defined around.code.size }

namespace Emit

open EmitState

variable {s s' : EmitState} {u : UnitText}

theorem absorb_eq_ok_iff (hs : s.current.Roomy) {child : Instance} (hchild : child.Roomy) :
    absorb child s = .ok () s' ↔
      Buffer.Granted (s.current.code.size + child.code.size) ∧
        s' = { s with
          current := s.current.joined child
          symbols := s.symbols.rebase child.defined s.current.code.size } := by
  rw [absorb_apply]
  rcases habsorb : s.current.absorb addressable child with ⟨i, child', e | offset⟩
  · have hnot : ¬ Buffer.Granted (s.current.code.size + child.code.size) := by
      intro hgranted
      obtain ⟨c', hc'⟩ := Instance.absorb_of_granted hs hchild hgranted
      rw [hc'] at habsorb
      cases (Prod.mk.inj (Prod.mk.inj habsorb).2).2
    simp [hnot]
  · obtain ⟨hgranted, rfl, rfl⟩ := (hs.absorb_eq_ok hchild).mp ⟨child', habsorb⟩
    simp [hgranted, eq_comm]

/-- An opened unit is emitted in an instance of its own, and that is taken over. -/
theorem nested_eq_ok_iff (hs : s.current.Roomy) {key : String} {source : Bytes}
    {content : Emit Unit}
    (hcontent : ∀ {child t}, child.Roomy → content (s.entering key child) = .ok () t →
      t.current.Roomy) :
    nested key source content s = .ok () s' ↔
      ∃ child t, Instance.begin? addressable key source s.current.debug false = .ok child ∧
        content (s.entering key child) = .ok () t ∧
        Buffer.Granted (s.current.code.size + t.current.code.size) ∧
        s' = t.closed s.current s.outer := by
  refine nested_eq_ok.trans (exists_congr fun child => exists_congr fun t => ?_)
  refine and_congr_right fun hbegin => and_congr_right fun hrun => ?_
  exact absorb_eq_ok_iff (s := { t with current := s.current, outer := s.outer }) hs
    (hcontent (Instance.roomy_of_begin? hbegin) hrun)

end Emit

/-! ## What acts preserve -/

namespace EmitState

variable {s t : EmitState} {a : Act}

/-- What acts need of a state. -/
structure Ready (s : EmitState) : Prop where
  roomy : s.current.Roomy
  numbered : s.symbols.Numbered

/-- The functions whose code lies in the buffer have bodies. -/
def Bodied (s : EmitState) : Prop := ∀ id ∈ s.current.defined, (s.symbols.body? id).isSome = true

theorem takes_eq_some {u : Emit.UnitText} {e : Effect} (h : s.takes u e = some t) :
    (e.body = none ∧ t = { s with symbols := e.symbols }.reports u e.diagnostics) ∨
      ∃ id l, e.body = some (id, l) ∧ Buffer.Granted (s.current.code.size + l.code.size) ∧
        t = ({ s with symbols := e.symbols }.reports u e.diagnostics).adds id l := by
  rw [takes] at h
  cases hbody : e.body with
  | none =>
      rw [hbody] at h
      exact .inl ⟨rfl, (Option.some.inj h).symm⟩
  | some added =>
      obtain ⟨id, l⟩ := added
      rw [hbody] at h
      simp only [Option.ite_none_right_eq_some, Option.some.injEq] at h
      exact .inr ⟨id, l, rfl, h.1, h.2.symm⟩

theorem Ready.adds (hs : s.Ready) (id : Nat) {l : Lowering}
    (hgranted : Buffer.Granted (s.current.code.size + l.code.size)) : (s.adds id l).Ready := by
  have hcode := hs.roomy.withCode hgranted
  exact ⟨⟨hcode.alive, hcode.buffer, hcode.granted⟩, hs.numbered.attachBody _ _⟩

theorem Bodied.adds (hb : s.Bodied) {id : Nat} (hid : id < s.symbols.functions.length)
    (l : Lowering) : (s.adds id l).Bodied := by
  have hself (b : FunctionBody) : ((s.symbols.attachBody id b).body? id).isSome = true := by
    rw [Symbols.body?_attachBody_self hid]
    rfl
  refine List.forall_mem_append.mpr ⟨?_, List.forall_mem_singleton.mpr (hself _)⟩
  intro id' hid'
  by_cases heq : id = id'
  · rw [← heq]
    exact hself _
  · show ((Symbols.attachBody _ id _).body? id').isSome = true
    rw [Symbols.attachBody, Symbols.body?_modifyFunction_ne heq]
    exact hb id' hid'

theorem Ready.perform (hs : s.Ready) (h : s.perform a = some t) : t.Ready := by
  cases a with
  | problem u d =>
      obtain rfl := Option.some.inj h
      exact ⟨hs.roomy.reports _, hs.numbered⟩
  | registered key =>
      obtain rfl := Option.some.inj h
      exact ⟨hs.roomy, hs.numbered⟩
  | declaration u decl =>
      have hsound := decl.effect_sound hs.numbered u.name
      rcases takes_eq_some h with ⟨-, rfl⟩ | ⟨id, l, -, hgranted, rfl⟩
      · exact ⟨hs.roomy.reports _, hsound.numbered⟩
      · refine Ready.adds ⟨hs.roomy.reports _, hsound.numbered⟩ id ?_
        exact hgranted

theorem Ready.performAll (hs : s.Ready) {acts : List Act} (h : s.performAll acts = some t) :
    t.Ready := by
  induction acts generalizing s with
  | nil =>
      obtain rfl := Option.some.inj h
      exact hs
  | cons a rest ih =>
      obtain ⟨s', hs', h⟩ := Option.bind_eq_some_iff.mp h
      exact ih (hs.perform hs') h

theorem Bodied.perform (hb : s.Bodied) (hs : s.symbols.Numbered) (h : s.perform a = some t) :
    t.Bodied := by
  cases a with
  | problem u d =>
      obtain rfl := Option.some.inj h
      exact hb
  | registered key =>
      obtain rfl := Option.some.inj h
      exact hb
  | declaration u decl =>
      have hsound := decl.effect_sound hs u.name
      have hdeclared : ∀ id ∈ s.current.defined,
          ((decl.effect u.name s.symbols).symbols.body? id).isSome = true := by
        intro id hid
        rw [hsound.bodies]
        exact hb id hid
      rcases takes_eq_some h with ⟨-, rfl⟩ | ⟨id, l, hbody, -, rfl⟩
      · exact hdeclared
      · refine Bodied.adds ?_ (hsound.known id l hbody) l
        exact hdeclared

/-- Acts only add code. -/
theorem size_le_perform (h : s.perform a = some t) : s.current.code.size ≤ t.current.code.size := by
  cases a with
  | problem u d =>
      obtain rfl := Option.some.inj h
      exact Nat.le_refl _
  | registered key =>
      obtain rfl := Option.some.inj h
      exact Nat.le_refl _
  | declaration u decl =>
      rcases takes_eq_some h with ⟨-, rfl⟩ | ⟨id, l, -, -, rfl⟩
      · exact Nat.le_refl _
      · show s.current.code.size ≤ (Instance.withCode _ l.code).code.size
        rw [Instance.code_withCode, Array.size_append]
        exact Nat.le_add_right _ _

theorem size_le_performAll {acts : List Act} (h : s.performAll acts = some t) :
    s.current.code.size ≤ t.current.code.size := by
  induction acts generalizing s with
  | nil =>
      obtain rfl := Option.some.inj h
      exact Nat.le_refl _
  | cons a rest ih =>
      obtain ⟨s', hs', h⟩ := Option.bind_eq_some_iff.mp h
      exact Nat.le_trans (size_le_perform hs') (ih h)

/-! ## Acts before and after a unit is taken over -/

variable {p : Instance} {outer : List Instance}

/-- A state of an opened unit once the unit is taken over, if there is memory for that. -/
def close? (s : EmitState) (p : Instance) (outer : List Instance) : Option EmitState :=
  if Buffer.Granted (p.code.size + s.current.code.size) then some (s.closed p outer) else none

theorem reports_closed (s : EmitState) (p : Instance) (outer : List Instance) (u : Emit.UnitText)
    (ds : List Diagnostic) : (s.closed p outer).reports u ds = (s.reports u ds).closed p outer := by
  simp only [EmitState.reports, closed, Instance.reports, Instance.joined, Nat.add_assoc,
    List.append_assoc]

/-- The code of a function comes to lie in the same place, whether its unit is taken over before or
after it. -/
theorem adds_closed {id : Nat} (hid : id ∉ s.current.defined) (l : Lowering) :
    (s.closed p outer).adds id l = (s.adds id l).closed p outer := by
  have hcode : ((p.joined s.current).withCode l.code).define id
      = p.joined ((s.current.withCode l.code).define id) := by
    rw [Instance.withCode, Instance.code_joined, Instance.define, Instance.joined, Instance.joined,
      Instance.withCode, Instance.define]
    simp only [Array.append_assoc, List.append_assoc]
    rfl
  have hsymbols : (s.symbols.rebase s.current.defined p.code.size).attachBody id
        ⟨(p.joined s.current).code.size, l.code.size, l.labels⟩
      = (s.symbols.attachBody id ⟨s.current.code.size, l.code.size, l.labels⟩).rebase
          (s.current.defined ++ [id]) p.code.size := by
    rw [Symbols.attachBody_rebase hid, Instance.code_joined, Array.size_append, Nat.add_comm]
    rfl
  rw [EmitState.adds, EmitState.adds, closed, closed]
  dsimp only
  rw [hcode, hsymbols]
  rfl

/-- An effect may be had before or after a unit is taken over. -/
theorem takes_closed (u : Emit.UnitText) {e : Effect}
    (hfresh : ∀ id l, e.body = some (id, l) → id ∉ s.current.defined)
    (hgranted : Buffer.Granted (p.code.size + s.current.code.size)) :
    (s.closed p outer).takes u (e.map (·.rebase s.current.defined p.code.size))
      = (s.takes u e).bind (·.close? p outer) := by
  let t := { s with symbols := e.symbols }.reports u e.diagnostics
  have ht : { s.closed p outer with
      symbols := e.symbols.rebase s.current.defined p.code.size }.reports u e.diagnostics
        = t.closed p outer :=
    reports_closed { s with symbols := e.symbols } p outer u e.diagnostics
  have hsize : (s.closed p outer).current.code.size = p.code.size + s.current.code.size := by
    show (p.joined s.current).code.size = _
    rw [Instance.code_joined, Array.size_append]
  rw [takes, takes, Effect.map]
  dsimp only
  rw [ht, hsize]
  cases hbody : e.body with
  | none => exact (if_pos hgranted).symm
  | some added =>
      obtain ⟨id, l⟩ := added
      have hid : id ∉ t.current.defined := hfresh id l hbody
      have htsize : (t.adds id l).current.code.size = s.current.code.size + l.code.size := by
        show (Instance.withCode _ l.code).code.size = _
        rw [Instance.code_withCode, Array.size_append]
        rfl
      dsimp only
      rw [adds_closed hid, Nat.add_assoc]
      by_cases hall : Buffer.Granted (p.code.size + (s.current.code.size + l.code.size))
      · rw [if_pos hall, if_pos (hall.mono (Nat.le_add_left _ _)), Option.bind_some, close?, htsize,
          if_pos hall]
      · rw [if_neg hall]
        split
        · rw [Option.bind_some, close?, htsize, if_neg hall]
        · rfl

/-- An act may be performed before or after a unit is taken over. -/
theorem perform_closed (hs : s.Ready) (hb : s.Bodied) (a : Act)
    (hgranted : Buffer.Granted (p.code.size + s.current.code.size)) :
    (s.closed p outer).perform a = (s.perform a).bind (·.close? p outer) := by
  cases a with
  | problem u d =>
      show some ((s.closed p outer).reports u [d]) = (s.reports u [d]).close? p outer
      rw [reports_closed]
      exact (if_pos hgranted).symm
  | registered key => exact (if_pos hgranted).symm
  | declaration u decl =>
      have hfresh : ∀ id l, (decl.effect u.name s.symbols).body = some (id, l) →
          id ∉ s.current.defined := by
        intro id l hbody hid
        have hsome := hb id hid
        rw [(decl.effect_sound hs.numbered u.name).fresh id l hbody] at hsome
        cases hsome
      have heffect : decl.effect u.name (s.closed p outer).symbols
          = (decl.effect u.name s.symbols).map (·.rebase s.current.defined p.code.size) :=
        decl.effect_rebase u.name s.symbols s.current.defined p.code.size
      rw [perform, heffect]
      exact takes_closed (s := s.notes decl) u hfresh hgranted

/-- The acts of a unit may be performed before or after the unit is taken over. -/
theorem performAll_closed : ∀ {acts : List Act} {s : EmitState}, s.Ready → s.Bodied →
    Buffer.Granted (p.code.size + s.current.code.size) →
      (s.closed p outer).performAll acts = (s.performAll acts).bind (·.close? p outer)
  | [], s, _, _, hgranted => (if_pos hgranted).symm
  | a :: rest, s, hs, hb, hgranted => by
      rw [performAll, performAll, perform_closed hs hb a hgranted]
      cases hperform : s.perform a with
      | none => rfl
      | some t =>
          rw [Option.bind_some, Option.bind_some, close?]
          by_cases ht : Buffer.Granted (p.code.size + t.current.code.size)
          · rw [if_pos ht, Option.bind_some,
              performAll_closed (hs.perform hperform) (hb.perform hs.numbered hperform) ht]
          · -- more acts do not make room
            rw [if_neg ht, Option.bind_none]
            cases hrest : t.performAll rest with
            | none => rfl
            | some t' =>
                have hle := size_le_performAll hrest
                rw [Option.bind_some, close?,
                  if_neg fun ht' => ht (ht'.mono (Nat.add_le_add_left hle _))]

end EmitState

/-! ## Emission as a list of acts -/

namespace Emit

open EmitState

/-- The acts of a unit that was begun may be performed in the unit around it. -/
theorem performAll_begun {s : EmitState} (hs : s.Ready) {key : String} {source : Bytes}
    {debug owns : Bool} {child : Instance}
    (hbegin : Instance.begin? addressable key source debug owns = .ok child) {acts : List Act} :
    (s.registering key).performAll acts
      = ((s.entering key child).performAll acts).bind (·.close? s.current s.outer) := by
  obtain ⟨-, hbuffer, hdefined, -, -⟩ := Instance.blank_of_begin? hbegin
  have hclosed : (s.entering key child).closed s.current s.outer = s.registering key := by
    rw [closed, entering, Instance.joined_of_begin? hbegin, hdefined]
    rfl
  rw [← hclosed]
  refine performAll_closed ⟨Instance.roomy_of_begin? hbegin, hs.numbered⟩ ?_ ?_
  · rw [Bodied, entering, hdefined]
    exact List.forall_mem_nil _
  · have hcode : child.code = #[] := by
      rw [Instance.code, hbuffer]
      rfl
    show Buffer.Granted (s.current.code.size + child.code.size)
    rw [hcode]
    exact hs.roomy.granted

mutual

/-- A part of a unit is emitted as by its acts. -/
theorem part_eq_ok_iff : ∀ (u : UnitText) (x : Expanded) {s s' : EmitState}, s.Ready →
    (part .full u x s = .ok () s' ↔ x.Loadable ∧ s.performAll (x.acts u) = some s')
  | u, .problem d, s, s', _ => by
      rw [part_problem_apply, Expanded.Loadable, Expanded.acts, performAll, perform]
      simp [performAll]
  | u, .declaration decl, s, s', hs => by
      rw [part_declaration_eq_ok_iff hs.roomy, Expanded.Loadable, Expanded.acts, performAll]
      simp [performAll]
  | u, .repeated key, s, s', _ => by
      rw [part_repeated_apply, Expanded.Loadable, Expanded.acts, performAll]
      simp
  | u, .missing key path span, s, s', _ => by
      rw [part_missing_apply, Expanded.Loadable, Expanded.acts, performAll, perform]
      simp [performAll, perform, registering]
  | u, .opened key source content, s, s', hs => by
      rw [part, Expanded.Loadable, Expanded.acts, performAll, perform, Option.bind_some]
      have hbegun {child : Instance} (hchild : child.Roomy) : (s.entering key child).Ready :=
        ⟨hchild, hs.numbered⟩
      have hinside {child : Instance} (hchild : child.Roomy) (t : EmitState) :
          parts .full _ content (s.entering key child) = .ok () t ↔ _ :=
        parts_eq_ok_iff ⟨key, Bytes.toText source⟩ content (hbegun hchild)
      rw [nested_eq_ok_iff hs.roomy fun hchild h =>
        ((hbegun hchild).performAll ((hinside hchild _).mp h).2).roomy]
      constructor
      · rintro ⟨child, t, hbegin, hcontent, hgranted, rfl⟩
        obtain ⟨hloadable, hacts⟩ := (hinside (Instance.roomy_of_begin? hbegin) t).mp hcontent
        refine ⟨⟨Instance.begin?_eq_ok.mp ⟨child, hbegin⟩, hloadable⟩, ?_⟩
        refine (performAll_begun hs hbegin).trans ?_
        rw [hacts, Option.bind_some, close?, if_pos hgranted]
      · rintro ⟨⟨haddressable, hloadable⟩, hacts⟩
        obtain ⟨child, hbegin⟩ := Instance.begin?_eq_ok.mpr haddressable
        have hperform := (performAll_begun hs hbegin).symm.trans hacts
        obtain ⟨t, ht, hclose⟩ := Option.bind_eq_some_iff.mp hperform
        simp only [close?, Option.ite_none_right_eq_some, Option.some.injEq] at hclose
        exact ⟨child, t, hbegin,
          (hinside (Instance.roomy_of_begin? hbegin) t).mpr ⟨hloadable, ht⟩, hclose.1,
          hclose.2.symm⟩

/-- Parts of a unit are emitted as by their acts. -/
theorem parts_eq_ok_iff : ∀ (u : UnitText) (xs : List Expanded) {s s' : EmitState}, s.Ready →
    (parts .full u xs s = .ok () s' ↔
      Expanded.AllLoadable xs ∧ s.performAll (Expanded.allActs u xs) = some s')
  | u, [], s, s', _ => by
      rw [parts, Expanded.AllLoadable, Expanded.allActs, performAll]
      simp [pure_apply]
  | u, x :: rest, s, s', hs => by
      rw [parts, Expanded.AllLoadable, Expanded.allActs, performAll_append, bind_eq_ok]
      constructor
      · rintro ⟨_, t, hfirst, hrest⟩
        obtain ⟨hx, hacts⟩ := (part_eq_ok_iff u x hs).mp hfirst
        obtain ⟨hloadable, hmore⟩ := (parts_eq_ok_iff u rest (hs.performAll hacts)).mp hrest
        exact ⟨⟨hx, hloadable⟩, by rw [hacts, Option.bind_some, hmore]⟩
      · rintro ⟨⟨hx, hloadable⟩, hacts⟩
        obtain ⟨t, ht, hmore⟩ := Option.bind_eq_some_iff.mp hacts
        exact ⟨(), t, (part_eq_ok_iff u x hs).mpr ⟨hx, ht⟩,
          (parts_eq_ok_iff u rest (hs.performAll ht)).mpr ⟨hloadable, hmore⟩⟩

end

end Emit

/-! ## Declarations among acts -/

namespace Expanded

theorem declaration_mem_allActs_ofEvents {front : FrontEnd} {loader : Loader}
    {descend : Registry → String → Bytes → List Expanded × Registry} {v : Emit.UnitText}
    {decl : Declaration}
    (hdescend : ∀ u r key source, .declaration v decl ∈ allActs u (descend r key source).1 →
      ∃ unit text, .declaration decl ∈ front unit text) {u : Emit.UnitText} :
    ∀ (es : List Event) (r : Registry),
      .declaration v decl ∈ allActs u (ofEvents loader descend r es).1 →
      .declaration decl ∈ es ∨ ∃ unit text, .declaration decl ∈ front unit text
  | [], r, h => by
      rw [ofEvents, allActs] at h
      cases h
  | .problem d :: rest, r, h => by
      rw [ofEvents, allActs, acts, List.singleton_append] at h
      have hrest := List.mem_of_ne_of_mem Act.noConfusion h
      exact (declaration_mem_allActs_ofEvents hdescend rest r hrest).imp_left (.tail _)
  | .declaration decl' :: rest, r, h => by
      rw [ofEvents, allActs, acts, List.singleton_append] at h
      rcases List.mem_cons.mp h with heq | hrest
      · obtain ⟨-, rfl⟩ := Act.declaration.inj heq
        exact .inl List.mem_cons_self
      · exact (declaration_mem_allActs_ofEvents hdescend rest r hrest).imp_left (.tail _)
  | .inclusion path span :: rest, r, h => by
      have hrest (x : Expanded) (r : Registry) (hx : .declaration v decl ∈ x.acts u →
            ∃ unit text, .declaration decl ∈ front unit text)
          (h : .declaration v decl ∈ allActs u (x :: (ofEvents loader descend r rest).1)) :
          .declaration decl ∈ Event.inclusion path span :: rest ∨
            ∃ unit text, .declaration decl ∈ front unit text := by
        rw [allActs] at h
        rcases List.mem_append.mp h with hfirst | h
        · exact .inr (hx hfirst)
        · exact (declaration_mem_allActs_ofEvents hdescend rest r h).imp_left (.tail _)
      rw [ofEvents] at h
      dsimp only at h
      split at h
      · refine hrest _ _ (fun hmem => ?_) h
        rw [acts] at hmem
        cases hmem
      · split at h
        · refine hrest _ _ (fun hmem => ?_) h
          rw [acts] at hmem
          simp at hmem
        · refine hrest _ _ (fun hmem => ?_) h
          rw [acts] at hmem
          exact hdescend _ _ _ _ (List.mem_of_ne_of_mem Act.noConfusion hmem)

/-- What is declared by a unit with all that it includes was read from one of them. -/
theorem declaration_mem_allActs_ofUnit {front : FrontEnd} {loader : Loader} {v : Emit.UnitText}
    {decl : Declaration} : ∀ (n : Nat) (u : Emit.UnitText) (r : Registry) (unit : String)
      (source : Bytes), .declaration v decl ∈ allActs u (ofUnit front loader n r unit source).1 →
        ∃ unit text, .declaration decl ∈ front unit text
  | 0, u, r, unit, source, h => by
      rw [ofUnit, allActs] at h
      cases h
  | n + 1, u, r, unit, source, h => by
      rcases declaration_mem_allActs_ofEvents (declaration_mem_allActs_ofUnit n) _ r h
        with hmem | hmem
      · exact ⟨unit, _, hmem⟩
      · exact hmem

end Expanded

/-! ## The outermost unit -/

namespace EmitState

theorem symbols_concluded (s : EmitState) : s.concluded.symbols = s.symbols := by
  rw [concluded]
  split
  · rfl
  · rfl

theorem roomy_concluded {s : EmitState} (h : s.current.Roomy) : s.concluded.current.Roomy := by
  rw [concluded]
  split
  · exact ⟨h.alive, h.buffer, h.granted⟩
  · exact h

/-- A state with the loader of the global variables, if there is memory for it. -/
def loads (s : EmitState) : Option EmitState :=
  if s.symbols.globals.isEmpty then some s
  else
    let l := Lowering.ofGlobals s.symbols s.symbols.startFunction?
    let (symbols, id) := s.symbols.declareLoader s.loaderResult s.current.name
    if Buffer.Granted (s.current.code.size + l.code.size) then some ({ s with symbols }.adds id l)
    else none

variable {s s' : EmitState}

/-- Either there is nothing to load, or the loader is added with its code. -/
theorem loads_eq_some (h : s.loads = some s') :
    s' = s ∨
      s' = { s with symbols := (s.symbols.declareLoader s.loaderResult s.current.name).1 }.adds
        (s.symbols.declareLoader s.loaderResult s.current.name).2
        (Lowering.ofGlobals s.symbols s.symbols.startFunction?) := by
  rw [loads] at h
  split at h
  · exact .inl (Option.some.inj h).symm
  · obtain ⟨-, h⟩ := Option.ite_none_right_eq_some.mp h
    exact .inr (Option.some.inj h).symm

theorem errors_loads (h : s.loads = some s') : s'.current.errors = s.current.errors := by
  rcases loads_eq_some h with rfl | rfl
  · rfl
  · rfl

end EmitState

namespace Emit

open EmitState

variable {s s' : EmitState}

theorem addLoader_eq_ok_iff (hs : s.current.Roomy) :
    addLoader s = .ok () s' ↔ s.loads = some s' := by
  rw [addLoader_apply, loads]
  split
  · simp
  · refine (addBody_eq_ok_iff ?_).trans ?_
    · exact hs
    · rw [Option.ite_none_right_eq_some, Option.some.injEq]
      exact and_congr Iff.rfl eq_comm

theorem finish_eq_ok_iff (hs : s.current.Roomy) :
    finish .full s = .ok () s' ↔ s.concluded.loads = some s' := by
  rw [finish_apply]
  exact addLoader_eq_ok_iff (roomy_concluded hs)

/-- Emits the outermost unit, given what it consists of. -/
def outermost (consist : Registry → String → Bytes → List Expanded) : Emit Unit := do
  modify fun s => { s with entrySeen := false }
  let s ← get
  match s.current.source.bytes? with
  | none => throw .instanceDestroyed
  | some source =>
    let name := s.current.name
    parts .full ⟨name, Bytes.toText source⟩ (consist s.registry name source)
    finish .full

theorem root_eq_outermost (front : FrontEnd) (loader : Loader) :
    root front loader .full = outermost (Expanded.ofRoot front loader) :=
  rfl

/-- The outermost unit is emitted as by the acts of what it consists of. -/
theorem outermost_eq_ok_iff {consist : Registry → String → Bytes → List Expanded} (hs : s.Ready) :
    outermost consist s = .ok () s' ↔ ∃ source t,
      s.current.source.bytes? = some source ∧
      Expanded.AllLoadable (consist s.registry s.current.name source) ∧
      { s with entrySeen := false }.performAll
        (Expanded.allActs ⟨s.current.name, Bytes.toText source⟩
          (consist s.registry s.current.name source)) = some t ∧
      t.concluded.loads = some s' := by
  have hstart : Ready { s with entrySeen := false } := ⟨hs.roomy, hs.numbered⟩
  rw [outermost, bind_apply, modify_apply]
  dsimp only
  rw [bind_apply, get_apply]
  dsimp only
  cases hsource : s.current.source.bytes? with
  | none => simp [throw_apply]
  | some source =>
      dsimp only
      rw [bind_eq_ok]
      constructor
      · rintro ⟨_, t, hparts, hfinish⟩
        obtain ⟨hloadable, hacts⟩ := (parts_eq_ok_iff _ _ hstart).mp hparts
        have ht := hstart.performAll hacts
        exact ⟨source, t, rfl, hloadable, hacts, (finish_eq_ok_iff ht.roomy).mp hfinish⟩
      · rintro ⟨_, t, heq, hloadable, hacts, hloads⟩
        obtain rfl := Option.some.inj heq
        have ht := hstart.performAll hacts
        exact ⟨(), t, (parts_eq_ok_iff _ _ hstart).mpr ⟨hloadable, hacts⟩,
          (finish_eq_ok_iff ht.roomy).mpr hloads⟩

end Emit

/-- What an emission leaves. -/
def Emitted.ofResult : EStateM.Result Error EmitState Unit → Emitted
  | .ok _ s =>
    { stack := s.current :: s.outer, registry := s.registry, symbols := s.symbols
      outcome := .ok () }
  | .error e s =>
    { stack := s.current :: s.outer, registry := s.registry, symbols := s.symbols
      outcome := .error e }

/-- The state at the beginning of an emission. -/
def EmitState.start (i : Instance) (outer : List Instance) (registry : Registry)
    (symbols : Symbols) : EmitState :=
  { current := i, outer, registry, symbols, entrySeen := false }

theorem emitRoot_cons (front : FrontEnd) (loader : Loader) (mode : EmitMode) (i : Instance)
    (outer : List Instance) (registry : Registry) (symbols : Symbols) :
    emitRoot front loader mode (i :: outer) registry symbols
      = .ofResult (Emit.root front loader mode (.start i outer registry symbols)) := by
  simp only [emitRoot, EmitState.start]
  split
  · next h =>
      rw [h]
      rfl
  · next h =>
      rw [h]
      rfl

theorem Instance.roomy_ofText (text : String) : (Instance.ofText text).Roomy :=
  ⟨rfl, nofun, Buffer.granted_zero⟩

end Nss
