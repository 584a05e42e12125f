/-
# What a unit keeps while it is emitted

An emission changes the unit at hand in few ways: it reports on it, marks it, adds code to it, and
lets it take over a unit that was opened in it.  A property that all of these keep holds at the end if
it holds at the beginning, whatever the parser delivers, in whichever mode the unit is emitted, and
also if the emission fails.

Two such properties are told here.

    counted    the errors that a unit counts are those among its diagnostics
    steady     what does not depend on what is emitted, such as its registration
-/
import Nss.Unit.Emission
import Nss.Proofs.Steps
import Nss.Proofs.Unit.Room

namespace Nss

open Steps

/-- A property that a unit keeps while it is emitted, if the units that it takes over have a property
that every unit has to begin with. -/
structure Instance.Enduring (P Q : Instance → Prop) : Prop where
  report : ∀ {i : Instance} (d : Diagnostic), P i → P (i.report d)
  markInclude : ∀ {i : Instance}, P i → P i.markInclude
  appendCode : ∀ {i : Instance} (l : Lowering), P i → P (i.appendCode addressable l).1
  define : ∀ {i : Instance} (id : Nat), P i → P (i.define id)
  absorb : ∀ {i child : Instance}, P i → Q child → P (i.absorb addressable child).1
  begun : ∀ {name : String} {source : Bytes} {debug owns : Bool} {i : Instance},
    begin? addressable name source debug owns = .ok i → Q i

namespace Emit

variable {P Q : Instance → Prop} {u : UnitText}

/-- A step keeps a property of the unit at hand, and may give anything. -/
abbrev KeepsUnit {α : Type} (P : Instance → Prop) (p : Emit α) : Prop :=
  Keeps (fun s : EmitState => P s.current) (fun _ => True) p

theorem keeps_get :
    Keeps (fun s : EmitState => P s.current) (fun s => P s.current) (get : Emit EmitState) :=
  .of_ok (fun _ => rfl) fun _ hs => ⟨hs, hs⟩

/-- A change of the state that leaves the unit at hand as it is. -/
theorem keeps_modify {change : EmitState → EmitState} (h : ∀ s, (change s).current = s.current) :
    KeepsUnit P (modify change) := by
  refine .of_ok (fun s => modify_apply change s) fun s hs => ⟨?_, trivial⟩
  rw [h]
  exact hs

theorem keeps_set {s : EmitState} (h : P s.current) : KeepsUnit P (set s : Emit Unit) :=
  .of_ok (fun t => set_apply s t) fun _ _ => ⟨h, trivial⟩

section

variable (hP : Instance.Enduring P Q)

include hP

theorem keeps_report (d : Diagnostic) : KeepsUnit P (report d) :=
  .of_ok (fun s => modify_apply _ s) fun _ hs => ⟨hP.report d hs, trivial⟩

theorem keeps_reportAll (ds : List Diagnostic) : KeepsUnit P (reportAll u ds) := by
  induction ds with
  | nil => exact .pure trivial
  | cons d rest ih => exact (keeps_report hP _).bind fun _ _ => ih

theorem keeps_addBody (id : Nat) (l : Lowering) : KeepsUnit P (addBody id l) := by
  refine keeps_get.bind fun s hs => ?_
  have hadded := hP.appendCode l hs
  generalize s.current.appendCode addressable l = added at hadded
  obtain ⟨i, e | body⟩ := added
  · exact .bind (keeps_set hadded) fun _ _ => .throw e
  · exact keeps_set (hP.define id hadded)

/-! ## Declarations -/

theorem keeps_declareGlobal (decl : VarDecl) : KeepsUnit P (declareGlobal u decl) := by
  refine keeps_get.bind fun s _ => ?_
  cases s.symbols.declareGlobal decl u.name with
  | error d => exact keeps_reportAll hP [d]
  | ok declared => exact .bind (keeps_modify fun _ => rfl) fun _ _ => keeps_reportAll hP _

theorem keeps_declareFunction (decl : FunctionDecl) : KeepsUnit P (declareFunction u decl) := by
  refine keeps_get.bind fun s _ => ?_
  cases s.symbols.declareFunction decl u.name with
  | error d => exact keeps_reportAll hP [d]
  | ok declared =>
      refine .bind (keeps_modify fun _ => rfl) fun _ _ => ?_
      split
      · exact (keeps_reportAll hP _).bind fun _ _ => keeps_addBody hP _ _
      · exact .pure trivial

theorem keeps_declare (decl : Declaration) : KeepsUnit P (declare u decl) := by
  cases decl with
  | global decl => exact keeps_declareGlobal hP decl
  | function decl => exact keeps_declareFunction hP decl

/-! ## Included units -/

omit hP in
/-- A part that is run in an instance of its own changes only that one. -/
theorem keeps_inside {child : Instance} (hchild : Q child) {part : Emit Unit}
    (h : KeepsUnit Q part) : Keeps (fun s => P s.current) Q (inside child part) := by
  intro s hs
  have hpart := h { s with current := child, outer := s.current :: s.outer } hchild
  rw [inside]
  cases hrun : part { s with current := child, outer := s.current :: s.outer } with
  | ok a t =>
      refine ⟨?_, ?_⟩
      · intro i t' hok
        obtain ⟨rfl, rfl⟩ := EStateM.Result.ok.inj hok
        exact ⟨hs, (hpart.1 a t hrun).1⟩
      · intro e t' herror
        cases herror
  | error e t =>
      refine ⟨?_, ?_⟩
      · intro i t' hok
        cases hok
      · intro e' t' herror
        obtain ⟨-, rfl⟩ := EStateM.Result.error.inj herror
        exact hs

theorem keeps_absorb {child : Instance} (hchild : Q child) : KeepsUnit P (absorb child) := by
  refine keeps_get.bind fun s hs => ?_
  have hjoined := hP.absorb hs hchild
  generalize s.current.absorb addressable child = joined at hjoined
  obtain ⟨i, child', e | offset⟩ := joined
  · exact .bind (keeps_set hjoined) fun _ _ => .throw e
  · exact keeps_set hjoined

theorem keeps_nested (key : String) (source : Bytes) {content : Emit Unit}
    (h : KeepsUnit Q content) : KeepsUnit P (nested key source content) := by
  refine .bind (keeps_modify fun _ => rfl) fun _ _ => keeps_get.bind fun s _ => ?_
  cases hbegin : Instance.begin? addressable key source s.current.debug false with
  | error e => exact .throw e
  | ok child =>
      exact (keeps_inside (hP.begun hbegin) h).bind fun _ hended => keeps_absorb hP hended

end

mutual

theorem keeps_part (mode : EmitMode) : ∀ {P Q : Instance → Prop}, Instance.Enduring P Q →
    Instance.Enduring Q Q → ∀ (u : UnitText) (x : Expanded), KeepsUnit P (part mode u x)
  | _, _, hP, _, u, .problem d => by
      rw [part]
      exact keeps_reportAll hP [d]
  | _, _, hP, _, u, .declaration decl => by
      rw [part.eq_def]
      refine .bind (keeps_modify fun _ => rfl) fun _ _ => ?_
      cases mode with
      | full => exact keeps_declare hP decl
      | scanOnly => exact .pure trivial
  | _, _, _, _, u, .repeated key => by
      rw [part]
      exact .pure trivial
  | _, _, hP, _, u, .missing key path span => by
      rw [part]
      exact .bind (keeps_modify fun _ => rfl) fun _ _ => keeps_reportAll hP _
  | _, _, hP, hQ, u, .opened key source content => by
      rw [part]
      exact keeps_nested hP key source (keeps_parts mode hQ hQ _ content)

/-- A unit keeps its properties while parts of it are emitted. -/
theorem keeps_parts (mode : EmitMode) : ∀ {P Q : Instance → Prop}, Instance.Enduring P Q →
    Instance.Enduring Q Q → ∀ (u : UnitText) (xs : List Expanded), KeepsUnit P (parts mode u xs)
  | _, _, _, _, u, [] => by
      rw [parts]
      exact .pure trivial
  | _, _, hP, hQ, u, x :: rest => by
      rw [parts]
      exact (keeps_part mode hP hQ u x).bind fun _ _ => keeps_parts mode hP hQ u rest

end

/-! ## The outermost unit -/

variable (hP : Instance.Enduring P Q)

include hP

theorem keeps_addLoader : KeepsUnit P addLoader := by
  refine keeps_get.bind fun s hs => ?_
  split
  · exact .pure trivial
  · exact .bind (keeps_set hs) fun _ _ => keeps_addBody hP _ _

theorem keeps_finish (mode : EmitMode) : KeepsUnit P (finish mode) := by
  refine keeps_get.bind fun s hs => ?_
  have hmarked := hP.markInclude (hP.report (.error .noEntryPoint .origin) hs)
  cases mode with
  | full =>
      dsimp only
      split
      · exact .bind (keeps_set hmarked) fun _ _ => keeps_addLoader hP
      · exact keeps_addLoader hP
  | scanOnly =>
      dsimp only
      split
      · exact .bind (keeps_set hmarked) fun _ _ => .pure trivial
      · exact .pure trivial

/-- The outermost unit keeps its properties while it is emitted. -/
theorem keeps_root (hQ : Instance.Enduring Q Q) (front : FrontEnd) (loader : Loader)
    (mode : EmitMode) : KeepsUnit P (root front loader mode) := by
  refine .bind (keeps_modify fun _ => rfl) fun _ _ => keeps_get.bind fun s _ => ?_
  cases s.current.source.bytes? with
  | none => exact .throw _
  | some source =>
      exact (keeps_parts mode hP hQ _ _).bind fun _ _ => keeps_finish hP mode

end Emit

/-! ## Two properties -/

namespace Instance

variable {i child : Instance}

/-- The errors of a unit are those among its diagnostics. -/
def Counted (i : Instance) : Prop := i.errors = Diagnostic.errorCount i.diagnostics

theorem Counted.report (h : i.Counted) (d : Diagnostic) : (i.report d).Counted := by
  rw [Counted] at h
  cases hd : d.isError <;>
    simp [Counted, Instance.report, Diagnostic.errorCount, hd, h, List.countP_append]

theorem Counted.appendCode (h : i.Counted) (l : Lowering) :
    (i.appendCode addressable l).1.Counted := by
  simp only [Instance.appendCode]
  split
  · exact h
  · split
    · exact h
    · exact h

/-- A unit that takes over another one counts the errors of both. -/
theorem Counted.absorb (h : i.Counted) (hchild : child.Counted) :
    (i.absorb addressable child).1.Counted := by
  have htaken : i.errors + child.errors
      = Diagnostic.errorCount (i.diagnostics ++ child.diagnostics) := by
    rw [h, hchild]
    simp [Diagnostic.errorCount, List.countP_append]
  simp only [Instance.absorb]
  split
  · exact htaken
  · split
    · exact h
    · split
      · exact h
      · exact htaken

theorem counted_enduring : Enduring Counted Counted where
  report d h := h.report d
  markInclude h := h
  appendCode l h := h.appendCode l
  define _ h := h
  absorb h hchild := h.absorb hchild
  begun h := by
    obtain ⟨-, -, -, herrors, hdiagnostics⟩ := blank_of_begin? h
    rw [Counted, herrors, hdiagnostics]
    rfl

/-- Something about a unit that does not depend on what is emitted into it. -/
def Steady {β : Type} (π : Instance → β) : Prop :=
  ∀ (i : Instance) (errors : Nat) (diagnostics : List Diagnostic) (buffer : Option Buffer)
    (defined : List Nat) (isInclude : Bool),
    π { i with errors, diagnostics, buffer, defined, isInclude } = π i

namespace Steady

variable {β : Type} {π : Instance → β} (h : Steady π)

include h

theorem appendCode (i : Instance) (l : Lowering) : π (i.appendCode addressable l).1 = π i := by
  simp only [Instance.appendCode]
  split
  · rfl
  · split
    · exact h i _ _ _ _ _
    · exact h i _ _ _ _ _

/-- Neither of two units changes in it when one takes over the other one. -/
theorem absorb (i child : Instance) :
    π (i.absorb addressable child).1 = π i ∧ π (i.absorb addressable child).2.1 = π child := by
  simp only [Instance.absorb]
  split
  · exact ⟨h i _ _ _ _ _, h child _ _ _ _ _⟩
  · split
    · exact ⟨rfl, h child _ _ _ _ _⟩
    · split
      · exact ⟨h i _ _ _ _ _, h child _ _ _ _ _⟩
      · exact ⟨h i _ _ _ _ _, h child _ _ _ _ _⟩

theorem enduring (b : β) : Enduring (fun i => π i = b) fun _ => True where
  report _ hi := (h _ _ _ _ _ _).trans hi
  markInclude hi := (h _ _ _ _ _ _).trans hi
  appendCode l hi := (h.appendCode _ l).trans hi
  define _ hi := (h _ _ _ _ _ _).trans hi
  absorb hi _ := (h.absorb _ _).1.trans hi
  begun _ := trivial

end Steady

theorem steady_registration : Steady registration := fun _ _ _ _ _ _ => rfl

theorem trivial_enduring : Enduring (fun _ => True) fun _ => True where
  report _ h := h
  markInclude h := h
  appendCode _ _ := trivial
  define _ h := h
  absorb h _ := h
  begun _ := trivial

end Instance

end Nss
