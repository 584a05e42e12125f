/-
# Emission does not look at its registry

The registry decides what a unit consists of, before anything is emitted.  After that it is only
written: `Blind` says of a step that it ends in the same way and leaves the same, whatever registry it
begins with, apart from the registry itself.
-/
import Nss.Unit.Emission
import Nss.Proofs.Steps

namespace Nss

open Steps

/-- A state with another registry. -/
def EmitState.withRegistry (s : EmitState) (r : Registry) : EmitState := { s with registry := r }

namespace Emit

variable {α β : Type}

/-- Two results are the same apart from the registry. -/
inductive SameResult : EStateM.Result Error EmitState α → EStateM.Result Error EmitState α → Prop
  | ok (a : α) (s : EmitState) (r : Registry) : SameResult (.ok a s) (.ok a (s.withRegistry r))
  | error (e : Error) (s : EmitState) (r : Registry) :
      SameResult (.error e s) (.error e (s.withRegistry r))

/-- A step does the same with every registry. -/
def Blind (p : Emit α) : Prop := ∀ s r, SameResult (p s) (p (s.withRegistry r))

/-! ## Sequences -/

namespace Blind

theorem pure (a : α) : Blind (Pure.pure a : Emit α) := fun s r => .ok a s r

theorem throw (e : Error) : Blind (MonadExcept.throw e : Emit α) := fun s r => .error e s r

theorem update {change : EmitState → EmitState}
    (h : ∀ s r, ∃ r', change (s.withRegistry r) = (change s).withRegistry r') :
    Blind (modify change : Emit Unit) := by
  intro s r
  obtain ⟨r', heq⟩ := h s r
  rw [modify_apply, modify_apply, heq]
  exact .ok _ _ r'

theorem bind {p : Emit α} {k : α → Emit β} (hp : Blind p) (hk : ∀ a, Blind (k a)) :
    Blind (p >>= k) := by
  intro s r
  have h := hp s r
  rw [bind_apply, bind_apply]
  generalize p s = x at h
  generalize p (s.withRegistry r) = y at h
  cases h with
  | ok a t r' => exact hk a t r'
  | error e t r' => exact .error e t r'

/-- A step may look at the state, if it does not look at the registry. -/
theorem read {k : EmitState → Emit α} (hsame : ∀ s r, k (s.withRegistry r) = k s)
    (hk : ∀ s, Blind (k s)) : Blind (get >>= k) := by
  intro s r
  rw [bind_apply, bind_apply, get_apply, get_apply]
  dsimp only
  rw [hsame]
  exact hk s s r

end Blind

/-! ## Single steps -/

variable {u : UnitText}

theorem blind_report (d : Diagnostic) : Blind (report d) := .update fun _ r => ⟨r, rfl⟩

theorem blind_reportAll : ∀ ds : List Diagnostic, Blind (reportAll u ds)
  | [] => .pure ()
  | _ :: rest => .bind (blind_report _) fun _ => blind_reportAll rest

theorem blind_addBody (id : Nat) (l : Lowering) : Blind (addBody id l) := by
  intro s r
  have hcurrent : (s.withRegistry r).current = s.current := rfl
  rw [addBody, bind_apply, bind_apply, get_apply, get_apply]
  dsimp only
  rw [hcurrent]
  rcases s.current.appendCode addressable l with ⟨i, e | body⟩
  · exact .error e { s with current := i } r
  · exact .ok () _ r

theorem blind_declareGlobal (decl : VarDecl) : Blind (declareGlobal u decl) := by
  refine .read (fun _ _ => rfl) fun s => ?_
  cases s.symbols.declareGlobal decl u.name with
  | error d => exact blind_reportAll [d]
  | ok declared => exact .bind (.update fun _ r => ⟨r, rfl⟩) fun _ => blind_reportAll _

theorem blind_declareFunction (decl : FunctionDecl) : Blind (declareFunction u decl) := by
  refine .read (fun _ _ => rfl) fun s => ?_
  cases s.symbols.declareFunction decl u.name with
  | error d => exact blind_reportAll [d]
  | ok declared =>
      refine .bind (.update fun _ r => ⟨r, rfl⟩) fun _ => ?_
      split
      · exact .bind (blind_reportAll _) fun _ => blind_addBody _ _
      · exact .pure ()

theorem blind_declare (decl : Declaration) : Blind (declare u decl) := by
  cases decl with
  | global decl => exact blind_declareGlobal decl
  | function decl => exact blind_declareFunction decl

theorem blind_noteEntry (decl : Declaration) : Blind (noteEntry decl) := .update fun _ r => ⟨r, rfl⟩

theorem blind_register (key : String) : Blind (register key) :=
  .update fun _ r => ⟨(r.register key).2, rfl⟩

/-! ## Included units -/

theorem blind_inside (child : Instance) {part : Emit Unit} (h : Blind part) :
    Blind (inside child part) := by
  intro s r
  have hpart : SameResult (part { s with current := child, outer := s.current :: s.outer })
      (part { s.withRegistry r with
        current := child, outer := (s.withRegistry r).current :: (s.withRegistry r).outer }) :=
    h { s with current := child, outer := s.current :: s.outer } r
  rw [inside, inside]
  generalize part { s with current := child, outer := s.current :: s.outer } = x at hpart
  generalize part { s.withRegistry r with
    current := child, outer := (s.withRegistry r).current :: (s.withRegistry r).outer } = y at hpart
  cases hpart with
  | ok a t r' => exact .ok t.current { t with current := s.current, outer := s.outer } r'
  | error e t r' => exact .error e { t with current := s.current, outer := s.outer } r'

theorem blind_absorb (child : Instance) : Blind (absorb child) := by
  intro s r
  have hcurrent : (s.withRegistry r).current = s.current := rfl
  rw [absorb, bind_apply, bind_apply, get_apply, get_apply]
  dsimp only
  rw [hcurrent]
  rcases s.current.absorb addressable child with ⟨i, child', e | offset⟩
  · exact .error e { s with current := i } r
  · exact .ok () _ r

theorem blind_nested (key : String) (source : Bytes) {content : Emit Unit} (h : Blind content) :
    Blind (nested key source content) := by
  refine .bind (blind_register key) fun _ => .read (fun _ _ => rfl) fun s => ?_
  cases Instance.begin? addressable key source s.current.debug false with
  | error e => exact .throw e
  | ok child => exact .bind (blind_inside child h) fun i => blind_absorb i

mutual

theorem blind_part (mode : EmitMode) : ∀ (u : UnitText) (x : Expanded), Blind (part mode u x)
  | u, .problem d => by
      rw [part]
      exact blind_reportAll [d]
  | u, .declaration decl => by
      rw [part.eq_def]
      refine .bind (blind_noteEntry decl) fun _ => ?_
      cases mode with
      | full => exact blind_declare decl
      | scanOnly => exact .pure ()
  | u, .repeated key => by
      rw [part]
      exact .pure ()
  | u, .missing key path span => by
      rw [part]
      exact .bind (blind_register key) fun _ => blind_reportAll _
  | u, .opened key source content => by
      rw [part]
      exact blind_nested key source (blind_parts mode _ content)

/-- What a unit consists of is emitted in the same way with every registry. -/
theorem blind_parts (mode : EmitMode) : ∀ (u : UnitText) (xs : List Expanded), Blind (parts mode u xs)
  | u, [] => by
      rw [parts]
      exact .pure ()
  | u, x :: rest => by
      rw [parts]
      exact .bind (blind_part mode u x) fun _ => blind_parts mode u rest

end

/-! ## The outermost unit -/

theorem blind_addLoader : Blind addLoader := by
  intro s r
  have hsymbols : (s.withRegistry r).symbols = s.symbols := rfl
  have hcurrent : (s.withRegistry r).current = s.current := rfl
  rw [addLoader, bind_apply, bind_apply, get_apply, get_apply]
  dsimp only
  rw [hsymbols, hcurrent]
  split
  · exact .ok () s r
  · exact blind_addBody _ _ { s with symbols := _ } r

theorem blind_finish (mode : EmitMode) : Blind (finish mode) := by
  intro s r
  have hsymbols : (s.withRegistry r).symbols = s.symbols := rfl
  have hseen : (s.withRegistry r).entrySeen = s.entrySeen := rfl
  rw [finish.eq_def, bind_apply, bind_apply, get_apply, get_apply]
  dsimp only
  rw [hsymbols, hseen]
  cases mode with
  | full =>
      split
      · exact blind_addLoader { s with current := _ } r
      · exact blind_addLoader s r
  | scanOnly =>
      split
      · exact Blind.pure () { s with current := _ } r
      · exact Blind.pure () s r

/-- The outermost unit is emitted in the same way with every registry by which it consists of the
same. -/
theorem root_sameResult {front : FrontEnd} {loader : Loader} {mode : EmitMode} {s : EmitState}
    {r : Registry}
    (h : ∀ source, s.current.source.bytes? = some source →
      content front loader mode r s.current.name source
        = content front loader mode s.registry s.current.name source) :
    SameResult (root front loader mode s) (root front loader mode (s.withRegistry r)) := by
  rw [root, bind_apply, bind_apply, modify_apply, modify_apply]
  dsimp only
  rw [bind_apply, bind_apply, get_apply, get_apply]
  have hsource : (s.withRegistry r).current.source.bytes? = s.current.source.bytes? := rfl
  have hname : (s.withRegistry r).current.name = s.current.name := rfl
  have hregistry : (s.withRegistry r).registry = r := rfl
  dsimp only
  rw [hsource, hname, hregistry]
  cases hbytes : s.current.source.bytes? with
  | none => exact .error _ { s with entrySeen := false } r
  | some source =>
      dsimp only
      rw [h source hbytes]
      exact Blind.bind (blind_parts mode _ _) (fun _ => blind_finish mode)
        { s with entrySeen := false } r

end Emit

end Nss
