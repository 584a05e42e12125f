/-
# What a frame shows

A frame is described by two relations.  `Frame.Shows Γ f vars temps` says where the variables in
sight lie: variable `i` of `vars` is `temps + i` cells below the top.  `Frame.Extends f g c ls new`
says what lies between two frames: instructions, labels, and variables of the innermost scope.
-/
import Nss.Proofs.Lowering.Emitted

namespace Nss

open Steps

/-! ## Frames -/

/-- The variables of a frame with the parameters below them, as the stack holds them. -/
def Frame.variables (f : Frame) (Γ : LoweringContext) : List StackVariable :=
  (f.scope :: f.enclosing).flatten ++ Γ.params

/-- A variable without its position. -/
def StackVariable.param (v : StackVariable) : Param := ⟨v.type, v.name⟩

/-- The frame holds the variables `vars` with `temps` intermediate values above them. -/
structure Frame.Shows (Γ : LoweringContext) (f : Frame) (vars : List Param) (temps : Nat) :
    Prop where
  same : (f.variables Γ).map StackVariable.param = vars
  depth : f.depth + Γ.params.length = temps + vars.length
  position : ∀ i v, (f.variables Γ)[i]? = some v →
    v.position - (f.depth : Int) = Spot.fromTop temps i

/-- What lies between two frames. -/
structure Frame.Extends (f g : Frame) (c : List Instruction) (ls : List (Option Nat))
    (new : List StackVariable) : Prop where
  code : g.code.toList = f.code.toList ++ c
  labels : g.labels = f.labels ++ ls
  scope : g.scope = new ++ f.scope
  enclosing : g.enclosing = f.enclosing

namespace Frame.Extends

variable {f g h : Frame} {c c' : List Instruction} {ls ls' : List (Option Nat)}
  {new new' : List StackVariable}

theorem refl (f : Frame) : f.Extends f [] [] [] := by
  constructor <;> simp

theorem trans (h₁ : f.Extends g c ls new) (h₂ : g.Extends h c' ls' new') :
    f.Extends h (c ++ c') (ls ++ ls') (new' ++ new) where
  code := by rw [h₂.code, h₁.code, List.append_assoc]
  labels := by rw [h₂.labels, h₁.labels, List.append_assoc]
  scope := by rw [h₂.scope, h₁.scope, List.append_assoc]
  enclosing := by rw [h₂.enclosing, h₁.enclosing]

theorem size (h₁ : f.Extends g c ls new) : g.code.size = f.code.size + c.length := by
  rw [← Array.length_toList, h₁.code, List.length_append, Array.length_toList]

theorem labels_length (h₁ : f.Extends g c ls new) :
    g.labels.length = f.labels.length + ls.length := by
  rw [h₁.labels, List.length_append]

end Frame.Extends

/-! ## Where a name leads -/

theorem Spot.ofName?_eq_cell {Γ : LoweringContext} {vars : List Param} {name : String} {i : Nat}
    {v : Param} (hv : vars[i]? = some v) (hname : v.name = name)
    (hfirst : ∀ j w, j < i → vars[j]? = some w → w.name ≠ name) :
    Spot.ofName? Γ vars name = some (.cell i v.type) := by
  obtain ⟨hi, hget⟩ := List.getElem?_eq_some_iff.mp hv
  have hlt : ∀ j (hj : j < i), vars[j].name ≠ name := fun j hj =>
    hfirst j _ hj (List.getElem?_eq_getElem _)
  have hidx : vars.findIdx? (·.name = name) = some i :=
    List.findIdx?_eq_some_iff_getElem.mpr ⟨hi, by simp [hget, hname], by simpa using hlt⟩
  have hfind : vars.find? (·.name = name) = some v :=
    List.find?_eq_some_iff_getElem.mpr ⟨by simp [hname], i, hi, hget, by simpa using hlt⟩
  simp only [ofName?, hidx, hfind]

theorem Spot.ofName?_of_find?_eq_none {Γ : LoweringContext} {vars : List Param} {name : String}
    (h : vars.find? (·.name = name) = none) :
    Spot.ofName? Γ vars name =
      if Γ.globalsVisible then (Γ.symbols.lookupGlobal? name).map fun g => global g.slot g.type
      else none := by
  simp only [ofName?, h]
  cases vars.findIdx? (·.name = name) <;> rfl

theorem Lower.resolve?_eq_find? (Γ : LoweringContext) (f : Frame) (name : String) :
    resolve? Γ f name =
      match (f.variables Γ).find? (·.name = name) with
      | some v => some (.stack v.position v.type)
      | none =>
        if Γ.globalsVisible then
          (Γ.symbols.lookupGlobal? name).map fun g => .global g.slot g.type
        else none := by
  rw [Frame.variables, List.find?_append, resolve?]
  cases (f.scope :: f.enclosing).flatten.find? (·.name = name) with
  | some v => rfl
  | none => rfl

/-- What a place on the stack or among the globals is as a spot, `temps` intermediate values being
above the variables at this depth. -/
def Place.Matches (depth temps : Nat) : Place → Spot → Prop
  | .stack position t, .cell i t' => position - (depth : Int) = Spot.fromTop temps i ∧ t = t'
  | .global slot t, .global slot' t' => slot = slot' ∧ t = t'
  | _, _ => False

theorem Place.Matches.type_eq {depth temps : Nat} : ∀ {place : Place} {spot : Spot},
    place.Matches depth temps spot → place.type = spot.type
  | .stack _ _, .cell _ _, h => h.2
  | .global _ _, .global _ _, h => h.2

/-- A name that lowering resolves is a spot among the variables in sight. -/
theorem Frame.Shows.resolve? {Γ : LoweringContext} {f : Frame} {vars : List Param} {temps : Nat}
    {name : String} {place : Place} (hf : f.Shows Γ vars temps)
    (h : Lower.resolve? Γ f name = some place) :
    ∃ spot, Spot.ofName? Γ vars name = some spot ∧ place.Matches f.depth temps spot := by
  have hfind : vars.find? (·.name = name)
      = ((f.variables Γ).find? (·.name = name)).map StackVariable.param := by
    rw [← hf.same, List.find?_map]; rfl
  rw [Lower.resolve?_eq_find?] at h
  cases hv : (f.variables Γ).find? (·.name = name) with
  | none =>
      rw [hv] at h hfind
      rw [Spot.ofName?_of_find?_eq_none hfind]
      cases hvis : Γ.globalsVisible with
      | false => simp [hvis] at h
      | true =>
          simp only [hvis, if_true, Option.map_eq_some_iff] at h ⊢
          obtain ⟨g, hg, rfl⟩ := h
          exact ⟨_, ⟨g, hg, rfl⟩, rfl, rfl⟩
  | some v =>
      rw [hv] at h
      obtain ⟨hp, i, hi, hiv, hlt⟩ := List.find?_eq_some_iff_getElem.mp hv
      have hget : (f.variables Γ)[i]? = some v := by rw [List.getElem?_eq_getElem hi, hiv]
      have hspot : Spot.ofName? Γ vars name = some (.cell i v.type) := by
        refine Spot.ofName?_eq_cell (v := v.param) ?_ (by simpa [StackVariable.param] using hp)
          fun j w hj hw => ?_
        · rw [← hf.same, List.getElem?_map, hget]; rfl
        · rw [← hf.same, List.getElem?_map, List.getElem?_eq_getElem (Nat.lt_trans hj hi)] at hw
          obtain rfl := Option.some.inj hw
          simpa [StackVariable.param] using hlt j hj
      obtain rfl := Option.some.inj h
      exact ⟨_, hspot, hf.position i v hget, rfl⟩

/-- The intermediate values lie above the base. -/
theorem Frame.Shows.temps_le {Γ : LoweringContext} {f : Frame} {vars : List Param} {temps : Nat}
    (hf : f.Shows Γ vars temps) : temps ≤ f.depth := by
  have hlen := congrArg List.length hf.same
  rw [List.length_map, Frame.variables, List.length_append] at hlen
  have := hf.depth
  omega

/-- What a frame shows depends on its variables and its depth only. -/
theorem Frame.Shows.congr {Γ : LoweringContext} {f g : Frame} {vars : List Param} {temps : Nat}
    (hf : f.Shows Γ vars temps) (hv : g.variables Γ = f.variables Γ) (hd : g.depth = f.depth) :
    g.Shows Γ vars temps where
  same := by rw [hv, hf.same]
  depth := by rw [hd, hf.depth]
  position := by
    rw [hv, hd]
    exact hf.position

/-! ## Single instructions -/

/-- A frame with one more instruction, at another depth. -/
def Frame.emitted (f : Frame) (i : Instruction) (depth : Nat) : Frame :=
  { f with code := f.code.push i, depth }

theorem Frame.extends_emitted (f : Frame) (i : Instruction) (depth : Nat) :
    f.Extends (f.emitted i depth) [i] [] [] := by
  constructor <;> simp [Frame.emitted]

theorem Frame.Shows.emitted {Γ : LoweringContext} {f : Frame} {vars : List Param}
    {temps temps' depth : Nat} (hf : f.Shows Γ vars temps) (i : Instruction)
    (hd : depth + temps = f.depth + temps') : (f.emitted i depth).Shows Γ vars temps' where
  same := hf.same
  depth := by
    have := hf.depth
    show depth + Γ.params.length = temps' + vars.length
    omega
  position j v hv := by
    have := hf.position j v hv
    show v.position - (depth : Int) = Spot.fromTop temps' j
    simp only [Spot.fromTop] at this ⊢
    omega

namespace Lower

theorem emit_apply (i : Instruction) (f : Frame) : emit i f = .ok () (f.emitted i f.depth) := rfl

theorem emitPush_apply (i : Instruction) (f : Frame) :
    emitPush i f = .ok () (f.emitted i (f.depth + 1)) := rfl

theorem emitTake_apply (n : Nat) (i : Instruction) (f : Frame) :
    emitTake n i f = .ok () (f.emitted i (f.depth - n)) := rfl

theorem fromTop_apply (position : Int) (f : Frame) :
    fromTop position f = .ok (position - (f.depth : Int)) f := rfl

theorem depth_apply (f : Frame) : depth f = .ok f.depth f := rfl

theorem fail_apply {α : Type} (problem : Problem) (span : Span) (f : Frame) :
    (fail problem span : Lower α) f = .error (.error problem span) f := rfl

theorem resolve_eq_ok {Γ : LoweringContext} {name : String} {span : Span} {f g : Frame}
    {place : Place} :
    resolve Γ name span f = .ok place g ↔ resolve? Γ f name = some place ∧ f = g := by
  rw [resolve, bind_eq_ok]
  simp only [get_apply]
  cases h : resolve? Γ f name with
  | none => simp [h, fail_apply]
  | some p => simp [h, pure_apply]

theorem expectType_eq_ok {wanted found : ValueType} {span : Span} {f g : Frame} :
    expectType wanted found span f = .ok () g ↔ wanted = found ∧ f = g := by
  rw [expectType]
  split
  · simp [*, pure_apply]
  · simp [*, fail_apply]

theorem callee_eq_ok {Γ : LoweringContext} {name : String} {given : Nat} {span : Span}
    {f g : Frame} {s : FunctionSymbol} :
    Expr.callee Γ name given span f = .ok s g ↔
      Γ.symbols.lookup? name = some s ∧ s.params.length = given ∧ f = g := by
  rw [Expr.callee]
  cases h : Γ.symbols.lookup? name with
  | none => simp [fail_apply]
  | some s' =>
      simp only [Option.some.injEq]
      split
      · next hlen =>
          simp only [pure_apply, EStateM.Result.ok.injEq]
          exact ⟨fun ⟨h₁, h₂⟩ => ⟨h₁, h₁ ▸ hlen, h₂⟩, fun ⟨h₁, _, h₂⟩ => ⟨h₁, h₂⟩⟩
      · next hlen =>
          simp only [fail_apply, reduceCtorEq, false_iff, not_and]
          exact fun h₁ h₂ => absurd (h₁ ▸ h₂) hlen

end Lower

/-! ## Labels, scopes and variables -/

/-- A frame with one more label. -/
def Frame.labelled (f : Frame) : Frame := { f with labels := f.labels ++ [none] }

/-- A frame with a label bound to the next instruction. -/
def Frame.bound (f : Frame) (label : Nat) : Frame :=
  { f with labels := f.labels.set label (some f.code.size) }

/-- A frame with one more scope. -/
def Frame.opened (f : Frame) : Frame := { f with scope := [], enclosing := f.scope :: f.enclosing }

/-- A frame without its innermost scope, whose cells are still there. -/
def Frame.closed (f : Frame) : Frame :=
  { f with scope := f.enclosing.headD [], enclosing := f.enclosing.tail }

/-- A frame with `n` cells taken. -/
def Frame.popped (f : Frame) (n : Nat) : Frame :=
  if 0 < n then f.emitted (.pop n) (f.depth - n) else f

/-- A frame with one more variable in its innermost scope, and the cell for it. -/
def Frame.declared (f : Frame) (decl : VarDecl) : Frame :=
  Frame.emitted
    { f with scope := { name := decl.name, type := decl.type, position := f.depth } :: f.scope }
    (.reserve decl.type) (f.depth + 1)

theorem Frame.diagnostics_popped (f : Frame) (n : Nat) :
    (f.popped n).diagnostics = f.diagnostics := by
  rw [Frame.popped]
  split
  · rfl
  · rfl

theorem Frame.scope_popped (f : Frame) (n : Nat) : (f.popped n).scope = f.scope := by
  rw [Frame.popped]
  split
  · rfl
  · rfl

theorem Frame.enclosing_popped (f : Frame) (n : Nat) : (f.popped n).enclosing = f.enclosing := by
  rw [Frame.popped]
  split
  · rfl
  · rfl

theorem Frame.variables_popped (f : Frame) (n : Nat) (Γ : LoweringContext) :
    (f.popped n).variables Γ = f.variables Γ := by
  rw [Frame.popped]
  split
  · rfl
  · rfl

namespace Lower

theorem newLabel_apply (f : Frame) : newLabel f = .ok f.labels.length f.labelled := rfl

theorem bindLabel_apply (label : Nat) (f : Frame) :
    bindLabel label f = .ok () (f.bound label) := rfl

theorem openScope_apply (f : Frame) : openScope f = .ok () f.opened := rfl

theorem popCells_apply (n : Nat) (f : Frame) : popCells n f = .ok () (f.popped n) := by
  rw [popCells, Frame.popped]
  split
  · rfl
  · rfl

theorem closeScope_apply (f : Frame) :
    closeScope f = .ok () (f.closed.popped f.scope.length) := by
  rw [closeScope, bind_apply, get_apply]
  exact popCells_apply _ _

/-- What a settled step leaves without a diagnostic, it did not fail to do. -/
theorem eq_ok_of_settle {p : Lower Unit} {f g : Frame} (h : settle p f = .ok () g)
    (hg : g.diagnostics = []) : p f = .ok () g := by
  rw [settle] at h
  cases hp : p f with
  | ok a g' =>
      rw [hp] at h
      exact h
  | error d g' =>
      rw [hp] at h
      obtain rfl := (EStateM.Result.ok.inj h).2
      simp at hg

end Lower

namespace Frame.Extends

variable {f g : Frame} {c : List Instruction} {ls ls' : List (Option Nat)}
  {new : List StackVariable}

theorem labelled (f : Frame) : f.Extends f.labelled [] [none] [] := by
  constructor <;> simp [Frame.labelled]

/-- A label that was made between two frames is bound at the second one. -/
theorem bound (ls : List (Option Nat)) (h : f.Extends g c (ls ++ none :: ls') new) {label : Nat}
    (hl : label = f.labels.length + ls.length) :
    f.Extends (g.bound label) c (ls ++ some g.code.size :: ls') new where
  code := h.code
  labels := by
    show g.labels.set label _ = _
    rw [h.labels, hl, List.set_append_right _ _ (Nat.le_add_right _ _), Nat.add_sub_cancel_left,
      List.set_append_right _ _ (Nat.le_refl _), Nat.sub_self]
    rfl
  scope := h.scope
  enclosing := h.enclosing

theorem popped (f : Frame) (n : Nat) : f.Extends (f.popped n) (popCode n) [] [] := by
  rw [Frame.popped, popCode]
  split
  · exact f.extends_emitted _ _
  · exact .refl f

theorem declared (f : Frame) (decl : VarDecl) :
    f.Extends (f.declared decl) [.reserve decl.type] []
      [{ name := decl.name, type := decl.type, position := f.depth }] := by
  constructor <;> simp [Frame.declared, Frame.emitted]

/-- A scope that is opened and closed again leaves its code and its labels. -/
theorem inScope (h : f.opened.Extends g c ls new) : f.Extends g.closed c ls [] where
  code := h.code
  labels := h.labels
  scope := by
    show g.enclosing.headD [] = _
    rw [h.enclosing]; rfl
  enclosing := by
    show g.enclosing.tail = _
    rw [h.enclosing]; rfl

end Frame.Extends

namespace Frame.Shows

variable {Γ : LoweringContext} {f g : Frame} {vars vs : List Param} {temps n : Nat}

theorem labelled (hf : f.Shows Γ vars temps) : f.labelled.Shows Γ vars temps :=
  ⟨hf.same, hf.depth, hf.position⟩

theorem bound (hf : f.Shows Γ vars temps) (label : Nat) : (f.bound label).Shows Γ vars temps :=
  ⟨hf.same, hf.depth, hf.position⟩

theorem opened (hf : f.Shows Γ vars temps) : f.opened.Shows Γ vars temps :=
  ⟨hf.same, hf.depth, hf.position⟩

theorem popped (hf : f.Shows Γ vars (temps + n)) : (f.popped n).Shows Γ vars temps := by
  have := hf.temps_le
  rw [Frame.popped]
  split
  · exact hf.emitted _ (by omega)
  · obtain rfl : n = 0 := by omega
    exact hf

theorem declared (hf : f.Shows Γ vars 0) (decl : VarDecl) :
    (f.declared decl).Shows Γ (⟨decl.type, decl.name⟩ :: vars) 0 where
  same := congrArg (_ :: ·) hf.same
  depth := by
    have := hf.depth
    show f.depth + 1 + Γ.params.length = 0 + (vars.length + 1)
    omega
  position i v hv := by
    cases i with
    | zero =>
        obtain rfl := Option.some.inj hv
        show (f.depth : Int) - (f.depth + 1 : Nat) = Spot.fromTop 0 0
        simp only [Spot.fromTop]
        omega
    | succ i =>
        have := hf.position i v hv
        show v.position - ((f.depth + 1 : Nat) : Int) = Spot.fromTop 0 (i + 1)
        simp only [Spot.fromTop] at this ⊢
        omega

/-- Behind a scope, the cells of its variables are intermediate values. -/
theorem closed_of_scope {new : List StackVariable} (hf : f.Shows Γ vars 0)
    (hg : g.Shows Γ (vs ++ vars) 0) (hscope : g.scope = new)
    (henclosing : g.enclosing = f.scope :: f.enclosing) :
    g.scope.length = vs.length ∧ g.closed.Shows Γ vars vs.length := by
  have hvars : g.variables Γ = new ++ f.variables Γ := by
    rw [Frame.variables, hscope, henclosing]
    simp [Frame.variables]
  have hclosed : g.closed.variables Γ = f.variables Γ := by
    show (g.enclosing.headD [] :: g.enclosing.tail).flatten ++ Γ.params = _
    rw [henclosing]
    rfl
  have hlen : new.length = vs.length := by
    have h₁ := congrArg List.length hg.same
    have h₂ := congrArg List.length hf.same
    rw [hvars] at h₁
    simp only [List.length_map, List.length_append] at h₁ h₂
    omega
  refine ⟨by rw [hscope, hlen], ?_, ?_, ?_⟩
  · rw [hclosed]
    exact hf.same
  · have := hg.depth
    rw [List.length_append] at this
    show g.depth + _ = _
    omega
  · intro i v hv
    rw [hclosed] at hv
    have := hg.position (vs.length + i) v (by
      rw [hvars, ← hlen, List.getElem?_append_right (Nat.le_add_right _ _),
        Nat.add_sub_cancel_left, hv])
    show v.position - (g.depth : Int) = Spot.fromTop vs.length i
    simp only [Spot.fromTop] at this ⊢
    omega

theorem closed {new : List StackVariable} {c : List Instruction} {ls : List (Option Nat)}
    (hf : f.Shows Γ vars 0) (hg : g.Shows Γ (vs ++ vars) 0) (h : f.opened.Extends g c ls new) :
    g.scope.length = vs.length ∧ g.closed.Shows Γ vars vs.length :=
  hf.closed_of_scope hg (h.scope.trans (List.append_nil new)) h.enclosing

end Frame.Shows

end Nss
