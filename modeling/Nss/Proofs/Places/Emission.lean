/-
# Emission in view

What is seen of an emission depends only on what is seen of the unit at hand, of its parts and of the
symbol table: every step of an emission, in view, is that step with what is seen of its arguments.
The texts of the units are looked at for lines only, so that they matter in the `whole` view alone.
-/
import Nss.Proofs.Places.View

namespace Nss

open Steps

namespace Emit

variable {α β : Type} {v : View}

/-- The second of two steps is the first one in view. -/
def Views (v : View) (p q : Emit α) : Prop := Seen id (EmitState.viewed v) id p q

namespace Views

theorem pure (a : α) : Views v (Pure.pure a : Emit α) (Pure.pure a) := Seen.pure a

theorem throw (e : Error) : Views v (MonadExcept.throw e : Emit α) (MonadExcept.throw e) :=
  Seen.throw e

theorem update {f g : EmitState → EmitState} (h : ∀ s, g (s.viewed v) = (f s).viewed v) :
    Views v (modify f) (modify g) :=
  Seen.update h

theorem bind {p q : Emit α} {k l : α → Emit β} (hp : Views v p q) (hk : ∀ a, Views v (k a) (l a)) :
    Views v (p >>= k) (q >>= l) :=
  Seen.bind hp hk

theorem read {k l : EmitState → Emit β} (h : ∀ s, Views v (k s) (l (s.viewed v))) :
    Views v (get >>= k) (get >>= l) :=
  Seen.read h

end Views

/-! ## Single steps -/

/-- What is seen of the name and the text of a unit. -/
structure UnitText.Viewed (v : View) (u u' : UnitText) : Prop where
  name : u'.name = u.name
  text : v = .whole → u'.text = u.text

variable {u u' : UnitText}

theorem views_report (d : Diagnostic) : Views v (report d) (report (v.diagnostic d)) := by
  refine .update fun s => ?_
  simp [EmitState.viewed, Instance.report_viewed]

theorem located_viewed (hu : u.Viewed v u') (d : Diagnostic) :
    (v.diagnostic d).located u'.name u'.text = v.diagnostic (d.located u.name u.text) := by
  rw [hu.name]
  cases v with
  | whole =>
      rw [hu.text rfl]
      rfl
  | unplaced => exact d.located_unplaced u.name u.text u'.text

theorem views_reportAll (hu : u.Viewed v u') (ds : List Diagnostic) :
    Views v (reportAll u ds) (reportAll u' (ds.map v.diagnostic)) := by
  induction ds with
  | nil => exact .pure ()
  | cons d rest ih =>
      rw [List.map_cons, reportAll, reportAll, located_viewed hu]
      exact .bind (views_report _) fun _ => ih

theorem views_addBody (id : Nat) (l : Lowering) :
    Views v (addBody id l) (addBody id (v.lowering l)) := by
  intro s
  have hcurrent : (s.viewed v).current = s.current.viewed v := rfl
  have hsymbols : (s.viewed v).symbols = v.symbols s.symbols := rfl
  rw [addBody, addBody, bind_apply, bind_apply, get_apply, get_apply]
  dsimp only
  rw [hcurrent, hsymbols, Instance.appendCode_viewed]
  rcases s.current.appendCode addressable l with ⟨i, e | body⟩
  · rfl
  · dsimp only
    rw [View.attachBody_symbols]
    rfl

/-! ## Declarations -/

theorem views_declareGlobal (hu : u.Viewed v u') (decl : VarDecl) :
    Views v (declareGlobal u decl) (declareGlobal u' (v.of VarDecl.unplaced decl)) := by
  refine .read fun s => ?_
  have hsymbols : (s.viewed v).symbols = v.symbols s.symbols := rfl
  rw [hsymbols, hu.name, View.declareGlobal_symbols]
  cases s.symbols.declareGlobal decl u.name with
  | error d => exact views_reportAll hu [d]
  | ok declared =>
      obtain ⟨symbols, slot⟩ := declared
      simp only [View.declared, View.checkGlobal_viewed]
      exact .bind (.update fun _ => rfl) fun _ => views_reportAll hu _

theorem views_declareFunction (hu : u.Viewed v u') (decl : FunctionDecl) :
    Views v (declareFunction u decl) (declareFunction u' (v.of FunctionDecl.unplaced decl)) := by
  refine .read fun s => ?_
  have hsymbols : (s.viewed v).symbols = v.symbols s.symbols := rfl
  have hbody : (v.of FunctionDecl.unplaced decl).body.isSome = decl.body.isSome := by
    cases v with
    | whole => rfl
    | unplaced => exact Option.isSome_map
  rw [hsymbols, hu.name, View.declareFunction_symbols]
  cases s.symbols.declareFunction decl u.name with
  | error d => exact views_reportAll hu [d]
  | ok declared =>
      obtain ⟨symbols, id⟩ := declared
      simp only [View.declared, View.ofFunction_viewed, View.diagnostics_lowering, hbody]
      refine .bind (.update fun _ => rfl) fun _ => ?_
      split
      · exact .bind (views_reportAll hu _) fun _ => views_addBody _ _
      · exact .pure ()

theorem views_declare (hu : u.Viewed v u') (decl : Declaration) :
    Views v (declare u decl) (declare u' (v.declaration decl)) := by
  cases decl with
  | global decl =>
      have hdecl : v.declaration (.global decl) = .global (v.of VarDecl.unplaced decl) := by
        cases v <;> rfl
      rw [hdecl]
      exact views_declareGlobal hu decl
  | function decl =>
      have hdecl : v.declaration (.function decl) = .function (v.of FunctionDecl.unplaced decl) := by
        cases v <;> rfl
      rw [hdecl]
      exact views_declareFunction hu decl

theorem views_noteEntry (decl : Declaration) :
    Views v (noteEntry decl) (noteEntry (v.declaration decl)) := by
  refine .update fun s => ?_
  simp [EmitState.viewed]

theorem views_register (key : String) : Views v (register key) (register key) :=
  .update fun _ => rfl

/-! ## Included units -/

theorem seen_inside (child : Instance) {p q : Emit Unit} (h : Views v p q) :
    Seen id (EmitState.viewed v) (Instance.viewed v) (inside child p) (inside (child.viewed v) q) := by
  intro s
  have hpart : q { s.viewed v with
      current := child.viewed v, outer := (s.viewed v).current :: (s.viewed v).outer }
        = mapResult id (EmitState.viewed v) id
          (p { s with current := child, outer := s.current :: s.outer }) :=
    h { s with current := child, outer := s.current :: s.outer }
  rw [inside, inside, hpart]
  cases p { s with current := child, outer := s.current :: s.outer } with
  | ok a t => rfl
  | error e t => rfl

theorem views_absorb (child : Instance) : Views v (absorb child) (absorb (child.viewed v)) := by
  intro s
  have hcurrent : (s.viewed v).current = s.current.viewed v := rfl
  have hsymbols : (s.viewed v).symbols = v.symbols s.symbols := rfl
  have hdefined : (child.viewed v).defined = child.defined := rfl
  rw [absorb, absorb, bind_apply, bind_apply, get_apply, get_apply]
  dsimp only
  rw [hcurrent, hsymbols, hdefined, Instance.absorb_viewed]
  rcases s.current.absorb addressable child with ⟨i, child', e | offset⟩
  · rfl
  · dsimp only
    rw [View.rebase_symbols]
    rfl

theorem views_nested (key : String) (source : Bytes) {p q : Emit Unit} (h : Views v p q) :
    Views v (nested key source p) (nested key (v.source source) q) := by
  refine .bind (views_register key) fun _ => .read fun s => ?_
  have hdebug : (s.viewed v).current.debug = false := rfl
  rw [hdebug, Instance.begin?_viewed v key source s.current.debug false]
  cases Instance.begin? addressable key source s.current.debug false with
  | error e => exact .throw e
  | ok child => exact Seen.bind (seen_inside child h) fun i => views_absorb i

mutual

theorem views_part (mode : EmitMode) : ∀ {u u' : UnitText}, u.Viewed v u' → ∀ x : Expanded,
    Views v (part mode u x) (part mode u' (x.viewed v))
  | _, _, hu, .problem d => by
      rw [Expanded.viewed, part, part]
      exact views_reportAll hu [d]
  | _, _, hu, .declaration decl => by
      rw [Expanded.viewed, part.eq_def, part.eq_def]
      refine .bind (views_noteEntry decl) fun _ => ?_
      cases mode with
      | full => exact views_declare hu decl
      | scanOnly => exact .pure ()
  | _, _, hu, .repeated key => by
      rw [Expanded.viewed, part, part]
      exact .pure ()
  | u, u', hu, .missing key path span => by
      have hproblem : v.diagnostic (.error (.cannotOpenInclude path) span)
          = .error (.cannotOpenInclude path) (v.of (fun _ => .origin) span) := by
        cases v <;> rfl
      rw [Expanded.viewed, part, part, ← hproblem]
      exact .bind (views_register key) fun _ => views_reportAll hu [_]
  | _, _, hu, .opened key source content => by
      have hinner : UnitText.Viewed v ⟨key, Bytes.toText source⟩ ⟨key, Bytes.toText (v.source source)⟩ := by
        refine ⟨rfl, ?_⟩
        rintro rfl
        rfl
      rw [Expanded.viewed, part, part]
      exact views_nested key source (views_parts mode hinner content)

/-- The parts of a unit are emitted, in view, as what is seen of them. -/
theorem views_parts (mode : EmitMode) : ∀ {u u' : UnitText}, u.Viewed v u' → ∀ xs : List Expanded,
    Views v (parts mode u xs) (parts mode u' (Expanded.allViewed v xs))
  | _, _, hu, [] => by
      rw [Expanded.allViewed, parts, parts]
      exact .pure ()
  | _, _, hu, x :: rest => by
      rw [Expanded.allViewed, parts, parts]
      exact .bind (views_part mode hu x) fun _ => views_parts mode hu rest

end

/-! ## The outermost unit -/

theorem views_addLoader : Views v addLoader addLoader := by
  intro s
  have hname : (s.viewed v).current.name = s.current.name := rfl
  have hsymbols : (s.viewed v).symbols = v.symbols s.symbols := rfl
  have hstart : (v.symbols s.symbols).startFunction? = s.symbols.startFunction? := by
    rw [Symbols.startFunction?, Symbols.startFunction?, View.lookup?_symbols, View.lookup?_symbols]
  rw [addLoader, bind_apply, bind_apply, get_apply, get_apply]
  dsimp only
  rw [hname, hsymbols, hstart, View.isEmpty_globals_symbols, View.ofGlobals_viewed,
    View.declareLoader_symbols]
  split
  · rfl
  · generalize s.symbols.declareLoader _ s.current.name = declared
    exact views_addBody declared.2 _ { s with symbols := declared.1 }

theorem views_finish (mode : EmitMode) : Views v (finish mode) (finish mode) := by
  intro s
  have hsymbols : (s.viewed v).symbols = v.symbols s.symbols := rfl
  have hseen : (s.viewed v).entrySeen = s.entrySeen := rfl
  have hmarked : ((s.viewed v).current.report (.error .noEntryPoint .origin)).markInclude
      = ((s.current.report (.error .noEntryPoint .origin)).markInclude).viewed v := by
    rw [← Instance.markInclude_viewed, ← Instance.report_viewed, View.diagnostic_error_origin]
    rfl
  rw [finish.eq_def, bind_apply, bind_apply, get_apply, get_apply]
  dsimp only
  rw [hsymbols, hseen, hmarked, View.lookup?_symbols, View.lookup?_symbols]
  cases mode with
  | full =>
      split
      · exact views_addLoader { s with current := _ }
      · exact views_addLoader s
  | scanOnly =>
      split
      · rfl
      · rfl

/-- Two emissions in which the same is seen of the units and of their parts. -/
theorem root_viewed {front front' : FrontEnd} {loader loader' : Loader} {mode : EmitMode}
    {s t : EmitState} {source source' : Bytes}
    (hsource : s.current.source.bytes? = some source)
    (hsource' : t.current.source.bytes? = some source')
    (hstate : s.viewed v = t.viewed v) (htext : v = .whole → source = source')
    (hcontent : Expanded.allViewed v (content front loader mode s.registry s.current.name source)
      = Expanded.allViewed v (content front' loader' mode t.registry t.current.name source')) :
    mapResult id (EmitState.viewed v) id (root front loader mode s)
      = mapResult id (EmitState.viewed v) id (root front' loader' mode t) := by
  have hname : t.current.name = s.current.name :=
    (congrArg (fun x : EmitState => x.current.name) hstate).symm
  have hbegun : ({ s with entrySeen := false } : EmitState).viewed v
      = ({ t with entrySeen := false } : EmitState).viewed v :=
    congrArg (fun x : EmitState => { x with entrySeen := false }) hstate
  have hrun (u : UnitText) (xs : List Expanded) (hu : u.Viewed v ⟨s.current.name, Bytes.toText source⟩) :
      Views v (do parts mode u xs; finish mode)
        (do parts mode ⟨s.current.name, Bytes.toText source⟩ (Expanded.allViewed v xs); finish mode) :=
    .bind (views_parts mode hu xs) fun _ => views_finish mode
  -- both runs are compared with that of what is seen of the first one
  have hfirst := hrun ⟨s.current.name, Bytes.toText source⟩
    (content front loader mode s.registry s.current.name source) ⟨rfl, fun _ => rfl⟩
    { s with entrySeen := false }
  have hsecond := hrun ⟨t.current.name, Bytes.toText source'⟩
    (content front' loader' mode t.registry t.current.name source')
    ⟨hname.symm, fun h => by rw [htext h]⟩ { t with entrySeen := false }
  rw [hbegun, hcontent] at hfirst
  simp only [root, bind_apply, modify_apply, get_apply, hsource, hsource']
  exact hfirst.symm.trans hsecond

end Emit

end Nss
