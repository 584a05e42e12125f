/-
# Units that can only be included

A unit is taken for one that is only included if, at its end, no declaration was seen that has the
name of an entry point.  What counts are the declarations of the unit and of all that it includes,
as the parser gives them; a function that is broken off is none of them.
-/
import Nss.Proofs.Unit.Flat

namespace Nss

/-! ## The declarations of a unit -/

mutual

/-- The declarations in a part of a unit. -/
def Expanded.declarations : Expanded → List Declaration
  | .declaration decl => [decl]
  | .problem _ | .repeated _ | .missing _ _ _ => []
  | .opened _ _ content => Expanded.allDeclarations content

/-- The declarations in parts of a unit, with those of the units that are opened there. -/
def Expanded.allDeclarations : List Expanded → List Declaration
  | [] => []
  | x :: rest => x.declarations ++ Expanded.allDeclarations rest

end

/-- What an act declares. -/
def Act.declaration? : Act → Option Declaration
  | .declaration _ decl => some decl
  | .problem _ _ | .registered _ => none

theorem Act.filterMap_declaration?_cons (a : Act) (acts : List Act) :
    (a :: acts).filterMap declaration? = a.declaration?.toList ++ acts.filterMap declaration? := by
  cases hdecl : a.declaration? with
  | none => rw [List.filterMap_cons_none hdecl, Option.toList_none, List.nil_append]
  | some decl => rw [List.filterMap_cons_some hdecl, Option.toList_some, List.singleton_append]

namespace Expanded

mutual

theorem declaration?_acts : ∀ (u : Emit.UnitText) (x : Expanded),
    (x.acts u).filterMap Act.declaration? = x.declarations
  | u, .problem d => by
      rw [acts, declarations]
      rfl
  | u, .declaration decl => by
      rw [acts, declarations]
      rfl
  | u, .repeated key => by
      rw [acts, declarations]
      rfl
  | u, .missing key path span => by
      rw [acts, declarations]
      rfl
  | u, .opened key source content => by
      rw [acts, declarations, List.filterMap_cons_none rfl, declaration?_allActs]

theorem declaration?_allActs : ∀ (u : Emit.UnitText) (xs : List Expanded),
    (allActs u xs).filterMap Act.declaration? = allDeclarations xs
  | u, [] => by
      rw [allActs, allDeclarations]
      rfl
  | u, x :: rest => by
      rw [allActs, allDeclarations, List.filterMap_append, declaration?_acts, declaration?_allActs]

end

end Expanded

/-! ## Entry points that are seen -/

/-- Whether a declaration has the name of an entry point. -/
def Declaration.isEntry (decl : Declaration) : Bool := isEntryName decl.name

/-- A declaration adds no function of another name. -/
theorem Declaration.name_of_mem_effect {decl : Declaration} {unit : String} {s : Symbols}
    {f : FunctionSymbol} (h : f ∈ (decl.effect unit s).symbols.functions) :
    f ∈ s.functions ∨ f.name = decl.name := by
  rcases decl.effect_symbols unit s with hsame | ⟨v, slot, -, hv⟩ | ⟨g, id, rfl, hg⟩
  · rw [hsame] at h
    exact .inl h
  · obtain ⟨-, -, -, hsymbols⟩ := Symbols.declareGlobal_eq_ok hv
    rw [hsymbols] at h
    exact .inl h
  · obtain ⟨-, ⟨-, -, -, hsymbols⟩ | ⟨-, -, hsymbols⟩⟩ := Symbols.declareFunction_eq_ok hg
    · rw [hsymbols] at h
      exact .inl h
    · rw [hsymbols, Symbols.insert] at h
      refine (List.mem_append.mp h).imp_right fun hnew => ?_
      obtain rfl := List.mem_singleton.mp hnew
      rfl

namespace EmitState

variable {s s' t : EmitState} {a : Act} {acts : List Act}

/-- The functions that have the name of an entry point were seen. -/
def Noted (s : EmitState) : Prop :=
  ∀ f ∈ s.symbols.functions, isEntryName f.name = true → s.entrySeen = true

/-- Between two states, the entry points among some declarations were seen, and the unit was not
marked. -/
structure Sees (s t : EmitState) (decls : List Declaration) : Prop where
  isInclude : t.current.isInclude = s.current.isInclude
  entrySeen : t.entrySeen = (s.entrySeen || decls.any Declaration.isEntry)
  noted : s.Noted → t.Noted

namespace Sees

theorem refl (s : EmitState) : s.Sees s [] := ⟨rfl, (Bool.or_false _).symm, id⟩

theorem trans {u : EmitState} {decls decls' : List Declaration} (h : s.Sees t decls)
    (h' : t.Sees u decls') : s.Sees u (decls ++ decls') where
  isInclude := h'.isInclude.trans h.isInclude
  entrySeen := by rw [h'.entrySeen, h.entrySeen, List.any_append, Bool.or_assoc]
  noted hs := h'.noted (h.noted hs)

end Sees

theorem sees_of_perform (h : s.perform a = some t) : s.Sees t a.declaration?.toList := by
  cases a with
  | problem u d =>
      obtain rfl := Option.some.inj h
      exact ⟨rfl, (Bool.or_false _).symm, id⟩
  | registered key =>
      obtain rfl := Option.some.inj h
      exact ⟨rfl, (Bool.or_false _).symm, id⟩
  | declaration u decl =>
      have hseen : (s.notes decl).entrySeen = (s.entrySeen || [decl].any Declaration.isEntry) :=
        congrArg (s.entrySeen || ·) (Bool.or_false _).symm
      have hnoted (hs : s.Noted) : ∀ f ∈ (decl.effect u.name s.symbols).symbols.functions,
          isEntryName f.name = true → (s.notes decl).entrySeen = true := by
        intro f hf hentry
        rcases Declaration.name_of_mem_effect hf with hmem | heq
        · exact Bool.or_eq_true_iff.mpr (.inl (hs f hmem hentry))
        · rw [heq] at hentry
          exact Bool.or_eq_true_iff.mpr (.inr hentry)
      rcases takes_eq_some h with ⟨-, rfl⟩ | ⟨id, l, -, -, rfl⟩
      · exact ⟨rfl, hseen, hnoted⟩
      · refine ⟨rfl, hseen, ?_⟩
        intro hs f hf hentry
        obtain ⟨g, hg, rfl | rfl⟩ := Symbols.mem_modifyFunction hf
        · exact hnoted hs _ hg hentry
        · exact hnoted hs g hg hentry

theorem sees_of_performAll (h : s.performAll acts = some t) :
    s.Sees t (acts.filterMap Act.declaration?) := by
  induction acts generalizing s with
  | nil =>
      obtain rfl := Option.some.inj h
      exact .refl _
  | cons a rest ih =>
      obtain ⟨s', hs', h⟩ := Option.bind_eq_some_iff.mp h
      rw [Act.filterMap_declaration?_cons]
      exact (sees_of_perform hs').trans (ih h)

/-! ### The end of the outermost unit -/

theorem noted_start (i : Instance) (outer : List Instance) (r : Registry) :
    (start i outer r .empty).Noted :=
  List.forall_mem_nil _

theorem entrySeen_of_lookup? (hs : s.Noted) {name : String} (hname : isEntryName name = true)
    (h : (s.symbols.lookup? name).isSome = true) : s.entrySeen = true := by
  obtain ⟨f, hf⟩ := Option.isSome_iff_exists.mp h
  refine hs f (List.mem_of_find?_eq_some hf) ?_
  rw [Symbols.name_of_lookup? hf]
  exact hname

/-- A unit is marked at its end exactly if no entry point was seen, and then it has an error. -/
theorem isInclude_concluded (hs : s.Noted) :
    s.concluded.current.isInclude = (s.current.isInclude || !s.entrySeen) ∧
      (s.entrySeen = false → 0 < s.concluded.current.errors) := by
  cases hseen : s.entrySeen with
  | true =>
      have hsame : s.concluded = s := by
        rw [concluded, hseen, Bool.not_true, Bool.and_false]
        rfl
      rw [hsame]
      exact ⟨(Bool.or_false _).symm, fun h => Bool.noConfusion h⟩
  | false =>
      have hnone {name : String} (hname : isEntryName name = true) :
          (s.symbols.lookup? name).isSome = false := by
        refine Bool.eq_false_iff.mpr fun hsome => ?_
        rw [entrySeen_of_lookup? hs hname hsome] at hseen
        cases hseen
      rw [concluded, hseen, hnone (by decide), hnone (by decide)]
      exact ⟨(Bool.or_true _).symm, fun _ => Nat.succ_pos _⟩

theorem isInclude_loads (h : s.loads = some s') : s'.current.isInclude = s.current.isInclude := by
  rcases loads_eq_some h with rfl | rfl
  · rfl
  · rfl

end EmitState

/-- After a full pass, a unit is marked exactly if neither it nor a unit that it includes declares an
entry point, and then it has an error. -/
theorem Emit.isInclude_root {front : FrontEnd} {loader : Loader} {i : Instance}
    {outer : List Instance} {r : Registry} {source : Bytes} {s : EmitState} (hi : i.Roomy)
    (hsource : i.source.bytes? = some source) (hnew : i.isInclude = false)
    (h : root front loader .full (.start i outer r .empty) = .ok () s) :
    (s.current.isInclude = true ↔
      ∀ decl ∈ Expanded.allDeclarations (Expanded.ofRoot front loader r i.name source),
        decl.isEntry = false) ∧
      (s.current.isInclude = true → 0 < s.current.errors) := by
  have hready : (EmitState.start i outer r .empty).Ready := ⟨hi, Symbols.numbered_empty⟩
  obtain ⟨source', t, hsource', -, hacts, hloads⟩ := (outermost_eq_ok_iff hready).mp h
  obtain rfl := Option.some.inj (hsource.symm.trans hsource')
  have hsees := EmitState.sees_of_performAll hacts
  rw [Expanded.declaration?_allActs] at hsees
  obtain ⟨hmarked, herrors⟩ :=
    EmitState.isInclude_concluded (hsees.noted (EmitState.noted_start i outer r))
  have hinclude : t.current.isInclude = false := hsees.isInclude.trans hnew
  have hseen : t.entrySeen = _ := hsees.entrySeen.trans (Bool.false_or _)
  rw [hinclude, Bool.false_or] at hmarked
  rw [EmitState.isInclude_loads hloads, EmitState.errors_loads hloads, hmarked, Bool.not_eq_true']
  refine ⟨?_, herrors⟩
  rw [hseen, List.any_eq_false]
  exact forall₂_congr fun decl _ => Bool.eq_false_iff.symm

end Nss
