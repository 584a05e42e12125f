/-
# What an emission without errors leaves

`EmitState.Ran` is what holds between two states of an emission when the part between them ran to
its end.  The symbol table is that of a script still.  If there are no errors in the end, there are
none on the way, and then instructions were only added, together with the bodies of functions that
had none before.

    declaration   adds the code of a function behind that of the unit
    opened unit   starts without code; in the end its code comes behind that of the unit around it,
                  and the bodies of its functions are moved along

The induction is on what the unit consists of, where `Ran` is reflexive and transitive.
-/
import Nss.Session
import Nss.Proofs.Unit.Steps

namespace Nss

open Steps

namespace EmitState

/-- Between two states, instructions were added, and the bodies of some functions that had none. -/
structure Adds (s s' : EmitState) (new : List Instruction) (ids : List Nat) : Prop where
  records : s'.current.records = s.current.records ++ new
  wellFormed : ∀ i ∈ new, i.WellFormed
  callee : ∀ i ∈ new, ∀ id, i.callee? = some id → id < s'.symbols.functions.length
  defined : s'.current.defined = s.current.defined ++ ids
  nodup : ids.Nodup
  fresh : ∀ id ∈ ids, s.symbols.body? id = none
  bodies : ∀ id ∈ ids, ∃ b, s'.symbols.body? id = some b ∧ b.Sound s'.current.records
  others : ∀ id, id ∉ ids → s'.symbols.body? id = s.symbols.body? id
  known : s.symbols.functions.length ≤ s'.symbols.functions.length

/-- A part of an emission ran to its end. -/
structure Ran (s s' : EmitState) : Prop where
  errors : s.current.errors ≤ s'.current.errors
  output : s'.current.output = s.current.output
  scripted : s'.symbols.Scripted
  adds : s'.current.errors = 0 → ∃ new ids, s.Adds s' new ids

variable {s t u : EmitState} {new new' : List Instruction} {ids ids' : List Nat}

namespace Adds

theorem refl (s : EmitState) : s.Adds s [] [] where
  records := (List.append_nil _).symm
  wellFormed := List.forall_mem_nil _
  callee := List.forall_mem_nil _
  defined := (List.append_nil _).symm
  nodup := List.nodup_nil
  fresh := List.forall_mem_nil _
  bodies := List.forall_mem_nil _
  others _ _ := rfl
  known := Nat.le_refl _

/-- Nothing is added to the instructions or to the bodies. -/
theorem of_same (hrecords : t.current.records = s.current.records)
    (hdefined : t.current.defined = s.current.defined)
    (hbodies : ∀ id, t.symbols.body? id = s.symbols.body? id)
    (hknown : s.symbols.functions.length ≤ t.symbols.functions.length) : s.Adds t [] [] where
  records := hrecords.trans (List.append_nil _).symm
  wellFormed := List.forall_mem_nil _
  callee := List.forall_mem_nil _
  defined := hdefined.trans (List.append_nil _).symm
  nodup := List.nodup_nil
  fresh := List.forall_mem_nil _
  bodies := List.forall_mem_nil _
  others id _ := hbodies id
  known := hknown

theorem trans (h : s.Adds t new ids) (h' : t.Adds u new' ids') :
    s.Adds u (new ++ new') (ids ++ ids') where
  records := by rw [h'.records, h.records, List.append_assoc]
  wellFormed := List.forall_mem_append.mpr ⟨h.wellFormed, h'.wellFormed⟩
  callee := by
    refine List.forall_mem_append.mpr ⟨?_, h'.callee⟩
    intro i hi id hid
    exact Nat.lt_of_lt_of_le (h.callee i hi id hid) h'.known
  defined := by rw [h'.defined, h.defined, List.append_assoc]
  nodup := by
    refine List.nodup_append.mpr ⟨h.nodup, h'.nodup, ?_⟩
    rintro id hid id' hid' rfl
    obtain ⟨b, hb, -⟩ := h.bodies id hid
    rw [h'.fresh id hid'] at hb
    cases hb
  fresh := by
    refine List.forall_mem_append.mpr ⟨h.fresh, ?_⟩
    intro id hid
    by_cases hmem : id ∈ ids
    · exact h.fresh id hmem
    · rw [← h.others id hmem]
      exact h'.fresh id hid
  bodies := by
    refine List.forall_mem_append.mpr ⟨?_, h'.bodies⟩
    intro id hid
    obtain ⟨b, hb, hsound⟩ := h.bodies id hid
    have hnot : id ∉ ids' := by
      intro hid'
      rw [h'.fresh id hid'] at hb
      cases hb
    refine ⟨b, (h'.others id hnot).trans hb, ?_⟩
    rw [h'.records]
    exact hsound.append new'
  others := by
    intro id hid
    rw [h'.others id (mt (List.mem_append_right _) hid), h.others id (mt (List.mem_append_left _) hid)]
  known := Nat.le_trans h.known h'.known

end Adds

namespace Ran

theorem refl (hs : s.symbols.Scripted) : s.Ran s :=
  ⟨Nat.le_refl _, rfl, hs, fun _ => ⟨[], [], .refl s⟩⟩

theorem trans (h : s.Ran t) (h' : t.Ran u) : s.Ran u where
  errors := Nat.le_trans h.errors h'.errors
  output := h'.output.trans h.output
  scripted := h'.scripted
  adds hu := by
    have ht : t.current.errors = 0 := Nat.eq_zero_of_le_zero (hu ▸ h'.errors)
    obtain ⟨new, ids, hadds⟩ := h.adds ht
    obtain ⟨new', ids', hadds'⟩ := h'.adds hu
    exact ⟨_, _, hadds.trans hadds'⟩

/-- Nothing is added, except for errors. -/
theorem of_same (hs : s.symbols.Scripted) (hsymbols : t.symbols = s.symbols)
    (hrecords : t.current.records = s.current.records)
    (hdefined : t.current.defined = s.current.defined)
    (houtput : t.current.output = s.current.output)
    (herrors : s.current.errors ≤ t.current.errors) : s.Ran t where
  errors := herrors
  output := houtput
  scripted := hsymbols ▸ hs
  adds _ := ⟨[], [], .of_same hrecords hdefined (fun _ => by rw [hsymbols])
    (Nat.le_of_eq (by rw [hsymbols]))⟩

end Ran

end EmitState

namespace Emit

variable {s s' : EmitState} {u : UnitText}

/-! ## Diagnostics -/

theorem reports_ran (hs : s.symbols.Scripted) (ds : List Diagnostic) : s.Ran (s.reports u ds) :=
  .of_same hs rfl rfl rfl rfl (Nat.le_add_right _ _)

/-! ## Functions -/

theorem addBody_eq_ok {id : Nat} {l : Lowering} (h : addBody id l s = .ok () s') :
    ∃ i, s.current.SameButBuffer i ∧ i.records = s.current.records ++ l.code.toList ∧
      s' = { s with
        current := i.define id
        symbols := s.symbols.attachBody id ⟨s.current.records.length, l.code.size, l.labels⟩ } := by
  rw [addBody_apply] at h
  rcases happend : s.current.appendCode addressable l with ⟨i, e | body⟩
  · rw [happend] at h
    cases h
  · rw [happend] at h
    obtain ⟨hsame, hrecords, rfl⟩ := Instance.appendCode_eq_ok happend
    exact ⟨i, hsame, hrecords, (EStateM.Result.ok.inj h).2.symm⟩

/-- What the code of a function must be like before it is added. -/
structure Addable (symbols : Symbols) (id : Nat) (l : Lowering) : Prop where
  closed : l.routine.Closed symbols
  known : id < symbols.functions.length
  fresh : symbols.body? id = none

/-- The code of a function is added, with its body. -/
theorem addBody_adds {id : Nat} {l : Lowering} (hs : s.symbols.Numbered)
    (h : addBody id l s = .ok () s') (hadd : Addable s.symbols id l) :
    s.Adds s' l.code.toList [id] := by
  obtain ⟨i, hsame, hrecords, rfl⟩ := addBody_eq_ok h
  constructor
  case records => exact hrecords
  case wellFormed => exact hadd.closed.wellFormed
  case callee =>
    intro j hj id' hid'
    obtain ⟨f, hf, rfl⟩ := hadd.closed.callee j hj id' hid'
    show _ < (s.symbols.modifyFunction _ _).functions.length
    rw [Symbols.length_modifyFunction]
    exact (List.getElem?_eq_some_iff.mp (hs.function?_of_mem hf)).1
  case defined =>
    show i.defined ++ [id] = s.current.defined ++ [id]
    rw [hsame]
  case nodup => exact List.nodup_cons.mpr ⟨List.not_mem_nil, List.nodup_nil⟩
  case fresh => exact List.forall_mem_singleton.mpr hadd.fresh
  case bodies =>
    refine List.forall_mem_singleton.mpr ⟨_, Symbols.body?_attachBody_self hadd.known _, ?_⟩
    show FunctionBody.Sound _ i.records
    rw [hrecords]
    exact .ofClosed hadd.closed s.current.records
  case others =>
    intro id' hid'
    exact Symbols.body?_modifyFunction_ne (fun heq => hid' (List.mem_singleton.mpr heq.symm)) _
  case known => exact Nat.le_of_eq (Symbols.length_modifyFunction id _).symm

/-- Adding code changes neither the number of errors nor the output window. -/
theorem addBody_same {id : Nat} {l : Lowering} (h : addBody id l s = .ok () s') :
    s'.current.errors = s.current.errors ∧ s'.current.output = s.current.output := by
  obtain ⟨i, hsame, -, rfl⟩ := addBody_eq_ok h
  show i.errors = _ ∧ i.output = _
  rw [hsame]
  exact ⟨rfl, rfl⟩

theorem addBody_ran {id : Nat} {l : Lowering} (hs : s.symbols.Scripted)
    (h : addBody id l s = .ok () s') (hadd : s.current.errors = 0 → Addable s.symbols id l) :
    s.Ran s' := by
  obtain ⟨herrors, houtput⟩ := addBody_same h
  refine ⟨Nat.le_of_eq herrors.symm, houtput, ?_, ?_⟩
  · obtain ⟨i, -, -, rfl⟩ := addBody_eq_ok h
    exact hs.attachBody _ _
  · intro hzero
    exact ⟨_, _, addBody_adds hs.toNumbered h (hadd (herrors.symm.trans hzero))⟩

/-! ## Declarations -/

/-- A function without errors can be added. -/
theorem addable_ofFunction {symbols symbols' : Symbols} {decl : FunctionDecl} {id : Nat}
    (hs : symbols'.Scripted) (hdecl : decl.NonVoid) (hknown : symbols.Declared symbols' decl id)
    (hbody : decl.body.isSome = true)
    (hclean : Diagnostic.errorCount (Lowering.ofFunction decl symbols').diagnostics = 0) :
    Addable symbols' id (Lowering.ofFunction decl symbols') where
  closed := by
    refine (Lowering.ofFunction_emits hs.toNonVoid hdecl ?_).closed hdecl
    have hnone := List.countP_eq_zero.mp hclean
    refine List.eq_nil_iff_forall_not_mem.mpr ?_
    intro d hd
    exact hnone d hd (Lowering.ofFunction_isError hdecl d hd)
  known := hknown.known
  fresh := (hknown.bodies id).trans (hknown.fresh hbody)

/-- The code that a declaration gives can be added if there are no errors in it. -/
theorem addable_of_effect {symbols : Symbols} {decl : Declaration} {unit : String} {id : Nat}
    {l : Lowering} (hs : symbols.Scripted) (hdecl : decl.Proper)
    (hbody : (decl.effect unit symbols).body = some (id, l))
    (hclean : Diagnostic.errorCount (decl.effect unit symbols).diagnostics = 0) :
    Addable (decl.effect unit symbols).symbols id l := by
  obtain ⟨f, symbols', rfl, hsome, hdeclare, rfl, heffect⟩ := Declaration.effect_body hbody
  rw [heffect] at hclean ⊢
  cases hdecl with
  | function hnonVoid hname =>
      obtain ⟨hscripted, hknown⟩ := hs.declareFunction hnonVoid hname hdeclare
      exact addable_ofFunction hscripted hnonVoid hknown hsome hclean

/-- The effect of a declaration is carried out. -/
theorem carry_ran {decl : Declaration} (hdecl : decl.Proper) (hs : s.symbols.Scripted)
    (h : carry u (decl.effect u.name s.symbols) s = .ok () s') : s.Ran s' := by
  have hsound := decl.effect_sound hs.toNumbered u.name
  have hdeclared : s.Ran { s with symbols := (decl.effect u.name s.symbols).symbols } :=
    { errors := Nat.le_refl _
      output := rfl
      scripted := Declaration.effect_scripted hs hdecl u.name
      adds := fun _ => ⟨[], [], .of_same rfl rfl hsound.bodies (decl.length_effect hs.toNumbered _)⟩ }
  have hreported := hdeclared.trans
    (reports_ran (u := u) hdeclared.scripted (decl.effect u.name s.symbols).diagnostics)
  rw [carry] at h
  cases hbody : (decl.effect u.name s.symbols).body with
  | none =>
      rw [hbody] at h
      obtain rfl := (EStateM.Result.ok.inj h).2
      exact hreported
  | some added =>
      rw [hbody] at h
      refine hreported.trans (addBody_ran hreported.scripted h ?_)
      intro hzero
      rw [errors_reports] at hzero
      exact addable_of_effect hs hdecl hbody (Nat.add_eq_zero_iff.mp hzero).2

/-! ## Included units -/

/-- What was added in a new unit is added to the unit around it, behind the code that was there. -/
theorem absorb_adds {child i : Instance} {t : EmitState} {new : List Instruction} {ids : List Nat}
    (hchild : child.Fresh)
    (hadds : EmitState.Adds { s with current := child, outer := s.current :: s.outer } t new ids)
    (hrecords : i.records = s.current.records ++ t.current.records)
    (hdefined : i.defined = s.current.defined ++ t.current.defined) :
    s.Adds { t with
      current := i
      outer := s.outer
      symbols := t.symbols.rebase t.current.defined s.current.records.length } new ids := by
  have hnew : t.current.records = new := by rw [hadds.records, hchild.records, List.nil_append]
  have hids : t.current.defined = ids := by rw [hadds.defined, hchild.defined, List.nil_append]
  rw [hids]
  constructor
  case records => rw [← hnew]; exact hrecords
  case wellFormed => exact hadds.wellFormed
  case callee =>
    intro j hj id hid
    show _ < (Symbols.rebase _ _ _).functions.length
    rw [Symbols.length_rebase]
    exact hadds.callee j hj id hid
  case defined => rw [← hids]; exact hdefined
  case nodup => exact hadds.nodup
  case fresh => exact hadds.fresh
  case bodies =>
    intro id hid
    obtain ⟨b, hb, hsound⟩ := hadds.bodies id hid
    refine ⟨b.moved s.current.records.length, ?_, ?_⟩
    · show (Symbols.rebase _ _ _).body? id = _
      rw [Symbols.body?_rebase_of_mem hadds.nodup hid, hb]
      rfl
    · show FunctionBody.Sound _ i.records
      rw [hrecords]
      exact hsound.moved s.current.records
  case others =>
    intro id hid
    show (Symbols.rebase _ _ _).body? id = _
    rw [Symbols.body?_rebase_of_notMem hid]
    exact hadds.others id hid
  case known =>
    show _ ≤ (Symbols.rebase _ _ _).functions.length
    rw [Symbols.length_rebase]
    exact hadds.known

/-- The code of a unit comes behind that of the unit around it. -/
theorem absorb_ran {child : Instance} {t : EmitState} (hchild : child.Fresh)
    (hran : EmitState.Ran { s with current := child, outer := s.current :: s.outer } t)
    (h : absorb t.current { t with current := s.current, outer := s.outer } = .ok () s') :
    s.Ran s' := by
  obtain ⟨i, left, offset, habsorb, rfl⟩ := absorb_eq_ok.mp h
  obtain ⟨rfl, hrecords, hdefined, herrors, houtput⟩ := Instance.absorb_eq_ok habsorb
  have herrors : i.errors = s.current.errors + t.current.errors := herrors
  refine ⟨Nat.le.intro herrors.symm, houtput, hran.scripted.rebase _ _, ?_⟩
  intro hzero
  have hinside : t.current.errors = 0 := (Nat.add_eq_zero_iff.mp (herrors.symm.trans hzero)).2
  obtain ⟨new, ids, hadds⟩ := hran.adds hinside
  exact ⟨new, ids, absorb_adds hchild hadds hrecords hdefined⟩

theorem nested_ran {key : String} {source : Bytes} {content : Emit Unit}
    (hs : s.symbols.Scripted)
    (hcontent : ∀ {t t' : EmitState}, t.symbols.Scripted → content t = .ok () t' → t.Ran t')
    (h : nested key source content s = .ok () s') : s.Ran s' := by
  have hregistered : s.Ran (s.registering key) := .of_same hs rfl rfl rfl rfl (Nat.le_refl _)
  refine hregistered.trans ?_
  obtain ⟨child, t, hbegin, ht, h⟩ := nested_eq_ok.mp h
  exact absorb_ran (s := s.registering key) (Instance.fresh_of_begin? hbegin) (hcontent hs ht) h

end Emit

/-! ## What a unit consists of -/

mutual

/-- All declarations in a part of a unit are those of scripts. -/
def Expanded.Proper : Expanded → Prop
  | .problem _ | .repeated _ | .missing _ _ _ => True
  | .declaration decl => decl.Proper
  | .opened _ _ content => Expanded.AllProper content

/-- All declarations in parts of a unit are those of scripts. -/
def Expanded.AllProper : List Expanded → Prop
  | [] => True
  | x :: rest => x.Proper ∧ Expanded.AllProper rest

end

namespace Expanded

theorem ofEvents_proper {loader : Loader}
    {descend : Registry → String → Bytes → List Expanded × Registry}
    (hdescend : ∀ r key source, AllProper (descend r key source).1) :
    ∀ (es : List Event) (r : Registry), (∀ e ∈ es, e.Proper) →
      AllProper (ofEvents loader descend r es).1
  | [], r, _ => by
      rw [ofEvents]
      trivial
  | .problem d :: rest, r, hes => by
      rw [ofEvents]
      exact ⟨trivial, ofEvents_proper hdescend rest r fun e he => hes e (.tail _ he)⟩
  | .declaration decl :: rest, r, hes => by
      rw [ofEvents]
      exact ⟨hes _ List.mem_cons_self decl rfl,
        ofEvents_proper hdescend rest r fun e he => hes e (.tail _ he)⟩
  | .inclusion path span :: rest, r, hes => by
      have hrest (r : Registry) : AllProper (ofEvents loader descend r rest).1 :=
        ofEvents_proper hdescend rest r fun e he => hes e (.tail _ he)
      rw [ofEvents]
      split
      · exact ⟨trivial, hrest r⟩
      · split
        · exact ⟨trivial, hrest _⟩
        · exact ⟨hdescend _ _ _, hrest _⟩

theorem ofUnit_proper (loader : Loader) :
    ∀ (n : Nat) (r : Registry) (unit : String) (source : Bytes),
      AllProper (ofUnit scriptFrontEnd loader n r unit source).1
  | 0, _, _, _ => trivial
  | n + 1, r, _, source =>
      ofEvents_proper (ofUnit_proper loader n) _ r (Event.ofSource_proper (Bytes.toText source))

theorem allProper_filterMap {pick : Event → Option Expanded} :
    ∀ {es : List Event}, (∀ e ∈ es, ∀ x, pick e = some x → x.Proper) →
      AllProper (es.filterMap pick)
  | [], _ => trivial
  | e :: rest, h => by
      have hrest := allProper_filterMap fun e' he' => h e' (.tail _ he')
      rw [List.filterMap_cons]
      split
      · exact hrest
      · next x hx => exact ⟨h e List.mem_cons_self x hx, hrest⟩

theorem scan_proper (unit : String) (source : Bytes) :
    AllProper (scan scriptFrontEnd unit source) := by
  refine allProper_filterMap ?_
  intro e he x hx
  have hproper := Event.ofSource_proper _ e he
  cases e with
  | problem d =>
      obtain rfl := Option.some.inj hx
      trivial
  | declaration decl =>
      obtain rfl := Option.some.inj hx
      exact hproper decl rfl
  | inclusion path span => cases hx

end Expanded

namespace Emit

variable {s s' : EmitState}

theorem content_proper (loader : Loader) (mode : EmitMode) (registry : Registry) (unit : String)
    (source : Bytes) :
    Expanded.AllProper (content scriptFrontEnd loader mode registry unit source) := by
  cases mode with
  | full => exact Expanded.ofUnit_proper loader _ _ _ _
  | scanOnly => exact Expanded.scan_proper unit source

mutual

theorem part_ran (mode : EmitMode) :
    ∀ (u : UnitText) (x : Expanded) {s s' : EmitState}, x.Proper → s.symbols.Scripted →
      part mode u x s = .ok () s' → s.Ran s'
  | u, .problem d, s, s', _, hs, h => by
      rw [part_problem_apply] at h
      obtain rfl := (EStateM.Result.ok.inj h).2
      exact reports_ran hs [d]
  | u, .declaration decl, s, s', hx, hs, h => by
      rw [Expanded.Proper] at hx
      rw [part_declaration_apply] at h
      have hnoted : s.Ran (s.notes decl) := .of_same hs rfl rfl rfl rfl (Nat.le_refl _)
      refine hnoted.trans ?_
      cases mode with
      | full => exact carry_ran (s := s.notes decl) hx hs h
      | scanOnly =>
          obtain rfl := (EStateM.Result.ok.inj h).2
          exact .refl hs
  | u, .repeated key, s, s', _, hs, h => by
      rw [part_repeated_apply] at h
      obtain rfl := (EStateM.Result.ok.inj h).2
      exact .refl hs
  | u, .missing key path span, s, s', _, hs, h => by
      rw [part_missing_apply] at h
      obtain rfl := (EStateM.Result.ok.inj h).2
      have hregistered : s.Ran (s.registering key) := .of_same hs rfl rfl rfl rfl (Nat.le_refl _)
      exact hregistered.trans (reports_ran hregistered.scripted _)
  | u, .opened key source content, s, s', hx, hs, h => by
      rw [Expanded.Proper] at hx
      rw [part] at h
      exact nested_ran hs (parts_ran mode _ content hx) h

theorem parts_ran (mode : EmitMode) :
    ∀ (u : UnitText) (xs : List Expanded) {s s' : EmitState}, Expanded.AllProper xs →
      s.symbols.Scripted → parts mode u xs s = .ok () s' → s.Ran s'
  | u, [], s, s', _, hs, h => by
      rw [parts] at h
      obtain rfl := (EStateM.Result.ok.inj h).2
      exact .refl hs
  | u, x :: rest, s, s', hxs, hs, h => by
      rw [Expanded.AllProper] at hxs
      rw [parts] at h
      obtain ⟨_, t, ht, h⟩ := bind_eq_ok.mp h
      have hfirst := part_ran mode u x hxs.1 hs ht
      exact hfirst.trans (parts_ran mode u rest hxs.2 hfirst.scripted h)

end

end Emit

end Nss
