/-
# The course of an emission

An emission told in small steps, as it can be watched between two events.  A moment is its state,
together with what is left of the unit at hand and of those around it.

    part     an event of the unit at hand is emitted
    enter    an opened unit gets an instance of its own, and is at hand from then on
    leave    a finished unit is taken over by the one around it

A step comes with the definitions that it accepts, and a course with all of them in order.  The
steps are those of the emission itself: one that comes to its end runs through a course
(`course_of_parts`).  What a single event adds to the unit at hand is told by `Gains`, whether or
not it gives errors.
-/
import Nss.Proofs.Unit.Flat

namespace Nss

open Steps

/-! ## Accepted definitions -/

/-- What the code of a function is lowered from: a definition with the table that it is accepted
into, or a table whose global variables are loaded. -/
inductive Origin where
  | definition (decl : FunctionDecl) (known : Symbols)
  | loader (known : Symbols)

namespace Origin

/-- What is lowered. -/
def lowering : Origin → Lowering
  | definition decl known => .ofFunction decl known
  | loader known => .ofGlobals known known.startFunction?

/-- The name of the function. -/
def name : Origin → String
  | definition decl _ => decl.name
  | loader _ => globalsLoader

end Origin

/-- The numbers of functions with the origins of their code, in the order of acceptance. -/
abbrev Log := List (Nat × Origin)

/-- The code of all functions of a log. -/
def Log.code (log : Log) : List Instruction := log.flatMap fun e => e.2.lowering.code.toList

/-- The definition that is accepted with a part of a unit. -/
def Expanded.accepted (unit : String) (s : Symbols) : Expanded → Log
  | .declaration (.function decl) =>
    match s.declareFunction decl unit with
    | .ok (known, id) => if decl.body.isSome then [(id, .definition decl known)] else []
    | .error _ => []
  | .declaration (.global _) | .problem _ | .repeated _ | .missing _ _ _ | .opened _ _ _ => []

theorem Expanded.accepted_eq {unit : String} {s : Symbols} {x : Expanded} {e : Nat × Origin}
    (h : e ∈ x.accepted unit s) :
    ∃ decl known, e.2 = .definition decl known ∧ x = .declaration (.function decl) := by
  rw [accepted.eq_def] at h
  split at h
  · split at h
    · split at h
      · obtain rfl := List.mem_singleton.mp h
        exact ⟨_, _, rfl, rfl⟩
      · cases h
    · cases h
  all_goals cases h

/-- Nothing is accepted with a declaration that gives no code. -/
theorem Expanded.accepted_eq_nil {unit : String} {s : Symbols} {decl : Declaration}
    (h : (decl.effect unit s).body = none) : accepted unit s (.declaration decl) = [] := by
  cases decl with
  | global v => rfl
  | function f =>
      rw [Declaration.effect, FunctionDecl.effect] at h
      rw [accepted]
      cases hdeclare : s.declareFunction f unit with
      | error d => rfl
      | ok declared =>
          rw [hdeclare] at h
          dsimp only at h
          split at h
          · cases h
          · next hbody => exact if_neg hbody

/-- Whether a part of a unit is a unit of its own. -/
def Expanded.isOpened : Expanded → Bool
  | .opened _ _ _ => true
  | .declaration _ | .problem _ | .repeated _ | .missing _ _ _ => false

/-! ## Moments and steps -/

/-- The state of an emission between two events, with what is left of the unit at hand and of those
around it. -/
structure Moment where
  state : EmitState
  left : List (Emit.UnitText × List Expanded)

/-- The instances at a moment, the innermost first. -/
def EmitState.stack (s : EmitState) : List Instance := s.current :: s.outer

namespace Moment

/-- One step of an emission, with the definitions that it accepts. -/
inductive Step : Moment → Log → Moment → Prop
  | part {s s' : EmitState} {u : Emit.UnitText} {x : Expanded} {rest : List Expanded}
      {around : List (Emit.UnitText × List Expanded)} :
      x.isOpened = false → Emit.part .full u x s = .ok () s' →
      Step ⟨s, (u, x :: rest) :: around⟩ (x.accepted u.name s.symbols) ⟨s', (u, rest) :: around⟩
  | enter {s : EmitState} {u : Emit.UnitText} {key : String} {source : Bytes} {child : Instance}
      {content rest : List Expanded} {around : List (Emit.UnitText × List Expanded)} :
      Instance.begin? addressable key source s.current.debug false = .ok child →
      Step ⟨s, (u, .opened key source content :: rest) :: around⟩ []
        ⟨s.entering key child, (⟨key, Bytes.toText source⟩, content) :: (u, rest) :: around⟩
  | leave {s s' : EmitState} {u : Emit.UnitText} {p : Instance} {outer : List Instance}
      {v : Emit.UnitText × List Expanded} {around : List (Emit.UnitText × List Expanded)} :
      s.outer = p :: outer →
      Emit.absorb s.current { s with current := p, outer } = .ok () s' →
      Step ⟨s, (u, []) :: v :: around⟩ [] ⟨s', v :: around⟩

/-- Some steps of an emission, with all definitions that they accept. -/
inductive Course : Moment → Log → Moment → Prop
  | refl (m : Moment) : Course m [] m
  | step {m m' m'' : Moment} {log new : Log} :
      Course m log m' → Step m' new m'' → Course m (log ++ new) m''

namespace Course

variable {m m' m'' : Moment} {log log' : Log}

theorem single (h : Step m log m') : Course m log m' :=
  .step (.refl m) h

theorem trans (h : Course m log m') (h' : Course m' log' m'') : Course m (log ++ log') m'' := by
  induction h' with
  | refl =>
      rw [List.append_nil]
      exact h
  | step hcourse hstep ih =>
      rw [← List.append_assoc]
      exact .step ih hstep

end Course

end Moment

/-! ## Names and places in a table -/

namespace Symbols

variable {s s' : Symbols}

/-- The name of the function with a number. -/
def name? (s : Symbols) (id : Nat) : Option String := (s.function? id).map FunctionSymbol.name

theorem name?_modifyFunction {change : FunctionSymbol → FunctionSymbol}
    (hchange : ∀ f, (change f).name = f.name) (id id' : Nat) :
    (s.modifyFunction id change).name? id' = s.name? id' := by
  rw [name?, name?, function?, function?, modifyFunction, List.getElem?_modify]
  cases s.functions[id']? with
  | none => rfl
  | some f =>
      refine congrArg some ?_
      show (if id = id' then change f else f).name = f.name
      split
      · exact hchange f
      · rfl

theorem name?_rebase (ids : List Nat) (offset id : Nat) :
    (s.rebase ids offset).name? id = s.name? id := by
  rw [rebase]
  induction ids generalizing s with
  | nil => rfl
  | cons id' ids ih =>
      rw [List.foldl_cons, ih, shift_eq]
      exact name?_modifyFunction (by intro f; rfl) id' id

theorem name?_insert {id : Nat} {name name' : String} (h : s.name? id = some name')
    (result : ValueType) (params : List ValueType) (unit : String) :
    (s.insert name result params unit).1.name? id = some name' := by
  obtain ⟨f, hf, rfl⟩ := Option.map_eq_some_iff.mp h
  exact congrArg (Option.map _) (function?_withFunction_of_lt hf)

theorem name?_insert_self (name : String) (result : ValueType) (params : List ValueType)
    (unit : String) : (s.insert name result params unit).1.name? s.functions.length = some name := by
  rw [name?, function?, insert, List.getElem?_concat_length]
  rfl

/-- A function that is declared is found under the number that it is given. -/
theorem name?_declareFunction (hs : s.Numbered) {decl : FunctionDecl} {unit : String} {id : Nat}
    (h : s.declareFunction decl unit = .ok (s', id)) : s'.name? id = some decl.name := by
  obtain ⟨-, ⟨f, hf, rfl, rfl⟩ | ⟨-, rfl, rfl⟩⟩ := declareFunction_eq_ok h
  · rw [name?, hs.function?_of_lookup? hf.found, Option.map_some, name_of_lookup? hf.found]
  · exact name?_insert_self _ _ _ _

theorem name?_of_declareFunction {decl : FunctionDecl} {unit : String} {id id' : Nat}
    {name : String} (h : s.declareFunction decl unit = .ok (s', id))
    (hname : s.name? id' = some name) : s'.name? id' = some name := by
  obtain ⟨-, ⟨f, -, -, rfl⟩ | ⟨-, -, rfl⟩⟩ := declareFunction_eq_ok h
  · exact hname
  · exact name?_insert hname _ _ _

/-- The functions of a log have their bodies one behind the other, the first one at some place. -/
def Placed (s : Symbols) : Nat → Log → Prop
  | _, [] => True
  | n, e :: log =>
    s.body? e.1 = some ⟨n, e.2.lowering.code.size, e.2.lowering.labels⟩ ∧
      s.Placed (n + e.2.lowering.code.size) log

end Symbols

/-! ## What a part of a unit adds -/

namespace EmitState

/-- The unit at hand gains the code of some functions that had none, and nothing else that concerns
code is changed. -/
structure Gains (s s' : EmitState) (new : Log) : Prop where
  outer : s'.outer = s.outer
  defined : s'.current.defined = s.current.defined ++ new.map Prod.fst
  records : s'.current.records = s.current.records ++ new.code
  placed : s'.symbols.Placed s.current.records.length new
  fresh : ∀ id ∈ new.map Prod.fst, s.symbols.body? id = none
  nodup : (new.map Prod.fst).Nodup
  others : ∀ id, id ∉ new.map Prod.fst → s'.symbols.body? id = s.symbols.body? id
  named : ∀ e ∈ new, s'.symbols.name? e.1 = some e.2.name
  known : ∀ id name, s.symbols.name? id = some name → s'.symbols.name? id = some name
  numbered : s'.symbols.Numbered

variable {s s' : EmitState}

namespace Gains

/-- Nothing is gained. -/
theorem none (houter : s'.outer = s.outer) (hdefined : s'.current.defined = s.current.defined)
    (hrecords : s'.current.records = s.current.records)
    (hbodies : ∀ id, s'.symbols.body? id = s.symbols.body? id)
    (hknown : ∀ id name, s.symbols.name? id = some name → s'.symbols.name? id = some name)
    (hnumbered : s'.symbols.Numbered) : s.Gains s' [] where
  outer := houter
  defined := hdefined.trans (List.append_nil _).symm
  records := hrecords.trans (List.append_nil _).symm
  placed := trivial
  fresh := List.forall_mem_nil _
  nodup := .nil
  others id _ := hbodies id
  named := List.forall_mem_nil _
  known := hknown
  numbered := hnumbered

/-- Nothing but diagnostics and keys is added. -/
theorem of_symbols (houter : s'.outer = s.outer) (hdefined : s'.current.defined = s.current.defined)
    (hrecords : s'.current.records = s.current.records) (hsymbols : s'.symbols = s.symbols)
    (hs : s.symbols.Numbered) : s.Gains s' [] :=
  .none houter hdefined hrecords (fun _ => by rw [hsymbols])
    (fun _ _ h => by rw [hsymbols, h]) (hsymbols ▸ hs)

/-- The code of one function is added, once the table knows it. -/
theorem addBody {t : EmitState} {id : Nat} {o : Origin}
    (h : Emit.addBody id o.lowering t = .ok () s') (houter : t.outer = s.outer)
    (hdefined : t.current.defined = s.current.defined)
    (hrecords : t.current.records = s.current.records) (ht : t.symbols.Numbered)
    (hid : id < t.symbols.functions.length) (hfresh : s.symbols.body? id = Option.none)
    (hname : t.symbols.name? id = some o.name)
    (hbodies : ∀ id', t.symbols.body? id' = s.symbols.body? id')
    (hknown : ∀ id' name, s.symbols.name? id' = some name → t.symbols.name? id' = some name) :
    s.Gains s' [(id, o)] := by
  obtain ⟨i, hsame, hcode, rfl⟩ := Emit.addBody_eq_ok h
  have hkept (id' : Nat) (b : FunctionBody) :
      (t.symbols.attachBody id b).name? id' = t.symbols.name? id' := by
    rw [Symbols.attachBody]
    exact Symbols.name?_modifyFunction (by intro f; rfl) id id'
  constructor
  case outer => exact houter
  case defined =>
    show i.defined ++ [id] = s.current.defined ++ [id]
    rw [hsame, hdefined]
  case records =>
    show i.records = s.current.records ++ (o.lowering.code.toList ++ [])
    rw [hcode, hrecords, List.append_nil]
  case placed =>
    rw [← hrecords]
    exact ⟨Symbols.body?_attachBody_self hid _, trivial⟩
  case fresh => exact List.forall_mem_singleton.mpr hfresh
  case nodup => exact List.nodup_cons.mpr ⟨List.not_mem_nil, List.nodup_nil⟩
  case others =>
    intro id' hid'
    refine (Symbols.body?_modifyFunction_ne ?_ _).trans (hbodies id')
    rintro rfl
    exact hid' List.mem_cons_self
  case named => exact List.forall_mem_singleton.mpr ((hkept id _).trans hname)
  case known => exact fun id' name hname => (hkept id' _).trans (hknown id' name hname)
  case numbered => exact ht.attachBody _ _

/-- That the name of a declaration was seen does not matter. -/
theorem of_notes (decl : Declaration) {new : Log} (h : (s.notes decl).Gains s' new) :
    s.Gains s' new :=
  ⟨h.outer, h.defined, h.records, h.placed, h.fresh, h.nodup, h.others, h.named, h.known,
    h.numbered⟩

end Gains

end EmitState

namespace Emit

open EmitState

variable {s s' : EmitState} {u : UnitText}

/-- A declaration adds the code of what is accepted with it. -/
theorem carry_gains {decl : Declaration} (hs : s.symbols.Numbered)
    (h : carry u (decl.effect u.name s.symbols) s = .ok () s') :
    s.Gains s' (Expanded.accepted u.name s.symbols (.declaration decl)) := by
  have hsound := decl.effect_sound hs u.name
  have hnames (id : Nat) (name : String) (hname : s.symbols.name? id = some name) :
      (decl.effect u.name s.symbols).symbols.name? id = some name := by
    rcases decl.effect_symbols u.name s.symbols with hsame | ⟨v, slot, -, hv⟩ | ⟨f, id', -, hf⟩
    · rw [hsame, hname]
    · rw [Symbols.name?, Symbols.function?, Symbols.functions_declareGlobal hv]
      exact hname
    · exact Symbols.name?_of_declareFunction hf hname
  cases hbody : (decl.effect u.name s.symbols).body with
  | none =>
      rw [carry, hbody] at h
      obtain rfl := (EStateM.Result.ok.inj h).2
      rw [Expanded.accepted_eq_nil hbody]
      exact .none rfl rfl rfl hsound.bodies hnames hsound.numbered
  | some added =>
      obtain ⟨f, known, rfl, hsome, hdeclare, hlowering, heffect⟩ := Declaration.effect_body hbody
      have haccepted : Expanded.accepted u.name s.symbols (.declaration (.function f))
          = [(added.1, .definition f known)] := by
        rw [Expanded.accepted, hdeclare]
        exact if_pos hsome
      rw [haccepted]
      rw [heffect, hlowering] at h
      rw [heffect] at hnames
      exact .addBody (o := .definition f known) h rfl rfl rfl (hs.declareFunction hdeclare)
        (hs.declared hdeclare).known ((hs.declared hdeclare).fresh hsome)
        (Symbols.name?_declareFunction hs hdeclare) (hs.declared hdeclare).bodies hnames

/-- A part of a unit that is not a unit of its own adds the definition that is accepted with it. -/
theorem part_gains {x : Expanded} (hs : s.symbols.Numbered) (hopened : x.isOpened = false)
    (h : part .full u x s = .ok () s') : s.Gains s' (x.accepted u.name s.symbols) := by
  cases x with
  | problem d =>
      rw [part_problem_apply] at h
      obtain rfl := (EStateM.Result.ok.inj h).2
      exact .of_symbols rfl rfl rfl rfl hs
  | declaration decl =>
      rw [part_declaration_apply] at h
      exact .of_notes decl (carry_gains (s := s.notes decl) hs h)
  | repeated key =>
      rw [part_repeated_apply] at h
      obtain rfl := (EStateM.Result.ok.inj h).2
      exact .of_symbols rfl rfl rfl rfl hs
  | missing key path span =>
      rw [part_missing_apply] at h
      obtain rfl := (EStateM.Result.ok.inj h).2
      exact .of_symbols rfl rfl rfl rfl hs
  | opened key source content => cases hopened

end Emit

/-! ## Emissions have courses -/

namespace Moment

open Emit

variable {s s' : EmitState}

/-- The unit at hand is emitted from one moment to another. -/
def Passes (s : EmitState) (u : UnitText) (xs : List Expanded) (s' : EmitState)
    (ys : List Expanded) : Prop :=
  s'.outer = s.outer ∧ s'.symbols.Numbered ∧
    ∀ around, ∃ log, Course ⟨s, (u, xs) :: around⟩ log ⟨s', (u, ys) :: around⟩

theorem passes_event {u : UnitText} {x : Expanded} (hs : s.symbols.Numbered)
    (hopened : x.isOpened = false) (h : part .full u x s = .ok () s') (rest : List Expanded) :
    Passes s u (x :: rest) s' rest := by
  have hgains := part_gains hs hopened h
  exact ⟨hgains.outer, hgains.numbered, fun around => ⟨_, .single (.part hopened h)⟩⟩

mutual

theorem passes_part : ∀ (u : UnitText) (x : Expanded) {s s' : EmitState}, s.symbols.Numbered →
    part .full u x s = .ok () s' → ∀ rest, Passes s u (x :: rest) s' rest
  | u, .problem d, s, s', hs, h, rest => passes_event hs rfl h rest
  | u, .declaration decl, s, s', hs, h, rest => passes_event hs rfl h rest
  | u, .repeated key, s, s', hs, h, rest => passes_event hs rfl h rest
  | u, .missing key path span, s, s', hs, h, rest => passes_event hs rfl h rest
  | u, .opened key source content, s, s', hs, h, rest => by
      rw [part] at h
      obtain ⟨child, t, hbegin, hcontent, habsorb⟩ := nested_eq_ok.mp h
      obtain ⟨houter, hnumbered, hcourse⟩ :=
        passes_parts ⟨key, Bytes.toText source⟩ content (s := s.entering key child) hs hcontent
      obtain ⟨i, left, offset, -, rfl⟩ := absorb_eq_ok.mp habsorb
      refine ⟨rfl, hnumbered.rebase _ _, ?_⟩
      intro around
      obtain ⟨log, hcourse⟩ := hcourse ((u, rest) :: around)
      exact ⟨_, ((Course.single (.enter hbegin)).trans hcourse).step (.leave houter habsorb)⟩

theorem passes_parts : ∀ (u : UnitText) (xs : List Expanded) {s s' : EmitState},
    s.symbols.Numbered → parts .full u xs s = .ok () s' → Passes s u xs s' []
  | u, [], s, s', hs, h => by
      rw [parts] at h
      obtain rfl := (EStateM.Result.ok.inj h).2
      exact ⟨rfl, hs, fun around => ⟨[], .refl _⟩⟩
  | u, x :: rest, s, s', hs, h => by
      rw [parts] at h
      obtain ⟨_, t, hfirst, hrest⟩ := bind_eq_ok.mp h
      obtain ⟨houter, hnumbered, hcourse⟩ := passes_part u x hs hfirst rest
      obtain ⟨houter', hnumbered', hcourse'⟩ := passes_parts u rest hnumbered hrest
      refine ⟨houter'.trans houter, hnumbered', ?_⟩
      intro around
      obtain ⟨log, hlog⟩ := hcourse around
      obtain ⟨log', hlog'⟩ := hcourse' around
      exact ⟨_, hlog.trans hlog'⟩

end

/-! ## What is declared in a course -/

/-- The acts that are left. -/
def acts (m : Moment) : List Act := m.left.flatMap fun l => Expanded.allActs l.1 l.2

/-- What is left after a step was left before it, and so was what it accepts. -/
theorem Step.acts {m m' : Moment} {log : Log} (h : Step m log m') :
    (∀ a ∈ m'.acts, a ∈ m.acts) ∧
      ∀ e ∈ log, ∃ u decl known, e.2 = .definition decl known ∧
        .declaration u (.function decl) ∈ m.acts := by
  cases h with
  | @part s s' u x rest around hopened _ =>
      simp only [Moment.acts, List.flatMap_cons, Expanded.allActs]
      refine ⟨fun a ha => ?_, ?_⟩
      · rcases List.mem_append.mp ha with ha | ha
        · exact List.mem_append_left _ (List.mem_append_right _ ha)
        · exact List.mem_append_right _ ha
      · intro e he
        obtain ⟨decl, known, heq, rfl⟩ := Expanded.accepted_eq he
        refine ⟨u, decl, known, heq, List.mem_append_left _ (List.mem_append_left _ ?_)⟩
        rw [Expanded.acts]
        exact List.mem_cons_self
  | enter hbegin =>
      simp only [Moment.acts, List.flatMap_cons, Expanded.allActs, Expanded.acts]
      refine ⟨fun a ha => ?_, nofun⟩
      simp only [List.mem_append, List.mem_cons] at ha ⊢
      tauto
  | leave houter habsorb =>
      simp only [Moment.acts, List.flatMap_cons, Expanded.allActs, List.nil_append]
      exact ⟨fun a ha => ha, nofun⟩

/-- What is accepted in a course was left at its beginning. -/
theorem Course.acts {m m' : Moment} {log : Log} (h : Course m log m') :
    (∀ a ∈ m'.acts, a ∈ m.acts) ∧
      ∀ e ∈ log, ∃ u decl known, e.2 = .definition decl known ∧
        .declaration u (.function decl) ∈ m.acts := by
  induction h with
  | refl => exact ⟨fun a ha => ha, nofun⟩
  | step _ hstep ih =>
      obtain ⟨hleft, haccepted⟩ := ih
      obtain ⟨hleft', haccepted'⟩ := hstep.acts
      refine ⟨fun a ha => hleft a (hleft' a ha), List.forall_mem_append.mpr ⟨haccepted, ?_⟩⟩
      intro e he
      obtain ⟨u, decl, known, heq, hmem⟩ := haccepted' e he
      exact ⟨u, decl, known, heq, hleft _ hmem⟩

end Moment

end Nss
