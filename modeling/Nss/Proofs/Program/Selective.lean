/-
# Functions that nothing calls

Units that are included may hold more functions than a script calls.  Functions that no other
declaration is about change nothing in the script that is put together: not a byte, and not the place
of a function.

    streams     the same, with more functions                    `Event.WithMore`
    expansions  the same acts, with more functions                `Expanded.ofRootEvents_withMore`
    emissions   programs that are alike, in the same order       `EmitState.alike_of_runs`
    assembly    the same script                                   `assemble_withMore`

The numbers of functions and the places of their code among the instructions of the unit are others,
though, as the functions that nothing calls have numbers and code as well.
-/
import Nss.Proofs.Program.Mirror
import Nss.Proofs.Unit.InPlace
import Nss.Proofs.Include.Visits

namespace Nss

open Steps

variable {E : List String}

/-! ## Streams with more functions -/

/-- An event is not about some names: it neither declares nor calls them. -/
def Event.Outside (E : List String) (e : Event) : Prop :=
  ∀ decl, e = .declaration decl → decl.Outside E

/-- The second of two streams has the same events, none of which is about some names, and besides
functions that have these names. -/
inductive Event.WithMore (E : List String) : List Event → List Event → Prop
  | nil : WithMore E [] []
  | same {e : Event} {es es' : List Event} :
      e.Outside E → WithMore E es es' → WithMore E (e :: es) (e :: es')
  | more {decl : FunctionDecl} {es es' : List Event} :
      decl.name ∈ E → WithMore E es es' → WithMore E es (.declaration (.function decl) :: es')

/-- Of the units that can be included, the second parser and loader read the same, with more
functions. -/
structure IncludesMore (E : List String) (front front' : FrontEnd) (loader loader' : Loader) :
    Prop where
  supply : loader'.supply = loader.supply
  missing : ∀ key e, loader.load key = .error e → ∃ e', loader'.load key = .error e'
  found : ∀ key source, loader.load key = .ok source → ∃ source', loader'.load key = .ok source' ∧
    Event.WithMore E (front key (Bytes.toText source)) (front' key (Bytes.toText source'))

theorem Act.WithMore.append {as bs as' bs' : List Act} (h : WithMore E as as')
    (h' : WithMore E bs bs') : WithMore E (as ++ bs) (as' ++ bs') := by
  induction h with
  | nil => exact h'
  | same hab ha _ ih => exact .same hab ha ih
  | more hname _ ih => exact .more hname ih

namespace Expanded

/-- The second of two expansions does the same, with more functions, and leaves the same registry. -/
structure ActsMore (E : List String) (x y : List Expanded × Registry) : Prop where
  acts : ∀ u v, Act.WithMore E (allActs u x.1) (allActs v y.1)
  registry : y.2 = x.2

variable {front front' : FrontEnd} {loader loader' : Loader}
  {descend descend' : Registry → String → Bytes → List Expanded × Registry}

theorem ActsMore.cons {x y : Expanded} {xs ys : List Expanded} {r r' : Registry}
    (hx : ∀ u v, Act.WithMore E (x.acts u) (y.acts v)) (h : ActsMore E (xs, r) (ys, r')) :
    ActsMore E (x :: xs, r) (y :: ys, r') := by
  refine ⟨fun u v => ?_, h.registry⟩
  rw [allActs, allActs]
  exact (hx u v).append (h.acts u v)

section

variable (hincludes : IncludesMore E front front' loader loader')
  (hdescend : ∀ r key source source',
    Event.WithMore E (front key (Bytes.toText source)) (front' key (Bytes.toText source')) →
    ActsMore E (descend r key source) (descend' r key source'))

include hincludes hdescend

/-- An event that both streams have is followed in the same way. -/
theorem ofEvent_withMore {e : Event} (he : e.Outside E) (r : Registry) :
    (∀ u v, Act.WithMore E ((ofEvent loader descend r e).1.acts u)
        ((ofEvent loader' descend' r e).1.acts v)) ∧
      (ofEvent loader' descend' r e).2 = (ofEvent loader descend r e).2 := by
  cases e with
  | problem d =>
      refine ⟨fun u v => ?_, rfl⟩
      exact .same (.problem u v d) (Act.outside_of_none rfl) .nil
  | declaration decl =>
      refine ⟨fun u v => .same (.declaration u v decl) (fun decl' hdecl => ?_) .nil, rfl⟩
      obtain rfl := Option.some.inj hdecl
      exact he _ rfl
  | inclusion path span =>
      have hregistered (key : String) : (Act.registered key).Outside E := Act.outside_of_none rfl
      simp only [ofEvent, ofInclusion]
      split
      · refine ⟨fun u v => ?_, rfl⟩
        rw [acts, acts]
        exact .nil
      · cases hload : loader.load (r.normalize path) with
        | error err =>
            obtain ⟨err', hload'⟩ := hincludes.missing _ _ hload
            rw [hload']
            refine ⟨fun u v => ?_, rfl⟩
            rw [acts, acts]
            exact .same (.registered _ _) (hregistered _)
              (.same (.problem _ _ _) (Act.outside_of_none rfl) .nil)
        | ok source =>
            obtain ⟨source', hload', hmore⟩ := hincludes.found _ _ hload
            rw [hload']
            have hcontent := hdescend (r.register (r.normalize path)).2 _ _ _ hmore
            refine ⟨fun u v => ?_, hcontent.registry⟩
            rw [acts, acts]
            exact .same (.registered _ _) (hregistered _) (hcontent.acts _ _)

theorem ofEvents_withMore {es es' : List Event} (h : Event.WithMore E es es') :
    ∀ r, ActsMore E (ofEvents loader descend r es) (ofEvents loader' descend' r es') := by
  induction h with
  | nil => exact fun r => ⟨fun u v => .nil, rfl⟩
  | same he _ ih =>
      intro r
      obtain ⟨hacts, hregistry⟩ := ofEvent_withMore hincludes hdescend he r
      rw [ofEvents_cons, ofEvents_cons, hregistry]
      exact (ih _).cons hacts
  | more hname _ ih =>
      intro r
      refine ⟨fun u v => ?_, (ih r).registry⟩
      rw [ofEvents_cons, allActs]
      exact .more hname ((ih r).acts u v)

end

theorem ofUnit_withMore (hincludes : IncludesMore E front front' loader loader') (n : Nat) :
    ∀ (r : Registry) (key : String) (source source' : Bytes),
      Event.WithMore E (front key (Bytes.toText source)) (front' key (Bytes.toText source')) →
      ActsMore E (ofUnit front loader n r key source) (ofUnit front' loader' n r key source') := by
  induction n with
  | zero => exact fun r key source source' _ => ⟨fun u v => .nil, rfl⟩
  | succ n ih => exact fun r key source source' h => ofEvents_withMore hincludes ih h r

/-- A unit with more functions, in it or in the units that it includes, does the same and declares
those functions. -/
theorem ofRootEvents_withMore (hincludes : IncludesMore E front front' loader loader')
    {es es' : List Event} (h : Event.WithMore E es es') (r : Registry) :
    ActsMore E (ofRootEvents front loader r es) (ofRootEvents front' loader' r es') := by
  rw [ofRootEvents, ofRootEvents, hincludes.supply]
  exact ofEvents_withMore hincludes (ofUnit_withMore hincludes _) h r

end Expanded

/-! ## Runs -/

namespace EmitState

open Symbols Program

variable {s t s' t' : EmitState} {acts acts' : List Act}

/-- Two emissions from nothing that do the same, the second one with more functions that nothing else
is about, leave programs that are alike, if there are no errors in the first one. -/
theorem alike_of_runs {i i' : Instance} {outer outer' : List Instance} {r r' : Registry}
    (hi : i.Roomy) (hi' : i'.Roomy) (hmain : mainName ∉ E)
    (hcondition : conditionName ∉ E) (hloader : globalsLoader ∉ E)
    (hacts : Act.WithMore E acts acts') (hrun : (start i outer r .empty).runs acts = some s')
    (hrun' : (start i' outer' r' .empty).runs acts' = some t')
    (herrors : s'.current.errors = 0) :
    ∃ ρ, Alike ρ E s'.current.records t'.current.records s'.symbols t'.symbols ∧
      Aligned E s'.symbols t'.symbols := by
  have hready : (start i outer r .empty).Ready := ⟨hi, numbered_empty⟩
  have hready' : (start i' outer' r' .empty).Ready := ⟨hi', numbered_empty⟩
  have hentry : ∀ name ∈ E, isEntryName name = false := by
    intro name hname
    rw [isEntryName, Bool.or_eq_false_iff, decide_eq_false_iff_not, decide_eq_false_iff_not]
    refine ⟨?_, ?_⟩
    · rintro rfl
      exact hmain hname
    · rintro rfl
      exact hcondition hname
  obtain ⟨ρ, s, t, hacted, hloads, hacted', -, hρ, halike⟩ := exists_alike hready hready'
    List.nodup_nil List.nodup_nil hmain hcondition hloader hrun hrun'
  have hempty : (start i outer r .empty).Mirrors ρ E (start i' outer' r' .empty) :=
    ⟨⟨fun _ _ => .none, fun _ _ => rfl, rfl, List.forall_mem_nil _⟩, rfl⟩
  have hnone : s.current.errors = (start i outer r .empty).current.errors := by
    have hle := errors_le_performAll hacted
    have hle' := s.errors_le_concluded
    rw [← errors_loads hloads] at hle'
    omega
  obtain ⟨hmirrors, haligned, -⟩ :=
    hempty.performAll hentry hacts hready hready' hacted hacted' hnone hρ
  obtain ⟨halike, haligned'⟩ := halike hmirrors
  exact ⟨ρ, halike, haligned' (haligned rfl)⟩

end EmitState

/-! ## Assembly -/

theorem EmitState.sameOutput_runs {s t : EmitState} {acts : List Act}
    (h : s.runs acts = some t) : s.SameOutput t := by
  obtain ⟨u, hu, hloads⟩ := Option.bind_eq_some_iff.mp h
  exact (sameOutput_performAll hu).trans (sameOutput_loads hloads)

/-- The unit that an emission left is put together, having been finalized before or after. -/
def Emitted.Assembles (e : Emitted) (artifact : Artifact) : Prop :=
  ∃ i i', (i = e.unit ∨ ∃ flags, e.unit.finalize flags = .ok i) ∧
    Program.assemble e.symbols i = .ok artifact i'

/-- Only what was finalized is put together. -/
theorem Program.exists_tables {symbols : Symbols} {i i' : Instance} {artifact : Artifact}
    (h : assemble symbols i = .ok artifact i') : ∃ tables, i.tables = some tables := by
  rw [assemble] at h
  obtain ⟨entry, _, hstep, h⟩ := bind_eq_ok.mp h
  obtain ⟨-, rfl⟩ := orStop_eq_ok.mp hstep
  obtain ⟨_, _, hstep, h⟩ := bind_eq_ok.mp h
  obtain ⟨rfl, rfl⟩ := EStateM.Result.ok.inj hstep
  cases htables : i.tables with
  | some tables => exact ⟨tables, rfl⟩
  | none =>
      rw [htables] at h
      cases h

theorem Emitted.exists_assembles {e : Emitted}
    (h : (Program.outcome e.symbols e.unit).isOk = true) : ∃ artifact, e.Assembles artifact := by
  cases houtcome : Program.outcome e.symbols e.unit with
  | error err =>
      rw [houtcome] at h
      cases h
  | ok artifact =>
      obtain ⟨i', hi'⟩ := Program.exists_of_outcome_eq_ok houtcome
      exact ⟨artifact, e.unit, i', .inl rfl, hi'⟩

/-- What is put together after an emission is a script of its program. -/
theorem Emitted.Assembles.script {s : EmitState} {artifact : Artifact}
    (h : (Emitted.ofResult (.ok () s)).Assembles artifact) (hs : s.symbols.Numbered)
    (houtput : ∃ capacity, s.current.output = some ⟨[], capacity⟩) :
    ∃ r : Program.Script s.symbols s.current.code, artifact = r.artifact := by
  obtain ⟨i, i', hunit, hok⟩ := h
  change i = s.current ∨ ∃ flags, s.current.finalize flags = .ok i at hunit
  obtain ⟨hbuffer, hsame⟩ : i.buffer = s.current.buffer ∧ i.output = s.current.output := by
    rcases hunit with rfl | ⟨flags, hfinal⟩
    · exact ⟨rfl, rfl⟩
    · obtain ⟨-, -, rfl⟩ := Instance.finalize_eq_ok.mp hfinal
      exact ⟨rfl, rfl⟩
  obtain ⟨tables, htables⟩ := Program.exists_tables hok
  obtain ⟨capacity, hcapacity⟩ := houtput
  have hscript := Program.script_of_assemble hs htables (hsame.trans hcapacity) hok
  rw [hbuffer] at hscript
  obtain ⟨r, -, hartifact⟩ := hscript
  exact ⟨r, hartifact⟩

/-- Functions that nothing else is about change nothing in a script, wherever in a unit or in the
units that it includes they are declared. -/
theorem assemble_withMore {front front' : FrontEnd} {loader loader' : Loader} {i i' : Instance}
    {outer outer' : List Instance} {r : Registry} {text text' : Bytes} {artifact artifact' : Artifact}
    (hmain : Symbols.mainName ∉ E) (hcondition : Symbols.conditionName ∉ E)
    (hloader : globalsLoader ∉ E) (hi : i.Roomy) (hi' : i'.Roomy) (hfresh : i.Fresh)
    (hfresh' : i'.Fresh) (htext : i.source.bytes? = some text)
    (htext' : i'.source.bytes? = some text')
    (hincludes : IncludesMore E front front' loader loader')
    (hevents : Event.WithMore E (front i.name (Bytes.toText text))
      (front' i'.name (Bytes.toText text')))
    (hok : (emitRoot front loader .full (i :: outer) r .empty).outcome = .ok ())
    (herrors : (emitRoot front loader .full (i :: outer) r .empty).unit.errors = 0)
    (hok' : (emitRoot front' loader' .full (i' :: outer') r .empty).outcome = .ok ())
    (hassembles : (emitRoot front loader .full (i :: outer) r .empty).Assembles artifact)
    (hassembles' : (emitRoot front' loader' .full (i' :: outer') r .empty).Assembles artifact') :
    artifact' = artifact := by
  rw [emitRoot_eq_emitEvents htext, emitEvents] at hok herrors hassembles
  rw [emitRoot_eq_emitEvents htext', emitEvents] at hok' hassembles'
  obtain ⟨s, hs⟩ := Emitted.outcome_ofResult.mp hok
  obtain ⟨t, ht⟩ := Emitted.outcome_ofResult.mp hok'
  rw [hs] at herrors hassembles
  rw [ht] at hassembles'
  obtain ⟨-, hrun⟩ := (rootOfEvents_eq_ok_iff hi Symbols.numbered_empty htext).mp hs
  obtain ⟨-, hrun'⟩ := (rootOfEvents_eq_ok_iff hi' Symbols.numbered_empty htext').mp ht
  have hacts := (Expanded.ofRootEvents_withMore hincludes hevents r).acts
  obtain ⟨ρ, halike, haligned⟩ := EmitState.alike_of_runs hi hi' hmain hcondition hloader
    (hacts _ _) hrun hrun' herrors
  obtain ⟨script, rfl⟩ := hassembles.script halike.numbered
    ((EmitState.sameOutput_runs hrun).output ▸ hfresh.output)
  obtain ⟨script', rfl⟩ := hassembles'.script halike.numberedMirror
    ((EmitState.sameOutput_runs hrun').output ▸ hfresh'.output)
  exact script.artifact_eq halike haligned script'

/-! ## Leaving functions out -/

theorem Loader.eq_of_load_ofSources {name key : String} {text source : Bytes}
    (h : (ofSources [(name, text)]).load key = .ok source) : source = text := by
  simp only [ofSources, List.reverse_singleton, List.find?_singleton] at h
  split at h
  · next found hfound =>
      rw [← Option.some.inj (Option.ite_none_right_eq_some.mp hfound).2] at h
      exact (Except.ok.inj h).symm
  · cases h

/-- Whether an event is a function with one of some names. -/
def Event.isSpare (E : List String) : Event → Bool
  | .declaration (.function decl) => decl.name ∈ E
  | _ => false

/-- A parser that leaves out the functions with some names. -/
def FrontEnd.sparing (front : FrontEnd) (E : List String) : FrontEnd :=
  fun unit text => (front unit text).filter fun e => !e.isSpare E

theorem Event.withMore_filter {es : List Event}
    (h : ∀ e ∈ es, e.isSpare E = false → e.Outside E) :
    WithMore E (es.filter fun e => !e.isSpare E) es := by
  induction es with
  | nil => exact .nil
  | cons e es ih =>
      obtain ⟨he, hes⟩ := List.forall_mem_cons.mp h
      cases hspare : e.isSpare E with
      | false =>
          rw [List.filter_cons_of_pos (by rw [hspare]; rfl)]
          exact .same (he hspare) (ih hes)
      | true =>
          rw [List.filter_cons_of_neg (by rw [hspare]; decide)]
          cases e with
          | problem d | inclusion path span => cases hspare
          | declaration decl =>
              cases decl with
              | global decl => cases hspare
              | function decl => exact .more (of_decide_eq_true hspare) (ih hes)

instance (E : List String) (e : Event) : Decidable (e.Outside E) :=
  match e with
  | .declaration decl =>
    if h : decl.name ∉ E ∧ ∀ name ∈ decl.callees, name ∉ E then
      .isTrue fun decl' heq => by
        obtain rfl := Event.declaration.inj heq
        exact ⟨h.1, h.2⟩
    else .isFalse fun hall => h ⟨(hall decl rfl).name, (hall decl rfl).callees⟩
  | .problem _ | .inclusion _ _ => .isTrue fun _ heq => nomatch heq

/-! ### Functions that nothing calls -/

/-- A unit to be included, with a function that is not called. -/
def spareLib : String := "int F(int n) { return n; } int G() { return F(2); }"

/-- A script that includes it, with another such function. -/
def spareScript : String := "#include \"lib\" int n = 3; void H() { n = G(); } void main() { n = F(n); }"

theorem assemble_withMore_spareScript :
    ∃ artifact,
      (emitRoot (scriptFrontEnd.sparing ["G", "H"]) (.ofSources [("lib", Bytes.ofText spareLib)])
        .full [.ofText spareScript] .empty .empty).Assembles artifact ∧
      (emitRoot scriptFrontEnd (.ofSources [("lib", Bytes.ofText spareLib)]) .full
        [.ofText spareScript] .empty .empty).Assembles artifact := by
  let loader := Loader.ofSources [("lib", Bytes.ofText spareLib)]
  let e := emitRoot (scriptFrontEnd.sparing ["G", "H"]) loader .full [.ofText spareScript] .empty
    .empty
  let e' := emitRoot scriptFrontEnd loader .full [.ofText spareScript] .empty .empty
  obtain ⟨⟨hok, -, herrors, -⟩, houtcome⟩ :
      e.Clean ∧ (Program.outcome e.symbols e.unit).isOk = true := by decide +kernel
  obtain ⟨⟨hok', -, -, -⟩, houtcome'⟩ :
      e'.Clean ∧ (Program.outcome e'.symbols e'.unit).isOk = true := by decide +kernel
  obtain ⟨artifact, hartifact⟩ := Emitted.exists_assembles houtcome
  obtain ⟨artifact', hartifact'⟩ := Emitted.exists_assembles houtcome'
  have hmore {text : String} (unit : String) (h : ∀ e ∈ Event.ofSource text,
      e.isSpare ["G", "H"] = false → e.Outside ["G", "H"]) :
      Event.WithMore ["G", "H"]
        (scriptFrontEnd.sparing ["G", "H"] unit (Bytes.toText (Bytes.ofText text)))
        (scriptFrontEnd unit (Bytes.toText (Bytes.ofText text))) := by
    rw [Bytes.toText_ofText]
    exact Event.withMore_filter h
  have hincludes : IncludesMore ["G", "H"] (scriptFrontEnd.sparing ["G", "H"]) scriptFrontEnd
      loader loader := by
    refine ⟨rfl, fun key err h => ⟨err, h⟩, fun key source h => ⟨source, h, ?_⟩⟩
    rw [Loader.eq_of_load_ofSources h]
    exact hmore key (by decide +kernel)
  have hsame := assemble_withMore (by decide) (by decide) (by decide) (Instance.roomy_ofText _)
    (Instance.roomy_ofText _) ⟨rfl, rfl, rfl, _, rfl⟩ ⟨rfl, rfl, rfl, _, rfl⟩ rfl rfl hincludes
    (hmore _ (by decide +kernel)) hok herrors hok' hartifact hartifact'
  exact ⟨artifact, hartifact, hsame ▸ hartifact'⟩

end Nss
