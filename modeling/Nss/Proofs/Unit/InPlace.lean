/-
# The text of an include in its place

A directive that opens a unit may be replaced by the events of that unit, if its key is registered
beforehand.  Everything comes out the same, apart from the names of units and the numbers of lines:

    expansion      the content of the opened unit stands where the unit stood
    acts           the same apart from units, as an opened unit only adds the registering of its key
    emission       by its acts, however deep the units are nested

One thing more is asked of the unit that is opened: there must be memory for its source.
-/
import Nss.Proofs.Include.Expansion
import Nss.Proofs.Unit.Bare

namespace Nss

/-! ## Acts of an opened unit -/

namespace Expanded

theorem allActs_append (u : Emit.UnitText) : ∀ xs ys : List Expanded,
    allActs u (xs ++ ys) = allActs u xs ++ allActs u ys
  | [], _ => by
      rw [List.nil_append, allActs, List.nil_append]
  | x :: xs, ys => by
      rw [List.cons_append, allActs, allActs, allActs_append u xs ys, List.append_assoc]

theorem allLoadable_append : ∀ xs ys : List Expanded,
    AllLoadable (xs ++ ys) ↔ AllLoadable xs ∧ AllLoadable ys
  | [], _ => by
      rw [List.nil_append, AllLoadable, true_and]
  | x :: xs, ys => by
      rw [List.cons_append, AllLoadable, AllLoadable, allLoadable_append xs ys, and_assoc]

/-- Apart from units, acts do not depend on the unit that they are in. -/
theorem acts_bare (u v : Emit.UnitText) (x : Expanded) :
    (x.acts u).filterMap Act.bare? = (x.acts v).filterMap Act.bare? := by
  cases x with
  | problem d | declaration decl | missing key path span =>
      rw [acts, acts]
      rfl
  | repeated key | opened key source content => rw [acts, acts]

theorem allActs_bare (u v : Emit.UnitText) : ∀ xs : List Expanded,
    (allActs u xs).filterMap Act.bare? = (allActs v xs).filterMap Act.bare?
  | [] => by
      rw [allActs, allActs]
  | x :: xs => by
      rw [allActs, allActs, List.filterMap_append, List.filterMap_append, acts_bare u v,
        allActs_bare u v xs]

/-- Apart from units, an opened unit does what its content does. -/
theorem allActs_opened_bare (u : Emit.UnitText) (key : String) (source : Bytes)
    (xs content ys : List Expanded) :
    (allActs u (xs ++ (content ++ ys))).filterMap Act.bare?
      = (allActs u (xs ++ opened key source content :: ys)).filterMap Act.bare? := by
  rw [allActs_append, allActs_append, allActs_append, allActs, acts, List.cons_append,
    List.filterMap_append, List.filterMap_append, List.filterMap_append,
    List.filterMap_cons_none rfl, List.filterMap_append,
    allActs_bare u ⟨key, Bytes.toText source⟩ content]

theorem allLoadable_opened (key : String) (source : Bytes) (xs content ys : List Expanded) :
    AllLoadable (xs ++ opened key source content :: ys)
      ↔ AllLoadable (xs ++ (content ++ ys)) ∧ addressable source.length = true := by
  rw [allLoadable_append, allLoadable_append, allLoadable_append, AllLoadable, Loadable]
  tauto

end Expanded

/-! ## Emitting events that are given -/

/-- Emits the outermost unit, its events being given. -/
def Emit.rootOfEvents (front : FrontEnd) (loader : Loader) (events : List Event) : Emit Unit :=
  outermost fun registry _ _ => (Expanded.ofRootEvents front loader registry events).1

/-- Emits the unit of an instance, its events being given.  All that it includes is read as ever. -/
def emitEvents (front : FrontEnd) (loader : Loader) (i : Instance) (outer : List Instance)
    (registry : Registry) (symbols : Symbols) (events : List Event) : Emitted :=
  .ofResult (Emit.rootOfEvents front loader events (.start i outer registry symbols))

/-- A unit is emitted by the events that are read from it. -/
theorem emitRoot_eq_emitEvents {front : FrontEnd} {loader : Loader} {i : Instance}
    {outer : List Instance} {registry : Registry} {symbols : Symbols} {text : Bytes}
    (h : i.source.bytes? = some text) :
    emitRoot front loader .full (i :: outer) registry symbols
      = emitEvents front loader i outer registry symbols (front i.name (Bytes.toText text)) := by
  have hsource : (EmitState.start i outer registry symbols).current.source.bytes? = some text := h
  rw [emitRoot_cons, emitEvents, Emit.root_eq_outermost, Emit.rootOfEvents, Emit.outermost,
    Emit.outermost, Steps.bind_apply, Steps.bind_apply, Steps.modify_apply]
  dsimp only
  rw [Steps.bind_apply, Steps.bind_apply, Steps.get_apply]
  dsimp only
  rw [hsource]
  dsimp only
  rw [Expanded.ofRoot_eq]
  rfl

/-- What the acts of the outermost unit leave, with the loader at the end. -/
def EmitState.runs (s : EmitState) (acts : List Act) : Option EmitState :=
  (s.performAll acts).bind fun t => t.concluded.loads

theorem EmitState.runs_congr {s s' : EmitState} {acts acts' : List Act}
    (hacts : acts'.filterMap Act.bare? = acts.filterMap Act.bare?) (h : s'.bare = s.bare) :
    (s'.runs acts').map bare = (s.runs acts).map bare := by
  refine bind_congr (performAll_congr hacts h) fun {t t'} ht => ?_
  rw [loads_bare, loads_bare t'.concluded, concluded_bare, concluded_bare, ht]

section

variable {front : FrontEnd} {loader : Loader} {i : Instance} {outer : List Instance}
  {registry : Registry} {symbols : Symbols} {text : Bytes} {events : List Event}

/-- An emission comes to its end if there is memory for all sources and for what its acts add. -/
theorem rootOfEvents_eq_ok_iff (hi : i.Roomy) (hsymbols : symbols.Numbered)
    (htext : i.source.bytes? = some text) {s : EmitState} :
    Emit.rootOfEvents front loader events (.start i outer registry symbols) = .ok () s ↔
      Expanded.AllLoadable (Expanded.ofRootEvents front loader registry events).1 ∧
        (EmitState.start i outer registry symbols).runs
          (Expanded.allActs ⟨i.name, Bytes.toText text⟩
            (Expanded.ofRootEvents front loader registry events).1) = some s := by
  have hready : (EmitState.start i outer registry symbols).Ready := ⟨hi, hsymbols⟩
  rw [Emit.rootOfEvents, Emit.outermost_eq_ok_iff hready, EmitState.runs, Option.bind_eq_some_iff]
  constructor
  · rintro ⟨source, t, hsource, hloadable, hacts, hloads⟩
    obtain rfl := Option.some.inj (htext.symm.trans hsource)
    exact ⟨hloadable, t, hacts, hloads⟩
  · rintro ⟨hloadable, t, hacts, hloads⟩
    exact ⟨text, t, htext, hloadable, hacts, hloads⟩

end

/-! ## The text of a unit in the place of its directive -/

/-- Two emissions leave the same apart from the names of units and the numbers of lines: the same
instructions in buffers with the same room, the same functions with the same bodies, the same global
variables, the same diagnostics, and the same units to be included only. -/
structure Emitted.SameBare (e e' : Emitted) : Prop where
  stack : e'.stack.map Instance.bare = e.stack.map Instance.bare
  symbols : e'.symbols.bare = e.symbols.bare

theorem Emitted.SameBare.ofResult {s s' : EmitState} (h : s'.bare = s.bare) :
    (Emitted.ofResult (.ok () s)).SameBare (.ofResult (.ok () s')) := by
  have hcurrent : s'.bare.current = s.bare.current := by rw [h]
  have houter : s'.bare.outer = s.bare.outer := by rw [h]
  change s'.current.bare = s.current.bare at hcurrent
  change s'.outer = s.outer at houter
  constructor
  · show s'.current.bare :: s'.outer.map Instance.bare = s.current.bare :: s.outer.map Instance.bare
    rw [hcurrent, houter]
  · exact congrArg EmitState.symbols h

theorem Emitted.outcome_ofResult {x : EStateM.Result Error EmitState Unit} :
    (Emitted.ofResult x).outcome = .ok () ↔ ∃ s, x = .ok () s := by
  cases x with
  | ok u s => exact ⟨fun _ => ⟨s, rfl⟩, fun _ => rfl⟩
  | error e s =>
      constructor
      · intro h
        cases h
      · rintro ⟨s', h⟩
        cases h

/-- A directive that opens a unit does what the events of the unit do in its place, if its key is
registered beforehand. -/
theorem emitRoot_inPlace {front : FrontEnd} {sources : List (String × Bytes)} {i : Instance}
    {outer : List Instance} {r inner : Registry} {symbols : Symbols} {text source : Bytes}
    {before after : List Event} {path : String} {span : Span}
    (hi : i.Roomy) (hsymbols : symbols.Numbered)
    (htext : i.source.bytes? = some text)
    (hevents : front i.name (Bytes.toText text) = before ++ .inclusion path span :: after)
    (hinner : (Expanded.ofRootEvents front (.ofSources sources) r before).2 = inner)
    (hnew : inner.contains (inner.normalize path) = false)
    (hload : (Loader.ofSources sources).load (inner.normalize path) = .ok source) :
    let key := inner.normalize path
    let including := emitRoot front (.ofSources sources) .full (i :: outer) r symbols
    let inPlace := emitEvents front (.ofSources sources) i outer (r.register key).2 symbols
      (before ++ (front key (Bytes.toText source) ++ after))
    (including.outcome = .ok () ↔ inPlace.outcome = .ok () ∧ addressable source.length = true) ∧
      (including.outcome = .ok () → including.SameBare inPlace) := by
  obtain ⟨xs, content, ys, hexpanded, hreplaced⟩ :=
    Expanded.ofRootEvents_inPlace (Loader.bounded_ofSources sources) hinner hnew hload span after
  intro key including inPlace
  let u : Emit.UnitText := ⟨i.name, Bytes.toText text⟩
  have hincluding : including = emitEvents front (.ofSources sources) i outer r symbols
      (before ++ .inclusion path span :: after) := by
    rw [← hevents]
    exact emitRoot_eq_emitEvents htext
  have hok := @rootOfEvents_eq_ok_iff front (.ofSources sources) i outer r symbols text
    (before ++ .inclusion path span :: after) hi hsymbols htext
  have hok' := @rootOfEvents_eq_ok_iff front (.ofSources sources) i outer (r.register key).2 symbols
    text (before ++ (front key (Bytes.toText source) ++ after)) hi hsymbols htext
  rw [hexpanded] at hok
  rw [hreplaced] at hok'
  have hloadable := Expanded.allLoadable_opened key source xs content ys
  have hsame : ((EmitState.start i outer (r.register key).2 symbols).runs
        (Expanded.allActs u (xs ++ (content ++ ys)))).map EmitState.bare
      = ((EmitState.start i outer r symbols).runs
        (Expanded.allActs u (xs ++ .opened key source content :: ys))).map EmitState.bare :=
    EmitState.runs_congr (Expanded.allActs_opened_bare u key source xs content ys) rfl
  rw [hincluding, emitEvents, Emitted.outcome_ofResult]
  show (_ ↔ (Emitted.ofResult _).outcome = .ok () ∧ _) ∧ _
  rw [Emitted.outcome_ofResult]
  refine ⟨⟨?_, ?_⟩, ?_⟩
  · rintro ⟨s, hs⟩
    obtain ⟨hall, hruns⟩ := hok.mp hs
    rw [hruns, Option.map_some] at hsame
    obtain ⟨s', hruns', -⟩ := Option.map_eq_some_iff.mp hsame
    obtain ⟨hall', hsource⟩ := hloadable.mp hall
    exact ⟨⟨s', hok'.mpr ⟨hall', hruns'⟩⟩, hsource⟩
  · rintro ⟨⟨s', hs'⟩, hsource⟩
    obtain ⟨hall', hruns'⟩ := hok'.mp hs'
    rw [hruns', Option.map_some] at hsame
    obtain ⟨s, hruns, -⟩ := Option.map_eq_some_iff.mp hsame.symm
    exact ⟨s, hok.mpr ⟨hloadable.mpr ⟨hall', hsource⟩, hruns⟩⟩
  · rintro ⟨s, hs⟩
    obtain ⟨hall, hruns⟩ := hok.mp hs
    rw [hruns, Option.map_some] at hsame
    obtain ⟨s', hruns', hbare⟩ := Option.map_eq_some_iff.mp hsame
    have hs' := hok'.mpr ⟨(hloadable.mp hall).1, hruns'⟩
    show (Emitted.ofResult (Emit.rootOfEvents _ _ _ _)).SameBare
      (.ofResult (Emit.rootOfEvents _ _ _ _))
    rw [hs, hs']
    exact .ofResult hbare

/-! ### An include that includes another unit -/

/-- Two units to be included, one of which includes the other. -/
def layers : List (String × Bytes) :=
  [("base", Bytes.ofText "int Twice(int n) { return n + n; }"),
    ("lib", Bytes.ofText "#include \"base\" int Four(int n) { return Twice(Twice(n)); }")]

/-- A script that declares a global variable before it includes a unit. -/
def includesLayers : String := "int n = 3; #include \"lib\" void main() { n = Four(n); }"

theorem emitRoot_inPlace_includesLayers :
    ∃ (before : List Event) (span : Span) (after : List Event) (source : Bytes),
      scriptFrontEnd "script" includesLayers = before ++ Event.inclusion "lib" span :: after ∧
      (Loader.ofSources layers).load "lib" = .ok source ∧
      (emitRoot scriptFrontEnd (.ofSources layers) .full [.ofText includesLayers] .empty
        .empty).outcome = .ok () ∧
      (emitRoot scriptFrontEnd (.ofSources layers) .full [.ofText includesLayers] .empty
        .empty).SameBare
          (emitEvents scriptFrontEnd (.ofSources layers) (.ofText includesLayers) []
            (Registry.empty.register "lib").2 .empty
            (before ++ (scriptFrontEnd "lib" (Bytes.toText source) ++ after))) := by
  have hdirective : (scriptFrontEnd "script" includesLayers)[1]?.bind Event.path? = some "lib" := by
    decide +kernel
  have hinner : (Expanded.ofRootEvents scriptFrontEnd (.ofSources layers) .empty
      ((scriptFrontEnd "script" includesLayers).take 1)).2 = .empty := by decide +kernel
  have hload : (Loader.ofSources layers).load "lib" = .ok (Bytes.ofText
      "#include \"base\" int Four(int n) { return Twice(Twice(n)); }") := by decide +kernel
  have hkey : Registry.empty.normalize "lib" = "lib" := by decide +kernel
  have hok : (emitRoot scriptFrontEnd (.ofSources layers) .full [.ofText includesLayers] .empty
      .empty).outcome = .ok () := by decide +kernel
  have htext : (Instance.ofText includesLayers).source.bytes?
      = some (Bytes.ofText includesLayers) := rfl
  have hread : scriptFrontEnd (Instance.ofText includesLayers).name
      (Bytes.toText (Bytes.ofText includesLayers)) = scriptFrontEnd "script" includesLayers := by
    rw [Bytes.toText_ofText]
    rfl
  generalize scriptFrontEnd "script" includesLayers = events at *
  obtain ⟨e, hget, hpath⟩ := Option.bind_eq_some_iff.mp hdirective
  obtain ⟨span, rfl⟩ := Event.eq_inclusion_of_path? hpath
  obtain ⟨hlt, hget⟩ := List.getElem?_eq_some_iff.mp hget
  have hevents : events = events.take 1 ++ .inclusion "lib" span :: events.drop 2 := by
    rw [← hget, List.getElem_cons_drop, List.take_append_drop]
  have hsame := (emitRoot_inPlace (Instance.roomy_ofText _) Symbols.numbered_empty htext
    (hread.trans hevents) hinner (by rw [hkey]; rfl) (by rw [hkey]; exact hload)).2 hok
  rw [hkey] at hsame
  exact ⟨events.take 1, span, events.drop 2, _, hevents, hload, hok, hsame⟩

end Nss
