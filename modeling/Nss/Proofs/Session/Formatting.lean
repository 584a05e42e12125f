/-
# Formatting

Two versions of a script are reformatted if they are cut into tokens of the same kinds and texts: they
differ in blanks, in comments, and so in where everything stands.  A new session makes the same of both
of them, with includes that are reformatted too: the same status, the same messages in the same order,
the same layout, and the same bytes in the same files.
-/
import Nss.Proofs.Places.Session
import Nss.Proofs.Places.Parsing
import Mathlib.Data.List.Forall2

namespace Nss

/-! ## Versions of a source -/

/-- Two sources are cut into the same words, without problems.  A source that is held has a size that
can be named. -/
structure Bytes.Reformatted (source source' : Bytes) : Prop where
  words : (Lexed.ofSource source'.toText).tokens.map Token.word
    = (Lexed.ofSource source.toText).tokens.map Token.word
  clean : (Lexed.ofSource source.toText).troubles = []
  clean' : (Lexed.ofSource source'.toText).troubles = []
  held : addressable source.length = true
  held' : addressable source'.length = true

instance (source source' : Bytes) : Decidable (source.Reformatted source') :=
  decidable_of_iff
    ((Lexed.ofSource source'.toText).tokens.map Token.word
        = (Lexed.ofSource source.toText).tokens.map Token.word ∧
      (Lexed.ofSource source.toText).troubles = [] ∧ (Lexed.ofSource source'.toText).troubles = [] ∧
      addressable source.length = true ∧ addressable source'.length = true)
    ⟨fun ⟨h₁, h₂, h₃, h₄, h₅⟩ => ⟨h₁, h₂, h₃, h₄, h₅⟩,
      fun ⟨h₁, h₂, h₃, h₄, h₅⟩ => ⟨h₁, h₂, h₃, h₄, h₅⟩⟩

namespace Bytes.Reformatted

variable {source source' : Bytes}

theorem lexed (h : source.Reformatted source') :
    (Lexed.ofSource source'.toText).unplaced = (Lexed.ofSource source.toText).unplaced := by
  rw [Lexed.unplaced, Lexed.unplaced, h.clean, h.clean', Token.map_unplaced, Token.map_unplaced,
    h.words]
  rfl

/-- The same is read from both versions, without places. -/
theorem events (h : source.Reformatted source') :
    (Event.ofSource source'.toText).map Event.unplaced
      = (Event.ofSource source.toText).map Event.unplaced := by
  rw [Event.ofSource_eq, Event.ofSource_eq, ← Event.ofTokens_unplaced, ← Event.ofTokens_unplaced,
    h.lexed]

theorem viewed (h : source.Reformatted source') :
    View.unplaced.source source' = View.unplaced.source source := by
  show View.forgotten source' = View.forgotten source
  rw [View.forgotten, View.forgotten, if_pos h.held, if_pos h.held']

end Bytes.Reformatted

/-! ## Versions of includes -/

/-- Two loaders supply versions of the same sources: for each key both have one, or none of them
does. -/
structure Loader.Reformatted (loader loader' : Loader) : Prop where
  supply : loader'.supply = loader.supply
  load : ∀ key,
    (∃ e e', loader.load key = .error e ∧ loader'.load key = .error e') ∨
      ∃ source source', loader.load key = .ok source ∧ loader'.load key = .ok source' ∧
        source.Reformatted source'

/-- Sources under the same keys, each a version of the other, one after the other. -/
abbrev Reformats (named named' : List (String × Bytes)) : Prop :=
  List.Forall₂ (fun s s' => s'.1 = s.1 ∧ s.2.Reformatted s'.2) named named'

/-- Among sources under the same keys, versions of each other are found. -/
theorem Reformats.find? {named named' : List (String × Bytes)} (h : Reformats named named')
    (p : String → Bool) :
    (named.find? (fun s => p s.1) = none ∧ named'.find? (fun s => p s.1) = none) ∨
      ∃ s s', named.find? (fun s => p s.1) = some s ∧ named'.find? (fun s => p s.1) = some s' ∧
        s.2.Reformatted s'.2 := by
  induction h with
  | nil => exact .inl ⟨rfl, rfl⟩
  | @cons s s' rest rest' hs _ ih =>
      rw [List.find?_cons, List.find?_cons, hs.1]
      cases p s.1 with
      | true => exact .inr ⟨s, s', rfl, rfl, hs.2⟩
      | false => exact ih

theorem Loader.reformatted_ofSources {named named' : List (String × Bytes)}
    (h : Reformats named named') : (Loader.ofSources named).Reformatted (.ofSources named') where
  supply := h.length_eq.symm
  load key := by
    have hreverse : Reformats named.reverse named'.reverse := List.forall₂_reverse_iff.mpr h
    rcases hreverse.find? (fun name => Text.lowercase name = Text.lowercase key)
      with ⟨hnone, hnone'⟩ | ⟨s, s', hs, hs', hsame⟩
    · refine .inl ⟨.sourceNotFound (fileName key), .sourceNotFound (fileName key), ?_, ?_⟩
      · simp only [ofSources, hnone]
      · simp only [ofSources, hnone']
    · refine .inr ⟨s.2, s'.2, ?_, ?_, hsame⟩
      · simp only [ofSources, hs]
      · simp only [ofSources, hs']

/-! ## What units consist of -/

namespace Expanded

open View (unplaced)

variable {loader loader' : Loader}

/-- Two ways to expand a unit give the same for versions of its source. -/
def ExpandAlike (descend descend' : Registry → String → Bytes → List Expanded × Registry) : Prop :=
  ∀ r key source source', Bytes.Reformatted source source' →
    allViewed unplaced (descend' r key source').1 = allViewed unplaced (descend r key source).1 ∧
      (descend' r key source').2 = (descend r key source).2

theorem ofEvents_reformatted (hloader : loader.Reformatted loader')
    {descend descend' : Registry → String → Bytes → List Expanded × Registry}
    (hdescend : ExpandAlike descend descend') {events events' : List Event}
    (h : events'.map Event.unplaced = events.map Event.unplaced) (r : Registry) :
    allViewed unplaced (ofEvents loader' descend' r events').1
        = allViewed unplaced (ofEvents loader descend r events).1 ∧
      (ofEvents loader' descend' r events').2 = (ofEvents loader descend r events).2 := by
  induction events generalizing events' r with
  | nil =>
      obtain rfl : events' = [] := List.map_eq_nil_iff.mp h
      exact ⟨rfl, rfl⟩
  | cons e rest ih =>
      obtain ⟨e', rest', rfl, hfirst, hrest⟩ := List.map_eq_cons_iff.mp h
      cases e with
      | problem d =>
          obtain ⟨d', rfl, hd⟩ := Event.unplaced_eq_problem hfirst
          obtain ⟨hparts, hregistry⟩ := ih hrest r
          have hviewed : unplaced.diagnostic d' = unplaced.diagnostic d := hd
          simp only [ofEvents, allViewed, Expanded.viewed, hviewed, hparts, hregistry, and_self]
      | declaration decl =>
          obtain ⟨decl', rfl, hdecl⟩ := Event.unplaced_eq_declaration hfirst
          obtain ⟨hparts, hregistry⟩ := ih hrest r
          have hviewed : unplaced.declaration decl' = unplaced.declaration decl := hdecl
          simp only [ofEvents, allViewed, Expanded.viewed, hviewed, hparts, hregistry, and_self]
      | inclusion path span =>
          obtain ⟨span', rfl⟩ := Event.unplaced_eq_inclusion hfirst
          rw [ofEvents, ofEvents]
          obtain ⟨registration, registered⟩ := r.register (r.normalize path)
          cases registration with
          | alreadyProcessed =>
              obtain ⟨hparts, hregistry⟩ := ih hrest r
              simp only [allViewed, Expanded.viewed, hparts, hregistry, and_self]
          | new =>
              rcases hloader.load (r.normalize path) with ⟨e, e', hload, hload'⟩ |
                ⟨source, source', hload, hload', hsource⟩
              · obtain ⟨hparts, hregistry⟩ := ih hrest registered
                have hplace : unplaced.of (fun _ => Span.origin) span'
                    = unplaced.of (fun _ => .origin) span := rfl
                simp only [hload, hload', allViewed, Expanded.viewed, hparts, hregistry, hplace, and_self]
              · obtain ⟨hcontent, hinner⟩ :=
                  hdescend registered (r.normalize path) source source' hsource
                obtain ⟨hparts, hregistry⟩ := ih hrest
                  (descend registered (r.normalize path) source).2
                simp only [hload, hload', allViewed, Expanded.viewed, hcontent, hinner, hparts,
                  hregistry, hsource.viewed, and_self]

theorem ofUnit_reformatted (hloader : loader.Reformatted loader') (n : Nat) :
    ExpandAlike (ofUnit scriptFrontEnd loader n) (ofUnit scriptFrontEnd loader' n) := by
  induction n with
  | zero => exact fun r key source source' _ => ⟨rfl, rfl⟩
  | succ n ih =>
      intro r key source source' hsource
      exact ofEvents_reformatted hloader ih hsource.events r

/-- Without its directives, a unit consists of the same in every version. -/
theorem scan_reformatted {source source' : Bytes} (h : source.Reformatted source') (unit : String) :
    allViewed unplaced (scan scriptFrontEnd unit source')
      = allViewed unplaced (scan scriptFrontEnd unit source) := by
  let scanned (events : List Event) : List Expanded := scan (fun _ _ => events) unit source
  have hscan (events : List Event) :
      allViewed unplaced (scanned events) = scanned (events.map Event.unplaced) := by
    induction events with
    | nil => rfl
    | cons e rest ih =>
        cases e with
        | problem d => exact congrArg (problem d.unplaced :: ·) ih
        | declaration decl => exact congrArg (declaration decl.unplaced :: ·) ih
        | inclusion path span => exact ih
  exact (hscan _).trans ((congrArg scanned h.events).trans (hscan _).symm)

end Expanded

/-! ## Sessions -/

/-- A report without the places of its diagnostics. -/
def Report.unplaced (r : Report) : Report :=
  { r with diagnostics := r.diagnostics.map Diagnostic.unplaced }

namespace Session

variable {options : Options} {files : FileTree} {unitPath : String} {source source' : Bytes}
  {loader loader' : Loader} {outputPath : Option String}

theorem inView_reformatted (hsource : source.Reformatted source')
    (hloader : loader.Reformatted loader') :
    InView .unplaced (start options scriptFrontEnd) (start options scriptFrontEnd) unitPath source
      source' loader loader' where
  output := rfl
  registry := rfl
  text := hsource.viewed
  content mode r := by
    cases mode with
    | full =>
        have hparts := Expanded.ofUnit_reformatted hloader (loader.supply + 1) r
          (IncludeKey.ofPath unitPath) source source' hsource
        show Expanded.allViewed _ (Expanded.ofRoot scriptFrontEnd loader' r _ source') = _
        rw [Expanded.ofRoot, hloader.supply]
        exact hparts.1
    | scanOnly => exact Expanded.scan_reformatted hsource (IncludeKey.ofPath unitPath)

/-- A new session makes the same of two versions of a unit and of its includes. -/
theorem compileSource_reformatted (hsource : source.Reformatted source')
    (hloader : loader.Reformatted loader') :
    ((start options scriptFrontEnd).compileSource files unitPath source' loader' outputPath).1.map
        Report.unplaced
      = ((start options scriptFrontEnd).compileSource files unitPath source loader outputPath).1.map
        Report.unplaced ∧
    ((start options scriptFrontEnd).compileSource files unitPath source' loader' outputPath).2.2
      = ((start options scriptFrontEnd).compileSource files unitPath source loader outputPath).2.2 := by
  obtain ⟨hreport, -, hfiles⟩ :=
    compileSource_viewed (inView_reformatted hsource hloader) files outputPath
  exact ⟨hreport, hfiles⟩

/-- A script in as few characters as possible. -/
def dense : Bytes := Bytes.ofText "#include\"h\"void main(){int n=H(2);}"

/-- The same script with blanks and comments. -/
def spaced : Bytes :=
  Bytes.ofText "#include \"h\" // twice\nvoid main( )\n\x7b\n  int n = H(/* two */ 2);\n\x7d\n"

/-- What both of them include. -/
def denseInclude : Bytes := Bytes.ofText "int H(int n){return n+n;}"

def spacedInclude : Bytes := Bytes.ofText "/* doubles */ int H(int n) { return n + n; }"

theorem compileSource_reformatted_dense :
    ∃ script,
      ((start plainOptions scriptFrontEnd).compileSource .empty "m.nss" dense
        (.ofSources [("h", denseInclude)]) (some "m.ncs")).2.2.read "m.ncs" = .ok script ∧
      ((start plainOptions scriptFrontEnd).compileSource .empty "m.nss" spaced
        (.ofSources [("h", spacedInclude)]) (some "m.ncs")).2.2.read "m.ncs" = .ok script := by
  have hsource : dense.Reformatted spaced := by decide +kernel
  have hinclude : denseInclude.Reformatted spacedInclude := by decide +kernel
  have hloader : (Loader.ofSources [("h", denseInclude)]).Reformatted
      (.ofSources [("h", spacedInclude)]) :=
    Loader.reformatted_ofSources (.cons ⟨rfl, hinclude⟩ .nil)
  have hwritten : ((start plainOptions scriptFrontEnd).compileSource .empty "m.nss" dense
      (.ofSources [("h", denseInclude)]) (some "m.ncs")).2.2.read "m.ncs" |>.isOk := by
    decide +kernel
  obtain ⟨-, hfiles⟩ := @compileSource_reformatted plainOptions .empty "m.nss" dense spaced _ _
    (some "m.ncs") hsource hloader
  rw [hfiles]
  cases hread : ((start plainOptions scriptFrontEnd).compileSource .empty "m.nss" dense
      (.ofSources [("h", denseInclude)]) (some "m.ncs")).2.2.read "m.ncs" with
  | ok script => exact ⟨script, rfl, rfl⟩
  | error cause =>
      rw [hread] at hwritten
      cases hwritten

end Session

end Nss
