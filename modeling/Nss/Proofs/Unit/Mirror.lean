/-
# Two emissions that mirror each other

Two emissions may number their functions differently, and the second one may know functions that the
first one does not know.  Apart from those, they can know the same: every name stands for functions
that are called in the same way, with bodies that are the same but for the numbers in their calls,
wherever they lie.  Then the second emission mirrors the first one, and goes on doing so

    while both perform the same acts            `Mirrors.act`
    while the second one adds functions of
    its own, which nothing else calls           `Mirrors.added`
    when the loader is added                    `Mirrors.loads`

The renumbering `ρ` is fixed beforehand, from the tables that both have in the end.  A table only
grows, so that what it says of the functions that are there in the end, it says of those that are
there so far (`Matches.of_keeps`).
-/
import Nss.Proofs.Unit.Accepted
import Nss.Proofs.Unit.Entry
import Nss.Proofs.Lowering.Renaming

namespace Nss

/-! ## Bodies and functions -/

/-- Two bodies, each in instructions of its own, are the same but for the numbers in their calls. -/
structure FunctionBody.Mirrors (ρ : Nat → Nat) (xs ys : List Instruction) (b c : FunctionBody) :
    Prop where
  labels : c.labels = b.labels
  length : c.length = b.length
  code : c.code ys = (b.code xs).map (Instruction.renumbered ρ)
  inside : b.start + b.length ≤ xs.length
  insideMirror : c.start + c.length ≤ ys.length

/-- Two functions are called in the same way, and so are their bodies the same. -/
structure FunctionSymbol.Mirrors (ρ : Nat → Nat) (xs ys : List Instruction) (f g : FunctionSymbol) :
    Prop extends f.CalledAs ρ g where
  name : g.name = f.name
  body : Option.Rel (FunctionBody.Mirrors ρ xs ys) f.body g.body

variable {ρ : Nat → Nat} {xs ys : List Instruction} {E : List String}

theorem FunctionBody.Mirrors.append {b c : FunctionBody} (h : b.Mirrors ρ xs ys c)
    (more more' : List Instruction) : b.Mirrors ρ (xs ++ more) (ys ++ more') c where
  labels := h.labels
  length := h.length
  code := by rw [code_append h.inside, code_append h.insideMirror, h.code]
  inside := by
    rw [List.length_append]
    exact Nat.le_add_right_of_le h.inside
  insideMirror := by
    rw [List.length_append]
    exact Nat.le_add_right_of_le h.insideMirror

theorem FunctionSymbol.Mirrors.append {f g : FunctionSymbol} (h : f.Mirrors ρ xs ys g)
    (more more' : List Instruction) : f.Mirrors ρ (xs ++ more) (ys ++ more') g where
  toCalledAs := h.toCalledAs
  name := h.name
  body := h.body.imp fun _ _ hbody => hbody.append more more'

/-- The window of code that was added holds that code. -/
theorem FunctionBody.code_added (l : Lowering) (xs : List Instruction) :
    FunctionBody.code ⟨xs.length, l.code.size, l.labels⟩ (xs ++ l.code.toList) = l.code.toList := by
  rw [code, List.drop_left]
  exact List.take_length

/-- Code that is the same but for the numbers in its calls is added in both. -/
theorem FunctionBody.mirrors_added (l : Lowering) (xs ys : List Instruction) :
    FunctionBody.Mirrors ρ (xs ++ l.code.toList) (ys ++ (l.renumbered ρ).code.toList)
      ⟨xs.length, l.code.size, l.labels⟩
      ⟨ys.length, (l.renumbered ρ).code.size, (l.renumbered ρ).labels⟩ where
  labels := rfl
  length := Array.size_map
  code := by
    rw [code_added, code_added, Lowering.renumbered]
    exact Array.toList_map
  inside := by
    rw [List.length_append]
    exact Nat.le_refl _
  insideMirror := by
    rw [List.length_append]
    exact Nat.le_refl _

/-! ## Tables -/

namespace Symbols

variable {s s' t t' : Symbols}

/-- The functions that two tables know by one name have the numbers that the renumbering says. -/
def Matches (ρ : Nat → Nat) (s t : Symbols) : Prop :=
  ∀ name f g, s.lookup? name = some f → t.lookup? name = some g → g.id = ρ f.id

/-- Every function is found under its number by a later table. -/
def Keeps (s s' : Symbols) : Prop :=
  ∀ name f, s.lookup? name = some f → ∃ g, s'.lookup? name = some g ∧ g.id = f.id

/-- So it is by every table that goes on where this one ends. -/
theorem Begins.keeps (h : s.Begins s') : s.Keeps s' := by
  intro name f hf
  have hunbodied (s : Symbols) : (s.functions.map FunctionSymbol.unbodied).find? (fun f => f.name = name)
      = (s.lookup? name).map FunctionSymbol.unbodied := by
    rw [List.find?_map]
    rfl
  obtain ⟨later, hlater⟩ := h.functions
  have hfound := hunbodied s'
  rw [← hlater, List.find?_append, hunbodied, hf, Option.map_some, Option.some_or] at hfound
  obtain ⟨g, hg, heq⟩ := Option.map_eq_some_iff.mp hfound.symm
  exact ⟨g, hg, (congrArg FunctionSymbol.id heq :)⟩

theorem Matches.of_keeps (h : Matches ρ s' t') (hs : s.Keeps s') (ht : t.Keeps t') :
    Matches ρ s t := by
  intro name f g hf hg
  obtain ⟨f', hf', hfid⟩ := hs name f hf
  obtain ⟨g', hg', hgid⟩ := ht name g hg
  rw [← hfid, ← hgid]
  exact h name f' g' hf' hg'

/-- The renumbering from one table to another one that goes by names. -/
def matching (s t : Symbols) (id : Nat) : Nat :=
  (((s.function? id).bind fun f => t.lookup? f.name).map FunctionSymbol.id).getD 0

theorem matches_matching (hs : s.Numbered) (t : Symbols) : Matches (s.matching t) s t := by
  intro name f g hf hg
  rw [matching, hs.function?_of_lookup? hf, Option.bind_some, name_of_lookup? hf, hg]
  rfl

/-- Two tables say the same of all names but some, which the first one does not know. -/
structure Mirrors (ρ : Nat → Nat) (E : List String) (xs ys : List Instruction) (s t : Symbols) :
    Prop where
  lookup : ∀ name ∉ E,
    Option.Rel (FunctionSymbol.Mirrors ρ xs ys) (s.lookup? name) (t.lookup? name)
  unknown : ∀ name ∈ E, s.lookup? name = none
  globals : t.globals.map GlobalSymbol.entry = s.globals.map GlobalSymbol.entry
  callees : ∀ g ∈ s.globals, ∀ name ∈ g.decl.callees, name ∉ E

/-- The functions that two tables both know come in the same order. -/
def Aligned (E : List String) (s t : Symbols) : Prop := t.names.filter (· ∉ E) = s.names

theorem Aligned.append (h : Aligned E s t) {more more' : List String}
    (hs : s'.names = s.names ++ more) (ht : t'.names = t.names ++ more')
    (hmore : more'.filter (· ∉ E) = more) : Aligned E s' t' := by
  rw [Aligned, ht, List.filter_append, h, hmore, hs]

/-- A function is lowered to the same but for the numbers in its calls, once it is declared. -/
theorem lowered_renumbered {decl : FunctionDecl} {unit unit' : String}
    (h : (s.declared decl unit).Renumbered ρ (· ∉ E) (t.declared decl unit'))
    (hcallees : ∀ name ∈ decl.callees, name ∉ E) :
    t.lowered decl unit' = (s.lowered decl unit).renumbered ρ := by
  rw [lowered, lowered]
  split
  · exact Lowering.ofFunction_renumbered h hcallees
  · rw [Lowering.renumbered, Array.map_empty]

namespace Mirrors

theorem lookup_append (h : Mirrors ρ E xs ys s t) (more more' : List Instruction) {name : String}
    (hname : name ∉ E) :
    Option.Rel (FunctionSymbol.Mirrors ρ (xs ++ more) (ys ++ more')) (s.lookup? name)
      (t.lookup? name) :=
  (h.lookup name hname).imp fun _ _ hfg => hfg.append more more'

/-- A name that is new to both is added to both. -/
theorem aligned (h : Mirrors ρ E xs ys s t) {name : String} (hname : name ∉ E)
    (haligned : Aligned E s t)
    (hs : s'.names = s.names ++ (if (s.lookup? name).isSome then [] else [name]))
    (ht : t'.names = t.names ++ (if (t.lookup? name).isSome then [] else [name])) :
    Aligned E s' t' := by
  refine haligned.append hs ht ?_
  rw [(h.lookup name hname).isSome_eq]
  split
  · rfl
  · exact List.filter_eq_self.mpr (by simpa using hname)

theorem lookupGlobal?_eq_none (h : Mirrors ρ E xs ys s t) {name : String}
    (hnone : s.lookupGlobal? name = none) : t.lookupGlobal? name = none := by
  have hentry := entry_lookupGlobal? h.globals name
  rw [hnone] at hentry
  exact Option.map_eq_none_iff.mp hentry

theorem length_globals (h : Mirrors ρ E xs ys s t) : t.globals.length = s.globals.length := by
  simpa using congrArg List.length h.globals

theorem renumbered (h : Mirrors ρ E xs ys s t) : s.Renumbered ρ (· ∉ E) t where
  lookup name hname := (h.lookup name hname).imp fun _ _ hfg => hfg.toCalledAs
  globals := h.globals

variable {decl : FunctionDecl} {unit unit' : String}

/-- What is accepted by a table is accepted by one that mirrors it. -/
theorem accepts (h : Mirrors ρ E xs ys s t) (hname : decl.name ∉ E) (haccepts : s.Accepts decl) :
    t.Accepts decl := by
  have hfound (g : FunctionSymbol) (hg : t.lookup? decl.name = some g) :
      ∃ f, s.lookup? decl.name = some f ∧ f.Mirrors ρ xs ys g := by
    have hrel := h.lookup decl.name hname
    rw [hg] at hrel
    exact hrel.exists_left
  refine ⟨h.lookupGlobal?_eq_none haccepts.apart, ?_, ?_, ?_⟩
  · intro g hg
    obtain ⟨f, hf, hfg⟩ := hfound g hg
    rw [hfg.result, haccepts.result f hf]
  · intro g hg
    obtain ⟨f, hf, hfg⟩ := hfound g hg
    rw [hfg.params, haccepts.params f hf]
  · intro g hg hnew
    obtain ⟨f, hf, hfg⟩ := hfound g hg
    have hbody := hfg.body
    rw [haccepts.body f hf hnew] at hbody
    exact hbody.eq_none

/-- The functions that a declaration is of mirror each other, if their numbers do. -/
theorem subject (h : Mirrors ρ E xs ys s t) (hname : decl.name ∉ E)
    (hid : (t.subject decl unit').id = ρ (s.subject decl unit).id) :
    (s.subject decl unit).Mirrors ρ xs ys (t.subject decl unit') := by
  have hrel := h.lookup decl.name hname
  rw [Symbols.subject, Symbols.subject] at hid ⊢
  generalize s.lookup? decl.name = found at hrel hid
  generalize t.lookup? decl.name = found' at hrel hid
  cases hrel with
  | none => exact ⟨⟨hid, rfl, rfl⟩, rfl, .none⟩
  | some hfg => exact hfg

/-- A function is lowered to the same but for the numbers in its calls. -/
theorem lowered (h : Mirrors ρ E xs ys s t) (hname : decl.name ∉ E)
    (hcallees : ∀ name ∈ decl.callees, name ∉ E)
    (hid : (t.subject decl unit').id = ρ (s.subject decl unit).id) :
    t.lowered decl unit' = (s.lowered decl unit).renumbered ρ := by
  refine lowered_renumbered ⟨?_, ?_⟩ hcallees
  · intro name hother
    rw [lookup?_declared, lookup?_declared]
    split
    · exact .some (h.subject hname hid).toCalledAs
    · exact h.renumbered.lookup name hother
  · rw [globals_declared, globals_declared]
    exact h.globals

/-- What a script begins with is the same for both. -/
theorem startFunction (h : Mirrors ρ E xs ys s t) (hmain : mainName ∉ E)
    (hcondition : conditionName ∉ E) :
    Option.Rel (FunctionSymbol.Mirrors ρ xs ys) s.startFunction? t.startFunction? := by
  have hrel := h.lookup mainName hmain
  have hrel' := h.lookup conditionName hcondition
  rw [startFunction?, startFunction?]
  generalize s.lookup? mainName = found at hrel
  generalize t.lookup? mainName = found' at hrel
  cases hrel with
  | some hfg =>
      dsimp only
      rw [hfg.result]
      split
      · exact .some hfg
      · exact .none
  | none =>
      generalize s.lookup? conditionName = found at hrel'
      generalize t.lookup? conditionName = found' at hrel'
      cases hrel' with
      | none => exact .none
      | some hfg =>
          dsimp only
          rw [Option.filter_some, Option.filter_some, hfg.result]
          split
          · exact .some hfg
          · exact .none

end Mirrors

end Symbols

/-! ## States -/

/-- Acts that are the same apart from the unit that they belong to. -/
inductive Act.Same : Act → Act → Prop
  | problem (u v : Emit.UnitText) (d : Diagnostic) : Same (.problem u d) (.problem v d)
  | declaration (u v : Emit.UnitText) (decl : Declaration) :
      Same (.declaration u decl) (.declaration v decl)
  | registered (key key' : String) : Same (.registered key) (.registered key')

/-- A declaration is not about some names: it neither declares nor calls them. -/
structure Declaration.Outside (E : List String) (decl : Declaration) : Prop where
  name : decl.name ∉ E
  callees : ∀ name ∈ decl.callees, name ∉ E

/-- An act is not about some names. -/
def Act.Outside (E : List String) (a : Act) : Prop :=
  ∀ decl, a.declaration? = some decl → decl.Outside E

theorem Act.outside_of_none {E : List String} {a : Act} (h : a.declaration? = none) :
    a.Outside E := by
  intro decl hdecl
  rw [h] at hdecl
  cases hdecl

/-- The second of two lists of acts has the same acts, none of which is about some names, and besides
functions that have these names. -/
inductive Act.WithMore (E : List String) : List Act → List Act → Prop
  | nil : WithMore E [] []
  | same {a b : Act} {acts acts' : List Act} :
      a.Same b → a.Outside E → WithMore E acts acts' → WithMore E (a :: acts) (b :: acts')
  | more {u : Emit.UnitText} {decl : FunctionDecl} {acts acts' : List Act} :
      decl.name ∈ E → WithMore E acts acts' →
      WithMore E acts (.declaration u (.function decl) :: acts')

namespace EmitState

open Symbols

variable {s s' t t' : EmitState} {unit unit' : String}

/-- An emission mirrors another one. -/
structure Mirrors (ρ : Nat → Nat) (E : List String) (s t : EmitState) : Prop where
  symbols : Symbols.Mirrors ρ E s.current.records t.current.records s.symbols t.symbols
  entrySeen : t.entrySeen = s.entrySeen

/-- Functions that mirror each other do so when their bodies are added. -/
theorem defined_mirrors {decl : FunctionDecl}
    (hsubject : (s.symbols.subject decl unit).Mirrors ρ s.current.records t.current.records
      (t.symbols.subject decl unit'))
    (hlowered : t.symbols.lowered decl unit' = (s.symbols.lowered decl unit).renumbered ρ) :
    (s.defined decl unit).Mirrors ρ
      (s.current.records ++ (s.symbols.lowered decl unit).code.toList)
      (t.current.records ++ (t.symbols.lowered decl unit').code.toList)
      (t.defined decl unit') := by
  rw [defined, defined, hlowered]
  have hsame := hsubject.append (s.symbols.lowered decl unit).code.toList
    ((s.symbols.lowered decl unit).renumbered ρ).code.toList
  refine ⟨⟨hsame.id, hsame.result, hsame.params⟩, hsame.name, ?_⟩
  dsimp only
  split
  · exact .some (FunctionBody.mirrors_added _ _ _)
  · exact hsame.body

namespace Mirrors

/-- A function that both accept. -/
theorem defines (h : s.Mirrors ρ E t) {decl : FunctionDecl} (hdecl : (Declaration.function decl).Outside E)
    (hs : s.Defines decl unit s') (ht : t.Defines decl unit' t')
    (hρ : Symbols.Matches ρ s'.symbols t'.symbols) :
    s'.Mirrors ρ E t' ∧ t.symbols.lowered decl unit' = (s.symbols.lowered decl unit).renumbered ρ := by
  have hid : (t.symbols.subject decl unit').id = ρ (s.symbols.subject decl unit).id := by
    refine hρ decl.name (s.defined decl unit) (t.defined decl unit') ?_ ?_
    · rw [hs.lookup, if_pos rfl]
    · rw [ht.lookup, if_pos rfl]
  have hlowered := h.symbols.lowered hdecl.name hdecl.callees hid
  have hdefined := defined_mirrors (h.symbols.subject hdecl.name hid) hlowered
  rw [← hs.records, ← ht.records] at hdefined
  refine ⟨⟨⟨?_, ?_, ?_, ?_⟩, ?_⟩, hlowered⟩
  · intro name hname
    rw [hs.lookup, ht.lookup]
    split
    · exact .some hdefined
    · rw [hs.records, ht.records]
      exact h.symbols.lookup_append _ _ hname
  · intro name hname
    have hne : name ≠ decl.name := by
      rintro rfl
      exact hdecl.name hname
    rw [hs.lookup, if_neg hne]
    exact h.symbols.unknown name hname
  · rw [hs.globals, ht.globals]
    exact h.symbols.globals
  · rw [hs.globals]
    exact h.symbols.callees
  · rw [hs.entrySeen, ht.entrySeen, h.entrySeen]

/-- A global variable that both accept. -/
theorem extends_ (h : s.Mirrors ρ E t) {decl : VarDecl} (hdecl : (Declaration.global decl).Outside E)
    (hs : s.Extends decl unit s') (ht : t.Extends decl unit' t') : s'.Mirrors ρ E t' := by
  have hlookup (name : String) : s'.symbols.lookup? name = s.symbols.lookup? name := by
    rw [lookup?, hs.functions, ← lookup?]
  have hlookup' (name : String) : t'.symbols.lookup? name = t.symbols.lookup? name := by
    rw [lookup?, ht.functions, ← lookup?]
  refine ⟨⟨?_, ?_, ?_, ?_⟩, ?_⟩
  · intro name hname
    rw [hlookup, hlookup', hs.records, ht.records]
    exact h.symbols.lookup name hname
  · intro name hname
    rw [hlookup]
    exact h.symbols.unknown name hname
  · rw [hs.globals, ht.globals, List.map_append, List.map_append, h.symbols.globals,
      h.symbols.length_globals]
    rfl
  · rw [hs.globals]
    exact List.forall_mem_append.mpr
      ⟨h.symbols.callees, List.forall_mem_singleton.mpr hdecl.callees⟩
  · rw [hs.entrySeen, ht.entrySeen, h.entrySeen]

/-- An act that both perform, without errors in the first emission. -/
theorem act (h : s.Mirrors ρ E t) (hs : s.Ready) (ht : t.Ready) {a b : Act} (hab : a.Same b)
    (ha : a.Outside E) (hperform : s.perform a = some s') (hperform' : t.perform b = some t')
    (herrors : s'.current.errors = s.current.errors)
    (hρ : Symbols.Matches ρ s'.symbols t'.symbols) :
    s'.Mirrors ρ E t' ∧ t'.current.errors = t.current.errors ∧
      (Aligned E s.symbols t.symbols → Aligned E s'.symbols t'.symbols) := by
  cases hab with
  | problem u v d =>
      obtain rfl := Option.some.inj hperform
      obtain rfl := Option.some.inj hperform'
      rw [Emit.errors_reports] at herrors
      refine ⟨⟨h.symbols, h.entrySeen⟩, ?_, id⟩
      rw [Emit.errors_reports, Nat.left_eq_add.mp herrors.symm, Nat.add_zero]
  | registered key key' =>
      obtain rfl := Option.some.inj hperform
      obtain rfl := Option.some.inj hperform'
      exact ⟨⟨h.symbols, h.entrySeen⟩, rfl, id⟩
  | declaration u v decl =>
      have hdecl := ha decl rfl
      cases decl with
      | function decl =>
          have haccepts := accepts_of_perform hperform herrors
          have hdefines := defines_of_accepts hs.numbered hperform haccepts
          have hdefines' := defines_of_accepts ht.numbered hperform'
            (h.symbols.accepts hdecl.name haccepts)
          obtain ⟨hmirrors, hlowered⟩ := h.defines hdecl hdefines hdefines' hρ
          have hclean := hdefines.errors
          rw [herrors] at hclean
          refine ⟨hmirrors, ?_, fun haligned =>
            h.symbols.aligned hdecl.name haligned hdefines.names hdefines'.names⟩
          rw [hdefines'.errors, hlowered]
          exact Nat.left_eq_add.mp hclean ▸ rfl
      | global decl =>
          obtain ⟨hglobal, hfunction⟩ := new_of_perform hperform herrors
          have hextends := extends_of_new hperform hglobal hfunction
          have hfunction' : t.symbols.lookup? decl.name = none := by
            have hrel := h.symbols.lookup decl.name hdecl.name
            rw [hfunction] at hrel
            exact hrel.eq_none
          have hextends' := extends_of_new hperform' (h.symbols.lookupGlobal?_eq_none hglobal)
            hfunction'
          have hmirrors := h.extends_ hdecl hextends hextends'
          have hclean := hextends.errors
          rw [herrors] at hclean
          refine ⟨hmirrors, ?_, ?_⟩
          · rw [hextends'.errors, h.symbols.length_globals,
              Lowering.checkGlobal_renumbered hmirrors.symbols.renumbered _ hmirrors.symbols.callees]
            exact Nat.left_eq_add.mp hclean ▸ rfl
          · have hnames : s'.symbols.names = s.symbols.names ++ [] := by
              rw [names, hextends.functions, ← names, List.append_nil]
            have hnames' : t'.symbols.names = t.symbols.names ++ [] := by
              rw [names, hextends'.functions, ← names, List.append_nil]
            exact fun haligned => haligned.append hnames hnames' rfl

/-- A function that only the second emission adds. -/
theorem added (h : s.Mirrors ρ E t) (ht : t.Ready) {u : Emit.UnitText} {decl : FunctionDecl}
    (hname : decl.name ∈ E) (hentry : isEntryName decl.name = false)
    (hperform : t.perform (.declaration u (.function decl)) = some t') :
    s.Mirrors ρ E t' ∧ (Aligned E s.symbols t.symbols → Aligned E s.symbols t'.symbols) := by
  by_cases haccepts : t.symbols.Accepts decl
  · have hdefines := defines_of_accepts ht.numbered hperform haccepts
    refine ⟨⟨⟨?_, h.symbols.unknown, ?_, h.symbols.callees⟩, ?_⟩, ?_⟩
    · intro name hother
      have hne : name ≠ decl.name := by
        rintro rfl
        exact hother hname
      have hlookup := h.symbols.lookup_append [] (t.symbols.lowered decl u.name).code.toList hother
      rw [hdefines.lookup, if_neg hne, hdefines.records]
      rwa [List.append_nil] at hlookup
    · rw [hdefines.globals]
      exact h.symbols.globals
    · rw [hdefines.entrySeen, hentry, Bool.or_false]
      exact h.entrySeen
    · intro haligned
      refine haligned.append (List.append_nil _).symm hdefines.names ?_
      split
      · rfl
      · exact List.filter_eq_nil_iff.mpr (by simpa using hname)
  · obtain ⟨hsymbols, hrecords, hseen⟩ := symbols_of_not_accepts haccepts hperform
    rw [hsymbols]
    refine ⟨⟨?_, ?_⟩, id⟩
    · rw [hsymbols, hrecords]
      exact h.symbols
    · rw [hseen, hentry, Bool.or_false]
      exact h.entrySeen

end Mirrors

end EmitState

/-! ## The loader -/

namespace Symbols

variable {s : Symbols}

/-- The loader as it is declared: the function with its name that is known, or a new one. -/
def loader (s : Symbols) (result : ValueType) (unit : String) : FunctionSymbol :=
  { (s.lookup? globalsLoader).getD
      ⟨s.functions.length, globalsLoader, result, [], unit, none⟩ with
    result, body := none }

/-- The name of the loader stands for it once it is declared. -/
theorem lookup?_declareLoader (hs : s.Numbered) (result : ValueType) (unit name : String) :
    (s.declareLoader result unit).1.lookup? name
      = if name = globalsLoader then some (s.loader result unit) else s.lookup? name := by
  rw [declareLoader, loader]
  cases hf : s.lookup? globalsLoader with
  | none => exact lookup?_insert hf result [] unit name
  | some f => exact lookup?_modifyFunction (by intro f; rfl) hs hf name

theorem id_declareLoader (s : Symbols) (result : ValueType) (unit : String) :
    (s.declareLoader result unit).2 = (s.loader result unit).id := by
  rw [declareLoader, loader]
  cases s.lookup? globalsLoader with
  | none => rfl
  | some f => rfl

theorem names_declareLoader (hs : s.Numbered) (result : ValueType) (unit : String) :
    (s.declareLoader result unit).1.names
      = s.names ++ (if (s.lookup? globalsLoader).isSome then [] else [globalsLoader]) := by
  rw [declareLoader]
  cases s.lookup? globalsLoader with
  | none => exact names_insert _ _ _ _ _
  | some f =>
      rw [Option.isSome_some, if_pos rfl, List.append_nil]
      exact names_modifyFunction (by intro f; rfl) hs f.id

theorem globals_declareLoader (s : Symbols) (result : ValueType) (unit : String) :
    (s.declareLoader result unit).1.globals = s.globals := by
  rw [declareLoader]
  cases s.lookup? globalsLoader with
  | none => rfl
  | some f => rfl

end Symbols

namespace EmitState

open Symbols

variable {s s' t t' : EmitState}

/-- The code of the loader. -/
def loading (s : EmitState) : Lowering := Lowering.ofGlobals s.symbols s.symbols.startFunction?

/-- The loader with its code. -/
def loader (s : EmitState) : FunctionSymbol :=
  { s.symbols.loader s.loaderResult s.current.name with
    body := some ⟨s.current.code.size, s.loading.code.size, s.loading.labels⟩ }

/-- What adding the loader leaves. -/
structure Loads (s s' : EmitState) : Prop where
  numbered : s'.symbols.Numbered
  lookup : ∀ name, s'.symbols.lookup? name
    = if name = globalsLoader then some s.loader else s.symbols.lookup? name
  names : s'.symbols.names
    = s.symbols.names ++ (if (s.symbols.lookup? globalsLoader).isSome then [] else [globalsLoader])
  globals : s'.symbols.globals = s.symbols.globals
  records : s'.current.records = s.current.records ++ s.loading.code.toList

/-- The loader is added if there are global variables. -/
theorem loads_cases (hs : s.symbols.Numbered) (h : s.loads = some s') :
    s.symbols.globals = [] ∧ s' = s ∨ s.symbols.globals ≠ [] ∧ s.Loads s' := by
  rw [loads] at h
  split at h
  · next hempty => exact .inl ⟨List.isEmpty_iff.mp hempty, (Option.some.inj h).symm⟩
  · next hempty =>
      obtain ⟨-, h⟩ := Option.ite_none_right_eq_some.mp h
      obtain rfl := Option.some.inj h
      refine .inr ⟨fun hnil => hempty (List.isEmpty_iff.mpr hnil), ?_⟩
      have hnumbered := hs.declareLoader s.loaderResult s.current.name
      have hfound := Symbols.lookup?_declareLoader hs s.loaderResult s.current.name
      have hid := s.symbols.id_declareLoader s.loaderResult s.current.name
      let body : FunctionBody := ⟨s.current.code.size, s.loading.code.size, s.loading.labels⟩
      let change (f : FunctionSymbol) : FunctionSymbol := { f with body := some body }
      have hchange (f : FunctionSymbol) : (change f).name = f.name := rfl
      have hlookup := Symbols.lookup?_modifyFunction hchange hnumbered
        ((hfound globalsLoader).trans (if_pos rfl))
      rw [← hid] at hlookup
      refine ⟨hnumbered.attachBody _ body, ?_, ?_,
        s.symbols.globals_declareLoader s.loaderResult s.current.name, Array.toList_append⟩
      · intro name
        refine (hlookup name).trans ?_
        rw [hfound]
        split
        · rfl
        · rfl
      · rw [← Symbols.names_declareLoader hs s.loaderResult s.current.name]
        exact Symbols.names_modifyFunction hchange hnumbered _

theorem Mirrors.loads (h : s.Mirrors ρ E t) (hmain : mainName ∉ E) (hcondition : conditionName ∉ E)
    (hloader : globalsLoader ∉ E) (hs : s.Loads s') (ht : t.Loads t')
    (hρ : Symbols.Matches ρ s'.symbols t'.symbols) :
    Symbols.Mirrors ρ E s'.current.records t'.current.records s'.symbols t'.symbols ∧
      (Aligned E s.symbols t.symbols → Aligned E s'.symbols t'.symbols) := by
  have hstart := h.symbols.startFunction hmain hcondition
  have hlowered := Lowering.ofGlobals_renumbered h.symbols.renumbered h.symbols.callees
    (hstart.imp fun _ _ hfg => hfg.toCalledAs)
  have hresult : t.loaderResult = s.loaderResult := by
    rw [loaderResult, loaderResult]
    generalize s.symbols.startFunction? = found at hstart
    generalize t.symbols.startFunction? = found' at hstart
    cases hstart with
    | none => rfl
    | some hfg => exact hfg.result
  have hadded : s.loader.Mirrors ρ s'.current.records t'.current.records t.loader := by
    have hrel := h.symbols.lookup globalsLoader hloader
    have hid := hρ globalsLoader s.loader t.loader ((hs.lookup _).trans (if_pos rfl))
      ((ht.lookup _).trans (if_pos rfl))
    have hbody := FunctionBody.mirrors_added (ρ := ρ) s.loading s.current.records t.current.records
    rw [hs.records, ht.records, loading, loading, hlowered]
    rw [loader, loader, Symbols.loader, Symbols.loader, loading, loading, hlowered, hresult] at hid ⊢
    generalize s.symbols.lookup? globalsLoader = found at hrel hid
    generalize t.symbols.lookup? globalsLoader = found' at hrel hid
    cases hrel with
    | none => exact ⟨⟨hid, rfl, rfl⟩, rfl, .some hbody⟩
    | some hfg => exact ⟨⟨hid, rfl, hfg.params⟩, hfg.name, .some hbody⟩
  refine ⟨⟨?_, ?_, ?_, ?_⟩, fun haligned =>
    h.symbols.aligned hloader haligned hs.names ht.names⟩
  · intro name hname
    rw [hs.lookup, ht.lookup]
    split
    · exact .some hadded
    · rw [hs.records, ht.records]
      exact h.symbols.lookup_append _ _ hname
  · intro name hname
    have hne : name ≠ globalsLoader := by
      rintro rfl
      exact hloader hname
    rw [hs.lookup, if_neg hne]
    exact h.symbols.unknown name hname
  · rw [hs.globals, ht.globals]
    exact h.symbols.globals
  · rw [hs.globals]
    exact h.symbols.callees

/-- Adding the loader keeps the numbers of all functions. -/
theorem Loads.keeps (h : s.Loads s') : s.symbols.Keeps s'.symbols := by
  intro name f hf
  rw [h.lookup]
  split
  · next heq =>
      refine ⟨_, rfl, ?_⟩
      rw [loader, Symbols.loader, ← heq, hf]
      rfl
  · exact ⟨f, hf, rfl⟩

theorem Loads.nodup (h : s.Loads s') (hs : s.symbols.names.Nodup) : s'.symbols.names.Nodup := by
  rw [h.names]
  split
  · rwa [List.append_nil]
  · next hnew =>
      refine hs.append (List.nodup_singleton _) (List.disjoint_singleton.mpr ?_)
      rwa [mem_names]

/-! ## Runs -/

/-- The second of two runs mirrors the first one, which has no errors, if it performs the same acts
and besides only adds functions that no other act is about.  If it adds none, it has no errors
either. -/
theorem Mirrors.performAll (hE : ∀ name ∈ E, isEntryName name = false) {acts acts' : List Act}
    (hacts : Act.WithMore E acts acts') :
    ∀ {s t s' t' : EmitState}, s.Mirrors ρ E t → s.Ready → t.Ready →
      s.performAll acts = some s' → t.performAll acts' = some t' →
      s'.current.errors = s.current.errors → Symbols.Matches ρ s'.symbols t'.symbols →
      s'.Mirrors ρ E t' ∧ (Aligned E s.symbols t.symbols → Aligned E s'.symbols t'.symbols) ∧
        (E = [] → t'.current.errors = t.current.errors) := by
  induction hacts with
  | nil =>
      intro s t s' t' h _ _ hrun hrun' _ _
      obtain rfl := Option.some.inj hrun
      obtain rfl := Option.some.inj hrun'
      exact ⟨h, id, fun _ => rfl⟩
  | same hab ha _ ih =>
      intro s t s' t' h hs ht hrun hrun' herrors hρ
      obtain ⟨s₁, hs₁, hrun⟩ := Option.bind_eq_some_iff.mp hrun
      obtain ⟨t₁, ht₁, hrun'⟩ := Option.bind_eq_some_iff.mp hrun'
      have hle := errors_le_perform hs₁
      have hle' := errors_le_performAll hrun
      obtain ⟨h₁, hclean₁, haligned₁⟩ := h.act hs ht hab ha hs₁ ht₁ (by omega)
        (hρ.of_keeps (performAll_begins hrun).keeps (performAll_begins hrun').keeps)
      obtain ⟨h', haligned, hclean⟩ :=
        ih h₁ (hs.perform hs₁) (ht.perform ht₁) hrun hrun' (by omega) hρ
      exact ⟨h', fun hst => haligned (haligned₁ hst), fun hE => (hclean hE).trans hclean₁⟩
  | more hname _ ih =>
      intro s t s' t' h hs ht hrun hrun' herrors hρ
      obtain ⟨t₁, ht₁, hrun'⟩ := Option.bind_eq_some_iff.mp hrun'
      obtain ⟨h₁, haligned₁⟩ := h.added ht hname (hE _ hname) ht₁
      obtain ⟨h', haligned, -⟩ := ih h₁ hs (ht.perform ht₁) hrun hrun' herrors hρ
      refine ⟨h', fun hst => haligned (haligned₁ hst), ?_⟩
      rintro rfl
      cases hname

end EmitState

end Nss
