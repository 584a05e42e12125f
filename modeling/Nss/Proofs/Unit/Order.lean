/-
# Functions in another order

The functions of a script can be declared in any order.  If two neighbours among them are exchanged,
a pass that knows all functions beforehand, being seeded, comes out the same but for the numbers of
functions and the places of their code.

    neighbours          both are known before either is declared, so    `Mirrors.exchange`
                        each is accepted and lowered as before
    what comes before   the same acts                                    `Mirrors.performAll`
    or after them
    the seeded tables   made of the same declarations                    `MadeOf.seeded`

So if a seeded pass over one order has no errors, a seeded pass over the other one has none, and the
programs are alike (`alike_of_exchanged`).
-/
import Nss.Proofs.Unit.Declared
import Nss.Proofs.Program.Mirror

namespace Nss

variable {ρ : Nat → Nat} {E : List String}

namespace EmitState

open Symbols

variable {s s₁ s₂ t t₁ t₂ : EmitState} {d d' : FunctionDecl} {unit unit' : String}

/-! ## A function that is known before it is declared -/

theorem declared_of_known {s : Symbols} {f : FunctionSymbol} (hf : s.lookup? d.name = some f)
    (unit : String) : s.declared d unit = s := by
  rw [declared, hf, Option.isSome_some, if_pos rfl]

theorem subject_of_known {s : Symbols} {f : FunctionSymbol} (hf : s.lookup? d.name = some f)
    (unit : String) : s.subject d unit = f := by
  rw [subject, hf, Option.getD_some]

/-- A declaration without a body changes nothing of a function. -/
theorem defined_of_bodiless (s : EmitState) (hbody : d.body = none) (unit : String) :
    s.defined d unit = s.symbols.subject d unit := by
  rw [defined, hbody]
  rfl

/-- A function is found as it was, unless a body was added to it. -/
theorem Defines.subject_eq (h : s.Defines d unit s₁) {f : FunctionSymbol}
    (hf : s.symbols.lookup? d'.name = some f) (hapart : d'.name ≠ d.name ∨ d.body = none)
    (unit' : String) : s₁.symbols.subject d' unit' = f := by
  rw [subject, h.lookup]
  split
  · next heq =>
      rw [heq] at hf
      rw [Option.getD_some, s.defined_of_bodiless (hapart.resolve_left (absurd heq)),
        subject_of_known hf]
  · rw [hf, Option.getD_some]

theorem Defines.exists_lookup (h : s.Defines d unit s₁) {name : String} {f : FunctionSymbol}
    (hf : s.symbols.lookup? name = some f) : ∃ g, s₁.symbols.lookup? name = some g := by
  rw [h.lookup]
  split
  · exact ⟨_, rfl⟩
  · exact ⟨f, hf⟩

/-- A function that was known is called as before once it is declared. -/
theorem Defines.renumbered (h : s.Defines d unit s₁) {f : FunctionSymbol}
    (hf : s.symbols.lookup? d.name = some f) {t : Symbols}
    (hst : s.symbols.Renumbered ρ (· ∉ E) t) : s₁.symbols.Renumbered ρ (· ∉ E) t := by
  refine ⟨fun name hname => ?_, h.globals ▸ hst.globals⟩
  have hrel := hst.lookup name hname
  rw [h.lookup]
  split
  · next heq =>
      rw [heq, hf] at hrel
      obtain ⟨g, hg, hcalled⟩ := hrel.exists_right
      rw [heq, hg, defined, subject, hf]
      exact .some ⟨hcalled.id, hcalled.result, hcalled.params⟩
  · exact hrel

theorem Defines.renumbered_mirror (h : t.Defines d unit t₁) {g : FunctionSymbol}
    (hg : t.symbols.lookup? d.name = some g) {s : Symbols}
    (hst : s.Renumbered ρ (· ∉ E) t.symbols) : s.Renumbered ρ (· ∉ E) t₁.symbols := by
  refine ⟨fun name hname => ?_, h.globals ▸ hst.globals⟩
  have hrel := hst.lookup name hname
  rw [h.lookup]
  split
  · next heq =>
      rw [heq, hg] at hrel
      obtain ⟨f, hf, hcalled⟩ := hrel.exists_left
      rw [heq, hf, defined, subject, hg]
      exact .some ⟨hcalled.id, hcalled.result, hcalled.params⟩
  · exact hrel

/-- What is accepted behind a function would be accepted before it. -/
theorem Defines.accepts_before (h : s.Defines d unit s₁) (h' : s₁.symbols.Accepts d') :
    s.symbols.Accepts d' := by
  have hlater (f : FunctionSymbol) (hf : s.symbols.lookup? d'.name = some f) :
      ∃ g, s₁.symbols.lookup? d'.name = some g ∧ g.result = f.result ∧ g.params = f.params ∧
        (g.body = none → f.body = none) := by
    rw [h.lookup]
    split
    · next heq =>
        rw [heq] at hf
        refine ⟨_, rfl, ?_, ?_, fun hnone => ?_⟩
        · rw [defined, subject, hf, Option.getD_some]
        · rw [defined, subject, hf, Option.getD_some]
        · have hsubject := (body_defined hnone).2
          rwa [subject, hf] at hsubject
    · exact ⟨f, hf, rfl, rfl, id⟩
  have hapart := h'.apart
  rw [lookupGlobal?, h.globals] at hapart
  refine ⟨hapart, fun f hf => ?_, fun f hf => ?_, fun f hf hnew => ?_⟩
  · obtain ⟨g, hg, hresult, -⟩ := hlater f hf
    exact hresult.symm.trans (h'.result g hg)
  · obtain ⟨g, hg, -, hparams, -⟩ := hlater f hf
    exact hparams.symm.trans (h'.params g hg)
  · obtain ⟨g, hg, -, -, hbody⟩ := hlater f hf
    exact hbody (h'.body g hg hnew)

/-- A function that is accepted is so behind another one that it agrees with. -/
theorem Defines.accepts_behind (h : s.Defines d unit s₁) (haccepts : s.symbols.Accepts d)
    (h' : s.symbols.Accepts d') (hagree : (Declaration.function d).Agree (.function d')) :
    s₁.symbols.Accepts d' := by
  have hknown (g : FunctionSymbol) (hg : s₁.symbols.lookup? d'.name = some g) :
      g = s.defined d unit ∧ d'.name = d.name ∨ s.symbols.lookup? d'.name = some g := by
    rw [h.lookup] at hg
    split at hg
    · next heq => exact .inl ⟨(Option.some.inj hg).symm, heq⟩
    · exact .inr hg
  obtain ⟨hresult, hparams⟩ := s.signature_defined haccepts unit
  refine ⟨?_, fun g hg => ?_, fun g hg => ?_, fun g hg hnew => ?_⟩
  · rw [lookupGlobal?, h.globals]
    exact h'.apart
  · rcases hknown g hg with ⟨rfl, hname⟩ | hg
    · exact hresult.trans (hagree hname.symm).1
    · exact h'.result g hg
  · rcases hknown g hg with ⟨rfl, hname⟩ | hg
    · exact hparams.trans (hagree hname.symm).2.1
    · exact h'.params g hg
  · rcases hknown g hg with ⟨rfl, hname⟩ | hg
    · by_contra hold
      have hother := (hagree hname.symm).2.2.resolve_right (Option.isSome_iff_ne_none.mp hnew)
      obtain hbody | ⟨f, hf, hbody⟩ := body_defined_cases hold
      · exact hbody hother
      · exact hbody (h'.body f (hname ▸ hf) hnew)
    · exact h'.body g hg hnew

/-! ## Neighbours -/

/-- Two functions are made in one order by an emission, and in the other order by another one. -/
structure Neighbours (ρ : Nat → Nat) (d d' : FunctionDecl) (unit unit' : String)
    (s s₁ s₂ t t₁ t₂ : EmitState) : Prop where
  agree : (Declaration.function d).Agree (.function d')
  first : s.Defines d unit s₁
  behind : s₁.Defines d' unit s₂
  firstMirror : t.Defines d' unit' t₁
  behindMirror : t₁.Defines d unit' t₂
  known : Option.Rel (FunctionSymbol.Mirrors ρ s.current.records t.current.records)
    (some (s.symbols.subject d unit)) (t.symbols.lookup? d.name)
  knownBehind : Option.Rel (FunctionSymbol.Mirrors ρ s.current.records t.current.records)
    (s.symbols.lookup? d'.name) (some (t.symbols.subject d' unit'))
  lowered : t₁.symbols.lowered d unit' = (s.symbols.lowered d unit).renumbered ρ
  loweredBehind : t.symbols.lowered d' unit' = (s₁.symbols.lowered d' unit).renumbered ρ

namespace Neighbours

/-- A body that is added to the first function lies in another place, and is the same. -/
theorem added (h : Neighbours ρ d d' unit unit' s s₁ s₂ t t₁ t₂)
    (hapart : d.name ≠ d'.name ∨ d'.body = none) :
    (s.defined d unit).Mirrors ρ s₂.current.records t₂.current.records (t₁.defined d unit') := by
  have hsubject : (s.symbols.subject d unit).Mirrors ρ s.current.records t₁.current.records
      (t₁.symbols.subject d unit') := by
    obtain ⟨g, hg, hfg⟩ := h.known.exists_right
    rw [h.firstMirror.subject_eq hg hapart, h.firstMirror.records]
    have hmore := hfg.append [] (t.symbols.lowered d' unit').code.toList
    rwa [List.append_nil] at hmore
  have hdefined := (defined_mirrors hsubject h.lowered).append
    (s₁.symbols.lowered d' unit).code.toList []
  rwa [← h.first.records, ← h.behind.records, ← h.behindMirror.records, List.append_nil]
    at hdefined

/-- And so is one that is added to the second function. -/
theorem added_behind (h : Neighbours ρ d d' unit unit' s s₁ s₂ t t₁ t₂)
    (hapart : d'.name ≠ d.name ∨ d.body = none) :
    (s₁.defined d' unit).Mirrors ρ s₂.current.records t₂.current.records (t.defined d' unit') := by
  have hsubject : (s₁.symbols.subject d' unit).Mirrors ρ s₁.current.records t.current.records
      (t.symbols.subject d' unit') := by
    obtain ⟨f, hf, hfg⟩ := h.knownBehind.exists_left
    rw [h.first.subject_eq hf hapart, h.first.records]
    have hmore := hfg.append (s.symbols.lowered d unit).code.toList []
    rwa [List.append_nil] at hmore
  have hdefined := (defined_mirrors hsubject h.loweredBehind).append []
    (t₁.symbols.lowered d unit').code.toList
  rwa [← h.behind.records, ← h.firstMirror.records, ← h.behindMirror.records, List.append_nil]
    at hdefined

/-- Every name stands for functions that mirror each other, if it did so before. -/
theorem lookup (h : Neighbours ρ d d' unit unit' s s₁ s₂ t t₁ t₂)
    (hst : s.Mirrors ρ E t) {name : String} (hname : name ∉ E) :
    Option.Rel (FunctionSymbol.Mirrors ρ s₂.current.records t₂.current.records)
      (s₂.symbols.lookup? name) (t₂.symbols.lookup? name) := by
  rw [h.behind.lookup, h.behindMirror.lookup, h.first.lookup, h.firstMirror.lookup]
  by_cases heq : name = d.name
  · by_cases heq' : name = d'.name
    · simp only [if_pos heq, if_pos heq']
      have hsame : d.name = d'.name := heq.symm.trans heq'
      -- at most one of the declarations has a body
      rcases (h.agree hsame).2.2 with hbody | hbody
      · rw [t₁.defined_of_bodiless hbody, subject, h.firstMirror.lookup, if_pos hsame]
        exact .some (h.added_behind (.inr hbody))
      · rw [s₁.defined_of_bodiless hbody, subject, h.first.lookup, if_pos hsame.symm]
        exact .some (h.added (.inr hbody))
    · simp only [if_pos heq, if_neg heq']
      exact .some (h.added (.inl fun hsame => heq' (heq.trans hsame)))
  · by_cases heq' : name = d'.name
    · simp only [if_neg heq, if_pos heq']
      exact .some (h.added_behind (.inl fun hsame => heq (heq'.trans hsame)))
    · simp only [if_neg heq, if_neg heq']
      rw [h.behind.records, h.first.records, h.behindMirror.records, h.firstMirror.records,
        List.append_assoc, List.append_assoc]
      exact hst.symbols.lookup_append _ _ hname

end Neighbours

/-- If neighbours are known beforehand and accepted in one order, they are so in the other one. -/
theorem Mirrors.neighbours (h : s.Mirrors ρ E t) (hs : s.Ready) (ht : t.Ready)
    {u v : Emit.UnitText} (hd : (Declaration.function d).Outside E)
    (hd' : (Declaration.function d').Outside E)
    (hknown : (s.symbols.lookup? d.name).isSome = true)
    (hknown' : (s.symbols.lookup? d'.name).isSome = true)
    (h₁ : s.perform (.declaration u (.function d)) = some s₁)
    (h₂ : s₁.perform (.declaration u (.function d')) = some s₂)
    (h₁' : t.perform (.declaration v (.function d')) = some t₁)
    (h₂' : t₁.perform (.declaration v (.function d)) = some t₂)
    (herrors : s₂.current.errors = s.current.errors) :
    Neighbours ρ d d' u.name v.name s s₁ s₂ t t₁ t₂ := by
  obtain ⟨f, hf⟩ := Option.isSome_iff_exists.mp hknown
  obtain ⟨f', hf'⟩ := Option.isSome_iff_exists.mp hknown'
  have hrel := h.symbols.lookup d.name hd.name
  have hrel' := h.symbols.lookup d'.name hd'.name
  obtain ⟨g, hg, -⟩ := (hf ▸ hrel).exists_right
  obtain ⟨g', hg', -⟩ := (hf' ▸ hrel').exists_right
  -- the first emission accepts both
  have hle := errors_le_perform h₁
  have hle' := errors_le_perform h₂
  have haccepts := accepts_of_perform h₁ (by omega)
  have hfirst := defines_of_accepts hs.numbered h₁ haccepts
  have hlater := accepts_of_perform h₂ (by omega)
  have hbehind := defines_of_accepts (hs.perform h₁).numbered h₂ hlater
  have hadmits : s₁.symbols.Admits (.function d') := hlater
  have hagree := hadmits.agree (knows_of_admits hs.numbered h₁ haccepts).1
  -- and so does the second one
  have haccepts' := h.symbols.accepts hd'.name (hfirst.accepts_before hlater)
  have hfirst' := defines_of_accepts ht.numbered h₁' haccepts'
  have hbehind' := defines_of_accepts (ht.perform h₁').numbered h₂'
    (hfirst'.accepts_behind haccepts' (h.symbols.accepts hd.name haccepts) hagree.symm)
  -- a name that is known stays known, so that both are lowered as before
  obtain ⟨f₁, hf₁⟩ := hfirst.exists_lookup hf'
  obtain ⟨g₁, hg₁⟩ := hfirst'.exists_lookup hg
  refine ⟨hagree, hfirst, hbehind, hfirst', hbehind', ?_, ?_, ?_, ?_⟩
  · rwa [subject_of_known hf, ← hf]
  · rwa [subject_of_known hg', ← hg']
  · refine lowered_renumbered ?_ hd.callees
    rw [declared_of_known hf, declared_of_known hg₁]
    exact hfirst'.renumbered_mirror hg' h.symbols.renumbered
  · refine lowered_renumbered ?_ hd'.callees
    rw [declared_of_known hf₁, declared_of_known hg']
    exact hfirst.renumbered hf h.symbols.renumbered

/-- Neighbours that are known beforehand can be exchanged. -/
theorem Mirrors.exchange (h : s.Mirrors ρ E t) (hd : (Declaration.function d).Outside E)
    (hd' : (Declaration.function d').Outside E)
    (hboth : Neighbours ρ d d' unit unit' s s₁ s₂ t t₁ t₂)
    (herrors : s₂.current.errors = s.current.errors) :
    s₂.Mirrors ρ E t₂ ∧ t₂.current.errors = t.current.errors := by
  refine ⟨⟨⟨fun name => hboth.lookup h, fun name hname => ?_, ?_, ?_⟩, ?_⟩, ?_⟩
  · have hne : name ≠ d.name := by
      rintro rfl
      exact hd.name hname
    have hne' : name ≠ d'.name := by
      rintro rfl
      exact hd'.name hname
    rw [hboth.behind.lookup, if_neg hne', hboth.first.lookup, if_neg hne]
    exact h.symbols.unknown name hname
  · rw [hboth.behind.globals, hboth.first.globals, hboth.behindMirror.globals,
      hboth.firstMirror.globals]
    exact h.symbols.globals
  · rw [hboth.behind.globals, hboth.first.globals]
    exact h.symbols.callees
  · rw [hboth.behind.entrySeen, hboth.first.entrySeen, hboth.behindMirror.entrySeen,
      hboth.firstMirror.entrySeen, h.entrySeen, Bool.or_right_comm]
  · have hsum := hboth.behind.errors
    have hsum' := hboth.behindMirror.errors
    rw [hboth.first.errors] at hsum
    rw [hboth.firstMirror.errors, hboth.lowered, hboth.loweredBehind, Lowering.renumbered,
      Lowering.renumbered] at hsum'
    dsimp only at hsum'
    omega

end EmitState

/-! ## Runs -/

/-- The second of two lists of acts is the same but for two neighbouring functions, which are
exchanged. -/
inductive Act.Exchanged : List Act → List Act → Prop
  | mk {as as' bs bs' : List Act} {u v : Emit.UnitText} {d d' : FunctionDecl} :
      WithMore [] as as' → WithMore [] bs bs' →
      Exchanged (as ++ .declaration u (.function d) :: .declaration u (.function d') :: bs)
        (as' ++ .declaration v (.function d') :: .declaration v (.function d) :: bs')

theorem Act.declarations_neighbours (as bs : List Act) (u : Emit.UnitText) (d d' : FunctionDecl) :
    (as ++ .declaration u (.function d) :: .declaration u (.function d') :: bs).filterMap
        Act.declaration?
      = as.filterMap Act.declaration?
        ++ .function d :: .function d' :: bs.filterMap Act.declaration? :=
  List.filterMap_append

theorem Act.WithMore.declarations_eq {acts acts' : List Act} (h : WithMore [] acts acts') :
    acts'.filterMap Act.declaration? = acts.filterMap Act.declaration? := by
  induction h with
  | nil => rfl
  | same hab _ _ ih =>
      cases hab with
      | problem | registered => exact ih
      | declaration u v decl => exact congrArg (decl :: ·) ih
  | more hname => cases hname

theorem Act.Exchanged.perm {acts acts' : List Act} (h : Exchanged acts acts') :
    (acts.filterMap Act.declaration?).Perm (acts'.filterMap Act.declaration?) := by
  obtain ⟨has, hbs⟩ := h
  rw [declarations_neighbours, declarations_neighbours, has.declarations_eq, hbs.declarations_eq]
  exact (List.Perm.swap _ _ _).append_left _

namespace EmitState

open Symbols

variable {s s' t t' : EmitState} {acts acts' : List Act}

/-- A run that knows all functions beforehand and has no errors is mirrored by one in which two
neighbouring functions are exchanged. -/
theorem Mirrors.performAll_exchanged (hacts : Act.Exchanged acts acts')
    (h : s.Mirrors ρ [] t) (hs : s.Ready) (ht : t.Ready)
    (hknown : ∀ decl, .function decl ∈ acts.filterMap Act.declaration? →
      (s.symbols.lookup? decl.name).isSome = true)
    (hrun : s.performAll acts = some s') (hrun' : t.performAll acts' = some t')
    (herrors : s'.current.errors = s.current.errors)
    (hρ : Matches ρ s'.symbols t'.symbols) :
    s'.Mirrors ρ [] t' ∧ t'.current.errors = t.current.errors := by
  obtain @⟨as, as', bs, bs', u, v, d, d', has, hbs⟩ := hacts
  rw [performAll_append, Option.bind_eq_some_iff] at hrun hrun'
  obtain ⟨s₀, hs₀, hrun⟩ := hrun
  obtain ⟨t₀, ht₀, hrun'⟩ := hrun'
  obtain ⟨s₁, hs₁, hrun⟩ := Option.bind_eq_some_iff.mp hrun
  obtain ⟨s₂, hs₂, hrun⟩ := Option.bind_eq_some_iff.mp hrun
  obtain ⟨t₁, ht₁, hrun'⟩ := Option.bind_eq_some_iff.mp hrun'
  obtain ⟨t₂, ht₂, hrun'⟩ := Option.bind_eq_some_iff.mp hrun'
  have hready := hs.performAll hs₀
  have hready' := ht.performAll ht₀
  have hready₁ := hready.perform hs₁
  have hready₁' := hready'.perform ht₁
  -- no part of the run adds an error
  have hle₀ := errors_le_performAll hs₀
  have hle₁ := errors_le_perform hs₁
  have hle₂ := errors_le_perform hs₂
  have hle := errors_le_performAll hrun
  have hkeeps : s₀.symbols.Keeps s'.symbols :=
    (((perform_begins hs₁).trans (perform_begins hs₂)).trans (performAll_begins hrun)).keeps
  have hkeeps' : t₀.symbols.Keeps t'.symbols :=
    (((perform_begins ht₁).trans (perform_begins ht₂)).trans (performAll_begins hrun')).keeps
  obtain ⟨h₀, -, hclean₀⟩ := h.performAll (List.forall_mem_nil _) has hs ht hs₀ ht₀ (by omega)
    (hρ.of_keeps hkeeps hkeeps')
  have hstill {decl : FunctionDecl} (hdecl : decl = d ∨ decl = d') :
      (s₀.symbols.lookup? decl.name).isSome = true := by
    have hmem : .function decl ∈ (as ++ .declaration u (.function d) ::
        .declaration u (.function d') :: bs).filterMap Act.declaration? := by
      rw [Act.declarations_neighbours]
      rcases hdecl with rfl | rfl
      · exact List.mem_append_right _ List.mem_cons_self
      · exact List.mem_append_right _ (List.mem_cons_of_mem _ List.mem_cons_self)
    obtain ⟨f, hf⟩ := Option.isSome_iff_exists.mp (hknown decl hmem)
    obtain ⟨g, hg, -⟩ := (performAll_begins hs₀).keeps _ f hf
    rw [hg]
    rfl
  have houtside (decl : FunctionDecl) : (Declaration.function decl).Outside [] :=
    ⟨List.not_mem_nil, fun _ _ => List.not_mem_nil⟩
  have hboth := h₀.neighbours hready hready' (houtside d) (houtside d') (hstill (.inl rfl))
    (hstill (.inr rfl)) hs₁ hs₂ ht₁ ht₂ (by omega)
  obtain ⟨h₂, hclean₂⟩ := h₀.exchange (houtside d) (houtside d') hboth (by omega)
  obtain ⟨h', -, hclean'⟩ := h₂.performAll (List.forall_mem_nil _) hbs (hready₁.perform hs₂)
    (hready₁'.perform ht₂) hrun hrun' (by omega) hρ
  exact ⟨h', ((hclean' rfl).trans hclean₂).trans (hclean₀ rfl)⟩

/-- The end of a unit adds no error if it adds none to a unit that is mirrored. -/
theorem Mirrors.errors_concluded (h : s.Mirrors ρ [] t)
    (herrors : s.concluded.current.errors = s.current.errors) :
    t.concluded.current.errors = t.current.errors := by
  have hmain := (h.symbols.lookup mainName List.not_mem_nil).isSome_eq
  have hcondition := (h.symbols.lookup conditionName List.not_mem_nil).isSome_eq
  rw [EmitState.concluded] at herrors ⊢
  rw [hmain, hcondition, h.entrySeen]
  split at herrors
  · exact absurd herrors (Nat.succ_ne_self _)
  · next hentry => rw [if_neg hentry]

/-- No function of a run has the name of the loader. -/
theorem apart_of_run {i : Instance} {outer : List Instance} {r : Registry}
    (hunloaded : ∀ decl, .function decl ∈ acts.filterMap Act.declaration? →
      decl.name ≠ globalsLoader)
    (h : (start i outer r .empty).performAll acts = some s) : s.symbols.Apart := by
  refine performAll_apart ?_ apart_empty h
  rintro a ha u decl rfl
  exact hunloaded decl (List.mem_filterMap.mpr ⟨_, ha, rfl⟩)

/-- Two neighbouring functions of a unit are exchanged.  If the pass that was seeded from a first
pass over one order has no errors, neither has the one that was seeded from a first pass over the
other order, and they leave programs that are alike. -/
theorem alike_of_exchanged {i i' j j' : Instance} {r : Registry} {f f' : EmitState}
    (hacts : Act.Exchanged acts acts')
    (hunloaded : ∀ decl, .function decl ∈ acts.filterMap Act.declaration? →
      decl.name ≠ globalsLoader)
    (hi : i.Roomy) (hi' : i'.Roomy) (hj : j.Roomy) (hj' : j'.Roomy)
    (hfirst : (start i [] r .empty).performAll acts = some f)
    (hfirst' : (start i' [] r .empty).performAll acts' = some f')
    (hrun : (start j [] r f.symbols.seededFrom).runs acts = some s')
    (hrun' : (start j' [] r f'.symbols.seededFrom).runs acts' = some t')
    (herrors : s'.current.errors = j.errors) :
    t'.current.errors = j'.errors ∧
      ∃ ρ, Program.Alike ρ [] s'.current.records t'.current.records s'.symbols t'.symbols := by
  have hempty (i : Instance) (hi : i.Roomy) : (start i [] r .empty).Ready := ⟨hi, numbered_empty⟩
  have hseeded (j : Instance) (hj : j.Roomy) (f : Symbols) : (start j [] r f.seededFrom).Ready :=
    ⟨hj, numbered_seededFrom f⟩
  have hf := ((hempty i hi).performAll hfirst).numbered
  have hf' := ((hempty i' hi').performAll hfirst').numbered
  have hapart := apart_of_run hunloaded hfirst
  have hapart' := apart_of_run (fun decl hdecl => hunloaded decl (hacts.perm.mem_iff.mpr hdecl))
    hfirst'
  have hready := hseeded j hj f.symbols
  have hready' := hseeded j' hj' f'.symbols
  have hnodup : f.symbols.seededFrom.names.Nodup :=
    names_seededFrom hf hapart ▸ nodup_names_performAll (hempty i hi) .nil hfirst
  have hnodup' : f'.symbols.seededFrom.names.Nodup :=
    names_seededFrom hf' hapart' ▸ nodup_names_performAll (hempty i' hi') .nil hfirst'
  obtain ⟨ρ, s, t, hacted, hloads, hacted', hloads', hρ, halike⟩ := exists_alike hready hready'
    hnodup hnodup' List.not_mem_nil List.not_mem_nil List.not_mem_nil hrun hrun'
  -- the run has no errors, so all declarations agree, and both first passes know just these
  have hle := errors_le_performAll hacted
  have hle' := s.errors_le_concluded
  rw [← errors_loads hloads] at hle'
  have hclean : s.current.errors = j.errors := Nat.le_antisymm (herrors ▸ hle') hle
  have hagree : (acts.filterMap Act.declaration?).Pairwise Declaration.Agree :=
    agree_of_performAll hready hacted hclean (List.forall_mem_nil _) .nil
  have hmade := madeOf_performAll (hempty i hi) hfirst madeOf_empty hagree
  have hmade' := madeOf_performAll (hempty i' hi') hfirst' madeOf_empty
    (hacts.perm.pairwise hagree Declaration.Agree.symm)
  have hseeds := hmade.seeded hmade' hacts.perm hf hf' hapart hapart'
    (hρ.of_keeps (performAll_begins hacted).keeps (performAll_begins hacted').keeps)
    j.records j'.records
  have hknown (decl : FunctionDecl) (hdecl : .function decl ∈ acts.filterMap Act.declaration?) :
      (f.symbols.seededFrom.lookup? decl.name).isSome = true := by
    obtain ⟨g, hg, -⟩ := hmade.knows _ hdecl
    rw [lookup?_seededFrom hf hapart, hg]
    rfl
  have hstart : (start j [] r f.symbols.seededFrom).Mirrors ρ []
      (start j' [] r f'.symbols.seededFrom) := ⟨hseeds, rfl⟩
  obtain ⟨hmirrors, hclean'⟩ := hstart.performAll_exchanged hacts hready hready' hknown hacted
    hacted' hclean hρ
  refine ⟨?_, ρ, (halike hmirrors).1⟩
  rw [errors_loads hloads', hmirrors.errors_concluded ?_]
  · exact hclean'
  · rw [← errors_loads hloads, herrors, hclean]

end EmitState
end Nss
