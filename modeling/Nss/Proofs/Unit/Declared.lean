/-
# Declarations that agree

Whether declarations can be made together does not depend on their order.  Two of them agree if they
have different names, or are functions of one name with the same result, the same parameters and at
most one body.

    a run without errors          all its declarations agree           `agree_of_performAll`
    a run whose declarations      its table is made of just these,     `madeOf_performAll`
    agree, from nothing           whatever errors there are in bodies

So two runs with the same declarations, in whatever order, seed the same functions
(`MadeOf.seeded`), if the declarations agree.
-/
import Nss.Proofs.Unit.Mirror

namespace Nss

/-- Two declarations can be made together, in any order. -/
def Declaration.Agree : Declaration → Declaration → Prop
  | .function d, .function e => d.name = e.name → d.result = e.result ∧
      d.params.map Param.type = e.params.map Param.type ∧ (d.body = none ∨ e.body = none)
  | d, e => d.name ≠ e.name

theorem Declaration.Agree.symm {d e : Declaration} (h : d.Agree e) : e.Agree d := by
  cases d with
  | global d =>
      cases e with
      | global e | function e => exact Ne.symm h
  | function d =>
      cases e with
      | global e => exact Ne.symm h
      | function e =>
          intro hname
          obtain ⟨hresult, hparams, hbody⟩ := h hname.symm
          exact ⟨hresult.symm, hparams.symm, hbody.symm⟩

theorem Act.eq_declaration {a : Act} {decl : Declaration} (h : a.declaration? = some decl) :
    ∃ u, a = .declaration u decl := by
  cases a with
  | problem u d | registered key => cases h
  | declaration u d => exact ⟨u, congrArg _ (Option.some.inj h)⟩

namespace Symbols

variable {s s' t : Symbols} {decl e : Declaration}

/-- A declaration was made in a table. -/
def Knows (s : Symbols) : Declaration → Prop
  | .function d => ∃ f, s.lookup? d.name = some f ∧ f.result = d.result ∧
      f.params = d.params.map Param.type ∧ (f.body = none → d.body = none)
  | .global d => s.lookupGlobal? d.name ≠ none

/-- A declaration can be made in a table. -/
def Admits (s : Symbols) : Declaration → Prop
  | .function d => s.Accepts d
  | .global d => s.lookupGlobal? d.name = none ∧ s.lookup? d.name = none

/-- A declaration that can be made agrees with those that were made. -/
theorem Admits.agree (h : s.Admits decl) (he : s.Knows e) : e.Agree decl := by
  cases decl with
  | function d =>
      cases e with
      | function e =>
          intro hname
          obtain ⟨f, hf, hresult, hparams, hbody⟩ := he
          rw [hname] at hf
          refine ⟨hresult.symm.trans (h.result f hf), hparams.symm.trans (h.params f hf), ?_⟩
          cases hnew : d.body with
          | none => exact .inr rfl
          | some body => exact .inl (hbody (h.body f hf (hnew ▸ rfl)))
      | global e =>
          intro hname
          have hapart := h.apart
          rw [show d.name = e.name from hname.symm] at hapart
          exact he hapart
  | global d =>
      obtain ⟨hglobal, hfunction⟩ := h
      cases e with
      | function e =>
          intro hname
          obtain ⟨f, hf, -⟩ := he
          rw [show e.name = d.name from hname, hfunction] at hf
          cases hf
      | global e =>
          intro hname
          rw [show d.name = e.name from hname.symm] at hglobal
          exact he hglobal

/-! ## Tables made of declarations -/

/-- A table is made of some declarations: it knows all of them and nothing else. -/
structure MadeOf (s : Symbols) (decls : List Declaration) : Prop where
  knows : ∀ decl ∈ decls, s.Knows decl
  functions : ∀ name f, s.lookup? name = some f → ∃ d, .function d ∈ decls ∧ d.name = name
  bodies : ∀ name f, s.lookup? name = some f → f.body ≠ none →
    ∃ d, .function d ∈ decls ∧ d.name = name ∧ d.body ≠ none
  globals : ∀ name g, s.lookupGlobal? name = some g → ∃ d, .global d ∈ decls ∧ d.name = name

theorem madeOf_empty : empty.MadeOf [] :=
  ⟨List.forall_mem_nil _, nofun, nofun, nofun⟩

/-- What agrees with all declarations that were made can be made. -/
theorem MadeOf.admits {decls : List Declaration} (h : s.MadeOf decls)
    (hagree : ∀ e ∈ decls, e.Agree decl) : s.Admits decl := by
  have hglobal (hne : s.lookupGlobal? decl.name ≠ none) : False := by
    obtain ⟨g, hg⟩ := Option.ne_none_iff_exists'.mp hne
    obtain ⟨e, he, hname⟩ := h.globals _ _ hg
    cases decl with
    | function d | global d => exact hagree _ he hname
  cases decl with
  | global d =>
      refine ⟨by_contra hglobal, by_contra fun hne => ?_⟩
      obtain ⟨f, hf⟩ := Option.ne_none_iff_exists'.mp hne
      obtain ⟨e, he, hname⟩ := h.functions _ _ hf
      exact hagree _ he hname
  | function d =>
      have hknown (f : FunctionSymbol) (hf : s.lookup? d.name = some f) :
          f.result = d.result ∧ f.params = d.params.map Param.type := by
        obtain ⟨e, he, hname⟩ := h.functions _ _ hf
        obtain ⟨f', hf', hresult, hparams, -⟩ := h.knows _ he
        obtain ⟨hsame, hsameParams, -⟩ := hagree _ he hname
        rw [hname, hf] at hf'
        obtain rfl := Option.some.inj hf'
        exact ⟨hresult.trans hsame, hparams.trans hsameParams⟩
      refine ⟨by_contra hglobal, fun f hf => (hknown f hf).1, fun f hf => (hknown f hf).2, ?_⟩
      intro f hf hnew
      by_contra hold
      obtain ⟨e, he, hname, hbody⟩ := h.bodies _ _ hf hold
      rcases (hagree _ he hname).2.2 with hnone | hnone
      · exact hbody hnone
      · rw [hnone] at hnew
        cases hnew

/-- A table that was seeded knows the functions, without their bodies. -/
theorem lookup?_seededFrom (hs : s.Numbered) (hapart : s.Apart) (name : String) :
    s.seededFrom.lookup? name = (s.lookup? name).map FunctionSymbol.unbodied := by
  rw [seededFrom_eq_ahead hs hapart, lookup?, ahead, empty, List.nil_append, List.length_nil,
    List.drop_zero, List.find?_map]
  rfl

theorem names_seededFrom (hs : s.Numbered) (hapart : s.Apart) : s.seededFrom.names = s.names := by
  rw [seededFrom_eq_ahead hs hapart, names, ahead, empty, List.nil_append, List.length_nil,
    List.drop_zero, List.map_map]
  rfl

/-- Tables that are made of the same declarations, in whatever order, seed the same functions. -/
theorem MadeOf.seeded {decls decls' : List Declaration} (h : s.MadeOf decls) (h' : t.MadeOf decls')
    (hperm : decls.Perm decls') (hs : s.Numbered) (ht : t.Numbered) (hapart : s.Apart)
    (hapart' : t.Apart) {ρ : Nat → Nat} (hρ : Matches ρ s.seededFrom t.seededFrom)
    (xs ys : List Instruction) : Mirrors ρ [] xs ys s.seededFrom t.seededFrom := by
  refine ⟨fun name _ => ?_, List.forall_mem_nil _, rfl, List.forall_mem_nil _⟩
  have hmatches := hρ name
  rw [lookup?_seededFrom hs hapart, lookup?_seededFrom ht hapart'] at hmatches ⊢
  cases hf : s.lookup? name with
  | none =>
      cases hg : t.lookup? name with
      | none => exact .none
      | some g =>
          obtain ⟨d, hd, rfl⟩ := h'.functions _ _ hg
          obtain ⟨f, hf', -⟩ := h.knows _ (hperm.mem_iff.mpr hd)
          rw [hf] at hf'
          cases hf'
  | some f =>
      obtain ⟨d, hd, rfl⟩ := h.functions _ _ hf
      obtain ⟨f', hf', hresult, hparams, -⟩ := h.knows _ hd
      obtain ⟨g, hg, hresult', hparams', -⟩ := h'.knows _ (hperm.mem_iff.mp hd)
      obtain rfl := Option.some.inj (hf.symm.trans hf')
      rw [hf, hg] at hmatches
      rw [hg]
      refine .some ⟨⟨hmatches _ _ rfl rfl, hresult'.trans hresult.symm,
        hparams'.trans hparams.symm⟩, ?_, .none⟩
      exact (name_of_lookup? hg).trans (name_of_lookup? hf).symm

end Symbols

namespace EmitState

open Symbols

variable {s s' : EmitState} {u : Emit.UnitText} {decl e : Declaration} {acts : List Act}
  {decls : List Declaration}

/-! ## Acts -/

/-- What adds no error can be made. -/
theorem admits_of_perform (h : s.perform (.declaration u decl) = some s')
    (herrors : s'.current.errors = s.current.errors) : s.symbols.Admits decl := by
  cases decl with
  | function d => exact accepts_of_perform h herrors
  | global d => exact new_of_perform h herrors

/-- What a function is like whose declaration was accepted. -/
theorem signature_defined {d : FunctionDecl} (h : s.symbols.Accepts d) (unit : String) :
    (s.defined d unit).result = d.result ∧
      (s.defined d unit).params = d.params.map Param.type := by
  rw [defined, subject]
  cases hf : s.symbols.lookup? d.name with
  | none => exact ⟨rfl, rfl⟩
  | some f => exact ⟨h.result f hf, h.params f hf⟩

theorem body_defined {d : FunctionDecl} {unit : String} (h : (s.defined d unit).body = none) :
    d.body = none ∧ (s.symbols.subject d unit).body = none := by
  rw [defined] at h
  cases hbody : d.body with
  | none =>
      rw [hbody] at h
      exact ⟨rfl, h⟩
  | some body =>
      rw [hbody] at h
      cases h

/-- A body is that of the declaration, or was there before. -/
theorem body_defined_cases {d : FunctionDecl} {unit : String}
    (h : (s.defined d unit).body ≠ none) :
    d.body ≠ none ∨ ∃ f, s.symbols.lookup? d.name = some f ∧ f.body ≠ none := by
  refine or_iff_not_imp_left.mpr fun hnone => ?_
  rw [defined, if_neg (by simpa using hnone), subject] at h
  cases hf : s.symbols.lookup? d.name with
  | none =>
      rw [hf] at h
      exact absurd rfl h
  | some f =>
      rw [hf] at h
      exact ⟨f, rfl, h⟩

theorem lookupGlobal?_extends {d : VarDecl} {unit : String} (h : s.Extends d unit s')
    (name : String) : s'.symbols.lookupGlobal? name = (s.symbols.lookupGlobal? name).or
      (if d.name = name then some ⟨s.symbols.globals.length, d, unit⟩ else none) := by
  rw [lookupGlobal?, h.globals, List.find?_append, ← lookupGlobal?, List.find?_singleton]
  by_cases heq : d.name = name
  · rw [if_pos heq]
    exact congrArg _ (if_pos (decide_eq_true heq))
  · rw [if_neg heq]
    exact congrArg _ (if_neg fun h => heq (of_decide_eq_true h))

/-- A declaration that can be made is known afterwards, and so are those that were known. -/
theorem knows_of_admits (hs : s.symbols.Numbered) (h : s.perform (.declaration u decl) = some s')
    (hadmits : s.symbols.Admits decl) :
    s'.symbols.Knows decl ∧ ∀ e, s.symbols.Knows e → s'.symbols.Knows e := by
  cases decl with
  | function d =>
      have hdefines := defines_of_accepts hs h hadmits
      obtain ⟨hresult, hparams⟩ := s.signature_defined hadmits u.name
      have hself : s'.symbols.lookup? d.name = some (s.defined d u.name) := by
        rw [hdefines.lookup, if_pos rfl]
      refine ⟨⟨_, hself, hresult, hparams, fun hnone => (body_defined hnone).1⟩, fun e he => ?_⟩
      cases e with
      | global e =>
          rw [Knows, lookupGlobal?, hdefines.globals]
          exact he
      | function e =>
          obtain ⟨f, hf, hknown⟩ := he
          by_cases hname : e.name = d.name
          · rw [hname] at hf
            refine ⟨_, hname ▸ hself, ?_, ?_, fun hnone => hknown.2.2 ?_⟩
            · rw [hresult, ← hadmits.result f hf, hknown.1]
            · rw [hparams, ← hadmits.params f hf, hknown.2.1]
            · have hsubject := (body_defined hnone).2
              rwa [subject, hf] at hsubject
          · refine ⟨f, ?_, hknown⟩
            rw [hdefines.lookup, if_neg hname, hf]
  | global d =>
      have hextends := extends_of_new h hadmits.1 hadmits.2
      refine ⟨?_, fun e he => ?_⟩
      · rw [Knows, lookupGlobal?_extends hextends, if_pos rfl, Option.or_some]
        exact Option.some_ne_none _
      · cases e with
        | global e =>
            rw [Knows, lookupGlobal?_extends hextends]
            exact fun hnone => he (Option.or_eq_none_iff.mp hnone).1
        | function e =>
            rw [Knows, lookup?, hextends.functions]
            exact he

/-- A table stays made of what was declared, if all declarations agree. -/
theorem madeOf_perform (hs : s.symbols.Numbered) (hmade : s.symbols.MadeOf decls)
    (hagree : ∀ e ∈ decls, e.Agree decl) (h : s.perform (.declaration u decl) = some s') :
    s'.symbols.MadeOf (decls ++ [decl]) := by
  have hadmits := hmade.admits hagree
  obtain ⟨hknows, hkept⟩ := knows_of_admits hs h hadmits
  have hall : ∀ e ∈ decls ++ [decl], s'.symbols.Knows e := List.forall_mem_append.mpr
    ⟨fun e he => hkept e (hmade.knows e he), List.forall_mem_singleton.mpr hknows⟩
  have hnew : decl ∈ decls ++ [decl] := List.mem_append_right _ List.mem_cons_self
  have hold {e : Declaration} (he : e ∈ decls) : e ∈ decls ++ [decl] := List.mem_append_left _ he
  cases decl with
  | function d =>
      have hdefines := defines_of_accepts hs h hadmits
      refine ⟨hall, fun name f hf => ?_, fun name f hf hbody => ?_, fun name g hg => ?_⟩
      · rw [hdefines.lookup] at hf
        split at hf
        · next heq => exact ⟨d, hnew, heq.symm⟩
        · exact (hmade.functions name f hf).imp fun _ he => ⟨hold he.1, he.2⟩
      · rw [hdefines.lookup] at hf
        split at hf
        · next heq =>
            obtain rfl := Option.some.inj hf
            rcases body_defined_cases hbody with hd | ⟨g, hg, hgbody⟩
            · exact ⟨d, hnew, heq.symm, hd⟩
            · rw [heq]
              exact (hmade.bodies _ g hg hgbody).imp fun _ he => ⟨hold he.1, he.2⟩
        · exact (hmade.bodies name f hf hbody).imp fun _ he => ⟨hold he.1, he.2⟩
      · rw [lookupGlobal?, hdefines.globals] at hg
        exact (hmade.globals name g hg).imp fun _ he => ⟨hold he.1, he.2⟩
  | global d =>
      have hextends := extends_of_new h hadmits.1 hadmits.2
      refine ⟨hall, fun name f hf => ?_, fun name f hf hbody => ?_, fun name g hg => ?_⟩
      · rw [lookup?, hextends.functions] at hf
        exact (hmade.functions name f hf).imp fun _ he => ⟨hold he.1, he.2⟩
      · rw [lookup?, hextends.functions] at hf
        exact (hmade.bodies name f hf hbody).imp fun _ he => ⟨hold he.1, he.2⟩
      · rw [lookupGlobal?_extends hextends] at hg
        rcases Option.or_eq_some_iff.mp hg with hg | ⟨-, hg⟩
        · exact (hmade.globals name g hg).imp fun _ he => ⟨hold he.1, he.2⟩
        · exact ⟨d, hnew, (Option.ite_none_right_eq_some.mp hg).1⟩

/-! ## Runs -/

/-- What an act that declares nothing leaves of a table. -/
theorem symbols_of_perform {a : Act} (h : s.perform a = some s') (ha : a.declaration? = none) :
    s'.symbols = s.symbols := by
  cases a with
  | problem v d | registered key =>
      obtain rfl := Option.some.inj h
      rfl
  | declaration v decl => cases ha

/-- All declarations of a run without errors agree, and with what was known before. -/
theorem agree_of_performAll (hs : s.Ready) (h : s.performAll acts = some s')
    (herrors : s'.current.errors = s.current.errors) (hknown : ∀ e ∈ decls, s.symbols.Knows e)
    (hagree : decls.Pairwise Declaration.Agree) :
    (decls ++ acts.filterMap Act.declaration?).Pairwise Declaration.Agree := by
  induction acts generalizing s decls with
  | nil => rwa [List.filterMap_nil, List.append_nil]
  | cons a rest ih =>
      obtain ⟨t, ht, hrest⟩ := Option.bind_eq_some_iff.mp h
      have hle := errors_le_perform ht
      have hle' := errors_le_performAll hrest
      have hclean : t.current.errors = s.current.errors := by omega
      cases ha : a.declaration? with
      | none =>
          rw [List.filterMap_cons_none ha]
          exact ih (hs.perform ht) hrest (by omega) (symbols_of_perform ht ha ▸ hknown) hagree
      | some decl =>
          obtain ⟨v, rfl⟩ := Act.eq_declaration ha
          have hadmits := admits_of_perform ht hclean
          obtain ⟨hknows, hkept⟩ := knows_of_admits hs.numbered ht hadmits
          rw [List.filterMap_cons_some ha, ← List.singleton_append, ← List.append_assoc]
          refine ih (hs.perform ht) hrest (by omega) (List.forall_mem_append.mpr
            ⟨fun e he => hkept e (hknown e he), List.forall_mem_singleton.mpr hknows⟩) ?_
          refine List.pairwise_append.mpr ⟨hagree, List.pairwise_singleton _ _, fun e he => ?_⟩
          exact List.forall_mem_singleton.mpr (hadmits.agree (hknown e he))

/-- If all declarations of a run agree, its table is made of them, whatever errors there are. -/
theorem madeOf_performAll (hs : s.Ready) (h : s.performAll acts = some s')
    (hmade : s.symbols.MadeOf decls)
    (hagree : (decls ++ acts.filterMap Act.declaration?).Pairwise Declaration.Agree) :
    s'.symbols.MadeOf (decls ++ acts.filterMap Act.declaration?) := by
  induction acts generalizing s decls with
  | nil =>
      obtain rfl := Option.some.inj h
      rwa [List.filterMap_nil, List.append_nil]
  | cons a rest ih =>
      obtain ⟨t, ht, hrest⟩ := Option.bind_eq_some_iff.mp h
      cases ha : a.declaration? with
      | none =>
          rw [List.filterMap_cons_none ha] at hagree ⊢
          exact ih (hs.perform ht) hrest (symbols_of_perform ht ha ▸ hmade) hagree
      | some decl =>
          obtain ⟨v, rfl⟩ := Act.eq_declaration ha
          rw [List.filterMap_cons_some ha, ← List.singleton_append, ← List.append_assoc]
            at hagree ⊢
          have hboth := (List.pairwise_append.mp hagree).1
          have hnew (e) (he : e ∈ decls) : e.Agree decl :=
            (List.pairwise_append.mp hboth).2.2 e he decl List.mem_cons_self
          exact ih (hs.perform ht) hrest (madeOf_perform hs.numbered hmade hnew ht) hagree

end EmitState

end Nss
