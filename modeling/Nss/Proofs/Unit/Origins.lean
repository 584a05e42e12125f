/-
# Where the code of a script comes from

A pass over a script that adds no error accepts every declaration that it meets, in this order:

    a variable                its first value follows the rules       `Symbols.Initialized`
    a function with a body    its code is lowered by the rules, against a table that the one in the
                              end begins with                         `Symbols.Accepted`

One act keeps this (`EmitState.Sourced.perform`), and so does a whole run (`performAll`).  In the end
the code of every function is that of one of the definitions that were met, and the loader is the one
of the variables that were met.
-/
import Nss.Proofs.Unit.Declared
import Nss.Proofs.Unit.Tiling
import Nss.Proofs.Unit.Root
import Nss.Proofs.Lowering.Loader

namespace Nss

/-- The variable that a declaration declares. -/
def Declaration.variable? : Declaration → Option VarDecl
  | .global decl => some decl
  | .function _ => none

/-- The function that a declaration defines. -/
def Declaration.definition? : Declaration → Option FunctionDecl
  | .function decl => if decl.body.isSome then some decl else none
  | .global _ => none

/-- A table knows the functions of every table that it begins with. -/
theorem Symbols.Begins.covered {s T : Symbols} (h : s.Begins T) : s.Covered T := by
  intro name f hf
  have hfind (t : Symbols) : (t.functions.map FunctionSymbol.unbodied).find? (·.name = name)
      = (t.lookup? name).map FunctionSymbol.unbodied := by
    rw [List.find?_map]
    rfl
  obtain ⟨rest, hrest⟩ := h.functions
  have hT := hfind T
  rw [← hrest, List.find?_append, hfind s, hf, Option.map_some, Option.some_or] at hT
  obtain ⟨g, hg, hsame⟩ := Option.map_eq_some_iff.mp hT.symm
  have hcall : f.unbodied.SameCall g.unbodied := by
    rw [hsame]
    exact ⟨rfl, rfl, rfl⟩
  exact ⟨g, hg, hcall.id, hcall.result, hcall.params⟩

/-- A function of a log is the one that a definition defines, and its code follows the rules against
the table of a script, which another one begins with. -/
def Symbols.Accepted (T : Symbols) (e : Nat × Origin) (decl : FunctionDecl) : Prop :=
  ∃ known f, e = (f.id, .definition decl known) ∧ known.Begins T ∧ known.Scripted ∧
    known.lookup? decl.name = some f ∧ decl.Emits known (Lowering.ofFunction decl known).routine

theorem Symbols.Accepted.begins {T T' : Symbols} {e : Nat × Origin} {decl : FunctionDecl}
    (h : T.Accepted e decl) (hT : T.Begins T') : T'.Accepted e decl := by
  obtain ⟨known, f, rfl, hknown, hscripted, hf, hemits⟩ := h
  exact ⟨known, f, rfl, hknown.trans hT, hscripted, hf, hemits⟩

namespace EmitState

variable {s s' : EmitState} {a : Act} {acts : List Act} {decls : List Declaration} {log : Log}

/-- The variables of a state, and the functions with bodies, are those of some declarations, and
their code follows the rules. -/
structure Sourced (s : EmitState) (decls : List Declaration) (log : Log) : Prop where
  alone : s.outer = []
  scripted : s.symbols.Scripted
  accounted : s.Accounted log
  globals : s.symbols.globals.map GlobalSymbol.decl = decls.filterMap Declaration.variable?
  initialized : s.symbols.Initialized
  definitions : List.Forall₂ s.symbols.Accepted log (decls.filterMap Declaration.definition?)

namespace Sourced

/-- Nothing was declared. -/
theorem start {i : Instance} {r : Registry} {symbols : Symbols} (hscripted : symbols.Scripted)
    (hbodies : ∀ id, symbols.body? id = none) (hglobals : symbols.globals = []) (hi : i.Blank) :
    (EmitState.start i [] r symbols).Sourced [] [] where
  alone := rfl
  scripted := hscripted
  accounted := by
    refine ⟨hscripted.toNumbered, _, .blank hbodies (List.forall_mem_singleton.mpr hi), ?_⟩
    rw [Log.all_empty]
  globals := congrArg (List.map GlobalSymbol.decl) hglobals
  initialized := Symbols.initialized_empty hglobals
  definitions := .nil

/-- An act that declares nothing. -/
theorem of_same (h : s.Sourced decls log) (houter : s'.outer = s.outer)
    (hdefined : s'.current.defined = s.current.defined)
    (hrecords : s'.current.records = s.current.records) (hsymbols : s'.symbols = s.symbols) :
    s'.Sourced decls log := by
  have hgains : s.Gains s' [] := .of_symbols houter hdefined hrecords hsymbols h.accounted.numbered
  refine ⟨houter.trans h.alone, hsymbols ▸ h.scripted, ?_, hsymbols ▸ h.globals,
    hsymbols ▸ h.initialized, ?_⟩
  · have haccounted := h.accounted.gains hgains
    rwa [List.append_nil] at haccounted
  · rw [hsymbols]
    exact h.definitions

/-- What was declared keeps its code. -/
theorem definitions_begins (h : s.Sourced decls log) (hbegins : s.symbols.Begins s'.symbols) :
    List.Forall₂ s'.symbols.Accepted log (decls.filterMap Declaration.definition?) :=
  h.definitions.imp fun _ _ haccepted => haccepted.begins hbegins

/-- The definition that comes with a function follows the rules, if that adds no error. -/
theorem forall₂_accepted (h : s.Sourced decls log) {u : Emit.UnitText} {decl : FunctionDecl}
    (hdecl : decl.NonVoid) (hname : decl.name ≠ globalsLoader)
    (hperform : s.perform (.declaration u (.function decl)) = some s')
    (haccepts : s.symbols.Accepts decl)
    (hclean : Diagnostic.errorCount (s.symbols.lowered decl u.name).diagnostics = 0) :
    List.Forall₂ s'.symbols.Accepted
      (Expanded.accepted u.name s.symbols (.declaration (.function decl)))
      ([Declaration.function decl].filterMap Declaration.definition?) := by
  have hdeclare := Symbols.declareFunction_of_accepts haccepts u.name
  rw [Expanded.accepted, hdeclare, List.filterMap_cons, List.filterMap_nil, Declaration.definition?]
  dsimp only
  cases hbody : decl.body.isSome with
  | false => exact .nil
  | true =>
      rw [Symbols.lowered, if_pos hbody] at hclean
      have hnone : (Lowering.ofFunction decl (s.symbols.declared decl u.name)).diagnostics = [] := by
        refine List.eq_nil_iff_forall_not_mem.mpr fun d hd => ?_
        exact Diagnostic.errorCount_pos hd (Lowering.ofFunction_isError hdecl d hd) hclean
      have hknown := (h.scripted.declareFunction hdecl hname hdeclare).1
      have hbegins : (s.symbols.declared decl u.name).Begins s'.symbols := by
        have heffect := FunctionDecl.effect_of_accepts haccepts u.name
        rw [perform, Declaration.effect, heffect] at hperform
        rcases takes_eq_some hperform with ⟨-, rfl⟩ | ⟨id, l, -, -, rfl⟩
        · exact .refl _
        · exact .attachBody _ _ _
      have hfound := s.symbols.lookup?_declared decl u.name decl.name
      rw [if_pos rfl] at hfound
      have hemits := Lowering.ofFunction_emits hknown.toNonVoid hdecl hnone
      exact .cons ⟨_, _, rfl, hbegins, hknown, hfound, hemits⟩ .nil

/-- A function that is declared without an error. -/
theorem function (h : s.Sourced decls log) (hs : s.Ready) {u : Emit.UnitText} {decl : FunctionDecl}
    (hdecl : decl.NonVoid) (hname : decl.name ≠ globalsLoader)
    (hperform : s.perform (.declaration u (.function decl)) = some s')
    (herrors : s'.current.errors = s.current.errors) :
    ∃ new, s'.Sourced (decls ++ [.function decl]) (log ++ new) := by
  have haccepts := accepts_of_perform hperform herrors
  have hpart := (Emit.part_declaration_eq_ok_iff hs.roomy).mpr hperform
  have hbegins := perform_begins hperform
  have hdefines := defines_of_accepts hs.numbered hperform haccepts
  have hclean : Diagnostic.errorCount (s.symbols.lowered decl u.name).diagnostics = 0 := by
    have := hdefines.errors
    omega
  have hgains := Emit.part_gains hs.numbered rfl hpart
  have hproper : Declaration.Proper (.function decl) := .function hdecl hname
  refine ⟨_, hgains.outer.trans h.alone, ?_, h.accounted.gains hgains, ?_,
    h.initialized.mono hdefines.globals hbegins.covered, ?_⟩
  · exact (Emit.part_ran .full u (.declaration _) hproper h.scripted hpart).scripted
  · rw [hdefines.globals, h.globals, List.filterMap_append]
    exact (List.append_nil _).symm
  · rw [List.filterMap_append]
    exact List.rel_append (h.definitions_begins hbegins)
      (h.forall₂_accepted hdecl hname hperform haccepts hclean)

/-- A variable that is declared without an error. -/
theorem global (h : s.Sourced decls log) (hs : s.Ready) {u : Emit.UnitText} {decl : VarDecl}
    (hdecl : decl.type ≠ .void) (hperform : s.perform (.declaration u (.global decl)) = some s')
    (herrors : s'.current.errors = s.current.errors) : s'.Sourced (decls ++ [.global decl]) log := by
  obtain ⟨hglobal, hfunction⟩ := new_of_perform hperform herrors
  have hpart := (Emit.part_declaration_eq_ok_iff hs.roomy).mpr hperform
  have hbegins := perform_begins hperform
  have hextends := extends_of_new hperform hglobal hfunction
  have hproper : Declaration.Proper (.global decl) := .global hdecl
  have hscripted := (Emit.part_ran .full u (.declaration _) hproper h.scripted hpart).scripted
  have hclean : Lowering.checkGlobal s.symbols.globals.length s'.symbols = [] := by
    have hcount := hextends.errors
    refine List.eq_nil_iff_forall_not_mem.mpr fun d hd => ?_
    refine Diagnostic.errorCount_pos hd (Lowering.checkGlobal_isError hscripted.toNonVoid _ d hd) ?_
    omega
  have hlast : s'.symbols.globals[s.symbols.globals.length]?
      = some ⟨s.symbols.globals.length, decl, u.name⟩ := by
    rw [hextends.globals]
    exact List.getElem?_concat_length
  obtain ⟨p, c, ls, vs, hp, hemits⟩ :=
    Lowering.checkGlobal_emits hscripted.toNonVoid hlast hclean
  rw [hextends.globals, List.take_left] at hp
  have hgains := Emit.part_gains hs.numbered rfl hpart
  refine ⟨hgains.outer.trans h.alone, hscripted, ?_, ?_, ?_, ?_⟩
  · have haccounted := h.accounted.gains hgains
    rwa [Expanded.accepted, List.append_nil] at haccounted
  · rw [hextends.globals, List.map_append, h.globals, List.filterMap_append]
    rfl
  · exact h.initialized.concat hextends.globals hbegins.covered
      (Symbols.lookupGlobal?_eq_none_iff.mp hglobal) hp hemits
  · rw [List.filterMap_append]
    exact (List.append_nil log) ▸ List.rel_append (h.definitions_begins hbegins) .nil

/-- An act that adds no error. -/
theorem perform (h : s.Sourced decls log) (hs : s.Ready)
    (ha : ∀ decl, a.declaration? = some decl → decl.Proper) (hperform : s.perform a = some s')
    (herrors : s'.current.errors = s.current.errors) :
    ∃ new, s'.Sourced (decls ++ a.declaration?.toList) (log ++ new) := by
  cases a with
  | problem u d =>
      obtain rfl := Option.some.inj hperform
      refine ⟨[], ?_⟩
      rw [Act.declaration?, Option.toList_none, List.append_nil, List.append_nil]
      exact h.of_same rfl rfl rfl rfl
  | registered key =>
      obtain rfl := Option.some.inj hperform
      refine ⟨[], ?_⟩
      rw [Act.declaration?, Option.toList_none, List.append_nil, List.append_nil]
      exact h.of_same rfl rfl rfl rfl
  | declaration u decl =>
      cases ha decl rfl with
      | global hdecl =>
          refine ⟨[], ?_⟩
          rw [List.append_nil]
          exact h.global hs hdecl hperform herrors
      | function hdecl hname => exact h.function hs hdecl hname hperform herrors

/-- A run that adds no error. -/
theorem performAll (h : s.Sourced decls log) (hs : s.Ready)
    (hacts : ∀ a ∈ acts, ∀ decl, a.declaration? = some decl → decl.Proper)
    (hperform : s.performAll acts = some s') (herrors : s'.current.errors = s.current.errors) :
    ∃ new, s'.Sourced (decls ++ acts.filterMap Act.declaration?) (log ++ new) := by
  induction acts generalizing s decls log with
  | nil =>
      obtain rfl := Option.some.inj hperform
      refine ⟨[], ?_⟩
      rwa [List.filterMap_nil, List.append_nil, List.append_nil]
  | cons a rest ih =>
      obtain ⟨t, ht, hrest⟩ := Option.bind_eq_some_iff.mp hperform
      obtain ⟨ha, hacts⟩ := List.forall_mem_cons.mp hacts
      have hle := errors_le_perform ht
      have hle' := errors_le_performAll hrest
      obtain ⟨new, hfirst⟩ := h.perform hs ha ht (by omega)
      obtain ⟨more, hall⟩ := ih hfirst (hs.perform ht) hacts hrest (by omega)
      refine ⟨new ++ more, ?_⟩
      rw [Act.filterMap_declaration?_cons, ← List.append_assoc, ← List.append_assoc]
      exact hall

end Sourced
end EmitState

/-! ## What an account says of one function -/

namespace EmitState.Accounted

variable {s : EmitState} {log : Log}

/-- The code of every definition that was accepted lies where the table says. -/
theorem held (h : s.Accounted log) (halone : s.outer = []) {id : Nat} {o : Origin}
    (he : (id, o) ∈ log) :
    ∃ b, s.symbols.body? id = some b ∧ b.code s.current.records = o.lowering.code.toList ∧
      b.labels = o.lowering.labels := by
  have hstack : s.stack = [s.current] := by rw [EmitState.stack, halone]
  obtain ⟨entries, hledger, hperm⟩ := h.ledger
  have hkept := hledger.kept hperm
  have hid : id ∈ s.stack.flatMap Instance.defined := by
    rw [hledger.flatMap_defined]
    exact (hperm.map Prod.fst).mem_iff.mpr (List.mem_map_of_mem he)
  rw [hstack, List.flatMap_singleton] at hid
  obtain ⟨b, o', hb, ho, -, hcode, hlabels⟩ :=
    hkept.held s.current (hstack ▸ List.mem_cons_self) id hid
  obtain rfl := (Prod.mk.inj (List.inj_on_of_nodup_map hkept.accepted ho he rfl)).2
  exact ⟨b, hb, hcode, hlabels⟩

/-- What has a body was accepted. -/
theorem exists_mem (h : s.Accounted log) {id : Nat} {b : FunctionBody}
    (hb : s.symbols.body? id = some b) : ∃ o, (id, o) ∈ log := by
  have hkept := h.kept
  obtain ⟨i, hi, hid⟩ := List.mem_flatMap.mp ((hkept.recorded id).mp (by rw [hb]; rfl))
  obtain ⟨-, o, -, ho, -⟩ := hkept.held i hi id hid
  exact ⟨o, ho⟩

end EmitState.Accounted

/-! ## Programs made of declarations -/

namespace Symbols

/-- A function of a program has the code of a definition, which follows the rules against the table
of a script, which the one of the program begins with. -/
inductive Realizes (T : Symbols) (records : List Instruction) (id : Nat) (decl : FunctionDecl) : Prop
  | intro {known : Symbols} {f : FunctionSymbol} {b : FunctionBody} :
      known.Begins T → known.Scripted → known.lookup? decl.name = some f → f.id = id →
      T.body? id = some b → decl.Emits known ⟨b.code records, b.labels⟩ → Realizes T records id decl

/-- The loader of a program is the one of a table without it, whose variables are checked.  Its result
is that of the function that the program begins with. -/
structure LoadedFrom (T : Symbols) (records : List Instruction) (known : Symbols)
    (loader : FunctionSymbol) : Prop where
  table : T = known.withFunction loader
  scripted : known.Scripted
  initialized : known.Initialized
  name : loader.name = globalsLoader
  params : loader.params = []
  result : ∀ f, known.startFunction? = some f → loader.result = f.result
  code : ∃ b, loader.body = some b ∧
    b.code records = (Lowering.ofGlobals known known.startFunction?).code.toList

/-- A program is made of some declarations: its variables and its functions are theirs, and the rest
is the loader. -/
structure ComesFrom (T : Symbols) (records : List Instruction) (decls : List Declaration) : Prop where
  numbered : T.Numbered
  globals : T.globals.map GlobalSymbol.decl = decls.filterMap Declaration.variable?
  definitions : ∀ decl ∈ decls.filterMap Declaration.definition?, ∃ id, T.Realizes records id decl
  bodies : ∀ id b, T.body? id = some b → T.name? id = some globalsLoader ∨
    ∃ decl ∈ decls.filterMap Declaration.definition?, T.Realizes records id decl
  loader : T.globals ≠ [] → ∃ known loader, T.LoadedFrom records known loader

theorem Begins.withFunction (s : Symbols) (f : FunctionSymbol) : s.Begins (s.withFunction f) := by
  refine ⟨?_, List.prefix_rfl⟩
  rw [Symbols.withFunction, List.map_append]
  exact List.prefix_append _ _

end Symbols

namespace EmitState

open Symbols

variable {s s' : EmitState} {decls : List Declaration} {log new : Log}

/-- What was accepted is realized. -/
theorem Accounted.realizes (h : s'.Accounted log) (halone : s'.outer = [])
    (hbegins : s.symbols.Begins s'.symbols) {e : Nat × Origin} (he : e ∈ log) {decl : FunctionDecl}
    (haccepted : s.symbols.Accepted e decl) :
    s'.symbols.Realizes s'.current.records e.1 decl := by
  obtain ⟨known, f, rfl, hknown, hscripted, hf, hemits⟩ := haccepted
  obtain ⟨b, hb, hcode, hlabels⟩ := h.held halone he
  refine .intro (hknown.trans hbegins) hscripted hf rfl hb ?_
  rw [hcode, hlabels]
  exact hemits

/-- A program is made of what was declared, once the loader is added, if there are variables. -/
theorem Sourced.comesFrom (h : s.Sourced decls log) (halone : s'.outer = [])
    (haccounted : s'.Accounted (log ++ new)) (hbegins : s.symbols.Begins s'.symbols)
    (hnew : ∀ e ∈ new, e.2.name = globalsLoader) (hglobals : s'.symbols.globals = s.symbols.globals)
    (hloader : s'.symbols.globals ≠ [] → ∃ known loader,
      s'.symbols.LoadedFrom s'.current.records known loader) :
    s'.symbols.ComesFrom s'.current.records decls := by
  have hrealizes {e : Nat × Origin} (he : e ∈ log) {decl : FunctionDecl}
      (haccepted : s.symbols.Accepted e decl) : s'.symbols.Realizes s'.current.records e.1 decl :=
    haccounted.realizes halone hbegins (List.mem_append_left _ he) haccepted
  refine ⟨haccounted.numbered, ?_, ?_, ?_, hloader⟩
  · rw [hglobals, h.globals]
  · intro decl hdecl
    obtain ⟨k, hk, rfl⟩ := List.getElem_of_mem hdecl
    have hk' : k < log.length := h.definitions.length_eq ▸ hk
    exact ⟨_, hrealizes (List.getElem_mem hk') (h.definitions.get hk' hk)⟩
  · intro id b hb
    obtain ⟨o, ho⟩ := haccounted.exists_mem hb
    rcases List.mem_append.mp ho with hlog | hmem
    · obtain ⟨k, hk, heq⟩ := List.getElem_of_mem hlog
      have hk' := h.definitions.length_eq ▸ hk
      have haccepted := h.definitions.get hk hk'
      rw [List.get_eq_getElem, heq] at haccepted
      exact .inr ⟨_, List.getElem_mem hk', hrealizes hlog haccepted⟩
    · refine .inl ?_
      rw [haccounted.kept.named _ ho, hnew _ hmem]

/-- The end of a pass leaves what was declared. -/
theorem Sourced.concluded (h : s.Sourced decls log) : s.concluded.Sourced decls log := by
  rw [EmitState.concluded]
  split
  · exact h.of_same rfl rfl rfl rfl
  · exact h

theorem Ready.concluded (hs : s.Ready) : s.concluded.Ready :=
  ⟨roomy_concluded hs.roomy, s.symbols_concluded ▸ hs.numbered⟩

/-- The loader that is added to the table of a script, with its code. -/
theorem loads_spec (hs : s.symbols.Scripted) (hglobals : s.symbols.globals ≠ [])
    (hloads : s.loads = some s') :
    ∃ f, s'.symbols = s.symbols.withFunction f ∧ f.name = globalsLoader ∧ f.params = [] ∧
      f.result = s.loaderResult ∧ ∃ b, f.body = some b ∧ b.code s'.current.records
        = (Lowering.ofGlobals s.symbols s.symbols.startFunction?).code.toList := by
  rw [EmitState.loads, if_neg (by simpa using hglobals), declareLoader_eq_insert hs] at hloads
  obtain ⟨-, hloads⟩ := Option.ite_none_right_eq_some.mp hloads
  obtain rfl := Option.some.inj hloads
  refine ⟨_, attachBody_insert _ _ _ _ _, rfl, rfl, rfl, _, rfl, ?_⟩
  rw [FunctionBody.code, Instance.records_eq]
  show ((Array.toList (_ ++ _)).drop _).take _ = _
  rw [Array.toList_append, ← Array.length_toList, List.drop_left, ← Array.length_toList,
    List.take_length]

/-- The loader comes last. -/
theorem Sourced.loads (h : s.Sourced decls log) (hs : s.Ready) (hloads : s.loads = some s') :
    s'.symbols.ComesFrom s'.current.records decls := by
  have hnone : ∀ f, s.symbols.lookup? globalsLoader = some f → f.body = none := by
    rw [lookup?_globalsLoader h.scripted]
    exact nofun
  have hadd := (Emit.addLoader_eq_ok_iff hs.roomy).mpr hloads
  have hgains := Emit.addLoader_gains hs.numbered hnone hadd
  have haccounted := h.accounted.gains hgains
  have halone := hgains.outer.trans h.alone
  have hnew : ∀ e ∈ s.loaderLog, e.2.name = globalsLoader := by
    rw [loaderLog]
    split
    · exact List.forall_mem_nil _
    · exact List.forall_mem_singleton.mpr rfl
  by_cases hglobals : s.symbols.globals = []
  · have hsame : s' = s := by
      rw [EmitState.loads, hglobals] at hloads
      exact (Option.some.inj hloads).symm
    have hsymbols : s'.symbols = s.symbols := congrArg symbols hsame
    exact h.comesFrom halone haccounted (hsymbols ▸ .refl _) hnew (by rw [hsymbols])
      fun hne => absurd (by rw [hsymbols, hglobals]) hne
  · obtain ⟨f, htable, hname, hparams, hresult, hcode⟩ := s.loads_spec h.scripted hglobals hloads
    refine h.comesFrom halone haccounted (htable ▸ .withFunction _ f) hnew (by rw [htable]; rfl)
      fun _ => ⟨s.symbols, f, htable, h.scripted, h.initialized, hname, hparams, ?_, hcode⟩
    intro g hg
    rw [hresult, loaderResult, hg]

end EmitState

/-- A full pass over a script that adds no error leaves a program that is made of the declarations of
the script and of all that it includes. -/
theorem Emit.root_comesFrom {loader : Loader} {i : Instance} {r : Registry} {symbols : Symbols}
    {source : Bytes} {s' : EmitState} (hi : i.Roomy) (hblank : i.Blank)
    (hscripted : symbols.Scripted) (hbodies : ∀ id, symbols.body? id = none)
    (hglobals : symbols.globals = []) (hsource : i.source.bytes? = some source)
    (h : root scriptFrontEnd loader .full (.start i [] r symbols) = .ok () s')
    (herrors : s'.current.errors = i.errors) :
    s'.symbols.ComesFrom s'.current.records
      (Expanded.allDeclarations (Expanded.ofRoot scriptFrontEnd loader r i.name source)) := by
  have hready : (EmitState.start i [] r symbols).Ready := ⟨hi, hscripted.toNumbered⟩
  obtain ⟨source', t, hsource', -, hacts, hloads⟩ := (outermost_eq_ok_iff hready).mp h
  obtain rfl := Option.some.inj (hsource.symm.trans hsource')
  have hproper : ∀ a ∈ Expanded.allActs ⟨i.name, Bytes.toText source⟩
      (Expanded.ofRoot scriptFrontEnd loader r i.name source),
      ∀ decl, a.declaration? = some decl → decl.Proper := by
    intro a ha decl hdecl
    obtain ⟨u, rfl⟩ := Act.eq_declaration hdecl
    obtain ⟨unit, text, hmem⟩ := Expanded.declaration_mem_allActs_ofUnit _ _ _ _ _ ha
    exact Event.ofSource_proper text _ hmem decl rfl
  have hclean : t.current.errors = (EmitState.start i [] r symbols).current.errors := by
    have hle := EmitState.errors_le_performAll hacts
    have hle' := t.errors_le_concluded
    rw [← EmitState.errors_loads hloads, herrors] at hle'
    exact Nat.le_antisymm hle' hle
  obtain ⟨log, hsourced⟩ := (EmitState.Sourced.start hscripted hbodies hglobals hblank).performAll
    hready hproper hacts hclean
  rw [List.nil_append, Expanded.declaration?_allActs] at hsourced
  exact hsourced.concluded.loads (hready.performAll hacts).concluded hloads

end Nss
