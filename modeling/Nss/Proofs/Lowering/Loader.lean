/-
# The loader of the global variables

The first value of a global variable is checked where the variable is declared: its declaration is
lowered with cells for the variables before it on the stack, and what comes of it is thrown away.  The
loader lowers all declarations again, one after the other, when everything is known.  They are the
same declarations with the same variables in sight, so that the loader of variables that were all
checked without a diagnostic is

    c            the declarations, lowered by the rules         `Symbols.Initialized`
    SAVEBP       from here on the variables are global
    ...          calls the entry point, passes its result on    `Symbols.entryCode`
    RESTOREBP
    MOVSP, RETN  takes the variables and ends

That a table is initialized is kept by every declaration: functions may be added
(`Initialized.mono`), and variables that are checked without a diagnostic (`Initialized.concat`).
-/
import Nss.Proofs.Lowering.Complete

namespace Nss

open Steps

/-- A global variable as a variable in sight. -/
def GlobalSymbol.param (g : GlobalSymbol) : Param := ⟨g.type, g.name⟩

/-- The declarations of global variables as statements. -/
def GlobalSymbol.declarations (gs : List GlobalSymbol) : List Stmt := gs.map fun g => .var g.decl

/-- Global variables as variables in sight, the last one first. -/
def GlobalSymbol.vars (gs : List GlobalSymbol) : List Param := (gs.map param).reverse

theorem GlobalSymbol.vars_concat (gs : List GlobalSymbol) (g : GlobalSymbol) :
    vars (gs ++ [g]) = g.param :: vars gs := by
  rw [vars, List.map_append, List.reverse_append]
  rfl

/-- The global variables have different names, and their declarations follow the rules, each one with
the variables before it in sight. -/
structure Symbols.Initialized (s : Symbols) : Prop where
  names : (s.globals.map GlobalSymbol.name).Nodup
  emits : ∃ c, Stmt.AllEmit (.ofLoader s .void) ⟨0, 0, []⟩ (GlobalSymbol.declarations s.globals) c []
    (GlobalSymbol.vars s.globals)

theorem Symbols.initialized_empty {s : Symbols} (h : s.globals = []) : s.Initialized := by
  refine ⟨?_, [], ?_⟩
  · rw [h]
    exact .nil
  · rw [h]
    exact .nil

/-! ## Declarations one after the other -/

namespace Stmt

variable {Γ Γ' : LoweringContext}

/-- One more statement. -/
theorem AllEmit.concat {s : Stmt} {c' : List Instruction} {ls' : List Nat} {vs' : List Param}
    {ss : List Stmt} {p : Site} {c : List Instruction} {ls : List Nat} {vs : List Param}
    (h : Stmt.AllEmit Γ p ss c ls vs)
    (h' : Stmt.Emits Γ { p.after c ls.length with vars := vs ++ p.vars } s c' ls' vs') :
    Stmt.AllEmit Γ p (ss ++ [s]) (c ++ c') (ls ++ ls') (vs' ++ vs) := by
  induction ss generalizing p c ls vs with
  | nil =>
      cases h with
      | nil =>
          have hlast : Stmt.AllEmit Γ p [s] (c' ++ []) (ls' ++ []) ([] ++ vs') := .cons h' .nil
          rw [List.append_nil, List.append_nil] at hlast
          rw [List.append_nil]
          exact hlast
  | cons first rest ih =>
      cases h with
      | cons hs hrest =>
          rw [List.append_assoc, List.append_assoc, ← List.append_assoc vs']
          refine .cons hs (ih hrest ?_)
          simpa [Site.after, Nat.add_assoc] using h'

/-- The declaration of a variable does not depend on where it stands, nor, if no global variables are
in sight, on the functions that it does not call. -/
theorem Emits.var_mono {p p' : Site} {decl : VarDecl} {c : List Instruction} {ls : List Nat}
    {vs : List Param} (hhidden : Γ.globalsVisible = false)
    (hcovered : Γ.symbols.Covered Γ'.symbols) (hvars : p'.vars = p.vars)
    (h : Stmt.Emits Γ p (.var decl) c ls vs) : Stmt.Emits Γ' p' (.var decl) c ls vs := by
  cases h with
  | var hinit => exact .var hinit
  | varInit hinit he => exact .varInit hinit (hvars ▸ he.mono hhidden hcovered)

/-- The same for the declarations of variables one after the other. -/
theorem AllEmit.mono (hhidden : Γ.globalsVisible = false)
    (hcovered : Γ.symbols.Covered Γ'.symbols) :
    ∀ {gs : List GlobalSymbol} {p : Site} {c : List Instruction} {ls : List Nat}
      {vs : List Param}, Stmt.AllEmit Γ p (GlobalSymbol.declarations gs) c ls vs →
      Stmt.AllEmit Γ' p (GlobalSymbol.declarations gs) c ls vs
  | [], _, _, _, _, .nil => .nil
  | _ :: _, _, _, _, _, .cons hs hrest =>
      .cons (hs.var_mono hhidden hcovered rfl) (hrest.mono hhidden hcovered)

/-- A declaration makes one variable and no label. -/
theorem Emits.var_eq {p : Site} {decl : VarDecl} {c : List Instruction} {ls : List Nat}
    {vs : List Param} (h : Stmt.Emits Γ p (.var decl) c ls vs) :
    ls = [] ∧ vs = [⟨decl.type, decl.name⟩] := by
  cases h with
  | var | varInit => exact ⟨rfl, rfl⟩

end Stmt

namespace Symbols.Initialized

variable {s s' : Symbols}

/-- More functions may be known. -/
theorem mono (h : s.Initialized) (hglobals : s'.globals = s.globals) (hcovered : s.Covered s') :
    s'.Initialized := by
  obtain ⟨hnames, c, hc⟩ := h
  refine ⟨hglobals ▸ hnames, c, ?_⟩
  rw [hglobals]
  exact hc.mono rfl hcovered

/-- One more variable may be there, if its name is new and its declaration follows the rules. -/
theorem concat (h : s.Initialized) {g : GlobalSymbol} (hglobals : s'.globals = s.globals ++ [g])
    (hcovered : s.Covered s') (hname : ∀ v ∈ s.globals, v.name ≠ g.name) {p : Site}
    (hp : p.vars = GlobalSymbol.vars s.globals) {c : List Instruction} {ls : List Nat}
    {vs : List Param} (hg : Stmt.Emits (.ofLoader s' .void) p (.var g.decl) c ls vs) :
    s'.Initialized := by
  obtain ⟨hnames, d, hd⟩ := h
  obtain ⟨rfl, rfl⟩ := hg.var_eq
  refine ⟨?_, d ++ c, ?_⟩
  · rw [hglobals, List.map_append, List.nodup_append]
    refine ⟨hnames, List.nodup_cons.mpr ⟨List.not_mem_nil, List.nodup_nil⟩, ?_⟩
    intro name hmem name' hmem'
    obtain ⟨v, hv, rfl⟩ := List.mem_map.mp hmem
    rw [List.mem_singleton.mp hmem']
    exact hname v hv
  · rw [hglobals, GlobalSymbol.vars_concat, GlobalSymbol.declarations, List.map_append]
    have hbefore : Stmt.AllEmit (.ofLoader s' .void) ⟨0, 0, []⟩
        (GlobalSymbol.declarations s.globals) d [] (GlobalSymbol.vars s.globals) :=
      hd.mono rfl hcovered
    exact hbefore.concat (hg.var_mono rfl (Covered.refl s') (by rw [hp]; exact List.append_nil _))

end Symbols.Initialized

/-! ## Checking one variable -/

namespace Lowering

open Lower

variable {Γ : LoweringContext} {symbols : Symbols}

theorem assumeGlobals_moves {R : Frame → Frame → Prop} (hR : Lower.Growth Γ.symbols R) :
    ∀ gs : List GlobalSymbol, Lower.Stays R (assumeGlobals gs)
  | [] => hR.moves_pure ()
  | g :: rest => by
      refine hR.moves_bind (hR.moves_declare g.name g.type) fun _ => ?_
      refine hR.moves_bind (hR.moves_setDepth fun f => f.depth + 1) fun _ => ?_
      exact assumeGlobals_moves hR rest

/-- What is wrong with the first value of a global variable are errors. -/
theorem checkGlobal_isError (hs : symbols.NonVoid) (slot : Nat) :
    ∀ d ∈ checkGlobal slot symbols, d.isError = true := by
  have hR : Lower.Growth symbols Frame.KeepsErrors := (Frame.branching_keepsErrors symbols).toGrowth
  refine hR.after (p := _) ?_ Frame.start (List.forall_mem_nil _)
  refine hR.moves_bind (Γ := .ofLoader symbols .void)
    (assumeGlobals_moves (Γ := .ofLoader symbols .void) hR _) fun _ => ?_
  cases hg : symbols.globals[slot]? with
  | none => exact hR.moves_pure (Γ := .ofLoader symbols .void) ()
  | some g =>
      have hdecl := hs.globals g (List.mem_of_getElem? hg)
      refine hR.moves_settle (Γ := .ofLoader symbols .void) ?_
      simp only [Stmt.lower]
      exact Stmt.lowerVar_moves (Γ := .ofLoader symbols .void) hR hdecl

/-- Global variables that are assumed are in sight. -/
theorem assumeGlobals_shows : ∀ (gs : List GlobalSymbol) {f : Frame} {vars : List Param},
    f.Shows Γ vars 0 → ∃ g, assumeGlobals gs f = .ok () g ∧
      g.Shows Γ (GlobalSymbol.vars gs ++ vars) 0
  | [], f, _, hf => ⟨f, rfl, hf⟩
  | g :: rest, f, vars, hf => by
      have hassumed : Frame.Shows Γ { f with
          scope := { name := g.name, type := g.type, position := f.depth } :: f.scope
          depth := f.depth + 1 } (g.param :: vars) 0 :=
        (hf.declared g.decl).congr rfl rfl
      obtain ⟨h, hrest, hshows⟩ := assumeGlobals_shows rest hassumed
      refine ⟨h, hrest, ?_⟩
      rwa [GlobalSymbol.vars, List.map_cons, List.reverse_cons, List.append_assoc]

/-- At the beginning nothing is in sight. -/
theorem start_shows_nil (hparams : Γ.params = []) : Frame.start.Shows Γ [] 0 := by
  have hnone : Frame.start.variables Γ = [] := by
    rw [Frame.variables, hparams]
    rfl
  refine ⟨?_, ?_, ?_⟩
  · rw [hnone]
    rfl
  · rw [hparams]
    rfl
  · intro i v hv
    rw [hnone] at hv
    cases hv

/-- The declaration of a variable that is checked without a diagnostic follows the rules. -/
theorem checkGlobal_emits (hs : symbols.NonVoid) {slot : Nat} {g : GlobalSymbol}
    (hg : symbols.globals[slot]? = some g) (h : checkGlobal slot symbols = []) :
    ∃ p c ls vs, p.vars = GlobalSymbol.vars (symbols.globals.take slot) ∧
      Stmt.Emits (.ofLoader symbols .void) p (.var g.decl) c ls vs := by
  obtain ⟨f, hassume, hf⟩ := assumeGlobals_shows (symbols.globals.take slot)
    (start_shows_nil (Γ := .ofLoader symbols .void) rfl)
  rw [List.append_nil] at hf
  have hsettle (k : Frame) (hk : settle (Stmt.lower (.ofLoader symbols .void) (.var g.decl)) f
      = .ok () k) : k.diagnostics = [] := by
    rw [checkGlobal, hg] at h
    dsimp only at h
    rw [Frame.after, bind_apply, hassume] at h
    dsimp only at h
    rw [hk] at h
    exact h
  obtain ⟨k, hk⟩ : ∃ k, settle (Stmt.lower (.ofLoader symbols .void) (.var g.decl)) f
      = .ok () k := by
    rw [settle]
    split
    · exact ⟨_, rfl⟩
    · exact ⟨_, rfl⟩
  have hlower := eq_ok_of_settle hk (hsettle k hk)
  rw [Stmt.lower] at hlower
  have hvars : ∀ v ∈ GlobalSymbol.vars (symbols.globals.take slot), v.type ≠ .void := by
    intro v hv
    obtain ⟨w, hw, rfl⟩ := List.mem_map.mp (List.mem_reverse.mp hv)
    exact hs.globals w (List.mem_of_mem_take hw)
  obtain ⟨c, hc, -⟩ := Stmt.lowerVar_emits ⟨hs, hvars⟩
    (hs.globals g (List.mem_of_getElem? hg)) hlower hf (hsettle k hk)
  exact ⟨_, c, [], _, rfl, hc⟩

/-! ## Loading all of them -/

/-- The declarations of global variables that follow the rules are lowered without failure. -/
theorem exists_loadGlobals (hparams : Γ.params = []) :
    ∀ (gs : List GlobalSymbol) {f : Frame} {vars : List Param} {p : Site} {c : List Instruction}
      {ls : List Nat} {vs : List Param},
      Γ.NonVoid vars → (∀ g ∈ gs, g.type ≠ .void) →
      (gs.map GlobalSymbol.name).Nodup → (∀ g ∈ gs, ∀ v ∈ vars, v.name ≠ g.name) →
      p.vars = vars → Stmt.AllEmit Γ p (GlobalSymbol.declarations gs) c ls vs →
      f.Shows Γ vars 0 → f.enclosing = [] → f.diagnostics = [] →
      ∃ g, loadGlobals Γ gs f = .ok () g ∧ f.Adds Γ vars g c [] (GlobalSymbol.vars gs) ∧
        g.diagnostics = []
  | [], f, vars, p, _, _, _, _, _, _, _, _, .nil, hf, _, hclean =>
      ⟨f, rfl, ⟨⟨_, .refl f⟩, hf, List.forall_mem_nil _, hclean⟩, hclean⟩
  | g :: rest, f, vars, p, _, _, _, hΓ, hvoid, hnames, hnew, hp,
      .cons hg hrest, hf, hinner, hclean => by
      obtain ⟨hg₀, hrest₀⟩ := List.forall_mem_cons.mp hvoid
      obtain ⟨hfirst, hnames⟩ := List.nodup_cons.mp hnames
      obtain ⟨hnewg, hnewrest⟩ := List.forall_mem_cons.mp hnew
      have hscope : ∀ v ∈ f.scope, v.name ≠ g.decl.name := by
        intro v hv
        refine hnewg v.param ?_
        rw [← hf.same]
        refine List.mem_map_of_mem (List.mem_append_left _ ?_)
        exact List.mem_flatten.mpr ⟨f.scope, List.mem_cons_self, hv⟩
      obtain ⟨-, rfl⟩ := hg.var_eq
      obtain ⟨h, hlower, hh, hcleanh⟩ := hg.exists_lowerVar hΓ hg₀ hp hf hclean hscope
      have hsettle : settle (Stmt.lower Γ (.var g.decl)) f = .ok () h := by
        rw [settle, Stmt.lower, hlower]
      have hinnerh : h.enclosing = [] := by
        obtain ⟨new, hextends⟩ := hh.extend
        exact hextends.enclosing.trans hinner
      have hapart : ∀ w ∈ rest, ∀ v ∈ [g.param] ++ vars, v.name ≠ w.name := by
        intro w hw v hv
        rcases List.mem_append.mp hv with hv | hv
        · rw [List.mem_singleton.mp hv]
          intro heq
          exact hfirst (List.mem_map.mpr ⟨w, hw, heq.symm⟩)
        · exact hnewrest w hw v hv
      obtain ⟨k, hload, hk, hcleank⟩ := exists_loadGlobals hparams rest (hΓ.append hh.nonVoid)
        hrest₀ hnames hapart (by rw [hp]) hrest hh.shows hinnerh hcleanh
      refine ⟨k, bind_eq_ok.mpr ⟨(), h, hsettle, hload⟩, ?_, hcleank⟩
      have hall := hh.trans hk
      rwa [GlobalSymbol.vars, List.map_cons, List.reverse_cons]

end Lowering

/-! ## The loader -/

/-- The instructions that call the entry point from the loader, and copy its result to the cell below
the global variables. -/
def Symbols.entryCode (s : Symbols) (entry : FunctionSymbol) : List Instruction :=
  reserveCode entry.result ++ [.callTo entry.id] ++
    if entry.result.isVoid then []
    else [.storeCell (Spot.fromTop 1 (s.globals.length + 1)), .pop 1]

namespace Lowering

open Lower

/-- The call of the entry point, from any frame. -/
theorem exists_callEntry (Γ : LoweringContext) (entry : FunctionSymbol) (f : Frame) :
    ∃ g, callEntry Γ entry f = .ok () g ∧
      g.code.toList = f.code.toList ++ (reserveCode entry.result ++ [.callTo entry.id]
        ++ if entry.result.isVoid then []
          else [.storeCell (Γ.resultPosition - (f.depth + 1 : Nat)), .pop 1]) := by
  rw [callEntry, reserveCode]
  cases entry.result.isVoid with
  | true => exact ⟨_, rfl, by simp⟩
  | false =>
      let g := (f.emitted (.reserve entry.result) (f.depth + 1)).emitted (.callTo entry.id)
        (f.depth + 1)
      refine ⟨(g.emitted (.storeCell (Γ.resultPosition - (f.depth + 1 : Nat))) (f.depth + 1)).popped
        1, rfl, ?_⟩
      simp [Frame.popped, Frame.emitted, g]

/-- What the loader ends with, from any frame. -/
theorem exists_loaderEnd (n : Nat) (f : Frame) :
    ∃ g, (do emitTake 1 (.simple .restoreBp)
             if 0 < n then emit (.pop n)
             emit .ending : Lower Unit) f = .ok () g ∧
      g.code.toList = f.code.toList ++ ([.simple .restoreBp] ++ popCode n ++ [.ending]) := by
  rw [popCode]
  by_cases hn : 0 < n
  · simp only [hn, if_true]
    exact ⟨_, rfl, by simp⟩
  · simp only [hn, if_false]
    exact ⟨_, rfl, by simp⟩

/-- The loader of variables that were all checked without a diagnostic: it gives them their first
values by the rules, and calls the entry point once the base pointer is saved. -/
theorem ofGlobals_emits {symbols : Symbols} {entry : FunctionSymbol} (hs : symbols.NonVoid)
    (h : symbols.Initialized) :
    ∃ c, Stmt.AllEmit (.ofLoader symbols .void) ⟨0, 0, []⟩
        (GlobalSymbol.declarations symbols.globals) c [] (GlobalSymbol.vars symbols.globals) ∧
      (ofGlobals symbols (some entry)).code.toList = c ++ [.simple .saveBp]
        ++ symbols.entryCode entry ++ [.simple .restoreBp]
        ++ popCode symbols.globals.length ++ [.ending] := by
  obtain ⟨hnames, c, hc⟩ := h
  refine ⟨c, hc, ?_⟩
  have hmono : Stmt.AllEmit (.ofLoader symbols entry.result) ⟨0, 0, []⟩
      (GlobalSymbol.declarations symbols.globals) c [] (GlobalSymbol.vars symbols.globals) :=
    hc.mono rfl (Symbols.Covered.refl symbols)
  obtain ⟨f, hload, hf, -⟩ := exists_loadGlobals (Γ := .ofLoader symbols entry.result) rfl
    symbols.globals ⟨hs, List.forall_mem_nil _⟩ hs.globals hnames
    (fun _ _ => List.forall_mem_nil _) rfl hmono (start_shows_nil rfl) rfl rfl
  obtain ⟨new, hextends⟩ := hf.extend
  have hcode : f.code.toList = c := hextends.code
  have hdepth : f.depth = symbols.globals.length := by
    have := hf.shows.depth
    simpa [GlobalSymbol.vars, LoweringContext.ofLoader] using this
  obtain ⟨g, hcall, hg⟩ := exists_callEntry (.ofLoader symbols entry.result) entry
    (f.emitted (.simple .saveBp) (f.depth + 1))
  obtain ⟨h, hend, hh⟩ := exists_loaderEnd symbols.globals.length g
  have hbody : loaderBody (.ofLoader symbols entry.result) (some entry) Frame.start = .ok () h :=
    bind_eq_ok.mpr ⟨(), f, hload, bind_eq_ok.mpr ⟨(), _, rfl, bind_eq_ok.mpr ⟨(), g, hcall, hend⟩⟩⟩
  have hposition : LoweringContext.resultPosition (.ofLoader symbols entry.result)
      - (((f.emitted (.simple .saveBp) (f.depth + 1)).depth + 1 : Nat) : Int)
        = Spot.fromTop 1 (symbols.globals.length + 1) := by
    show -((0 : Nat) : Int) - 1 - ((f.depth + 1 + 1 : Nat) : Int) = _
    rw [hdepth, Spot.fromTop]
    omega
  rw [ofGlobals, ofFrame, Frame.after, hbody]
  rw [hposition] at hg
  rw [hh, hg, Symbols.entryCode, ← hcode]
  simp [Frame.emitted]

end Lowering

end Nss
