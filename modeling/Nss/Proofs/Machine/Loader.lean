/-
# Loaders run

The machine of functions knows the global variables as a store of their own.  In a loader they are
cells of its stack until SAVEBP; from then on that store is what the base pointer leads to, each
variable by the offset that is encoded for it (`Machine.based`).  SAVEBP pushes one more cell, which
keeps the base pointer of the caller, and RESTOREBP takes it.

    declarations     leave the values of the variables, the last one on top    `declarations_run`
    SAVEBP           makes them global variables                               `lookup?_based`
    entry point      runs on them; its result goes into the cell below         `runs_entryCode`
    RETN             finds that cell, and nothing else
-/
import Nss.Proofs.Machine.Simulation
import Nss.Proofs.Verifier.Loader

namespace Nss

variable {Cell : Type}

namespace Machine

variable (I : Interpretation Cell) (symbols : Symbols)

/-- The global variables that a base pointer to the top of a stack leads to, by the offsets that are
encoded for them. -/
def based (n : Nat) (stack : List Cell) (g : Globals Cell) : Globals Cell := fun slot =>
  let offset := Program.globalOffset n slot
  (((Operand.stack offset (UInt16.ofNat cellSize)).cell?).bind fun k => stack[k]?).getD (g slot)

/-- One step in the code of a loader.  The cell `bp` keeps the base pointer of the caller. -/
def stepLoader (bp : Cell) (R : Routine) (s : State Cell) : Option (State Cell) :=
  R.code[s.pc]?.bind fun i =>
    match i.op, s.stack with
    | .saveBp, stack =>
      some { s.next (bp :: stack) with globals := based symbols.globals.length stack s.globals }
    | .restoreBp, _ :: rest => some (s.next rest)
    | _, _ => execute I symbols R.labels i s

/-- Any number of steps in the code of a loader. -/
def LoaderRuns (bp : Cell) (R : Routine) : State Cell → State Cell → Prop :=
  Relation.ReflTransGen fun s s' => stepLoader I symbols bp R s = some s'

variable {I symbols} {R : Routine} {bp : Cell}

/-- A loader does what a function does. -/
theorem stepLoader_of_step {s s' : State Cell} (h : step I symbols R s = some s') :
    stepLoader I symbols bp R s = some s' := by
  obtain ⟨i, hi, hexec⟩ := Option.bind_eq_some_iff.mp h
  rw [stepLoader, hi, Option.bind_some]
  rcases i with ⟨op, x⟩
  cases op with
  | saveBp | restoreBp => cases x <;> cases hexec
  | _ => exact hexec

theorem LoaderRuns.of_runs {s s' : State Cell} (h : Runs I symbols R s s') :
    LoaderRuns I symbols bp R s s' :=
  Relation.ReflTransGen.mono (fun _ _ => stepLoader_of_step) _ _ h

/-! ## Global variables as cells -/

/-- The offset that is encoded for a global variable addresses its cell. -/
theorem cell?_globalOffset {n slot : Nat} (hslot : slot < n) (hrep : Representable n) :
    (Operand.stack (Program.globalOffset n slot) (UInt16.ofNat cellSize)).cell?
      = some (n - 1 - slot) := by
  have hfrom : ((slot : Int) - n) = Spot.fromTop 0 (n - 1 - slot) := by
    rw [Spot.fromTop]
    omega
  rw [Program.globalOffset, hfrom, Operand.cell?_fromTop (Nat.le_of_lt (hrep.mono (by omega))),
    Nat.zero_add]

/-- A base pointer to the top of the variables leads to each of them. -/
theorem based_eq {n slot : Nat} {stack : List Cell} {x : Cell} {g : Globals Cell} (hslot : slot < n)
    (hrep : Representable n) (hx : stack[n - 1 - slot]? = some x) : based n stack g slot = x := by
  simp only [based, cell?_globalOffset hslot hrep, Option.bind_some, hx, Option.getD_some]

/-! ## The steps of a loader -/

variable {g : Globals Cell} {pc : Nat} {stack : List Cell}

theorem LoaderRuns.trans {s t u : State Cell} (h₁ : LoaderRuns I symbols bp R s t)
    (h₂ : LoaderRuns I symbols bp R t u) : LoaderRuns I symbols bp R s u :=
  Relation.ReflTransGen.trans h₁ h₂

/-- SAVEBP makes global variables of the cells on top. -/
theorem runs_saveBp (hi : R.code[pc]? = some (.simple .saveBp)) :
    LoaderRuns I symbols bp R ⟨pc, stack, g⟩
      ⟨pc + 1, bp :: stack, based symbols.globals.length stack g⟩ := by
  refine Relation.ReflTransGen.single ?_
  rw [stepLoader, hi]
  rfl

/-- RESTOREBP takes the cell above them. -/
theorem runs_restoreBp {x : Cell} (hi : R.code[pc]? = some (.simple .restoreBp)) :
    LoaderRuns I symbols bp R ⟨pc, x :: stack, g⟩ ⟨pc + 1, stack, g⟩ := by
  refine Relation.ReflTransGen.single ?_
  rw [stepLoader, hi]
  rfl

/-! ## Calls -/

/-- A call without arguments leaves as many cells as there were. -/
theorem length_of_call? {f : FunctionSymbol} (hf : symbols.function? f.id = some f)
    (hparams : f.params = []) {front front' : List Cell} {g' : Globals Cell}
    (h : call? I symbols f.id front g = some (front', g')) : front'.length = front.length := by
  simp only [call?, hf, hparams, List.length_nil, Nat.not_lt_zero, if_false, List.drop_zero] at h
  split at h
  · obtain ⟨_, -, heq⟩ := Option.map_eq_some_iff.mp h
    rw [← (Prod.mk.inj heq).1]
  · obtain ⟨_, -, heq⟩ := Option.map_eq_some_iff.mp h
    rw [← (Prod.mk.inj heq).1]
    rfl
  · cases h

/-- The entry point is called on a cell for its result.  The cell that lies below some others is then
its result. -/
theorem runs_entryCode {s : Symbols} {entry : FunctionSymbol}
    (hentry : symbols.function? entry.id = some entry) (hparams : entry.params = [])
    {above below res rest : List Cell} {g' : Globals Cell}
    (hc : SliceAt R.code pc (s.entryCode entry)) (habove : above.length = s.globals.length + 1)
    (hbelow : below.length = entry.result.width)
    (hrep : Representable (above.length + 2 * entry.result.width))
    (hcall : call? I symbols entry.id (entry.result.cells.map I.initial) g = some (res, g')) :
    Runs I symbols R ⟨pc, above ++ (below ++ rest), g⟩
      ⟨pc + (s.entryCode entry).length, above ++ (res ++ rest), g'⟩ := by
  have hlen := length_of_call? hentry hparams hcall
  rw [Symbols.entryCode, reserveCode] at hc ⊢
  by_cases hvoid : entry.result = .void
  · rw [hvoid] at hbelow
    rw [hvoid] at hlen hcall hc ⊢
    obtain rfl := List.eq_nil_of_length_eq_zero hbelow
    obtain rfl := List.eq_nil_of_length_eq_zero hlen
    exact runs_call hc.head hcall _
  · have hisVoid := mt ValueType.isVoid_iff.mp hvoid
    rw [ValueType.width_of_ne_void hvoid] at hbelow hrep
    rw [ValueType.cells_of_ne_void hvoid] at hlen hcall
    obtain ⟨cell, rfl⟩ := List.length_eq_one_iff.mp hbelow
    obtain ⟨x, rfl⟩ := List.length_eq_one_iff.mp hlen
    rw [if_neg hisVoid, if_neg hisVoid] at hc ⊢
    have hreserve : Runs I symbols R ⟨pc, above ++ ([cell] ++ rest), g⟩
        ⟨pc + 1, I.initial entry.result :: (above ++ ([cell] ++ rest)), g⟩ :=
      runs_reserve hc.left.left.head
    have hrun : Runs I symbols R ⟨pc + 1, I.initial entry.result :: (above ++ ([cell] ++ rest)), g⟩
        ⟨pc + 2, x :: (above ++ ([cell] ++ rest)), g'⟩ :=
      runs_call hc.left.right.head hcall _
    have hstore : Runs I symbols R ⟨pc + 2, x :: (above ++ ([cell] ++ rest)), g'⟩
        ⟨pc + 3, x :: (above ++ ([x] ++ rest)), g'⟩ := by
      refine (runs_store hc.right.head (Nat.le_of_lt (hrep.mono (by omega))) ?_).cast rfl ?_
      · rw [List.length_cons, List.length_append, habove]
        simp
        omega
      · rw [← habove, Nat.add_comm, List.set_cons_succ, List.set_append_right _ _ (Nat.le_refl _),
          Nat.sub_self]
        rfl
    exact ((hreserve.trans hrun).trans hstore).trans
      (runs_pop hc.right.tail.head (by decide) (Nat.le_add_left 1 _))

/-- From SAVEBP on, the entry point is called with the variables in the cells on top, and in the end
its result is all that is left of the loader. -/
theorem runs_behindValues {s : Symbols} {entry : FunctionSymbol}
    (hentry : symbols.function? entry.id = some entry) (hparams : entry.params = [])
    {values below res rest : List Cell} {g' : Globals Cell}
    (hc : SliceAt R.code pc (.simple .saveBp :: (s.entryCode entry ++ [.simple .restoreBp]
      ++ popCode values.length ++ [.ending])))
    (hvalues : values.length = s.globals.length) (hbelow : below.length = entry.result.width)
    (hrep : Representable (values.length + 1 + 2 * entry.result.width))
    (hcall : call? I symbols entry.id (entry.result.cells.map I.initial)
      (based symbols.globals.length (values ++ (below ++ rest)) g) = some (res, g')) :
    ∃ last, R.code[last]? = some .ending ∧
      LoaderRuns I symbols bp R ⟨pc, values ++ (below ++ rest), g⟩ ⟨last, res ++ rest, g'⟩ := by
  have hbehind := hc.tail
  have hsave : LoaderRuns I symbols bp R ⟨pc, values ++ (below ++ rest), g⟩
      ⟨pc + 1, bp :: values ++ (below ++ rest),
        based symbols.globals.length (values ++ (below ++ rest)) g⟩ :=
    runs_saveBp hc.head
  have hcalled : Runs I symbols R
      ⟨pc + 1, bp :: values ++ (below ++ rest),
        based symbols.globals.length (values ++ (below ++ rest)) g⟩
      ⟨pc + 1 + (s.entryCode entry).length, bp :: values ++ (res ++ rest), g'⟩ :=
    runs_entryCode hentry hparams hbehind.left.left.left (congrArg (· + 1) hvalues) hbelow hrep
      hcall
  have hrestore : LoaderRuns I symbols bp R
      ⟨pc + 1 + (s.entryCode entry).length, bp :: values ++ (res ++ rest), g'⟩
      ⟨pc + 1 + (s.entryCode entry).length + 1, values ++ (res ++ rest), g'⟩ :=
    runs_restoreBp hbehind.left.left.right.head
  have hpop : Runs I symbols R
      ⟨pc + 1 + (s.entryCode entry).length + 1, values ++ (res ++ rest), g'⟩
      ⟨pc + 1 + (s.entryCode entry).length + 1 + (popCode values.length).length,
        res ++ rest, g'⟩ := by
    refine runs_popCode ?_ (Nat.le_of_lt (hrep.mono (by omega)))
    have htake := hbehind.left.right
    rwa [List.length_append, ← Nat.add_assoc, List.length_singleton] at htake
  refine ⟨_, ?_, ((hsave.trans (.of_runs hcalled)).trans hrestore).trans (.of_runs hpop)⟩
  have hend := hbehind.last
  rwa [List.length_append, List.length_append, ← Nat.add_assoc, ← Nat.add_assoc,
    List.length_singleton] at hend

/-! ## The declarations -/

/-- The declarations of global variables leave their values on the stack. -/
theorem declarations_run {Γ : LoweringContext} (hs : Γ.symbols.Numbered) (base : List Cell) :
    ∀ (n : Nat) (gs : List GlobalSymbol) {p : Site} {c : List Instruction} {ls : List Nat}
      {vs : List Param} {env env' : Env Cell} {g g' : Globals Cell},
      Stmt.AllEmit Γ p (GlobalSymbol.declarations gs) c ls vs → env.At Γ p →
      (∀ g ∈ gs, g.type ≠ .void) → SliceAt R.code p.next c →
      Representable (p.vars.length + Stmt.allHeight Γ.symbols (GlobalSymbol.declarations gs)) →
      Stmt.execAll I Γ.symbols n (GlobalSymbol.declarations gs) env g = some (.normal env' g') →
      env'.map Prod.fst = vs ++ p.vars ∧
        Runs I Γ.symbols R ⟨p.next, env.cells ++ base, g⟩
          ⟨p.next + c.length, env'.cells ++ base, g'⟩
  | 0, gs, _, _, _, _, _, _, _, _, _, _, _, _, _, h => by
      rw [Stmt.execAll] at h
      cases h
  | n + 1, [], p, _, _, _, env, env', g, g', .nil, henv, _, _, _, h => by
      rw [GlobalSymbol.declarations, List.map_nil, Stmt.execAll] at h
      obtain ⟨rfl, rfl⟩ := Ending.normal.inj (Option.some.inj h)
      exact ⟨henv.vars.symm, .refl _⟩
  | n + 1, v :: rest, p, _, _, _, env, env', g, g',
      @Stmt.AllEmit.cons _ _ _ _ c c' ls ls' vs vs' hfirst hrest, henv, hvoid, hc, hrep, h => by
      obtain ⟨hv, hvoid⟩ := List.forall_mem_cons.mp hvoid
      rw [GlobalSymbol.declarations, List.map_cons] at h hrep
      rw [Stmt.execAll] at h
      rw [Stmt.allHeight] at hrep
      obtain ⟨ending, hexec, h⟩ := Option.bind_eq_some_iff.mp h
      cases n with
      | zero =>
          rw [Stmt.exec] at hexec
          cases hexec
      | succ n =>
          rw [Stmt.exec] at hexec
          have hreached : ending.Reached I Γ R [] base p c vs 0
              ⟨p.next, env.cells ++ ([] ++ base), g⟩ :=
            Stmt.execVar_runs hs hv henv hfirst hc.left (hrep.mono (by omega)) hexec
          obtain ⟨env₁, g₁, rfl⟩ : ∃ env₁ g₁, ending = .normal env₁ g₁ := by
            rcases Stmt.execVar_eq_some hexec with ⟨-, rfl⟩ | ⟨_, _, _, -, -, rfl⟩
            · exact ⟨_, _, rfl⟩
            · exact ⟨_, _, rfl⟩
          obtain ⟨hvars, hruns⟩ := hreached
          have henv₁ : env₁.At Γ { p.after c ls.length with vars := vs ++ p.vars } :=
            ⟨hvars.symm, henv.nonVoid.append (hfirst.nonVoid hv),
              Nat.le_trans henv.params (by rw [List.length_append]; omega)⟩
          have hheight : (vs ++ p.vars).length
                + Stmt.allHeight Γ.symbols (rest.map fun v => .var v.decl)
              ≤ p.vars.length + ((Stmt.var v.decl).declared.length
                + Stmt.allHeight Γ.symbols (rest.map fun v => .var v.decl)) := by
            rw [hfirst.var_eq.2, List.length_append]
            show 1 + p.vars.length + _ ≤ p.vars.length + (1 + _)
            omega
          obtain ⟨hvars', hruns'⟩ := declarations_run hs base (n + 1) rest hrest henv₁ hvoid
            hc.right (hrep.mono (Nat.le_trans hheight (by omega))) h
          refine ⟨hvars'.trans (List.append_assoc ..).symm, (hruns.trans hruns').cast ?_ rfl⟩
          rw [List.length_append, ← Nat.add_assoc]
          rfl

end Machine

/-! ## The whole loader -/

/-- A variable by its place, if the names are different: the last variable comes first. -/
theorem Env.lookup?_vars {gs : List GlobalSymbol} (hnames : (gs.map GlobalSymbol.name).Nodup)
    {env : Env Cell} (henv : env.map Prod.fst = GlobalSymbol.vars gs) {slot : Nat} {v : GlobalSymbol}
    (hv : gs[slot]? = some v) :
    ∃ x, env.cells[gs.length - 1 - slot]? = some x ∧ env.lookup? v.name = some ⟨v.type, x⟩ := by
  have hslot := (List.getElem?_eq_some_iff.mp hv).1
  have hparam : (env.map Prod.fst)[gs.length - 1 - slot]? = some v.param := by
    rw [henv, GlobalSymbol.vars, List.getElem?_reverse (by rw [List.length_map]; omega),
      List.length_map, List.getElem?_map]
    have hback : gs.length - 1 - (gs.length - 1 - slot) = slot := by omega
    rw [hback, hv, Option.map_some]
  rw [List.getElem?_map] at hparam
  obtain ⟨⟨_, x⟩, hx, rfl⟩ := Option.map_eq_some_iff.mp hparam
  have hdistinct : (env.map fun w => w.1.name).Nodup := by
    have hall : (env.map fun w => w.1.name) = (gs.map GlobalSymbol.name).reverse := by
      have hnames := congrArg (List.map Param.name) henv
      rwa [List.map_map, GlobalSymbol.vars, List.map_reverse, List.map_map] at hnames
    rw [hall]
    exact List.nodup_reverse.mpr hnames
  have hmem := List.mem_of_getElem? hx
  refine ⟨x, ?_, ?_⟩
  · rw [cells, List.getElem?_map, hx, Option.map_some]
  · cases hfind : env.find? fun w => w.1.name = v.name with
    | none =>
        have hnone := List.find?_eq_none.mp hfind _ hmem
        exact absurd (decide_eq_true rfl) hnone
    | some w =>
        have hname : w.1.name = v.name := by simpa using List.find?_some hfind
        obtain rfl := List.inj_on_of_nodup_map hdistinct (List.mem_of_find?_eq_some hfind) hmem hname
        rw [lookup?, hfind, Option.map_some]
        rfl

/-- The base pointer leads to the values of all variables. -/
theorem Machine.lookup?_based {gs : List GlobalSymbol} (hnames : (gs.map GlobalSymbol.name).Nodup)
    (hslots : ∀ slot (v : GlobalSymbol), gs[slot]? = some v → v.slot = slot) {env : Env Cell}
    (henv : env.map Prod.fst = GlobalSymbol.vars gs) (hrep : Representable gs.length)
    (below : List Cell) (g : Globals Cell) {v : GlobalSymbol} (hv : v ∈ gs) :
    env.lookup? v.name = some ⟨v.type, based gs.length (env.cells ++ below) g v.slot⟩ := by
  obtain ⟨slot, hslot⟩ := List.mem_iff_getElem?.mp hv
  obtain ⟨x, hx, hlookup⟩ := Env.lookup?_vars hnames henv hslot
  have hcell : (env.cells ++ below)[gs.length - 1 - slot]? = some x := by
    rw [List.getElem?_append_left (List.getElem?_eq_some_iff.mp hx).1, hx]
  rw [hlookup, hslots slot v hslot,
    based_eq (List.getElem?_eq_some_iff.mp hslot).1 hrep hcell]

namespace Symbols.LoadedFrom

open Machine Program

variable {T known : Symbols} {records : List Instruction} {loader entry : FunctionSymbol}
  {I : Interpretation Cell} {b : FunctionBody} {bp : Cell} {labels : List (Option Nat)}

/-- A loader runs to SAVEBP, and leaves the values of the variables on the stack.  They are what the
entry point finds, and if that ends, the loader comes to its own end with the result of the entry
point in the cell below them. -/
theorem runs (h : T.LoadedFrom records known loader) (hn : T.Numbered)
    (hentry : T.entryPoint = .ok entry) (hparams : entry.params = []) (hb : loader.body = some b)
    (hrep : Representable (T.loaderHeight entry)) {below : List Cell}
    (hbelow : below.length = entry.result.width) (rest : List Cell) {n : Nat} {env : Env Cell}
    {g₀ g₁ : Globals Cell}
    (hvalues : Stmt.execAll I T n (GlobalSymbol.declarations T.globals) [] g₀
      = some (.normal env g₁)) :
    env.map Prod.fst = GlobalSymbol.vars T.globals ∧
      LoaderRuns I T bp ⟨b.code records, labels⟩ ⟨0, below ++ rest, g₀⟩
        ⟨(beforeSave (b.code records)).length, env.cells ++ (below ++ rest), g₁⟩ ∧
      ∃ g, (∀ v ∈ T.globals, env.lookup? v.name = some ⟨v.type, g v.slot⟩) ∧
        ∀ res g₂, call? I T entry.id (entry.result.cells.map I.initial) g = some (res, g₂) →
          ∃ pc, (b.code records)[pc]? = some .ending ∧
            LoaderRuns I T bp ⟨b.code records, labels⟩ ⟨0, below ++ rest, g₀⟩
              ⟨pc, res ++ rest, g₂⟩ := by
  obtain ⟨c, hc, hbefore, hcode, hbehind⟩ := h.parts hentry hb
  obtain ⟨hfound, -, -⟩ := entryPoint_eq_ok hn hentry
  rw [loaderHeight] at hrep
  set R : Routine := ⟨b.code records, labels⟩
  have hall : SliceAt R.code 0 (c ++ .simple .saveBp :: (known.entryCode entry
      ++ [.simple .restoreBp] ++ popCode T.globals.length ++ [.ending])) := by
    rw [← hbehind, ← hcode]
    exact SliceAt.self _
  have hcovered : known.Covered T := by
    rw [h.table]
    exact (Begins.withFunction known loader).covered
  have hdeclared : Stmt.AllEmit (.ofLoader T .void) ⟨0, 0, []⟩
      (GlobalSymbol.declarations T.globals) c [] (GlobalSymbol.vars T.globals) :=
    hc.mono rfl hcovered
  have henv : Env.At (.ofLoader T .void) ⟨0, 0, []⟩ ([] : Env Cell) :=
    ⟨rfl, ⟨h.nonVoid, List.forall_mem_nil _⟩, Nat.le_refl _⟩
  obtain ⟨hvars, hdeclare⟩ := declarations_run (R := R) (I := I) hn (below ++ rest) n T.globals
    hdeclared henv h.nonVoid.globals hall.left (hrep.mono (by
      show 0 + Stmt.allHeight T _ ≤ _
      omega)) hvalues
  rw [List.append_nil] at hvars
  have hlen : env.cells.length = T.globals.length := by
    have hlength := congrArg List.length hvars
    rw [List.length_map, length_vars] at hlength
    rw [Env.cells, List.length_map, hlength]
  have hbegin : LoaderRuns I T bp R ⟨0, below ++ rest, g₀⟩
      ⟨c.length, env.cells ++ (below ++ rest), g₁⟩ :=
    .of_runs (hdeclare.cast (Nat.zero_add _) rfl)
  refine ⟨hvars, by rwa [hbefore], based T.globals.length (env.cells ++ (below ++ rest)) g₁,
    fun v hv => lookup?_based (h.globals_eq ▸ h.initialized.names) hn.global hvars
      (hrep.mono (by omega)) _ _ hv, fun res g₂ hcall => ?_⟩
  have hbehindValues := hall.right
  rw [← hlen, Nat.zero_add] at hbehindValues
  obtain ⟨last, hlast, hruns⟩ : ∃ last, R.code[last]? = some .ending ∧
      LoaderRuns I T bp R ⟨c.length, env.cells ++ (below ++ rest), g₁⟩ ⟨last, res ++ rest, g₂⟩ :=
    runs_behindValues hfound hparams hbehindValues (by rw [hlen, h.globals_eq]) hbelow
      (hrep.mono (by rw [hlen]; omega)) hcall
  exact ⟨last, hlast, hbegin.trans hruns⟩

end Symbols.LoadedFrom

end Nss
