/-
# Where the jumps of a function lead

The rules of emission number the labels of a piece of code one after the other, and each of them
stands before an instruction of the piece or at its end.  A piece only jumps to labels that exist.
So every jump of a clean function leads to an instruction of the same function, the last of which is
the one that ends it.

The loader of the global variables has neither labels nor jumps.
-/
import Nss.Proofs.Lowering.Clean
import Nss.Proofs.Bytecode.Reading
import Nss.Program.Reachable

namespace Nss

open Steps

/-! ## Forms of instructions -/

namespace Instruction

/-- The forms of the instructions that lowering adds, where there are so many labels. -/
inductive Within (symbols : Symbols) (labels : Nat) : Instruction → Prop
  | straight {i : Instruction} : i.Straight symbols → Instruction.Within symbols labels i
  | jump {l : Nat} : l < labels → Instruction.Within symbols labels (.jump l)
  | jumpIfZero {l : Nat} : l < labels → Instruction.Within symbols labels (.jumpIfZero l)

variable {symbols : Symbols} {labels : Nat} {i : Instruction}

/-- What lowering adds can be read back. -/
theorem Straight.wellFormed (h : i.Straight symbols) : i.WellFormed := by
  cases h with
  | int v => exact .int v
  | float v => exact .float v
  | string hv => exact .string hv
  | object v => exact .object v
  | reserve ht => exact .reserve ht
  | loadCell n => exact .load _ _
  | storeCell n => exact .store _ _
  | loadGlobal slot => exact .loadGlobal slot
  | storeGlobal slot => exact .storeGlobal slot
  | pop n => exact .move _
  | callTo _ => exact .call _
  | unary ho =>
      exact .unary (UnaryOp.unary?_of_operation? ho) (UnaryOp.ne_void_of_operation? ho)
  | binary ho =>
      obtain ⟨pair, -, hbinary, -⟩ := BinaryOp.binary?_of_operation? ho
      exact .binary (by rw [hbinary]; rfl)
  | ending => exact .ending
  | saveBp => exact .saveBp
  | restoreBp => exact .restoreBp

theorem Straight.label? (h : i.Straight symbols) : i.label? = none := by
  cases h <;> rfl

/-- What is called is a function in the table. -/
theorem Straight.callee? (h : i.Straight symbols) {id : Nat} (hid : i.callee? = some id) :
    ∃ f ∈ symbols.functions, f.id = id := by
  cases h with
  | @callTo f hf => exact ⟨f, hf, Option.some.inj hid⟩
  | _ => cases hid

theorem Within.wellFormed (h : i.Within symbols labels) : i.WellFormed := by
  cases h with
  | straight h => exact h.wellFormed
  | jump _ => exact .jump _
  | jumpIfZero _ => exact .jumpIfZero _

theorem Within.label_lt (h : i.Within symbols labels) {l : Nat} (hl : i.label? = some l) :
    l < labels := by
  cases h with
  | straight h =>
      rw [h.label?] at hl
      cases hl
  | jump h | jumpIfZero h =>
      obtain rfl := Option.some.inj hl
      exact h

theorem Within.callee? (h : i.Within symbols labels) {id : Nat} (hid : i.callee? = some id) :
    ∃ f ∈ symbols.functions, f.id = id := by
  cases h with
  | straight h => exact h.callee? hid
  | jump _ | jumpIfZero _ => cases hid

end Instruction

/-! ## Expressions -/

theorem popCode_straight {symbols : Symbols} (n : Nat) :
    ∀ i ∈ popCode n, i.Straight symbols := by
  intro i hi
  rw [popCode] at hi
  split at hi
  · rw [List.mem_singleton.mp hi]
    exact .pop n
  · cases hi

theorem reserveCode_straight {symbols : Symbols} (t : ValueType) :
    ∀ i ∈ reserveCode t, i.Straight symbols := by
  intro i hi
  rw [reserveCode] at hi
  split at hi
  · cases hi
  · next h =>
      rw [List.mem_singleton.mp hi]
      exact .reserve (mt ValueType.isVoid_iff.mpr h)

theorem Spot.load_straight {symbols : Symbols} (temps : Nat) (spot : Spot) :
    (spot.load temps).Straight symbols := by
  cases spot with
  | cell index t => exact .loadCell _
  | global slot t => exact .loadGlobal slot

theorem Spot.store_straight {symbols : Symbols} (temps : Nat) (spot : Spot) :
    (spot.store temps).Straight symbols := by
  cases spot with
  | cell index t => exact .storeCell _
  | global slot t => exact .storeGlobal slot

mutual

/-- Expressions are lowered to straight code. -/
theorem Expr.Emits.straight {Γ : LoweringContext} {vars : List Param} :
    ∀ {e : Expr} {temps : Nat} {t : ValueType} {c : List Instruction},
      e.Emits Γ vars temps t c → ∀ i ∈ c, i.Straight Γ.symbols
  | .int v _, _, _, _, .int => List.forall_mem_singleton.mpr (.int v)
  | .float v _, _, _, _, .float => List.forall_mem_singleton.mpr (.float v)
  | .string _ _, _, _, _, .string hv => List.forall_mem_singleton.mpr (.string hv)
  | .object v _, _, _, _, .object => List.forall_mem_singleton.mpr (.object v)
  | .ident _ _, _, _, _, .ident _ => List.forall_mem_singleton.mpr (Spot.load_straight _ _)
  | .call _ _ _, _, _, _, .call hf _ hargs =>
      List.forall_mem_append.mpr ⟨
        List.forall_mem_append.mpr ⟨reserveCode_straight _, hargs.straight⟩,
        List.forall_mem_singleton.mpr (.callTo (List.mem_of_find?_eq_some hf))⟩
  | .unary _ _ _, _, _, _, .unary hx ho =>
      List.forall_mem_append.mpr ⟨hx.straight, List.forall_mem_singleton.mpr (.unary ho)⟩
  | .binary _ _ _ _, _, _, _, .binary hl hr ho =>
      List.forall_mem_append.mpr ⟨List.forall_mem_append.mpr ⟨hl.straight, hr.straight⟩,
        List.forall_mem_singleton.mpr (.binary ho)⟩

theorem Expr.ArgsEmit.straight {Γ : LoweringContext} {vars : List Param} :
    ∀ {args : List Expr} {temps : Nat} {types : List ValueType} {c : List Instruction},
      Expr.ArgsEmit Γ vars temps args types c → ∀ i ∈ c, i.Straight Γ.symbols
  | [], _, _, _, .nil => List.forall_mem_nil _
  | _ :: _, _, _, _, .cons _ hargs harg =>
      List.forall_mem_append.mpr ⟨hargs.straight, harg.straight⟩

end

/-! ## Statements -/

/-- A piece of code that begins with instruction `next` of a function with so many labels, and the
instructions that the labels of the piece stand before. -/
structure Enclosed (symbols : Symbols) (labels next : Nat) (c : List Instruction)
    (ls : List Nat) : Prop where
  code : ∀ i ∈ c, i.Within symbols labels
  places : ∀ place ∈ ls, place ≤ next + c.length

namespace Enclosed

variable {symbols : Symbols} {labels next : Nat} {c c' : List Instruction} {ls ls' : List Nat}
  {place : Nat}

theorem ofStraight (h : ∀ i ∈ c, i.Straight symbols) : Enclosed symbols labels next c [] :=
  ⟨fun i hi => .straight (h i hi), List.forall_mem_nil _⟩

theorem append (h : Enclosed symbols labels next c ls)
    (h' : Enclosed symbols labels (next + c.length) c' ls') :
    Enclosed symbols labels next (c ++ c') (ls ++ ls') where
  code := List.forall_mem_append.mpr ⟨h.code, h'.code⟩
  places := by
    rw [List.length_append]
    intro place hplace
    rcases List.mem_append.mp hplace with hplace | hplace
    · have := h.places place hplace
      omega
    · have := h'.places place hplace
      omega

/-- One label more, before an instruction of the piece or at its end. -/
theorem labelled (h : Enclosed symbols labels next c ls) (hplace : place ≤ next + c.length) :
    Enclosed symbols labels next c (place :: ls) where
  code := h.code
  places := List.forall_mem_cons.mpr ⟨hplace, h.places⟩

theorem cast (h : Enclosed symbols labels next c ls) {next' : Nat} (hnext : next = next') :
    Enclosed symbols labels next' c ls :=
  hnext ▸ h

/-- More instructions behind the piece that no label stands before. -/
theorem followed (h : Enclosed symbols labels next c ls)
    (h' : ∀ i ∈ c', i.Within symbols labels) : Enclosed symbols labels next (c ++ c') ls := by
  have hall := h.append ⟨h', List.forall_mem_nil _⟩
  rwa [List.append_nil] at hall

/-- The cells of a scope taken behind the piece. -/
theorem popped (h : Enclosed symbols labels next c ls) (n : Nat) :
    Enclosed symbols labels next (c ++ popCode n) ls :=
  h.followed fun i hi => .straight (popCode_straight n i hi)

theorem jump (h : Enclosed symbols labels next c ls) {l : Nat} (hl : l < labels) :
    Enclosed symbols labels next (c ++ [.jump l]) ls :=
  h.followed (List.forall_mem_singleton.mpr (.jump hl))

theorem jumpIfZero (h : Enclosed symbols labels next c ls) {l : Nat} (hl : l < labels) :
    Enclosed symbols labels next (c ++ [.jumpIfZero l]) ls :=
  h.followed (List.forall_mem_singleton.mpr (.jumpIfZero hl))

end Enclosed

section Statements

variable {Γ : LoweringContext} {labels : Nat}

theorem Stmt.Emits.var_straight {p : Site} {decl : VarDecl} {c : List Instruction} {ls : List Nat}
    {vs : List Param} (hem : Stmt.Emits Γ p (.var decl) c ls vs) (hdecl : decl.type ≠ .void) :
    ∀ i ∈ c, i.Straight Γ.symbols := by
  cases hem with
  | var _ => exact List.forall_mem_singleton.mpr (.reserve hdecl)
  | varInit _ hinit =>
      refine List.forall_mem_cons.mpr ⟨.reserve hdecl, List.forall_mem_append.mpr ⟨hinit.straight, ?_⟩⟩
      exact List.forall_mem_cons.mpr ⟨.storeCell _, List.forall_mem_singleton.mpr (.pop _)⟩

mutual

/-- The code of a statement jumps to labels of its own or to label 0. -/
theorem Stmt.Emits.enclosed (hlabels : 0 < labels) :
    ∀ {s : Stmt} {p : Site} {c : List Instruction} {ls : List Nat} {vs : List Param},
      Stmt.Emits Γ p s c ls vs → s.NonVoid → p.labels + ls.length ≤ labels →
      Enclosed Γ.symbols labels p.next c ls
  | .block _, p, _, ls, _, .block hbody, hs, hle => by
      rw [Stmt.NonVoid] at hs
      exact (hbody.enclosed hlabels hs hle).popped _
  | .var _, _, _, _, _, hem, hs, _ => by
      rw [Stmt.NonVoid] at hs
      have hstraight := hem.var_straight hs
      cases hem with
      | var _ | varInit _ _ => exact .ofStraight hstraight
  | .assign _ _ _, _, _, _, _, .assign _ hem, _, _ => by
      refine .ofStraight (List.forall_mem_append.mpr ⟨hem.straight, ?_⟩)
      exact List.forall_mem_cons.mpr ⟨Spot.store_straight _ _,
        List.forall_mem_singleton.mpr (.pop _)⟩
  | .expr _, _, _, _, _, .expr hem, _, _ => (Enclosed.ofStraight hem.straight).popped _
  | .ifThen _ _, p, _, _, _, @Stmt.Emits.ifThen _ _ _ _ c b ls hcond hbody, hs, hle => by
      rw [Stmt.NonVoid] at hs
      rw [List.length_cons] at hle
      have htest : Enclosed Γ.symbols labels p.next (c ++ [.jumpIfZero p.labels]) [] :=
        (Enclosed.ofStraight hcond.straight).jumpIfZero (by omega)
      have hinner := hbody.enclosed hlabels hs (by simp [Site.after]; omega)
      have hall := htest.append (hinner.cast (by simp [Site.after]; omega))
      exact hall.labelled (by simp; omega)
  | .ifElse _ _ _, p, _, _, _, @Stmt.Emits.ifElse _ _ _ _ _ c b d ls ls' hcond hbody hother,
    hs, hle => by
      rw [Stmt.NonVoid] at hs
      rw [List.length_cons, List.length_append, List.length_cons] at hle
      have htest : Enclosed Γ.symbols labels p.next (c ++ [.jumpIfZero p.labels]) [] :=
        (Enclosed.ofStraight hcond.straight).jumpIfZero (by omega)
      have hinner := hbody.enclosed hlabels hs.1 (by simp [Site.after]; omega)
      have hthen := (htest.append (hinner.cast (by simp [Site.after]; omega))).jump
        (l := p.labels + 1 + ls.length) (by omega)
      have hinner' := hother.enclosed hlabels hs.2 (by simp [Site.after]; omega)
      have hlast : Enclosed Γ.symbols labels (p.next + c.length + 1 + b.length + 1) d
          ((p.next + c.length + 1 + b.length + 1 + d.length) :: ls') :=
        (hinner'.cast (by simp [Site.after]; omega)).labelled (Nat.le_refl _)
      have hall := hthen.append (hlast.cast (by simp; omega))
      exact hall.labelled (by simp; omega)
  | .loop _ _, p, _, _, _, @Stmt.Emits.loop _ _ _ _ c b ls hcond hbody, hs, hle => by
      rw [Stmt.NonVoid] at hs
      rw [List.length_cons, List.length_cons] at hle
      have htest : Enclosed Γ.symbols labels p.next (c ++ [.jumpIfZero (p.labels + 1)]) [] :=
        (Enclosed.ofStraight hcond.straight).jumpIfZero (by omega)
      have hinner := hbody.enclosed hlabels hs (by simp [Site.after]; omega)
      have hall := (htest.append (hinner.cast (by simp [Site.after]; omega))).jump
        (l := p.labels) (by omega)
      exact (hall.labelled (by simp; omega)).labelled (Nat.le_add_right _ _)
  | .ret none _, _, _, _, _, .ret _, _, _ =>
      (Enclosed.ofStraight (popCode_straight _)).jump hlabels
  | .ret (some _) _, p, _, _, _, .retValue _ hem, _, _ => by
      refine (Enclosed.followed (.ofStraight hem.straight) ?_).followed ?_
      · exact List.forall_mem_singleton.mpr (.straight (.storeCell _))
      · exact List.forall_mem_cons.mpr ⟨.straight (.pop _),
          List.forall_mem_singleton.mpr (.jump hlabels)⟩

theorem Stmt.ScopedEmit.enclosed (hlabels : 0 < labels) :
    ∀ {s : Stmt} {p : Site} {c : List Instruction} {ls : List Nat},
      Stmt.ScopedEmit Γ p s c ls → s.NonVoid → p.labels + ls.length ≤ labels →
      Enclosed Γ.symbols labels p.next c ls
  | _, _, _, _, .intro hem, hs, hle => (hem.enclosed hlabels hs hle).popped _

theorem Stmt.AllEmit.enclosed (hlabels : 0 < labels) :
    ∀ {ss : List Stmt} {p : Site} {c : List Instruction} {ls : List Nat} {vs : List Param},
      Stmt.AllEmit Γ p ss c ls vs → Stmt.AllNonVoid ss → p.labels + ls.length ≤ labels →
      Enclosed Γ.symbols labels p.next c ls
  | [], _, _, _, _, .nil, _, _ => .ofStraight (List.forall_mem_nil _)
  | _ :: _, p, _, _, _, @Stmt.AllEmit.cons _ _ _ _ c _ ls ls' _ _ hfirst hrest, hs, hle => by
      rw [Stmt.AllNonVoid] at hs
      rw [List.length_append] at hle
      exact (hfirst.enclosed hlabels hs.1 (by omega)).append
        (hrest.enclosed hlabels hs.2 (by simp [Site.after]; omega))

end

end Statements

/-! ## Functions -/

/-- Code that can stand in a program: all of it can be read back, what it calls are functions of the
table, and its jumps lead to instructions of its own. -/
structure Routine.Closed (symbols : Symbols) (R : Routine) : Prop where
  wellFormed : ∀ i ∈ R.code, i.WellFormed
  callee : ∀ i ∈ R.code, ∀ id, i.callee? = some id → ∃ f ∈ symbols.functions, f.id = id
  target : ∀ i ∈ R.code, ∀ l, i.label? = some l →
    ∃ n, R.labels[l]? = some (some n) ∧ n < R.code.length

/-- The code of a clean function can stand in a program. -/
theorem FunctionDecl.Emits.closed {symbols : Symbols} {decl : FunctionDecl} {R : Routine}
    (h : decl.Emits symbols R) (hd : decl.NonVoid) : R.Closed symbols := by
  obtain ⟨c, ls, hem, hcode, hlabels⟩ := h
  have hlength : R.labels.length = 1 + ls.length := by
    rw [hlabels, List.length_map, List.length_cons, Nat.add_comm]
  have hbody : Enclosed symbols R.labels.length 0 c ls :=
    hem.enclosed (by omega) hd.block (Nat.le_of_eq hlength.symm)
  have hall : Enclosed symbols R.labels.length 0 R.code ls := by
    rw [hcode]
    exact (hbody.popped _).followed (List.forall_mem_singleton.mpr (.straight .ending))
  refine ⟨?_, ?_, ?_⟩
  · intro i hi
    exact (hall.code i hi).wellFormed
  · intro i hi id hid
    exact (hall.code i hi).callee? hid
  · intro i hi l hl
    have hlt := (hall.code i hi).label_lt hl
    rw [hlabels, List.length_map] at hlt
    refine ⟨(c.length :: ls)[l], ?_, ?_⟩
    · rw [hlabels, List.getElem?_map, List.getElem?_eq_getElem hlt]
      rfl
    · have hplaces : ∀ place ∈ c.length :: ls, place ≤ c.length := by
        refine List.forall_mem_cons.mpr ⟨Nat.le_refl _, ?_⟩
        have hplaces := hbody.places
        rwa [Nat.zero_add] at hplaces
      have hend : c.length < R.code.length := by
        rw [hcode, List.length_append, List.length_append, List.length_singleton]
        omega
      exact Nat.lt_of_le_of_lt (hplaces _ (List.getElem_mem hlt)) hend

/-! ## The loader of the global variables -/

/-- All instructions of a frame are straight. -/
def Frame.AllStraight (symbols : Symbols) (f : Frame) : Prop :=
  ∀ i ∈ f.code.toList, i.Straight symbols

/-- What was straight before is straight afterwards. -/
def Frame.KeepsStraight (symbols : Symbols) (f g : Frame) : Prop :=
  f.AllStraight symbols → g.AllStraight symbols

theorem Frame.growth_keepsStraight (symbols : Symbols) :
    Lower.Growth symbols (Frame.KeepsStraight symbols) where
  refl _ h := h
  trans h₁ h₂ h := h₂ (h₁ h)
  emitted f i depth hi h := by
    intro j hj
    rw [Frame.emitted, Array.toList_push] at hj
    rcases List.mem_append.mp hj with hj | hj
    · exact h j hj
    · rw [List.mem_singleton.mp hj]
      exact hi
  moved _ _ _ _ h := h
  failed _ _ _ _ h := h

namespace Lowering

variable {Γ : LoweringContext} {R : Frame → Frame → Prop}

theorem loadGlobals_moves (hR : Lower.Growth Γ.symbols R) :
    ∀ gs : List GlobalSymbol, (∀ g ∈ gs, g.type ≠ .void) → Lower.Stays R (loadGlobals Γ gs)
  | [], _ => hR.moves_pure ()
  | g :: rest, hgs => by
      obtain ⟨hg, hrest⟩ := List.forall_mem_cons.mp hgs
      rw [loadGlobals, Stmt.lower]
      refine hR.moves_bind (hR.moves_settle (Stmt.lowerVar_moves hR hg)) fun _ => ?_
      exact loadGlobals_moves hR rest hrest

theorem callEntry_moves (hR : Lower.Growth Γ.symbols R) {entry : FunctionSymbol}
    (hentry : entry ∈ Γ.symbols.functions) : Lower.Stays R (callEntry Γ entry) := by
  rw [callEntry]
  split
  · exact hR.moves_emit (.callTo hentry)
  · next hvoid =>
      refine hR.moves_bind (hR.moves_emitPush (.reserve (mt ValueType.isVoid_iff.mpr hvoid)))
        fun _ => ?_
      refine hR.moves_bind (hR.moves_emit (.callTo hentry)) fun _ => ?_
      refine hR.moves_bind (hR.moves_fromTop _) fun n => ?_
      exact hR.moves_bind (hR.moves_emit (.storeCell n)) fun _ => hR.moves_popCells 1

theorem loaderBody_moves (hR : Lower.Growth Γ.symbols R) (hΓ : Γ.symbols.NonVoid)
    {entry : Option FunctionSymbol} (hentry : ∀ f, entry = some f → f ∈ Γ.symbols.functions) :
    Lower.Stays R (loaderBody Γ entry) := by
  rw [loaderBody]
  refine hR.moves_bind (loadGlobals_moves hR _ hΓ.globals) fun _ => ?_
  refine hR.moves_bind (hR.moves_emitPush .saveBp) fun _ => ?_
  have hrest : Lower.Stays R (do
      Lower.emitTake 1 (.simple .restoreBp)
      if 0 < Γ.symbols.globals.length then Lower.emit (.pop Γ.symbols.globals.length)
      Lower.emit .ending) := by
    refine hR.moves_bind (hR.moves_emitTake 1 .restoreBp) fun _ => ?_
    split
    · exact hR.moves_bind (hR.moves_emit (.pop _)) fun _ => hR.moves_emit .ending
    · exact hR.moves_emit .ending
  cases entry with
  | none => exact hrest
  | some f => exact hR.moves_bind (callEntry_moves hR (hentry f rfl)) fun _ => hrest

/-- The loader can stand in a program. -/
theorem ofGlobals_closed {symbols : Symbols} (hs : symbols.NonVoid) {entry : Option FunctionSymbol}
    (hentry : ∀ f, entry = some f → f ∈ symbols.functions) :
    (ofGlobals symbols entry).routine.Closed symbols := by
  have hall : ∀ i ∈ (ofGlobals symbols entry).code.toList, i.Straight symbols := by
    have hR := Frame.growth_keepsStraight symbols
    have hmoves (result : ValueType) :
        Lower.Stays (Frame.KeepsStraight symbols) (loaderBody (.ofLoader symbols result) entry) :=
      loaderBody_moves (Γ := .ofLoader symbols result) hR hs hentry
    exact hR.after (hmoves _) Frame.start (List.forall_mem_nil _)
  refine ⟨?_, ?_, ?_⟩
  · intro i hi
    exact (hall i hi).wellFormed
  · intro i hi id hid
    exact (hall i hi).callee? hid
  · intro i hi l hl
    rw [(hall i hi).label?] at hl
    cases hl

end Lowering

end Nss
