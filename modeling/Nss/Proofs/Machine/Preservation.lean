/-
# Functions keep their meaning

A function that is lowered without diagnostics does on the stack machine what it means.  It is called
with its arguments on the stack, the first one on top, and with a cell for its result below them if
it has one; whenever evaluating its body comes to an end, the machine comes to `RETN` with the
arguments taken, the result in its cell, and the same global variables.
-/
import Nss.Proofs.Machine.Simulation
import Mathlib.Algebra.Ring.Int.Defs

namespace Nss

namespace Lowering

variable {Cell : Type} {I : Interpretation Cell} {symbols : Symbols} {decl : FunctionDecl}

/-- The end of a function takes the parameters. -/
theorem end_runs {R : Routine} {c : List Instruction} {n : Nat} {params : List Cell}
    (stack : List Cell) (g : Globals Cell) (hcode : R.code = c ++ popCode n ++ [.ending])
    (hparams : params.length = n) (hrep : Representable n) :
    ∃ pc, R.code[pc]? = some .ending ∧
      Machine.Runs I symbols R ⟨c.length, params ++ stack, g⟩ ⟨pc, stack, g⟩ := by
  rw [← hparams] at hcode hrep
  have hall : SliceAt R.code 0 (c ++ popCode params.length ++ [.ending]) := hcode ▸ SliceAt.self _
  refine ⟨c.length + (popCode params.length).length, ?_, ?_⟩
  · have := hall.last
    rwa [Nat.zero_add, List.length_append] at this
  · have hpop := hall.left.right
    rw [Nat.zero_add] at hpop
    exact Machine.runs_popCode hpop (Nat.le_of_lt hrep)

/-- The code of a clean function computes what the function means: if its body evaluates to `v`, the
machine runs from the first instruction to the end of the function, with `v` in the cell for the
result.  A body that falls off its end leaves that cell as it was. -/
theorem ofFunction_preserves (hn : symbols.Numbered) (hs : symbols.NonVoid) (hd : decl.NonVoid)
    (hsize : Representable (decl.frameHeight symbols))
    (hclean : (ofFunction decl symbols).diagnostics = []) {args res : List Cell}
    (hargs : args.length = decl.params.length) (hres : res.length = decl.result.width)
    (rest : List Cell) {n : Nat} {v : Option Cell} {g g' : Globals Cell}
    (heval : decl.eval I symbols n args g = some (v, g')) :
    ∃ pc, (ofFunction decl symbols).routine.code[pc]? = some .ending ∧
      Machine.Runs I symbols (ofFunction decl symbols).routine ⟨0, args ++ (res ++ rest), g⟩
        ⟨pc, (v.elim res fun x => [x]) ++ rest, g'⟩ := by
  have hem := ofFunction_emits hs hd hclean
  generalize (ofFunction decl symbols).routine = R at hem ⊢
  obtain ⟨c, ls, hem, hRcode, hRlabels⟩ := hem
  obtain ⟨ending, hexec, heval⟩ := Option.bind_eq_some_iff.mp heval
  have hlabelsAt : SliceAt R.labels 0 ((c.length :: ls).map some) := hRlabels ▸ SliceAt.self _
  have hcodeAt : SliceAt R.code 0 (c ++ popCode decl.params.length ++ [.ending]) :=
    hRcode ▸ SliceAt.self _
  have henv : Env.At (.ofFunction symbols decl) ⟨0, 1, decl.params⟩ (decl.params.zip args) := by
    refine ⟨?_, ⟨hs, hd.params⟩, ?_⟩
    · rw [List.map_fst_zip (Nat.le_of_eq hargs.symm)]
    · exact Nat.le_of_eq List.length_mapIdx
  have hcells : Env.cells (decl.params.zip args) = args :=
    List.map_snd_zip (Nat.le_of_eq hargs)
  have hreached := (Stmt.simulated (I := I) rest ⟨hn, hlabelsAt.head, hres⟩ n).1 _ henv hd.block hem
    hcodeAt.left.left hlabelsAt.tail hsize hexec
  rw [hcells] at hreached
  have hparams : Representable decl.params.length :=
    hsize.mono (by rw [FunctionDecl.frameHeight]; omega)
  cases ending with
  | normal env g₁ =>
      obtain ⟨rfl, rfl⟩ := Prod.mk.inj (Option.some.inj heval)
      obtain ⟨hvars, hruns⟩ := hreached
      have hlen : env.cells.length = decl.params.length := by
        have := congrArg List.length hvars
        rwa [List.length_map, ← List.length_map (f := Prod.snd)] at this
      obtain ⟨pc, hpc, hend⟩ := end_runs (res ++ rest) g₁ hRcode hlen hparams
      rw [Nat.zero_add] at hruns
      exact ⟨pc, hpc, hruns.trans hend⟩
  | returned v g₁ =>
      obtain ⟨rfl, rfl⟩ := Prod.mk.inj (Option.some.inj heval)
      obtain ⟨params, hlen, hruns⟩ := hreached
      obtain ⟨pc, hpc, hend⟩ := end_runs ((v.elim res fun x => [x]) ++ rest) g₁ hRcode
        (hlen.trans List.length_mapIdx) hparams
      exact ⟨pc, hpc, hruns.trans hend⟩

/-! ### A loop with a call -/

/-- Cells as integers; a call gives the sum of its arguments. -/
def integers : Interpretation Int where
  initial _ := 0
  int v := v.toInt
  float v := v.bits.toNat
  string v := v.length
  object v := v.toInt
  isZero x := x == 0
  unary op _ x := match op with
    | .neg => some (-x)
    | .not => some (if x = 0 then 1 else 0)
  binary op _ x y := match op with
    | .add => some (x + y)
    | .sub => some (x - y)
    | .mul => some (x * y)
    | .div => if y = 0 then none else some (x / y)
    | .mod => if y = 0 then none else some (x % y)
    | .less => some (if x < y then 1 else 0)
    | .lessEq => some (if x ≤ y then 1 else 0)
    | .greater => some (if y < x then 1 else 0)
    | .greaterEq => some (if y ≤ x then 1 else 0)
    | .eq => some (if x = y then 1 else 0)
    | .notEq => some (if x = y then 0 else 1)
    | .and => some (if x = 0 ∨ y = 0 then 0 else 1)
    | .or => some (if x = 0 ∧ y = 0 then 0 else 1)
  value _ args _ g := some (args.sum, g)
  effect _ _ g := some g

/-- A table with a function of two arguments. -/
def plusTable : Symbols where
  functions := [⟨0, "plus", .int, [.int, .int], "", none⟩]
  globals := []

/-- Sums the numbers up to its argument; the variable in the loop hides the parameter. -/
def sumUpTo : FunctionDecl where
  result := .int
  name := "sum"
  params := [⟨.int, "n"⟩]
  body := some [
    .var ⟨.int, "i", some (.ident "n" .origin), .origin⟩,
    .var ⟨.int, "s", none, .origin⟩,
    .loop (.ident "i" .origin) (.block [
      .var ⟨.int, "n", some (.ident "s" .origin), .origin⟩,
      .assign "s" (.call "plus" [.ident "n" .origin, .ident "i" .origin] .origin) .origin,
      .assign "i" (.binary .sub (.ident "i" .origin) (.int 1 .origin) .origin) .origin]),
    .ret (some (.ident "s" .origin)) .origin]
  span := .origin

theorem plusTable_numbered : plusTable.Numbered :=
  (Symbols.numbered_empty).insert "plus" .int [.int, .int] ""

theorem plusTable_nonVoid : plusTable.NonVoid := ⟨by decide, by decide⟩

theorem sumUpTo_nonVoid : sumUpTo.NonVoid := by
  refine ⟨by decide, ?_⟩
  intro body hbody
  obtain rfl := Option.some.inj hbody
  simp [Stmt.AllNonVoid, Stmt.NonVoid]

theorem sumUpTo_clean : (ofFunction sumUpTo plusTable).diagnostics = [] := by decide +kernel

theorem ofFunction_preserves_sumUpTo :
    ∃ pc, (ofFunction sumUpTo plusTable).routine.code[pc]? = some .ending ∧
      Machine.Runs integers plusTable (ofFunction sumUpTo plusTable).routine
        ⟨0, [3] ++ ([0] ++ [7]), fun _ => 0⟩ ⟨pc, [6] ++ [7], fun _ => 0⟩ := by
  have hargs : [(3 : Int)].length = sumUpTo.params.length := rfl
  have hres : [(0 : Int)].length = sumUpTo.result.width := rfl
  have heval : sumUpTo.eval integers plusTable 40 [3] (fun _ => 0) = some (some 6, fun _ => 0) := by
    rfl
  exact ofFunction_preserves plusTable_numbered plusTable_nonVoid sumUpTo_nonVoid (by decide)
    sumUpTo_clean hargs hres [7] heval

end Lowering

end Nss
