/-
# What clean lowering emits

Lowering works on a frame that knows names, positions and labels.  What comes out of it is simpler
to describe: `Expr.Emits` and `Stmt.Emits` are the rules by which an expression or a statement is
turned into instructions, with the variables in sight as a list, the innermost first, and with the
number of intermediate values above them.  Variable `i` of that list lies `i` cells below the
intermediate values, whether it is a local variable or a parameter.

    lower Γ s f = .ok () g,  g without diagnostics   ⟹   s.Emits Γ …          (`Stmt.lower_emits`)
    ofFunction decl symbols without diagnostics       ⟹   decl.Emits symbols …  (`Lowering.ofFunction_emits`)

So whoever wants to know something of the code of a clean function argues by induction on these
rules, and never looks at a frame.
-/
import Nss.Lowering.Function
import Nss.Proofs.Steps

namespace Nss

/-- The number of cells that a value takes. -/
def ValueType.width (t : ValueType) : Nat := if t.isVoid then 0 else 1

/-- The cells that a value of a type takes. -/
def ValueType.cells (t : ValueType) : List ValueType := if t.isVoid then [] else [t]

theorem ValueType.width_of_ne_void {t : ValueType} (h : t ≠ .void) : t.width = 1 := by
  cases t with
  | void => exact absurd rfl h
  | int | float | string | object => rfl

theorem ValueType.isVoid_iff {t : ValueType} : t.isVoid = true ↔ t = .void := by
  cases t <;> simp [isVoid]

theorem ValueType.cells_of_ne_void {t : ValueType} (h : t ≠ .void) : t.cells = [t] :=
  if_neg (mt isVoid_iff.mp h)

theorem ValueType.length_cells (t : ValueType) : t.cells.length = t.width := by
  cases t <;> rfl

/-! ## Tables and declarations without `void` variables -/

/-- No global variable and no parameter of a function is `void`. -/
structure Symbols.NonVoid (s : Symbols) : Prop where
  params : ∀ f ∈ s.functions, ∀ t ∈ f.params, t ≠ .void
  globals : ∀ g ∈ s.globals, g.type ≠ .void

mutual

/-- No variable that a statement declares is `void`. -/
def Stmt.NonVoid : Stmt → Prop
  | .block body => Stmt.AllNonVoid body
  | .var decl => decl.type ≠ .void
  | .assign _ _ _ | .expr _ | .ret _ _ => True
  | .ifThen _ body => body.NonVoid
  | .ifElse _ body other => body.NonVoid ∧ other.NonVoid
  | .loop _ body => body.NonVoid

/-- No variable that some statements declare is `void`. -/
def Stmt.AllNonVoid : List Stmt → Prop
  | [] => True
  | s :: rest => s.NonVoid ∧ Stmt.AllNonVoid rest

end

/-- No parameter of a function and no variable in its body is `void`. -/
structure FunctionDecl.NonVoid (decl : FunctionDecl) : Prop where
  params : ∀ p ∈ decl.params, p.type ≠ .void
  body : ∀ body, decl.body = some body → Stmt.AllNonVoid body

theorem FunctionDecl.NonVoid.block {decl : FunctionDecl} (hd : decl.NonVoid) :
    Stmt.NonVoid (.block (decl.body.getD [])) := by
  rw [Stmt.NonVoid]
  cases hb : decl.body with
  | none => trivial
  | some body => exact hd.body body hb

/-! ## Where a name leads -/

/-- Where a variable lies: so many cells below the intermediate values, or among the globals. -/
inductive Spot where
  | cell (index : Nat) (type : ValueType)
  | global (slot : Nat) (type : ValueType)
deriving DecidableEq, Repr

namespace Spot

/-- The type of the variable at a spot. -/
def type : Spot → ValueType
  | cell _ t | global _ t => t

/-- The spot that a name stands for: the innermost variable of that name, else a global one. -/
def ofName? (Γ : LoweringContext) (vars : List Param) (name : String) : Option Spot :=
  match vars.findIdx? (·.name = name), vars.find? (·.name = name) with
  | some i, some v => some (cell i v.type)
  | _, _ =>
    if Γ.globalsVisible then (Γ.symbols.lookupGlobal? name).map fun g => global g.slot g.type
    else none

/-- The same spot, seen with one more variable above. -/
def below : Spot → Spot
  | cell i t => cell (i + 1) t
  | global slot t => global slot t

theorem ofName?_cons (Γ : LoweringContext) (p : Param) (vars : List Param) (name : String) :
    ofName? Γ (p :: vars) name =
      if p.name = name then some (cell 0 p.type) else (ofName? Γ vars name).map below := by
  by_cases h : p.name = name
  · simp [ofName?, List.findIdx?_cons, h]
  · simp only [ofName?, List.findIdx?_cons, List.find?_cons, h, decide_false, if_false]
    cases vars.findIdx? (·.name = name) with
    | none => cases Γ.globalsVisible <;> simp [below, Function.comp_def]
    | some i =>
        cases vars.find? (·.name = name) with
        | none => cases Γ.globalsVisible <;> simp [below, Function.comp_def]
        | some v => simp [below]

section Inversion

variable {Γ : LoweringContext} {p : Param} {vars : List Param} {name : String} {t : ValueType}

/-- Without variables in sight, a name stands for no cell. -/
theorem ofName?_nil_ne_cell {i : Nat} : ofName? Γ [] name ≠ some (cell i t) := by
  intro h
  cases hvis : Γ.globalsVisible with
  | true => simp [ofName?, hvis] at h
  | false => simp [ofName?, hvis] at h

/-- A name that stands for a cell stands for that of the innermost variable, or for one that it
stands for without that variable. -/
theorem cell_of_cons {i : Nat} (h : ofName? Γ (p :: vars) name = some (cell i t)) :
    p.name = name ∧ i = 0 ∧ t = p.type ∨
      p.name ≠ name ∧ ∃ j, i = j + 1 ∧ ofName? Γ vars name = some (cell j t) := by
  rw [ofName?_cons] at h
  split at h
  · next hname =>
      obtain ⟨rfl, rfl⟩ := Spot.cell.inj (Option.some.inj h)
      exact .inl ⟨hname, rfl, rfl⟩
  · next hname =>
      obtain ⟨spot, hspot, hbelow⟩ := Option.map_eq_some_iff.mp h
      cases spot with
      | global slot t' => cases hbelow
      | cell j t' =>
          obtain ⟨rfl, rfl⟩ := Spot.cell.inj hbelow
          exact .inr ⟨hname, j, rfl, hspot⟩

/-- A name that stands for a global variable is not that of the innermost variable. -/
theorem global_of_cons {slot : Nat} (h : ofName? Γ (p :: vars) name = some (global slot t)) :
    p.name ≠ name ∧ ofName? Γ vars name = some (global slot t) := by
  rw [ofName?_cons] at h
  split at h
  · cases h
  · next hname =>
      obtain ⟨spot, hspot, hbelow⟩ := Option.map_eq_some_iff.mp h
      cases spot with
      | cell j t' => cases hbelow
      | global slot' t' =>
          obtain ⟨rfl, rfl⟩ := Spot.global.inj hbelow
          exact ⟨hname, hspot⟩

/-- A cell that a name stands for is that of a variable. -/
theorem getElem?_of_cell {i : Nat} (h : ofName? Γ vars name = some (cell i t)) :
    ∃ v, vars[i]? = some v ∧ v.type = t := by
  induction vars generalizing i with
  | nil => exact absurd h ofName?_nil_ne_cell
  | cons p vars ih =>
      obtain ⟨-, rfl, rfl⟩ | ⟨-, j, rfl, hj⟩ := cell_of_cons h
      · exact ⟨p, rfl, rfl⟩
      · exact ih hj

/-- A slot that a name stands for is that of the global variable with the name. -/
theorem lookupGlobal?_of_global {slot : Nat} (h : ofName? Γ vars name = some (global slot t)) :
    ∃ g, Γ.symbols.lookupGlobal? name = some g ∧ g.slot = slot ∧ g.type = t := by
  induction vars with
  | nil =>
      cases hvis : Γ.globalsVisible with
      | false => simp [ofName?, hvis] at h
      | true => simpa [ofName?, hvis] using h
  | cons p vars ih => exact ih (global_of_cons h).2

end Inversion

/-- The distance of a cell from the top, `temps` intermediate values being above the variables. -/
def fromTop (temps index : Nat) : Int := -((temps + index + 1 : Nat) : Int)

/-- The instruction that pushes the variable at a spot. -/
def load (temps : Nat) : Spot → Instruction
  | cell i _ => .loadCell (fromTop temps i)
  | global slot _ => .loadGlobal slot

/-- The instruction that copies the top cell into the variable at a spot. -/
def store (temps : Nat) : Spot → Instruction
  | cell i _ => .storeCell (fromTop temps i)
  | global slot _ => .storeGlobal slot

end Spot

/-- The instructions that take `n` cells from the stack: none if there are none to take. -/
def popCode (n : Nat) : List Instruction := if 0 < n then [.pop n] else []

/-- The instructions that reserve a cell for the result of a function. -/
def reserveCode (t : ValueType) : List Instruction := if t.isVoid then [] else [.reserve t]

/-! ## Expressions -/

mutual

/-- `e.Emits Γ vars temps t c`: with `temps` intermediate values above the variables `vars`, the
expression `e` is of type `t` and lowered to `c`. -/
inductive Expr.Emits (Γ : LoweringContext) (vars : List Param) :
    Nat → Expr → ValueType → List Instruction → Prop
  | int {temps : Nat} {v : Int32} {span : Span} :
      Expr.Emits Γ vars temps (.int v span) .int [⟨.const .int, .int v⟩]
  | float {temps : Nat} {v : Binary32} {span : Span} :
      Expr.Emits Γ vars temps (.float v span) .float [⟨.const .float, .float v⟩]
  | string {temps : Nat} {v : String} {span : Span} :
      (Bytes.ofText v).length ≤ Instruction.maxString →
      Expr.Emits Γ vars temps (.string v span) .string [⟨.const .string, .str v⟩]
  | object {temps : Nat} {v : Int32} {span : Span} :
      Expr.Emits Γ vars temps (.object v span) .object [⟨.const .object, .object v⟩]
  | ident {temps : Nat} {name : String} {span : Span} {spot : Spot} :
      Spot.ofName? Γ vars name = some spot →
      Expr.Emits Γ vars temps (.ident name span) spot.type [spot.load temps]
  | call {temps : Nat} {name : String} {args : List Expr} {span : Span} {f : FunctionSymbol}
      {c : List Instruction} :
      Γ.symbols.lookup? name = some f → f.params.length = args.length →
      Expr.ArgsEmit Γ vars (temps + f.result.width) args f.params c →
      Expr.Emits Γ vars temps (.call name args span) f.result
        (reserveCode f.result ++ c ++ [.callTo f.id])
  | unary {temps : Nat} {op : UnaryOp} {x : Expr} {span : Span} {t : ValueType} {o : Op}
      {c : List Instruction} :
      Expr.Emits Γ vars temps x t c → op.operation? t = some o →
      Expr.Emits Γ vars temps (.unary op x span) t (c ++ [.simple o])
  | binary {temps : Nat} {op : BinaryOp} {l r : Expr} {span : Span} {tl tr t : ValueType} {o : Op}
      {cl cr : List Instruction} :
      Expr.Emits Γ vars temps l tl cl → Expr.Emits Γ vars (temps + 1) r tr cr →
      op.operation? tl tr = some (o, t) →
      Expr.Emits Γ vars temps (.binary op l r span) t (cl ++ cr ++ [.simple o])

/-- `ArgsEmit Γ vars temps args types c`: the arguments `args` of the types `types` are lowered to
`c`, the last one first. -/
inductive Expr.ArgsEmit (Γ : LoweringContext) (vars : List Param) :
    Nat → List Expr → List ValueType → List Instruction → Prop
  | nil {temps : Nat} : Expr.ArgsEmit Γ vars temps [] [] []
  | cons {temps : Nat} {arg : Expr} {args : List Expr} {type : ValueType} {types : List ValueType}
      {c c' : List Instruction} :
      type ≠ .void → Expr.ArgsEmit Γ vars temps args types c →
      Expr.Emits Γ vars (temps + args.length) arg type c' →
      Expr.ArgsEmit Γ vars temps (arg :: args) (type :: types) (c ++ c')

end

/-- There are as many types as arguments. -/
theorem Expr.ArgsEmit.length_eq {Γ : LoweringContext} {vars : List Param} :
    ∀ {args : List Expr} {temps : Nat} {types : List ValueType} {c : List Instruction},
      Expr.ArgsEmit Γ vars temps args types c → types.length = args.length
  | [], _, _, _, .nil => rfl
  | _ :: _, _, _, _, .cons _ hargs _ => congrArg (· + 1) hargs.length_eq

/-! ## Statements -/

/-- Where lowering has come to: the number of instructions and of labels so far, and the variables
in sight. -/
structure Site where
  next : Nat
  labels : Nat
  vars : List Param

/-- The site behind some instructions and labels. -/
def Site.after (p : Site) (c : List Instruction) (labels : Nat) : Site :=
  { p with next := p.next + c.length, labels := p.labels + labels }

mutual

/-- `s.Emits Γ p c ls vs`: at the site `p`, the statement `s` is lowered to the instructions `c`; it
declares the variables `vs`, and the labels it makes stand before the instructions `ls`. -/
inductive Stmt.Emits (Γ : LoweringContext) :
    Site → Stmt → List Instruction → List Nat → List Param → Prop
  | block {p : Site} {body : List Stmt} {c : List Instruction} {ls : List Nat} {vs : List Param} :
      Stmt.AllEmit Γ p body c ls vs →
      Stmt.Emits Γ p (.block body) (c ++ popCode vs.length) ls []
  | var {p : Site} {decl : VarDecl} :
      decl.init = none →
      Stmt.Emits Γ p (.var decl) [.reserve decl.type] [] [⟨decl.type, decl.name⟩]
  | varInit {p : Site} {decl : VarDecl} {e : Expr} {c : List Instruction} :
      decl.init = some e →
      e.Emits Γ (⟨decl.type, decl.name⟩ :: p.vars) 0 decl.type c →
      Stmt.Emits Γ p (.var decl) (.reserve decl.type :: (c ++ [.storeCell (-2), .pop 1])) []
        [⟨decl.type, decl.name⟩]
  | assign {p : Site} {name : String} {e : Expr} {span : Span} {spot : Spot}
      {c : List Instruction} :
      Spot.ofName? Γ p.vars name = some spot → e.Emits Γ p.vars 0 spot.type c →
      Stmt.Emits Γ p (.assign name e span) (c ++ [spot.store 1, .pop 1]) [] []
  | expr {p : Site} {e : Expr} {t : ValueType} {c : List Instruction} :
      e.Emits Γ p.vars 0 t c →
      Stmt.Emits Γ p (.expr e) (c ++ popCode t.width) [] []
  | ifThen {p : Site} {cond : Expr} {body : Stmt} {c b : List Instruction} {ls : List Nat} :
      cond.Emits Γ p.vars 0 .int c →
      Stmt.ScopedEmit Γ ((p.after c 1).after [.jumpIfZero p.labels] 0) body b ls →
      Stmt.Emits Γ p (.ifThen cond body) (c ++ [.jumpIfZero p.labels] ++ b)
        ((p.next + c.length + 1 + b.length) :: ls) []
  | ifElse {p : Site} {cond : Expr} {body other : Stmt} {c b d : List Instruction}
      {ls ls' : List Nat} :
      cond.Emits Γ p.vars 0 .int c →
      Stmt.ScopedEmit Γ ((p.after c 1).after [.jumpIfZero p.labels] 0) body b ls →
      Stmt.ScopedEmit Γ
        ((p.after (c ++ [.jumpIfZero p.labels] ++ b) (1 + ls.length)).after
          [.jump (p.labels + 1 + ls.length)] 1) other d ls' →
      Stmt.Emits Γ p (.ifElse cond body other)
        (c ++ [.jumpIfZero p.labels] ++ b ++ [.jump (p.labels + 1 + ls.length)] ++ d)
        ((p.next + c.length + 1 + b.length + 1) ::
          (ls ++ (p.next + c.length + 1 + b.length + 1 + d.length) :: ls')) []
  | loop {p : Site} {cond : Expr} {body : Stmt} {c b : List Instruction} {ls : List Nat} :
      cond.Emits Γ p.vars 0 .int c →
      Stmt.ScopedEmit Γ ((p.after c 2).after [.jumpIfZero (p.labels + 1)] 0) body b ls →
      Stmt.Emits Γ p (.loop cond body)
        (c ++ [.jumpIfZero (p.labels + 1)] ++ b ++ [.jump p.labels])
        (p.next :: (p.next + c.length + 1 + b.length + 1) :: ls) []
  | ret {p : Site} {span : Span} :
      Γ.result = .void →
      Stmt.Emits Γ p (.ret none span) (popCode (p.vars.length - Γ.params.length) ++ [.jump 0]) [] []
  | retValue {p : Site} {e : Expr} {span : Span} {c : List Instruction} :
      Γ.result ≠ .void → e.Emits Γ p.vars 0 Γ.result c →
      Stmt.Emits Γ p (.ret (some e) span)
        (c ++ [.storeCell (Spot.fromTop 1 p.vars.length)]
          ++ [.pop (p.vars.length - Γ.params.length + 1), .jump 0]) [] []

/-- `AllEmit Γ p ss c ls vs`: the same for statements one after the other. -/
inductive Stmt.AllEmit (Γ : LoweringContext) :
    Site → List Stmt → List Instruction → List Nat → List Param → Prop
  | nil {p : Site} : Stmt.AllEmit Γ p [] [] [] []
  | cons {p : Site} {s : Stmt} {rest : List Stmt} {c c' : List Instruction} {ls ls' : List Nat}
      {vs vs' : List Param} :
      Stmt.Emits Γ p s c ls vs →
      Stmt.AllEmit Γ { p.after c ls.length with vars := vs ++ p.vars } rest c' ls' vs' →
      Stmt.AllEmit Γ p (s :: rest) (c ++ c') (ls ++ ls') (vs' ++ vs)

/-- `ScopedEmit Γ p s c ls`: the same for a statement with a scope of its own. -/
inductive Stmt.ScopedEmit (Γ : LoweringContext) :
    Site → Stmt → List Instruction → List Nat → Prop
  | intro {p : Site} {s : Stmt} {c : List Instruction} {ls : List Nat} {vs : List Param} :
      Stmt.Emits Γ p s c ls vs → Stmt.ScopedEmit Γ p s (c ++ popCode vs.length) ls

end

/-! ## Functions -/

/-- The label that an instruction jumps to. -/
def Instruction.label? (i : Instruction) : Option Nat :=
  match i.operand with
  | .label l => some l
  | _ => none

/-- The code of a function: its instructions, and the one that each label stands before. -/
structure Routine where
  code : List Instruction
  labels : List (Option Nat)

/-- The code that a function is lowered to. -/
def Lowering.routine (l : Lowering) : Routine := ⟨l.code.toList, l.labels⟩

/-- The rules for a function: label 0 stands before its end, where its parameters are taken. -/
def FunctionDecl.Emits (symbols : Symbols) (decl : FunctionDecl) (R : Routine) : Prop :=
  ∃ c ls, Stmt.Emits (.ofFunction symbols decl) ⟨0, 1, decl.params⟩
      (.block (decl.body.getD [])) c ls [] ∧
    R.code = c ++ popCode decl.params.length ++ [.ending] ∧ R.labels = (c.length :: ls).map some

end Nss
