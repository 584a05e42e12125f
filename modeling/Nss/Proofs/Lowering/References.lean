/-
# What code refers to

The functions that a piece of code calls are those that its source calls by name, and it addresses
global variables through the base pointer exactly if its source uses a variable that is not declared
there:

    calls in the code              names in `callees`, looked up in the table
    CPTOPBP or CPDOWNBP            `usesOutside`: a name that is bound by no declaration in sight
    SAVEBP                         nowhere: only the loader has it

`Refers` puts this together for one piece of code, and pieces one behind the other refer to what each
of them refers to.  The induction is on the rules of emission; variables in sight are told by their
names only.
-/
import Nss.Proofs.Lowering.Height
import Nss.Proofs.Lowering.Renaming
import Nss.Proofs.Operators
import Nss.Program.Reachable

namespace Nss

/-- An instruction addresses a global variable through the base pointer. -/
def Instruction.usesBase (i : Instruction) : Bool := decide (i.op = .cpTopBp ∨ i.op = .cpDownBp)

/-! ## Variables that are not declared -/

mutual

/-- Whether an expression uses a variable that has none of some names. -/
def Expr.usesOutside (bound : List String) : Expr → Bool
  | .int _ _ | .float _ _ | .string _ _ | .object _ _ => false
  | .ident name _ => decide (name ∉ bound)
  | .call _ args _ => Expr.anyUsesOutside bound args
  | .unary _ x _ => x.usesOutside bound
  | .binary _ l r _ => l.usesOutside bound || r.usesOutside bound

/-- Whether one of some expressions uses a variable that has none of some names. -/
def Expr.anyUsesOutside (bound : List String) : List Expr → Bool
  | [] => false
  | e :: rest => e.usesOutside bound || Expr.anyUsesOutside bound rest

end

mutual

/-- Whether a statement uses a variable that has none of some names and that it does not declare
itself. -/
def Stmt.usesOutside (bound : List String) : Stmt → Bool
  | .block body => Stmt.anyUsesOutside bound body
  | .var decl => (decl.init.map (Expr.usesOutside (decl.name :: bound))).getD false
  | .assign name value _ => decide (name ∉ bound) || value.usesOutside bound
  | .expr value => value.usesOutside bound
  | .ifThen cond body | .loop cond body => cond.usesOutside bound || body.usesOutside bound
  | .ifElse cond body other =>
    cond.usesOutside bound || (body.usesOutside bound || other.usesOutside bound)
  | .ret value _ => (value.map (Expr.usesOutside bound)).getD false

/-- Whether one of some statements uses such a variable, those before it being done. -/
def Stmt.anyUsesOutside (bound : List String) : List Stmt → Bool
  | [] => false
  | s :: rest =>
    s.usesOutside bound || Stmt.anyUsesOutside (s.declared.map Param.name ++ bound) rest

end

/-- Whether a function uses a variable that is neither a parameter nor declared in its body. -/
def FunctionDecl.usesOutside (decl : FunctionDecl) : Bool :=
  Stmt.anyUsesOutside (decl.params.map Param.name) (decl.body.getD [])

/-! ## Pieces of code -/

/-- Code calls the functions with some names, and addresses global variables or not. -/
structure Refers (symbols : Symbols) (code : List Instruction) (called : List String)
    (outside : Bool) : Prop where
  calls : ∀ id, (∃ i ∈ code, i.callee? = some id) ↔
    ∃ name ∈ called, ∃ f, symbols.lookup? name = some f ∧ f.id = id
  known : ∀ name ∈ called, (symbols.lookup? name).isSome = true
  uses : code.any Instruction.usesBase = outside
  saves : ∀ i ∈ code, i.op ≠ .saveBp

namespace Refers

variable {symbols : Symbols} {c c' : List Instruction} {called called' : List String} {o o' : Bool}

theorem nil : Refers symbols [] [] false where
  calls id := by simp
  known := List.forall_mem_nil _
  uses := rfl
  saves := List.forall_mem_nil _

theorem append (h : Refers symbols c called o) (h' : Refers symbols c' called' o') :
    Refers symbols (c ++ c') (called ++ called') (o || o') where
  calls id := by
    simp only [List.mem_append, or_and_right, exists_or]
    exact or_congr (h.calls id) (h'.calls id)
  known := List.forall_mem_append.mpr ⟨h.known, h'.known⟩
  uses := by rw [List.any_append, h.uses, h'.uses]
  saves := List.forall_mem_append.mpr ⟨h.saves, h'.saves⟩

/-- The order of names does not matter. -/
theorem perm (h : Refers symbols c called o) (hperm : called.Perm called') :
    Refers symbols c called' o where
  calls id := by simpa only [hperm.mem_iff] using h.calls id
  known name hname := h.known name (hperm.mem_iff.mpr hname)
  uses := h.uses
  saves := h.saves

/-- One instruction that calls nothing. -/
theorem single {i : Instruction} (hcallee : i.callee? = none) (hop : i.op ≠ .saveBp) :
    Refers symbols [i] [] i.usesBase where
  calls id := by simp [hcallee]
  known := List.forall_mem_nil _
  uses := Bool.or_false _
  saves := List.forall_mem_singleton.mpr hop

/-- Code that refers to nothing changes nothing behind another piece, or before it. -/
theorem then_plain (h : Refers symbols c called o) (h' : Refers symbols c' [] false) :
    Refers symbols (c ++ c') called o := by
  have hboth := h.append h'
  rwa [List.append_nil, Bool.or_false] at hboth

theorem plain_then (h : Refers symbols c [] false) (h' : Refers symbols c' called o) :
    Refers symbols (c ++ c') called o := by
  have hboth := h.append h'
  rwa [List.nil_append, Bool.false_or] at hboth

theorem callTo {name : String} {f : FunctionSymbol} (hf : symbols.lookup? name = some f) :
    Refers symbols [.callTo f.id] [name] false where
  calls id := by
    simp only [List.mem_singleton, exists_eq_left, hf, Option.some.injEq, exists_eq_left']
    exact Option.some_inj
  known := List.forall_mem_singleton.mpr (by rw [hf]; rfl)
  uses := rfl
  saves := List.forall_mem_singleton.mpr nofun

theorem simple {op : Op} (hsave : op ≠ .saveBp) (htop : op ≠ .cpTopBp) (hdown : op ≠ .cpDownBp) :
    Refers symbols [.simple op] [] false := by
  have hnone : (Instruction.simple op).usesBase = false :=
    decide_eq_false (not_or.mpr ⟨htop, hdown⟩)
  exact hnone ▸ single rfl hsave

end Refers

/-! ## Variables -/

namespace Spot

/-- Whether a spot is among the globals. -/
def isGlobal : Spot → Bool
  | cell _ _ => false
  | global _ _ => true

theorem isGlobal_below (spot : Spot) : spot.below.isGlobal = spot.isGlobal := by
  cases spot <;> rfl

/-- A name leads to a global variable if it is bound by none of the variables in sight. -/
theorem isGlobal_ofName? {Γ : LoweringContext} {name : String} : ∀ {vars : List Param} {spot : Spot},
    ofName? Γ vars name = some spot → spot.isGlobal = decide (name ∉ vars.map Param.name)
  | [], spot, h => by
      cases hvis : Γ.globalsVisible with
      | false => simp [ofName?, hvis] at h
      | true =>
          have hglobal : (Γ.symbols.lookupGlobal? name).map (fun g => global g.slot g.type)
              = some spot := by simpa [ofName?, hvis] using h
          obtain ⟨g, -, rfl⟩ := Option.map_eq_some_iff.mp hglobal
          rfl
  | p :: vars, spot, h => by
      rw [ofName?_cons] at h
      split at h
      · next heq =>
          obtain rfl := Option.some.inj h
          simp [isGlobal, heq]
      · next hne =>
          obtain ⟨spot', hspot, rfl⟩ := Option.map_eq_some_iff.mp h
          rw [isGlobal_below, isGlobal_ofName? hspot]
          simp [Ne.symm hne]

variable {symbols : Symbols} {Γ : LoweringContext} {vars : List Param} {name : String} {spot : Spot}

theorem refers_load (h : ofName? Γ vars name = some spot) (temps : Nat) :
    Refers symbols [spot.load temps] [] (decide (name ∉ vars.map Param.name)) := by
  rw [← isGlobal_ofName? h]
  cases spot with
  | cell i t | global slot t => exact .single rfl nofun

theorem refers_store (h : ofName? Γ vars name = some spot) (temps : Nat) :
    Refers symbols [spot.store temps] [] (decide (name ∉ vars.map Param.name)) := by
  rw [← isGlobal_ofName? h]
  cases spot with
  | cell i t | global slot t => exact .single rfl nofun

end Spot

section Plain

variable (symbols : Symbols)

theorem refers_popCode (n : Nat) : Refers symbols (popCode n) [] false := by
  rw [popCode]
  split
  · exact .single rfl (by rintro ⟨⟩)
  · exact .nil

theorem refers_reserveCode (t : ValueType) : Refers symbols (reserveCode t) [] false := by
  rw [reserveCode]
  split
  · exact .nil
  · exact .simple (by rintro ⟨⟩) (by rintro ⟨⟩) (by rintro ⟨⟩)

end Plain

/-! ## Expressions -/

/-- The operation of an operator has nothing to do with the base pointer. -/
theorem refers_operation (symbols : Symbols) {o : Op}
    (h : o.binary?.isSome = true ∨ o.unary?.isSome = true) :
    Refers symbols [.simple o] [] false := by
  refine .simple ?_ ?_ ?_
  all_goals
    rintro rfl
    simp [Op.binary?, Op.unary?] at h

theorem refers_unary (symbols : Symbols) {op : UnaryOp} {t : ValueType} {o : Op}
    (h : op.operation? t = some o) : Refers symbols [.simple o] [] false :=
  refers_operation symbols (.inr (by rw [UnaryOp.unary?_of_operation? h]; rfl))

theorem refers_binary (symbols : Symbols) {op : BinaryOp} {l r t : ValueType} {o : Op}
    (h : op.operation? l r = some (o, t)) : Refers symbols [.simple o] [] false := by
  obtain ⟨pair, -, hbinary, -⟩ := BinaryOp.binary?_of_operation? h
  exact refers_operation symbols (.inl (by rw [hbinary]; rfl))

mutual

/-- An expression's code refers to what the expression refers to. -/
theorem Expr.Emits.refers {Γ : LoweringContext} {vars : List Param} :
    ∀ {e : Expr} {temps : Nat} {t : ValueType} {c : List Instruction}, e.Emits Γ vars temps t c →
      Refers Γ.symbols c e.callees (e.usesOutside (vars.map Param.name))
  | .int _ _, _, _, _, .int => by
      rw [Expr.callees, Expr.usesOutside]
      exact .single rfl nofun
  | .float _ _, _, _, _, .float => by
      rw [Expr.callees, Expr.usesOutside]
      exact .single rfl nofun
  | .string _ _, _, _, _, .string _ => by
      rw [Expr.callees, Expr.usesOutside]
      exact .single rfl nofun
  | .object _ _, _, _, _, .object => by
      rw [Expr.callees, Expr.usesOutside]
      exact .single rfl nofun
  | .ident _ _, _, _, _, .ident hspot => by
      rw [Expr.callees, Expr.usesOutside]
      exact Spot.refers_load hspot _
  | .call name args _, _, _, _, .call (f := f) hf _ hargs => by
      rw [Expr.callees, Expr.usesOutside]
      have hcode := ((refers_reserveCode Γ.symbols f.result).plain_then hargs.refers).append
        (.callTo hf)
      rw [Bool.or_false] at hcode
      exact hcode.perm (List.perm_append_singleton _ _)
  | .unary _ _ _, _, _, _, .unary hx ho => by
      rw [Expr.callees, Expr.usesOutside]
      exact hx.refers.then_plain (refers_unary _ ho)
  | .binary _ _ _ _, _, _, _, .binary hl hr ho => by
      rw [Expr.callees, Expr.usesOutside]
      exact (hl.refers.append hr.refers).then_plain (refers_binary _ ho)

theorem Expr.ArgsEmit.refers {Γ : LoweringContext} {vars : List Param} :
    ∀ {args : List Expr} {temps : Nat} {types : List ValueType} {c : List Instruction},
      Expr.ArgsEmit Γ vars temps args types c →
      Refers Γ.symbols c (Expr.allCallees args) (Expr.anyUsesOutside (vars.map Param.name) args)
  | [], _, _, _, .nil => by
      rw [Expr.allCallees, Expr.anyUsesOutside]
      exact .nil
  | _ :: _, _, _, _, .cons _ hargs harg => by
      rw [Expr.allCallees, Expr.anyUsesOutside, Bool.or_comm]
      exact (hargs.refers.append harg.refers).perm List.perm_append_comm

end

/-! ## Statements -/

theorem refers_pop (symbols : Symbols) (n : Nat) : Refers symbols [.pop n] [] false :=
  .single rfl nofun

theorem refers_storeCell (symbols : Symbols) (n : Int) : Refers symbols [.storeCell n] [] false :=
  .single rfl nofun

theorem refers_jump (symbols : Symbols) (label : Nat) : Refers symbols [.jump label] [] false :=
  .single rfl nofun

theorem refers_jumpIfZero (symbols : Symbols) (label : Nat) :
    Refers symbols [.jumpIfZero label] [] false :=
  .single rfl nofun

mutual

/-- A statement's code refers to what the statement refers to. -/
theorem Stmt.Emits.refers {Γ : LoweringContext} :
    ∀ {s : Stmt} {p : Site} {c : List Instruction} {ls : List Nat} {vs : List Param},
      Stmt.Emits Γ p s c ls vs →
      Refers Γ.symbols c s.callees (s.usesOutside (p.vars.map Param.name))
  | .block _, p, _, _, _, .block hbody => by
      rw [Stmt.callees, Stmt.usesOutside]
      exact hbody.refers.then_plain (refers_popCode _ _)
  | .var decl, p, _, _, _, .var hinit => by
      rw [Stmt.callees, Stmt.usesOutside, VarDecl.callees, hinit]
      exact .single rfl nofun
  | .var decl, p, _, _, _, .varInit (c := c) hinit he => by
      rw [Stmt.callees, Stmt.usesOutside, VarDecl.callees, hinit]
      have hreserve : Refers Γ.symbols [.reserve decl.type] [] false := .single rfl nofun
      exact hreserve.plain_then (he.refers.then_plain
        ((refers_storeCell _ (-2)).plain_then (refers_pop _ 1)))
  | .assign _ _ _, p, _, _, _, .assign hspot he => by
      rw [Stmt.callees, Stmt.usesOutside, Bool.or_comm]
      have hall := he.refers.append ((Spot.refers_store hspot 1).then_plain (refers_pop _ 1))
      rwa [List.append_nil] at hall
  | .expr _, p, _, _, _, .expr he => by
      rw [Stmt.callees, Stmt.usesOutside]
      exact he.refers.then_plain (refers_popCode _ _)
  | .ifThen _ _, p, _, _, _, .ifThen hcond hbody => by
      rw [Stmt.callees, Stmt.usesOutside]
      exact (hcond.refers.then_plain (refers_jumpIfZero _ _)).append hbody.refers
  | .ifElse _ _ _, p, _, _, _, .ifElse hcond hbody hother => by
      rw [Stmt.callees, Stmt.usesOutside, ← List.append_assoc, ← Bool.or_assoc]
      exact ((((hcond.refers.then_plain (refers_jumpIfZero _ _)).append hbody.refers).then_plain
        (refers_jump _ _)).append hother.refers)
  | .loop _ _, p, _, _, _, .loop hcond hbody => by
      rw [Stmt.callees, Stmt.usesOutside]
      exact ((hcond.refers.then_plain (refers_jumpIfZero _ _)).append hbody.refers).then_plain
        (refers_jump _ _)
  | .ret none _, p, _, _, _, .ret _ => by
      rw [Stmt.callees, Stmt.usesOutside]
      exact (refers_popCode _ _).then_plain (refers_jump _ _)
  | .ret (some _) _, p, _, _, _, .retValue _ he => by
      rw [Stmt.callees, Stmt.usesOutside]
      exact (he.refers.then_plain (refers_storeCell _ _)).then_plain
        ((refers_pop _ _).plain_then (refers_jump _ 0))

/-- The code of statements refers to what the statements refer to. -/
theorem Stmt.AllEmit.refers {Γ : LoweringContext} :
    ∀ {ss : List Stmt} {p : Site} {c : List Instruction} {ls : List Nat} {vs : List Param},
      Stmt.AllEmit Γ p ss c ls vs →
      Refers Γ.symbols c (Stmt.allCallees ss) (Stmt.anyUsesOutside (p.vars.map Param.name) ss)
  | [], p, _, _, _, .nil => by
      rw [Stmt.allCallees, Stmt.anyUsesOutside]
      exact .nil
  | _ :: _, p, _, _, _, .cons hs hrest => by
      rw [Stmt.allCallees, Stmt.anyUsesOutside]
      have hbehind := hrest.refers
      rw [hs.eq_declared, List.map_append] at hbehind
      exact hs.refers.append hbehind

/-- The code of a statement with a scope of its own refers to what the statement refers to. -/
theorem Stmt.ScopedEmit.refers {Γ : LoweringContext} :
    ∀ {s : Stmt} {p : Site} {c : List Instruction} {ls : List Nat},
      Stmt.ScopedEmit Γ p s c ls →
      Refers Γ.symbols c s.callees (s.usesOutside (p.vars.map Param.name))
  | _, _, _, _, .intro hs => hs.refers.then_plain (refers_popCode _ _)

end

/-- The code of a function refers to what the function refers to. -/
theorem FunctionDecl.Emits.refers {symbols : Symbols} {decl : FunctionDecl} {R : Routine}
    (h : decl.Emits symbols R) : Refers symbols R.code decl.callees decl.usesOutside := by
  obtain ⟨c, ls, hbody, hcode, -⟩ := h
  have hrefers := hbody.refers
  rw [Stmt.callees, Stmt.usesOutside] at hrefers
  have hcallees : Stmt.allCallees (decl.body.getD []) = decl.callees := by
    rw [FunctionDecl.callees]
    cases decl.body with
    | none => rw [Option.getD_none, Stmt.allCallees, Option.map_none, Option.getD_none]
    | some body => rfl
  rw [hcode, ← hcallees]
  exact (hrefers.then_plain (refers_popCode _ _)).then_plain
    (.simple (by decide) (by decide) (by decide))

end Nss
