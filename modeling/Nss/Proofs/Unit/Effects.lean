/-
# What a declaration does

What a declaration does to the symbol table, what is reported of it, and what is added as the body of
a function, told apart from the unit that it is made in: the `Effect` of the declaration.

Some changes of a table are not seen by declarations (`Symbols.Unseen`): the effect of a declaration on
a changed table is the changed effect.  To move bodies is one of them, so that it does not matter where
the code of functions lies.
-/
import Nss.Proofs.Lowering.Signatures
import Nss.Proofs.Unit.Scripts

namespace Nss

/-- What is left of a symbol table, what is reported, and what is added as the body of a function. -/
structure Effect where
  symbols : Symbols
  diagnostics : List Diagnostic
  body : Option (Nat × Lowering)

/-- The same effect with another symbol table. -/
def Effect.map (f : Symbols → Symbols) (e : Effect) : Effect := { e with symbols := f e.symbols }

/-- The effect of declaring a global variable. -/
def VarDecl.effect (decl : VarDecl) (unit : String) (s : Symbols) : Effect :=
  match s.declareGlobal decl unit with
  | .error d => ⟨s, [d], none⟩
  | .ok (s', slot) => ⟨s', Lowering.checkGlobal slot s', none⟩

/-- The effect of declaring a function. -/
def FunctionDecl.effect (decl : FunctionDecl) (unit : String) (s : Symbols) : Effect :=
  match s.declareFunction decl unit with
  | .error d => ⟨s, [d], none⟩
  | .ok (s', id) =>
    if decl.body.isSome then
      let l := Lowering.ofFunction decl s'
      ⟨s', l.diagnostics, some (id, l)⟩
    else ⟨s', [], none⟩

/-- The effect of a declaration. -/
def Declaration.effect (unit : String) (s : Symbols) : Declaration → Effect
  | .global decl => decl.effect unit s
  | .function decl => decl.effect unit s

/-! ## Declarations that are rejected -/

namespace Symbols

variable {s s' : Symbols}

theorem isError_declareFunction {decl : FunctionDecl} {unit : String} {d : Diagnostic}
    (h : s.declareFunction decl unit = .error d) : d.isError = true := by
  simp only [declareFunction] at h
  split at h
  · obtain rfl := Except.error.inj h
    rfl
  · split at h
    · split at h
      · obtain rfl := Except.error.inj h
        rfl
      · split at h
        · obtain rfl := Except.error.inj h
          rfl
        · cases h
    · cases h

theorem isError_declareGlobal {decl : VarDecl} {unit : String} {d : Diagnostic}
    (h : s.declareGlobal decl unit = .error d) : d.isError = true := by
  simp only [declareGlobal] at h
  split at h
  · obtain rfl := Except.error.inj h
    rfl
  · cases h

/-! ## Tables and bodies after an effect -/

theorem body?_declareGlobal {decl : VarDecl} {unit : String} {slot : Nat}
    (h : s.declareGlobal decl unit = .ok (s', slot)) (id : Nat) : s'.body? id = s.body? id := by
  rw [body?, body?, function?, function?, functions_declareGlobal h]

end Symbols

/-- What holds of a symbol table after an effect: it is numbered, no function has another body than
before, and a function that is given one had none. -/
structure Effect.Sound (s : Symbols) (e : Effect) : Prop where
  numbered : e.symbols.Numbered
  bodies : ∀ id, e.symbols.body? id = s.body? id
  known : ∀ id l, e.body = some (id, l) → id < e.symbols.functions.length
  fresh : ∀ id l, e.body = some (id, l) → s.body? id = none

namespace Effect

variable {s : Symbols}

theorem sound_of_none (hs : s.Numbered) (ds : List Diagnostic) : Sound s ⟨s, ds, none⟩ where
  numbered := hs
  bodies _ := rfl
  known := nofun
  fresh := nofun

end Effect

theorem VarDecl.effect_sound {s : Symbols} (hs : s.Numbered) (decl : VarDecl) (unit : String) :
    (decl.effect unit s).Sound s := by
  rw [VarDecl.effect]
  cases h : s.declareGlobal decl unit with
  | error d => exact Effect.sound_of_none hs [d]
  | ok declared => exact ⟨hs.declareGlobal h, Symbols.body?_declareGlobal h, nofun, nofun⟩

theorem FunctionDecl.effect_sound {s : Symbols} (hs : s.Numbered) (decl : FunctionDecl)
    (unit : String) : (decl.effect unit s).Sound s := by
  rw [FunctionDecl.effect]
  cases h : s.declareFunction decl unit with
  | error d => exact Effect.sound_of_none hs [d]
  | ok declared =>
      obtain ⟨s', id⟩ := declared
      have hnumbered := hs.declareFunction h
      have hknown := hs.declared h
      dsimp only
      split
      · next hbody =>
          refine ⟨hnumbered, hknown.bodies, ?_, ?_⟩
          · intro id' l heq
            obtain ⟨rfl, -⟩ := Prod.mk.inj (Option.some.inj heq)
            exact hknown.known
          · intro id' l heq
            obtain ⟨rfl, -⟩ := Prod.mk.inj (Option.some.inj heq)
            exact hknown.fresh hbody
      · exact ⟨hnumbered, hknown.bodies, nofun, nofun⟩

theorem Declaration.effect_sound {s : Symbols} (hs : s.Numbered) (decl : Declaration)
    (unit : String) : (decl.effect unit s).Sound s := by
  cases decl with
  | global decl => exact decl.effect_sound hs unit
  | function decl => exact decl.effect_sound hs unit

/-- A declaration leaves the table as it was, or is accepted. -/
theorem Declaration.effect_symbols (decl : Declaration) (unit : String) (s : Symbols) :
    (decl.effect unit s).symbols = s ∨
      (∃ v slot, decl = .global v ∧
        s.declareGlobal v unit = .ok ((decl.effect unit s).symbols, slot)) ∨
      ∃ f id, decl = .function f ∧
        s.declareFunction f unit = .ok ((decl.effect unit s).symbols, id) := by
  cases decl with
  | global v =>
      rw [effect, VarDecl.effect]
      cases h : s.declareGlobal v unit with
      | error d => exact .inl rfl
      | ok declared => exact .inr (.inl ⟨v, declared.2, rfl, h⟩)
  | function f =>
      rw [effect, FunctionDecl.effect]
      cases h : s.declareFunction f unit with
      | error d => exact .inl rfl
      | ok declared =>
          refine .inr (.inr ⟨f, declared.2, rfl, h.trans ?_⟩)
          dsimp only
          split
          · rfl
          · rfl

/-- Code is only given by the definition of a function that is accepted. -/
theorem Declaration.effect_body {decl : Declaration} {unit : String} {s : Symbols} {id : Nat}
    {l : Lowering} (h : (decl.effect unit s).body = some (id, l)) :
    ∃ f s', decl = .function f ∧ f.body.isSome = true ∧
      s.declareFunction f unit = .ok (s', id) ∧ l = .ofFunction f s' ∧
      decl.effect unit s = ⟨s', l.diagnostics, some (id, l)⟩ := by
  cases decl with
  | global v =>
      rw [effect, VarDecl.effect] at h
      split at h
      · cases h
      · cases h
  | function f =>
      rw [effect, FunctionDecl.effect] at h ⊢
      cases hdeclare : s.declareFunction f unit with
      | error d =>
          rw [hdeclare] at h
          cases h
      | ok declared =>
          obtain ⟨s', id'⟩ := declared
          rw [hdeclare] at h
          dsimp only at h ⊢
          split at h
          · next hbody =>
              obtain ⟨rfl, rfl⟩ := Prod.mk.inj (Option.some.inj h)
              exact ⟨f, s', rfl, hbody, hdeclare, rfl, if_pos hbody⟩
          · cases h

/-! ## Declarations of scripts -/

theorem Declaration.effect_scripted {s : Symbols} (hs : s.Scripted) {decl : Declaration}
    (hdecl : decl.Proper) (unit : String) : (decl.effect unit s).symbols.Scripted := by
  rcases decl.effect_symbols unit s with hsame | ⟨v, slot, rfl, hv⟩ | ⟨f, id, rfl, hf⟩
  · rw [hsame]
    exact hs
  · cases hdecl with
    | global hvoid => exact hs.declareGlobal hvoid hv
  · cases hdecl with
    | function hnonVoid hname => exact (hs.declareFunction hnonVoid hname hf).1

/-- A declaration takes no function away. -/
theorem Declaration.length_effect {s : Symbols} (hs : s.Numbered) (decl : Declaration)
    (unit : String) : s.functions.length ≤ (decl.effect unit s).symbols.functions.length := by
  rcases decl.effect_symbols unit s with hsame | ⟨v, slot, rfl, hv⟩ | ⟨f, id, rfl, hf⟩
  · exact Nat.le_of_eq (by rw [hsame])
  · exact Nat.le_of_eq (by rw [Symbols.functions_declareGlobal hv])
  · exact (hs.declared hf).length

/-! ## Changes that declarations do not see -/

/-- Two functions are the same to a declaration: they are called in the same way, and both of them
have a body, or none has. -/
structure FunctionSymbol.Alike (f g : FunctionSymbol) : Prop extends f.SameCall g where
  body : g.body.isSome = f.body.isSome

namespace Symbols

/-- A change of symbol tables that a declaration does not see, if it is made in one unit before the
change and in another one after it. -/
structure Unseen (change : Symbols → Symbols) (unit unit' : String) : Prop where
  lookup : ∀ s name, Option.Rel FunctionSymbol.Alike (s.lookup? name) ((change s).lookup? name)
  globals : ∀ s, (change s).globals.map GlobalSymbol.entry = s.globals.map GlobalSymbol.entry
  insert : ∀ s name result params, (change s).insert name result params unit'
    = (change (s.insert name result params unit).1, s.functions.length)
  extend : ∀ s decl,
    { change s with globals := (change s).globals ++ [⟨s.globals.length, decl, unit'⟩] }
      = change { s with globals := s.globals ++ [⟨s.globals.length, decl, unit⟩] }

namespace Unseen

variable {change : Symbols → Symbols} {unit unit' : String}

theorem within (h : Unseen change unit unit') (s : Symbols) : s.Within (change s) where
  lookup {name f} hf := by
    have hrel := h.lookup s name
    rw [hf] at hrel
    generalize (change s).lookup? name = found at hrel
    cases hrel with
    | some hsame => exact ⟨_, rfl, hsame.toSameCall⟩
  globals := h.globals s

theorem within_back (h : Unseen change unit unit') (s : Symbols) : (change s).Within s where
  lookup {name f} hf := by
    have hrel := h.lookup s name
    rw [hf] at hrel
    generalize s.lookup? name = found at hrel
    cases hrel with
    | some hsame => exact ⟨_, rfl, hsame.id.symm, hsame.result.symm, hsame.params.symm⟩
  globals := (h.globals s).symm

theorem isSome_lookup? (h : Unseen change unit unit') (s : Symbols) (name : String) :
    ((change s).lookup? name).isSome = (s.lookup? name).isSome := by
  have hrel := h.lookup s name
  generalize s.lookup? name = found at hrel
  generalize (change s).lookup? name = found' at hrel
  cases hrel with
  | none | some _ => rfl

theorem isSome_lookupGlobal? (h : Unseen change unit unit') (s : Symbols) (name : String) :
    ((change s).lookupGlobal? name).isSome = (s.lookupGlobal? name).isSome := by
  simpa using congrArg Option.isSome (entry_lookupGlobal? (h.globals s) name)

theorem declareGlobal (h : Unseen change unit unit') (s : Symbols) (decl : VarDecl) :
    (change s).declareGlobal decl unit'
      = (s.declareGlobal decl unit).map fun declared => (change declared.1, declared.2) := by
  rw [Symbols.declareGlobal, Symbols.declareGlobal, h.isSome_lookupGlobal?, h.isSome_lookup?,
    (h.within s).length_globals]
  split
  · rfl
  · dsimp only
    rw [h.extend]
    rfl

theorem declareFunction (h : Unseen change unit unit') (s : Symbols) (decl : FunctionDecl) :
    (change s).declareFunction decl unit'
      = (s.declareFunction decl unit).map fun declared => (change declared.1, declared.2) := by
  have hrel := h.lookup s decl.name
  rw [Symbols.declareFunction, Symbols.declareFunction, h.isSome_lookupGlobal?, h.insert]
  generalize s.lookup? decl.name = found at hrel ⊢
  generalize (change s).lookup? decl.name = found' at hrel ⊢
  split
  · rfl
  · cases hrel with
    | none => rfl
    | some hsame =>
        simp only [hsame.result, hsame.params, hsame.id, hsame.body]
        split
        · rfl
        · split
          · rfl
          · rfl

/-- The effect of a declaration is the same on a changed table. -/
theorem effect (h : Unseen change unit unit') (s : Symbols) (decl : Declaration) :
    decl.effect unit' (change s) = (decl.effect unit s).map change := by
  cases decl with
  | global decl =>
      rw [Declaration.effect, Declaration.effect, VarDecl.effect, VarDecl.effect, h.declareGlobal]
      cases s.declareGlobal decl unit with
      | error d => rfl
      | ok declared =>
          dsimp only [Except.map, Effect.map]
          rw [Lowering.checkGlobal_congr (h.within _) (h.within_back _)]
  | function decl =>
      rw [Declaration.effect, Declaration.effect, FunctionDecl.effect, FunctionDecl.effect,
        h.declareFunction]
      cases s.declareFunction decl unit with
      | error d => rfl
      | ok declared =>
          dsimp only [Except.map, Effect.map]
          rw [Lowering.ofFunction_congr (h.within _) (h.within_back _)]
          split
          · rfl
          · rfl

end Unseen

end Symbols

/-! ## Moved bodies -/

namespace Symbols

variable {s : Symbols}

/-- A function with its body moved. -/
def moveBody (offset : Nat) (f : FunctionSymbol) : FunctionSymbol :=
  { f with body := f.body.map (·.moved offset) }

theorem shift_eq (s : Symbols) (id offset : Nat) :
    s.shift id offset = s.modifyFunction id (moveBody offset) :=
  rfl

/-- Looking for something that a change keeps finds what was found before, changed or not. -/
theorem find?_modify {α : Type} {p : α → Bool} {R : α → α → Prop} {change : α → α}
    (h : ∀ a, p (change a) = p a) (hsame : ∀ a, R a a) (hchange : ∀ a, R a (change a)) :
    ∀ (l : List α) (i : Nat), Option.Rel R (l.find? p) ((l.modify i change).find? p)
  | [], i => by
      rw [List.modify_nil]
      exact .none
  | a :: l, 0 => by
      rw [List.modify_zero_cons, List.find?_cons, List.find?_cons, h]
      cases p a with
      | true => exact .some (hchange a)
      | false =>
          dsimp only
          cases l.find? p with
          | none => exact .none
          | some b => exact .some (hsame b)
  | a :: l, i + 1 => by
      rw [List.modify_succ_cons, List.find?_cons, List.find?_cons]
      cases p a with
      | true => exact .some (hsame a)
      | false => exact find?_modify h hsame hchange l i

theorem modify_append_singleton {α : Type} {change : α → α} {a : α} (h : change a = a) :
    ∀ (l : List α) (i : Nat), (l ++ [a]).modify i change = l.modify i change ++ [a]
  | [], 0 => by
      rw [List.modify_nil]
      exact congrArg (· :: []) h
  | [], i + 1 => by
      rw [List.nil_append, List.modify_succ_cons, List.modify_nil, List.modify_nil, List.nil_append]
  | b :: l, 0 => rfl
  | b :: l, i + 1 => congrArg (b :: ·) (modify_append_singleton h l i)

/-- Where the body of a function lies is not seen by a declaration. -/
theorem unseen_shift (id offset : Nat) (unit : String) : Unseen (·.shift id offset) unit unit where
  lookup s name := by
    have hsame (f : FunctionSymbol) : f.Alike f := ⟨⟨rfl, rfl, rfl⟩, rfl⟩
    have hmoved (f : FunctionSymbol) : f.Alike (moveBody offset f) :=
      ⟨⟨rfl, rfl, rfl⟩, Option.isSome_map⟩
    refine find?_modify ?_ hsame hmoved s.functions id
    exact fun _ => rfl
  globals _ := rfl
  insert s name result params := by
    have hlength : (s.shift id offset).functions.length = s.functions.length :=
      length_modifyFunction id _
    rw [Symbols.insert, Symbols.insert, hlength, shift_eq, shift_eq, modifyFunction, modifyFunction,
      modify_append_singleton rfl]
  extend _ _ := rfl

end Symbols

/-- The effect of a declaration is the same on a table with moved bodies. -/
theorem Declaration.effect_rebase (decl : Declaration) (unit : String) (s : Symbols)
    (ids : List Nat) (offset : Nat) :
    decl.effect unit (s.rebase ids offset) = (decl.effect unit s).map (·.rebase ids offset) := by
  induction ids generalizing s with
  | nil => rfl
  | cons id ids ih =>
      show decl.effect unit ((s.shift id offset).rebase ids offset) = _
      rw [ih, (Symbols.unseen_shift id offset unit).effect]
      rfl

/-! ## Moving a body that is given -/

namespace Symbols

variable {s : Symbols}

theorem attachBody_shift_ne {id id' : Nat} (hne : id' ≠ id) (body : FunctionBody) (offset : Nat) :
    (s.attachBody id body).shift id' offset = (s.shift id' offset).attachBody id body := by
  rw [attachBody, attachBody, shift_eq, shift_eq, modifyFunction, modifyFunction, modifyFunction,
    modifyFunction]
  dsimp only
  rw [List.modify_modify_ne _ _ _ (Ne.symm hne)]

theorem attachBody_shift_self (id : Nat) (body : FunctionBody) (offset : Nat) :
    (s.attachBody id body).shift id offset = s.attachBody id (body.moved offset) := by
  rw [attachBody, attachBody, shift_eq, modifyFunction, modifyFunction, modifyFunction]
  dsimp only
  rw [List.modify_modify_eq]
  rfl

/-- A body that is given before all bodies are moved is moved along. -/
theorem attachBody_rebase {ids : List Nat} {id : Nat} (h : id ∉ ids) (body : FunctionBody)
    (offset : Nat) :
    (s.attachBody id body).rebase (ids ++ [id]) offset
      = (s.rebase ids offset).attachBody id (body.moved offset) := by
  induction ids generalizing s with
  | nil => exact attachBody_shift_self id body offset
  | cons id' ids ih =>
      obtain ⟨hne, hnot⟩ := List.ne_and_not_mem_of_not_mem_cons h
      show ((s.attachBody id body).shift id' offset).rebase (ids ++ [id]) offset = _
      rw [attachBody_shift_ne (Ne.symm hne), ih hnot]
      rfl

end Symbols

end Nss
