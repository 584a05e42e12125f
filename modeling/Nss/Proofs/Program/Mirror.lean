/-
# Programs that mirror each other

The functions of two programs mirror each other if those that have a common name are called in the
same way and have bodies that are the same but for the numbers in their calls, and if the first
program calls none of the functions that only the second one has.  Then

    what a function calls is mirrored by what its mirror calls      `Alike.calls_iff`
    so the mirrors of the functions that can be reached can be      `Alike.reaches_iff`
    reached, and they are all that can be reached

If the functions of both programs come in the same order, their mirrors lie at the same offsets
(`LaidOut.mirror`), every operand has the same number, and the scripts are the same bytes
(`Script.artifact_eq`).  If they come in another order, there is at least a script of the second
program if there is one of the first, and it has the same size (`Script.exists_mirror`).
-/
import Nss.Proofs.Program.Success
import Nss.Proofs.Unit.InPlace
import Nss.Proofs.Unit.Mirror
import Mathlib.Data.List.Find

/-- Two lists with the same elements that are left of one list are the same. -/
theorem List.Sublist.eq_of_perm {α : Type} {l l' m : List α} (h : l.Sublist m) (hm : m.Nodup)
    (h' : l'.Sublist m) (hperm : l.Perm l') : l = l' := by
  induction h generalizing l' with
  | slnil => exact (List.sublist_nil.mp h').symm
  | cons a h ih =>
      obtain ⟨hnot, hm⟩ := List.nodup_cons.mp hm
      have hnot' : a ∉ l' := fun ha => hnot (h.subset (hperm.mem_iff.mpr ha))
      cases h' with
      | cons _ h' => exact ih hm h' hperm
      | cons_cons _ h' => exact absurd List.mem_cons_self hnot'
  | cons_cons a h ih =>
      obtain ⟨hnot, hm⟩ := List.nodup_cons.mp hm
      cases h' with
      | cons _ h' => exact absurd (h'.subset (hperm.mem_iff.mp List.mem_cons_self)) hnot
      | cons_cons _ h' => rw [ih hm h' hperm.cons_inv]

namespace Nss

open Steps Listing

/-- The function of a table that has the name of another function. -/
def Symbols.mirror (t : Symbols) (f : FunctionSymbol) : FunctionSymbol :=
  (t.lookup? f.name).getD f

/-- A function at its place in the second program. -/
def Placed.mirror (ρ : Nat → Nat) (t : Symbols) (p : Placed) : Placed where
  symbol := t.mirror p.symbol
  body := (t.mirror p.symbol).body.getD p.body
  code := p.code.map (Instruction.renumbered ρ)
  offsets := p.offsets

namespace Program

/-- Two programs whose functions mirror each other. -/
structure Alike (ρ : Nat → Nat) (E : List String) (xs ys : List Instruction) (s t : Symbols) :
    Prop where
  symbols : Symbols.Mirrors ρ E xs ys s t
  numbered : s.Numbered
  numberedMirror : t.Numbered
  nodup : s.names.Nodup
  nodupMirror : t.names.Nodup
  main : Symbols.mainName ∉ E
  condition : Symbols.conditionName ∉ E
  loader : globalsLoader ∉ E

variable {ρ : Nat → Nat} {E : List String} {xs ys : List Instruction} {s t : Symbols}
  {f f' g : FunctionSymbol}

theorem callee?_renumbered (i : Instruction) : (i.renumbered ρ).callee? = i.callee?.map ρ := by
  rw [Instruction.callee?, Instruction.callee?, Instruction.renumbered]
  cases i.operand <;> rfl

namespace Alike

/-! ## Functions -/

theorem name_notMem (h : Alike ρ E xs ys s t) (hf : f ∈ s.functions) : f.name ∉ E := by
  intro hname
  have hnone := h.symbols.unknown f.name hname
  rw [Symbols.lookup?_of_mem h.nodup hf] at hnone
  cases hnone

/-- Every function of the first program has a mirror in the second one. -/
theorem mirrors (h : Alike ρ E xs ys s t) (hf : f ∈ s.functions) :
    t.mirror f ∈ t.functions ∧ f.Mirrors ρ xs ys (t.mirror f) := by
  have hrel := h.symbols.lookup f.name (h.name_notMem hf)
  rw [Symbols.lookup?_of_mem h.nodup hf] at hrel
  obtain ⟨g, hg, hfg⟩ := hrel.exists_right
  rw [Symbols.mirror, hg]
  exact ⟨List.mem_of_find?_eq_some hg, hfg⟩

/-- The mirror of a function is found by its name. -/
theorem lookup?_mirror (h : Alike ρ E xs ys s t) {name : String} (hf : s.lookup? name = some f) :
    t.lookup? name = some (t.mirror f) := by
  obtain ⟨hmem, hmirrors⟩ := h.mirrors (List.mem_of_find?_eq_some hf)
  have hlookup := Symbols.lookup?_of_mem h.nodupMirror hmem
  rwa [hmirrors.name, Symbols.name_of_lookup? hf] at hlookup

/-- A function with the number of a mirror is that mirror. -/
theorem eq_mirror (h : Alike ρ E xs ys s t) (hf : f ∈ s.functions) (hg : g ∈ t.functions)
    (hid : g.id = ρ f.id) : g = t.mirror f := by
  obtain ⟨hmem, hmirrors⟩ := h.mirrors hf
  have hsame := h.numberedMirror.function?_of_mem hg
  rw [hid, ← hmirrors.id, h.numberedMirror.function?_of_mem hmem] at hsame
  exact (Option.some.inj hsame).symm

/-- Different functions have mirrors with different numbers. -/
theorem injective (h : Alike ρ E xs ys s t) (hf : f ∈ s.functions) (hf' : f' ∈ s.functions)
    (heq : ρ f.id = ρ f'.id) : f = f' := by
  obtain ⟨hmem, hmirrors⟩ := h.mirrors hf
  have hsame := h.eq_mirror hf' hmem (hmirrors.id.trans heq)
  have hlookup := Symbols.lookup?_of_mem h.nodup hf
  rw [← hmirrors.name, hsame, (h.mirrors hf').2.name, Symbols.lookup?_of_mem h.nodup hf']
    at hlookup
  exact (Option.some.inj hlookup).symm

/-! ## Calls -/

/-- The mirror of a function calls the mirrors of what the function calls. -/
theorem calls_iff (h : Alike ρ E xs ys s t) (hf : f ∈ s.functions) (callee : Nat) :
    Calls t ys (t.mirror f).id callee ↔ ∃ id, Calls s xs f.id id ∧ ρ id = callee := by
  have hbody {s : Symbols} (hs : s.Numbered) {f : FunctionSymbol} (hf : f ∈ s.functions) :
      s.body? f.id = f.body := by
    rw [Symbols.body?, hs.function?_of_mem hf, Option.bind_some]
  obtain ⟨hmem, hmirrors⟩ := h.mirrors hf
  rw [Calls, hbody h.numberedMirror hmem]
  simp only [Calls, hbody h.numbered hf]
  have hrel := hmirrors.body
  generalize f.body = b at hrel
  generalize (t.mirror f).body = c at hrel
  cases hrel with
  | none => simp
  | some hbc =>
      simp only [Option.some.injEq, exists_eq_left', hbc.code, List.mem_map]
      refine ⟨?_, ?_⟩
      · rintro ⟨-, ⟨i, hi, rfl⟩, hcallee⟩
        rw [callee?_renumbered, Option.map_eq_some_iff] at hcallee
        obtain ⟨id, hid, rfl⟩ := hcallee
        exact ⟨id, ⟨i, hi, hid⟩, rfl⟩
      · rintro ⟨id, ⟨i, hi, hid⟩, rfl⟩
        exact ⟨_, ⟨i, hi, rfl⟩, by rw [callee?_renumbered, hid, Option.map_some]⟩

/-! ## The functions of a program -/

section Functions

variable {entry : FunctionSymbol} {others others' : List FunctionSymbol}

/-- What a script begins with is mirrored by what the other one begins with. -/
theorem entryPoint_mirror (h : Alike ρ E xs ys s t) (hentry : s.entryPoint = .ok entry) :
    t.entryPoint = .ok (t.mirror entry) := by
  obtain ⟨-, hmirrors⟩ := h.mirrors
    (List.mem_of_getElem? (entryPoint_eq_ok h.numbered hentry).1)
  rw [Symbols.entryPoint] at hentry ⊢
  split at hentry
  · next f hf =>
      split at hentry
      · next hvoid =>
          obtain rfl := Except.ok.inj hentry
          rw [h.lookup?_mirror hf]
          exact if_pos (hmirrors.result.symm ▸ hvoid)
      · cases hentry
  · next hnone =>
      have hmain := h.symbols.lookup Symbols.mainName h.main
      rw [hnone] at hmain
      rw [hmain.eq_none]
      split at hentry
      · next f hf =>
          split at hentry
          · next hint =>
              obtain rfl := Except.ok.inj hentry
              rw [h.lookup?_mirror hf]
              exact if_pos (hmirrors.result.trans hint)
          · cases hentry
      · cases hentry

theorem loaderOf?_mirror (h : Alike ρ E xs ys s t) :
    loaderOf? t = (loaderOf? s).map t.mirror := by
  have hempty : t.globals.isEmpty = s.globals.isEmpty := by
    rw [← List.isEmpty_map (f := GlobalSymbol.entry), h.symbols.globals, List.isEmpty_map]
  rw [loaderOf?, loaderOf?, hempty]
  split
  · rfl
  · cases hf : s.lookup? globalsLoader with
    | none =>
        have hrel := h.symbols.lookup globalsLoader h.loader
        rw [hf] at hrel
        exact hrel.eq_none
    | some f => exact h.lookup?_mirror hf

/-- Functions have the names of those that they mirror. -/
theorem names_mirror (h : Alike ρ E xs ys s t) {fs : List FunctionSymbol}
    (hfs : ∀ f ∈ fs, f ∈ s.functions) :
    (fs.map t.mirror).map FunctionSymbol.name = fs.map FunctionSymbol.name := by
  rw [List.map_map]
  exact List.map_congr_left fun f hf => (h.mirrors (hfs f hf)).2.name

theorem mem_functions (hentry : entry ∈ s.functions) (hothers : Others s xs entry others) :
    ∀ f ∈ entry :: others, f ∈ s.functions :=
  List.forall_mem_cons.mpr ⟨hentry, fun _ hf => hothers.declared.subset hf⟩

/-- What can be reached in the second program are the mirrors of the functions of the first. -/
theorem reaches_iff (h : Alike ρ E xs ys s t) (hentry : entry ∈ s.functions)
    (hothers : Others s xs entry others) (id : Nat) :
    Reaches t ys (t.mirror entry).id id ↔ ∃ f ∈ entry :: others, (t.mirror f).id = id := by
  have hmem := mem_functions hentry hothers
  have hreaches : ∀ f ∈ entry :: others, Reaches s xs entry.id f.id :=
    List.forall_mem_cons.mpr ⟨.refl, fun f hf => ((hothers.reached f).mp hf).2.2⟩
  refine ⟨?_, ?_⟩
  · intro hreach
    induction hreach with
    | refl => exact ⟨entry, List.mem_cons_self, rfl⟩
    | tail _ hcalls ih =>
        obtain ⟨f, hf, rfl⟩ := ih
        obtain ⟨callee, hcalled, rfl⟩ := (h.calls_iff (hmem f hf) _).mp hcalls
        obtain ⟨f', hf', rfl⟩ := hothers.known callee ((hreaches f hf).tail hcalled)
        exact ⟨f', hf', (h.mirrors (hmem f' hf')).2.id⟩
  · rintro ⟨f, hf, rfl⟩
    have hreach := hreaches f hf
    rw [(h.mirrors (hmem f hf)).2.id, (h.mirrors hentry).2.id]
    generalize f.id = id at hreach
    induction hreach with
    | refl => exact .refl
    | tail hreach hcalls ih =>
        -- the function that calls is one of the program
        obtain ⟨f', hf', rfl⟩ := hothers.known _ hreach
        refine ih.tail ?_
        rw [← (h.mirrors (hmem f' hf')).2.id]
        exact (h.calls_iff (hmem f' hf') _).mpr ⟨_, hcalls, rfl⟩

/-- The other functions of the second program are the mirrors of those of the first. -/
theorem others_perm (h : Alike ρ E xs ys s t) (hentry : entry ∈ s.functions)
    (hothers : Others s xs entry others) (hothers' : Others t ys (t.mirror entry) others') :
    others'.Perm (others.map t.mirror) := by
  have hmem := mem_functions hentry hothers
  have hsubset : ∀ f ∈ others, f ∈ s.functions := fun f hf => hmem f (.tail _ hf)
  have hnodup : (others.map t.mirror).Nodup := by
    refine List.Nodup.of_map FunctionSymbol.name ?_
    rw [h.names_mirror hsubset]
    exact (hothers.declared.map _).nodup h.nodup
  have hnodup' : others'.Nodup := ((hothers'.declared.map _).nodup h.nodupMirror).of_map _
  refine (List.perm_ext_iff_of_nodup hnodup' hnodup).mpr ?_
  intro g
  rw [hothers'.reached, h.reaches_iff hentry hothers, List.mem_map]
  refine ⟨?_, ?_⟩
  · rintro ⟨hg, hne, f, hf, hid⟩
    have hg := h.eq_mirror (hmem f hf) hg (hid.symm.trans (h.mirrors (hmem f hf)).2.id)
    rcases List.mem_cons.mp hf with rfl | hf
    · exact absurd hid.symm hne
    · exact ⟨f, hf, hg.symm⟩
  · rintro ⟨f, hf, rfl⟩
    obtain ⟨hmirror, hmirrors⟩ := h.mirrors (hsubset f hf)
    refine ⟨hmirror, ?_, f, .tail _ hf, rfl⟩
    intro heq
    rw [hmirrors.id, (h.mirrors hentry).2.id] at heq
    have hsame := h.injective (hsubset f hf) hentry heq
    exact ((hothers.reached f).mp hf).2.1 (congrArg FunctionSymbol.id hsame)

/-- So are all functions that are placed. -/
theorem functions_perm (h : Alike ρ E xs ys s t) (hentry : entry ∈ s.functions)
    (hothers : Others s xs entry others) (hothers' : Others t ys (t.mirror entry) others') :
    ((loaderOf? t).toList ++ t.mirror entry :: others').Perm
      (((loaderOf? s).toList ++ entry :: others).map t.mirror) := by
  rw [List.map_append, List.map_cons, ← Option.toList_map, ← h.loaderOf?_mirror]
  exact ((h.others_perm hentry hothers hothers').cons _).append_left _

/-- If the functions of both programs come in the same order, those of the first one have their
mirrors in the order of the second. -/
theorem sublist_mirror (h : Alike ρ E xs ys s t) (haligned : Symbols.Aligned E s t) :
    (s.functions.map t.mirror).Sublist t.functions := by
  have hfound {fs : List FunctionSymbol} (hfs : ∀ g ∈ fs, g ∈ t.functions) :
      (fs.map FunctionSymbol.name).filterMap t.lookup? = fs := by
    have hsome : (fs.map FunctionSymbol.name).filterMap t.lookup? = fs.filterMap some := by
      rw [List.filterMap_map]
      exact List.filterMap_congr fun g hg => Symbols.lookup?_of_mem h.nodupMirror (hfs g hg)
    rw [hsome, List.filterMap_some]
  have hmirrors : ∀ g ∈ s.functions.map t.mirror, g ∈ t.functions := by
    intro g hg
    obtain ⟨f, hf, rfl⟩ := List.mem_map.mp hg
    exact (h.mirrors hf).1
  have hnames : t.names.filter (· ∉ E)
      = (t.functions.filter fun g => g.name ∉ E).map FunctionSymbol.name := List.filter_map
  rw [← hfound hmirrors, h.names_mirror fun f hf => hf, ← Symbols.names, ← haligned, hnames,
    hfound fun g hg => List.mem_of_mem_filter hg]
  exact List.filter_sublist

/-- The other functions come in the same order, if all functions do. -/
theorem others_eq (h : Alike ρ E xs ys s t) (haligned : Symbols.Aligned E s t)
    (hentry : entry ∈ s.functions) (hothers : Others s xs entry others)
    (hothers' : Others t ys (t.mirror entry) others') : others' = others.map t.mirror :=
  hothers'.declared.eq_of_perm (h.nodupMirror.of_map _)
    ((hothers.declared.map _).trans (h.sublist_mirror haligned))
    (h.others_perm hentry hothers hothers')

end Functions

end Alike

/-! ## Places -/

theorem size_renumbered (i : Instruction) : (i.renumbered ρ).size = i.size := by
  rw [Instruction.size, Instruction.size, Instruction.renumbered]
  cases i.operand <;> rfl

theorem codeSize_renumbered (code : List Instruction) :
    codeSize (code.map (Instruction.renumbered ρ)) = codeSize code := by
  induction code with
  | nil => rfl
  | cons i rest ih => rw [List.map_cons, codeSize, codeSize, size_renumbered, ih]

theorem place_renumbered (code : List Instruction) :
    ∀ at_, place at_ (code.map (Instruction.renumbered ρ)) = place at_ code := by
  induction code with
  | nil => exact fun _ => rfl
  | cons i rest ih =>
      intro at_
      rw [List.map_cons, place, place, size_renumbered, ih]

/-- The mirrors of functions that are laid out are laid out at the same offsets. -/
theorem LaidOut.mirror (h : Alike ρ E xs ys s t) {placed : List Placed} :
    ∀ {at_ : Nat}, (∀ p ∈ placed, p.symbol ∈ s.functions) → LaidOut xs at_ placed →
      LaidOut ys at_ (placed.map (Placed.mirror ρ t)) := by
  induction placed with
  | nil => exact fun _ _ => trivial
  | cons p rest ih =>
      intro at_ hmem hlaid
      obtain ⟨hp, hrest⟩ := List.forall_mem_cons.mp hmem
      have hbody := (h.mirrors hp).2.body
      rw [hlaid.1.body] at hbody
      obtain ⟨c, hc, hbc⟩ := hbody.exists_right
      have hmirror : (p.mirror ρ t).body = c := by
        rw [Placed.mirror, hc]
        rfl
      have hcode : (p.mirror ρ t).code = c.code ys := by
        rw [hbc.code, ← hlaid.1.code]
        rfl
      refine ⟨⟨?_, ?_, ?_, ?_⟩, ?_⟩
      · rw [hmirror]
        exact hc
      · rw [hmirror]
        exact hbc.insideMirror
      · rw [hmirror, hcode]
      · exact hlaid.1.offsets.trans (place_renumbered p.code at_).symm
      · have hend : endOf at_ (p.mirror ρ t).code = endOf at_ p.code :=
          congrArg (at_ + ·) (codeSize_renumbered p.code)
        rw [hend]
        exact ih hrest hlaid.2

theorem allCode_mirror (placed : List Placed) :
    allCode (placed.map (Placed.mirror ρ t))
      = (allCode placed).map (Instruction.renumbered ρ) := by
  rw [allCode, allCode, List.flatMap_map, List.map_flatMap]
  rfl

/-! ## Numbers -/

section Numbers

variable {placed : List Placed} {p : Placed} {at_ globals : Nat}

/-- The mirror of a function begins where the function does. -/
theorem entryOffset?_mirror (h : Alike ρ E xs ys s t) (hmem : ∀ p ∈ placed, p.symbol ∈ s.functions)
    (hf : f ∈ s.functions) :
    entryOffset? (placed.map (Placed.mirror ρ t)) (ρ f.id) = entryOffset? placed f.id := by
  have hfind : (placed.reverse.find? fun p => (p.mirror ρ t).symbol.id = ρ f.id)
      = placed.reverse.find? fun p => p.symbol.id = f.id := by
    refine List.find?_congr fun p hp => decide_eq_decide.mpr ?_
    have hp := hmem p (List.mem_reverse.mp hp)
    show (t.mirror p.symbol).id = ρ f.id ↔ _
    rw [(h.mirrors hp).2.id]
    exact ⟨fun heq => congrArg FunctionSymbol.id (h.injective hp hf heq), congrArg ρ⟩
  rw [entryOffset?, entryOffset?, ← hfind, ← List.map_reverse, List.find?_map, Option.bind_map]
  rfl

/-- A call has the same number in both programs. -/
theorem callDistance_mirror (h : Alike ρ E xs ys s t)
    (hmem : ∀ p ∈ placed, p.symbol ∈ s.functions) {n id : Nat} {v : Int32}
    (hv : callDistance placed n id = .ok v) :
    callDistance (placed.map (Placed.mirror ρ t)) n (ρ id) = .ok v := by
  obtain ⟨q, hq, rfl⟩ := List.mem_map.mp (mem_of_callDistance hv)
  rw [callDistance_eq_ok] at hv ⊢
  rwa [entryOffset?_mirror h hmem (hmem q hq)]

/-- An operand that has a number has the same one in the second program. -/
theorem resolve_mirror (h : Alike ρ E xs ys s t) (hmem : ∀ p ∈ placed, p.symbol ∈ s.functions)
    (hlaid : LaidOut xs at_ placed) (hp : p ∈ placed) {n : Nat} {o : Operand} {v : Int32}
    (hv : resolve globals placed p n o = .ok v) :
    resolve globals (placed.map (Placed.mirror ρ t)) (p.mirror ρ t) n (o.renumbered ρ) = .ok v := by
  cases o with
  | label l =>
      obtain ⟨first, hat, -⟩ := hlaid.of_mem hp
      have hmirrors := (h.mirrors (hmem p hp)).2
      have hbody := hmirrors.body
      rw [hat.body] at hbody
      obtain ⟨c, hc, hbc⟩ := hbody.exists_right
      have hlabels : (p.mirror ρ t).body.labels = p.body.labels := by
        rw [Placed.mirror, hc, ← hbc.labels]
        rfl
      have hname : (p.mirror ρ t).symbol.name = p.symbol.name := hmirrors.name
      refine Eq.trans ?_ hv
      show jumpDistance (p.mirror ρ t) n l = jumpDistance p n l
      rw [jumpDistance, jumpDistance, hlabels, hname]
      rfl
  | call id => exact callDistance_mirror h hmem hv
  | none | int _ | float _ | str _ | object _ | stack _ _ | offset _ | global _ => exact hv

/-- An instruction with the number for its operand, in the second program. -/
def renumberedPair (ρ : Nat → Nat) (r : Instruction × Int32) : Instruction × Int32 :=
  (r.1.renumbered ρ, r.2)

/-- Instructions whose operands have the same numbers. -/
theorem resolveAll_mirror {number number' : Nat → Operand → Except Error Int32}
    (hnumber : ∀ n o v, number n o = .ok v → number' n (o.renumbered ρ) = .ok v) :
    ∀ {code : List Instruction} {at_ : Nat} {rc : List (Instruction × Int32)},
      resolveAll number at_ code = .ok rc →
      resolveAll number' at_ (code.map (Instruction.renumbered ρ))
        = .ok (rc.map (renumberedPair ρ))
  | [], _, _, h => by
      obtain rfl := Except.ok.inj h
      rfl
  | i :: rest, at_, _, h => by
      obtain ⟨v, hv, h⟩ := except_bind_eq_ok.mp h
      obtain ⟨after, hafter, h⟩ := except_bind_eq_ok.mp h
      obtain rfl := Except.ok.inj h
      rw [List.map_cons, resolveAll, size_renumbered, resolveAll_mirror hnumber hafter]
      exact except_bind_eq_ok.mpr ⟨v, hnumber _ _ _ hv, rfl⟩

theorem resolveFunctions_mirror (h : Alike ρ E xs ys s t)
    (hmem : ∀ p ∈ placed, p.symbol ∈ s.functions) (hlaid : LaidOut xs at_ placed) :
    ∀ {l : List Placed} {rcs : List (List (Instruction × Int32))}, (∀ p ∈ l, p ∈ placed) →
      resolveFunctions globals placed l = .ok rcs →
      resolveFunctions globals (placed.map (Placed.mirror ρ t)) (l.map (Placed.mirror ρ t))
        = .ok (rcs.map (List.map (renumberedPair ρ)))
  | [], _, _, hrcs => by
      obtain rfl := Except.ok.inj hrcs
      rfl
  | p :: rest, _, hl, hrcs => by
      obtain ⟨hp, hrest⟩ := List.forall_mem_cons.mp hl
      obtain ⟨rc, hrc, hrcs⟩ := except_bind_eq_ok.mp hrcs
      obtain ⟨after, hafter, hrcs⟩ := except_bind_eq_ok.mp hrcs
      obtain rfl := Except.ok.inj hrcs
      have hnumber : ∀ n o v, resolve globals placed p n o = .ok v →
          resolve globals (placed.map (Placed.mirror ρ t)) (p.mirror ρ t) n (o.renumbered ρ)
            = .ok v := fun _ _ _ => resolve_mirror h hmem hlaid hp
      rw [List.map_cons, resolveFunctions, resolveFunctions_mirror h hmem hlaid hrest hafter]
      exact except_bind_eq_ok.mpr ⟨_, resolveAll_mirror hnumber hrc, rfl⟩

theorem resolveStart_mirror (h : Alike ρ E xs ys s t)
    (hmem : ∀ p ∈ placed, p.symbol ∈ s.functions) {code : List Instruction}
    {rc : List (Instruction × Int32)}
    (hrc : resolveAll (startNumber placed) headerSize code = .ok rc) :
    resolveAll (startNumber (placed.map (Placed.mirror ρ t))) headerSize
      (code.map (Instruction.renumbered ρ)) = .ok (rc.map (renumberedPair ρ)) := by
  refine resolveAll_mirror (fun n o v hv => ?_) hrc
  cases o with
  | call id => exact callDistance_mirror h hmem hv
  | label _ | none | int _ | float _ | str _ | object _ | stack _ _ | offset _ | global _ => exact hv

end Numbers

/-- An instruction is encoded to the same bytes in both programs. -/
theorem encodeAll_renumbered (rc : List (Instruction × Int32)) :
    encodeAll (rc.map (renumberedPair ρ)) = encodeAll rc := by
  have hone (i : Instruction) (v : Int32) : (i.renumbered ρ).encode v = i.encode v := by
    rw [Instruction.encode, Instruction.encode, Instruction.renumbered]
    cases i.operand <;> rfl
  rw [encodeAll, encodeAll, List.flatMap_map]
  exact List.flatMap_congr fun r _ => hone r.1 r.2

/-- The tables hold the same bytes. -/
theorem addSections_mirror (h : Alike ρ E xs ys s t) {l : List Placed}
    (hmem : ∀ p ∈ l, p.symbol ∈ s.functions) (tables : OutputTables)
    (rcs : List (List (Instruction × Int32))) :
    addSections tables ((l.map (Placed.mirror ρ t)).zip (rcs.map (List.map (renumberedPair ρ))))
      = addSections tables (l.zip rcs) := by
  induction l generalizing tables rcs with
  | nil => rfl
  | cons p rest ih =>
      cases rcs with
      | nil => rfl
      | cons rc rcs =>
          obtain ⟨hp, hrest⟩ := List.forall_mem_cons.mp hmem
          have hsection : addSection tables (p.mirror ρ t).symbol.name
              (encodeAll (rc.map (renumberedPair ρ))) = addSection tables p.symbol.name
                (encodeAll rc) := by
            rw [encodeAll_renumbered]
            exact congrArg (addSection tables · _) (h.mirrors hp).2.name
          rw [List.map_cons, List.map_cons, List.zip_cons_cons, List.zip_cons_cons, addSections,
            addSections, List.foldl_cons, List.foldl_cons]
          dsimp only
          rw [hsection]
          exact ih hrest _ _

/-! ## Scripts -/

section Scripts

variable {records records' : Array Instruction} {entry : FunctionSymbol}

/-- The start of a script is the same but for the number in its call. -/
theorem startCode_mirror (h : Alike ρ E xs ys s t) (hentry : entry ∈ s.functions) :
    startCode t (t.mirror entry) = (startCode s entry).map (Instruction.renumbered ρ) := by
  have hcalled : (loaderOf? s).getD entry ∈ s.functions := by
    cases hloader : loaderOf? s with
    | none => exact hentry
    | some loader => exact List.mem_of_getElem? (loaderOf?_eq_some h.numbered hloader).1
  have hid : ((loaderOf? t).getD (t.mirror entry)).id = ρ ((loaderOf? s).getD entry).id := by
    rw [h.loaderOf?_mirror, Option.getD_map, (h.mirrors hcalled).2.id]
  rw [startCode, startCode, (h.mirrors hentry).2.result, hid, List.map_append]
  split
  · rfl
  · rfl

namespace Script

/-- If the functions of two programs come in the same order, the scripts are the same. -/
theorem artifact_eq (h : Alike ρ E records.toList records'.toList s t)
    (haligned : Symbols.Aligned E s t) (r : Script s records) (r' : Script t records') :
    r'.artifact = r.artifact := by
  have hentry := List.mem_of_getElem? (r.function?_entry h.numbered)
  have hfirst : r'.entry = t.mirror r.entry :=
    Except.ok.inj (r'.begins.symm.trans (h.entryPoint_mirror r.begins))
  have hothers := h.others_eq haligned hentry (r.others_of h.numbered)
    (hfirst ▸ r'.others_of h.numberedMirror)
  have hstart := startCode_mirror h hentry
  have hmem := r.mem_functions h.numbered
  -- the functions are the mirrors of those of the first script, and so they lie at the same places
  have hplaced : r'.placed = r.placed.map (Placed.mirror ρ t) := by
    have hfunctions : (r.placed.map (Placed.mirror ρ t)).map Placed.symbol
        = (loaderOf? t).toList ++ r'.entry :: r'.others := by
      have hmap := congrArg (List.map t.mirror) r.functions
      rw [List.map_map] at hmap ⊢
      refine hmap.trans ?_
      rw [hfirst, hothers, h.loaderOf?_mirror, List.map_append, List.map_cons, Option.toList_map]
    have hlaid := LaidOut.mirror h hmem r.laid
    have hend : endOf headerSize (startCode t r'.entry)
        = endOf headerSize (startCode s r.entry) := by
      rw [hfirst, hstart, endOf, endOf, codeSize_renumbered]
    rw [← hend] at hlaid
    exact Except.ok.inj ((layOut_eq_ok.mpr ⟨r'.functions, r'.laid⟩).symm.trans
      (layOut_eq_ok.mpr ⟨hfunctions, hlaid⟩))
  have hstarts : r'.start = r.start.map (renumberedPair ρ) := by
    have hresolved := r'.starts
    rw [hfirst, hstart, hplaced, resolveStart_mirror h hmem r.starts] at hresolved
    exact (Except.ok.inj hresolved).symm
  have hcode : r'.code = r.code.map (List.map (renumberedPair ρ)) := by
    have hresolved := r'.resolved
    rw [hplaced, h.symbols.length_globals,
      resolveFunctions_mirror h hmem r.laid (fun _ hp => hp) r.resolved] at hresolved
    exact (Except.ok.inj hresolved).symm
  have hsize : r'.size = r.size := by
    rw [size, size, hfirst, hstart, hplaced, allCode_mirror, ← List.map_append,
      codeSize_renumbered]
  have hsections : r'.sections = r.sections := by
    rw [sections, sections, hplaced, hcode]
    exact addSections_mirror h hmem _ _
  rw [artifact, artifact, hsize, hstarts, hsections, hplaced, encodeAll_renumbered, List.map_map]
  refine congrArg (Artifact.mk _) (List.map_congr_left fun p hp => ?_)
  exact congrArg (FunctionLayout.mk · _ _) (h.mirrors (hmem p hp)).2.name

end Script

/-- The code of a function is as long as that of its mirror. -/
theorem bodyBytes_mirror (h : Alike ρ E xs ys s t) (hf : f ∈ s.functions) :
    bodyBytes ys (t.mirror f) = bodyBytes xs f := by
  have hbody := (h.mirrors hf).2.body
  rw [bodyBytes, bodyBytes]
  generalize f.body = b at hbody
  generalize (t.mirror f).body = c at hbody
  cases hbody with
  | none => rfl
  | some hbc => exact (congrArg codeSize hbc.code).trans (codeSize_renumbered _)

/-- The operands of a function that is placed anywhere have numbers, if they have numbers in the first
program and the mirrors of all that is placed there are placed here. -/
theorem exists_resolve_mirror (h : Alike ρ E xs ys s t) {at_ at_' globals : Nat}
    {placed placed' : List Placed} (hlaid : LaidOut xs at_ placed) (hlaid' : LaidOut ys at_' placed')
    (hids : ∀ id ∈ placed.map (·.symbol.id), ρ id ∈ placed'.map (·.symbol.id))
    {p p' : Placed} (hp : p ∈ placed) (hp' : p' ∈ placed') (hmem : p.symbol ∈ s.functions)
    (hsymbol : p'.symbol = t.mirror p.symbol) {rc : List (Instruction × Int32)}
    (hrc : resolveAll (resolve globals placed p) (p.offsets.headD 0) p.code = .ok rc) :
    ∀ i ∈ p'.code, ∀ n, ∃ v, resolve globals placed' p' n i.operand = .ok v := by
  obtain ⟨first, hat, -⟩ := hlaid.of_mem hp
  obtain ⟨first', hat', -⟩ := hlaid'.of_mem hp'
  have hbody := (h.mirrors hmem).2.body
  rw [hat.body, ← hsymbol, hat'.body] at hbody
  cases hbody with
  | some hbc =>
      have hcode : p'.code = p.code.map (Instruction.renumbered ρ) := by
        rw [hat'.code, hat.code, hbc.code]
      have hlength : p'.offsets.length = p.offsets.length := by
        rw [hat'.offsets, hat.offsets, length_place, length_place, hcode, List.length_map]
      rw [hcode]
      intro i' hi' n
      obtain ⟨i, hi, rfl⟩ := List.mem_map.mp hi'
      obtain ⟨k, hk⟩ := List.mem_iff_getElem?.mp hi
      obtain ⟨v, hv, -⟩ := (resolveAll_eq_ok hrc).2 k i hk
      rw [Instruction.renumbered]
      cases hoperand : i.operand with
      | label l =>
          rw [hoperand, resolve, jumpDistance] at hv
          split at hv
          · next target htarget =>
              obtain ⟨record, hrecord, hoffset⟩ := Option.bind_eq_some_iff.mp htarget
              have hlt := (List.getElem?_eq_some_iff.mp hoffset).1
              obtain ⟨target', htarget'⟩ : ∃ target', p'.offsets[record]? = some target' :=
                ⟨_, List.getElem?_eq_getElem (hlength ▸ hlt)⟩
              refine ⟨distance n target', ?_⟩
              show jumpDistance p' n l = _
              rw [jumpDistance, hbc.labels, hrecord, Option.bind_some, htarget']
          · cases hv
      | call id =>
          rw [hoperand] at hv
          exact exists_callDistance hlaid' (hids id (mem_of_callDistance hv))
      | none | int _ | float _ | str _ | object _ | stack _ _ | offset _ | global _ => exact ⟨_, rfl⟩

/-- Every function that is placed has a mirror with a body. -/
theorem exists_body_mirror (h : Alike ρ E records.toList records'.toList s t)
    (r : Script s records) {f : FunctionSymbol} (hf : f ∈ r.placed.map Placed.symbol) :
    ∃ c, (t.mirror f).body = some c ∧ c.start + c.length ≤ records'.toList.length := by
  obtain ⟨p, hp, rfl⟩ := List.mem_map.mp hf
  obtain ⟨first, hat, -⟩ := r.laid.of_mem hp
  have hbody := (h.mirrors (r.mem_functions h.numbered p hp)).2.body
  rw [hat.body] at hbody
  obtain ⟨c, hc, hbc⟩ := hbody.exists_right
  exact ⟨c, hc, hbc.insideMirror⟩

/-- The functions of the second program can be found, and are the mirrors of those of the first. -/
theorem exists_others_mirror (h : Alike ρ E records.toList records'.toList s t)
    (r : Script s records) :
    ∃ others', reachable t records' (t.mirror r.entry) = .ok (t.mirror r.entry :: others') ∧
      Others t records'.toList (t.mirror r.entry) others' ∧
      ((loaderOf? t).toList ++ t.mirror r.entry :: others').Perm
        (r.placed.map fun p => t.mirror p.symbol) := by
  have hentry := List.mem_of_getElem? (r.function?_entry h.numbered)
  have hothers := r.others_of h.numbered
  have hentry' := (entryPoint_eq_ok h.numberedMirror (h.entryPoint_mirror r.begins)).1
  obtain ⟨reached', hreached'⟩ :
      ∃ reached', reachable t records' (t.mirror r.entry) = .ok reached' := by
    refine exists_reachable h.numberedMirror hentry' fun id hreach => ?_
    obtain ⟨f, hf, rfl⟩ := (h.reaches_iff hentry hothers id).mp hreach
    have hplaced : f ∈ r.placed.map Placed.symbol := by
      rw [r.functions]
      exact List.mem_append_right _ hf
    obtain ⟨c, hc, hinside⟩ := exists_body_mirror h r hplaced
    have hmem := (h.mirrors (Alike.mem_functions hentry hothers f hf)).1
    exact ⟨_, c, h.numberedMirror.function?_of_mem hmem, hc, hinside⟩
  obtain ⟨others', rfl, hothers'⟩ := reachable_eq_ok h.numberedMirror hentry' hreached'
  refine ⟨others', hreached', hothers', ?_⟩
  have hperm := h.functions_perm hentry hothers hothers'
  rwa [← r.functions, List.map_map] at hperm

/-- If there is a script of the first program, there is one of the second, and of the same size,
whatever order the functions come in. -/
theorem Script.exists_mirror (h : Alike ρ E records.toList records'.toList s t)
    (r : Script s records) : ∃ r' : Script t records', r'.size = r.size := by
  have hentry := List.mem_of_getElem? (r.function?_entry h.numbered)
  have hmem := r.mem_functions h.numbered
  have hentry' := (entryPoint_eq_ok h.numberedMirror (h.entryPoint_mirror r.begins)).1
  obtain ⟨others', hreached', hothers', hperm⟩ := exists_others_mirror h r
  -- the mirrors of all that was placed can be placed, in whatever order they come
  have hinside : ∀ g ∈ (loaderOf? t).toList ++ t.mirror r.entry :: others', ∃ c,
      g.body = some c ∧ c.start + c.length ≤ records'.toList.length := by
    intro g hg
    obtain ⟨p, hp, rfl⟩ := List.mem_map.mp (hperm.mem_iff.mp hg)
    exact exists_body_mirror h r (List.mem_map_of_mem hp)
  obtain ⟨placed', hfunctions', hlaid'⟩ :=
    exists_laidOut (endOf headerSize (startCode t (t.mirror r.entry))) hinside
  rw [← hfunctions'] at hperm
  have hids : ∀ id ∈ r.placed.map (·.symbol.id), ρ id ∈ placed'.map (·.symbol.id) := by
    intro id hid
    obtain ⟨p, hp, rfl⟩ := List.mem_map.mp hid
    obtain ⟨p', hp', hsymbol⟩ := List.mem_map.mp (hperm.mem_iff.mpr (List.mem_map_of_mem hp))
    exact List.mem_map.mpr ⟨p', hp', by rw [hsymbol, (h.mirrors (hmem p hp)).2.id]⟩
  obtain ⟨start', hstart'⟩ : ∃ start', resolveAll (startNumber placed') headerSize
      (startCode t (t.mirror r.entry)) = .ok start' := by
    refine exists_start hlaid' ?_
    have hcalled := (mem_functions_of_placed h.numberedMirror hentry' hothers'.declared).2
    rw [← hfunctions'] at hcalled
    obtain ⟨p', hp', hsymbol⟩ := List.mem_map.mp hcalled
    exact List.mem_map.mpr ⟨p', hp', by rw [hsymbol]⟩
  obtain ⟨code', hcode'⟩ :
      ∃ code', resolveFunctions t.globals.length placed' placed' = .ok code' := by
    refine exists_resolveFunctions fun p' hp' => ?_
    obtain ⟨p, hp, hsymbol⟩ := List.mem_map.mp (hperm.mem_iff.mp (List.mem_map_of_mem hp'))
    obtain ⟨rc, hrc⟩ := resolveAll_of_mem r.resolved p hp
    rw [h.symbols.length_globals]
    exact exists_resolve_mirror h r.laid hlaid' hids hp hp' (hmem p hp) hsymbol.symm hrc
  refine ⟨⟨_, others', placed', start', code', h.entryPoint_mirror r.begins, hreached', hfunctions',
    hlaid', hstart', hcode'⟩, ?_⟩
  have hcode : codeSize (allCode placed') = codeSize (allCode r.placed) := by
    rw [codeSize_allCode hlaid', codeSize_allCode r.laid, (hperm.map _).sum_eq, List.map_map,
      List.map_map]
    exact congrArg List.sum (List.map_congr_left fun p hp => bodyBytes_mirror h (hmem p hp))
  rw [Script.size, Script.size, codeSize_append, codeSize_append, hcode, startCode_mirror h hentry,
    codeSize_renumbered]

end Scripts

end Program

/-! ## Emissions -/

namespace EmitState

open Symbols Program

variable {s t s' t' : EmitState}

theorem Mirrors.concluded (h : s.Mirrors ρ E t) : s.concluded.Mirrors ρ E t.concluded := by
  have hrecords (s : EmitState) : s.concluded.current.records = s.current.records ∧
      s.concluded.entrySeen = s.entrySeen := by
    rw [EmitState.concluded]
    split
    · exact ⟨rfl, rfl⟩
    · exact ⟨rfl, rfl⟩
  refine ⟨?_, ?_⟩
  · rw [(hrecords s).1, (hrecords t).1, s.symbols_concluded, t.symbols_concluded]
    exact h.symbols
  · rw [(hrecords s).2, (hrecords t).2]
    exact h.entrySeen

/-- At the end of two emissions that mirror each other, the loader being added, the programs are
alike. -/
theorem Mirrors.alike (h : s.Mirrors ρ E t) (hs : s.symbols.Numbered) (ht : t.symbols.Numbered)
    (hnodup : s.symbols.names.Nodup) (hnodup' : t.symbols.names.Nodup) (hmain : mainName ∉ E)
    (hcondition : conditionName ∉ E) (hloader : globalsLoader ∉ E) (hloads : s.loads = some s')
    (hloads' : t.loads = some t') (hρ : Matches ρ s'.symbols t'.symbols) :
    Alike ρ E s'.current.records t'.current.records s'.symbols t'.symbols ∧
      (Aligned E s.symbols t.symbols → Aligned E s'.symbols t'.symbols) := by
  have hlength := h.symbols.length_globals
  rcases loads_cases hs hloads with ⟨hnone, rfl⟩ | ⟨hsome, hloads⟩
  · rcases loads_cases ht hloads' with ⟨-, rfl⟩ | ⟨hsome', -⟩
    · exact ⟨⟨h.symbols, hs, ht, hnodup, hnodup', hmain, hcondition, hloader⟩, id⟩
    · rw [hnone] at hlength
      exact absurd (List.eq_nil_of_length_eq_zero hlength) hsome'
  · rcases loads_cases ht hloads' with ⟨hnone', -⟩ | ⟨-, hloads'⟩
    · rw [hnone'] at hlength
      exact absurd (List.eq_nil_of_length_eq_zero hlength.symm) hsome
    · obtain ⟨hmirrors, haligned⟩ := h.loads hmain hcondition hloader hloads hloads' hρ
      exact ⟨⟨hmirrors, hloads.numbered, hloads'.numbered, hloads.nodup hnodup,
        hloads'.nodup hnodup', hmain, hcondition, hloader⟩, haligned⟩

theorem numbered_loads (hs : s.symbols.Numbered) (h : s.loads = some s') :
    s'.symbols.Numbered := by
  rcases loads_cases hs h with ⟨-, rfl⟩ | ⟨-, hloads⟩
  · exact hs
  · exact hloads.numbered

theorem keeps_loads (hs : s.symbols.Numbered) (h : s.loads = some s') :
    s.symbols.Keeps s'.symbols := by
  rcases loads_cases hs h with ⟨-, rfl⟩ | ⟨-, hloads⟩
  · exact fun _ f hf => ⟨f, hf, rfl⟩
  · exact hloads.keeps

/-- The table that a run ends with is numbered. -/
theorem numbered_runs {acts : List Act} (hs : s.Ready) (h : s.runs acts = some s') :
    s'.symbols.Numbered := by
  obtain ⟨u, hu, hloads⟩ := Option.bind_eq_some_iff.mp h
  exact numbered_loads (u.symbols_concluded ▸ (hs.performAll hu).numbered) hloads

/-- For two runs there is a renumbering that goes by the names in the tables that both end with.  If
what they perform is mirrored by it, they leave programs that are alike. -/
theorem exists_alike {acts acts' : List Act} (hs : s.Ready) (ht : t.Ready)
    (hnodup : s.symbols.names.Nodup) (hnodup' : t.symbols.names.Nodup) (hmain : mainName ∉ E)
    (hcondition : conditionName ∉ E) (hloader : globalsLoader ∉ E)
    (hrun : s.runs acts = some s') (hrun' : t.runs acts' = some t') :
    ∃ ρ u v, s.performAll acts = some u ∧ u.concluded.loads = some s' ∧
      t.performAll acts' = some v ∧ v.concluded.loads = some t' ∧
      Matches ρ u.symbols v.symbols ∧
      (u.Mirrors ρ E v →
        Alike ρ E s'.current.records t'.current.records s'.symbols t'.symbols ∧
          (Aligned E u.symbols v.symbols → Aligned E s'.symbols t'.symbols)) := by
  obtain ⟨u, hacted, hloads⟩ := Option.bind_eq_some_iff.mp hrun
  obtain ⟨v, hacted', hloads'⟩ := Option.bind_eq_some_iff.mp hrun'
  have hu : u.concluded.symbols.Numbered :=
    u.symbols_concluded ▸ (hs.performAll hacted).numbered
  have hv : v.concluded.symbols.Numbered :=
    v.symbols_concluded ▸ (ht.performAll hacted').numbered
  have hunique : u.concluded.symbols.names.Nodup :=
    u.symbols_concluded ▸ nodup_names_performAll hs hnodup hacted
  have hunique' : v.concluded.symbols.names.Nodup :=
    v.symbols_concluded ▸ nodup_names_performAll ht hnodup' hacted'
  have hρ := matches_matching (numbered_loads hu hloads) t'.symbols
  refine ⟨s'.symbols.matching t'.symbols, u, v, hacted, hloads, hacted', hloads', ?_,
    fun hmirrors => ?_⟩
  · rw [← u.symbols_concluded, ← v.symbols_concluded]
    exact hρ.of_keeps (keeps_loads hu hloads) (keeps_loads hv hloads')
  · rw [← u.symbols_concluded, ← v.symbols_concluded]
    exact hmirrors.concluded.alike hu hv hunique hunique' hmain hcondition hloader hloads hloads' hρ

/-- An emission uses neither the output window nor the tables of a unit. -/
structure SameOutput (s t : EmitState) : Prop where
  output : t.current.output = s.current.output
  tables : t.current.tables = s.current.tables

theorem SameOutput.trans {u : EmitState} (h : s.SameOutput t) (h' : t.SameOutput u) :
    s.SameOutput u :=
  ⟨h'.output.trans h.output, h'.tables.trans h.tables⟩

theorem sameOutput_performAll {acts : List Act} (h : s.performAll acts = some t) :
    s.SameOutput t := by
  induction acts generalizing s with
  | nil =>
      obtain rfl := Option.some.inj h
      exact ⟨rfl, rfl⟩
  | cons a rest ih =>
      obtain ⟨u, hu, h⟩ := Option.bind_eq_some_iff.mp h
      refine .trans ?_ (ih h)
      cases a with
      | problem v d | registered key =>
          obtain rfl := Option.some.inj hu
          exact ⟨rfl, rfl⟩
      | declaration v decl =>
          rcases takes_eq_some hu with ⟨-, rfl⟩ | ⟨id, l, -, -, rfl⟩
          · exact ⟨rfl, rfl⟩
          · exact ⟨rfl, rfl⟩

theorem sameOutput_loads (h : s.concluded.loads = some t) : s.SameOutput t := by
  have hconcluded : s.SameOutput s.concluded := by
    rw [EmitState.concluded]
    split
    · exact ⟨rfl, rfl⟩
    · exact ⟨rfl, rfl⟩
  refine hconcluded.trans ?_
  rcases loads_eq_some h with rfl | rfl
  · exact ⟨rfl, rfl⟩
  · exact ⟨rfl, rfl⟩

end EmitState

end Nss
