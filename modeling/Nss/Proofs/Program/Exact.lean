/-
# The search for functions is exact

A search ends, and it gives one of two things: all functions that can be called from the first one,
or an error.  It gives the error exactly if a function that can be reached is `Unresolved`, and the
error then names such a function; in which order the functions are looked at does not matter.

    turn        looks at one function: it is unresolved, or what it calls is seen from then on
    searchOn    turn after turn as long as something is to be looked at, with no bound

`search_spec` goes through the turns.  Its induction is on the bound of `explore`: every turn either
takes a function from those to be looked at, or adds as many to them as to those that were seen, of
which there are no more than functions.
-/
import Nss.Proofs.Program.Reachable

namespace Nss

open Steps

namespace Program

/-! ## Functions that cannot be resolved -/

/-- Why a function of a program, given by its number, cannot be resolved, with the text that is
reported: its own name, or that of the function which it calls. -/
inductive Unresolved (symbols : Symbols) (records : List Instruction) (id : Nat) : String → Prop
  | bodiless {f : FunctionSymbol} :
      symbols.function? id = some f → f.body = none → Unresolved symbols records id f.name
  | outside {f : FunctionSymbol} {b : FunctionBody} :
      symbols.function? id = some f → f.body = some b → records.length < b.start + b.length →
      Unresolved symbols records id f.name
  | unknown {f : FunctionSymbol} {b : FunctionBody} {i : Instruction} {callee : Nat} :
      symbols.function? id = some f → f.body = some b → b.start + b.length ≤ records.length →
      i ∈ b.code records → i.callee? = some callee → symbols.function? callee = none →
      Unresolved symbols records id (unknownFunction callee)

/-- The functions that can be reached from one, itself included, have one that is unresolved. -/
def Broken (symbols : Symbols) (records : List Instruction) (entry : Nat) (text : String) : Prop :=
  ∃ id, Reaches symbols records entry id ∧ Unresolved symbols records id text

/-! ## The loop -/

/-- One turn of the search, at which a function is looked at. -/
def turn (symbols : Symbols) (records : Array Instruction) (seen : List Nat) (f : FunctionSymbol)
    (pending : List FunctionSymbol) : Except Error (List Nat × List FunctionSymbol) := do
  let body ← bodyOf f
  let code ← codeOf records f body
  visit symbols seen pending code

end Program

/-- Looks at functions as long as there are some to be looked at. -/
def Symbols.searchOn (symbols : Symbols) (records : Array Instruction) (seen : List Nat)
    (pending : List FunctionSymbol) : Option (Except Error (List Nat)) :=
  match pending with
  | [] => some (.ok seen)
  | f :: pending =>
    match Program.turn symbols records seen f pending with
    | .error e => some (.error e)
    | .ok (seen, pending) => symbols |>.searchOn records seen pending
partial_fixpoint

namespace Program

/-- A function and those that can be reached from it, found by the loop, if that ends. -/
def reachableOn (symbols : Symbols) (records : Array Instruction) (entry : FunctionSymbol) :
    Option (Except Error (List FunctionSymbol)) :=
  (symbols.searchOn records [entry.id] [entry]).map fun outcome =>
    outcome.map fun seen =>
      entry :: symbols.functions.filter fun f => f.id ≠ entry.id ∧ f.id ∈ seen

section

variable {symbols : Symbols} {records : Array Instruction} {entry : Nat} {seen : List Nat}
  {pending : List FunctionSymbol} {f : FunctionSymbol}

theorem explore_cons (fuel : Nat) :
    explore symbols records (fuel + 1) seen (f :: pending)
      = turn symbols records seen f pending >>= fun next =>
          explore symbols records fuel next.1 next.2 := by
  rw [explore, turn]
  cases bodyOf f with
  | error e => rfl
  | ok b =>
      cases hcode : codeOf records f b with
      | error e => simp [bind, Except.bind, hcode]
      | ok code => simp [bind, Except.bind, hcode]

/-! ## One turn -/

/-- Looking at code fails only at a call of a function that is not in the table. -/
theorem visit_eq_error {code : List Instruction} {e : Error}
    (h : visit symbols seen pending code = .error e) :
    ∃ i ∈ code, ∃ callee, i.callee? = some callee ∧ symbols.function? callee = none ∧
      e = .unresolvedCall (unknownFunction callee) := by
  induction code generalizing seen pending with
  | nil => cases h
  | cons i rest ih =>
      have hrest {seen : List Nat} {pending : List FunctionSymbol}
          (h : visit symbols seen pending rest = .error e) :
          ∃ j ∈ i :: rest, ∃ callee, j.callee? = some callee ∧ symbols.function? callee = none ∧
            e = .unresolvedCall (unknownFunction callee) := by
        obtain ⟨j, hj, hcall⟩ := ih h
        exact ⟨j, .tail _ hj, hcall⟩
      rw [visit] at h
      cases hcallee : i.callee? with
      | none =>
          simp only [hcallee] at h
          exact hrest h
      | some id =>
          simp only [hcallee] at h
          split at h
          · exact hrest h
          · cases hfound : symbols.function? id with
            | some g =>
                simp only [hfound] at h
                exact hrest h
            | none =>
                simp only [hfound] at h
                exact ⟨i, List.mem_cons_self, id, hcallee, hfound, (Except.error.inj h).symm⟩

/-- What a turn comes to: the function is unresolved, or it is not, and what it calls was seen. -/
inductive Turned (symbols : Symbols) (records : Array Instruction) (seen : List Nat)
    (f : FunctionSymbol) (pending : List FunctionSymbol) :
    Except Error (List Nat × List FunctionSymbol) → Prop
  | unresolved {text : String} :
      Unresolved symbols records.toList f.id text →
      Turned symbols records seen f pending (.error (.unresolvedCall text))
  | looked {b : FunctionBody} {new : List FunctionSymbol} :
      f.body = some b → b.start + b.length ≤ records.size →
      Visited symbols (b.code records.toList) seen new →
      Turned symbols records seen f pending
        (.ok (new.map FunctionSymbol.id ++ seen, new ++ pending))

theorem turn_turned (hs : symbols.Numbered) (hf : symbols.function? f.id = some f) :
    Turned symbols records seen f pending (turn symbols records seen f pending) := by
  rw [turn]
  cases hbody : f.body with
  | none =>
      have hfailed : bodyOf f = .error (.unresolvedCall f.name) := by simp [bodyOf, hbody]
      rw [hfailed]
      exact .unresolved (.bodiless hf hbody)
  | some b =>
      rw [bodyOf_eq_ok.mpr hbody]
      by_cases hinside : b.start + b.length ≤ records.size
      · have hcode : codeOf records f b = .ok (b.code records.toList) :=
          codeOf_eq_ok.mpr ⟨hinside, rfl⟩
        show Turned _ _ _ _ _ (codeOf records f b >>= visit symbols seen pending)
        rw [hcode]
        show Turned _ _ _ _ _ (visit symbols seen pending (b.code records.toList))
        cases hvisit : visit symbols seen pending (b.code records.toList) with
        | error e =>
            obtain ⟨i, hi, callee, hcallee, hnone, rfl⟩ := visit_eq_error hvisit
            exact .unresolved (.unknown hf hbody hinside hi hcallee hnone)
        | ok next =>
            obtain ⟨new, hseen, hpending, hvisited⟩ := visit_eq_ok hs hvisit
            obtain rfl : next = (_, _) := Prod.ext hseen hpending
            exact .looked hbody hinside hvisited
      · have hcode : codeOf records f b = .error (.unresolvedCall f.name) := by
          simp [codeOf, hinside]
        show Turned _ _ _ _ _ (codeOf records f b >>= visit symbols seen pending)
        rw [hcode]
        exact .unresolved (.outside hf hbody (Nat.lt_of_not_le hinside))

/-- A function whose calls were all seen is not unresolved, if what was seen is in the table. -/
theorem not_unresolved_of_visited {b : FunctionBody} {new : List FunctionSymbol}
    (hf : symbols.function? f.id = some f) (hbody : f.body = some b)
    (hinside : b.start + b.length ≤ records.size)
    (hvisited : Visited symbols (b.code records.toList) seen new)
    (hknown : ∀ id ∈ new.map FunctionSymbol.id ++ seen, id < symbols.functions.length)
    (text : String) : ¬ Unresolved symbols records.toList f.id text := by
  intro hunresolved
  cases hunresolved with
  | bodiless hg hnone =>
      obtain rfl := Option.some.inj (hf.symm.trans hg)
      cases hbody.symm.trans hnone
  | outside hg hb hout =>
      obtain rfl := Option.some.inj (hf.symm.trans hg)
      obtain rfl := Option.some.inj (hbody.symm.trans hb)
      exact absurd hinside (Nat.not_le_of_lt hout)
  | unknown hg hb _ hi hcallee hnone =>
      obtain rfl := Option.some.inj (hf.symm.trans hg)
      obtain rfl := Option.some.inj (hbody.symm.trans hb)
      have hlt := hknown _ (hvisited.all _ hi _ hcallee)
      exact absurd hlt (Nat.not_lt_of_le (List.getElem?_eq_none_iff.mp hnone))

/-! ## All turns -/

/-- What was seen is still to be looked at, or was looked at and is not unresolved. -/
def Examined (symbols : Symbols) (records : List Instruction) (seen : List Nat)
    (pending : List FunctionSymbol) : Prop :=
  ∀ id ∈ seen, (∃ f ∈ pending, f.id = id) ∨ ∀ text, ¬ Unresolved symbols records id text

/-- A turn leaves nothing unexamined. -/
theorem Examined.next {new : List FunctionSymbol}
    (h : Examined symbols records.toList seen (f :: pending))
    (hresolved : ∀ text, ¬ Unresolved symbols records.toList f.id text) :
    Examined symbols records.toList (new.map FunctionSymbol.id ++ seen) (new ++ pending) := by
  intro id hid
  rcases List.mem_append.mp hid with hnew | hold
  · obtain ⟨g, hg, rfl⟩ := List.mem_map.mp hnew
    exact .inl ⟨g, List.mem_append_left _ hg, rfl⟩
  · rcases h id hold with ⟨g, hg, rfl⟩ | hdone
    · rcases List.mem_cons.mp hg with rfl | hg
      · exact .inr hresolved
      · exact .inl ⟨g, List.mem_append_right _ hg, rfl⟩
    · exact .inr hdone

/-- What a search comes to: a function that can be reached is unresolved, or all that can be reached
was seen, and none of it is. -/
inductive Searched (symbols : Symbols) (records : Array Instruction) (entry : Nat) :
    Except Error (List Nat) → Prop
  | broken {text : String} :
      Broken symbols records.toList entry text →
      Searched symbols records entry (.error (.unresolvedCall text))
  | complete {seen : List Nat} :
      Search symbols records.toList entry seen [] →
      (∀ text, ¬ Broken symbols records.toList entry text) →
      Searched symbols records entry (.ok seen)

/-- When nothing is to be looked at, the search is complete. -/
theorem Searched.of_examined (hsearch : Search symbols records.toList entry seen [])
    (hexamined : Examined symbols records.toList seen []) :
    Searched symbols records entry (.ok seen) := by
  refine .complete hsearch ?_
  rintro text ⟨id, hreach, hunresolved⟩
  rcases hexamined id ((hsearch.mem_iff id).mpr hreach) with ⟨g, hg, -⟩ | hresolved
  · cases hg
  · exact hresolved text hunresolved

/-- A search that is bounded by the number of functions comes to its end as the loop does. -/
theorem search_spec (hs : symbols.Numbered) {fuel : Nat}
    (hsearch : Search symbols records.toList entry seen pending)
    (hexamined : Examined symbols records.toList seen pending)
    (hfuel : symbols.functions.length + pending.length ≤ fuel + seen.length) :
    symbols.searchOn records seen pending = some (explore symbols records fuel seen pending) ∧
      Searched symbols records entry (explore symbols records fuel seen pending) := by
  induction fuel generalizing seen pending with
  | zero =>
      -- no turn is left, but then there is nothing to be looked at either
      have hle := hsearch.length_le
      obtain rfl : pending = [] := List.eq_nil_of_length_eq_zero (by omega)
      rw [Symbols.searchOn]
      exact ⟨rfl, .of_examined hsearch hexamined⟩
  | succ fuel ih =>
      cases pending with
      | nil =>
          rw [Symbols.searchOn]
          exact ⟨rfl, .of_examined hsearch hexamined⟩
      | cons f pending =>
          obtain ⟨hfseen, hf⟩ := hsearch.waiting f List.mem_cons_self
          have hturned := @turn_turned _ records seen pending _ hs hf
          rw [Symbols.searchOn, explore_cons]
          generalize turn symbols records seen f pending = outcome at hturned ⊢
          cases hturned with
          | unresolved hunresolved =>
              exact ⟨rfl, .broken ⟨f.id, hsearch.reached f.id hfseen, hunresolved⟩⟩
          | @looked b new hbody hinside hvisited =>
              have hnext := hsearch.next hbody hvisited
              have hresolved :=
                not_unresolved_of_visited hf hbody hinside hvisited hnext.known
              refine ih hnext (hexamined.next hresolved) ?_
              simp only [List.length_append, List.length_map, List.length_cons] at hfuel ⊢
              omega

/-! ## The functions that can be reached -/

/-- Functions in the order of their numbers, none of them twice. -/
theorem pairwise_of_sublist (hs : symbols.Numbered) {fs : List FunctionSymbol}
    (h : fs.Sublist symbols.functions) : (fs.map FunctionSymbol.id).Pairwise (· < ·) := by
  refine List.Pairwise.sublist (h.map _) ?_
  rw [hs.map_id]
  exact List.pairwise_lt_range

/-- The functions besides the first one that a complete search has seen: those that are called from
it in one step or more. -/
theorem Search.mem_others (hs : symbols.Numbered)
    (hsearch : Search symbols records.toList entry seen []) (id : Nat) :
    id ∈ (symbols.functions.filter fun f => f.id ≠ entry ∧ f.id ∈ seen).map FunctionSymbol.id ↔
      id ≠ entry ∧ Relation.TransGen (Calls symbols records.toList) entry id := by
  have hmem : id ∈ (symbols.functions.filter fun f => f.id ≠ entry ∧ f.id ∈ seen).map
      FunctionSymbol.id ↔ id ≠ entry ∧ id ∈ seen := by
    simp only [List.mem_map, List.mem_filter, decide_eq_true_eq]
    constructor
    · rintro ⟨f, ⟨-, hne, hseen⟩, rfl⟩
      exact ⟨hne, hseen⟩
    · rintro ⟨hne, hseen⟩
      have hlt := hsearch.known id hseen
      have hid := hs.function id _ (List.getElem?_eq_getElem hlt)
      exact ⟨symbols.functions[id], ⟨List.getElem_mem hlt, hid.symm ▸ hne, hid.symm ▸ hseen⟩, hid⟩
  rw [hmem, hsearch.mem_iff, Reaches, Relation.reflTransGen_iff_eq_or_transGen]
  exact and_congr_right fun hne => or_iff_right hne

end

/-- The search for the functions of a program ends, and it is exact.  It gives the first function and
behind it all others that are called from it in one step or more, in the order of their numbers and
none of them twice; or it gives an error, which names a function that cannot be resolved.  It gives
the error exactly if one of the functions that can be reached, the first one included, has no body,
has a body that does not lie in the instructions, or calls a function that is not in the table. -/
theorem reachable_exact {symbols : Symbols} (hs : symbols.Numbered) {entry : FunctionSymbol}
    (hentry : symbols.function? entry.id = some entry) (records : Array Instruction) :
    reachableOn symbols records entry = some (reachable symbols records entry) ∧
      ((∃ others, reachable symbols records entry = .ok (entry :: others) ∧
          (∀ f ∈ others, symbols.function? f.id = some f) ∧
          (∀ id, id ∈ others.map FunctionSymbol.id ↔
            id ≠ entry.id ∧ Relation.TransGen (Calls symbols records.toList) entry.id id) ∧
          (others.map FunctionSymbol.id).Pairwise (· < ·)) ∨
        ∃ text, reachable symbols records entry = .error (.unresolvedCall text) ∧
          Broken symbols records.toList entry.id text) ∧
      ((∃ text, reachable symbols records entry = .error (.unresolvedCall text)) ↔
        ∃ text, Broken symbols records.toList entry.id text) := by
  have hexamined : Examined symbols records.toList [entry.id] [entry] := by
    intro id hid
    obtain rfl := List.mem_singleton.mp hid
    exact .inl ⟨entry, List.mem_singleton_self _, rfl⟩
  have hfuel : symbols.functions.length + [entry].length
      ≤ symbols.functions.length + 1 + [entry.id].length :=
    Nat.le_succ _
  obtain ⟨hloop, hsearched⟩ := search_spec hs (.start hentry) hexamined hfuel
  rw [reachableOn, reachable, hloop]
  generalize explore symbols records (symbols.functions.length + 1) [entry.id] [entry] = outcome
    at hsearched ⊢
  refine ⟨?_, ?_⟩
  · cases outcome with
    | error e | ok seen => rfl
  · cases hsearched with
    | @broken text hbroken =>
        exact ⟨.inr ⟨text, rfl, hbroken⟩, ⟨fun _ => ⟨text, hbroken⟩, fun _ => ⟨text, rfl⟩⟩⟩
    | @complete seen hsearch hresolved =>
        refine ⟨.inl ⟨_, rfl, ?_, hsearch.mem_others hs, ?_⟩, ⟨?_, ?_⟩⟩
        · intro f hf
          exact hs.function?_of_mem (List.mem_filter.mp hf).1
        · exact pairwise_of_sublist hs List.filter_sublist
        · rintro ⟨text, herror⟩
          cases herror
        · rintro ⟨text, hbroken⟩
          exact absurd hbroken (hresolved text)

/-! ### Functions that call one another in a circle -/

/-- A function that calls another one. -/
def circleStart : FunctionSymbol := ⟨0, "main", .void, [], "Main", some ⟨0, 1, []⟩⟩

/-- Three functions, of which the first and the last call each other and the last calls itself. -/
def circleTable : Symbols :=
  ⟨[circleStart, ⟨1, "Spare", .void, [], "Main", none⟩,
    ⟨2, "Turn", .void, [], "Main", some ⟨1, 2, []⟩⟩], []⟩

/-- What they call, one after the other. -/
def circleRecords : Array Instruction := #[.callTo 2, .callTo 0, .callTo 2]

/-- The function without a body is not reached, and so it is no error. -/
theorem reachable_exact_circle :
    ∃ others, reachable circleTable circleRecords circleStart = .ok (circleStart :: others) ∧
      (∀ id, id ∈ others.map FunctionSymbol.id ↔
        id ≠ 0 ∧ Relation.TransGen (Calls circleTable circleRecords.toList) 0 id) ∧
      (others.map FunctionSymbol.id).Pairwise (· < ·) ∧
      ¬ ∃ text, Broken circleTable circleRecords.toList 0 text := by
  have hnumbered : circleTable.Numbered := by
    refine ⟨?_, nofun⟩
    intro i f hf
    match i, hf with
    | 0, hf | 1, hf | 2, hf => exact (Option.some.inj hf).symm ▸ rfl
  have hentry : circleTable.function? circleStart.id = some circleStart := rfl
  obtain ⟨-, hgives | hfails, herror⟩ := reachable_exact hnumbered hentry circleRecords
  · obtain ⟨others, hok, -, hmem, hsorted⟩ := hgives
    refine ⟨others, hok, hmem, hsorted, ?_⟩
    intro hbroken
    obtain ⟨text, hfailed⟩ := herror.mpr hbroken
    cases hok.symm.trans hfailed
  · obtain ⟨text, hfailed, -⟩ := hfails
    have hok : (reachable circleTable circleRecords circleStart).isOk = true := by decide
    rw [hfailed] at hok
    cases hok

end Program

end Nss
