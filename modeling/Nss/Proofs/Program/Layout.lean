/-
# Where functions lie

`Program.LaidOut` says that functions lie one behind the other from an offset on, each with the
instructions in the window of its body.  Then every instruction has an offset of its own, and so has
the end of every function, which is where the next one begins.
-/
import Nss.Program.Assembly
import Nss.Proofs.Unit.Bodies
import Nss.Proofs.Steps

namespace Nss

open Steps

namespace Program

/-! ## Offsets -/

theorem length_place (code : List Instruction) : ∀ at_, (place at_ code).length = code.length + 1 := by
  induction code with
  | nil => exact fun _ => rfl
  | cons i rest ih =>
      intro at_
      rw [place, List.length_cons, ih]
      rfl

/-- An instruction lies behind those before it, and the end behind all of them. -/
theorem getElem?_place {code : List Instruction} :
    ∀ {n : Nat} (at_ : Nat), n ≤ code.length →
      (place at_ code)[n]? = some (at_ + codeSize (code.take n)) := by
  induction code with
  | nil =>
      intro n at_ hn
      obtain rfl := Nat.le_zero.mp hn
      rfl
  | cons i rest ih =>
      intro n at_ hn
      cases n with
      | zero => rfl
      | succ n =>
          rw [place, List.getElem?_cons_succ, ih _ (Nat.le_of_succ_le_succ hn), List.take_succ_cons,
            codeSize, Nat.add_assoc]

theorem codeSize_take_le (code : List Instruction) (n : Nat) :
    codeSize (code.take n) ≤ codeSize code := by
  have hsplit := codeSize_append (code.take n) (code.drop n)
  rw [List.take_append_drop] at hsplit
  omega

theorem head?_place (at_ : Nat) (code : List Instruction) :
    (place at_ code).head? = some at_ := by
  cases code with
  | nil | cons => rfl

theorem headD_place (at_ : Nat) (code : List Instruction) : (place at_ code).headD 0 = at_ := by
  rw [List.headD_eq_head?_getD, head?_place]
  rfl

theorem getLastD_place (at_ : Nat) (code : List Instruction) :
    (place at_ code).getLastD 0 = endOf at_ code := by
  rw [List.getLastD_eq_getLast?, List.getLast?_eq_getElem?, length_place, Nat.add_sub_cancel,
    getElem?_place at_ (Nat.le_refl _), List.take_length]
  rfl

end Program

/-! ## Functions one behind the other -/

/-- A function at its place: its instructions are those in the window of its body, and their offsets
are right. -/
structure Placed.At (records : List Instruction) (at_ : Nat) (p : Placed) : Prop where
  body : p.symbol.body = some p.body
  inside : p.body.start + p.body.length ≤ records.length
  code : p.code = p.body.code records
  offsets : p.offsets = Program.place at_ p.code

namespace Program

/-- Functions lie one behind the other, the first one at an offset. -/
def LaidOut (records : List Instruction) : Nat → List Placed → Prop
  | _, [] => True
  | at_, p :: rest => p.At records at_ ∧ LaidOut records (endOf at_ p.code) rest

/-- All instructions of functions. -/
def allCode (placed : List Placed) : List Instruction := placed.flatMap Placed.code

theorem codeSize_allCode_cons (p : Placed) (rest : List Placed) :
    codeSize (allCode (p :: rest)) = codeSize p.code + codeSize (allCode rest) := by
  rw [allCode, List.flatMap_cons, codeSize_append]
  rfl

theorem bodyOf_eq_ok {f : FunctionSymbol} {b : FunctionBody} :
    bodyOf f = .ok b ↔ f.body = some b := by
  rw [bodyOf]
  cases f.body with
  | none => simp
  | some b' => simp

theorem codeOf_eq_ok {records : Array Instruction} {f : FunctionSymbol} {b : FunctionBody}
    {c : List Instruction} :
    codeOf records f b = .ok c ↔
      b.start + b.length ≤ records.size ∧ b.code records.toList = c := by
  have hcode : (records.extract b.start (b.start + b.length)).toList = b.code records.toList := by
    rw [Array.toList_extract, List.extract_eq_take_drop, Nat.add_sub_cancel_left]
    rfl
  rw [codeOf]
  split
  · next hle => rw [hcode, Except.ok.injEq, and_iff_right hle]
  · next hle => simp [hle]

/-- Functions can be laid out if they have bodies that lie in the instructions. -/
theorem layOut_eq_ok {records : Array Instruction} :
    ∀ {fs : List FunctionSymbol} {at_ : Nat} {placed : List Placed},
      layOut records at_ fs = .ok placed ↔
        placed.map Placed.symbol = fs ∧ LaidOut records.toList at_ placed
  | [], at_, placed => by
      rw [layOut, Except.ok.injEq, List.map_eq_nil_iff]
      refine ⟨?_, ?_⟩
      · rintro rfl
        exact ⟨rfl, trivial⟩
      · rintro ⟨rfl, -⟩
        rfl
  | f :: rest, at_, placed => by
      rw [layOut]
      simp only [except_bind_eq_ok, bodyOf_eq_ok, codeOf_eq_ok, layOut_eq_ok]
      refine ⟨?_, ?_⟩
      · rintro ⟨b, hb, c, ⟨hinside, rfl⟩, after, ⟨rfl, hafter⟩, h⟩
        obtain rfl := Except.ok.inj h
        exact ⟨rfl, ⟨hb, hinside, rfl, rfl⟩, hafter⟩
      · rintro ⟨hmap, hlaid⟩
        cases placed with
        | nil => cases hmap
        | cons p placed =>
            obtain ⟨rfl, rfl⟩ := List.cons.inj hmap
            obtain ⟨⟨hbody, hinside, hcode, hoffsets⟩, hrest⟩ := hlaid
            rw [hcode] at hrest
            refine ⟨p.body, hbody, _, ⟨hinside, rfl⟩, placed, ⟨rfl, hrest⟩, ?_⟩
            rw [← hcode, ← hoffsets]
            rfl


theorem exists_laidOut {records : List Instruction} :
    ∀ {fs : List FunctionSymbol} (at_ : Nat),
      (∀ f ∈ fs, ∃ b, f.body = some b ∧ b.start + b.length ≤ records.length) →
      ∃ placed, placed.map Placed.symbol = fs ∧ LaidOut records at_ placed
  | [], _, _ => ⟨[], rfl, trivial⟩
  | f :: rest, at_, h => by
      obtain ⟨b, hb, hinside⟩ := h f List.mem_cons_self
      obtain ⟨placed, hmap, hlaid⟩ := exists_laidOut (endOf at_ (b.code records))
        fun g hg => h g (.tail _ hg)
      refine ⟨⟨f, b, b.code records, place at_ (b.code records)⟩ :: placed, ?_, ?_, hlaid⟩
      · rw [List.map_cons, hmap]
      · exact ⟨hb, hinside, rfl, rfl⟩

namespace LaidOut

variable {records : List Instruction} {at_ : Nat} {placed : List Placed} {p : Placed}

/-- Every function lies between the offset of the first one and the end of the last one. -/
theorem of_mem (h : LaidOut records at_ placed) (hp : p ∈ placed) :
    ∃ first, p.At records first ∧
      endOf first p.code ≤ at_ + codeSize (allCode placed) := by
  induction placed generalizing at_ with
  | nil => cases hp
  | cons q rest ih =>
      rw [codeSize_allCode_cons]
      rcases List.mem_cons.mp hp with rfl | hp
      · refine ⟨at_, h.1, ?_⟩
        rw [endOf]
        omega
      · obtain ⟨first, hfirst, hle⟩ := ih h.2 hp
        refine ⟨first, hfirst, ?_⟩
        simp only [endOf] at hle ⊢
        omega

end LaidOut

theorem layoutOf_eq {records : List Instruction} {first : Nat} {p : Placed}
    (h : p.At records first) : layoutOf p = ⟨p.symbol.name, first, codeSize p.code⟩ := by
  rw [layoutOf, h.offsets, headD_place, getLastD_place, endOf, Nat.add_sub_cancel_left]

/-- Layouts follow one another without a gap, from one offset to another one. -/
def Contiguous : Nat → List FunctionLayout → Nat → Prop
  | start, [], stop => start = stop
  | start, l :: rest, stop => l.offset = start ∧ Contiguous (start + l.length) rest stop

theorem LaidOut.contiguous {records : List Instruction} :
    ∀ {placed : List Placed} {at_ : Nat}, LaidOut records at_ placed →
      Contiguous at_ (placed.map layoutOf) (at_ + codeSize (allCode placed))
  | [], _, _ => rfl
  | p :: rest, at_, h => by
      rw [List.map_cons, layoutOf_eq h.1, codeSize_allCode_cons, ← Nat.add_assoc]
      exact ⟨rfl, contiguous h.2⟩

/-! ## Where functions begin -/

theorem exists_of_entryOffset? {placed : List Placed} {id target : Nat}
    (h : entryOffset? placed id = some target) :
    ∃ p ∈ placed, p.symbol.id = id ∧ p.offsets.head? = some target := by
  obtain ⟨p, hp, htarget⟩ := Option.bind_eq_some_iff.mp h
  refine ⟨p, List.mem_reverse.mp (List.mem_of_find?_eq_some hp), ?_, htarget⟩
  simpa using List.find?_some hp

/-- Every function that lies somewhere begins somewhere. -/
theorem exists_entryOffset? {records : List Instruction} {at_ : Nat} {placed : List Placed}
    (h : LaidOut records at_ placed) {id : Nat} (hid : id ∈ placed.map (·.symbol.id)) :
    ∃ target, entryOffset? placed id = some target := by
  obtain ⟨p, hp, hpid⟩ := List.mem_map.mp hid
  have hsome : (placed.reverse.find? fun p => p.symbol.id = id).isSome = true := by
    refine List.find?_isSome.mpr ⟨p, List.mem_reverse.mpr hp, ?_⟩
    simpa using hpid
  obtain ⟨q, hq⟩ := Option.isSome_iff_exists.mp hsome
  have hmem := List.mem_reverse.mp (List.mem_of_find?_eq_some hq)
  obtain ⟨first, hfirst, -⟩ := h.of_mem hmem
  refine ⟨first, ?_⟩
  rw [entryOffset?, hq, Option.bind_some, hfirst.offsets, head?_place]

end Program

end Nss
