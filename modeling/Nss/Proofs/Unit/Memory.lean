/-
# Emissions that stop

An emission of a unit whose buffer grew by need stops only for want of memory: for the source of a
unit that is opened, or for the code of a function, of a unit that is taken over or of the loader.
-/
import Nss.Proofs.Unit.Flat

namespace Nss

open Steps

/-- There was no memory for something. -/
def Error.IsMemory (e : Error) : Prop := ∃ what bytes, e = .outOfMemory what bytes

namespace Instance

open Buffer

variable {i i' c c' : Instance} {l : Lowering} {e : Error}

theorem isMemory_refused (capacity : Nat) : (refused capacity).IsMemory := ⟨_, _, rfl⟩

theorem isMemory_of_begin? {granted : Memory} {name : String} {source : Bytes} {debug owns : Bool}
    (h : begin? granted name source debug owns = .error e) : e.IsMemory := by
  rw [begin?_eq] at h
  split at h
  · cases h
  · exact ⟨_, _, (Except.error.inj h).symm⟩

theorem Roomy.isMemory_of_appendCode (h : i.Roomy)
    (happend : i.appendCode addressable l = (i', .error e)) : e.IsMemory := by
  have hroomy :=
    ensureCapacity_holding (i.code.size + l.code.size) h.granted (Nat.le_add_right _ _)
  have hlength : (holding i.code).length = i.code.size := rfl
  by_cases hgranted : Granted (i.code.size + l.code.size)
  · rw [h.appendCode_eq_ok.mpr ⟨hgranted, rfl, rfl⟩] at happend
    cases (Prod.mk.inj happend).2
  · rw [appendCode, h.openBuffer] at happend
    dsimp only at happend
    rw [hlength, hroomy, if_neg hgranted] at happend
    rw [← Except.error.inj (Prod.mk.inj happend).2]
    exact isMemory_refused _

theorem Roomy.isMemory_of_absorb (h : i.Roomy) (hc : c.Roomy)
    (habsorb : i.absorb addressable c = (i', c', .error e)) : e.IsMemory := by
  by_cases hgranted : Granted (i.code.size + c.code.size)
  · obtain ⟨_, hjoined⟩ := absorb_of_granted h hc hgranted
    rw [hjoined] at habsorb
    cases (Prod.mk.inj (Prod.mk.inj habsorb).2).2
  · rw [absorb] at habsorb
    cases hbuffer : c.buffer with
    | none =>
        rw [hbuffer] at habsorb
        cases (Prod.mk.inj (Prod.mk.inj habsorb).2).2
    | some more =>
        have hmore : c.code = more.records := by rw [code, hbuffer, Option.getD_some]
        have happend := appendBuffer_holding more.records h.granted
        rw [← hmore, if_neg hgranted, hmore, ← hc.buffer more hbuffer] at happend
        simp only [hbuffer, h.openBuffer, happend] at habsorb
        rw [← Except.error.inj (Prod.mk.inj (Prod.mk.inj habsorb).2).2]
        exact isMemory_refused _

end Instance

namespace Emit

open EmitState

variable {s t : EmitState} {e : Error} {u : UnitText}

/-! ## Steps -/

theorem isMemory_of_addBody (hs : s.current.Roomy) {id : Nat} {l : Lowering}
    (h : addBody id l s = .error e t) : e.IsMemory := by
  rw [addBody_apply] at h
  rcases happend : s.current.appendCode addressable l with ⟨i, e' | body⟩
  · rw [happend] at h
    obtain ⟨rfl, -⟩ := EStateM.Result.error.inj h
    exact hs.isMemory_of_appendCode happend
  · rw [happend] at h
    cases h

theorem isMemory_of_carry (hs : s.current.Roomy) {effect : Effect}
    (h : carry u effect s = .error e t) : e.IsMemory := by
  rw [carry] at h
  cases hbody : effect.body with
  | none =>
      rw [hbody] at h
      cases h
  | some added =>
      rw [hbody] at h
      exact isMemory_of_addBody (hs.reports _) h

theorem isMemory_of_absorb (hs : s.current.Roomy) {child : Instance} (hchild : child.Roomy)
    (h : absorb child s = .error e t) : e.IsMemory := by
  rw [absorb_apply] at h
  rcases habsorb : s.current.absorb addressable child with ⟨i, child', e' | offset⟩
  · rw [habsorb] at h
    obtain ⟨rfl, -⟩ := EStateM.Result.error.inj h
    exact hs.isMemory_of_absorb hchild habsorb
  · rw [habsorb] at h
    cases h

/-! ## Parts of units -/

mutual

/-- Emitting a part of a unit stops only for want of memory. -/
theorem isMemory_of_part : ∀ (u : UnitText) (x : Expanded) {s t : EmitState} {e : Error}, s.Ready →
    part .full u x s = .error e t → e.IsMemory
  | u, .problem d, s, t, e, _, h => by
      rw [part_problem_apply] at h
      cases h
  | u, .declaration decl, s, t, e, hs, h => by
      rw [part_declaration_apply] at h
      exact isMemory_of_carry (s := s.notes decl) hs.roomy h
  | u, .repeated key, s, t, e, _, h => by
      rw [part_repeated_apply] at h
      cases h
  | u, .missing key path span, s, t, e, _, h => by
      rw [part_missing_apply] at h
      cases h
  | u, .opened key source content, s, t, e, hs, h => by
      rw [part, nested_apply] at h
      cases hbegin : Instance.begin? addressable key source s.current.debug false with
      | error e' =>
          rw [hbegin] at h
          obtain ⟨rfl, -⟩ := EStateM.Result.error.inj h
          exact Instance.isMemory_of_begin? hbegin
      | ok child =>
          rw [hbegin] at h
          dsimp only at h
          have hbegun : (s.entering key child).Ready :=
            ⟨Instance.roomy_of_begin? hbegin, hs.numbered⟩
          cases hrun : parts .full ⟨key, Bytes.toText source⟩ content (s.entering key child) with
          | error e' t' =>
              rw [hrun] at h
              obtain ⟨rfl, -⟩ := EStateM.Result.error.inj h
              exact isMemory_of_parts _ content hbegun hrun
          | ok _ t' =>
              rw [hrun] at h
              have hended := hbegun.performAll ((parts_eq_ok_iff _ content hbegun).mp hrun).2
              exact isMemory_of_absorb (s := { t' with current := s.current, outer := s.outer })
                hs.roomy hended.roomy h

/-- Emitting parts of a unit stops only for want of memory. -/
theorem isMemory_of_parts : ∀ (u : UnitText) (xs : List Expanded) {s t : EmitState} {e : Error},
    s.Ready →
    parts .full u xs s = .error e t → e.IsMemory
  | u, [], s, t, e, _, h => by
      rw [parts] at h
      cases h
  | u, x :: rest, s, t, e, hs, h => by
      rw [parts, bind_eq_error] at h
      rcases h with hfirst | ⟨_, s', hfirst, hrest⟩
      · exact isMemory_of_part u x hs hfirst
      · exact isMemory_of_parts u rest
          (hs.performAll ((part_eq_ok_iff u x hs).mp hfirst).2) hrest

end

/-! ## The outermost unit -/

theorem isMemory_of_addLoader (hs : s.current.Roomy) (h : addLoader s = .error e t) :
    e.IsMemory := by
  rw [addLoader_apply] at h
  split at h
  · cases h
  · refine isMemory_of_addBody ?_ h
    exact hs

/-- Emitting a unit that has its source stops only for want of memory. -/
theorem isMemory_of_root {front : FrontEnd} {loader : Loader} (hs : s.Ready) {source : Bytes}
    (hsource : s.current.source.bytes? = some source)
    (h : root front loader .full s = .error e t) : e.IsMemory := by
  have hstart : Ready { s with entrySeen := false } := ⟨hs.roomy, hs.numbered⟩
  rw [root_apply, hsource] at h
  rcases bind_eq_error.mp h with hparts | ⟨_, s', hparts, hfinish⟩
  · exact isMemory_of_parts _ _ hstart hparts
  · have hended := hstart.performAll ((parts_eq_ok_iff _ _ hstart).mp hparts).2
    rw [finish_apply] at hfinish
    exact isMemory_of_addLoader (roomy_concluded hended.roomy) hfinish

end Emit

end Nss
