/-
# The registry that a session is left with

A session is changed by a unit in its registry only, and there by the first pass only.  That registers
the key of the unit, and then every key that a directive activates, in the order in which directives
are met:

| fate of a directive | its key |
| :-- | :-- |
| repeated | was registered before |
| missing, refused, opened | is registered by it |

`Registers` says that keys are registered one after the other, each for the first time.  By
`Walk.tracks_registers` a walk registers them so: the keys of a unit that is opened come behind its own.
-/
import Nss.Proofs.Session.Seated

namespace Nss

/-! ## Keys that are registered -/

namespace Registry

variable {r r' r'' : Registry} {key : String} {keys keys' : List String}

/-- The keys in the order of their registration. -/
def registered (r : Registry) : List String := r.entries.map RegistryEntry.key

theorem registered_register (h : r.contains key = false) :
    (r.register key).2.registered = r.registered ++ [key] := by
  rw [register, if_neg (by rw [h]; exact Bool.false_ne_true)]
  exact List.map_append

/-- Keys are registered one after the other, each for the first time. -/
inductive Registers : Registry → List String → Registry → Prop
  | none {r : Registry} : Registers r [] r
  | new {r r' : Registry} {key : String} {keys : List String} :
      r.contains key = false → Registers (r.register key).2 keys r' → Registers r (key :: keys) r'

namespace Registers

theorem trans (h : r.Registers keys r') (h' : r'.Registers keys' r'') :
    r.Registers (keys ++ keys') r'' := by
  induction h with
  | none => exact h'
  | new hnew _ ih => exact .new hnew (ih h')

theorem registered (h : r.Registers keys r') : r'.registered = r.registered ++ keys := by
  induction h with
  | none => exact (List.append_nil _).symm
  | new hnew _ ih => rw [ih, registered_register hnew, List.append_assoc, List.singleton_append]

theorem eq_of_nil (h : r.Registers [] r') : r' = r := by
  cases h
  rfl

end Registers

end Registry

namespace Encounter

end Encounter

/-! ## What an emission registers -/

namespace EmitState

variable {loader : Loader} {s : EmitState} {path : String}

end EmitState

namespace Walk

open Emit EmitState

variable {front : FrontEnd} {loader : Loader} {mode : EmitMode} {u : UnitText}
  {es : List Event} {s : EmitState} {log : List Encounter}
  {r : EStateM.Result Error EmitState Unit}

end Walk

section

variable {front : FrontEnd} {loader : Loader} {mode : EmitMode} {log : List Encounter}

end

/-! ## What a unit registers -/

namespace Session

variable {s : Session} {unitPath : String} {source : Bytes} {loader : Loader}

end Session

end Nss
