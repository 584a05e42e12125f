/-
# Several instances side by side

A bench holds instances under names, and a stack of instances, the latest being the current one.
Every instance works against one of the registries of the bench: the first of them belongs to the
bench, the others to the instance that was created with them, which clears its registry when it is
destroyed.  An instance that is put in the place of another one, or dropped, is destroyed.
-/
import Nss.Unit.Instance

namespace Nss

/-- An instance, and the number of its registry. -/
structure Seated where
  unit : Instance
  registry : Nat
deriving Repr, Inhabited

/-- Instances under names and on a stack, and their registries. -/
structure Bench where
  slots : List (String × Seated)
  stack : List Seated
  registries : List Registry
deriving Repr, Inhabited

namespace Bench

/-- The registry that an instance is to work against. -/
inductive Scope where
  /-- The registry of the bench. -/
  | shared
  /-- The registry of the instance under a name. -/
  | nested (slot : String)
  /-- A registry of its own. -/
  | own
deriving DecidableEq, Repr, Inhabited

/-- A place where an instance can be. -/
inductive Seat where
  | slot (name : String)
  /-- The top of the stack. -/
  | top
deriving DecidableEq, Repr, Inhabited

/-- A bench without instances. -/
def empty : Bench := ⟨[], [], [.empty]⟩

/-- The registry with a number. -/
def registry (b : Bench) (n : Nat) : Registry := b.registries.getD n .empty

/-- Puts a registry in the place of the one with a number. -/
def setRegistry (b : Bench) (n : Nat) (r : Registry) : Bench :=
  { b with registries := b.registries.set n r }

/-- The instance under a name. -/
def slot? (b : Bench) (name : String) : Option Seated :=
  (b.slots.find? fun s => s.1 = name).map Prod.snd

/-- The instance at a place. -/
def at? (b : Bench) : Seat → Option Seated
  | .slot name => b.slot? name
  | .top => b.stack.head?

/-- Sets the instance under a name. -/
def setSlot (b : Bench) (name : String) (s : Seated) : Bench :=
  if (b.slot? name).isSome then
    { b with slots := b.slots.map fun e => if e.1 = name then (name, s) else e }
  else { b with slots := b.slots ++ [(name, s)] }

/-- Puts an instance in the place of the one at a place. -/
def setUnit (b : Bench) (seat : Seat) (i : Instance) : Bench :=
  match seat, b.at? seat with
  | .slot name, some s => b.setSlot name { s with unit := i }
  | .top, some s => { b with stack := { s with unit := i } :: b.stack.tail }
  | _, none => b

/-- The registries once an instance is destroyed. -/
def cleared (b : Bench) (s : Seated) : Bench :=
  if s.unit.clearsRegistry then b.setRegistry s.registry .empty else b

/-- Destroys the instance at a place, and says whether a copy of its source was given back. -/
def destroy (b : Bench) (seat : Seat) : Option Bool × Bench :=
  match b.at? seat with
  | none => (none, b)
  | some s =>
    let (freed, i) := s.unit.destroy
    (some freed, (b.cleared s).setUnit seat i)

/-- Takes the instance under a name off the bench. -/
def remove (b : Bench) (name : String) : Option Seated × Bench :=
  (b.slot? name, { b with slots := b.slots.filter fun e => e.1 ≠ name })

/-- Drops the instance under a name. -/
def drop (b : Bench) (name : String) : Bench :=
  match b.remove name with
  | (some s, b') => b'.cleared s
  | (none, b') => b'

/-- Puts an instance under a name, dropping one that is there. -/
def seat (b : Bench) (name : String) (s : Seated) : Bench :=
  match b.slot? name with
  | some old => (b.cleared old).setSlot name s
  | none => b.setSlot name s

/-- The number of the registry that a scope means, and the registries with a new one if it is a new
one. -/
def scopeRegistry (b : Bench) (scope : Scope) : Nat × List Registry :=
  let fresh := (b.registries.length, b.registries ++ [Registry.empty])
  match scope with
  | .shared => (0, b.registries)
  | .nested other =>
    match b.slot? other with
    | some s => (s.registry, b.registries)
    | none => fresh
  | .own => fresh

/-- Creates an instance under a name. -/
def create (b : Bench) (slot name : String) (source : Bytes) (path : Option String) (debug : Bool)
    (scope : Scope) : Except Error Bench := do
  let (n, registries) := b.scopeRegistry scope
  let b := { b with registries }
  let owns : Bool := scope = Scope.own
  let (i, r) ← Instance.create addressable name source path debug owns (b.registry n)
  return (b.setRegistry n r).seat slot { unit := i, registry := n }

/-- Moves the instance under a name onto the stack. -/
def push (b : Bench) (name : String) : Bench :=
  match b.remove name with
  | (some s, b') => { b' with stack := s :: b'.stack }
  | (none, b') => b'

/-- Moves the instance on top of the stack under a name, and gives its own name. -/
def pop (b : Bench) (name : String) : Option String × Bench :=
  match b.stack with
  | [] => (none, b)
  | s :: rest => (some s.unit.name, { b with stack := rest }.seat name s)

/-- Lets the instance at a place take over what the one under a name holds. -/
def absorb (b : Bench) (seat : Seat) (child : String) : Option (Except Error Nat) × Bench :=
  match b.at? seat, b.slot? child with
  | some s, some c =>
    let (i, c', outcome) := s.unit.absorb addressable c.unit
    (some outcome, (b.setSlot child { c with unit := c' }).setUnit seat i)
  | _, _ => (none, b)

/-- Registers a key in the registry of the instance at a place. -/
def register (b : Bench) (seat : Seat) (key : String) : Option Registration × Bench :=
  match b.at? seat with
  | none => (none, b)
  | some s =>
    let (registration, r) := (b.registry s.registry).register key
    (some registration, b.setRegistry s.registry r)

end Bench
end Nss
