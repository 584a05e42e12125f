/-
# Instruction buffers

A buffer collects the instructions of a unit.  It has room for a number of them that is zero or a
power of two, and grows to the smallest power of two that is enough; once sealed it takes no more.
Room may be refused: `granted` says which numbers of bytes can be had.
-/
import Nss.Bytecode.Instruction
import Nss.Error

namespace Nss

/-- What a store may ask for: `granted n` tells whether `n` bytes can be had. -/
abbrev Memory := Nat → Bool

/-- Memory that refuses only what no address could reach. -/
def addressable : Memory := fun n => n < 0x8000000000000000

/-- The greatest size that can be named. -/
def maxSize : Nat := 0xFFFFFFFFFFFFFFFF

/-- Instructions in order, with the room there is for more. -/
structure Buffer where
  records : Array Instruction
  capacity : Nat
  isSealed : Bool
deriving DecidableEq, Repr, Inhabited

namespace Buffer

/-- A buffer without instructions and without room. -/
def empty : Buffer := ⟨#[], 0, false⟩

/-- The number of instructions. -/
def length (b : Buffer) : Nat := b.records.size

/-- The bytes that one instruction takes in a buffer. -/
def recordSize : Nat := 32

/-- The error of a buffer that cannot grow to some number of instructions. -/
def refused (capacity : Nat) : Error :=
  .outOfMemory "instruction buffer" (min (capacity * recordSize) maxSize)

/-- Makes room for `required` instructions in all. -/
def ensureCapacity (granted : Memory) (b : Buffer) (required : Nat) : Except Error Buffer :=
  if required ≤ b.capacity then .ok b
  else
    let capacity := required.nextPowerOfTwo
    if granted (capacity * recordSize) then .ok { b with capacity }
    else .error (refused capacity)

/-- Makes room for one more instruction in a buffer that is not sealed. -/
def ensureNext (granted : Memory) (b : Buffer) : Except Error Buffer :=
  if b.isSealed then .error .bufferSealed else b.ensureCapacity granted (b.length + 1)

/-- A buffer that has room for it with one more instruction. -/
def push (b : Buffer) (i : Instruction) : Buffer := { b with records := b.records.push i }

/-- Adds an instruction. -/
def append (granted : Memory) (b : Buffer) (i : Instruction) : Except Error Buffer := do
  return (← b.ensureNext granted).push i

/-- Adds instructions one after the other.  An error leaves those before it in the buffer. -/
def appendAll (granted : Memory) : Buffer → List Instruction → Buffer × Except Error Unit
  | b, [] => (b, .ok ())
  | b, i :: rest =>
    match b.ensureNext granted with
    | .ok b' => appendAll granted (b'.push i) rest
    | .error e => (b, .error e)

/-- Adds the instructions of another buffer. -/
def appendBuffer (granted : Memory) (b other : Buffer) : Except Error Buffer :=
  if b.isSealed then .error .bufferSealed
  else do
    let b ← b.ensureCapacity granted (b.length + other.length)
    return { b with records := b.records ++ other.records }

/-- Closes a buffer. -/
def close (b : Buffer) : Buffer := { b with isSealed := true }

end Buffer
end Nss
