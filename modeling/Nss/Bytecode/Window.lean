/-
# Output windows

The bytes of a compiled script are written from front to back into a window of limited size, which
has to be made larger before more can be written.  What is written can be overwritten, not taken
back.
-/
import Nss.Bytecode.Buffer

namespace Nss

/-- Bytes, and how many there may be. -/
structure Window where
  bytes : Bytes
  capacity : Nat
deriving DecidableEq, Repr, Inhabited

namespace Window

/-- The error of a window that some number of bytes do not fit into. -/
def tooSmall (size : Nat) : Error := .outOfMemory "output window" size

/-- An empty window of a given size. -/
def ofCapacity (granted : Memory) (capacity : Nat) : Except Error Window :=
  if granted capacity then .ok ⟨[], capacity⟩ else .error (tooSmall capacity)

/-- The number of bytes written. -/
def length (w : Window) : Nat := w.bytes.length

/-- The number of bytes that can still be written. -/
def remaining (w : Window) : Nat := w.capacity - w.length

/-- Writes bytes behind those written already. -/
def write (w : Window) (data : Bytes) : Except Error Window :=
  if w.remaining < data.length then .error (tooSmall (w.length + data.length))
  else .ok { w with bytes := w.bytes ++ data }

/-- Overwrites bytes from an offset on. -/
def patch (w : Window) (offset : Nat) (data : Bytes) : Except Error Window :=
  if w.length < offset + data.length then .error (tooSmall (offset + data.length))
  else .ok { w with
    bytes := w.bytes.take offset ++ data ++ w.bytes.drop (offset + data.length) }

/-- Makes a window at least as large as asked for. -/
def growTo (granted : Memory) (w : Window) (capacity : Nat) : Except Error Window :=
  if capacity ≤ w.capacity then .ok w
  else if granted capacity then .ok { w with capacity }
  else .error (tooSmall capacity)

end Window
end Nss
