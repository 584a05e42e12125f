/-
# Instructions

An instruction is an operation with its operand.  Where a jump or a call goes to, and where a global
variable lies, is known only when the whole program is laid out; until then those operands are
symbolic, and `encode` is given the number that takes their place.  It does not depend on that
number how many bytes an instruction takes.
-/
import Nss.Bytecode.Op
import Nss.Text.Bytes
import Nss.Number.Binary32

namespace Nss

/-- The operand of an instruction. -/
inductive Operand where
  | none
  | int (value : Int32)
  | float (value : Binary32)
  | str (text : String)
  | object (value : Int32)
  /-- The distance to some cells from the top of the stack, and their number of bytes. -/
  | stack (offset : Int32) (size : UInt16)
  /-- The number of bytes by which the top of the stack moves. -/
  | offset (bytes : Int32)
  /-- A label of the same function. -/
  | label (index : Nat)
  /-- A function, by its number in the symbol table. -/
  | call (function : Nat)
  /-- A global variable, by its number in the symbol table. -/
  | global (slot : Nat)
deriving DecidableEq, Repr, Inhabited

/-- An operation with its operand. -/
structure Instruction where
  op : Op
  operand : Operand
deriving DecidableEq, Repr, Inhabited

namespace Instruction

/-! ## The instructions that functions are lowered to -/

/-- An instruction without operand. -/
def simple (op : Op) : Instruction := ⟨op, .none⟩

/-- Reserves a cell. -/
def reserve (t : ValueType) : Instruction := simple (.rsAdd t)

/-- The number of bytes in `n` cells. -/
def cells (n : Int) : Int32 := Int32.ofInt (cellSize * n)

/-- Copies the top cell into the cell that is `n` cells from the top; `n` is negative. -/
def storeCell (n : Int) : Instruction := ⟨.cpDownSp, .stack (cells n) (UInt16.ofNat cellSize)⟩

/-- Copies the cell that is `n` cells from the top to the top; `n` is negative. -/
def loadCell (n : Int) : Instruction := ⟨.cpTopSp, .stack (cells n) (UInt16.ofNat cellSize)⟩

/-- Takes `n` cells from the stack. -/
def pop (n : Nat) : Instruction := ⟨.movSp, .offset (cells (-n))⟩

/-- Goes on at a label. -/
def jump (label : Nat) : Instruction := ⟨.jmp, .label label⟩

/-- Takes the top cell and goes on at a label if it is zero. -/
def jumpIfZero (label : Nat) : Instruction := ⟨.jz, .label label⟩

/-- Calls a function. -/
def callTo (function : Nat) : Instruction := ⟨.jsr, .call function⟩

/-- Ends a function. -/
def ending : Instruction := simple .retn

/-- Copies a global variable to the top. -/
def loadGlobal (slot : Nat) : Instruction := ⟨.cpTopBp, .global slot⟩

/-- Copies the top cell into a global variable. -/
def storeGlobal (slot : Nat) : Instruction := ⟨.cpDownBp, .global slot⟩

/-! ## Encoding -/

/-- The longest string that an instruction can hold, in bytes; the rest of a longer one is left
out. -/
def maxString : Nat := 65535

/-- The bytes of a string that an instruction holds. -/
def stringBytes (text : String) : Bytes := (Bytes.ofText text).take maxString

/-- The number of bytes that an operand takes. -/
def operandSize : Operand → Nat
  | .none => 0
  | .str text => 2 + (stringBytes text).length
  | .stack _ _ | .global _ => 6
  | .int _ | .float _ | .object _ | .offset _ | .label _ | .call _ => 4

/-- The number of bytes that an instruction takes. -/
def size (i : Instruction) : Nat := 2 + operandSize i.operand

/-- An operand as bytes, `resolved` standing for a symbolic one. -/
def encodeOperand (resolved : Int32) : Operand → Bytes
  | .none => []
  | .int v | .object v | .offset v => Bytes.ofUInt32 v.toUInt32
  | .float v => Bytes.ofUInt32 v.bits
  | .str text =>
    let bytes := stringBytes text
    Bytes.ofUInt16 (UInt16.ofNat bytes.length) ++ bytes
  | .stack offset size => Bytes.ofUInt32 offset.toUInt32 ++ Bytes.ofUInt16 size
  | .global _ => Bytes.ofUInt32 resolved.toUInt32 ++ Bytes.ofUInt16 (UInt16.ofNat cellSize)
  | .label _ | .call _ => Bytes.ofUInt32 resolved.toUInt32

/-- An instruction as bytes, `resolved` standing for a symbolic operand. -/
def encode (i : Instruction) (resolved : Int32) : Bytes :=
  i.op.code :: i.op.typeByte :: encodeOperand resolved i.operand

/-- An encoding has as many bytes as the size says. -/
theorem length_encode (i : Instruction) (resolved : Int32) :
    (i.encode resolved).length = i.size := by
  cases h : i.operand with
  | str s =>
    simp [encode, encodeOperand, size, operandSize, h, Bytes.ofUInt16]
    omega
  | _ => simp [encode, encodeOperand, size, operandSize, h, Bytes.ofUInt32, Bytes.ofUInt16]

end Instruction

/-- The number of bytes that instructions take together. -/
def codeSize : List Instruction → Nat
  | [] => 0
  | i :: rest => i.size + codeSize rest

theorem codeSize_append (as bs : List Instruction) :
    codeSize (as ++ bs) = codeSize as + codeSize bs := by
  induction as with
  | nil => simp [codeSize]
  | cons i as ih => simp [codeSize, ih, Nat.add_assoc]

end Nss
