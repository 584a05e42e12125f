/-
# Reading compiled scripts

A compiled script is a header, the nine characters `NCS V1.0B` and the size of the file, and the
instructions one after the other.  `Listing.ofFile` reads it back into instructions at their
offsets; `Listing.text` shows them, one to a line.
-/
import Nss.Bytecode.Instruction
import Nss.Error
import Nss.Text.Quoted

namespace Nss

/-- The characters that a compiled script begins with. -/
def fileMagic : Bytes := Bytes.ofText "NCS V1.0B"

/-- Where the size of the file stands. -/
def sizeOffset : Nat := 9

/-- The number of bytes before the first instruction. -/
def headerSize : Nat := 13

/-- The header of a file of a given size. -/
def fileHeader (size : Nat) : Bytes := fileMagic ++ Bytes.ofUInt32Reversed (UInt32.ofNat size)

/-- The operand of an instruction that was read back. -/
inductive DecodedOperand where
  | none
  | int (value : Int32)
  | float (value : Binary32)
  | str (text : String)
  | stack (offset : Int32) (size : UInt16)
deriving DecidableEq, Repr, Inhabited

/-- An instruction at its place in a file. -/
structure Decoded where
  offset : Nat
  op : Op
  operand : DecodedOperand
deriving DecidableEq, Repr, Inhabited

namespace Decoded

/-- The integer in an operand. -/
def operandInt? (d : Decoded) : Option Int32 :=
  match d.operand with
  | .int v => some v
  | .stack offset _ => some offset
  | _ => none

/-- The place that a jump or a call goes to, if it is not before the beginning of the file. -/
def target? (d : Decoded) : Option Nat :=
  if d.op.isJump then
    d.operandInt?.bind fun delta => ((d.offset : Int) + delta.toInt).toNat?
  else none

end Decoded

namespace Listing

/-! ## Reading -/

/-- An operand at the beginning of some bytes, which begin at the offset `at_`, and the bytes behind
it. -/
def operand (op : Op) (at_ : Nat) (bytes : Bytes) : Except Error (DecodedOperand × Bytes) :=
  let ended : Except Error (DecodedOperand × Bytes) := .error (.malformed at_ .endOfFile)
  match op with
  | .cpDownSp | .cpTopSp | .cpDownBp | .cpTopBp =>
    match bytes with
    | a :: b :: c :: d :: e :: f :: rest =>
      .ok (.stack (Bytes.toUInt32 a b c d).toInt32 (Bytes.toUInt16 e f), rest)
    | _ :: _ :: _ :: _ :: _ => .error (.malformed (at_ + 4) .endOfFile)
    | _ => ended
  | .const .string =>
    match bytes with
    | a :: b :: rest =>
      let n := (Bytes.toUInt16 a b).toNat
      if n ≤ rest.length then .ok (.str (Bytes.toText (rest.take n)), rest.drop n)
      else .error (.malformed (at_ + 2) .endOfFile)
    | _ => ended
  | .const .float =>
    match bytes with
    | a :: b :: c :: d :: rest => .ok (.float ⟨Bytes.toUInt32 a b c d⟩, rest)
    | _ => ended
  | .const _ | .movSp | .jmp | .jsr | .jz =>
    match bytes with
    | a :: b :: c :: d :: rest => .ok (.int (Bytes.toUInt32 a b c d).toInt32, rest)
    | _ => ended
  | _ => .ok (.none, bytes)

/-- The instruction at the beginning of some bytes, which begin at the offset `at_`, and the bytes
behind it. -/
def instruction (at_ : Nat) : Bytes → Except Error (Decoded × Bytes)
  | code :: type :: rest =>
    match Op.decode? code type with
    | some op => do
      let (x, rest') ← operand op (at_ + 2) rest
      return (⟨at_, op, x⟩, rest')
    | none => .error (.malformed at_ (.unknownOpcode code type))
  | [_] => .error (.malformed (at_ + 1) .endOfFile)
  | [] => .error (.malformed at_ .endOfFile)

/-- The instructions that some bytes, which begin at the offset `at_`, consist of.  Each takes at
least one byte, so that there are at most as many as bytes. -/
def instructions : Nat → Nat → Bytes → Except Error (List Decoded)
  | 0, _, _ => .ok []
  | fuel + 1, at_, bytes =>
    if bytes = [] then .ok []
    else do
      let (d, rest) ← instruction at_ bytes
      return d :: (← instructions fuel (at_ + (bytes.length - rest.length)) rest)

/-- The number in the size field of a file. -/
def sizeField (bytes : Bytes) : Nat :=
  match bytes.drop sizeOffset with
  | a :: b :: c :: d :: _ => (Bytes.toUInt32 d c b a).toNat
  | _ => 0

/-- The instructions of a compiled script. -/
def ofFile (bytes : Bytes) : Except Error (List Decoded) :=
  if bytes.length < headerSize ∨ bytes.take fileMagic.length ≠ fileMagic then
    .error (.malformed 0 .noHeader)
  else if sizeField bytes ≠ bytes.length then
    .error (.malformed sizeOffset (.wrongSize (sizeField bytes) bytes.length))
  else instructions bytes.length headerSize (bytes.drop headerSize)

/-! ## Showing -/

/-- A number in at least eight hexadecimal digits, with capital letters. -/
def hex8 (n : Nat) : List Char :=
  let digits := (Nat.toDigits 16 n).map Char.toUpper
  List.replicate (8 - digits.length) '0' ++ digits

/-- A text filled up with spaces to ten characters. -/
def pad10 (cs : List Char) : List Char := cs ++ List.replicate (10 - cs.length) ' '

/-- An operand as it is shown; for a jump, the place that it goes to. -/
def operandText? (d : Decoded) : Option (List Char) :=
  match d.operand with
  | .none => none
  | .int v =>
    if d.op.isJump then some (hex8 (d.target?.getD 0)) else some v.toInt.repr.toList
  | .float v => some v.text.toList
  | .str text => some (Text.quoted text).toList
  | .stack offset size =>
    some (offset.toInt.repr.toList ++ [',', ' '] ++ size.toNat.repr.toList)

/-- The line for an instruction: its offset, its name and its operand. -/
def line (d : Decoded) : List Char :=
  let name := d.op.mnemonic.toList
  hex8 d.offset ++ [' ', ' '] ++
    match operandText? d with
    | some x => pad10 name ++ x
    | none => name

/-- Instructions as text, each on a line of its own. -/
def text (ds : List Decoded) : String := String.ofList (ds.flatMap fun d => line d ++ ['\n'])

end Listing
end Nss
