/-
# Operations of the bytecode

An instruction begins with two bytes, the operation and the types it works on.  `Op.decode?` reads
them back; where an operation has only one type byte, reading accepts any.
-/
import Nss.ValueType

namespace Nss

/-- An operation of the stack machine. -/
inductive Op where
  /-- Copies cells from the top down into the stack. -/
  | cpDownSp
  /-- Reserves a cell of a type. -/
  | rsAdd (type : ValueType)
  /-- Copies cells from within the stack to the top. -/
  | cpTopSp
  | const (type : ValueType)
  | logAnd
  | logOr
  | equal (pair : TypePair)
  | notEqual (pair : TypePair)
  | geq (pair : TypePair)
  | gt (pair : TypePair)
  | lt (pair : TypePair)
  | leq (pair : TypePair)
  | add (pair : TypePair)
  | sub (pair : TypePair)
  | mul (pair : TypePair)
  | div (pair : TypePair)
  | mod
  | neg (type : ValueType)
  /-- Moves the top of the stack. -/
  | movSp
  | jmp
  /-- Calls a function. -/
  | jsr
  /-- Takes a cell and jumps if it is zero. -/
  | jz
  | retn
  | not
  /-- Copies cells from the top to below the saved base pointer, where the globals are. -/
  | cpDownBp
  | cpTopBp
  | saveBp
  | restoreBp
deriving DecidableEq, Repr, Inhabited

namespace Op

/-- The byte that stands for an operation. -/
def code : Op → UInt8
  | cpDownSp => 0x01
  | rsAdd _ => 0x02
  | cpTopSp => 0x03
  | const _ => 0x04
  | logAnd => 0x06
  | logOr => 0x07
  | equal _ => 0x0B
  | notEqual _ => 0x0C
  | geq _ => 0x0D
  | gt _ => 0x0E
  | lt _ => 0x0F
  | leq _ => 0x10
  | add _ => 0x14
  | sub _ => 0x15
  | mul _ => 0x16
  | div _ => 0x17
  | mod => 0x18
  | neg _ => 0x19
  | movSp => 0x1B
  | jmp => 0x1D
  | jsr => 0x1E
  | jz => 0x1F
  | retn => 0x20
  | not => 0x22
  | cpDownBp => 0x26
  | cpTopBp => 0x27
  | saveBp => 0x2A
  | restoreBp => 0x2B

/-- The byte that stands for the types of an operation. -/
def typeByte : Op → UInt8
  | cpDownSp | cpTopSp | cpDownBp | cpTopBp => 0x01
  | rsAdd t | const t | neg t => t.code?.getD 0x00
  | equal p | notEqual p | geq p | gt p | lt p | leq p | add p | sub p | mul p | div p => p.code
  | logAnd | logOr | mod => TypePair.intInt.code
  | not => 0x03
  | movSp | jmp | jsr | jz | retn | saveBp | restoreBp => 0x00

/-- The operation that two bytes stand for. -/
def decode? (code type : UInt8) : Option Op :=
  if code = 0x01 then some cpDownSp
  else if code = 0x02 then (ValueType.ofCode? type).map rsAdd
  else if code = 0x03 then some cpTopSp
  else if code = 0x04 then (ValueType.ofCode? type).map const
  else if code = 0x06 then some logAnd
  else if code = 0x07 then some logOr
  else if code = 0x0B then (TypePair.ofCode? type).map equal
  else if code = 0x0C then (TypePair.ofCode? type).map notEqual
  else if code = 0x0D then (TypePair.ofCode? type).map geq
  else if code = 0x0E then (TypePair.ofCode? type).map gt
  else if code = 0x0F then (TypePair.ofCode? type).map lt
  else if code = 0x10 then (TypePair.ofCode? type).map leq
  else if code = 0x14 then (TypePair.ofCode? type).map add
  else if code = 0x15 then (TypePair.ofCode? type).map sub
  else if code = 0x16 then (TypePair.ofCode? type).map mul
  else if code = 0x17 then (TypePair.ofCode? type).map div
  else if code = 0x18 then some mod
  else if code = 0x19 then (ValueType.ofCode? type).map neg
  else if code = 0x1B then some movSp
  else if code = 0x1D then some jmp
  else if code = 0x1E then some jsr
  else if code = 0x1F then some jz
  else if code = 0x20 then some retn
  else if code = 0x22 then some not
  else if code = 0x26 then some cpDownBp
  else if code = 0x27 then some cpTopBp
  else if code = 0x2A then some saveBp
  else if code = 0x2B then some restoreBp
  else none

/-- The name of an operation in a listing. -/
def mnemonic : Op → String
  | cpDownSp => "CPDOWNSP"
  | rsAdd t => "RSADD" ++ t.letter
  | cpTopSp => "CPTOPSP"
  | const t => "CONST" ++ t.letter
  | logAnd => "LOGANDII"
  | logOr => "LOGORII"
  | equal p => "EQUAL" ++ p.letters
  | notEqual p => "NEQUAL" ++ p.letters
  | geq p => "GEQ" ++ p.letters
  | gt p => "GT" ++ p.letters
  | lt p => "LT" ++ p.letters
  | leq p => "LEQ" ++ p.letters
  | add p => "ADD" ++ p.letters
  | sub p => "SUB" ++ p.letters
  | mul p => "MUL" ++ p.letters
  | div p => "DIV" ++ p.letters
  | mod => "MODII"
  | neg t => "NEG" ++ t.letter
  | movSp => "MOVSP"
  | jmp => "JMP"
  | jsr => "JSR"
  | jz => "JZ"
  | retn => "RETN"
  | not => "NOTI"
  | cpDownBp => "CPDOWNBP"
  | cpTopBp => "CPTOPBP"
  | saveBp => "SAVEBP"
  | restoreBp => "RESTOREBP"

/-- Every operation, on every type and pair of types. -/
def every : List Op :=
  let types := [.void, .int, .float, .string, .object]
  let pairs := [.intInt, .floatFloat, .objectObject, .stringString, .intFloat, .floatInt]
  [cpDownSp, cpTopSp, logAnd, logOr, mod, movSp, jmp, jsr, jz, retn, not, cpDownBp, cpTopBp, saveBp,
    restoreBp]
  ++ types.flatMap (fun t => [rsAdd t, const t, neg t])
  ++ pairs.flatMap fun p =>
    [equal p, notEqual p, geq p, gt p, lt p, leq p, add p, sub p, mul p, div p]

/-- The operation with a given name. -/
def ofMnemonic? (name : String) : Option Op := every.find? (·.mnemonic = name)

/-- Whether the operand of an operation is the distance to another instruction. -/
def isJump : Op → Bool
  | jmp | jsr | jz => true
  | _ => false

end Op
end Nss
