/-
# Types of values

A script computes with integers, floating point numbers, strings and objects; a function may also
give back nothing.  Every value takes one stack cell of four bytes.  The bytecode names a type, or
the two types of a binary operation, in the byte after the operation code.
-/

namespace Nss

/-- The number of bytes in a stack cell. -/
def cellSize : Nat := 4

/-- The type of a value, or `void` for none. -/
inductive ValueType where
  | void
  | int
  | float
  | string
  | object
deriving DecidableEq, Repr, Inhabited

namespace ValueType

/-- The word for a type in a script. -/
def name : ValueType → String
  | void => "void"
  | int => "int"
  | float => "float"
  | string => "string"
  | object => "object"

/-- The type that a word names. -/
def ofName? : String → Option ValueType
  | "void" => some void
  | "int" => some int
  | "float" => some float
  | "string" => some string
  | "object" => some object
  | _ => none

/-- The name of a type after its article. -/
def withArticle (t : ValueType) : String :=
  match t with
  | int | object => "an " ++ t.name
  | void | float | string => "a " ++ t.name

/-- Whether there are no values of the type. -/
def isVoid : ValueType → Bool
  | void => true
  | _ => false

/-- The bytes that a value takes on the stack. -/
def stackSize (t : ValueType) : Nat := if t.isVoid then 0 else cellSize

/-- The byte that stands for a type in an instruction. -/
def code? : ValueType → Option UInt8
  | void => none
  | int => some 0x03
  | float => some 0x04
  | string => some 0x05
  | object => some 0x06

/-- The type that a byte of an instruction stands for. -/
def ofCode? (b : UInt8) : Option ValueType :=
  if b = 0x03 then some int
  else if b = 0x04 then some float
  else if b = 0x05 then some string
  else if b = 0x06 then some object
  else none

/-- The letter that ends the mnemonic of an instruction on one type. -/
def letter : ValueType → String
  | void => ""
  | int => "I"
  | float => "F"
  | string => "S"
  | object => "O"

end ValueType

/-- The pairs of operand types that a binary instruction can have. -/
inductive TypePair where
  | intInt
  | floatFloat
  | objectObject
  | stringString
  | intFloat
  | floatInt
deriving DecidableEq, Repr, Inhabited

namespace TypePair

/-- The pair for two operand types, left and right. -/
def of? : ValueType → ValueType → Option TypePair
  | .int, .int => some intInt
  | .float, .float => some floatFloat
  | .object, .object => some objectObject
  | .string, .string => some stringString
  | .int, .float => some intFloat
  | .float, .int => some floatInt
  | _, _ => none

/-- The type of the left operand. -/
def left : TypePair → ValueType
  | intInt | intFloat => .int
  | floatFloat | floatInt => .float
  | objectObject => .object
  | stringString => .string

/-- The type of the right operand. -/
def right : TypePair → ValueType
  | intInt | floatInt => .int
  | floatFloat | intFloat => .float
  | objectObject => .object
  | stringString => .string

/-- The byte that stands for a pair in an instruction. -/
def code : TypePair → UInt8
  | intInt => 0x20
  | floatFloat => 0x21
  | objectObject => 0x22
  | stringString => 0x23
  | intFloat => 0x25
  | floatInt => 0x26

/-- The pair that a byte of an instruction stands for. -/
def ofCode? (b : UInt8) : Option TypePair :=
  if b = 0x20 then some intInt
  else if b = 0x21 then some floatFloat
  else if b = 0x22 then some objectObject
  else if b = 0x23 then some stringString
  else if b = 0x25 then some intFloat
  else if b = 0x26 then some floatInt
  else none

/-- The type of a sum, difference, product or quotient of such operands. -/
def arithmeticResult : TypePair → ValueType
  | intInt => .int
  | floatFloat | intFloat | floatInt => .float
  | stringString => .string
  | objectObject => .object

/-- The letters that end the mnemonic of an instruction on such operands. -/
def letters (p : TypePair) : String := p.left.letter ++ p.right.letter

end TypePair
end Nss
