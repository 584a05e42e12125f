/-
# Literals

What the tokens of literals stand for.
-/
import Nss.Syntax.Parser.Basic
import Nss.Syntax.Basic

namespace Nss

/-- The value of a hexadecimal digit. -/
def hexDigitValue (c : Char) : Nat :=
  if isDigit c then c.toNat - '0'.toNat
  else if 'a' ≤ c then c.toNat - 'a'.toNat + 10
  else c.toNat - 'A'.toNat + 10

/-- The value of a row of hexadecimal digits. -/
def hexValue (cs : List Char) : Nat := cs.foldl (fun n c => 16 * n + hexDigitValue c) 0

/-- The text of a string literal with its escapes taken out: `\n`, `\t`, `\"` and `\\`.  A
backslash before any other character stands for itself. -/
def unescape : List Char → List Char
  | '\\' :: c :: rest =>
    if c = 'n' then '\n' :: unescape rest
    else if c = 't' then '\t' :: unescape rest
    else if c = '"' then '"' :: unescape rest
    else if c = '\\' then '\\' :: unescape rest
    else '\\' :: c :: unescape rest
  | c :: rest => c :: unescape rest
  | [] => []

namespace Literal

/-- The greatest number that is read at all. -/
def maxInteger : Nat := 9223372036854775807

/-- A decimal integer.  One more than the greatest constant is let through, so that the least one
can be written with a minus sign before it; it wraps around to that one. -/
def int (t : Token) : ScriptParser Expr :=
  let n := Binary32.digitsValue t.text.toList
  if maxInteger < n then ScriptParser.fail (.invalidInteger t.text) t.span
  else if 0x80000000 < n then ScriptParser.fail (.integerTooLarge t.text) t.span
  else return .int (Int32.ofNat n) t.span

/-- A hexadecimal integer, as the 32 bits that it spells. -/
def hex (t : Token) : ScriptParser Expr :=
  let n := hexValue (t.text.toList.drop 2)
  if n < 0x100000000 then return .int (UInt32.ofNat n).toInt32 t.span
  else ScriptParser.fail (.integerTooLarge t.text) t.span

/-- A floating point number. -/
def float (t : Token) : ScriptParser Expr :=
  let whole := run isDigit t.text.toList
  let fraction := run isDigit (t.text.toList.drop (whole.length + 1))
  if whole = [] ∧ fraction = [] then ScriptParser.fail (.invalidFloat t.text) t.span
  else return .float (Binary32.ofDecimal whole fraction) t.span

/-- A string. -/
def string (t : Token) : Expr := .string (String.ofList (unescape t.text.toList)) t.span

/-- The constants that are written as words. -/
def word? (t : Token) : Option Expr :=
  match t.text with
  | "TRUE" => some (.int 1 t.span)
  | "FALSE" => some (.int 0 t.span)
  | "OBJECT_SELF" => some (.object 0 t.span)
  | "OBJECT_INVALID" => some (.object 1 t.span)
  | _ => none

end Literal
end Nss
