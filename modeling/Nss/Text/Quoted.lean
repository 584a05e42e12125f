/-
# Quoted text

How a listing shows a string constant: between double quotes, with the quote, the backslash and the
usual control characters escaped, and with every character that has no visible form of its own
written as its number.
-/
import Nss.Text.Hidden

namespace Nss.Text

/-- A code point as `\u` with its hexadecimal digits in braces. -/
def escapeNumber (n : Nat) : List Char :=
  ['\\', 'u', '\x7b'] ++ Nat.toDigits 16 n ++ ['\x7d']

/-- One character between the quotes. -/
def escapeChar (c : Char) : List Char :=
  if c = '\x00' then ['\\', '0']
  else if c = '\t' then ['\\', 't']
  else if c = '\r' then ['\\', 'r']
  else if c = '\n' then ['\\', 'n']
  else if c = '"' then ['\\', '"']
  else if c = '\\' then ['\\', '\\']
  else if c < ' ' then escapeNumber c.toNat
  else if c ≤ '~' then [c]
  else if isHidden c then escapeNumber c.toNat
  else [c]

/-- A text as a listing shows it. -/
def quoted (s : String) : String :=
  String.ofList ('"' :: s.toList.flatMap escapeChar ++ ['"'])

end Nss.Text
