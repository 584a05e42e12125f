/-
# Blank characters

The characters that stand for white space in a text outside a script (Unicode property
`White_Space`), and the two operations on lines that list files need.
-/

namespace Nss.Text

/-- The blank characters as closed ranges of code points. -/
def blankRanges : List (Nat × Nat) :=
  [(0x9, 0xd), (0x20, 0x20), (0x85, 0x85), (0xa0, 0xa0), (0x1680, 0x1680), (0x2000, 0x200a),
   (0x2028, 0x2029), (0x202f, 0x202f), (0x205f, 0x205f), (0x3000, 0x3000)]

/-- Whether a character is blank. -/
def isBlank (c : Char) : Bool :=
  blankRanges.any fun range => range.1 ≤ c.toNat && c.toNat ≤ range.2

/-- A text without the blank characters at its two ends. -/
def trim (cs : List Char) : List Char :=
  ((cs.dropWhile isBlank).reverse.dropWhile isBlank).reverse

/-- A line without the carriage return that may end it. -/
def dropReturn (line : List Char) : List Char :=
  if line.getLast? = some '\r' then line.dropLast else line

/-- The pieces of a text between occurrences of a character, one more than there are
occurrences. -/
def pieces (separator : Char) : List Char → List (List Char)
  | [] => [[]]
  | c :: cs =>
    if c = separator then [] :: pieces separator cs
    else match pieces separator cs with
      | [] => [[c]]
      | piece :: rest => (c :: piece) :: rest

/-- Pieces of a text with some characters between them. -/
def joinWith (separator : List Char) : List (List Char) → List Char
  | [] => []
  | [piece] => piece
  | piece :: rest => piece ++ separator ++ joinWith separator rest

/-- The lines of a text.  A line ends at a line feed, and a carriage return just before it belongs
to the ending; nothing after the last line feed is no line. -/
def lines (s : String) : List String :=
  let all := pieces '\n' s.toList
  let ended := all.dropLast.map fun line => String.ofList (dropReturn line)
  match all.getLast? with
  | some [] | none => ended
  | some rest => ended ++ [String.ofList rest]

end Nss.Text
