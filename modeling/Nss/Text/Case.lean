/-
# Lowercase text

`lowercase` replaces every capital letter by its small letter.  Two rules go beyond one letter for
one letter: the capital I with a dot above becomes two characters, and the Greek capital sigma
becomes the final small sigma at the end of a word.
-/
import Nss.Text.Case.Table

namespace Nss.Text

/-- Whether a code point lies in one of some closed ranges. -/
def inRanges (ranges : List (Nat × Nat)) (n : Nat) : Bool :=
  ranges.any fun range => range.1 ≤ n && n ≤ range.2

/-- Upper-, lower- or titlecase. -/
def isCased (c : Char) : Bool := inRanges casedRanges c.toNat

/-- Of no influence on where a word ends. -/
def isCaseIgnorable (c : Char) : Bool := inRanges caseIgnorableRanges c.toNat

/-- The run that a capital letter belongs to. -/
def capitalRun? (n : Nat) : Option CapitalRun :=
  capitalRuns.find? fun run => run.first ≤ n && n ≤ run.last && (n - run.first) % run.step == 0

/-- The small form of one character, taken without its surroundings. -/
def lowercaseChar (c : Char) : List Char :=
  if c.toNat = 0x130 then ['i', Char.ofNat 0x307]
  else match capitalRun? c.toNat with
    | some run => [Char.ofNat ((c.toNat : Int) + run.shift).toNat]
    | none => [c]

/-- Whether the first character that counts is a cased one. -/
def meetsCased (cs : List Char) : Bool :=
  match cs.dropWhile isCaseIgnorable with
  | c :: _ => isCased c
  | [] => false

/-- The Greek capital sigma. -/
def capitalSigma : Char := Char.ofNat 0x3A3

/-- The small sigma: the final form stands after a cased character and not before one. -/
def smallSigma (before after : List Char) : Char :=
  if meetsCased before && !meetsCased after then Char.ofNat 0x3C2 else Char.ofNat 0x3C3

/-- The small form of the characters that follow `before`, which is given backwards. -/
def lowercaseAfter (before : List Char) : List Char → List Char
  | [] => []
  | c :: cs =>
    (if c = capitalSigma then [smallSigma before cs] else lowercaseChar c)
      ++ lowercaseAfter (c :: before) cs

/-- A text in small letters. -/
def lowercase (s : String) : String := String.ofList (lowercaseAfter [] s.toList)

/-- Whether two texts differ at most in the case of the letters `a` to `z`. -/
def sameLetters (s t : String) : Bool :=
  s.toList.map Char.toLower == t.toList.map Char.toLower

end Nss.Text
