/-
# From characters to tokens

`Lexeme.read` looks at the first characters of what is left of a script and says how many of them
belong together and what they are: something to skip, a token, or a problem.  `Lexeme.all` cuts the
whole script into such pieces, one after the other, so that every character is in exactly one.
Blanks are the space, the tab, the line feed and the carriage return.
-/
import Nss.Token.Basic
import Nss.Source.Diagnostic

namespace Nss

/-- What a piece of a script is. -/
inductive Yield where
  | skipped
  | token (token : Token)
  | trouble (diagnostic : Diagnostic)
deriving DecidableEq, Repr

/-- A piece of a script: what it is, and how many characters it has after its first. -/
structure Lexeme where
  extra : Nat
  yield : Yield
deriving DecidableEq, Repr

/-! ## Character classes -/

/-- Blanks between tokens. -/
def isTokenBlank (c : Char) : Bool := c = ' ' || c = '\t' || c = '\n' || c = '\r'

/-- The letters of the ASCII alphabet. -/
def isLetter (c : Char) : Bool := ('a' ≤ c && c ≤ 'z') || ('A' ≤ c && c ≤ 'Z')

/-- The decimal digits. -/
def isDigit (c : Char) : Bool := '0' ≤ c && c ≤ '9'

/-- The hexadecimal digits, in both cases. -/
def isHexDigit (c : Char) : Bool :=
  isDigit c || ('a' ≤ c && c ≤ 'f') || ('A' ≤ c && c ≤ 'F')

/-- The characters that an identifier can begin with. -/
def isIdentStart (c : Char) : Bool := isLetter c || c = '_'

/-- The characters that an identifier can go on with. -/
def isIdentRest (c : Char) : Bool := isIdentStart c || isDigit c

/-- The first characters of a text that all belong to a class. -/
def run (p : Char → Bool) (cs : List Char) : List Char := cs.takeWhile p

namespace Lexeme

/-! ## Pieces of each kind

`start` is the byte offset of the piece. -/

/-- A token whose text is all of its characters. -/
def plain (start : Nat) (kind : TokenKind) (c : Char) (more : List Char) : Lexeme :=
  let span : Span := ⟨start, start + utf8Width (c :: more)⟩
  ⟨more.length, .token ⟨kind, span, span, String.ofList (c :: more)⟩⟩

/-- Characters that begin no token. -/
def unexpected (start : Nat) (c : Char) (more : List Char) : Lexeme :=
  ⟨more.length, .trouble (.error (.unexpectedCharacter (String.ofList (c :: more)))
    ⟨start, start + utf8Width (c :: more)⟩)⟩

/-- A token of one character, or of two if `second` follows. -/
def oneOrTwo (start : Nat) (short long : TokenKind) (c second : Char) (rest : List Char) : Lexeme :=
  if rest.head? = some second then plain start long c [second] else plain start short c []

/-- A token of the same character twice. -/
def twice (start : Nat) (kind : TokenKind) (c : Char) (rest : List Char) : Lexeme :=
  if rest.head? = some c then plain start kind c [c] else unexpected start c []

/-- The number of characters up to the end of the line. -/
def restOfLine (rest : List Char) : Nat := (run (· ≠ '\n') rest).length

/-- The number of characters up to and including the end of a block comment, if it is closed. -/
def blockComment? : List Char → Option Nat
  | '*' :: '/' :: _ => some 2
  | _ :: rest => (blockComment? rest).map (· + 1)
  | [] => none

/-- A block comment, whose star is the first character of `rest`. -/
def comment (start : Nat) (rest : List Char) : Lexeme :=
  match blockComment? (rest.drop 1) with
  | some n => ⟨n + 1, .skipped⟩
  | none => ⟨rest.length, .trouble (.error .unterminatedComment
      ⟨start, start + utf8Width ('/' :: rest)⟩)⟩

/-- A directive.  Of one that is not known, the rest of the line goes with it. -/
def directive (start : Nat) (rest : List Char) : Lexeme :=
  let word := run isLetter rest
  if word = "include".toList then plain start .hashInclude '#' word
  else ⟨restOfLine rest, .trouble (.error (.unknownDirective (String.ofList word))
    ⟨start, start + utf8Width ('#' :: word)⟩)⟩

/-- The characters of a string literal before its closing quote, and whether there is one.  A
backslash takes the character after it along, whatever it is; else the line may not end. -/
def stringBody : List Char → List Char × Bool
  | '\\' :: c :: rest => let (body, closed) := stringBody rest; ('\\' :: c :: body, closed)
  | c :: rest =>
    if c = '"' then ([], true)
    else if c = '\n' then ([], false)
    else let (body, closed) := stringBody rest; (c :: body, closed)
  | [] => ([], false)

/-- A string literal. -/
def string (start : Nat) (rest : List Char) : Lexeme :=
  let (body, closed) := stringBody rest
  let stop := start + 1 + utf8Width body
  if closed then
    ⟨body.length + 1,
      .token ⟨.stringLiteral, ⟨start, stop + 1⟩, ⟨start + 1, stop⟩, String.ofList body⟩⟩
  else ⟨body.length, .trouble (.error .unterminatedString ⟨start, stop⟩)⟩

/-- The digits, the point and the digits after it that a decimal literal begins with, and whether
there is a point. -/
def decimalBody (cs : List Char) : List Char × Bool :=
  let whole := run isDigit cs
  match cs.drop whole.length with
  | '.' :: rest => (whole ++ '.' :: run isDigit rest, true)
  | _ => (whole, false)

/-- A literal in decimal digits.  A point or a final letter `f` makes it a floating point one; the
letter is no part of its text. -/
def decimal (start : Nat) (cs : List Char) : Lexeme :=
  let (body, pointed) := decimalBody cs
  let suffixed := match cs.drop body.length with
    | 'f' :: _ | 'F' :: _ => true
    | _ => false
  let stop := start + utf8Width body
  let kind := if pointed || suffixed then .floatLiteral else .intLiteral
  let size := if suffixed then 1 else 0
  ⟨body.length - 1 + size,
    .token ⟨kind, ⟨start, stop + size⟩, ⟨start, stop⟩, String.ofList body⟩⟩

/-- A number, in hexadecimal digits after `0x` and else in decimal ones. -/
def number (start : Nat) (c : Char) (rest : List Char) : Lexeme :=
  match c, rest with
  | '0', x :: more =>
    if x = 'x' || x = 'X' then
      match run isHexDigit more with
      | [] => unexpected start c [x]
      | digits => plain start .hexLiteral c (x :: digits)
    else decimal start (c :: rest)
  | _, _ => decimal start (c :: rest)

/-- A word. -/
def word (start : Nat) (c : Char) (rest : List Char) : Lexeme :=
  let more := run isIdentRest rest
  plain start (TokenKind.ofWord (String.ofList (c :: more))) c more

/-! ## Cutting up a script -/

/-- The piece that begins with the character `c` at the byte offset `start`. -/
def read (start : Nat) (c : Char) (rest : List Char) : Lexeme :=
  if isTokenBlank c then ⟨0, .skipped⟩
  else if c = '/' && rest.head? = some '/' then ⟨restOfLine rest, .skipped⟩
  else if c = '/' && rest.head? = some '*' then comment start rest
  else if isDigit c || (c = '.' && rest.head?.any isDigit) then number start c rest
  else if isIdentStart c then word start c rest
  else match c with
    | '(' => plain start .lParen c []
    | ')' => plain start .rParen c []
    | '\x7b' => plain start .lBrace c []
    | '\x7d' => plain start .rBrace c []
    | ',' => plain start .comma c []
    | ';' => plain start .semi c []
    | '+' => plain start .plus c []
    | '-' => plain start .minus c []
    | '*' => plain start .star c []
    | '/' => plain start .slash c []
    | '%' => plain start .percent c []
    | '=' => oneOrTwo start .assign .eqEq c '=' rest
    | '!' => oneOrTwo start .bang .notEq c '=' rest
    | '<' => oneOrTwo start .less .lessEq c '=' rest
    | '>' => oneOrTwo start .greater .greaterEq c '=' rest
    | '&' => twice start .andAnd c rest
    | '|' => twice start .orOr c rest
    | '#' => directive start rest
    | '"' => string start rest
    | _ => unexpected start c []

/-- What the pieces of a script are, from the byte offset `start` on. -/
def all (start : Nat) : List Char → List Yield
  | [] => []
  | c :: rest =>
    let piece := read start c rest
    piece.yield :: all (start + utf8Width (c :: rest.take piece.extra)) (rest.drop piece.extra)
termination_by cs => cs.length
decreasing_by simp only [List.length_drop, List.length_cons]; omega

end Lexeme

/-- The token that a piece is. -/
def Yield.token? : Yield → Option Token
  | .token t => some t
  | _ => none

/-- The problem that a piece is. -/
def Yield.trouble? : Yield → Option Diagnostic
  | .trouble d => some d
  | _ => none

/-- A script as tokens: those before its end, the token at its end, and what is wrong with the
characters between them. -/
structure Lexed where
  tokens : List Token
  ending : Token
  troubles : List Diagnostic
deriving DecidableEq, Repr

/-- All the tokens, the last being the end of the script. -/
def Lexed.all (l : Lexed) : List Token := l.tokens ++ [l.ending]

/-- The tokens of a script. -/
def Lexed.ofSource (source : String) : Lexed :=
  let cs := source.toList
  let pieces := Lexeme.all 0 cs
  { tokens := pieces.filterMap Yield.token?
    ending := Token.ending (utf8Width cs)
    troubles := pieces.filterMap Yield.trouble? }

end Nss
