/-
# Byte strings and UTF-8

Files hold byte strings; scripts are text.  `Bytes.ofText` is the UTF-8 form of a text and
`Bytes.toText` reads one back, where every maximal part that is no UTF-8 becomes one replacement
character, so that every file has a text.  Numbers are laid out most significant byte first, the
size field of a file apart, which has the least significant byte first.
-/

namespace Nss

/-- A byte string. -/
abbrev Bytes := List UInt8

/-- The number of bytes that the UTF-8 form of some characters takes. -/
def utf8Width (cs : List Char) : Nat :=
  cs.foldr (fun c n => c.utf8Size + n) 0

@[simp] theorem utf8Width_nil : utf8Width [] = 0 := rfl

@[simp] theorem utf8Width_cons (c : Char) (cs : List Char) :
    utf8Width (c :: cs) = c.utf8Size + utf8Width cs := rfl

@[simp] theorem utf8Width_append (as bs : List Char) :
    utf8Width (as ++ bs) = utf8Width as + utf8Width bs := by
  induction as with
  | nil => simp
  | cons a as ih => simp [ih, Nat.add_assoc]

namespace Bytes

/-- The UTF-8 form of a text. -/
def ofText (s : String) : Bytes := s.toList.flatMap String.utf8EncodeChar

/-! ## Reading UTF-8 -/

/-- The character written for bytes that are no UTF-8. -/
def replacement : Char := Char.ofNat 0xFFFD

/-- A byte that carries on a character begun before it. -/
def isContinuation (b : UInt8) : Bool := 0x80 ≤ b && b ≤ 0xBF

/-- The second bytes that may follow a leading byte of a character of three bytes: none that would
give a code point below U+0800 or a surrogate. -/
def followsThree (lead b : UInt8) : Bool :=
  if lead = 0xE0 then 0xA0 ≤ b && b ≤ 0xBF
  else if lead = 0xED then 0x80 ≤ b && b ≤ 0x9F
  else isContinuation b

/-- The second bytes that may follow a leading byte of a character of four bytes: none that would
give a code point below U+10000 or above U+10FFFF. -/
def followsFour (lead b : UInt8) : Bool :=
  if lead = 0xF0 then 0x90 ≤ b && b ≤ 0xBF
  else if lead = 0xF4 then 0x80 ≤ b && b ≤ 0x8F
  else isContinuation b

/-- The six payload bits of a continuation byte. -/
def payload (b : UInt8) : Nat := b.toNat % 64

/-- The characters of a byte string.  A byte that begins no character, and a character broken off
before its last byte, each give one replacement character. -/
def decode : Bytes → List Char
  | [] => []
  | b :: rest =>
    if b < 0x80 then Char.ofNat b.toNat :: decode rest
    else if 0xC2 ≤ b && b ≤ 0xDF then
      match rest with
      | c :: rest' =>
        if isContinuation c then
          Char.ofNat (b.toNat % 32 * 64 + payload c) :: decode rest'
        else replacement :: decode (c :: rest')
      | [] => [replacement]
    else if 0xE0 ≤ b && b ≤ 0xEF then
      match rest with
      | c :: rest' =>
        if followsThree b c then
          match rest' with
          | d :: rest'' =>
            if isContinuation d then
              Char.ofNat ((b.toNat % 16 * 64 + payload c) * 64 + payload d) :: decode rest''
            else replacement :: decode (d :: rest'')
          | [] => [replacement]
        else replacement :: decode (c :: rest')
      | [] => [replacement]
    else if 0xF0 ≤ b && b ≤ 0xF4 then
      match rest with
      | c :: rest' =>
        if followsFour b c then
          match rest' with
          | d :: rest'' =>
            if isContinuation d then
              match rest'' with
              | e :: rest''' =>
                if isContinuation e then
                  Char.ofNat (((b.toNat % 8 * 64 + payload c) * 64 + payload d) * 64 + payload e)
                    :: decode rest'''
                else replacement :: decode (e :: rest''')
              | [] => [replacement]
            else replacement :: decode (d :: rest'')
          | [] => [replacement]
        else replacement :: decode (c :: rest')
      | [] => [replacement]
    else replacement :: decode rest

/-- The text that a byte string holds. -/
def toText (bytes : Bytes) : String := String.ofList bytes.decode

/-! ## Numbers as bytes -/

/-- A 16-bit number, most significant byte first. -/
def ofUInt16 (n : UInt16) : Bytes := [(n >>> 8).toUInt8, n.toUInt8]

/-- A 32-bit number, most significant byte first. -/
def ofUInt32 (n : UInt32) : Bytes :=
  [(n >>> 24).toUInt8, (n >>> 16).toUInt8, (n >>> 8).toUInt8, n.toUInt8]

/-- A 32-bit number, least significant byte first. -/
def ofUInt32Reversed (n : UInt32) : Bytes := (ofUInt32 n).reverse

/-- The number that two bytes stand for, the first being the more significant. -/
def toUInt16 (a b : UInt8) : UInt16 := a.toUInt16 <<< 8 ||| b.toUInt16

/-- The number that four bytes stand for, the first being the most significant. -/
def toUInt32 (a b c d : UInt8) : UInt32 :=
  a.toUInt32 <<< 24 ||| b.toUInt32 <<< 16 ||| c.toUInt32 <<< 8 ||| d.toUInt32

end Bytes
end Nss
