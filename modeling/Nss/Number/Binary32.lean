/-
# Single precision floating point numbers

`Binary32` is the 32-bit interchange format of binary floating point: one sign bit, eight bits of
exponent, 23 bits of fraction.  Scripts only write such numbers down, so what is here is reading a
decimal (`ofDecimal`, the nearest number, a tie going to the even one), changing the sign, and
writing the shortest decimal that reads back (`digits`, and `text` for a listing).

A finite number is `mantissa * 2 ^ exponent`.  All the arithmetic is exact, on natural numbers.
-/

namespace Nss

/-- A single precision floating point number, by its bits. -/
structure Binary32 where
  bits : UInt32
deriving DecidableEq, Repr, Inhabited

namespace Binary32

/-! ## Parts of a number -/

/-- Whether the sign bit is set. -/
def isNegative (x : Binary32) : Bool := x.bits ≥ 0x80000000

/-- The bits below the sign, as a number. -/
def magnitude (x : Binary32) : Nat := x.bits.toNat % 0x80000000

/-- The number of values that the fraction bits can take. -/
def fractionSize : Nat := 0x800000

/-- The eight exponent bits. -/
def exponentBits (x : Binary32) : Nat := x.magnitude / fractionSize

/-- The 23 fraction bits. -/
def fractionBits (x : Binary32) : Nat := x.magnitude % fractionSize

/-- The magnitude of infinity; what lies above it is no number. -/
def infinityMagnitude : Nat := 0x7F800000

/-- The integer `m` in the value `m * 2 ^ e` of a finite number. -/
def mantissa (x : Binary32) : Nat :=
  if x.exponentBits = 0 then x.fractionBits else fractionSize + x.fractionBits

/-- The integer `e` in the value `m * 2 ^ e` of a finite number. -/
def exponent (x : Binary32) : Int :=
  if x.exponentBits = 0 then -149 else (x.exponentBits : Int) - 150

/-- The number with the opposite sign. -/
def neg (x : Binary32) : Binary32 := ⟨x.bits ^^^ 0x80000000⟩

/-! ## Reading a decimal -/

/-- The quotient of two natural numbers, rounded to the nearest one, a tie to the even one. -/
def roundDiv (a b : Nat) : Nat :=
  let q := a / b
  let r := a % b
  if 2 * r < b then q
  else if b < 2 * r then q + 1
  else if q % 2 = 0 then q else q + 1

/-- The quotient `a / (b * 2 ^ e)`, rounded. -/
def roundScaled (a b : Nat) (e : Int) : Nat :=
  if 0 ≤ e then roundDiv a (b * Nat.pow 2 e.toNat) else roundDiv (a * Nat.pow 2 (-e).toNat) b

/-- Whether `2 ^ e ≤ a / b`. -/
def twoPowLe (e : Int) (a b : Nat) : Bool :=
  if 0 ≤ e then b * Nat.pow 2 e.toNat ≤ a else b ≤ a * Nat.pow 2 (-e).toNat

/-- The exponent of the greatest power of two that is at most `a / b`, for positive `a` and
`b`. -/
def floorLog2 (a b : Nat) : Int :=
  let guess : Int := (a.log2 : Int) - b.log2
  if twoPowLe guess a b then guess else guess - 1

/-- The bits of the number nearest to `a / b`.  One step of the mantissa is one step of the bits,
also where the exponent changes, so that rounding up past the largest mantissa needs no case of its
own. -/
def ofQuotient (a b : Nat) : Binary32 :=
  if a = 0 then ⟨0⟩
  else
    let e := max (floorLog2 a b - 23) (-149)
    let steps := (e + 149).toNat * fractionSize + roundScaled a b e
    ⟨UInt32.ofNat (min steps infinityMagnitude)⟩

/-- The value of a row of decimal digits. -/
def digitsValue (cs : List Char) : Nat :=
  cs.foldl (fun n c => 10 * n + (c.toNat - '0'.toNat)) 0

/-- The number nearest to a decimal given by its digits before and after the point. -/
def ofDecimal (whole fraction : List Char) : Binary32 :=
  ofQuotient (digitsValue (whole ++ fraction)) (Nat.pow 10 fraction.length)

/-! ## The shortest decimal

The real numbers that read back as a positive `x` form an interval around its value.  Its ends
belong to it exactly if the mantissa is even, because a tie goes to the even neighbour.  Everything
is kept over one denominator: the value is `mantissa * scale`, and `grid` is the size of a decimal
unit, both as multiples of the same fraction. -/

/-- The interval of reals that round to a number, and the number itself, as numerators over the
denominator `den`. -/
structure Rounding where
  value : Nat
  lower : Nat
  upper : Nat
  den : Nat
  closed : Bool
deriving Repr, DecidableEq

/-- The rounding interval of a positive finite number.  Just above a power of two the neighbour
below is only half as far away as the one above. -/
def rounding (x : Binary32) : Rounding :=
  let m := x.mantissa
  let below := if x.fractionBits = 0 ∧ 1 < x.exponentBits then 1 else 2
  let up := if 0 ≤ x.exponent then Nat.pow 2 x.exponent.toNat else 1
  let den := if 0 ≤ x.exponent then 1 else Nat.pow 2 (-x.exponent).toNat
  { value := 4 * m * up
    lower := (4 * m - below) * up
    upper := (4 * m + 2) * up
    den := 4 * den
    closed := m % 2 = 0 }

/-- Whether `k * 10 ^ j` lies in the interval. -/
def Rounding.holds (r : Rounding) (k : Nat) (j : Int) : Bool :=
  let point := if 0 ≤ j then k * Nat.pow 10 j.toNat * r.den else k * r.den
  let scale := if 0 ≤ j then 1 else Nat.pow 10 (-j).toNat
  if r.closed then r.lower * scale ≤ point && point ≤ r.upper * scale
  else r.lower * scale < point && point < r.upper * scale

/-- The greatest `k` with `k * 10 ^ j` at most the value, and whether the value is at least as near
to the next one. -/
def Rounding.neighbour (r : Rounding) (j : Int) : Nat × Bool :=
  let unit := if 0 ≤ j then Nat.pow 10 j.toNat * r.den else r.den
  let value := if 0 ≤ j then r.value else r.value * Nat.pow 10 (-j).toNat
  (value / unit, unit ≤ 2 * (value % unit))

/-- The multiple of `10 ^ j` that reads back, if there is one: of two the nearer, and the greater in
a tie. -/
def Rounding.onGrid? (r : Rounding) (j : Int) : Option Nat :=
  let (k, nearerAbove) := r.neighbour j
  let above := r.holds (k + 1) j
  if 0 < k && r.holds k j then
    if above && nearerAbove then some (k + 1) else some k
  else if above then some (k + 1)
  else none

/-- The decimal on the coarsest grid that has one, looking from `10 ^ j` downwards. -/
def Rounding.shortest (r : Rounding) : Nat → Int → Nat × Int
  | 0, j => (r.value / r.den, j)
  | fuel + 1, j =>
    match r.onGrid? j with
    | some k => (k, j)
    | none => r.shortest fuel (j - 1)

/-- The shortest decimal `k * 10 ^ j` that reads back as a positive finite number.  No finite number
reaches `10 ^ 39`, and all grids from `10 ^ -54` on hit every interval. -/
def digits (x : Binary32) : Nat × Int := x.rounding.shortest 94 39

/-- The decimal digits of a natural number. -/
def natDigits (n : Nat) : List Char := Nat.toDigits 10 n

/-- `k * 10 ^ j` in positional notation. -/
def positional (k : Nat) (j : Int) : List Char :=
  if 0 ≤ j then natDigits k ++ List.replicate j.toNat '0'
  else
    let places := (-j).toNat
    let ds := natDigits k
    let padded := List.replicate (places + 1 - ds.length) '0' ++ ds
    let whole := padded.length - places
    padded.take whole ++ '.' :: padded.drop whole

/-- A number as a listing shows it: the shortest decimal that reads back, never with an
exponent. -/
def text (x : Binary32) : String :=
  let sign := if x.isNegative then ['-'] else []
  if infinityMagnitude < x.magnitude then "NaN"
  else if x.magnitude = infinityMagnitude then String.ofList (sign ++ ['i', 'n', 'f'])
  else if x.magnitude = 0 then String.ofList (sign ++ ['0'])
  else
    let (k, j) := digits x
    String.ofList (sign ++ positional k j)

end Binary32
end Nss
