/-!
# The fewest decimal digits that read back

A binary floating-point value `m · 2^q` is the nearest one to a whole interval of
reals. This module finds the decimal with the fewest digits inside that interval,
and of those with equally few digits the one nearest to the value, in exact
arithmetic on natural numbers.
-/

namespace JvmClass.Decimal

/-- The layout of a binary interchange format. -/
structure BinaryFormat where
  /-- Bits of the fraction field. -/
  fraction : Nat
  /-- Bits of the exponent field. -/
  exponent : Nat
deriving DecidableEq, Repr

/-- Thirty-two bits. -/
def single : BinaryFormat := ⟨23, 8⟩

/-- Sixty-four bits. -/
def double : BinaryFormat := ⟨52, 11⟩

/-- What a bit pattern stands for. -/
inductive Value where
  | nan
  | infinite (negative : Bool)
  | zero (negative : Bool)
  /-- `mantissa · 2^power`; `edge` tells that the next smaller value is only half
  as far away as the next larger one. -/
  | finite (negative : Bool) (mantissa : Nat) (power : Int) (edge : Bool)
deriving DecidableEq, Repr

/-- Reads a bit pattern. -/
def BinaryFormat.decode (format : BinaryFormat) (bits : Nat) : Value :=
  let hidden := Nat.pow 2 format.fraction
  let fraction := bits % hidden
  let biased := bits / hidden % Nat.pow 2 format.exponent
  let negative := bits / Nat.pow 2 (format.fraction + format.exponent) % 2 = 1
  let bias : Int := Nat.pow 2 (format.exponent - 1) - 1 + format.fraction
  if biased = Nat.pow 2 format.exponent - 1 then
    if fraction = 0 then .infinite negative else .nan
  else if biased = 0 then
    if fraction = 0 then .zero negative else .finite negative fraction (1 - bias) false
  else
    .finite negative (fraction + hidden) (biased - bias)
      (fraction = 0 && 1 < biased)

/-- A positive decimal `digits · 10^scale` whose last digit is not zero. -/
structure Digits where
  digits : Nat
  scale : Int
deriving DecidableEq, Repr

/-- Number of decimal digits of `n`; zero has one. -/
def length (n : Nat) : Nat := (Nat.toDigits 10 n).length

/-- Moves trailing zeros of `digits` into the scale; `fuel` bounds their number. -/
def Digits.normalize : (fuel : Nat) → Digits → Digits
  | 0, d => d
  | fuel + 1, d =>
    if d.digits % 10 = 0 && d.digits ≠ 0 then normalize fuel ⟨d.digits / 10, d.scale + 1⟩ else d

/-- A real interval around `value`, with the common denominator `unit`. -/
structure Interval where
  low : Nat
  value : Nat
  high : Nat
  unit : Nat
  /-- Whether the two ends belong to the interval. -/
  closed : Bool

/-- The reals that round to `mantissa · 2^power`: halfway to either neighbour,
ends included exactly when the mantissa is even. -/
def Interval.around (mantissa : Nat) (power : Int) (edge : Bool) : Interval :=
  let shift := power - 2
  let up := Nat.pow 2 shift.toNat
  { low := (4 * mantissa - if edge then 1 else 2) * up
    value := 4 * mantissa * up
    high := (4 * mantissa + 2) * up
    unit := Nat.pow 2 (-shift).toNat
    closed := mantissa % 2 = 0 }

/-- The neighbour of the value on the grid of multiples of `10^scale` that lies
in the interval, the nearer one when both do and the even one on a tie. -/
def Interval.pick? (i : Interval) (scale : Int) : Option Nat :=
  let finer := Nat.pow 10 (-scale).toNat
  let step := i.unit * Nat.pow 10 scale.toNat
  let inside (c : Nat) : Bool :=
    if i.closed then i.low * finer ≤ c * step && c * step ≤ i.high * finer
    else i.low * finer < c * step && c * step < i.high * finer
  let down := i.value * finer / step
  let rest := i.value * finer - down * step
  let preferUp := step < 2 * rest || (2 * rest = step && down % 2 = 1)
  match inside down && down ≠ 0, inside (down + 1) with
  | true, true => some (if preferUp then down + 1 else down)
  | true, false => some down
  | false, true => some (down + 1)
  | false, false => none

/-- Tries one digit more each time, up to `fuel` digits further. -/
def Interval.search (i : Interval) (top : Int) : (fuel count : Nat) → Digits
  | 0, count => ⟨i.value / i.unit, top - count⟩
  | fuel + 1, count =>
    match i.pick? (top - count) with
    | some c => Digits.normalize 20 ⟨c, top - count⟩
    | none => i.search top fuel (count + 1)

/-- The shortest decimal that reads back as `mantissa · 2^power`. Twenty digits
are more than any format of at most sixty-four bits needs. -/
def shortest (mantissa : Nat) (power : Int) (edge : Bool) : Digits :=
  let i := Interval.around mantissa power edge
  let top : Int := (length (i.value * Nat.pow 10 400 / i.unit) : Int) - 400
  i.search top 20 1

end JvmClass.Decimal
