import JvmClass.Text
import JvmClass.Decimal.Shortest

/-!
# How a floating-point constant is written

Listings show floating-point constants with the fewest digits that read back.
`Spelling` gathers the decisions that are conventions and not arithmetic.
-/

namespace JvmClass.Decimal

/-- The conventions of a floating-point spelling. -/
structure Spelling where
  /-- Smallest power of ten of the leading digit that is written positionally. -/
  leastPositional : Int
  /-- First power of ten of the leading digit that is written with an exponent. -/
  firstScientific : Int
  /-- Least number of digits of an exponent. -/
  exponentWidth : Nat

/-- Listings write numbers from `1e-04` up to, not including, `1e+06`
positionally, and an exponent with a sign and at least two digits. -/
def Spelling.listing : Spelling := ⟨-4, 6, 2⟩

/-- The decimal digits of `n`, with zeros in front up to `width`. -/
def padded (width n : Nat) : Text :=
  let digits := Text.ofNat n
  List.replicate (width - digits.length) 48 ++ digits

/-- A positive decimal in the given spelling. -/
def Spelling.digits (style : Spelling) (d : Digits) : Text :=
  let figures := Text.ofNat d.digits
  let leading : Int := figures.length + d.scale - 1
  if leading < style.leastPositional || style.firstScientific ≤ leading then
    let fraction := figures.drop 1
    figures.take 1 ++ (if fraction.isEmpty then [] else [46] ++ fraction)
      ++ [101] ++ (if leading < 0 then [45] else [43]) ++ padded style.exponentWidth leading.natAbs
  else if 0 ≤ d.scale then
    figures ++ List.replicate d.scale.toNat 48
  else if 0 ≤ leading then
    let whole := (leading + 1).toNat
    figures.take whole ++ [46] ++ figures.drop whole
  else
    [48, 46] ++ List.replicate (-leading - 1).toNat 48 ++ figures

/-- A bit pattern in the given spelling: zero keeps its sign, and only infinity
shows a plus. -/
def Spelling.text (style : Spelling) (format : BinaryFormat) (bits : Nat) : Text :=
  match format.decode bits with
  | .nan => "NaN"
  | .infinite negative => if negative then "-Inf" else "+Inf"
  | .zero negative => if negative then "-0" else "0"
  | .finite negative mantissa power edge =>
    (if negative then [45] else []) ++ style.digits (shortest mantissa power edge)

end JvmClass.Decimal
