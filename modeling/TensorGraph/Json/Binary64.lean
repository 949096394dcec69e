import TensorGraph.Arithmetic
import TensorGraph.Json
import TensorGraph.Limits

/-!
Decimal numerals and double-precision numbers. Reading keeps as many leading digits as fit a
machine word and scales them by powers of ten in double precision, so it may miss the nearest
number by a unit in the last place. Writing finds the fewest digits that lie in the interval of
reals rounding to the number, and of those the nearest.
-/

namespace TensorGraph

abbrev Binary64 := BitVec 64

namespace Numeral

def digitValue (digit : Char) : Nat := digit.toNat - '0'.toNat

def takeDigits (significand taken : Nat) : List Char → Nat × Nat × List Char
  | [] => (significand, taken, [])
  | digit :: rest =>
      let next := significand * 10 + digitValue digit
      if next ≤ Limit.word then takeDigits next (taken + 1) rest
      else (significand, taken, digit :: rest)

def leadingDigits (numeral : Numeral) : Nat × Int :=
  let (significand, _, dropped) := takeDigits 0 0 (Nat.toDigits 10 numeral.whole)
  let (significand, taken, _) := takeDigits significand 0 numeral.fraction
  (significand, (dropped.length : Int) - taken)

def powerOfTen (exponent : Nat) : Float := Float.ofScientific 1 false exponent

/-- Divides by the greatest power of ten of double precision, up to the given number of times and
as long as the quotient is not zero. -/
def divideDown (value : Float) : Nat → Float
  | 0 => value
  | steps + 1 => if value == 0 then value else divideDown (value / powerOfTen 308) steps

def scaleDown (value : Float) (exponent : Nat) : Float :=
  let steps := (exponent - 1) / 308
  divideDown value steps / powerOfTen (exponent - 308 * steps)

def scaleUp (value : Float) (exponent : Nat) : Option Float :=
  if value == 0 then some value
  else if exponent ≤ 308 then
    let scaled := value * powerOfTen exponent
    if scaled.isFinite then some scaled else none
  else none

def toBinary64? (numeral : Numeral) : Option Binary64 := do
  let (significand, shift) := numeral.leadingDigits
  let exponent : Int := match numeral.exponent with
    | none => 0
    | some (negative, digits) => if negative then -(digits : Int) else digits
  let value := (UInt64.ofNat significand).toFloat
  let magnitude ← match shift + exponent with
    | .ofNat up => scaleUp value up
    | .negSucc down => some (scaleDown value (down + 1))
  return Arithmetic.ofBinary64 (if numeral.negative then -magnitude else magnitude)

end Numeral

namespace Binary64

def hiddenBit : Nat := 0x10000000000000

def signBit : Nat := 0x8000000000000000

def isNegative (pattern : Binary64) : Bool := pattern.getMsbD 0

/-- The significand and the power of two by which it counts, for finite numbers. -/
def decompose (pattern : Binary64) : Nat × Int :=
  let fraction : Nat := pattern.toNat % hiddenBit
  let exponent : Nat := pattern.toNat / hiddenBit % 2048
  if exponent = 0 then (fraction, -1074) else (hiddenBit + fraction, (exponent : Int) - 1075)

def scaled (count : Nat) (binary decimal : Int) : Nat × Nat :=
  (count * Nat.pow 2 binary.toNat * Nat.pow 10 decimal.toNat,
    Nat.pow 2 (-binary).toNat * Nat.pow 10 (-decimal).toNat)

/-- Bounds of the reals that round to a number, in quarters of its unit in the last place, and
whether the bounds themselves do. -/
def interval (pattern : Binary64) : Nat × Nat × Bool :=
  let (significand, _) := pattern.decompose
  let atPowerOfTwo := significand = hiddenBit ∧ 2 * hiddenBit ≤ pattern.toNat % signBit
  (4 * significand - (if atPowerOfTwo then 1 else 2), 4 * significand + 2, significand % 2 = 0)

/-- Among the two decimals next to a number on the grid of a power of ten, the nearest one that
rounds to the number. -/
def onGrid (pattern : Binary64) (grid : Int) : Option Nat :=
  let (significand, binary) := pattern.decompose
  let (low, high, closed) := pattern.interval
  let (numerator, denominator) := scaled (4 * significand) (binary - 2) (-grid)
  let (lowNumerator, _) := scaled low (binary - 2) (-grid)
  let (highNumerator, _) := scaled high (binary - 2) (-grid)
  let below := numerator / denominator
  let above := below + 1
  let rounds (decimal : Nat) : Bool :=
    if closed then
      lowNumerator ≤ decimal * denominator && decimal * denominator ≤ highNumerator
    else
      lowNumerator < decimal * denominator && decimal * denominator < highNumerator
  let belowDistance := numerator - below * denominator
  let aboveDistance := above * denominator - numerator
  let preferBelow := belowDistance < aboveDistance ||
    (belowDistance = aboveDistance && below % 2 = 0)
  match rounds below, rounds above with
  | true, true => some (if preferBelow then below else above)
  | true, false => some below
  | false, true => some above
  | false, false => none

def searchGrids (pattern : Binary64) : Nat → Int → Nat × Int
  | 0, grid => ((pattern.onGrid grid).getD 0, grid)
  | finer + 1, grid =>
      match pattern.onGrid grid with
      | some decimal => (decimal, grid)
      | none => searchGrids pattern finer (grid - 1)

def shortest (pattern : Binary64) : Nat × Int := searchGrids pattern 700 309

/-- Arranges the digits of a decimal. Up to sixteen digits stand before the point and up to five
zeros after it; beyond that an exponent is used. -/
def arrange (negative : Bool) (digits : Nat) (grid : Int) : Numeral :=
  let text := Nat.toDigits 10 digits
  let length : Int := text.length
  let point := length + grid
  if 0 ≤ grid ∧ point ≤ 16 then
    ⟨negative, digits * Nat.pow 10 grid.toNat, ['0'], none⟩
  else if 0 < point ∧ point ≤ 16 then
    ⟨negative, Nat.ofDigitChars 10 (text.take point.toNat) 0, text.drop point.toNat, none⟩
  else if -5 < point ∧ point ≤ 0 then
    ⟨negative, 0, List.replicate (-point).toNat '0' ++ text, none⟩
  else
    let exponent := point - 1
    ⟨negative, Nat.ofDigitChars 10 (text.take 1) 0, text.drop 1,
      some (exponent < 0, exponent.natAbs)⟩

def toNumeral (pattern : Binary64) : Numeral :=
  let negative := pattern.isNegative
  if pattern.toNat % signBit = 0 then ⟨negative, 0, ['0'], none⟩
  else
    let (digits, grid) := pattern.shortest
    arrange negative digits grid

end Binary64

end TensorGraph
