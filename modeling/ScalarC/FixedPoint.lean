import ScalarC.Word

/-!
# Fixed-point layouts

A fixed-point value is an integer with an implicit binary point: the raw value
`n` of a layout with `f` fraction bits stands for `n / 2 ^ f`. This module holds
the layout and the conversion of a ratio of integers to a raw value, in 64-bit
arithmetic. Two outcomes are kept apart: a ratio that has no raw value (`none`),
and a computation that faults.
-/

namespace ScalarC

/-- An integer container with an implicit binary point. -/
structure FixedPoint where
  /-- Integer bits plus fraction bits. -/
  totalBits : Nat
  /-- Bits after the binary point. -/
  fractionBits : Nat
  signed : Bool
deriving DecidableEq, Repr

/-- Why a computation on a layout stops without any result. -/
inductive ArithmeticFault where
  /-- A layout with more fraction bits than bits. -/
  | negativeWidth
  /-- A shift by the word size or more. -/
  | shiftTooLarge
  /-- The least word divided by minus one. -/
  | quotientOverflow
deriving DecidableEq, Repr

namespace FixedPoint

/-- The bits before the binary point. -/
def integerBits (format : FixedPoint) : Except ArithmeticFault Nat :=
  if format.fractionBits ≤ format.totalBits then
    .ok (format.totalBits - format.fractionBits)
  else
    .error .negativeWidth

/-- The 64-bit word with only bit `fractionBits` set; for bit 63 that is the
least word. -/
def scale (format : FixedPoint) : Except ArithmeticFault Int :=
  if format.fractionBits < 63 then
    .ok (twoPow format.fractionBits)
  else if format.fractionBits = 63 then
    .ok (-twoPow 63)
  else
    .error .shiftTooLarge

/-- The raw value of `numerator / denominator`, truncated toward zero. There is
none for a zero denominator, nor when the scaled numerator leaves the word. -/
def rawOfRatio (format : FixedPoint) (numerator denominator : Int64) :
    Except ArithmeticFault (Option Int64) := do
  if denominator = 0 then
    return none
  let factor ← format.scale
  let scaled := numerator.toInt * factor
  if !isWord64 scaled then
    return none
  let quotient := scaled.tdiv denominator.toInt
  if !isWord64 quotient then
    throw .quotientOverflow
  return some (Int64.ofInt quotient)

end FixedPoint

end ScalarC
