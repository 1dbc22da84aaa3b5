import Fixity.Binary64.Basic

/-! # Writing numbers

A number is written without an exponent, with the fewest digits that read back as that number. -/

namespace Fixity.Binary64

/-- The finest decimal grid has 10¹⁰⁷⁴ points to the unit. -/
def places : Nat := 1074

/-- The points of the finest grid to one quantum, 5¹⁰⁷⁴. -/
def pointsPerQuantum : Nat := Nat.pow 5 places

/-- Whether `n` points of the finest grid read back as the magnitude. -/
def readsBack (magnitude n : Nat) : Bool := nearest n pointsPerQuantum == magnitude

/-- The multiple of `spacing` that is accepted for `exact` points. If any is, one of the two
neighbours of the exact value is; the nearer is taken, the upper one of two equally near. -/
def onGrid? (accepts : Nat → Bool) (exact spacing : Nat) : Option Nat :=
  let lower := exact / spacing
  let upper := lower + 1
  let upperNearer := upper * spacing - exact ≤ exact - lower * spacing
  match accepts (lower * spacing), accepts (upper * spacing) with
  | true, true => some (if upperNearer then upper else lower)
  | true, false => some lower
  | false, true => some upper
  | false, false => none

/-- The digits on the coarsest grid that has an accepted point, as a number and the power of ten it
is multiplied by, in points of the finest grid. -/
def shortestFrom (accepts : Nat → Bool) (exact : Nat) : Nat → Nat × Nat
  | 0 => (exact, 0)
  | power + 1 =>
    match onGrid? accepts exact (Nat.pow 10 (power + 1)) with
    | some digits => (digits, power + 1)
    | none => shortestFrom accepts exact power

/-- The shortest digits of a positive finite magnitude. The search starts at a grid that is coarser
than the value, for 30103 / 100000 exceeds the decimal logarithm of two. -/
def shortest (magnitude : Nat) : Nat × Nat :=
  let exact := quanta magnitude * pointsPerQuantum
  shortestFrom (readsBack magnitude) exact (exact.log2 * 30103 / 100000 + 2)

/-- Writes `digits` times a power of ten, in points of the finest grid, without an exponent. -/
def positional (digits power : Nat) : List Char :=
  let written := Nat.toDigits 10 digits
  if places ≤ power then written ++ List.replicate (power - places) '0'
  else
    let behind := places - power
    let padded := List.replicate (behind + 1 - written.length) '0' ++ written
    let before := padded.length - behind
    padded.take before ++ '.' :: padded.drop before

def decimal (magnitude : Nat) : List Char :=
  if magnitude = 0 then ['0'] else
    let found := shortest magnitude
    positional found.1 found.2

/-- The text of a number; NaN has no sign, and everything else below zero has a minus. -/
def toText (x : Binary64) : String :=
  if x.isNaN then "NaN" else
    let sign := if x.negative then "-" else ""
    sign ++ if x.isFinite then .ofList (decimal x.magnitude) else "inf"

end Fixity.Binary64
