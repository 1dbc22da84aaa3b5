import Fixity.Text

/-! # Binary floating point numbers of 64 bits

Magnitudes are numbered in the order of their values; `quanta` counts values in units of 2⁻¹⁰⁷⁴, the
least positive one. -/

namespace Fixity

/-- A pattern of 64 bits, read as a binary floating point number. -/
structure Binary64 where
  negative : Bool
  magnitude : Nat
  magnitude_lt : magnitude < 0x8000000000000000
deriving DecidableEq

namespace Binary64

/-- The count of magnitudes that share an exponent, 2⁵². -/
def binade : Nat := 0x10000000000000

/-- The magnitude of an infinity; the finite ones lie below it and those of no number above. -/
def infinity : Nat := 0x7ff0000000000000

def isFinite (x : Binary64) : Bool := x.magnitude < infinity

def isNaN (x : Binary64) : Bool := infinity < x.magnitude

def ofBits (bits : UInt64) : Binary64 where
  negative := 0x8000000000000000 ≤ bits.toNat
  magnitude := bits.toNat % 0x8000000000000000
  magnitude_lt := Nat.mod_lt _ (by decide)

/-- The pattern of a number: the sign bit, then the magnitude. -/
def bits (x : Binary64) : UInt64 :=
  .ofNat ((if x.negative then 0x8000000000000000 else 0) + x.magnitude)

/-- The nonnegative number of a finite magnitude. -/
def ofFinite (magnitude : Nat) (finite : magnitude < infinity) : Binary64 where
  negative := false
  magnitude := magnitude
  magnitude_lt := Nat.lt_trans finite (by decide)

/-- Equality of the values: a NaN equals nothing, and the two zeros are equal. -/
def agrees (x y : Binary64) : Bool :=
  !x.isNaN && !y.isNaN && (x == y || (x.magnitude == 0 && y.magnitude == 0))

/-- How many quanta of 2⁻¹⁰⁷⁴ the value of a finite magnitude has. The first binade is spaced by one
quantum, as is the second, and each later one by twice the spacing of the one before it. -/
def quanta (magnitude : Nat) : Nat :=
  match magnitude / binade with
  | 0 => magnitude
  | exponent + 1 => (binade + magnitude % binade) <<< exponent

/-- The greatest magnitude with at most `n` quanta. -/
def floor (n : Nat) : Nat :=
  let exponent := n.log2 - 52
  exponent * binade + n >>> exponent

/-- The magnitude nearest to `num / den` quanta. A tie goes to the even one of the two neighbours.
The greatest finite value has infinity for its upper neighbour, one step above it. -/
def nearest (num den : Nat) : Nat :=
  let below := floor (num / den)
  let twice := 2 * num
  let middle := (quanta below + quanta (below + 1)) * den
  let chosen :=
    if twice < middle then below
    else if middle < twice then below + 1
    else below + below % 2
  min chosen infinity

/-! ## Numerals -/

/-- Why a text of digits and points stands for no finite number. -/
inductive NumeralError where
  | malformed
  | outOfRange
deriving DecidableEq

/-- The number one has 2¹⁰⁷⁴ quanta. -/
def quantaPerUnit : Nat := 1 <<< 1074

/-- The number nearest to a numeral with these digits before and after the point. -/
def ofDecimal (whole fraction : List Char) : Except NumeralError Binary64 :=
  let digits := digitsValue (whole ++ fraction)
  let magnitude := nearest (digits * quantaPerUnit) (Nat.pow 10 fraction.length)
  if finite : magnitude < infinity then .ok (ofFinite magnitude finite) else .error .outOfRange

/-- Reads a text of digits and points; a second point makes it malformed. -/
def ofNumeral (text : String) : Except NumeralError Binary64 :=
  let whole := text.toList.takeWhile (· != '.')
  let fraction := (text.toList.dropWhile (· != '.')).drop 1
  if fraction.contains '.' then .error .malformed else ofDecimal whole fraction

end Binary64

end Fixity
