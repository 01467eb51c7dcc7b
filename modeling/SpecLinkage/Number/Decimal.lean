import SpecLinkage.Number.Binary64

/-! # Decimal texts of doubles

Two ways of writing a double in decimals.

* `Decimal.shortest`: the fewest places that still read back as the same double, and of
  several such numbers the nearest.  `Decimal.text` writes it without a point when it has
  no places.
* `fixedOne`: one place, rounded from the exact value; a tie goes to the even digit. -/

namespace SpecLinkage

/-- The number `digits / 10 ^ places`. -/
structure Decimal where
  digits : Nat
  /-- The number of digits behind the point. -/
  places : Nat
  deriving DecidableEq, Repr

namespace Decimal

/-- Pad a numeral with zeros at the front up to a width. -/
def padZeros (width : Nat) (s : List Char) : List Char :=
  List.replicate (width - s.length) '0' ++ s

/-- Digits with a point before the last `places` of them. -/
def pointed (digits places : Nat) : String :=
  let whole := Nat.toDigits 10 (digits / Nat.pow 10 places)
  let fraction := padZeros places (Nat.toDigits 10 (digits % Nat.pow 10 places))
  String.ofList (whole ++ '.' :: fraction)

/-- The number in decimal digits; without a point if there are no places. -/
def text (d : Decimal) : String :=
  if d.places = 0 then toString d.digits else pointed d.digits d.places

/-- Whether `c / 10 ^ n` reads back as the double: it lies between the midpoints to the
neighbouring doubles.  A midpoint itself reads back as the even mantissa.  Below a power of
two the neighbour is only half as far away. -/
def readsBack (x : Binary64) (n c : Nat) : Bool :=
  let scale := Nat.pow 10 n
  let value := c * Nat.pow 2 (x.shift + 2)
  let upper := (4 * x.mantissa + 2) * scale
  let lower := (4 * x.mantissa - if x.mantissa = Nat.pow 2 52 then 1 else 2) * scale
  if x.mantissa % 2 = 0 then lower ≤ value && value ≤ upper
  else lower < value && value < upper

/-- Of the two multiples of `1 / 10 ^ n` around the double, the nearer that reads back. -/
def candidate? (x : Binary64) (n : Nat) : Option Nat :=
  let c := x.mantissa * Nat.pow 10 n / Nat.pow 2 x.shift
  let low := readsBack x n c
  let high := readsBack x n (c + 1)
  if low && high then
    if 2 * (x.mantissa * Nat.pow 10 n) ≤ (2 * c + 1) * Nat.pow 2 x.shift then some c
    else some (c + 1)
  else if low then some c
  else if high then some (c + 1)
  else none

/-- Try more and more places, at most `fuel` more; with as many places as bits behind the
point the number is exact. -/
def search (x : Binary64) : (fuel n : Nat) → Decimal
  | 0, n => ⟨x.mantissa * Nat.pow 10 n / Nat.pow 2 x.shift, n⟩
  | fuel + 1, n =>
    match candidate? x n with
    | some c => ⟨c, n⟩
    | none => search x fuel (n + 1)

/-- The decimal with the fewest places that reads back as the double. -/
def shortest (x : Binary64) : Decimal :=
  if x.mantissa = 0 then ⟨0, 0⟩ else search x x.shift 0

end Decimal

/-- The double with one decimal place. -/
def Binary64.fixedOne (x : Binary64) : String :=
  Decimal.pointed (roundHalfEven (x.mantissa * 10) (Nat.pow 2 x.shift)) 1

end SpecLinkage
