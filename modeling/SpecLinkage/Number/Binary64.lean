/-! # Percentages in binary floating point

Percentages are computed in IEEE double precision: every step rounds to the nearest
number with 53 significant bits, and a tie goes to the even one.  Here the numbers are
exact fractions `mantissa / 2 ^ shift`, so the steps are plain arithmetic on `Nat`.  The
representation covers what percentages need: numbers that are not negative and lie below
`2 ^ 53`.

* `roundHalfEven` is the nearest integer to a quotient.
* `Binary64.ofRatio` is the double nearest to a quotient; `add`, `mulNat` and `divNat` are
  the exact results rounded by it. -/

namespace SpecLinkage

/-- The integer nearest to `num / den`; a half goes to the even neighbour. -/
def roundHalfEven (num den : Nat) : Nat :=
  let q := num / den
  let r := num % den
  if 2 * r > den ∨ (2 * r = den ∧ q % 2 = 1) then q + 1 else q

/-- The number `mantissa / 2 ^ shift`. -/
structure Binary64 where
  mantissa : Nat
  /-- The number of bits behind the binary point. -/
  shift : Nat
  deriving DecidableEq, Repr

namespace Binary64

def zero : Binary64 := ⟨0, 0⟩

/-- The number of bits behind the point that leaves 53 significant bits of `num / den`. -/
def shiftFor (num den : Nat) : Nat :=
  let s := 52 + den.log2 - num.log2
  if num * Nat.pow 2 s < den * Nat.pow 2 52 then s + 1 else s

/-- The double nearest to `num / den`. -/
def ofRatio (num den : Nat) : Binary64 :=
  if num = 0 then zero
  else
    let s := shiftFor num den
    ⟨roundHalfEven (num * Nat.pow 2 s) den, s⟩

/-- The rounded sum. -/
def add (a b : Binary64) : Binary64 :=
  ofRatio (a.mantissa * Nat.pow 2 b.shift + b.mantissa * Nat.pow 2 a.shift)
    (Nat.pow 2 (a.shift + b.shift))

/-- The rounded product with an integer. -/
def mulNat (a : Binary64) (n : Nat) : Binary64 := ofRatio (a.mantissa * n) (Nat.pow 2 a.shift)

/-- The rounded quotient by an integer. -/
def divNat (a : Binary64) (n : Nat) : Binary64 := ofRatio a.mantissa (Nat.pow 2 a.shift * n)

def atLeast (a : Binary64) (n : Nat) : Bool := n * Nat.pow 2 a.shift ≤ a.mantissa

/-- The percentage that `part` is of `total`; nothing is none of nothing. -/
def percentage (part total : Nat) : Binary64 :=
  if total = 0 then zero else (ofRatio part total).mulNat 100

/-- The mean of percentages: the sum from the left, divided by their number. -/
def mean (l : List Binary64) : Binary64 := (l.foldl add zero).divNat l.length

end Binary64

/-! ## Lemmas -/

/-- Rounding moves a quotient by at most one half. -/
theorem roundHalfEven_near (num den : Nat) (h : 0 < den) :
    2 * (roundHalfEven num den * den) ≤ 2 * num + den ∧
      2 * num ≤ 2 * (roundHalfEven num den * den) + den := by
  have hq : den * (num / den) + num % den = num := Nat.div_add_mod num den
  have hr : num % den < den := Nat.mod_lt num h
  unfold roundHalfEven
  simp only
  rw [Nat.mul_comm den] at hq
  split
  · rw [Nat.add_mul, Nat.one_mul]; omega
  · omega

end SpecLinkage
