/-!
# Double-precision numbers

A `Double` is held exactly, as a sign, a significand and a power of two. `Double.nearest?` is
rounding of a fraction to the nearest double, ties to the even significand; everything that is
computed or read as a double goes through it.
-/

namespace Sitewright

/-- The integer nearest to `num / den`, a tie going to the even neighbour. -/
def roundHalfEven (num den : Nat) : Nat :=
  let q := num / den
  let twice := 2 * (num % den)
  if twice < den then q
  else if den < twice then q + 1
  else q + q % 2

/-- A finite double: `significand * 2 ^ exponent` with a sign, of which zero has two. -/
structure Double where
  negative : Bool
  significand : Nat
  exponent : Int
  deriving Repr, DecidableEq, Inhabited

namespace Double

def zero (negative : Bool) : Double := ⟨negative, 0, -1074⟩

/-- `num / den` divided by `2 ^ e`, as a fraction. -/
def scaled (num den : Nat) (e : Int) : Nat × Nat :=
  if e < 0 then (num * Nat.pow 2 e.natAbs, den) else (num, den * Nat.pow 2 e.natAbs)

/-- The power of two at which the significand of `num / den` has 53 bits, but not below the least
one that a double has. -/
def binaryExponent (num den : Nat) : Int :=
  let e : Int := (num.log2 : Int) - den.log2 - 52
  let (a, b) := scaled num den e
  let e := if a < b * Nat.pow 2 52 then e - 1 else e
  max e (-1074)

/-- The double nearest to `num / den`; nothing if it is too large for one. -/
def nearest? (negative : Bool) (num den : Nat) : Option Double :=
  if num = 0 then some (zero negative)
  else
    let e := binaryExponent num den
    let (a, b) := scaled num den e
    let m := roundHalfEven a b
    let (m, e) := if m = Nat.pow 2 53 then (Nat.pow 2 52, e + 1) else (m, e)
    if m = 0 then some (zero negative)
    else if 971 < e then none
    else some ⟨negative, m, e⟩

def magnitude (d : Double) : Nat × Nat :=
  if d.exponent < 0 then (d.significand, Nat.pow 2 d.exponent.natAbs)
  else (d.significand * Nat.pow 2 d.exponent.natAbs, 1)

end Double

end Sitewright
