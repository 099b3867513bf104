import Sitewright.Number.Double

/-!
# Decimal text of doubles

`Double.shortest` is the decimal with the fewest digits that reads back as the double, the nearest
of those; `fixedPlaces` writes a fraction with a fixed number of places, ties to even. Sizes and
durations are computed as doubles, and rounded from the exact value of the double.
-/

namespace Sitewright

structure Decimal where
  digits : Nat
  exponent : Int
  deriving Repr, DecidableEq, Inhabited

def digitsOf (n : Nat) : List Char := Nat.toDigits 10 n

/-- A number written with at least `width` digits. -/
def paddedDigits (width n : Nat) : List Char :=
  let ds := digitsOf n
  List.replicate (width - ds.length) '0' ++ ds

/-- A fraction rounded to `places` decimal places, a tie going to the even last digit. -/
def fixedPlaces (places num den : Nat) : List Char :=
  let n := roundHalfEven (num * Nat.pow 10 places) den
  if places = 0 then digitsOf n
  else digitsOf (n / Nat.pow 10 places) ++ '.' :: paddedDigits places (n % Nat.pow 10 places)

namespace Decimal

def fraction (d : Decimal) : Nat × Nat :=
  if d.exponent < 0 then (d.digits, Nat.pow 10 d.exponent.natAbs)
  else (d.digits * Nat.pow 10 d.exponent.natAbs, 1)

def stripped (d : Decimal) : Decimal :=
  let zeros := ((digitsOf d.digits).reverse.takeWhile (· == '0')).length
  if d.digits = 0 then d else ⟨d.digits / Nat.pow 10 zeros, d.exponent + zeros⟩

end Decimal

namespace Double

def fractionLt (a b : Nat × Nat) : Bool := a.1 * b.2 < b.1 * a.2

def fractionLe (a b : Nat × Nat) : Bool := a.1 * b.2 ≤ b.1 * a.2

/-- The fractions that bound what rounds to a positive double, and whether they do so themselves. -/
def interval (d : Double) : (Nat × Nat) × (Nat × Nat) × Bool :=
  let m := d.significand
  let at4 (n : Nat) : Nat × Nat :=
    magnitude ⟨false, n, d.exponent - 2⟩
  let below := if m = Nat.pow 2 52 ∧ -1074 < d.exponent then 4 * m - 1 else 4 * m - 2
  (at4 below, at4 (4 * m + 2), m % 2 = 0)

def readsBack (d : Double) (x : Decimal) : Bool :=
  let (lo, hi, closed) := d.interval
  let v := x.fraction
  if closed then fractionLe lo v && fractionLe v hi else fractionLt lo v && fractionLt v hi

def leadingExponent (num den : Nat) : Int :=
  let e : Int := ((digitsOf num).length : Int) - (digitsOf den).length
  let tenPow (k : Int) : Nat × Nat := Decimal.fraction ⟨1, k⟩
  if fractionLe (tenPow e) (num, den) then e else e - 1

/-- The neighbour of a positive double on the grid of `n` digits that reads back, the nearer one if
both do, and of two equally near the one with the even digit. -/
def onGrid (d : Double) (n : Nat) : Option Decimal :=
  let (num, den) := d.magnitude
  let e : Int := leadingExponent num den - n + 1
  let (a, b) : Nat × Nat :=
    if e < 0 then (num * Nat.pow 10 e.natAbs, den) else (num, den * Nat.pow 10 e.natAbs)
  let lower : Decimal := ⟨a / b, e⟩
  let upper : Decimal := ⟨a / b + 1, e⟩
  let nearer : Decimal := ⟨roundHalfEven a b, e⟩
  if readsBack d nearer then some nearer
  else if readsBack d lower then some lower
  else if readsBack d upper then some upper
  else none

def shortest (d : Double) : Decimal :=
  if d.significand = 0 then ⟨0, 0⟩
  else
    let grids := (List.range 17).map (· + 1)
    ((grids.findSome? (onGrid d)).getD ⟨d.significand, d.exponent⟩).stripped

end Double

/-! ## Sizes and durations -/

def Double.toPlaces (d : Double) (places : Nat) : String :=
  let (num, den) := d.magnitude
  String.ofList (fixedPlaces places num den)

def nearestDouble (num den : Nat) : Double :=
  (Double.nearest? false num den).getD (Double.zero false)

def kilobyte : Nat := 1024

def megabyte : Nat := 1024 * kilobyte

/-- A size in bytes, kilobytes or megabytes, the latter two with two places. -/
def formatSize (bytes : Nat) : String :=
  let (num, den) := (nearestDouble bytes 1).magnitude
  if megabyte ≤ bytes then (nearestDouble num (den * megabyte)).toPlaces 2 ++ " MB"
  else if kilobyte ≤ bytes then (nearestDouble num (den * kilobyte)).toPlaces 2 ++ " KB"
  else toString bytes ++ " B"

structure Duration where
  seconds : Nat
  nanoseconds : Nat

/-- A time span in seconds: whole seconds and the fraction are rounded each on its own before they
are added. -/
def Duration.inSeconds (d : Duration) : Double :=
  let (a, b) := (nearestDouble d.seconds 1).magnitude
  let (c, e) := (nearestDouble d.nanoseconds 1000000000).magnitude
  nearestDouble (a * e + c * b) (b * e)

def formatDuration (d : Duration) : String :=
  let s := d.inSeconds
  let (num, den) := s.magnitude
  if den ≤ num then s.toPlaces 2 ++ "s"
  else (nearestDouble (num * 1000) den).toPlaces 0 ++ "ms"

end Sitewright
