/-!
# Binary floating-point numbers

The numbers of template data are the 64-bit binary floating-point numbers of IEEE 754, kept by
their three fields. A finite number is `significand · 2 ^ scale` with a sign. `nearest` gives the
number closest to a quotient of natural numbers, with a tie going to the even significand, and the
arithmetic below is exact arithmetic followed by `nearest`.
-/

set_option autoImplicit false

namespace Stencil

/-! ## Powers -/

/-- The power of two with an exponent. -/
def twoTo (n : Nat) : Nat := Nat.pow 2 n

/-- The power of ten with an exponent. -/
def tenTo (n : Nat) : Nat := Nat.pow 10 n

/-! ## The numbers -/

/-- A 64-bit binary floating-point number. -/
structure Binary64 where
  negative : Bool
  /-- The biased exponent; the largest one marks infinities and what is no number. -/
  exponent : Fin 2048
  fraction : Fin 4503599627370496
deriving DecidableEq, Repr

namespace Binary64

/-! ## Classes -/

/-- Is it no number? -/
def isNaN (x : Binary64) : Bool := x.exponent == 2047 && x.fraction != 0

/-- Is it an infinity? -/
def isInfinite (x : Binary64) : Bool := x.exponent == 2047 && x.fraction == 0

/-- Is it a finite number? -/
def isFinite (x : Binary64) : Bool := x.exponent != 2047

/-- Is it zero, of either sign? -/
def isZero (x : Binary64) : Bool := x.exponent == 0 && x.fraction == 0

/-- Equality of numbers: what is no number equals nothing, and the zeros are equal. -/
def eqv (x y : Binary64) : Bool :=
  !x.isNaN && !y.isNaN && ((x.isZero && y.isZero) || decide (x = y))

/-- The integer that is scaled by a power of two. -/
def significand (x : Binary64) : Nat :=
  if x.exponent = 0 then x.fraction else twoTo 52 + x.fraction

/-- The exponent of the power of two. -/
def scale (x : Binary64) : Int :=
  if x.exponent = 0 then -1074 else (x.exponent : Int) - 1075

/-- The number with the other sign. -/
def neg (x : Binary64) : Binary64 := { x with negative := !x.negative }

/-- The 64 bits as a natural number: sign, exponent, fraction. -/
def bits (x : Binary64) : Nat :=
  (if x.negative then twoTo 63 else 0) + x.exponent * twoTo 52 + x.fraction

def zero (negative : Bool) : Binary64 := ⟨negative, 0, 0⟩

def infinity (negative : Bool) : Binary64 := ⟨negative, 2047, 0⟩

/-- The usual representative of what is no number. -/
def nan : Binary64 := ⟨false, 2047, 2251799813685248⟩

/-! ## Rounding -/

/-- The integer nearest to a quotient, the even one of two. -/
def roundHalfEven (num den : Nat) : Nat :=
  let q := num / den
  let r := num % den
  if 2 * r < den then q
  else if den < 2 * r then q + 1
  else if q % 2 = 0 then q else q + 1

/-- The non-negative number with the exponent and fraction that the code spells, exponent first;
infinity if there is none. -/
def ofCode (negative : Bool) (code : Nat) : Binary64 :=
  if h : code < 2047 * 4503599627370496 then
    ⟨negative, ⟨code / 4503599627370496, by omega⟩, ⟨code % 4503599627370496, by omega⟩⟩
  else infinity negative

/-- The quotient `num / den` divided by `2 ^ q`, as a pair. -/
def scaled (num den : Nat) (q : Int) : Nat × Nat :=
  if q < 0 then (num * twoTo q.natAbs, den) else (num, den * twoTo q.natAbs)

/-- The scale at which a positive quotient has a significand of 53 bits, and no less than the
smallest scale there is. -/
def scaleFor (num den : Nat) : Int :=
  -- at the guessed scale the quotient lies between the powers of two 52 and 54
  let guess : Int := (num.log2 : Int) - den.log2 - 53
  let (n, d) := scaled num den guess
  max (if twoTo 53 * d ≤ n then guess + 1 else guess) (-1074)

/-- The number nearest to `num / den`, with a sign. -/
def nearest (negative : Bool) (num den : Nat) : Binary64 :=
  if num = 0 then zero negative
  else
    let q := scaleFor num den
    let (n, d) := scaled num den q
    -- a significand that rounds up to the next power of two carries into the exponent
    ofCode negative ((q + 1074).toNat * 4503599627370496 + roundHalfEven n d)

/-- The number nearest to a natural number. -/
def ofNat (n : Nat) : Binary64 := nearest false n 1

/-- The number nearest to an integer. -/
def ofInt (n : Int) : Binary64 := nearest (n < 0) n.natAbs 1

/-- The number nearest to `digits · 10 ^ exponent`, with a sign. Exponents so large or small that
the answer is an infinity or zero whatever the digits are not computed with. -/
def ofDecimal (negative : Bool) (digits : Nat) (exponent : Int) : Binary64 :=
  let size : Int := (Nat.toDigits 10 digits).length
  if digits = 0 then zero negative
  else if 400 < exponent + size then infinity negative
  else if exponent + size < -400 then zero negative
  else if exponent < 0 then nearest negative digits (tenTo exponent.natAbs)
  else nearest negative (digits * tenTo exponent.natAbs) 1

/-! ## Arithmetic on finite numbers -/

/-- The product of two finite numbers. -/
def mul (x y : Binary64) : Binary64 :=
  let (n, d) := scaled (x.significand * y.significand) 1 (-(x.scale + y.scale))
  nearest (x.negative != y.negative) n d

/-- The quotient of a finite number by one that is not zero. -/
def div (x y : Binary64) : Binary64 :=
  let (n, d) := scaled x.significand y.significand (-(x.scale - y.scale))
  nearest (x.negative != y.negative) n d

/-! ## Integers -/

/-- The magnitude of a finite number without its fractional part. -/
def truncated (x : Binary64) : Nat :=
  if x.scale < 0 then x.significand / twoTo x.scale.natAbs
  else x.significand * twoTo x.scale.natAbs

/-- Is it a finite number without a fractional part? -/
def isIntegral (x : Binary64) : Bool :=
  x.isFinite && (0 ≤ x.scale || x.significand % twoTo x.scale.natAbs == 0)

/-- The integer that an integral number is. -/
def toInt (x : Binary64) : Int := if x.negative then -(x.truncated : Int) else x.truncated

end Binary64

end Stencil
