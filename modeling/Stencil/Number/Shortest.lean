import Stencil.Number
import Stencil.Text

/-!
# The fewest digits that identify a number

A decimal identifies a finite number when the number is the nearest one to it. `shortest` finds
the decimal with the fewest digits that does, and of those the one closest to the number.
-/

set_option autoImplicit false

namespace Stencil

/-- A positive decimal `digits · 10 ^ exponent`. -/
structure Decimal where
  digits : Nat
  exponent : Int
deriving DecidableEq, Repr

/-- Which of two decimals equally close to a number is taken. -/
inductive Tie where
  | toEven
  | upward
deriving DecidableEq, Repr

/-- The quarters of a unit of the last place around a positive finite number: the number, and the
ends of the interval of reals that round to it. Below a power of two the numbers lie twice as
close. -/
structure RoundingInterval where
  value : Nat
  low : Nat
  high : Nat
  /-- Do the ends round to the number too? -/
  closed : Bool
  /-- The scale of a quarter. -/
  scale : Int

namespace RoundingInterval

/-- The interval around a positive finite number. -/
def around (x : Binary64) : RoundingInterval :=
  let m := x.significand
  { value := 4 * m
    low := 4 * m - (if m = twoTo 52 ∧ x.scale ≠ -1074 then 1 else 2)
    high := 4 * m + 2
    closed := m % 2 == 0
    scale := x.scale - 2 }

/-- The factors that bring quarters and tens of the place `10 ^ place` to one unit. -/
def factors (i : RoundingInterval) (place : Int) : Nat × Nat :=
  let (q, p) := (i.scale, place)
  ((if q < 0 then 1 else twoTo q.natAbs) * (if p < 0 then tenTo p.natAbs else 1),
    (if q < 0 then twoTo q.natAbs else 1) * (if p < 0 then 1 else tenTo p.natAbs))

/-- The decimal at the place that the interval holds and that is closest to the number, if there
is one: one of the number's two neighbours there. -/
def pick? (i : RoundingInterval) (tie : Tie) (place : Int) : Option Nat :=
  let (quarter, ten) := i.factors place
  let (v, lo, hi) := (i.value * quarter, i.low * quarter, i.high * quarter)
  -- the interval holds the number, so if it holds any decimal of the place it holds one of these
  let below := v / ten
  let above := below + 1
  let holds (d : Nat) : Bool :=
    if i.closed then lo ≤ d * ten && d * ten ≤ hi else lo < d * ten && d * ten < hi
  match holds below, holds above with
  | true, false => some below
  | false, true => some above
  | false, false => none
  | true, true =>
    let (down, up) := (v - below * ten, above * ten - v)
    if down < up then some below
    else if up < down then some above
    else match tie with
    | .upward => some above
    | .toEven => some (if below % 2 = 0 then below else above)

/-- The first hit among places counted down from one. -/
def search (i : RoundingInterval) (tie : Tie) : Nat → Int → Decimal
  | 0, place => ⟨i.value * (i.factors place).1 / (i.factors place).2, place⟩
  | steps + 1, place =>
    match i.pick? tie place with
    | some digits => ⟨digits, place⟩
    | none => search i tie steps (place - 1)

end RoundingInterval

/-- The decimal with the fewest digits that identifies a positive finite number. The search begins
at a place above the number, and 17 digits always suffice. -/
def shortest (tie : Tie) (x : Binary64) : Decimal :=
  let i := RoundingInterval.around x
  -- 30103 / 100000 is a little more than the decimal logarithm of two
  let size : Int := i.high.log2 + 1 + i.scale
  i.search tie 25 (size * 30103 / 100000 + 2)

/-! ## Layout -/

namespace Decimal

/-- The digits without the zeros they end with. -/
def figures (d : Decimal) : Text :=
  match ((natText d.digits).reverse.dropWhile (· == '0')).reverse with
  | [] => ['0']
  | figures => figures

/-- How many digits stand before the point; not positive when zeros follow the point. -/
def pointAt (d : Decimal) : Int := (natText d.digits).length + d.exponent

/-- The decimal without an exponent. -/
def positional (d : Decimal) : Text :=
  let figures := d.figures
  if d.pointAt ≤ 0 then ['0', '.'] ++ List.replicate d.pointAt.natAbs '0' ++ figures
  else
    let whole := d.pointAt.natAbs
    if figures.length ≤ whole then figures ++ List.replicate (whole - figures.length) '0'
    else figures.take whole ++ '.' :: figures.drop whole

/-- The decimal with one digit before the point and a signed exponent. -/
def scientific (d : Decimal) : Text :=
  let mantissa := match d.figures with
    | first :: second :: rest => first :: '.' :: second :: rest
    | figures => figures
  let e := d.pointAt - 1
  mantissa ++ 'e' :: (if e < 0 then '-' else '+') :: natText e.natAbs

end Decimal

end Stencil
