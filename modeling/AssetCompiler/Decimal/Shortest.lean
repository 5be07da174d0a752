import AssetCompiler.Decimal.Binary

/-! # Written decimals

Numbers are written with as few digits as read back, or with as many as a format asks for.
-/

namespace AssetCompiler.Decimal

/-! ## The fewest digits that read back

Of all decimals that read back as a given binary64 number, the shortest text has the fewest
digits; among those of equal length it is the one nearest to the number. Where two are
equally near the writer's `Tie` decides.
-/

/-- Which of two equally near decimals is written. -/
inductive Tie where
  | up
  | even
  deriving DecidableEq, Repr

/-- The reals that round to a number: all are divided by the common `den`, and the ends
belong to it when `closed` holds. -/
structure Interval where
  low : Nat
  mid : Nat
  high : Nat
  den : Nat
  closed : Bool

/-- The interval of a positive finite number, over one denominator. -/
def Interval.around (mantissa : Nat) (exponent : Int) (edge : Bool) : Interval :=
  let unit := (Ratio.mk 1 4).scale 2 exponent
  ⟨(4 * mantissa - if edge then 1 else 2) * unit.num, 4 * mantissa * unit.num,
    (4 * mantissa + 2) * unit.num, unit.den, mantissa % 2 == 0⟩

/-- Whether `digits * unit` lies in the interval, for the grid of multiples of a unit. -/
def Interval.contains (i : Interval) (unit : Ratio) (digits : Nat) : Bool :=
  let x := digits * unit.num * i.den
  let low := i.low * unit.den
  let high := i.high * unit.den
  if i.closed then low ≤ x && x ≤ high else low < x && x < high

/-- The multiple of the unit that is written, if one of the two next to the number reads
back as it. -/
def Interval.onGrid? (i : Interval) (tie : Tie) (unit : Ratio) : Option Nat :=
  let num := i.mid * unit.den
  let den := i.den * unit.num
  let below := num / den
  let rest := num % den
  match i.contains unit below, i.contains unit (below + 1) with
  | false, false => none
  | true, false => some below
  | false, true => some (below + 1)
  | true, true =>
    if 2 * rest < den then some below
    else if den < 2 * rest then some (below + 1)
    else match tie with
      | .up => some (below + 1)
      | .even => some (if below % 2 == 0 then below else below + 1)

/-- The place after the leading digit: `10 ^ (k - 1) ≤ num / den < 10 ^ k`, for a positive
ratio. The estimate from the number of digits is at most one too high. -/
def leadingPlace (num den : Nat) : Int :=
  let k : Int := Int.ofNat (digitCount num) - Int.ofNat (digitCount den) + 1
  let bound := (Ratio.mk 1 1).scale 10 (k - 1)
  if num * bound.den < bound.num * den then k - 1 else k

/-- Drops zeros at the end of a digit string, raising the exponent; `fuel` bounds their number. -/
def dropZeros : Nat → Nat → Int → Nat × Int
  | 0, digits, e => (digits, e)
  | fuel + 1, digits, e =>
    if digits ≠ 0 && digits % 10 = 0 then dropZeros fuel (digits / 10) (e + 1) else (digits, e)

/-- The shortest digits and the exponent of their last place, for a positive number. -/
def shortest (tie : Tie) (mantissa : Nat) (exponent : Int) (edge : Bool) : Nat × Int :=
  let i := Interval.around mantissa exponent edge
  let k := leadingPlace i.mid i.den
  let attempt (n : Nat) : Option (Nat × Int) :=
    let e := k - Int.ofNat n
    (i.onGrid? tie ((Ratio.mk 1 1).scale 10 e)).map fun d => dropZeros 20 d e
  ((List.range' 1 17).findSome? attempt).getD (0, 0)

def digits (n : Nat) : List Char := Nat.toDigits 10 n

/-- Digits with a point, for a number whose last digit stands at `10 ^ e`. -/
def positional (ds : List Char) (e : Int) : List Char :=
  match e with
  | .ofNat k => ds ++ List.replicate k '0'
  | .negSucc k =>
    let places := k + 1
    let padded := List.replicate (places + 1 - ds.length) '0' ++ ds
    let whole := padded.length - places
    padded.take whole ++ '.' :: padded.drop whole

/-! ## Decimals with a given number of places

A ratio is written with a fixed number of digits behind the point, or with one digit before it
and an exponent of ten. The last digit is rounded, a tie going to the even one.
-/


/-- Digits with a point in front of the last so many of them. `pointed` keeps a point with
nothing behind it. -/
def withPoint (pointed : Bool) (places : Nat) (n : Nat) : List Char :=
  let ds := Nat.toDigits 10 n
  let ds := List.replicate (places + 1 - ds.length) '0' ++ ds
  let whole := ds.take (ds.length - places)
  let fraction := ds.drop (ds.length - places)
  whole ++ (if pointed || fraction ≠ [] then ['.'] else []) ++ fraction

/-- A ratio with so many digits behind the point. -/
def fixed (pointed : Bool) (places : Nat) (r : Ratio) : List Char :=
  withPoint pointed places (r.scale 10 places).roundEven

/-- The first digits of a ratio, one more than the places, and the exponent of the first. -/
def leadingDigits (places : Nat) (r : Ratio) : Nat × Int :=
  if r.num = 0 then (0, 0)
  else
    let e := leadingPlace r.num r.den - 1
    let n := (r.scale 10 (places - e)).roundEven
    if n < 10 ^ (places + 1) then (n, e) else (n / 10, e + 1)

/-- An exponent of at least two digits. -/
def exponentText (e : Int) : List Char :=
  let ds := Nat.toDigits 10 e.natAbs
  'e' :: (if e < 0 then '-' else '+') :: List.replicate (2 - ds.length) '0' ++ ds

/-- A ratio with one digit in front of the point, so many behind it, and an exponent. -/
def scientific (pointed : Bool) (places : Nat) (r : Ratio) : List Char :=
  let (n, e) := leadingDigits places r
  withPoint pointed places n ++ exponentText e

/-- Digits without the zeros behind the point that say nothing. -/
def trimmed (cs : List Char) : List Char :=
  if cs.contains '.' then
    let cs := (cs.reverse.dropWhile (· == '0')).reverse
    if cs.getLast? == some '.' then cs.dropLast else cs
  else cs

/-- A ratio with so many digits that count, in whichever form is shorter. -/
def general (pointed : Bool) (digits : Nat) (r : Ratio) : List Char :=
  let places := digits - 1
  let (n, e) := leadingDigits places r
  if -4 ≤ e && e ≤ places then
    let cs := fixed pointed (places - e).toNat r
    if pointed then cs else trimmed cs
  else
    let cs := withPoint pointed places n
    (if pointed then cs else trimmed cs) ++ exponentText e

end AssetCompiler.Decimal
