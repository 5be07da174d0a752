import AssetCompiler.Decimal.Reading
import AssetCompiler.Decimal.Shortest
import AssetCompiler.Json.Basic

/-! # JSON numbers

A number without fraction and exponent is an integer while it fits in 64 bits. Any other is
a float, made from its leading digits, as many as fit in 64 bits, by one multiplication or
division with a power of ten. A float is written with the fewest digits that read back.
-/
namespace AssetCompiler.Json

open Decimal (spanDigits spanSign signedValue)

/-- Leading digits as far as they fit in 64 bits, and the power of ten that goes with them. -/
structure Significand where
  value : Nat := 0
  exponent : Int := 0
  full : Bool := false
  deriving DecidableEq, Repr

namespace Significand

def digitValue (c : Char) : Nat := c.toNat - '0'.toNat

/-- Takes one more digit before the point. A digit that does not fit only counts. -/
def pushWhole (s : Significand) (c : Char) : Significand :=
  let v := 10 * s.value + digitValue c
  if s.full || 2 ^ 64 ≤ v then { s with exponent := s.exponent + 1, full := true }
  else { s with value := v }

/-- Takes one more digit behind the point. A digit that does not fit is left out. -/
def pushPlace (s : Significand) (c : Char) : Significand :=
  let v := 10 * s.value + digitValue c
  if s.full || 2 ^ 64 ≤ v then { s with full := true }
  else { s with value := v, exponent := s.exponent - 1 }

def ofWhole (ds : List Char) : Significand := ds.foldl pushWhole {}

/-- Goes on behind the point, where a digit may fit again. -/
def withPlaces (s : Significand) (ds : List Char) : Significand :=
  ds.foldl pushPlace { s with full := false }

end Significand

def powerOfTen (n : Nat) : Float := (Decimal.Literal.mk false 1 n).toFloat

def maxPower : Nat := 308

/-- Divides by `10 ^ n` in steps of at most `10 ^ 308`. -/
def divideByPower (f : Float) (n : Nat) : Float :=
  if n ≤ maxPower then f / powerOfTen n
  else if f == 0.0 then f
  else divideByPower (f / powerOfTen maxPower) (n - maxPower)
  termination_by n
  decreasing_by simp only [maxPower] at *; omega

/-- The float `value * 10 ^ exponent`, unless it is too large. -/
def scaled? (value : Nat) (exponent : Int) : Option Float :=
  let f := value.toUInt64.toFloat
  match exponent with
  | .ofNat n =>
    if n ≤ maxPower then
      let r := f * powerOfTen n
      if r.isInf then none else some r
    else if value = 0 then some f else none
  | .negSucc n => some (divideByPower f (n + 1))

/-- The integer or float of a number without fraction and exponent. -/
def ofWhole? (negative : Bool) (s : Significand) : Option Json :=
  if s.full then (scaled? s.value s.exponent).map fun f => .float (if negative then -f else f)
  else if !negative then some (.integer s.value)
  else if s.value = 0 || 2 ^ 63 < s.value then some (.float (-s.value.toUInt64.toFloat))
  else some (.integer (-s.value))

def spanExponent? (cs : List Char) : Option (Int × List Char) :=
  let (negative, cs) := spanSign cs
  let (ds, rest) := spanDigits cs
  if ds = [] then none else some (signedValue negative ds, rest)

def exponentPart? : List Char → Option (Option Int × List Char)
  | 'e' :: cs | 'E' :: cs => (spanExponent? cs).map fun (e, rest) => (some e, rest)
  | cs => some (none, cs)

def places? : List Char → Option (Option (List Char) × List Char)
  | '.' :: cs =>
    let (ds, rest) := spanDigits cs
    if ds = [] then none else some (some ds, rest)
  | cs => some (none, cs)

/-- Reads a number without its sign. A zero in front stands alone before the point. A number
that is too large has no value. -/
def unsignedNumber? (negative : Bool) (cs : List Char) : Option (Option Json × List Char) := do
  let (ds, cs) := spanDigits cs
  if ds = [] || (ds.head? = some '0' && ds.length ≠ 1) then none
  else
    let whole := Significand.ofWhole ds
    let (places, cs) ← places? cs
    let (exponent, cs) ← exponentPart? cs
    match places, exponent with
    | none, none => some (ofWhole? negative whole, cs)
    | _, _ =>
      let s := match places with
        | none => whole
        | some ds => whole.withPlaces ds
      let f? := scaled? s.value (s.exponent + exponent.getD 0)
      some (f?.map fun f => .float (if negative then -f else f), cs)

def signedText (e : Int) : List Char :=
  if e < 0 then (toString e).toList else '+' :: (toString e).toList

def exponential (ds : List Char) (e : Int) : List Char :=
  let tail := ds.drop 1
  ds.take 1 ++ (if tail = [] then [] else '.' :: tail) ++ 'e' :: signedText e

/-- Numbers from `10 ^ -5` to below `10 ^ 16` are written positionally and always have a
point; the others have an exponent. -/
def floatText (f : Float) : String :=
  match Decimal.decode f.toBits.toNat with
  | .nan => "null"
  | .infinite _ => "null"
  | .finite negative mantissa exponent edge =>
    let body :=
      if mantissa = 0 then ['0', '.', '0']
      else
        let (n, e) := Decimal.shortest .even mantissa exponent edge
        let ds := Decimal.digits n
        let place := e + Int.ofNat ds.length
        if -5 < place && place ≤ 16 then
          Decimal.positional ds e ++ if 0 ≤ e then ['.', '0'] else []
        else exponential ds (place - 1)
    String.ofList (if negative then '-' :: body else body)

end AssetCompiler.Json
