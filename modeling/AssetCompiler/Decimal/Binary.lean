import AssetCompiler.Instances

/-! # Binary64 numbers as exact ratios

A finite binary64 number is a natural number times a power of two, with a sign. Reading
takes a decimal to the nearest such number, a tie going to the even one; decoding gives
the exact ratio back. All arithmetic is on natural numbers, so nothing is lost on the way.
-/
namespace AssetCompiler.Decimal

/-- A signed decimal: `mantissa * 10 ^ exponent`. -/
structure Literal where
  negative : Bool
  mantissa : Nat
  exponent : Int
  deriving DecidableEq, Repr

/-- A quotient of natural numbers, with a positive denominator in all uses. -/
structure Ratio where
  num : Nat
  den : Nat
  deriving DecidableEq, Repr

def Ratio.scale (r : Ratio) (base : Nat) (e : Int) : Ratio :=
  match e with
  | .ofNat k => ⟨r.num * base ^ k, r.den⟩
  | .negSucc k => ⟨r.num, r.den * base ^ (k + 1)⟩

/-- The nearest natural number, a tie going to the even neighbour. -/
def Ratio.roundEven (r : Ratio) : Nat :=
  let q := r.num / r.den
  let twice := 2 * (r.num % r.den)
  if r.den < twice || (r.den == twice && q % 2 == 1) then q + 1 else q

def infinityBits : Nat := 0x7FF0000000000000

/-- The exponent of the last place of the binary64 number nearest to a positive ratio. -/
def lastPlace (r : Ratio) : Int :=
  let e : Int := Int.ofNat r.num.log2 - Int.ofNat r.den.log2 - 52
  let scaled := r.scale 2 (-e)
  max (if scaled.num / scaled.den < 2 ^ 52 then e - 1 else e) (-1074)

/-- Bits of the binary64 number nearest to a ratio. -/
def nearestBits (r : Ratio) : Nat :=
  if r.num = 0 then 0
  else
    let e := lastPlace r
    let q := (r.scale 2 (-e)).roundEven
    min ((e + 1074).toNat * 2 ^ 52 + q) infinityBits

/-- The number of decimal digits of a natural number, one for zero. -/
def digitCount (n : Nat) : Nat :=
  (Nat.toDigits 10 n).length

/-- Bits of the binary64 number nearest to a decimal. Magnitudes far outside the range are
settled by the place of the leading digit alone. -/
def Literal.bits (d : Literal) : Nat :=
  let place := d.exponent + digitCount d.mantissa
  let magnitude :=
    if d.mantissa = 0 || place < -330 then 0
    else if 330 < place then infinityBits
    else nearestBits ((Ratio.mk d.mantissa 1).scale 10 d.exponent)
  if d.negative then magnitude + 2 ^ 63 else magnitude

def Literal.toFloat (d : Literal) : Float :=
  Float.ofBits d.bits.toUInt64

/-- What the bits of a binary64 number stand for. -/
inductive Decoded where
  | nan
  | infinite (negative : Bool)
  /-- The number `mantissa * 2 ^ exponent` with a sign; `edge` when the neighbour below is
  half a step away. -/
  | finite (negative : Bool) (mantissa : Nat) (exponent : Int) (edge : Bool)
  deriving DecidableEq, Repr

def decode (bits : Nat) : Decoded :=
  let negative := bits / 2 ^ 63 % 2 == 1
  let biased := bits / 2 ^ 52 % 2048
  let fraction := bits % 2 ^ 52
  if biased = 2047 then
    if fraction = 0 then .infinite negative else .nan
  else if biased = 0 then .finite negative fraction (-1074) false
  else .finite negative (2 ^ 52 + fraction) (Int.ofNat biased - 1075) (fraction == 0 && 1 < biased)

/-- A binary64 number by its bits. Many bits stand for no number, and they are told apart. -/
structure Binary64 where
  bits : UInt64
  deriving DecidableEq, Inhabited, Repr

namespace Binary64

def decoded (n : Binary64) : Decoded := decode n.bits.toNat

def isZero (n : Binary64) : Bool := n.bits.toNat % 2 ^ 63 == 0

def isNaN (n : Binary64) : Bool := n.decoded == .nan

/-- Equality of numbers: both zeros are one number, and what is no number equals nothing. -/
def equals (a b : Binary64) : Bool :=
  !a.isNaN && !b.isNaN && (a.bits == b.bits || (a.isZero && b.isZero))

end Binary64

def Literal.toBinary64 (d : Literal) : Binary64 := ⟨d.bits.toUInt64⟩

end AssetCompiler.Decimal
