import AssetCompiler.Decimal.Binary

/-! # Reading decimals

A decimal is a run of digits, then perhaps a point with digits, then perhaps an exponent.
The reader splits a text at its digits and leaves range and rounding to `Literal.toFloat`.
-/
namespace AssetCompiler.Decimal

def natOfDigits (ds : List Char) : Nat :=
  ds.foldl (fun n d => 10 * n + (d.toNat - '0'.toNat)) 0

def spanDigits (cs : List Char) : List Char × List Char :=
  (cs.takeWhile Char.isDigit, cs.dropWhile Char.isDigit)

/-- Whether a minus sign stands in front, and the text behind a sign. -/
def spanSign : List Char → Bool × List Char
  | '-' :: cs => (true, cs)
  | '+' :: cs => (false, cs)
  | cs => (false, cs)

/-- The whole number of a sign and digits. -/
def signedValue (negative : Bool) (ds : List Char) : Int :=
  if negative then -Int.ofNat (natOfDigits ds) else Int.ofNat (natOfDigits ds)

/-- An exponent mark with its sign and digits, up to the end of the text. -/
def readExponent? : List Char → Option Int
  | [] => some 0
  | c :: cs =>
    let (negative, ds) := spanSign cs
    if (c = 'e' || c = 'E') && ds ≠ [] && ds.all Char.isDigit then some (signedValue negative ds)
    else none

/-- The fraction digits after a point, which may be none, and the rest. -/
def spanFraction : List Char → List Char × List Char
  | '.' :: cs => spanDigits cs
  | cs => ([], cs)

/-- Reads `digits[.digits*][e[sign]digits]` as a whole text with its sign in front. -/
def readLiteral? (cs : List Char) : Option Literal :=
  let (negative, body) := match cs with
    | '-' :: rest => (true, rest)
    | rest => (false, rest)
  let (whole, rest) := spanDigits body
  if whole = [] then none
  else
    let (fraction, rest) := spanFraction rest
    (readExponent? rest).map fun e =>
      ⟨negative, natOfDigits (whole ++ fraction), e - Int.ofNat fraction.length⟩

end AssetCompiler.Decimal
