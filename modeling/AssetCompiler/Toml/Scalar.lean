import AssetCompiler.Decimal.Reading
import AssetCompiler.Text.Blank
import AssetCompiler.Toml.Basic

/-! # TOML scalars

Numbers, truth values and dates are words of a few characters; the form of the word tells
them apart. Dates are checked against the calendar and written in one normal spelling.
-/
namespace AssetCompiler.Toml

open Decimal (natOfDigits)
open Text (strip?)

def isWordChar (c : Char) : Bool :=
  c.isAlphanum || c == '_' || c == '+' || c == '-' || c == '.' || c == ':'

/-- A run of digits in which single underscores may stand between digits, without them. -/
def joinDigits? (isDigit : Char → Bool) : List Char → Option (List Char)
  | [] => none
  | [c] => if isDigit c then some [c] else none
  | c :: '_' :: cs => if isDigit c then (joinDigits? isDigit cs).map (c :: ·) else none
  | c :: cs => if isDigit c then (joinDigits? isDigit cs).map (c :: ·) else none

/-- The digits of a decimal whole number, which has no zero in front. -/
def wholeDigits? (cs : List Char) : Option (List Char) :=
  (joinDigits? Char.isDigit cs).bind fun ds =>
    if ds.head? = some '0' && ds.length ≠ 1 then none else some ds

def signOf (cs : List Char) : Bool × List Char := Decimal.spanSign cs

def withinRange (i : Int) : Option Int :=
  if -2 ^ 63 ≤ i && i < 2 ^ 63 then some i else none

def isHexDigit (c : Char) : Bool := c.isDigit || ('a' ≤ c && c ≤ 'f') || ('A' ≤ c && c ≤ 'F')

def digitValue (c : Char) : Nat :=
  if c.isDigit then c.toNat - 48 else if c.toNat < 97 then c.toNat - 55 else c.toNat - 87

def inBase? (base : Nat) (isDigit : Char → Bool) (cs : List Char) : Option Int :=
  (joinDigits? isDigit cs).bind fun ds =>
    withinRange (ds.foldl (fun n c => base * n + digitValue c) 0 : Nat)

def integer? (cs : List Char) : Option Int :=
  match cs with
  | '0' :: 'x' :: ds => inBase? 16 isHexDigit ds
  | '0' :: 'o' :: ds => inBase? 8 (fun c => '0' ≤ c && c ≤ '7') ds
  | '0' :: 'b' :: ds => inBase? 2 (fun c => c == '0' || c == '1') ds
  | _ =>
    let (negative, ds) := signOf cs
    (wholeDigits? ds).bind fun ds => withinRange (Decimal.signedValue negative ds)

def exponent? (cs : List Char) : Option Int :=
  let (negative, ds) := signOf cs
  (joinDigits? Char.isDigit ds).map (Decimal.signedValue negative)

/-- A whole part, then a fraction or an exponent or both. A positive number beyond the
largest float is refused. -/
def float? (cs : List Char) : Option Float := do
  let (negative, body) := signOf cs
  if body = "inf".toList then some (if negative then -(1.0 / 0.0) else 1.0 / 0.0)
  else if body = "nan".toList then some (if negative then -(0.0 / 0.0) else 0.0 / 0.0)
  else
    let isMark (c : Char) := c == 'e' || c == 'E'
    let number := body.takeWhile (!isMark ·)
    let whole ← wholeDigits? (number.takeWhile (· != '.'))
    let places ← match number.dropWhile (· != '.') with
      | [] => some []
      | _ :: ds => joinDigits? Char.isDigit ds
    let e ← match body.dropWhile (!isMark ·) with
      | [] => some 0
      | _ :: ds => exponent? ds
    if places = [] && number.length = body.length then none
    else
      let f := (Decimal.Literal.mk negative (natOfDigits (whole ++ places))
        (e - Int.ofNat places.length)).toFloat
      if f.isInf && !negative then none else some f

/-- Reads a number of exactly `n` digits within bounds. -/
def digitsIn? (n low high : Nat) (cs : List Char) : Option (Nat × List Char) :=
  let ds := cs.take n
  if ds.length = n && ds.all Char.isDigit && low ≤ natOfDigits ds && natOfDigits ds ≤ high then
    some (natOfDigits ds, cs.drop n)
  else none

def daysInMonth (year month : Nat) : Nat :=
  let leap := year % 4 == 0 && (year % 100 != 0 || year % 400 == 0)
  if month = 2 then if leap then 29 else 28
  else if month = 4 || month = 6 || month = 9 || month = 11 then 30
  else 31

def padded (width n : Nat) : List Char :=
  let ds := Nat.toDigits 10 n
  List.replicate (width - ds.length) '0' ++ ds

def date? (cs : List Char) : Option (List Char × List Char) := do
  let (year, cs) ← digitsIn? 4 0 9999 cs
  let cs ← strip? ['-'] cs
  let (month, cs) ← digitsIn? 2 1 12 cs
  let cs ← strip? ['-'] cs
  let (day, cs) ← digitsIn? 2 1 (daysInMonth year month) cs
  some (padded 4 year ++ '-' :: padded 2 month ++ '-' :: padded 2 day, cs)

/-- The fraction of a second, to nine places and without zeros at the end. -/
def secondFraction? (cs : List Char) : Option (List Char × List Char) :=
  match cs with
  | '.' :: rest =>
    let ds := rest.takeWhile Char.isDigit
    let kept := Text.dropEndWhile (· == '0') (ds.take 9)
    if ds = [] then none
    else some (if kept = [] then [] else '.' :: kept, rest.dropWhile Char.isDigit)
  | _ => some ([], cs)

/-- How far the hours of a time and the parts of an offset may go. -/
structure DateBounds where
  lastHour : Nat
  allowsOffset : Nat → Nat → Bool

def DateBounds.ofWord : DateBounds := ⟨23, fun hours minutes => hours ≤ 23 && minutes ≤ 59⟩

def DateBounds.ofString : DateBounds := ⟨24, fun hours minutes => 60 * hours + minutes ≤ 1440⟩

def time? (bounds : DateBounds) (cs : List Char) : Option (List Char × List Char) := do
  let (hour, cs) ← digitsIn? 2 0 bounds.lastHour cs
  let cs ← strip? [':'] cs
  let (minute, cs) ← digitsIn? 2 0 59 cs
  let cs ← strip? [':'] cs
  let (second, cs) ← digitsIn? 2 0 60 cs
  let (fraction, cs) ← secondFraction? cs
  some (padded 2 hour ++ ':' :: padded 2 minute ++ ':' :: padded 2 second ++ fraction, cs)

/-- An offset in whole hours and minutes below sixty. A distance of nothing is positive. -/
def offsetText (sign : Char) (total : Nat) : List Char :=
  (if total = 0 then '+' else sign) :: padded 2 (total / 60) ++ ':' :: padded 2 (total % 60)

/-- The distance from universal time, up to the end of the word. -/
def offset? (bounds : DateBounds) (cs : List Char) : Option (List Char) :=
  match cs with
  | [] => some []
  | ['Z'] => some ['Z']
  | ['z'] => some ['Z']
  | sign :: rest =>
    if sign = '+' || sign = '-' then do
      let (hours, rest) ← digitsIn? 2 0 99 rest
      let rest ← strip? [':'] rest
      let (minutes, rest) ← digitsIn? 2 0 99 rest
      if rest = [] && bounds.allowsOffset hours minutes then
        some (offsetText sign (60 * hours + minutes))
      else none
    else none

/-- A date, a time, or both with an optional offset, in normal spelling. -/
def datetime? (bounds : DateBounds) (cs : List Char) : Option (List Char) :=
  match date? cs with
  | some (date, []) => some date
  | some (date, mark :: rest) =>
    if mark = 'T' || mark = 't' || mark = ' ' then do
      let (time, rest) ← time? bounds rest
      let offset ← offset? bounds rest
      some (date ++ 'T' :: time ++ offset)
    else none
  | none =>
    match time? bounds cs with
    | some (time, []) => some time
    | _ => none

def word? (cs : List Char) : Option Toml :=
  if cs = "true".toList then some (.boolean true)
  else if cs = "false".toList then some (.boolean false)
  else match datetime? .ofWord cs, float? cs, integer? cs with
    | some t, _, _ => some (.datetime (String.ofList t))
    | none, some f, _ => some (.float f)
    | none, none, some i => some (.integer i)
    | none, none, none => none

end AssetCompiler.Toml
