import AssetCompiler.Text.Octets

/-! # Numbers of scripts

Whole numbers have 64 bits. They are written with a sign and blanks around them; where several
bases are understood, a leading zero stands for base eight and `0x` for base sixteen.
-/
namespace AssetCompiler.Shell.Number

/-- The number with the same last 64 bits that fits into them with a sign. -/
def wrap (i : Int) : Int := Int.bmod i (2 ^ 64)

def isBlank (c : Char) : Bool := c == ' ' || (9 ≤ c.toNat && c.toNat ≤ 13)

def digit? (c : Char) : Option Nat :=
  if c.isDigit then some (c.toNat - 48)
  else if 'a' ≤ c && c ≤ 'z' then some (c.toNat - 87)
  else if 'A' ≤ c && c ≤ 'Z' then some (c.toNat - 55)
  else none

def isDigitOf (base : Nat) (c : Char) : Bool := (digit? c).any (· < base)

def ofDigits (base : Nat) (ds : Octets) : Nat :=
  ds.foldl (fun n c => base * n + (digit? c).getD 0) 0

/-- The digits at the front of a text, of a base that they tell themselves; what stands behind
them; and their value. -/
def unsigned? (anyBase : Bool) (cs : Octets) : Option (Nat × Octets) :=
  let inBase (base : Nat) (cs : Octets) : Nat × Octets :=
    (ofDigits base (cs.takeWhile (isDigitOf base)), cs.dropWhile (isDigitOf base))
  match anyBase, cs with
  | true, '0' :: x :: c :: rest =>
    if (x = 'x' || x = 'X') && isDigitOf 16 c then some (inBase 16 (c :: rest))
    else some (inBase 8 cs)
  | true, '0' :: rest => some (inBase 8 ('0' :: rest))
  | _, c :: rest => if c.isDigit then some (inBase 10 (c :: rest)) else none
  | _, [] => none

def sign (cs : Octets) : Bool × Octets :=
  match cs with
  | '-' :: cs => (true, cs)
  | '+' :: cs => (false, cs)
  | cs => (false, cs)

def integer? (anyBase : Bool) (cs : Octets) : Option (Int × Octets) :=
  let (isNegative, cs) := sign (cs.dropWhile isBlank)
  (unsigned? anyBase cs).map fun (n, rest) => (if isNegative then -(n : Int) else n, rest)

def fits (i : Int) : Bool := -(2 ^ 63) ≤ i && i < 2 ^ 63

def whole? (anyBase : Bool) (cs : Octets) : Option Int :=
  match integer? anyBase cs with
  | some (i, rest) => if fits i && rest.all isBlank then some i else none
  | none => none

end AssetCompiler.Shell.Number
