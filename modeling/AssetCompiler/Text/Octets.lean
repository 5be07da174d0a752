import AssetCompiler.Text.Utf8

/-! # Texts of octets

What programs read and write are octets. A text of octets is kept as the characters with the
same codes, so that it can be compared with letters; only the conversions see octets as such.
-/
namespace AssetCompiler

/-- A text in which every character stands for the octet with its code. -/
abbrev Octets := List Char

namespace Octets

def ofBytes (bytes : ByteArray) : Octets := bytes.toList.map fun b => Char.ofNat b.toNat

def toByteList (o : Octets) : List UInt8 := o.map fun c => c.toNat.toUInt8

def toBytes (o : Octets) : ByteArray := ⟨(toByteList o).toArray⟩

def ofString (s : String) : Octets := ofBytes s.toUTF8

/-- The text that octets spell in UTF-8, malformed ones replaced. -/
def toText (o : Octets) : String := Text.lossy (toByteList o)

def ofNat (n : Nat) : Octets := Nat.toDigits 10 n

def ofInt (i : Int) : Octets := if i < 0 then '-' :: ofNat i.natAbs else ofNat i.natAbs

end Octets

end AssetCompiler

/-! ## Classes of octets

The named classes that patterns may speak of. Only the characters of ASCII belong to any.
-/

namespace AssetCompiler.OctetClass

def holds (name : String) (c : Char) : Bool :=
  let n := c.toNat
  let graphic := 0x21 ≤ n && n ≤ 0x7E
  match name with
  | "alnum" => c.isAlphanum
  | "alpha" => c.isAlpha
  | "blank" => c == ' ' || c == '\t'
  | "cntrl" => n < 0x20 || n == 0x7F
  | "digit" => c.isDigit
  | "graph" => graphic
  | "lower" => c.isLower
  | "print" => graphic || c == ' '
  | "punct" => graphic && !c.isAlphanum
  | "space" => (9 ≤ n && n ≤ 13) || c == ' '
  | "upper" => c.isUpper
  | "xdigit" => c.isDigit || ('a' ≤ c && c ≤ 'f') || ('A' ≤ c && c ≤ 'F')
  | _ => false

def names : List String :=
  ["alnum", "alpha", "blank", "cntrl", "digit", "graph", "lower", "print", "punct", "space",
    "upper", "xdigit"]

end AssetCompiler.OctetClass
