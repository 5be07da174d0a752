import AssetCompiler.Instances

/-! # Malformed UTF-8

A text of octets is read one character at a time. The first octet of a character says how many
follow and within which bounds the second one lies. Where a character cannot be completed the
octets read so far are malformed; at the end of the text they may also be merely incomplete.
-/
namespace AssetCompiler.Text

/-- What stands at the front of a text of octets. -/
inductive Lead where
  /-- A whole character of `n` octets. -/
  | char (n : Nat)
  /-- Malformed octets. -/
  | malformed (n : Nat)
  /-- The start of a character that the text ends in. -/
  | incomplete
  deriving DecidableEq, Repr

def isTail (b : UInt8) : Bool := 0x80 ≤ b && b ≤ 0xBF

/-- The length of the character that an octet begins and the bounds of its second octet. -/
def leadOf? (b : UInt8) : Option (Nat × UInt8 × UInt8) :=
  if 0xC2 ≤ b && b ≤ 0xDF then some (2, 0x80, 0xBF)
  else if b = 0xE0 then some (3, 0xA0, 0xBF)
  else if b = 0xED then some (3, 0x80, 0x9F)
  else if 0xE1 ≤ b && b ≤ 0xEF then some (3, 0x80, 0xBF)
  else if b = 0xF0 then some (4, 0x90, 0xBF)
  else if 0xF1 ≤ b && b ≤ 0xF3 then some (4, 0x80, 0xBF)
  else if b = 0xF4 then some (4, 0x80, 0x8F)
  else none

/-- Checks the octets behind the second one, of which `read` are read. -/
def leadTail (read : Nat) : Nat → List UInt8 → Lead
  | 0, _ => .char read
  | _ + 1, [] => .incomplete
  | n + 1, b :: bs => if isTail b then leadTail (read + 1) n bs else .malformed read

def lead (b : UInt8) (bs : List UInt8) : Lead :=
  if b < 0x80 then .char 1
  else match leadOf? b, bs with
    | none, _ => .malformed 1
    | some _, [] => .incomplete
    | some (n, low, high), c :: cs =>
      if low ≤ c && c ≤ high then leadTail 2 (n - 2) cs else .malformed 1

/-- Where a text of octets stops being UTF-8, and how many octets are malformed there. -/
structure Utf8Fault where
  index : Nat
  length? : Option Nat
  deriving DecidableEq, Repr

/-- The first fault of a text; `skip` octets of a character read before still follow. -/
def firstFault (index skip : Nat) : List UInt8 → Option Utf8Fault
  | [] => none
  | b :: bs =>
    if 0 < skip then firstFault (index + 1) (skip - 1) bs
    else match lead b bs with
      | .char n => firstFault (index + 1) (n - 1) bs
      | .malformed n => some ⟨index, some n⟩
      | .incomplete => some ⟨index, none⟩

def utf8Fault? (bytes : ByteArray) : Option Utf8Fault := firstFault 0 0 bytes.toList

def Utf8Fault.message (f : Utf8Fault) : String :=
  match f.length? with
  | some n => "invalid utf-8 sequence of " ++ toString n ++ " bytes from index " ++ toString f.index
  | none => "incomplete utf-8 byte sequence from index " ++ toString f.index

/-- The octets with a replacement character for every malformed run. -/
def repair (skip keep : Nat) : List UInt8 → List UInt8
  | [] => []
  | b :: bs =>
    if 0 < keep then b :: repair skip (keep - 1) bs
    else if 0 < skip then repair (skip - 1) 0 bs
    else match lead b bs with
      | .char n => b :: repair 0 (n - 1) bs
      | .malformed n => 0xEF :: 0xBF :: 0xBD :: repair (n - 1) 0 bs
      | .incomplete => [0xEF, 0xBF, 0xBD]

def lossy (bytes : List UInt8) : String :=
  (String.fromUTF8? ⟨(repair 0 0 bytes).toArray⟩).getD ""

end AssetCompiler.Text
