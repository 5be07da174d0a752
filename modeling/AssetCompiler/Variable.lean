import AssetCompiler.Decimal.Reading
import AssetCompiler.Decimal.Shortest
import AssetCompiler.Text.Blank

/-! # Variables

What directives write, and what the names in it stand for.
-/

namespace AssetCompiler

/-! ## Operands

An operand is what a directive writes: a number, a truth value, a quoted text or the name
of a variable. Only a variable's name needs the bindings before it has a value.
-/

inductive Operand where
  | number (n : Decimal.Binary64)
  | flag (b : Bool)
  | text (s : String)
  | name (ident : String)
  deriving Inhabited, Repr

namespace Operand

def unquote? (cs : List Char) : Option (List Char) :=
  match cs with
  | '"' :: rest => if rest.getLast? = some '"' then some rest.dropLast else none
  | _ => none

/-- Reads an operand as written. What is no truth value, number or quoted text is the name
of a variable. -/
def read (token : String) : Operand :=
  let cs := Text.trim token.toList
  if cs = "true".toList then .flag true
  else if cs = "false".toList then .flag false
  else match unquote? cs with
    | some inside => .text (String.ofList inside)
    | none => match Decimal.readLiteral? cs with
      | some d => .number d.toBinary64
      | none => .name (String.ofList cs)

/-- Boolean reading of a value: a number is true unless it is zero, a text unless it is
empty. A name has none of its own. -/
def truth? : Operand → Option Bool
  | number n => some !n.isZero
  | flag b => some b
  | text s => some (s != "")
  | name _ => none

/-- Numbers are written positionally with the fewest digits that read back, ties upwards.
A whole number below `10 ^ 15` has no sign on zero. -/
def numberText (n : Decimal.Binary64) : String :=
  match n.decoded with
  | .nan => "NaN"
  | .infinite negative => if negative then "-inf" else "inf"
  | .finite negative mantissa exponent edge =>
    if mantissa = 0 then "0"
    else
      let (ds, e) := Decimal.shortest .up mantissa exponent edge
      let body := Decimal.positional (Decimal.digits ds) e
      String.ofList (if negative then '-' :: body else body)

def display : Operand → String
  | number n => numberText n
  | flag b => if b then "true" else "false"
  | text s => s
  | name ident => ident

/-- Equality within a type; operands of different types are never equal. -/
def equals : Operand → Operand → Bool
  | number a, number b => a.equals b
  | flag a, flag b => a == b
  | text a, text b => a == b
  | _, _ => false

end Operand

/-! ## Variable bindings

The bindings of one document, newest first. A name may be bound to another name; such
links are followed on reading, so a name can be bound before the one it refers to. At most
`hopLimit` links are followed, which makes a loop of names read as unbound.
-/


abbrev Bindings := List (String × Operand)

namespace Bindings

/-- The number of operands looked at before a chain of names counts as unbound. -/
def hopLimit : Nat := 32

/-- Binds a name, hiding an earlier binding of it. -/
def declare (b : Bindings) (name : String) (value : Operand) : Bindings :=
  (name, value) :: b

/-- What a name is bound to, before any link is followed. -/
def bound? (b : Bindings) (name : String) : Option Operand :=
  b.lookup name

/-- Follows links from an operand, looking at no more than `hops` operands. -/
def follow (b : Bindings) : Nat → Operand → Option Operand
  | 0, _ => none
  | hops + 1, .name next => (b.bound? next).bind (b.follow hops)
  | _ + 1, value => some value

/-- The value of a name, or nothing when it, or a name it links to, is unbound. -/
def get? (b : Bindings) (name : String) : Option Operand :=
  (b.bound? name).bind (b.follow hopLimit)

/-- A value stands for itself, a variable for what its name is bound to. -/
def resolve? (b : Bindings) : Operand → Option Operand
  | .name name => b.get? name
  | value => some value

def truth? (b : Bindings) (operand : Operand) : Option Bool :=
  (b.resolve? operand).bind Operand.truth?

/-- Equality of two operands, undecided unless both have values. -/
def equals? (b : Bindings) (left right : Operand) : Option Bool :=
  (b.resolve? left).bind fun l => (b.resolve? right).map fun r => l.equals r

@[simp] theorem bound?_declare_self (b : Bindings) (name : String) (v : Operand) :
    (b.declare name v).bound? name = some v := by
  simp [declare, bound?]

theorem bound?_declare_ne (b : Bindings) {name other : String} (v : Operand) (h : other ≠ name) :
    (b.declare name v).bound? other = b.bound? other := by
  have : (other == name) = false := by simpa using h
  simp [declare, bound?, List.lookup_cons, this]

end Bindings

end AssetCompiler
