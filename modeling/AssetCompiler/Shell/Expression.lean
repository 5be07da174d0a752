import AssetCompiler.Shell.Number
import AssetCompiler.Shell.Command

/-! # Expressions of scripts

An expression is made of numbers and variables by operators of twelve strengths. It is read as
a whole before anything of it is computed.
-/
namespace AssetCompiler.Shell

inductive ExpressionToken where
  | number (i : Int)
  | name (s : Octets)
  | operator (s : String)
  | unknown
  deriving DecidableEq, Repr

inductive Expression where
  | number (i : Int)
  | name (s : Octets)
  | negated (e : Expression)
  | inverted (e : Expression)
  | not (e : Expression)
  | binary (op : String) (a b : Expression)
  | both (a b : Expression)
  | either (a b : Expression)
  | choice (test yes no : Expression)
  /-- A value is given to a variable, perhaps together with the one it has. -/
  | assign (name : Octets) (op : Option String) (e : Expression)
  deriving Repr

namespace Expression

/-- The signs of operators, longer ones before those that begin them. -/
def signs : List String :=
  ["<<=", ">>=", "<<", ">>", "<=", ">=", "==", "!=", "&&", "||", "+=", "-=", "*=", "/=", "%=",
    "&=", "|=", "^=", "(", ")", "?", ":", "<", ">", "+", "-", "*", "/", "%", "&", "|", "^", "!",
    "~", "="]

/-- One token and how long it is. -/
def token (cs : Octets) : ExpressionToken × Nat :=
  match Number.unsigned? true cs with
  | some (n, rest) => (.number (min n (2 ^ 63 - 1) : Nat), cs.length - rest.length)
  | none =>
    let name := cs.takeWhile isNameChar
    if name ≠ [] then (.name name, name.length)
    else match signs.find? fun s => s.toList.isPrefixOf cs with
      | some s => (.operator s, s.length)
      | none => (.unknown, 1)

/-- The tokens of a text; the number bounds how many there are. -/
def tokens : Nat → Octets → List ExpressionToken
  | 0, _ => []
  | n + 1, cs =>
    let cs := cs.dropWhile fun c => c == ' ' || c == '\t' || c == '\n'
    if cs = [] then []
    else
      let (t, length) := token cs
      t :: tokens n (cs.drop length)

/-- The strength of an operator with two sides; lower ones bind closer. -/
def strength? (op : String) : Option Nat :=
  [("*", 0), ("/", 0), ("%", 0), ("+", 1), ("-", 1), ("<<", 2), (">>", 2), ("<", 3), ("<=", 3),
    (">", 3), (">=", 3), ("==", 4), ("!=", 4), ("&", 5), ("^", 6), ("|", 7)].lookup op

/-- The operator that an assignment takes together with the old value. -/
def assignment? (op : String) : Option (Option String) :=
  if op = "=" then some none
  else if ["<<=", ">>=", "+=", "-=", "*=", "/=", "%=", "&=", "|=", "^="].contains op then
    some (some (String.ofList op.toList.dropLast))
  else none

abbrev Parse := Except String (Expression × List ExpressionToken)

/-- Reads operators of one strength from left to right behind a first side. -/
def chain (accepts : String → Bool) (make : String → Expression → Expression → Expression)
    (side : List ExpressionToken → Parse) : Nat → Expression → List ExpressionToken → Parse
  | 0, a, ts => .ok (a, ts)
  | n + 1, a, ts =>
    match ts with
    | .operator op :: rest =>
      if accepts op then do
        let (b, rest) ← side rest
        chain accepts make side n (make op a b) rest
      else .ok (a, ts)
    | _ => .ok (a, ts)

/-- Reads an expression without parentheses around it but perhaps with a sign. -/
def primary (whole : List ExpressionToken → Parse) : List ExpressionToken → Parse
  | [] => .error "expecting primary"
  | t :: ts =>
    match t with
    | .number i => .ok (number i, ts)
    | .name s => .ok (name s, ts)
    | .operator "(" => do
      let (e, rest) ← whole ts
      match rest with
      | .operator ")" :: rest => .ok (e, rest)
      | _ => .error "expecting ')'"
    | .operator "+" => primary whole ts
    | .operator "-" => (primary whole ts).map fun (e, ts) => (negated e, ts)
    | .operator "!" => (primary whole ts).map fun (e, ts) => (not e, ts)
    | .operator "~" => (primary whole ts).map fun (e, ts) => (inverted e, ts)
    | _ => .error "expecting primary"

def binaries (whole : List ExpressionToken → Parse) : Nat → List ExpressionToken → Parse
  | 0, ts => do
    let (a, rest) ← primary whole ts
    chain (fun op => strength? op == some 0) binary (primary whole) ts.length a rest
  | n + 1, ts => do
    let (a, rest) ← binaries whole n ts
    chain (fun op => strength? op == some (n + 1)) binary (binaries whole n) ts.length a rest

def conjunction (whole : List ExpressionToken → Parse) (ts : List ExpressionToken) : Parse := do
  let (a, rest) ← binaries whole 7 ts
  chain (· == "&&") (fun _ => both) (binaries whole 7) ts.length a rest

def disjunction (whole : List ExpressionToken → Parse) (ts : List ExpressionToken) : Parse := do
  let (a, rest) ← conjunction whole ts
  chain (· == "||") (fun _ => either) (conjunction whole) ts.length a rest

/-- Reads a choice between two expressions; the number bounds how many stand in each other. -/
def chosen (whole : List ExpressionToken → Parse) : Nat → List ExpressionToken → Parse
  | 0, _ => .error "expecting primary"
  | n + 1, ts => do
    let (test, rest) ← disjunction whole ts
    match rest with
    | .operator "?" :: rest => do
      let (yes, rest) ← whole rest
      match rest with
      | .operator ":" :: rest => do
        let (no, rest) ← chosen whole n rest
        .ok (choice test yes no, rest)
      | _ => .error "expecting ':'"
    | _ => .ok (test, rest)

/-- Reads an expression; the number bounds how deep it is. -/
def full : Nat → List ExpressionToken → Parse
  | 0, _ => .error "expecting primary"
  | n + 1, ts =>
    let other := chosen (full n) (ts.length + 1) ts
    match ts with
    | .name s :: .operator op :: rest =>
      match assignment? op with
      | some op => (full n rest).map fun (e, ts) => (assign s op e, ts)
      | none => other
    | _ => other

def read (text : Octets) : Except String Expression := do
  let ts := tokens (text.length + 1) text
  let (e, rest) ← full (ts.length + 1) ts
  if rest.isEmpty then .ok e else .error "expecting EOF"

/-- The value of an operator with two sides; there is none for a division by zero. -/
def compute? (op : String) (a b : Int) : Option Int :=
  let truth (t : Bool) : Option Int := some (if t then 1 else 0)
  let bits (f : BitVec 64 → BitVec 64 → BitVec 64) : Option Int :=
    some (f (.ofInt 64 a) (.ofInt 64 b)).toInt
  match op with
  | "*" => some (Number.wrap (a * b))
  | "/" => if b = 0 then none else some (Number.wrap (a.tdiv b))
  | "%" => if b = 0 then none else some (a.tmod b)
  | "+" => some (Number.wrap (a + b))
  | "-" => some (Number.wrap (a - b))
  | "<<" => bits fun x y => x <<< (y.toNat % 64)
  | ">>" => bits fun x y => x.sshiftRight (y.toNat % 64)
  | "<" => truth (a < b)
  | "<=" => truth (a ≤ b)
  | ">" => truth (b < a)
  | ">=" => truth (b ≤ a)
  | "==" => truth (a == b)
  | "!=" => truth (a != b)
  | "&" => bits (· &&& ·)
  | "^" => bits (· ^^^ ·)
  | "|" => bits (· ||| ·)
  | _ => none

end Expression

end AssetCompiler.Shell
