import AssetCompiler.Process.Program
import AssetCompiler.Shell.State

/-! # Testing conditions

A condition is made of tests on texts, numbers and files. Few arguments are understood by their
number, more of them by the strength of operators.
-/
namespace AssetCompiler.Shell.Builtin

inductive Arity where
  | one
  | two
  | not
  | and
  | or
  | opening
  | closing
  deriving DecidableEq, Repr

namespace Condition

def arity? (s : Octets) : Option Arity :=
  let text := String.ofList s
  if ["=", "!=", "<", ">", "-eq", "-ne", "-ge", "-gt", "-le", "-lt", "-nt", "-ot", "-ef"].contains
    text then some .two
  else if ("rwxefdcbpugkstznhLOGS".toList.map fun c => String.ofList ['-', c]).contains text then
    some .one
  else ([("!", .not), ("-a", .and), ("-o", .or), ("(", .opening), (")", .closing)].lookup text)

/-- Whether what begins like a test of one operand is an operand itself. -/
def isOperand (behind : List Octets) : Bool :=
  match behind with
  | [] => true
  | [_] => false
  | s :: _ => arity? s == some .two

/-- What stands at the front of arguments; there is nothing at the end. -/
inductive Front where
  | ending
  | operand
  | operator (a : Arity)
  deriving DecidableEq, Repr

def front (args : List Octets) : Front :=
  match args with
  | [] => .ending
  | s :: behind =>
    match arity? s with
    | some .one => if isOperand behind then .operand else .operator .one
    | some .opening => if behind.isEmpty then .operand else .operator .opening
    | some a => .operator a
    | none => .operand

def malformed {α : Type} (op : Octets) (reason : String) : Act α :=
  Act.fail (if op = [] then reason.toList else op ++ ": ".toList ++ reason.toList)

def numberOf (s : Octets) : Act Int := do
  match Number.whole? false s with
  | some i => return i
  | none => Act.illegalNumber s

/-- The names of devices that can always be opened. -/
def devices : List String := ["/dev/null", "/dev/zero"]

def entry? (name : Octets) : Act (Option Entry) := do
  let found := (← get).machine.disk.files.find (Program.pathOf name)
  return found.toOption.map Prod.snd

def unary (op : Char) (s : Octets) : Act Bool := do
  let isDevice := devices.contains (Octets.toText s)
  let e? ← entry? s
  let isFile := match e? with
    | some (.file _) => true
    | _ => false
  let isDirectory := match e? with
    | some (.directory _) => true
    | _ => false
  match op with
  | 'z' => return s.isEmpty
  | 'n' => return !s.isEmpty
  | 't' => do
    let _ ← numberOf s
    return false
  | 'e' | 'r' | 'w' | 'O' | 'G' => return isDevice || e?.isSome
  | 'f' => return isFile
  | 'd' | 'x' => return isDirectory
  | 'c' => return isDevice
  | 's' =>
    return match e? with
      | some (.file f) => f.bytes.size != 0
      | some (.directory _) => true
      | none => false
  | _ => return false

def times? (a b : Octets) : Act (Option (Nat × Nat)) := do
  return match ← entry? a, ← entry? b with
    | some e, some f => some (e.modified, f.modified)
    | _, _ => none

def place? (name : Octets) : Act (Option Location) := do
  let found := (← get).machine.disk.files.find (Program.pathOf name)
  return found.toOption.map Prod.fst

def isBefore : Octets → Octets → Bool
  | _, [] => false
  | [], _ :: _ => true
  | c :: cs, d :: ds => c < d || (c == d && isBefore cs ds)

def binary (op : String) (a b : Octets) : Act Bool := do
  let numbers (f : Int → Int → Bool) : Act Bool := do return f (← numberOf a) (← numberOf b)
  match op with
  | "=" => return a == b
  | "!=" => return a != b
  | "<" => return isBefore a b
  | ">" => return isBefore b a
  | "-eq" => numbers (· == ·)
  | "-ne" => numbers (· != ·)
  | "-ge" => numbers fun i j => j ≤ i
  | "-gt" => numbers fun i j => j < i
  | "-le" => numbers fun i j => i ≤ j
  | "-lt" => numbers fun i j => i < j
  | "-nt" => return (← times? a b).any fun t => t.2 < t.1
  | "-ot" => return (← times? a b).any fun t => t.1 < t.2
  | _ => return match ← place? a, ← place? b with
      | some l, some m => l == m
      | _, _ => false

mutual
/-- Answers alternatives; gives what stands behind the last argument that was used, that
argument in front. -/
def alternatives : Nat → Front → List Octets → Act (Bool × List Octets)
  | 0, _, args => return (false, args)
  | n + 1, f, args => do
    let (a, args) ← conjuncts n f args
    if front (args.drop 1) == .operator .or then
      let rest := args.drop 2
      let (b, args) ← alternatives n (front rest) rest
      return (a || b, args)
    else return (a, args)

def conjuncts : Nat → Front → List Octets → Act (Bool × List Octets)
  | 0, _, args => return (false, args)
  | n + 1, f, args => do
    let (a, args) ← negations n f args
    if front (args.drop 1) == .operator .and then
      let rest := args.drop 2
      let (b, args) ← conjuncts n (front rest) rest
      return (a && b, args)
    else return (a, args)

def negations : Nat → Front → List Octets → Act (Bool × List Octets)
  | 0, _, args => return (false, args)
  | n + 1, f, args => do
    if f == .operator .not then
      let f := front (args.drop 1)
      let (a, args) ← negations n f (if f == .ending then args else args.drop 1)
      return (!a, args)
    else primary n f args

def primary : Nat → Front → List Octets → Act (Bool × List Octets)
  | 0, _, args => return (false, args)
  | n + 1, f, args => do
    match f, args with
    | .ending, _ => return (false, args)
    | .operator .opening, _ =>
      let inside := args.drop 1
      let f := front inside
      if f == .operator .closing then return (false, inside)
      let (a, args) ← alternatives n f inside
      let rest := args.drop 1
      if front rest != .operator .closing then malformed [] "closing paren expected"
      return (a, rest)
    | .operator .one, op :: rest =>
      match rest with
      | [] => malformed op "argument expected"
      | s :: _ => return (← unary ((op.drop 1).headD 'n') s, rest)
    | _, a :: rest =>
      if front rest == .operator .two then
        match rest with
        | op :: b :: behind => return (← binary (String.ofList op) a b, b :: behind)
        | op :: [] => malformed op "argument expected"
        | [] => return (false, args)
      else return (!a.isEmpty, args)
    | _, [] => return (false, [])
end

def answer (f : Front) (args : List Octets) : Act Bool := do
  let (a, args) ← alternatives (4 * args.length + 5) f args
  match args with
  | last :: _ :: _ => malformed last "unexpected operator"
  | _ => return a

/-- The answer of all arguments; the number bounds how many there are. -/
def answerAll : Nat → List Octets → Act Bool
  | 0, _ => return false
  | n + 1, args => do
    let isBinary := args.length == 3 && (args[1]?.bind arity?) == some .two
    if args.isEmpty then return false
    else if isBinary then answer .operand args
    else if (args.length == 3 || args.length == 4) && args.head? == some ['('] &&
        args.getLast? == some [')'] then
      let inside := (args.drop 1).dropLast
      answer (front inside) inside
    else if (args.length == 3 || args.length == 4) && args.head? == some ['!'] then
      return !(← answerAll n (args.drop 1))
    else answer (front args) args

end Condition

def test (args : List Octets) : Act Nat := do
  return if ← Condition.answerAll (args.length + 1) args then 0 else 1

def bracket (args : List Octets) : Act Nat := do
  if args.getLast? == some [']'] then test args.dropLast else Act.fail "missing ]".toList

end AssetCompiler.Shell.Builtin
