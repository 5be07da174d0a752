import AssetCompiler.Process.Machine
import AssetCompiler.Shell.Command
import AssetCompiler.Shell.Number

/-! # What a shell remembers

A shell has variables, parameters, functions and options, the descriptors it gives to what it
starts, and the status of the last command. An action can end early: the shell is left, fails
or is killed.
-/
namespace AssetCompiler.Shell

structure Variable where
  /-- A variable can have marks before it has a value. -/
  value? : Option Octets := none
  isExported : Bool := false
  isReadOnly : Bool := false
  deriving Inhabited

inductive Skip where
  | nothing
  /-- So many loops are ended, or begun anew at last. -/
  | loops (levels : Nat) (continues : Bool)
  /-- The function or file is ended. -/
  | body
  deriving DecidableEq, Inhabited, Repr

/-- Where the reading of options has come to: the number of the next argument, and the next
letter of the one before it, if letters of it are left. -/
structure OptionPlace where
  index : Nat := 1
  letter? : Option Nat := none
  deriving Inhabited

structure State where
  machine : Machine
  descriptors : Descriptors
  /-- The name in complaints. -/
  name : Octets
  parameters : List Octets := []
  bindings : List (Octets × Variable) := []
  functions : List (Octets × Command) := []
  documents : List (Nat × Word) := []
  nextDocument : Nat := 0
  options : List Char := []
  status : Nat := 0
  /-- The status of the last substitution in a command. -/
  outputStatus : Nat := 0
  line : Nat := 1
  /-- The command that complains. -/
  command? : Option Octets := none
  skip : Skip := .nothing
  loops : Nat := 0
  calls : Nat := 0
  /-- The number that the shell shows for itself. -/
  mainProcess : Nat
  background? : Option Nat := none
  jobs : List (Nat × Nat) := []
  /-- What is done at the end, under the number zero, and for signals. -/
  traps : List (Nat × Octets) := []
  /-- What functions have to bring back: the variables as they were. -/
  saved : List (List (Octets × Option Variable)) := []
  optionPlace : OptionPlace := {}
  /-- What a command of the shell has written so far. -/
  output : Octets := []
  outputFailed : Bool := false
  mask : Nat := 18

inductive Halt where
  /-- The shell ends with its status. -/
  | left
  /-- The shell ends because of an error, unless a command confines it. -/
  | failed
  | killed (signal : Nat)
  deriving DecidableEq, Repr

abbrev Act := ExceptT Halt (StateM State)

namespace State

def binding? (s : State) (name : Octets) : Option Variable := s.bindings.lookup name

def value? (s : State) (name : Octets) : Option Octets := (s.binding? name).bind Variable.value?

def valueOf (s : State) (name : String) : Octets := (s.value? name.toList).getD []

def putVariable (s : State) (name : Octets) (v : Option Variable) : State :=
  let others := s.bindings.filter fun w => w.1 != name
  { s with bindings := (v.map fun v => (name, v)).toList ++ others }

def hasOption (s : State) (c : Char) : Bool := s.options.contains c

def setOption (s : State) (c : Char) (on : Bool) : State :=
  let others := s.options.filter (· != c)
  { s with options := if on then c :: others else others }

def environment (s : State) : List (Octets × Octets) :=
  s.bindings.filterMap fun (name, v) => if v.isExported then v.value?.map (name, ·) else none

end State

namespace Act

def setStatus (n : Nat) : Act Unit := modify fun s => { s with status := n }

/-- Writes to a descriptor what may be lost. -/
def tell (fd : Nat) (o : Octets) : Act Unit :=
  modify fun s => { s with machine := s.machine.tell s.descriptors fd o }

def complain (text : Octets) : Act Unit := do
  let s ← get
  let command := (s.command?.map fun c => c ++ ": ".toList).getD []
  tell 2 (s.name ++ ": ".toList ++ Octets.ofNat s.line ++ ": ".toList ++ command ++ text ++ ['\n'])

def flush : Act Unit :=
  modify fun s =>
    if s.output = [] then s
    else match s.machine.writeTo s.descriptors 1 s.output with
      | .ok machine => { s with machine, output := [] }
      | .error _ => { s with output := [], outputFailed := true }

/-- Writes to the output, which is passed on when the command ends. -/
def print (o : Octets) : Act Unit := modify fun s => { s with output := s.output ++ o }

def fail {α : Type} (text : Octets) : Act α := do
  setStatus 2
  complain text
  flush
  throw .failed

/-- Ends the shell with a complaint. -/
def quit {α : Type} (status : Nat) (text : Octets) : Act α := do
  setStatus status
  complain text
  flush
  throw .left

def assign (name value : Octets) : Act Unit := do
  let s ← get
  let v := (s.binding? name).getD {}
  if v.isReadOnly then fail (name ++ ": is read only".toList)
  let isExported := v.isExported || s.hasOption 'a'
  set (s.putVariable name (some { v with value? := some value, isExported }))
  if name = "OPTIND".toList then
    let index := max 1 ((Number.whole? false value).getD 1).toNat
    modify fun s => { s with optionPlace := { index } }

def unset (name : Octets) : Act Unit := do
  let s ← get
  if ((s.binding? name).getD {}).isReadOnly then fail (name ++ ": is read only".toList)
  set (s.putVariable name none)

def mark (name : Octets) (change : Variable → Variable) : Act Unit :=
  modify fun s => s.putVariable name (some (change ((s.binding? name).getD {})))

def illegalNumber {α : Type} (text : Octets) : Act α := fail ("Illegal number: ".toList ++ text)

/-- Reads a number that is not negative. -/
def number (text : Octets) : Act Nat :=
  match Number.whole? false text with
  | some i => if 0 ≤ i && i < 2 ^ 31 then return i.toNat else illegalNumber text
  | none => illegalNumber text

/-- Restores a part of the state after an action, however it ends. -/
def ensuring {α : Type} (act : Act α) (restore : State → State) : Act α := fun s =>
  let (result, s) := act.run.run s
  (result, restore s)

end Act

end AssetCompiler.Shell
