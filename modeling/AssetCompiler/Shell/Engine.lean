import AssetCompiler.Process.Lookup
import AssetCompiler.Shell.Builtin.Kill
import AssetCompiler.Shell.Reader
import AssetCompiler.Shell.Redirect

/-! # Running commands in processes

A shell runs commands in processes of their own and programs in others. A process starts with
what its parent has, and of what it does only the files, the channels and its status are left.
-/
namespace AssetCompiler.Shell

structure Flags where
  /-- Its status is looked at, so that a failure is no reason to leave. -/
  isTested : Bool := false
  /-- Nothing is run after it, so that a program can take the place of the shell. -/
  isLast : Bool := false

structure Engine where
  run : Flags → Command → Act Nat
  programs : Programs

namespace Engine

/-- Reads the next command of a script and keeps its documents. -/
def nextCommand (s : Source) : Act (Option (Option Command) × Source) := do
  let (result, s) := { s with documents := [], next := (← get).nextDocument }.command
  modify fun t => { t with documents := s.documents ++ t.documents, nextDocument := s.next }
  match result with
  | .ok c => return (c, s)
  | .error reason =>
    modify fun t => { t with line := s.line }
    Act.fail ("Syntax error: ".toList ++ reason.toList)

/-- Runs the commands of a text; the number bounds how many there are. -/
def runFrom (e : Engine) (f : Flags) : Nat → Nat → Source → Act Nat
  | 0, status, _ => return status
  | n + 1, status, s => do
    match ← nextCommand s with
    | (none, _) => return status
    | (some none, s) => e.runFrom f n status s
    | (some (some c), s) =>
      let status ← e.run { f with isLast := f.isLast && s.isAtEnd } c
      if (← get).skip != .nothing then return status
      e.runFrom f n status s

def runText (e : Engine) (f : Flags) (text : Octets) : Act Nat :=
  e.runFrom f (text.length + 2) 0 { rest := text }

/-- Ends a process: what is to be done at the end is done. -/
def depart (e : Engine) (status : Nat) (s : State) : Status × Machine :=
  match s.traps.lookup 0 with
  | none => (.exited (status % 256), s.machine)
  | some text =>
    let traps := s.traps.filter fun t => t.1 != 0
    match (e.runText {} text).run.run { s with traps, status, skip := .nothing } with
    | (.ok _, s) => (.exited (status % 256), s.machine)
    | (.error (.killed n), s) => (.killed n, s.machine)
    | (.error _, s) => (.exited (s.status % 256), s.machine)

/-- Takes an action to the end of its process. -/
def conclude (e : Engine) (act : Act Nat) (s : State) : Status × Machine :=
  match act.run.run s with
  | (.ok status, s) => e.depart status s
  | (.error (.killed n), s) => (.killed n, s.machine)
  | (.error _, s) => e.depart s.status s

def fork (e : Engine) (act : Act Nat) : Act Status := do
  Act.flush
  let s ← get
  let (status, machine) := s.machine.spawn fun machine =>
    e.conclude act { s with
      machine
      traps := s.traps.filter fun t => t.2 = []
      jobs := [] }
  set { s with machine }
  return status

/-- Reports a process that was killed, unless that is nothing unusual. -/
def report (status : Status) : Act Nat := do
  match status with
  | .killed n => if n ≠ 2 && n ≠ 13 then Act.tell 2 ((Signal.describe n).toList ++ ['\n'])
  | .exited _ => pure ()
  return status.code

/-- Whether the process has something to do when it ends or is sent a signal. -/
def isAttended : Act Bool := do return !(← get).traps.isEmpty

/-- Runs a program under a name, in place of the shell if nothing is run after it. -/
def launch (f : Flags) (p : Program) (name : Octets) (args : List Octets) : Act Nat := do
  Act.flush
  let s ← get
  let run (machine : Machine) : Status × Machine :=
    p args s.descriptors { machine with called := name, environment := s.environment }
  if f.isLast && !(← isAttended) then
    let (status, machine) := run s.machine
    set { s with machine, status := status.code }
    match status with
    | .exited _ => throw .left
    | .killed n => throw (.killed n)
  else
    let (status, machine) := s.machine.spawn run
    set { s with machine }
    report status

def output (e : Engine) : Act.Runner
  | none => return []
  | some c => do
    let (channel, machine) := (← get).machine.attach (.outlet [])
    modify fun s => { s with machine }
    let status ← e.fork do
      Act.lead 1 channel
      e.run { isLast := true } c
    let status ← report status
    modify fun s => { s with outputStatus := status }
    return ((← get).machine.collected channel).filter (· != '\x00')

/-- Runs commands that are joined by pipes, one after another, and gives how they ended. -/
def stages (e : Engine) (f : Flags) : Option Nat → List Command → Act (List Status)
  | _, [] => return []
  | input?, c :: rest => do
    let outlet? ← match rest with
      | [] => pure none
      | _ => do
        let (channel, machine) := (← get).machine.attach (.outlet [])
        modify fun s => { s with machine }
        pure (some channel)
    let status ← e.fork do
      if let some channel := input? then Act.lead 0 channel
      if let some channel := outlet? then Act.lead 1 channel
      e.run { f with isLast := true } c
    let input? ← match outlet? with
      | none => pure none
      | some channel => do
        let s ← get
        let (channel, machine) := s.machine.attach (.intake (s.machine.collected channel))
        set { s with machine }
        pure (some channel)
    return status :: (← stages e f input? rest)

/-- Remembers a process that is not waited for. -/
def addJob (number : Nat) (status : Status) : Act Unit :=
  modify fun s => { s with background? := some number, jobs := (number, status.code) :: s.jobs }

/-- Does what signals that have come ask for. -/
def attend (e : Engine) : Act Unit := do
  let limit := (← get).machine.signals.length
  let actions ← Builtin.waiting limit
  actions.forM fun text => do
    let status := (← get).status
    let _ ← e.runText {} text
    if (← get).skip == .nothing then Act.setStatus status

end Engine

end AssetCompiler.Shell
