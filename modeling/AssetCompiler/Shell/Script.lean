import AssetCompiler.Process.Concatenate
import AssetCompiler.Process.Copy
import AssetCompiler.Process.Exchange.Run
import AssetCompiler.Process.Head
import AssetCompiler.Shell.Evaluate

/-! # Running scripts

A shell runs the text of an argument, a file or its input. The programs are those that can be
run by name, the shell among them.
-/
namespace AssetCompiler.Shell

inductive Script where
  | text (o : Octets)
  | file (name : Octets)
  | input
  deriving DecidableEq, Repr

namespace Engine

/-- How much of the input is taken at a time. -/
def blockSize : Nat := 8192

/-- Takes input until enough of it is there; the number bounds how often. -/
def refill (needed : Nat) : Nat → Octets → Act Octets
  | 0, buffer => return buffer
  | n + 1, buffer => do
    if needed ≤ buffer.length then return buffer
    let s ← get
    match s.machine.readFrom s.descriptors 0 (some blockSize) with
    | .ok (o, machine) =>
      if o = [] then return buffer
      set { s with machine }
      refill needed n (buffer ++ o.filter (· != '\x00'))
    | .error _ => return buffer

/-- Shows what is read, if that is asked for. -/
def showInput (o : Octets) : Act Unit := do
  if (← get).hasOption 'v' then Act.tell 2 o

/-- Runs the commands of the input. What was taken of it but is no command yet is kept. -/
def runInput (e : Engine) : Nat → Octets → Nat → Act Nat
  | 0, _, _ => return (← get).status
  | n + 1, buffer, line => do
    let s ← get
    let ahead := match s.machine.readFrom s.descriptors 0 none with
      | .ok (o, _) => o.filter (· != '\x00')
      | .error _ => []
    let text := buffer ++ ahead
    let (c?, source) ← nextCommand { rest := text, line }
    let passed := text.length - source.rest.length
    let buffer ← refill passed (passed + 1) buffer
    showInput (text.take passed)
    match c? with
    | none => return (← get).status
    | some c =>
      if let some c := c then
        let _ ← e.run {} c
      if (← get).skip != .nothing then return (← get).status
      e.runInput n (buffer.drop passed) source.line

def runFile (e : Engine) : Nat → Source → Act Nat
  | 0, _ => return (← get).status
  | n + 1, source => do
    let (c?, after) ← nextCommand source
    showInput (source.rest.take (source.rest.length - after.rest.length))
    match c? with
    | none => return (← get).status
    | some c =>
      if let some c := c then
        let _ ← e.run {} c
      if (← get).skip != .nothing then return (← get).status
      e.runFile n after

def runScript (e : Engine) : Script → Act Nat
  | .text o => do
    let reads := (← get).hasOption 's'
    let status ← e.runText { isLast := !reads } o
    if reads then e.runInput loopLimit [] 1 else return status
  | .input => do
    modify fun s => s.setOption 's' true
    e.runInput loopLimit [] 1
  | .file name => do
    let s ← get
    match s.machine.openPath s.descriptors (Program.pathOf name) .read with
    | .error err =>
      Act.fail ("cannot open ".toList ++ name ++ ": ".toList ++ Act.openingFault false err)
    | .ok (channel, machine) =>
      set { s with machine, name }
      let text := match machine.read channel none with
        | .ok (o, _) => o.filter (· != '\x00')
        | .error _ => []
      e.runFile (text.length + 2) { rest := text }

/-- Takes the options in front of a shell's arguments; tells whether one announces a text. -/
def takeOptions : Nat → Bool → List Octets → Act (Bool × List Octets)
  | 0, hasText, args => return (hasText, args)
  | _, hasText, [] => return (hasText, [])
  | n + 1, hasText, arg :: rest => do
    match arg with
    | ['-'] | ['-', '-'] => return (hasText, rest)
    | sign :: cs =>
      if sign = '-' || sign = '+' then
        let letters := cs.filter fun c => c != 'c' && c != 'l'
        let rest ← Act.setLetters (sign == '-') letters rest
        takeOptions n (hasText || cs.contains 'c') rest
      else return (hasText, arg :: rest)
    | [] => return (hasText, arg :: rest)

/-- The script that arguments ask for; names and parameters are set. -/
def takeArguments (args : List Octets) : Act Script := do
  let (hasText, rest) ← takeOptions (args.length + 1) false args
  match hasText, rest with
  | true, [] => Act.fail "-c requires an argument".toList
  | true, [text] => return .text text
  | true, text :: name :: parameters =>
    modify fun s => { s with name, parameters }
    return .text text
  | false, [] => return .input
  | false, name :: more =>
    if (← get).hasOption 's' then
      modify fun s => { s with parameters := name :: more }
      return .input
    else
      modify fun s => { s with parameters := more }
      return .file name

def fresh (ds : Descriptors) (m : Machine) : State :=
  let given := m.environment.map fun (name, value) =>
    (name, ({ value? := some value, isExported := true } : Variable))
  let known (name : String) (value : Octets) (v : List (Octets × Variable)) :
      List (Octets × Variable) :=
    (name.toList, ({ value? := some value } : Variable)) :: v.filter fun w => w.1 != name.toList
  let home := Octets.ofString (Tree.pathOf m.disk.files.home).text
  let bindings := given.filter fun v => isName v.1
  let bindings :=
    if (bindings.lookup "PATH".toList).isSome then bindings
    else known "PATH" Programs.defaultFolders.toList bindings
  { machine := m
    descriptors := ds
    name := m.called
    bindings := known "IFS" Cell.blanks <| known "OPTIND" ['1'] <| known "PWD" home <|
      known "PPID" (Octets.ofNat m.parent) <| known "PS1" ['#', ' '] <|
      known "PS2" ['>', ' '] <| known "PS4" ['+', ' '] bindings
    line := 0
    mainProcess := m.process }

def shell (e : Engine) : Program := fun args ds m =>
  e.conclude (do e.runScript (← takeArguments args)) (fresh ds m)

def basicPrograms : Programs := [
  ("cat", Concatenate.run), ("cp", Copy.run), ("echo", Echo.run), ("false", Program.decline),
  ("head", Head.run), ("tr", Exchange.run), ("true", Program.succeed)]

/-- An engine for commands that stand so deep in each other. What stands deeper ends like a
process that has no room left. -/
def ofDepth : Nat → Engine
  | 0 => { run := fun _ _ => throw (.killed 11), programs := basicPrograms }
  | n + 1 =>
    let e := ofDepth n
    { run := e.runCommand, programs := ("sh", e.shell) :: basicPrograms }

def depth : Nat := 1000

end Engine

def programs : Programs := (Engine.ofDepth Engine.depth).programs

end AssetCompiler.Shell
