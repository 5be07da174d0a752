import AssetCompiler.Shell.Builtin.Directory
import AssetCompiler.Shell.Builtin.Format
import AssetCompiler.Shell.Builtin.Read
import AssetCompiler.Shell.Builtin.Test
import AssetCompiler.Shell.Builtin.Variables
import AssetCompiler.Shell.Engine

/-! # The shell's own commands

Some commands of a shell belong to its language: their failure ends the shell, and assignments
in front of them stay. The others run like programs, but in the shell itself.
-/
namespace AssetCompiler.Shell

structure Builtin where
  isSpecial : Bool := false
  /-- Whether arguments can be assignments. -/
  assigns : Bool := false
  run : List Octets → Act Nat

namespace Builtin

def succeed (_ : List Octets) : Act Nat := return 0

def decline (_ : List Octets) : Act Nat := return 1

def exit (args : List Octets) : Act Nat := do
  if let arg :: _ := args then Act.setStatus (← Act.number arg)
  throw .left

/-- Ends loops or begins them anew. -/
def leaveLoops (continues : Bool) (args : List Octets) : Act Nat := do
  let n ← match args with
    | [] => pure 1
    | arg :: _ => do
      let n ← Act.number arg
      if n = 0 then Act.illegalNumber arg else pure n
  modify fun s =>
    let n := min n s.loops
    if n = 0 then s else { s with skip := .loops n continues }
  return 0

def leaveBody (args : List Octets) : Act Nat := do
  let status ← match args with
    | [] => pure (← get).status
    | arg :: _ => Act.number arg
  modify fun s => { s with skip := .body }
  return status

/-- Shows what is done for signals, or sets it. -/
def trap (args : List Octets) : Act Nat := do
  let (_, args) ← letters [] args
  match args with
  | [] =>
    let traps := (← get).traps.mergeSort fun t u => t.1 ≤ u.1
    traps.forM fun (n, text) =>
      Act.print ("trap -- ".toList ++ requoted text ++ ' ' :: (signalName n).toList ++ ['\n'])
    return 0
  | first :: rest =>
    let isNumber := first ≠ [] && first.all Char.isDigit && (signal? 0 first).isSome
    let (action?, names) := if rest.isEmpty || isNumber then (none, first :: rest)
      else if first = ['-'] then (none, rest) else (some first, rest)
    setAll action? names
where
  /-- Sets what is done for signals, up to one that there is not. -/
  setAll (action? : Option Octets) : List Octets → Act Nat
    | [] => return 0
    | name :: names => do
      match signal? 0 name with
      | none =>
        Act.tell 2 ("trap: ".toList ++ name ++ ": bad trap\n".toList)
        return 1
      | some n =>
        modify fun s =>
          let others := s.traps.filter fun t => t.1 != n
          { s with traps := (action?.map fun text => (n, text)).toList ++ others }
        setAll action? names

/-- Runs its arguments as a text. -/
def evaluate (e : Engine) (args : List Octets) : Act Nat :=
  e.runText {} ((args.intersperse [' ']).flatten)

def scriptPath? (name : Octets) : Act (Option Octets) := do
  let s ← get
  if name.contains '/' then return some name
  let folders := Text.pieces ':' (s.valueOf "PATH")
  let paths := folders.map fun f => if f = [] then name else f ++ '/' :: name
  return paths.find? fun p => s.machine.disk.files.isFile (Program.pathOf p)

/-- Runs the script of a file in the shell itself. -/
def takeIn (e : Engine) (args : List Octets) : Act Nat := do
  match args with
  | [] => return 0
  | name :: _ =>
    match ← scriptPath? name with
    | none => Act.fail (name ++ ": not found".toList)
    | some path =>
      let s ← get
      match s.machine.openPath s.descriptors (Program.pathOf path) .read with
      | .error err =>
        Act.fail ("cannot open ".toList ++ path ++ ": ".toList ++ Act.openingFault false err)
      | .ok (channel, machine) =>
        let text := match machine.read channel none with
          | .ok (text, _) => text.filter (· != '\x00')
          | .error _ => []
        modify fun s => { s with command? := some path }
        let status ← e.runText {} text
        modify fun s => if s.skip == .body then { s with skip := .nothing } else s
        return status

/-- Lets a program take the place of the shell. -/
def replace (e : Engine) (args : List Octets) : Act Nat := do
  match args with
  | [] => return 0
  | name :: args =>
    let s ← get
    match e.programs.find s.machine.disk.files (s.valueOf "PATH") name with
    | .program _ p =>
      modify fun s => { s with traps := [] }
      Engine.launch { isLast := true } p name args
    | .denied => Act.quit 126 (name ++ ": Permission denied".toList)
    | .absent _ => Act.quit 127 (name ++ ": not found".toList)

inductive Meaning where
  | keyword
  | special
  | function
  | builtin
  | program (path : Octets)
  | nothing

def describe (inWords : Bool) (name : Octets) : Meaning → Octets
  | .nothing => if inWords then name ++ ": not found\n".toList else []
  | .program path =>
    if inWords then name ++ " is ".toList ++ path ++ ['\n'] else path ++ ['\n']
  | .keyword => name ++ sentence " is a shell keyword"
  | .special => name ++ sentence " is a special shell builtin"
  | .function => name ++ sentence " is a shell function"
  | .builtin => name ++ sentence " is a shell builtin"
where
  sentence (text : String) : Octets := (if inWords then text.toList else []) ++ ['\n']

end Builtin

namespace Engine

/-- The commands that need nothing but the shell's state. -/
def simpleBuiltins : List (String × Builtin) := [
  (":", { isSpecial := true, run := Builtin.succeed }),
  ("[", { run := Builtin.bracket }),
  ("alias", { run := Builtin.succeed }),
  ("break", { isSpecial := true, run := Builtin.leaveLoops false }),
  ("cd", { run := Builtin.changeDirectory }),
  ("chdir", { run := Builtin.changeDirectory }),
  ("continue", { isSpecial := true, run := Builtin.leaveLoops true }),
  ("echo", { run := Builtin.echo }),
  ("exit", { isSpecial := true, run := Builtin.exit }),
  ("export", { isSpecial := true, assigns := true, run := Builtin.exports }),
  ("false", { run := Builtin.decline }),
  ("getopts", { run := Builtin.getopts }),
  ("hash", { run := Builtin.succeed }),
  ("jobs", { run := Builtin.succeed }),
  ("kill", { run := Builtin.kill }),
  ("local", { isSpecial := true, assigns := true, run := Builtin.locals }),
  ("printf", { run := Builtin.printf }),
  ("pwd", { run := Builtin.showDirectory }),
  ("read", { run := Builtin.read }),
  ("readonly", { isSpecial := true, assigns := true, run := Builtin.protects }),
  ("return", { isSpecial := true, run := Builtin.leaveBody }),
  ("set", { isSpecial := true, run := Builtin.sets }),
  ("shift", { isSpecial := true, run := Builtin.shift }),
  ("test", { run := Builtin.test }),
  ("times", { isSpecial := true, run := Builtin.times }),
  ("trap", { isSpecial := true, run := Builtin.trap }),
  ("true", { run := Builtin.succeed }),
  ("ulimit", { run := Builtin.succeed }),
  ("umask", { run := Builtin.mask }),
  ("unalias", { run := Builtin.succeed }),
  ("unset", { isSpecial := true, run := Builtin.unsets }),
  ("wait", { run := Builtin.wait })]

/-- The commands that run others. -/
def furtherBuiltins (e : Engine) : List (String × Builtin) := [
  (".", { isSpecial := true, run := Builtin.takeIn e }),
  ("eval", { isSpecial := true, run := Builtin.evaluate e }),
  ("exec", { isSpecial := true, run := Builtin.replace e })]

def describing : List String := ["command", "type"]

def meaning (e : Engine) (name : Octets) : Act Builtin.Meaning := do
  let s ← get
  let text := String.ofList name
  let builtin? := (simpleBuiltins.lookup text).or (e.furtherBuiltins.lookup text)
  if keywords.contains text then return .keyword
  else if (s.functions.lookup name).isSome then return .function
  else if builtin?.any Builtin.isSpecial then return .special
  else if builtin?.isSome || describing.contains text then return .builtin
  else match e.programs.find s.machine.disk.files (s.valueOf "PATH") name with
    | .program path _ => return .program path
    | _ => return .nothing

def describeAll (e : Engine) (inWords : Bool) (names : List Octets) : Act Nat := do
  names.foldlM (fun status name => do
    let meaning ← e.meaning name
    Act.print (Builtin.describe inWords name meaning)
    return match meaning with
      | .nothing => 127
      | _ => status) 0

def describeCommand (e : Engine) (args : List Octets) : Act Nat := do
  let (options, names) ← Builtin.letters ['p', 'v', 'V'] args
  if options.any fun o => o.1 == 'V' then e.describeAll true (names.take 1)
  else if options.any fun o => o.1 == 'v' then e.describeAll false (names.take 1)
  else return 0

def builtin? (e : Engine) (name : Octets) : Option Builtin :=
  let text := String.ofList name
  if text = "type" then some { run := e.describeAll true }
  else if text = "command" then some { run := e.describeCommand }
  else (simpleBuiltins.lookup text).or (e.furtherBuiltins.lookup text)

end Engine

end AssetCompiler.Shell
