import AssetCompiler.Shell.Builtin.Control

/-! # Running commands

A command is run by running its parts, and gives a status. Loops, functions and files can be
ended from within; a failure that nothing looks at ends the shell on demand.
-/
namespace AssetCompiler.Shell.Engine

def inSequence : Command → List Command
  | .sequence c d => inSequence c ++ [d]
  | c => [c]

/-- What is done about a request to end or begin anew, seen from a loop. -/
def takeSkip : Act Skip := do
  let skip := (← get).skip
  match skip with
  | .loops n continues =>
    if n ≤ 1 then
      modify fun s => { s with skip := .nothing }
      return skip
    else
      modify fun s => { s with skip := .loops (n - 1) continues }
      return .loops n false
  | skip => return skip

/-- Whether a request lets a loop go on. -/
def goesOn (skip : Skip) : Bool :=
  match skip with
  | .nothing => true
  | .loops _ continues => continues
  | .body => false

/-- More than the number of times that a loop is run. -/
def loopLimit : Nat := 2 ^ 40

def loopFrom (e : Engine) (f : Flags) (untilTrue : Bool) (test body : Command) :
    Nat → Nat → Act Nat
  | 0, status => return status
  | n + 1, status => do
    let answer ← e.run { isTested := true } test
    let skip ← takeSkip
    match skip with
    | .body => return answer
    | .loops _ _ => if goesOn skip then loopFrom e f untilTrue test body n status else return status
    | .nothing =>
      if (answer = 0) == untilTrue then return status
      let status ← e.run f body
      if goesOn (← takeSkip) then loopFrom e f untilTrue test body n status else return status

def eachOf (e : Engine) (f : Flags) (name : Octets) (body : Command) :
    List Octets → Nat → Act Nat
  | [], status => return status
  | v :: vs, _ => do
    Act.assign name v
    let status ← e.run f body
    if goesOn (← takeSkip) then eachOf e f name body vs status else return status

def asLoop (act : Act Nat) : Act Nat := do
  modify fun s => { s with loops := s.loops + 1 }
  Act.ensuring act fun s => { s with loops := s.loops - 1 }

def acceptsAny (e : Engine) (text : Octets) : List Word → Act Bool
  | [] => return false
  | w :: ws => do
    if Wildcard.accepts (← Act.pattern e.output w) text then return true
    else acceptsAny e text ws

def select (e : Engine) (f : Flags) (text : Octets) :
    List (List Word × Option Command) → Act Nat
  | [] => return 0
  | (ws, body?) :: rest => do
    if ← acceptsAny e text ws then
      match body? with
      | some body => e.run f body
      | none => return 0
    else select e f text rest

/-- Runs a function with parameters of its own. -/
def call (e : Engine) (f : Flags) (body : Command) (args : List Octets) : Act Nat := do
  let before ← get
  set { before with
    parameters := args
    optionPlace := {}
    loops := 0
    calls := before.calls + 1 }
  Act.ensuring (e.run { f with isLast := false } body) fun s => { s with
    parameters := before.parameters
    optionPlace := before.optionPlace
    loops := before.loops
    calls := before.calls
    skip := if s.skip == .body then .nothing else s.skip }

/-- Runs one of the shell's own commands. What fails ends the shell only if it is special. -/
def runBuiltin (b : Builtin) (confined : Bool) (name : Octets) (args : List Octets) :
    Act Nat := do
  let command? := (← get).command?
  modify fun s => { s with command? := some name, outputFailed := false }
  let act : Act Nat := do
    let status ← b.run args
    Act.flush
    if (← get).outputFailed then
      Act.complain (name ++ ": I/O error".toList)
      modify fun s => { s with outputFailed := false }
      return if status % 2 = 0 then status + 1 else status
    else return status
  fun s =>
    let restore (s : State) : State := { s with command?, output := [] }
    match act.run.run s with
    | (.ok status, s) => (.ok status, restore s)
    | (.error .failed, s) =>
      if confined then (.ok s.status, restore s) else (.error .failed, restore s)
    | (.error h, s) => (.error h, restore s)

inductive Target where
  | nothing
  | builtin (b : Builtin)
  | function (body : Command)
  /-- A name that is looked up among the programs. -/
  | program

def target (e : Engine) (withFunctions : Bool) (name : Octets) : Act Target := do
  let functions := (← get).functions
  match if withFunctions then functions.lookup name else none with
  | some body => return .function body
  | none =>
    match if name.contains '/' then none else e.builtin? name with
    | some b => return .builtin b
    | none => return .program

/-- The fields of the first words that become any, and the words behind them. -/
def firstFields (run : Act.Runner) : List Word → Act (List Octets × List Word)
  | [] => return ([], [])
  | w :: ws => do
    match ← Act.fields run w with
    | [] => firstFields run ws
    | found => return (found, ws)

def argument (run : Act.Runner) (assigns : Bool) (w : Word) : Act (List Octets) := do
  match if assigns then assignment? w else none with
  | some (name, value) => return [name ++ '=' :: (← Act.assigned run value)]
  | none => Act.fields run w

/-- Drops the word that only keeps functions from being run, with its options, unless names are
to be described. -/
def stripCommand (args : List Octets) : Option (List Octets) :=
  match args.dropWhile fun a => a == "-p".toList with
  | ['-', '-'] :: name :: rest => some (name :: rest)
  | name :: rest => if name.head? == some '-' then none else some (name :: rest)
  | [] => none

/-- What is run for arguments, whether a failure is confined because of how it is asked for, and
the arguments without what asks; the number bounds how often that is done. -/
def resolve (e : Engine) : Nat → Bool → List Octets → Act (Target × List Octets)
  | 0, _, args => return (.nothing, args)
  | _, _, [] => return (.nothing, [])
  | n + 1, withFunctions, name :: args => do
    let stripped? := if name = "command".toList then stripCommand args else none
    match ← e.target withFunctions name, stripped? with
    | .builtin _, some args => e.resolve n false args
    | t, _ => return (t, name :: args)

/-- Makes the assignments of a command; `isLocal` ones are made for the command alone. -/
def assignAll (run : Act.Runner) (isLocal exports : Bool) (assignments : List (Octets × Word)) :
    Act (List Octets) :=
  assignments.mapM fun (name, w) => do
    let value ← Act.assigned run w
    if isLocal then Builtin.remember name
    Act.assign name value
    if isLocal || exports then Act.mark name fun v => { v with isExported := true }
    return name ++ '=' :: value

def dropFrame (s : State) : State :=
  match s.saved with
  | frame :: frames =>
    frame.foldl (fun s (name, v) => s.putVariable name v) { s with saved := frames }
  | [] => s

def runProgram (e : Engine) (f : Flags) (name : Octets) (args : List Octets) : Act Nat := do
  let s ← get
  match e.programs.find s.machine.disk.files (s.valueOf "PATH") name with
  | .program _ p => launch f p name args
  | found =>
    let isDenied := match found with
      | .denied => true
      | _ => name = []
    Act.complain (name ++ (if isDenied then ": Permission denied" else ": not found").toList)
    return if isDenied && name.contains '/' then 126 else 127

def trace (descriptors : Descriptors) (assignments args : List Octets) : Act Unit := do
  if (← get).hasOption 'x' then
    let text := ((assignments ++ args).intersperse [' ']).flatten
    modify fun s =>
      let line := s.valueOf "PS4" ++ text ++ ['\n']
      { s with machine := s.machine.tell descriptors 2 line }

def simple (e : Engine) (f : Flags) (assignments : List (Octets × Word)) (words : List Word)
    (redirections : List Redirection) : Act Nat := do
  modify fun s => { s with outputStatus := 0 }
  let run := e.output
  let (front, rest) ← firstFields run words
  let (first, _) ← e.resolve 1 true (front.take 1)
  let (final, _) ← e.resolve (front.length + 1) true front
  let assigns := match final with
    | .builtin b => b.assigns
    | _ => false
  let others ← rest.mapM (argument run assigns)
  let (final, args) ← e.resolve (words.length + front.length + 1) true (front ++ others.flatten)
  let isSpecial := match first with
    | .builtin b => b.isSpecial
    | _ => false
  let isExec := args.head? == some "exec".toList && !front.isEmpty
  let isLocal := !front.isEmpty && !isSpecial
  let before := (← get).descriptors
  if isLocal then modify fun s => { s with saved := [] :: s.saved }
  let act : Act Nat := do
    if !(← Act.redirectAll run redirections) then
      Act.setStatus 2
      if isSpecial then throw .failed
      return 2
    let assigned ← assignAll run isLocal (isExec && 1 < args.length) assignments
    trace before assigned args
    let name := args.headD []
    match final with
    | .nothing => return (← get).outputStatus
    | .builtin b => runBuiltin b (!isSpecial) name (args.drop 1)
    | .function body => e.call f body (args.drop 1)
    | .program => e.runProgram f name (args.drop 1)
  Act.ensuring act fun s =>
    let s := if isLocal then dropFrame s else s
    if isExec then s else { s with descriptors := before }

def subshell (e : Engine) (f : Flags) (redirections : List Redirection) (body : Command) :
    Act Nat := do
  let enter (f : Flags) : Act Nat := do
    let openings ← redirections.mapM (Act.prepare e.output)
    openings.forM (Act.redirect e.output)
    e.run { f with isLast := true } body
  if f.isLast && !(← isAttended) then enter f
  else report (← e.fork (enter f))

/-- Runs a command without waiting for it. Unless told otherwise it has nothing to read. -/
def unwaited (e : Engine) (act : Act Nat) : Act Nat := do
  let number := (← get).machine.lastProcess + 1
  let status ← e.fork do
    let s ← get
    let (channel, machine) := s.machine.attach .void
    set { s with machine }
    Act.lead 0 channel
    act
  addJob number status
  return 0

def pipeline (e : Engine) (f : Flags) (cs : List Command) : Act Nat := do
  let statuses ← e.stages f none cs
  let codes ← statuses.mapM report
  return codes.getLast?.getD 0

/-- Runs commands one after another, up to a request to end. -/
def sequence (e : Engine) (f : Flags) : List Command → Act Nat
  | [] => return (← get).status
  | [c] => e.run f c
  | c :: cs => do
    let status ← e.run { isTested := f.isTested } c
    if (← get).skip != .nothing then return status
    sequence e f cs

def isChecked : Command → Bool
  | .simple .. | .pipeline .. | .subshell .. | .background .. => true
  | _ => false

def atLine (line : Nat) : Act Unit := modify fun s => { s with line }

def runParts (e : Engine) (f : Flags) (c : Command) : Act Nat := do
  let inner : Flags := { f with isLast := false }
  let tested : Flags := { isTested := true }
  match c with
  | .simple line assignments words redirections => do
    atLine line
    e.simple f assignments words redirections
  | .pipeline cs false => e.pipeline f cs
  | .pipeline cs true => e.unwaited (e.pipeline { f with isTested := false } cs)
  | .negation c => do return if (← e.run tested c) = 0 then 1 else 0
  | .both c d => do
    let status ← e.run tested c
    if status ≠ 0 || (← get).skip != .nothing then return status
    e.run f d
  | .either c d => do
    let status ← e.run tested c
    if status = 0 || (← get).skip != .nothing then return status
    e.run f d
  | .sequence c d => e.sequence f (inSequence c ++ [d])
  | .background c redirections =>
    e.unwaited (e.subshell { isTested := false, isLast := true } redirections c)
  | .subshell line c redirections => do
    atLine line
    e.subshell f redirections c
  | .redirected line c redirections => do
    atLine line
    Act.withDescriptors do
      if ← Act.redirectAll e.output redirections then e.run inner c else return 2
  | .condition test yes no? => do
    let status ← e.run tested test
    if (← get).skip != .nothing then return status
    if status = 0 then e.run f yes
    else match no? with
      | some no => e.run f no
      | none => return 0
  | .loop untilTrue test body => asLoop (e.loopFrom inner untilTrue test body loopLimit 0)
  | .each line name words body => do
    atLine line
    let values ← words.mapM (Act.fields e.output)
    asLoop (e.eachOf inner name body values.flatten 0)
  | .selection line subject cases => do
    atLine line
    e.select f (← Act.single e.output subject) cases
  | .definition name body => do
    modify fun s =>
      let others := s.functions.filter fun g => g.1 != name
      { s with functions := (name, body) :: others }
    return 0

def runCommand (e : Engine) (f : Flags) (c : Command) : Act Nat := do
  if (← get).hasOption 'n' then return (← get).status
  e.attend
  let status ← e.runParts f c
  Act.setStatus status
  if isChecked c && status ≠ 0 && !f.isTested && (← get).hasOption 'e' then throw .left
  e.attend
  return status

end AssetCompiler.Shell.Engine
