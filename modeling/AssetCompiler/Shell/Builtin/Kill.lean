import AssetCompiler.Shell.Builtin.Options

/-! # Sending signals

A signal has a number or a name, of which the case does not matter. It ends the shell itself,
is taken care of, or waits for another process.
-/
namespace AssetCompiler.Shell.Builtin

/-- The name of a signal. A few are known by their numbers only. -/
def signalName (n : Nat) : String :=
  if n = 0 then "EXIT"
  else if n = 16 || n = 32 || n = 33 then toString n
  else if n < 32 then ((Signal.ofNumber? n).map Signal.name).getD (toString n)
  else if n = 34 then "RTMIN"
  else if n = Signal.last then "RTMAX"
  else if n < 50 then "RTMIN+" ++ toString (n - 34)
  else "RTMAX-" ++ toString (Signal.last - n)

/-- The signal of a number or a name, from a least number on. -/
def signal? (least : Nat) (text : Octets) : Option Nat :=
  let n := Number.ofDigits 10 text
  if text ≠ [] && text.all Char.isDigit then if n ≤ Signal.last then some n else none
  else (List.range' least (Signal.last + 1 - least)).find? fun n =>
    (signalName n).toList.map Char.toUpper == text.map Char.toUpper

/-- Takes a signal that was sent to the shell. Gives what is to be done for it. -/
def receive (n : Nat) : Act (Option Octets) := do
  match (← get).traps.lookup n with
  | some text =>
    if n = 9 then throw (.killed n) else return if text = [] then none else some text
  | none => if Signal.isHarmless n then return none else throw (.killed n)

/-- Takes the signals that wait for the shell. Gives what is to be done for them; the number
bounds how many there are. -/
def waiting : Nat → Act (List Octets)
  | 0 => return []
  | n + 1 => do
    let s ← get
    match s.machine.takeSignal s.machine.process with
    | (none, _) => return []
    | (some number, machine) =>
      set { s with machine }
      let action? ← receive number
      return action?.toList ++ (← waiting n)

def send (signal : Nat) (target : Octets) : Act Bool := do
  let s ← get
  let isGroup := target.head? == some '-'
  let n ← Act.number (if isGroup then target.drop 1 else target)
  let isKnown := n == s.machine.process || n == s.mainProcess || n == s.machine.parent ||
    s.jobs.any fun j => j.1 == n
  if isGroup || !isKnown then
    Act.complain "No such process\n".toList
    return false
  else
    if signal ≠ 0 && !(s.jobs.any fun j => j.1 == n) then
      let machine := { s.machine with signals := (n, signal) :: s.machine.signals }
      set { s with machine }
    return true

def killUsage {α : Type} : Act α :=
  Act.fail ("Usage: kill [-s sigspec | -signum | -sigspec] [pid | job]... or\n".toList ++
    "kill -l [exitstatus]".toList)

/-- Shows the names of all signals, or the one of a number or a status. -/
def listSignals : List Octets → Act Nat
  | [] => do
    Act.print ['0', '\n']
    (List.range' 1 Signal.last).forM fun n => Act.print ((signalName n).toList ++ ['\n'])
    return 0
  | arg :: _ => do
    let n ← Act.number arg
    let n := if 128 < n then n - 128 else n
    if n = 0 || Signal.last < n then
      Act.fail ("invalid signal number or exit status: ".toList ++ arg)
    Act.print ((signalName n).toList ++ ['\n'])
    return 0

/-- The signal that is asked for, whether the names are, and the arguments left over. -/
def killArguments (args : List Octets) : Act (Option Nat × Bool × List Octets) := do
  match args with
  | ('-' :: text) :: rest =>
    match signal? 1 text with
    | some n => return (some n, false, rest)
    | none =>
      let (options, rest) ← letters ['l', 's', ':'] args
      let signal? ← options.foldlM (fun found (c, value) => do
        if c = 's' then
          match signal? 1 value with
          | some n => pure (some n)
          | none => Act.fail ("invalid signal number or name: ".toList ++ value)
        else pure found) none
      return (signal?, options.any fun o => o.1 == 'l', rest)
  | args => return (none, false, args)

def kill (args : List Octets) : Act Nat := do
  if args.isEmpty then killUsage
  let (signal?, isList, targets) ← killArguments args
  if isList then
    if signal?.isSome then killUsage else listSignals targets
  else if targets.isEmpty then killUsage
  else
    let sent ← targets.mapM (send (signal?.getD 15))
    return if sent.all id then 0 else 1

end AssetCompiler.Shell.Builtin
