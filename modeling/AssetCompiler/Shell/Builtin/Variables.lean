import AssetCompiler.Shell.Builtin.Options
import AssetCompiler.Shell.Settings
import AssetCompiler.Shell.Wildcard

/-! # Variables and parameters

Variables are marked, made local, taken away and shown; parameters are set, shifted and read as
options.
-/
namespace AssetCompiler.Shell.Builtin

/-- A text in quotes that can be read again: apostrophes stand in double quotes. -/
def requoted (cs : Octets) : Octets :=
  let isQuote (c : Char) : Bool := c == '\''
  let groups := cs.splitBy fun c d => isQuote c == isQuote d
  let front : Octets := if (cs.head?.map isQuote).getD true then ['\'', '\''] else []
  front ++ groups.flatMap fun g =>
    let mark := if g.any isQuote then '"' else '\''
    mark :: g ++ [mark]

/-- Shows variables in the order of their names. -/
def showVariables (front : Octets) (isShown : Variable → Bool) : Act Unit := do
  let shown := (← get).bindings.filter fun v => isShown v.2
  let sorted := shown.mergeSort fun v w => Wildcard.inOrder v.1 w.1
  sorted.forM fun (name, v) =>
    let value := (v.value?.map fun o => '=' :: requoted o).getD []
    Act.print (front ++ name ++ value ++ ['\n'])

def splitAssignment (arg : Octets) : Octets × Option Octets :=
  let name := arg.takeWhile (· != '=')
  (name, if name.length < arg.length then some (arg.drop (name.length + 1)) else none)

def checkName (name : Octets) : Act Unit := do
  if !isName name then Act.fail (name ++ ": bad variable name".toList)

/-- Marks variables, which may be given values, or shows the marked ones. -/
def markAll (word : String) (isMarked : Variable → Bool) (change : Variable → Variable)
    (args : List Octets) : Act Nat := do
  let (options, names) ← letters ['p'] args
  if options.isEmpty && !names.isEmpty then
    names.forM fun arg => do
      let (name, value?) := splitAssignment arg
      checkName name
      if let some value := value? then Act.assign name value
      Act.mark name change
  else showVariables (word.toList ++ [' ']) isMarked
  return 0

/-- Variables are passed on to programs. -/
def exports (args : List Octets) : Act Nat :=
  markAll "export" Variable.isExported (fun v => { v with isExported := true }) args

/-- Variables keep their values. -/
def protects (args : List Octets) : Act Nat :=
  markAll "readonly" Variable.isReadOnly (fun v => { v with isReadOnly := true }) args

/-- Remembers a variable so that it can be brought back. -/
def remember (name : Octets) : Act Unit :=
  modify fun s =>
    match s.saved with
    | frame :: frames => { s with saved := ((name, s.binding? name) :: frame) :: frames }
    | [] => s

/-- Variables belong to the function that runs. -/
def locals (args : List Octets) : Act Nat := do
  if (← get).calls = 0 then Act.fail "not in a function".toList
  args.forM fun arg => do
    let (name, value?) := splitAssignment arg
    if arg != ['-'] then
      checkName name
      remember name
      if let some value := value? then Act.assign name value
  return 0

def unsets (args : List Octets) : Act Nat := do
  let (options, names) ← letters ['v', 'f'] args
  let ofFunctions := options.getLast?.any fun o => o.1 == 'f'
  names.forM fun name => do
    if ofFunctions then
      modify fun s => { s with functions := s.functions.filter fun f => f.1 != name }
    else
      checkName name
      Act.unset name
  return 0

def shift (args : List Octets) : Act Nat := do
  let n ← match args with
    | [] => pure 1
    | arg :: _ => Act.number arg
  if (← get).parameters.length < n then Act.fail "can't shift that many".toList
  modify fun s => { s with parameters := s.parameters.drop n, optionPlace := {} }
  return 0

/-- Sets options and parameters, or shows all variables. -/
def sets (args : List Octets) : Act Nat := do
  match args with
  | [] => showVariables [] fun v => v.value?.isSome
  | args =>
    if let some parameters ← Act.takeOptions (args.length + 1) args then
      modify fun s => { s with parameters, optionPlace := {} }
  return 0

structure OptionStep where
  /-- The letter of the option, a question mark or a colon. -/
  letter : Char := '?'
  value? : Option Octets := none
  complaint? : Option Octets := none
  ended : Bool := false
  place : OptionPlace

def optionStep (allowed : Octets) (args : List Octets) (p : OptionPlace) : OptionStep :=
  let isQuiet := allowed.head? == some ':'
  let current := args.drop (p.index - 1)
  let begun? : Option Octets := p.letter?.bind fun n =>
    if p.index ≤ 1 then none
    else (args[p.index - 2]?).bind fun arg =>
      if n < arg.length then some (arg.drop n) else none
  let next? : Option (Octets × Nat × List Octets) :=
    match begun? with
    | some cs => some (cs, p.index, current)
    | none =>
      match current with
      | ('-' :: c :: cs) :: rest => some (c :: cs, p.index + 1, rest)
      | _ => none
  match next? with
  | none => { ended := true, place := { index := p.index } }
  | some (cs, index, rest) =>
    if begun?.isNone && cs == ['-'] then { ended := true, place := { index } }
    else match cs with
      | [] => { ended := true, place := { index } }
      | c :: cs =>
        let whole := (args[index - 2]?).getD []
        let behind : OptionPlace := { index, letter? := some (whole.length - cs.length) }
        let found := (allowed.dropWhile (· == ':')).dropWhile (· != c)
        match found with
        | [] =>
          if isQuiet then { value? := some [c], place := behind }
          else { complaint? := some ("Illegal option -".toList ++ [c]), place := behind }
        | _ :: ':' :: _ =>
          match cs, rest with
          | [], [] =>
            if isQuiet then { letter := ':', value? := some [c], place := behind }
            else
              { complaint? := some ("No arg for -".toList ++ c :: " option".toList)
                place := behind }
          | [], value :: _ => { letter := c, value? := some value, place := { index := index + 1 } }
          | cs, _ => { letter := c, value? := some cs, place := { index } }
        | _ => { letter := c, value? := some [], place := behind }

def getopts (args : List Octets) : Act Nat := do
  match args with
  | allowed :: name :: args =>
    let s ← get
    let step := optionStep allowed (if args.isEmpty then s.parameters else args) s.optionPlace
    if !step.ended then
      match step.value? with
      | some value => Act.assign "OPTARG".toList value
      | none => Act.unset "OPTARG".toList
    if let some text := step.complaint? then Act.tell 2 (text ++ ['\n'])
    Act.assign "OPTIND".toList (Octets.ofNat step.place.index)
    modify fun s => { s with optionPlace := step.place }
    checkName name
    Act.assign name [step.letter]
    return if step.ended then 1 else 0
  | _ => Act.fail "Usage: getopts optstring var [arg]".toList

end AssetCompiler.Shell.Builtin
