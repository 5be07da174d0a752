import AssetCompiler.Build.Run
import AssetCompiler.Config.Reading
import AssetCompiler.Config.StockText

/-! # The command line

A command line names a task and options, which may stand before or behind the task; behind it
they count more. Options on one side have to fit together on their own. A command line that
cannot be read ends with exit code 2 and a bad configuration with 1; builds have codes of
their own.
-/
namespace AssetCompiler.CommandLine

inductive Task where
  | build
  | check
  | genConfig
  deriving DecidableEq, Repr

def Task.ofName? : String → Option Task
  | "build" => some .build
  | "check" => some .check
  | "gen-config" => some .genConfig
  | _ => none

structure Options where
  config : Option Path := none
  appConfig : Option Path := none
  assets : Option Path := none
  output : Option Path := none
  /-- Asks for more detail in the log, whose lines are all shown anyway. -/
  verbose : Bool := false
  force : Bool := false
  deriving DecidableEq, Inhabited, Repr

inductive UsageError where
  | unknown (arg : String)
  | missingValue (option : String)
  | unexpectedValue (option : String)
  | repeated (option : String)
  | conflict (option other : String)
  | incomplete (option missing : String)
  | noTask
  deriving DecidableEq, Repr

def UsageError.message : UsageError → String
  | unknown arg => "unexpected argument '" ++ arg ++ "'"
  | missingValue option => "a value is required for '" ++ option ++ "'"
  | unexpectedValue option => "'" ++ option ++ "' takes no value"
  | repeated option => "'" ++ option ++ "' cannot be used multiple times"
  | conflict option other => "'" ++ option ++ "' cannot be used with '" ++ other ++ "'"
  | incomplete option missing => "'" ++ option ++ "' requires '" ++ missing ++ "'"
  | noTask => "one of 'build', 'check' and 'gen-config' is required"

namespace Options

/-- Gives a path option its value, which may be given once and is not empty. -/
def setPath (name value : String) (old : Option Path) : Except UsageError (Option Path) :=
  if value = "" then .error (.missingValue name)
  else if old.isSome then .error (.repeated name)
  else .ok (some ⟨value⟩)

/-- Sets a flag, which may be given once. -/
def setFlag (name : String) (old : Bool) : Except UsageError Bool :=
  if old then .error (.repeated name) else .ok true

/-- The names of options that have a value. -/
def withValue : List String := ["--config", "--app-config", "--assets", "--output"]

def readPath (o : Options) (name value : String) : Except UsageError Options :=
  match name with
  | "--config" => (setPath name value o.config).map fun p => { o with config := p }
  | "--app-config" => (setPath name value o.appConfig).map fun p => { o with appConfig := p }
  | "--assets" => (setPath name value o.assets).map fun p => { o with assets := p }
  | "--output" => (setPath name value o.output).map fun p => { o with output := p }
  | "--verbose" | "--force" => .error (.unexpectedValue name)
  | _ => .error (.unknown name)

def readFlag (o : Options) (name : String) : Except UsageError Options :=
  match name with
  | "--verbose" => (setFlag name o.verbose).map fun b => { o with verbose := b }
  | "--force" => (setFlag name o.force).map fun b => { o with force := b }
  | _ => .error (.unknown name)

def readLetters (o : Options) : List Char → Except UsageError Options
  | [] => .ok o
  | 'v' :: cs => do readLetters (← o.readFlag "--verbose") cs
  | c :: _ => .error (.unknown (String.ofList ['-', c]))

/-- Whether an argument can be the value of the option in front of it. -/
def isValue (arg : String) : Bool := arg.toList.head? != some '-' || arg == "-"

def splitValue (arg : String) : String × Option String :=
  let name := arg.toList.takeWhile (· != '=')
  match arg.toList.drop name.length with
  | [] => (arg, none)
  | _ :: value => (String.ofList name, some (String.ofList value))

/-- Reads options up to the first other argument. Behind `--` there are no more options, and
nothing else may stand there. -/
def read (o : Options) : List String → Except UsageError (Options × List String)
  | [] => .ok (o, [])
  | "--" :: [] => .ok (o, [])
  | "--" :: arg :: _ => .error (.unknown arg)
  | arg :: rest =>
    if isValue arg then .ok (o, arg :: rest)
    else match Text.strip? ['-', '-'] arg.toList, splitValue arg with
      | none, _ => do read (← o.readLetters (arg.toList.drop 1)) rest
      | some _, (name, some value) => do read (← o.readPath name value) rest
      | some _, (name, none) =>
        if withValue.contains name then
          match rest with
          | value :: rest =>
            if isValue value then do read (← o.readPath name value) rest
            else .error (.missingValue name)
          | [] => .error (.missingValue name)
        else do read (← o.readFlag name) rest

def given (o : Options) : List String :=
  [("--config", o.config), ("--app-config", o.appConfig), ("--assets", o.assets),
    ("--output", o.output)].filterMap fun p => p.2.map fun _ => p.1

def needs : List (String × String) :=
  [("--app-config", "--assets"), ("--assets", "--output"), ("--output", "--assets")]

/-- Checks that the options of one side fit together: a configuration file stands alone, and
roots are given in full. -/
def checked (o : Options) : Except UsageError Options :=
  match o.given with
  | "--config" :: other :: _ => .error (.conflict "--config" other)
  | names =>
    match needs.find? fun n => names.contains n.1 && !names.contains n.2 with
    | some (name, missing) => .error (.incomplete name missing)
    | none => .ok o

def merge (outer inner : Options) : Options where
  config := inner.config <|> outer.config
  appConfig := inner.appConfig <|> outer.appConfig
  assets := inner.assets <|> outer.assets
  output := inner.output <|> outer.output
  verbose := outer.verbose || inner.verbose
  force := outer.force || inner.force

end Options

structure Invocation where
  task : Task
  options : Options
  deriving DecidableEq, Repr

def read (args : List String) : Except UsageError Invocation := do
  match ← Options.read {} args with
  | (_, []) => .error .noTask
  | (outer, name :: rest) =>
    match Task.ofName? name with
    | none => .error (.unknown name)
    | some task =>
      match ← Options.read {} rest with
      | (inner, []) =>
        let inner ← inner.checked
        let outer ← outer.checked
        .ok ⟨task, outer.merge inner⟩
      | (_, arg :: _) => .error (.unknown arg)

/-- The configuration file of a command line that names none. -/
def defaultConfig : Path := ⟨"assetsmith.toml"⟩

/-- The configuration of a command line and the root that shown paths are relative to. -/
def configuration (files : Tree) (o : Options) : Except ConfigError (Config × Path) :=
  let forced (c : Config) : Config := { c with force := c.force || o.force }
  match o.assets, o.output with
  | some assets, some output =>
    (Config.ofRoots o.appConfig assets output).validate.map fun c => (forced c, ⟨"."⟩)
  | _, _ =>
    let path := o.config.getD defaultConfig
    let root := match path.parent? with
      | some dir => if dir.text = "" then ⟨"."⟩ else dir
      | none => ⟨"."⟩
    (Config.load files path).map fun c => (forced c, root)

/-- The cache directory that a command line builds with. -/
def cacheDirectory? (files : Tree) (args : List String) : Option Path :=
  match read args with
  | .error _ => none
  | .ok v =>
    if v.task = .build then (configuration files v.options).toOption.map fun c => c.1.cache
    else none

/-- How a run ended: its exit code and what it printed. -/
structure Ending where
  exitCode : UInt8
  output : String := ""
  deriving DecidableEq, Repr

def failWith (exitCode : UInt8) (text : String) (w : Workspace) : Ending × Workspace :=
  ({ exitCode }, w.note [.error text])

/-- Lines with a line end behind each. -/
def textOf (lines : List String) : String := String.join (lines.map (· ++ "\n"))

def perform (task : Task) (x : Context) (root : Path) (w : Workspace) : Ending × Workspace :=
  match task with
  | .genConfig => ({ exitCode := 0 }, w)
  | .build =>
    match build x w with
    | (.ok report, w) =>
      ({ exitCode := if report.hasFailures then 4 else 0, output := textOf (report.lines root) }, w)
    | (.error e, w) => failWith e.exitCode e.message w
  | .check =>
    match check x.config w with
    | (.ok report, w) => ({ exitCode := 0, output := textOf (report.lines root) }, w)
    | (.error e, w) => failWith e.exitCode e.message w

def runInvocation (salt : Nat → ByteArray) (v : Invocation) (w : Workspace) : Ending × Workspace :=
  if v.task = .genConfig then ({ exitCode := 0, output := Config.stockText }, w)
  else match configuration w.files v.options with
    | .error e => failWith 1 (e.message?.getD "invalid configuration file") w
    | .ok (c, root) =>
      match Context.load w.files c salt with
      | .error e => failWith 1 ("app config: " ++ e.message) w
      | .ok x => perform v.task x root w

def run (salt : Nat → ByteArray) (args : List String) (w : Workspace) : Ending × Workspace :=
  match read args with
  | .error e => failWith 2 e.message w
  | .ok v => runInvocation salt v w

end AssetCompiler.CommandLine
