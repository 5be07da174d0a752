import AssetCompiler.Processor.Basic
import AssetCompiler.Shell.Script
import AssetCompiler.Text.Utf8

/-! # Processors from command lines

A command gets the text as its input and gives it back as its output. Where an argument
contains a placeholder, it is replaced by the path of a file that holds the input or takes the
output instead. The command runs in the working directory of the build and may use its files.
-/
namespace AssetCompiler.Commands

def inputPlaceholder : String := "\x7binput\x7d"

def outputPlaceholder : String := "\x7boutput\x7d"

/-- Replaces every occurrence of a pattern, from left to right. -/
def replaceAll (pattern replacement : List Char) (cs : List Char) : List Char :=
  match pattern, cs with
  | [], cs => cs
  | _ :: _, [] => []
  | p :: ps, c :: cs =>
    if (p :: ps).isPrefixOf (c :: cs) then
      replacement ++ replaceAll (p :: ps) replacement (cs.drop ps.length)
    else c :: replaceAll (p :: ps) replacement cs
  termination_by cs.length
  decreasing_by all_goals simp only [List.length_cons, List.length_drop]; omega

def mentions (arg placeholder : String) : Bool :=
  replaceAll placeholder.toList [] arg.toList != arg.toList

/-- The directory of the files that stand in for placeholders, in one that holds nothing else
but what programs put there. -/
def sharedDirectory : Location := ["tmp"]

def stepDirectory : Location := sharedDirectory ++ [".processor-step"]

def inputFile : Location := stepDirectory ++ ["input"]

def outputFile : Location := stepDirectory ++ ["output"]

def fillIn (arg : String) : String :=
  String.ofList (replaceAll outputPlaceholder.toList (Tree.pathOf outputFile).text.toList
    (replaceAll inputPlaceholder.toList (Tree.pathOf inputFile).text.toList arg.toList))

def addFiles (input : ByteArray) (d : Disk) : Disk :=
  let modified := d.clock
  let files := if (d.files.get? sharedDirectory).isSome then d.files
    else d.files.put sharedDirectory (.directory modified)
  let files := files.put stepDirectory (.directory modified)
  { d with files := files.put inputFile (.file { bytes := input, modified }) }

/-- Removes the files of a step; the directory around them goes with them if it was made for
them and nothing else is in it. -/
def removeFiles (before : Tree) (d : Disk) : Disk :=
  let kept := d.files.entries.filter fun e => !stepDirectory.isPrefixOf e.1
  let files := { d.files with entries := kept }
  let isOurs := (before.get? sharedDirectory).isNone && (files.below sharedDirectory).isEmpty
  { d with files := if isOurs then files.erase sharedDirectory else files }

structure Completion where
  status : Status
  output : Octets
  diagnostics : Octets
  disk : Disk

def environment : List (Octets × Octets) :=
  [("PATH".toList, Programs.defaultFolders.toList), ("HOME".toList, "/root".toList)]

/-- Runs a program with arguments and an input, if it can be run; otherwise says why not. -/
def execute (program : String) (args : List String) (input : Channel) (d : Disk) :
    Except String Completion :=
  if (program :: args).any fun a => a.toList.contains '\x00' then
    .error "nul byte found in provided data"
  else
    let called := Octets.ofString program
    let folders := Programs.defaultFolders.toList
    match Shell.programs.find d.files folders called with
    | .absent fault => .error fault.message
    | .denied => .error "Permission denied (os error 13)"
    | .program _ run =>
      let machine : Machine :=
        { disk := d, channels := #[input, .outlet [], .outlet []], called, environment }
      let (status, m) := run (args.map Octets.ofString) [(0, 0), (1, 1), (2, 2)] machine
      let disk := { m.disk with files := { m.disk.files with home := d.files.home } }
      .ok ⟨status, m.collected 1, m.collected 2, disk⟩

/-- The output of a program that ended well. -/
def outcome (step : Step) (c : Completion) : Except ProcessorError Octets :=
  if c.status.isSuccess then .ok c.output
  else
    let diagnostics := Text.trim (Octets.toText c.diagnostics).toList
    .error (.failed step c.status.text (String.ofList diagnostics))

/-- Runs a command line that is given its input and gives back its output. -/
def runPiped (step : Step) (program : String) (args : List String) (input : ByteArray)
    (d : Disk) : Except ProcessorError ByteArray × Disk :=
  match execute program args (.intake (Octets.ofBytes input)) d with
  | .error reason => (.error (.notStarted step program reason), d)
  | .ok c => ((outcome step c).map Octets.toBytes, c.disk)

/-- Runs a command line that names files. Its output counts unless a file takes it. -/
def runWithFiles (step : Step) (program : String) (args : List String) (input : ByteArray)
    (d : Disk) : Except ProcessorError ByteArray × Disk :=
  let writesFile := args.any (mentions · outputPlaceholder)
  match execute program (args.map fillIn) .void (addFiles input d) with
  | .error reason => (.error (.notStarted step program reason), d)
  | .ok c =>
    let result := (outcome step c).bind fun output =>
      if writesFile then (c.disk.files.read (Tree.pathOf outputFile)).mapError .file
      else .ok (Octets.toBytes output)
    (result, removeFiles d.files c.disk)

/-- Runs the command line of a step. Without one, the input stays as it is. -/
def run (commands : Commands) (step : Step) (input : ByteArray) (d : Disk) :
    Except ProcessorError ByteArray × Disk :=
  match commands.get step with
  | [] => (.ok input, d)
  | program :: args =>
    let usesFiles := (program :: args).any fun a =>
      mentions a inputPlaceholder || mentions a outputPlaceholder
    if usesFiles then runWithFiles step program args input d
    else runPiped step program args input d

def processor (commands : Commands) : Processor := fun _ => commands.run

end AssetCompiler.Commands
