import AssetCompiler.Process.Program
import AssetCompiler.Shell.Builtin.Options

/-! # The working directory and other surroundings -/
namespace AssetCompiler.Shell.Builtin

def workingDirectory : Act Octets := do
  return Octets.ofString (Tree.pathOf (← get).machine.disk.files.home).text

/-- Changes the working directory; a dash stands for the one before. -/
def changeDirectory (args : List Octets) : Act Nat := do
  let (_, names) ← letters ['P', 'L'] args
  let s ← get
  let isBack := names.head? == some ['-']
  let target := match names with
    | [] => s.valueOf "HOME"
    | ['-'] :: _ => s.valueOf "OLDPWD"
    | name :: _ => name
  let path := if target = [] then "." else Octets.toText target
  match s.machine.disk.files.find ⟨path⟩ with
  | .ok (home, .directory _) =>
    let before ← workingDirectory
    modify fun s =>
      let files := { s.machine.disk.files with home }
      { s with machine := { s.machine with disk := { s.machine.disk with files } } }
    let present ← workingDirectory
    let exported (v : Variable) : Variable := { v with isExported := true }
    Act.mark "OLDPWD".toList fun v => exported { v with value? := some before }
    Act.mark "PWD".toList fun v => exported { v with value? := some present }
    if isBack then Act.print (present ++ ['\n'])
    return 0
  | _ => Act.fail ("can't cd to ".toList ++ target)

def showDirectory (args : List Octets) : Act Nat := do
  let _ ← letters ['P', 'L'] args
  Act.print ((← workingDirectory) ++ ['\n'])
  return 0

/-- Shows or sets which rights new files lack. -/
def mask (args : List Octets) : Act Nat := do
  match args with
  | [] =>
    let ds := Nat.toDigits 8 (← get).mask
    Act.print (List.replicate (4 - ds.length) '0' ++ ds ++ ['\n'])
  | arg :: _ =>
    if arg.all fun c => '0' ≤ c && c ≤ '7' then
      modify fun s => { s with mask := Number.ofDigits 8 arg % 512 }
    else if (arg.head?.map Char.isDigit).getD false then Act.fail ("Illegal number: ".toList ++ arg)
  return 0

/-- Shows the time that was used, of which there is never any. -/
def times (_ : List Octets) : Act Nat := do
  let line := "0m0.000000s 0m0.000000s\n".toList
  Act.print (line ++ line)
  return 0

/-- Waits for processes, which have all ended; the status is that of the last one. -/
def wait (args : List Octets) : Act Nat := do
  args.foldlM (fun _ arg => do
    let n ← Act.number arg
    return ((← get).jobs.lookup n).getD 127) 0

end AssetCompiler.Shell.Builtin
