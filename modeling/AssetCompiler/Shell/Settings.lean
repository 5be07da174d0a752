import AssetCompiler.Shell.State

/-! # Options of a shell

A shell has options with letters and names, which are set behind a dash and taken back behind a
plus sign.
-/
namespace AssetCompiler.Shell

/-- The options with their names. The last two have no letter of their own. -/
def optionNames : List (Char × String) := [
  ('e', "errexit"), ('f', "noglob"), ('I', "ignoreeof"), ('i', "interactive"), ('m', "monitor"),
  ('n', "noexec"), ('s', "stdin"), ('x', "xtrace"), ('v', "verbose"), ('V', "vi"),
  ('E', "emacs"), ('C', "noclobber"), ('a', "allexport"), ('b', "notify"), ('u', "nounset"),
  ('\x01', "nolog"), ('\x02', "debug")]

namespace Act

def setLetter (on : Bool) (c : Char) : Act Unit := do
  if (optionNames.lookup c).isNone || c.toNat < 32 then fail ("Illegal option -".toList ++ [c])
  modify fun s => s.setOption c on

def setName (on : Bool) (name : Octets) : Act Unit := do
  match optionNames.find? fun o => o.2.toList == name with
  | some (c, _) => modify fun s => s.setOption c on
  | none => fail ("Illegal option -o ".toList ++ name)

/-- Shows all options, or how they are set. -/
def showOptions (on : Bool) : Act Unit := do
  let s ← get
  if on then
    print "Current option settings\n".toList
    optionNames.forM fun (c, name) =>
      print (name.toList ++ List.replicate (16 - name.length) ' ' ++
        (if s.hasOption c then "on\n" else "off\n").toList)
  else
    optionNames.forM fun (c, name) =>
      print ("set ".toList ++ (if s.hasOption c then "-o " else "+o ").toList ++ name.toList ++
        ['\n'])

/-- Sets the options of letters; a name may stand in the arguments that follow. -/
def setLetters (on : Bool) : Octets → List Octets → Act (List Octets)
  | [], rest => return rest
  | 'o' :: cs, rest => do
    match rest with
    | name :: rest =>
      setName on name
      setLetters on cs rest
    | [] =>
      showOptions on
      setLetters on cs []
  | c :: cs, rest => do
    setLetter on c
    setLetters on cs rest

/-- Takes the options in front of arguments; the number bounds how many there are. What is left
are parameters, if there are any or two dashes ask for none. -/
def takeOptions : Nat → List Octets → Act (Option (List Octets))
  | 0, _ => return none
  | _, [] => return none
  | n + 1, arg :: rest => do
    match arg with
    | ['-'] =>
      modify fun s => (s.setOption 'x' false).setOption 'v' false
      return if rest.isEmpty then none else some rest
    | ['-', '-'] => return some rest
    | '-' :: cs => takeOptions n (← setLetters true cs rest)
    | '+' :: cs => takeOptions n (← setLetters false cs rest)
    | _ => return some (arg :: rest)

end Act

end AssetCompiler.Shell
