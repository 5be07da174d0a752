import AssetCompiler.Process.Machine
import AssetCompiler.Process.Options
import AssetCompiler.Process.Quoting

/-! # Programs

A program takes its arguments and the descriptors that it was given. It runs in a machine, which
it leaves changed, and ends with a status. By custom the first three descriptors are its input,
its output and its diagnostics.
-/
namespace AssetCompiler

abbrev Program := List Octets → Descriptors → Machine → Status × Machine

namespace Program

/-- Writes a line of diagnostics, under the name by which the program was called. -/
def complain (text : Octets) (ds : Descriptors) (m : Machine) : Machine :=
  m.tell ds 2 (m.called ++ ": ".toList ++ text ++ ['\n'])

def fail (text : Octets) (ds : Descriptors) (m : Machine) : Status × Machine :=
  (.exited 1, complain text ds m)

def misuse (text : Octets) (ds : Descriptors) (m : Machine) : Status × Machine :=
  let hint := "\nTry '".toList ++ m.called ++ " --help' for more information.".toList
  fail (text ++ hint) ds m

/-- Writes to the output and ends; a closed output is a failure. -/
def finish (status : Status) (output : Octets) (ds : Descriptors) (m : Machine) :
    Status × Machine :=
  match m.writeTo ds 1 output with
  | .ok m => (status, m)
  | .error e => fail ("write error: ".toList ++ e.text.toList) ds m

def pathOf (name : Octets) : Path := ⟨Octets.toText name⟩

def succeed : Program := fun _ _ m => (.success, m)

def decline : Program := fun _ _ m => (.exited 1, m)

end Program

end AssetCompiler
