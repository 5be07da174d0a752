import AssetCompiler.Process.Program

/-! # Finding programs

Programs have their names in the folders for programs. A name with a separator is a path; any
other is looked for in a list of folders. Files of a tree can be found but not run.
-/
namespace AssetCompiler

abbrev Programs := List (String × Program)

namespace Programs

def folders : List Path := [⟨"/bin"⟩, ⟨"/usr/bin"⟩]

/-- The list of folders that is used unless another one is given. -/
def defaultFolders : String :=
  "/usr/local/sbin:/usr/local/bin:/usr/sbin:/usr/bin:/sbin:/bin"

inductive Found where
  | program (path : Octets) (p : Program)
  /-- Something that must not be run. -/
  | denied
  | absent (fault : Fault)

def atPath (table : Programs) (files : Tree) (name : Octets) : Found :=
  let path := Program.pathOf name
  let inFolder := path.parent?.any fun folder => folders.any (· == folder)
  match if inFolder then path.fileName?.bind fun n => table.lookup n else none with
  | some p => .program name p
  | none =>
    match files.find path with
    | .ok _ => .denied
    | .error fault => .absent fault

/-- What is found in folders; a file that must not be run is passed over. -/
def inFolders (table : Programs) (files : Tree) (name : Octets) : List Octets → Found
  | [] => .absent .missing
  | folder :: rest =>
    let path := if folder = [] then name else folder ++ '/' :: name
    match atPath table files path, inFolders table files name rest with
    | .program path p, _ => .program path p
    | .denied, .absent fault =>
      if files.isDirectory (Program.pathOf path) then .absent fault else .denied
    | _, found => found

def find (table : Programs) (files : Tree) (list name : Octets) : Found :=
  if name = [] then .absent .missing
  else if name.contains '/' then atPath table files name
  else inFolders table files name (Text.pieces ':' list)

end Programs

end AssetCompiler
