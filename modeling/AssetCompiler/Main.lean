import AssetCompiler.CommandLine

/-! # The program

The files below the working directory are read into a tree, the command line runs on the tree
and what it changed is written back. A lock on the cache that another process holds appears
in the tree as a held lock.
-/
namespace AssetCompiler.Main

def timeOf (m : IO.FS.Metadata) : Nat := m.modified.sec.toNat * 10 ^ 9 + m.modified.nsec.toNat

/-- Reads what stands at a directory entry and everything below it. -/
partial def readEntry (above : Location) (e : IO.FS.DirEntry) : IO (List (Location × Entry)) := do
  let l := above ++ [e.fileName]
  let m ← e.path.metadata
  match m.type with
  | .dir =>
    let below ← (← e.path.readDir).toList.mapM (readEntry l)
    return (l, .directory (timeOf m)) :: below.flatten
  | .file => return [(l, .file { bytes := ← IO.FS.readBinFile e.path, modified := timeOf m })]
  | _ => return []

def readTree : IO Tree := do
  let dir ← IO.currentDir
  let home := (dir.toString.splitOn "/").filter (· != "")
  let above := (List.range home.length).map fun n => (home.take (n + 1), Entry.directory 0)
  let below ← (← dir.readDir).toList.mapM (readEntry home)
  return { home, entries := above ++ below.flatten }

/-- Carries the difference between two trees over to the disk. -/
def writeChanges (old new : Tree) : IO Unit := do
  for (l, e) in old.entries do
    if let .file _ := e then
      if (new.get? l).isNone then IO.FS.removeFile (Tree.pathOf l).text
  for (l, e) in new.entries do
    match e, old.get? l with
    | .directory _, none => IO.FS.createDirAll (Tree.pathOf l).text
    | _, _ => pure ()
  for (l, e) in new.entries do
    match e, old.get? l with
    | .file f, some (.file g) =>
      if f.bytes != g.bytes then IO.FS.writeBinFile (Tree.pathOf l).text f.bytes
    | .file f, _ => IO.FS.writeBinFile (Tree.pathOf l).text f.bytes
    | .directory _, _ => pure ()

/-- Locks a cache directory that exists. Gives the open lock, and whether it could be had. -/
def holdLock (directory : Path) : IO (Option IO.FS.Handle × Bool) := do
  try
    let lock ← IO.FS.Handle.mk (Cache.lockPath directory).text .append
    return (some lock, ← lock.tryLock)
  catch _ => return (none, true)

def markHeld (directory : Path) (w : Workspace) : Workspace :=
  match w.lock? (Cache.lockPath directory) with
  | some (_, w) => w
  | none => w

/-- The present time in nanoseconds, as far as the tree shows it: behind that of every entry. -/
def presentTime (files : Tree) : Nat :=
  files.entries.foldl (fun t e => max t (e.2.modified + 1)) 0

def run (args : List String) : IO CommandLine.Ending := do
  let directory? := CommandLine.cacheDirectory? (← readTree) args
  let (lock?, free) ← match directory? with
    | some directory => holdLock directory
    | none => pure (none, true)
  let files ← readTree
  let w : Workspace := { files, clock := presentTime files }
  let w := if free then w else (directory?.map fun d => markHeld d w).getD w
  let seed ← IO.getRandomBytes 16
  let (ending, done) := CommandLine.run (fun draw => seed ++ Context.drawNumber draw) args w
  writeChanges files done.files
  for line in done.log do
    IO.eprintln ("[" ++ line.level.label ++ "] " ++ line.text)
  if let some lock := lock? then lock.unlock
  return ending

end AssetCompiler.Main

def main (args : List String) : IO UInt32 := do
  let ending ← AssetCompiler.Main.run args
  IO.print ending.output
  return ending.exitCode.toUInt32
