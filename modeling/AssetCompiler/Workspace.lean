import AssetCompiler.Files.Disk
import AssetCompiler.Log
import AssetCompiler.Processor.Basic

/-! # Workspaces

A workspace is a disk together with what goes on on it: the log, the fingerprints drawn, the
locks taken and the calls of processors. A file operation that fails changes nothing, except
that directories may have been made.
-/
namespace AssetCompiler

structure Workspace extends Disk where
  log : List LogLine := []
  /-- How many fingerprints have been drawn. -/
  drawn : Nat := 0
  /-- How many locks have been taken. -/
  locks : Nat := 0
  calls : List Call := []
  deriving Inhabited

namespace Workspace

def note (w : Workspace) (lines : List LogLine) : Workspace := { w with log := w.log ++ lines }

/-- Changes the files at the present time, which moves on. -/
def change (w : Workspace) (f : Tree → Nat → Except Fault Tree) : Except Fault Workspace :=
  (w.toDisk.change f).map fun d => { w with toDisk := d }

def write (w : Workspace) (p : Path) (bytes : ByteArray) : Except Fault Workspace :=
  w.change fun files now => files.write p bytes now

def remove (w : Workspace) (p : Path) : Except Fault Workspace :=
  w.change fun files now => files.remove p now

def removeAll (w : Workspace) (p : Path) : Except Fault Workspace :=
  w.change fun files now => files.removeAll p now

def removeIfExists (w : Workspace) (p : Path) : Except Fault Workspace :=
  match w.remove p with
  | .error .missing => .ok w
  | r => r

/-- Makes a directory and those above it that are missing. -/
def makeDirectories (w : Workspace) (p : Path) : Except Fault Unit × Workspace :=
  let (result, files) := w.files.makeDirectories p w.clock
  (result, { w with files, clock := w.clock + 1 })

/-- Gives the lock of a file to a new holder, unless somebody holds it. -/
def lock? (w : Workspace) (p : Path) : Option (Nat × Workspace) :=
  match w.files.find p with
  | .ok (l, .file f) =>
    if f.holder?.isSome then none
    else some (w.locks, { w with
      files := w.files.put l (.file { f with holder? := some w.locks })
      locks := w.locks + 1 })
  | _ => none

def unlock (w : Workspace) (p : Path) (holder : Nat) : Workspace :=
  match w.files.find p with
  | .ok (l, .file f) =>
    if f.holder? = some holder then
      { w with files := w.files.put l (.file { f with holder? := none }) }
    else w
  | _ => w

end Workspace

end AssetCompiler
