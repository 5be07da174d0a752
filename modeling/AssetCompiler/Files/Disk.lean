import AssetCompiler.Files.Tree

/-! # Disks

A disk is a file tree with the time of its next change.
-/
namespace AssetCompiler

structure Disk where
  files : Tree := {}
  clock : Nat := 0
  deriving Inhabited

namespace Disk

def change (d : Disk) (f : Tree → Nat → Except Fault Tree) : Except Fault Disk :=
  (f d.files d.clock).map fun files => { files, clock := d.clock + 1 }

def write (d : Disk) (p : Path) (bytes : ByteArray) : Except Fault Disk :=
  d.change fun files now => files.write p bytes now

def content (d : Disk) (l : Location) : ByteArray :=
  match d.files.get? l with
  | some (.file f) => f.bytes
  | _ => ByteArray.empty

def setContent (d : Disk) (l : Location) (bytes : ByteArray) : Disk :=
  match d.files.get? l with
  | some (.file f) =>
    { files := d.files.put l (.file { f with bytes, modified := d.clock }), clock := d.clock + 1 }
  | _ => d

/-- A file at a location, which is made when there is none. -/
def create (d : Disk) (l : Location) : Except Fault Disk :=
  match d.files.get? l with
  | some (.directory _) => .error .isDirectory
  | some (.file _) => .ok d
  | none =>
    let f := Entry.file { bytes := ByteArray.empty, modified := d.clock }
    .ok { files := d.files.add l f d.clock, clock := d.clock + 1 }

end Disk

end AssetCompiler
