import AssetCompiler.Asset.Collection
import AssetCompiler.Cache.Manifest
import AssetCompiler.Workspace

/-! # The build cache

An open cache holds the rows of its manifest and the lock of its directory. Rows of deleted
sources are pruned, and fresh compiles are recorded. A row tells whether its asset is stale:
whether source, target, dependencies or deleted references have changed since.
-/
namespace AssetCompiler

inductive CacheError where
  | file (fault : Fault)
  | busy (directory : Path)
  deriving DecidableEq, Repr

def CacheError.message : CacheError → String
  | file fault => "IO error: " ++ fault.message
  | busy directory => "cache " ++ directory.text ++ " is in use by another build"

structure Cache where
  directory : Path
  rows : List Row := []
  /-- Sources whose rows were pruned since the cache was opened. -/
  pruned : List Path := []
  /-- Whether rows have changed since the manifest was loaded. -/
  dirty : Bool := false
  /-- The number under which the directory is locked. -/
  holder : Nat := 0
  deriving Inhabited

namespace Cache

def manifestPath (directory : Path) : Path := directory.join ⟨"cache.json"⟩

def lockPath (directory : Path) : Path := directory.join ⟨"cache.lock"⟩

/-- The rows of a manifest file. One that is missing, invalid or of another version has none. -/
def loadRows (files : Tree) (directory : Path) : List Row × List LogLine :=
  let path := manifestPath directory
  match files.readText path with
  | .error _ => ([], [])
  | .ok text =>
    match Manifest.parse? text with
    | none => ([], [.warn ("ignoring corrupt cache " ++ path.text)])
    | some (v, rows) =>
      if v = Manifest.version then (rows, [])
      else ([], [.info "cache format changed, rebuilding everything"])

/-- Locks a directory, which is made when it is missing, and loads its manifest. -/
def openAt (directory : Path) (w : Workspace) : Except CacheError Cache × Workspace :=
  match w.makeDirectories directory with
  | (.error fault, w) => (.error (.file fault), w)
  | (.ok (), w) =>
    match w.write (lockPath directory) ByteArray.empty with
    | .error fault => (.error (.file fault), w)
    | .ok w =>
      match w.lock? (lockPath directory) with
      | none => (.error (.busy directory), w)
      | some (holder, w) =>
        let (rows, log) := loadRows w.files directory
        (.ok { directory, rows, holder }, w.note log)

/-- Gives the lock up. -/
def close (c : Cache) (w : Workspace) : Workspace := w.unlock (lockPath c.directory) c.holder

/-- The row of an identity. Of several the last one counts. -/
def find? (c : Cache) (source : Path) (language : Option String) : Option Row :=
  c.rows.reverse.find? fun r => r.hasKey source language

/-- Deletes the targets of rows and remembers their sources, up to the first target that
cannot be deleted. -/
def dropTargets (c : Cache) (w : Workspace) : List Row → Except Fault Unit × Cache × Workspace
  | [] => (.ok (), c, w)
  | r :: rs =>
    match w.removeIfExists r.target with
    | .error fault => (.error fault, c, w)
    | .ok w =>
      let line := .info ("pruned " ++ r.source.text ++ " (removed " ++ r.target.text ++ ")")
      dropTargets { c with pruned := c.pruned ++ [r.source] } (w.note [line]) rs

/-- Drops the rows whose source is no file, and deletes their targets. Gives the dropped rows. -/
def prune (c : Cache) (w : Workspace) : Except Fault (List Row) × Cache × Workspace :=
  let gone := c.rows.filter fun r => !w.files.isFile r.source
  let kept := c.rows.filter fun r => w.files.isFile r.source
  let c := { c with rows := kept, dirty := c.dirty || !gone.isEmpty }
  let (result, c, w) := c.dropTargets w gone
  (result.map fun _ => gone, c, w)

/-- The stamps of an asset's dependencies as they are now. One without a row has none. -/
def stamps (c : Cache) (as : Collection) (a : Asset) : List Stamp :=
  a.dependencies.filterMap fun i =>
    let d := as.get i
    (c.find? d.source d.language).map Row.stamp

/-- A time as rows keep it. The last time of the range stands for all behind it. -/
def keptTime (modified : Nat) : Nat := min modified (2 ^ 64 - 1)

/-- Whether the source has changed: by its time, or else by its content. -/
def sourceChanged (digest : ByteArray → String) (files : Tree) (r : Row) (a : Asset) :
    Except Fault Bool := do
  let (_, e) ← files.find a.source
  if r.modified < keptTime e.modified then .ok true
  else .ok (digest (← files.read a.source) != r.checksum)

/-- Whether an asset has to be compiled again, given its row. -/
def isStale (digest : ByteArray → String) (files : Tree) (c : Cache) (as : Collection) (a : Asset) :
    Option Row → Except Fault Bool
  | none => .ok true
  | some r => do
    if ← sourceChanged digest files r a then .ok true
    else .ok (!files.isFile r.target ||
      a.dependencies.any (fun i => (as.get i).rebuilt) ||
      a.unresolved.any c.pruned.contains ||
      !Stamp.sameAll (c.stamps as a) r.dependencies)

/-- Replaces the last element that satisfies `p`, or adds one at the end. -/
def replaceLast {α : Type} (p : α → Bool) (x : α) (xs : List α) : List α :=
  match xs.reverse.findIdx? p with
  | some i => xs.set (xs.length - 1 - i) x
  | none => xs ++ [x]

/-- Puts a row in place of the one with its key. -/
def put (c : Cache) (r : Row) : Cache :=
  { c with rows := replaceLast (fun q => q.hasKey r.source r.language) r c.rows, dirty := true }

/-- Records a compile of an asset that wrote an output to a target. -/
def record (digest : ByteArray → String) (files : Tree) (c : Cache) (as : Collection) (a : Asset)
    (target : Path) (output : ByteArray) : Except Fault Cache := do
  let f ← files.file a.source
  .ok (c.put {
    source := a.source
    target
    language := a.language
    modified := keptTime f.modified
    checksum := digest f.bytes
    outputChecksum := digest output
    dependencies := c.stamps as a })

/-- Writes the manifest, if rows have changed. -/
def save (c : Cache) (w : Workspace) : Except CacheError Unit × Workspace :=
  if c.dirty then
    match w.write (manifestPath c.directory) (Manifest.render c.rows).toUTF8 with
    | .ok w => (.ok (), w)
    | .error fault => (.error (.file fault), w)
  else (.ok (), w)

end Cache

end AssetCompiler
