import AssetCompiler.Build.Produce
import AssetCompiler.Build.Report
import AssetCompiler.Cache.Store

/-! # Compiling one asset

An asset whose row is not stale keeps its target. Any other is produced, written to a new
target in place of the one its row names, and recorded. An asset that cannot be compiled
leaves its row as it was.
-/
namespace AssetCompiler

structure Session where
  work : Workspace
  cache : Cache
  assets : Collection
  catalog : Catalog
  deriving Inhabited

namespace Session

def note (s : Session) (lines : List LogLine) : Session := { s with work := s.work.note lines }

def setTarget (s : Session) (i : Nat) (target : Option Path) : Session :=
  { s with assets := s.assets.update i fun a => { a with target } }

def setWritten (s : Session) (i : Nat) (target : Path) : Session :=
  { s with assets := s.assets.update i fun a => { a with target := some target, rebuilt := true } }

def outcomeLine (o : Outcome) (a : Asset) (target : Path) : LogLine :=
  .info (o.label ++ " " ++ a.label ++ " → " ++ target.text)

/-- The row that an asset's target can be kept for, if there is one. -/
def reusable? (x : Context) (s : Session) (a : Asset) : Option Row → Except Fault (Option Row)
  | none => .ok none
  | some r =>
    if x.config.force then .ok none
    else (s.cache.isStale x.digest s.work.files s.assets a (some r)).map fun stale =>
      if stale then none else some r

def produce (x : Context) (s : Session) (a : Asset) : Except CompileError ByteArray × Session :=
  let (result, t, work) := Produce.content ⟨x, s.work.files, s.assets, a⟩ s.catalog s.work
  (result, { s with work := work.note t.log, catalog := t.catalog })

/-- A new target for an asset. A fingerprint is drawn from the source's content. -/
def newTarget (x : Context) (s : Session) (a : Asset) : Except Fault Path × Session :=
  if a.isFingerprinted then
    match s.work.files.read a.source with
    | .error fault => (.error fault, s)
    | .ok bytes =>
      let fingerprint := x.fingerprint s.work.drawn bytes
      (.ok (a.targetPath x.config (some fingerprint)),
        { s with work := { s.work with drawn := s.work.drawn + 1 } })
  else (.ok (a.targetPath x.config none), s)

/-- Deletes the target of an earlier compile, unless the new one takes its place. -/
def removeOld (w : Workspace) (target : Path) : Option Row → Except Fault Workspace
  | some r => if r.target == target then .ok w else w.removeIfExists r.target
  | none => .ok w

def makeParent (w : Workspace) (target : Path) : Except Fault Unit × Workspace :=
  match target.parent? with
  | some dir => w.makeDirectories dir
  | none => (.ok (), w)

def recordTarget (x : Context) (s : Session) (a : Asset) (target : Path) (bytes : ByteArray) :
    Except Fault Unit × Session :=
  match s.cache.record x.digest s.work.files s.assets a target bytes with
  | .ok cache => (.ok (), { s with cache })
  | .error fault => (.error fault, s)

def onWorkspace (s : Session) (f : Workspace → Except Fault Workspace) :
    Except Fault Unit × Session :=
  match f s.work with
  | .ok work => (.ok (), { s with work })
  | .error fault => (.error fault, s)

/-- Takes one step in the workspace, which may change before the step fails. -/
def inWorkspace (s : Session) (f : Workspace → Except Fault Unit × Workspace) :
    Except Fault Unit × Session :=
  let (result, work) := f s.work
  (result, { s with work })

/-- Takes one step after another, up to the first that fails. -/
def sequence (s : Session) :
    List (Session → Except Fault Unit × Session) → Except Fault Unit × Session
  | [] => (.ok (), s)
  | f :: fs =>
    match f s with
    | (.ok (), s) => sequence s fs
    | (.error fault, s) => (.error fault, s)

/-- Puts content in place at a new target and records it. -/
def install (x : Context) (s : Session) (a : Asset) (row? : Option Row) (target : Path)
    (bytes : ByteArray) : Except Fault Unit × Session :=
  s.sequence [
    (·.onWorkspace fun w => removeOld w target row?),
    (·.inWorkspace fun w => makeParent w target),
    (·.onWorkspace fun w => w.write target bytes),
    (·.recordTarget x a target bytes)]

def recompile (x : Context) (s : Session) (i : Nat) (row? : Option Row) :
    Except CompileError Outcome × Session :=
  let a := s.assets.get i
  match s.produce x a with
  | (.error e, s) => (.error e, s)
  | (.ok bytes, s) =>
    match s.newTarget x a with
    | (.error fault, s) => (.error (.file fault), s)
    | (.ok target, s) =>
      match s.install x a row? target bytes with
      | (.error fault, s) => (.error (.file fault), s)
      | (.ok (), s) =>
        let outcome := if row?.isSome then .updated else .created
        (.ok outcome, (s.note [outcomeLine outcome a target]).setWritten i target)

/-- Compiles an asset, or keeps the target that its row names. -/
def compile (x : Context) (s : Session) (i : Nat) : Except CompileError Outcome × Session :=
  let a := s.assets.get i
  let row? := s.cache.find? a.source a.language
  match s.reusable? x a row? with
  | .error fault => (.error (.file fault), s)
  | .ok (some r) =>
    (.ok .cached, (s.note [outcomeLine .cached a r.target]).setTarget i (some r.target))
  | .ok none => s.recompile x i row?

end Session

end AssetCompiler
