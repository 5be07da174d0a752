import AssetCompiler.Files.Disk
import AssetCompiler.Process.Status

/-! # Machines

A machine holds a disk and the channels that processes read from and write to. A descriptor of
a process leads to a channel, which several processes may share; a process that reads takes
what it has read away from the others. Processes run one after another, so a pipe is written
to its end before it is read.
-/
namespace AssetCompiler

inductive SystemError where
  | file (fault : Fault)
  | badDescriptor
  deriving DecidableEq, Repr

def SystemError.text : SystemError → String
  | file fault => fault.reason
  | badDescriptor => "Bad file descriptor"

/-- What the users of an open file may do with it. -/
structure Access where
  reads : Bool := false
  writes : Bool := false
  /-- Whether everything is written at the end. -/
  appends : Bool := false
  deriving DecidableEq, Repr

inductive Channel where
  /-- Takes everything and holds nothing. -/
  | void
  /-- Holds zeros without end. -/
  | zeros
  /-- The end of a pipe that is read, with what it still holds. -/
  | intake (rest : Octets)
  /-- The end of a pipe that is written, with what it was given, the newest part first. -/
  | outlet (parts : List Octets)
  | file (l : Location) (offset : Nat) (access : Access)
  | directory (l : Location)
  deriving Inhabited

/-- Where the descriptors of a process lead: numbers of channels. -/
abbrev Descriptors := List (Nat × Nat)

structure Machine where
  disk : Disk := {}
  channels : Array Channel := #[]
  /-- The name by which the program that runs was called. -/
  called : Octets := []
  environment : List (Octets × Octets) := []
  /-- The number of the process that runs, and of the one that has started it. -/
  process : Nat := 4242
  parent : Nat := 4241
  lastProcess : Nat := 4242
  /-- Signals that wait for a process, the newest first. -/
  signals : List (Nat × Nat) := []
  deriving Inhabited

namespace Machine

def attach (m : Machine) (c : Channel) : Nat × Machine :=
  (m.channels.size, { m with channels := m.channels.push c })

def channel (m : Machine) (i : Nat) : Channel := m.channels.getD i .void

def setChannel (m : Machine) (i : Nat) (c : Channel) : Machine :=
  { m with channels := m.channels.setIfInBounds i c }

def collected (m : Machine) (i : Nat) : Octets :=
  match m.channel i with
  | .outlet parts => parts.reverse.flatten
  | _ => []

def upTo (limit : Option Nat) (o : Octets) : Octets :=
  match limit with
  | some n => o.take n
  | none => o

/-- Takes octets from a channel, at most as many as a limit says. Only what has no end is not
read without a limit. -/
def read (m : Machine) (i : Nat) (limit : Option Nat) : Except SystemError (Octets × Machine) :=
  match m.channel i with
  | .void => .ok ([], m)
  | .zeros => .ok (List.replicate (limit.getD 0) '\x00', m)
  | .intake rest =>
    let front := upTo limit rest
    .ok (front, m.setChannel i (.intake (rest.drop front.length)))
  | .outlet _ => .error .badDescriptor
  | .directory _ => .error (.file .isDirectory)
  | .file l offset access =>
    if access.reads then
      let bytes := m.disk.content l
      let stop := match limit with
        | some n => min bytes.size (offset + n)
        | none => bytes.size
      let front := Octets.ofBytes (bytes.extract offset stop)
      .ok (front, m.setChannel i (.file l (offset + front.length) access))
    else .error .badDescriptor

/-- Puts octets back that were just read, where the channel is a file. -/
def unread (m : Machine) (i count : Nat) : Machine :=
  match m.channel i with
  | .file l offset access => m.setChannel i (.file l (offset - count) access)
  | _ => m

/-- The content of a file with octets written over it at an offset. -/
def overwrite (bytes : ByteArray) (offset : Nat) (o : Octets) : ByteArray :=
  let gap : ByteArray := ⟨Array.replicate (offset - bytes.size) 0⟩
  bytes.extract 0 offset ++ gap ++ Octets.toBytes o ++
    bytes.extract (offset + o.length) bytes.size

def write (m : Machine) (i : Nat) (o : Octets) : Except SystemError Machine :=
  match m.channel i with
  | .void | .zeros => .ok m
  | .intake _ | .directory _ => .error .badDescriptor
  | .outlet parts => .ok (m.setChannel i (.outlet (o :: parts)))
  | .file l offset access =>
    if !access.writes then .error .badDescriptor
    else if o = [] then .ok m
    else
      let bytes := m.disk.content l
      let offset := if access.appends then bytes.size else offset
      let m := { m with disk := m.disk.setContent l (overwrite bytes offset o) }
      .ok (m.setChannel i (.file l (offset + o.length) access))

def resolve (ds : Descriptors) (fd : Nat) : Except SystemError Nat :=
  match ds.lookup fd with
  | some i => .ok i
  | none => .error .badDescriptor

def readFrom (m : Machine) (ds : Descriptors) (fd : Nat) (limit : Option Nat) :
    Except SystemError (Octets × Machine) := do
  m.read (← resolve ds fd) limit

def writeTo (m : Machine) (ds : Descriptors) (fd : Nat) (o : Octets) :
    Except SystemError Machine := do
  m.write (← resolve ds fd) o

/-- Runs a new process and comes back to the one that runs. What the new one does to its own
working directory and environment does not stay. -/
def spawn {α : Type} (m : Machine) (run : Machine → α × Machine) : α × Machine :=
  let child := m.lastProcess + 1
  let (a, done) := run { m with process := child, parent := m.process, lastProcess := child }
  (a, { done with
    disk := { done.disk with files := { done.disk.files with home := m.disk.files.home } }
    called := m.called
    environment := m.environment
    process := m.process
    parent := m.parent })

def takeSignal (m : Machine) (process : Nat) : Option Nat × Machine :=
  match m.signals.reverse.find? fun s => s.1 == process with
  | some s => (some s.2, { m with signals := m.signals.erase s })
  | none => (none, m)

/-- Writes what may be lost. -/
def tell (m : Machine) (ds : Descriptors) (fd : Nat) (o : Octets) : Machine :=
  (m.writeTo ds fd o).toOption.getD m

inductive Mode where
  | read
  /-- An existing file is emptied, unless it has to be new. -/
  | write (exclusive : Bool)
  | append
  | update
  deriving DecidableEq, Repr

def Mode.access : Mode → Access
  | read => { reads := true }
  | write _ => { writes := true }
  | append => { writes := true, appends := true }
  | update => { reads := true, writes := true }

def deviceDescriptor? (name : String) : Option Nat :=
  if name = "/dev/stdin" then some 0
  else if name = "/dev/stdout" then some 1
  else if name = "/dev/stderr" then some 2
  else
    let numbered (folder : String) : Option Nat :=
      (Text.strip? folder.toList name.toList).bind fun ds =>
        if ds ≠ [] && ds.all Char.isDigit then (String.ofList ds).toNat? else none
    (numbered "/dev/fd/").or (numbered "/proc/self/fd/")

def openLocation (m : Machine) (l : Location) (mode : Mode) : Except SystemError (Nat × Machine) :=
  match mode, m.disk.files.get? l with
  | .read, some (.directory _) => .ok (m.attach (.directory l))
  | .read, some (.file _) => .ok (m.attach (.file l 0 mode.access))
  | .read, none => .error (.file .missing)
  | .write true, some (.file _) => .error (.file .alreadyExists)
  | mode, _ =>
    match m.disk.create l with
    | .error fault => .error (.file fault)
    | .ok disk =>
      let disk := match mode with
        | .write _ => disk.setContent l ByteArray.empty
        | _ => disk
      .ok ({ m with disk }.attach (.file l 0 mode.access))

/-- Opens what a descriptor leads to once more: a file from its start, a pipe as it is. -/
def reopen (m : Machine) (i : Nat) (mode : Mode) : Except SystemError (Nat × Machine) :=
  match m.channel i with
  | .file l _ _ | .directory l => m.openLocation l mode
  | _ => .ok (i, m)

def openPath (m : Machine) (ds : Descriptors) (p : Path) (mode : Mode) :
    Except SystemError (Nat × Machine) :=
  if p.text = "/dev/null" then .ok (m.attach .void)
  else if p.text = "/dev/zero" then .ok (m.attach .zeros)
  else match deviceDescriptor? p.text with
    | some fd =>
      match ds.lookup fd with
      | some i => m.reopen i mode
      | none => .error (.file .missing)
    | none =>
      let place := match mode with
        | .read => (m.disk.files.find p).map Prod.fst
        | _ => m.disk.files.place p
      match place with
      | .ok l => m.openLocation l mode
      | .error fault => .error (.file fault)

end Machine

end AssetCompiler
