import AssetCompiler.Process.Program
import AssetCompiler.Shell.Expansion

/-! # Redirecting descriptors

The names and numbers of redirections are expanded before anything is opened; then files are
opened one after another, up to the first that cannot be.
-/
namespace AssetCompiler.Shell

inductive Opening where
  | file (descriptor : Nat) (direction : Direction) (name : Octets)
  | duplicate (descriptor source : Nat)
  | close (descriptor : Nat)
  | document (descriptor number : Nat)

namespace Act

def prepare (run : Runner) : Redirection → Act Opening
  | .file fd direction name => do return .file fd direction (← single run name)
  | .duplicate fd source => return .duplicate fd source
  | .close fd => return .close fd
  | .document fd number => return .document fd number
  | .duplicateWord fd w => do
    match ← fields run w with
    | [] => fail "redir error".toList
    | ['-'] :: _ => return .close fd
    | [d] :: _ =>
      if d.isDigit then return .duplicate fd (d.toNat - 48)
      else fail "Syntax error: Bad fd number".toList
    | _ => fail "Syntax error: Bad fd number".toList

def lead (fd channel : Nat) : Act Unit :=
  modify fun s =>
    { s with descriptors := (fd, channel) :: s.descriptors.filter fun d => d.1 != fd }

def openingFault (creates : Bool) (e : SystemError) : Octets :=
  match e with
  | .file .missing | .file .notDirectory =>
    (if creates then "Directory nonexistent" else "No such file").toList
  | e => e.text.toList

def openFile (fd : Nat) (direction : Direction) (name : Octets) : Act Unit := do
  let s ← get
  let p := Program.pathOf name
  let isExclusive := direction == .output && s.hasOption 'C' && s.machine.disk.files.isFile p
  let mode : Machine.Mode := match direction with
    | .input => .read
    | .output => .write isExclusive
    | .clobber => .write false
    | .append => .append
    | .both => .update
  match s.machine.openPath s.descriptors p mode with
  | .ok (channel, machine) =>
    set { s with machine }
    lead fd channel
  | .error e =>
    let verb := if direction == .input then "cannot open " else "cannot create "
    fail (verb.toList ++ name ++ ": ".toList ++ openingFault (direction != .input) e)

def redirect (run : Runner) : Opening → Act Unit
  | .file fd direction name => openFile fd direction name
  | .close fd =>
    modify fun s => { s with descriptors := s.descriptors.filter fun d => d.1 != fd }
  | .duplicate fd source => do
    match Machine.resolve (← get).descriptors source with
    | .ok channel => lead fd channel
    | .error e => fail (Octets.ofNat source ++ ": ".toList ++ e.text.toList)
  | .document fd number => do
    let word := ((← get).documents.lookup number).getD []
    let text ← documentText run word
    let s ← get
    let (channel, machine) := s.machine.attach (.intake text)
    set { s with machine }
    lead fd channel

/-- Takes an action that may fail without ending the shell, and tells whether it did not. -/
def confine (act : Act Unit) : Act Bool := fun s =>
  match act.run.run s with
  | (.ok (), s) => (.ok true, s)
  | (.error .failed, s) => (.ok false, s)
  | (.error h, s) => (.error h, s)

/-- Carries out redirections, up to the first that fails; tells whether none did. -/
def redirectAll (run : Runner) (rs : List Redirection) : Act Bool := do
  let openings ← rs.mapM (prepare run)
  confine (openings.forM (redirect run))

/-- Takes an action and brings the descriptors back afterwards. -/
def withDescriptors {α : Type} (act : Act α) : Act α := do
  let descriptors := (← get).descriptors
  ensuring act fun s => { s with descriptors }

end Act

end AssetCompiler.Shell
