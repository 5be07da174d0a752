import AssetCompiler.Proofs.Files.Work
import Mathlib.Logic.Relation

/-! # Series of operations

What happens to the files in the course of a build, operation by operation. Before and after tell
less: a file can be made and taken away again in between. Each operation names the path that it
works on, and calls of the processor stand apart.
-/
namespace AssetCompiler

namespace Tree

/-- One operation on the files, on a path of some kind or by a processor. -/
inductive Acts (p : Processor) (within : Path → Prop) : Tree → Tree → Prop
  | write {t t' : Tree} (path : Path) (bytes : ByteArray) (now : Nat) (allowed : within path)
      (written : t.write path bytes now = .ok t') : Acts p within t t'
  | remove {t t' : Tree} (path : Path) (now : Nat) (allowed : within path)
      (removed : t.remove path now = .ok t') : Acts p within t t'
  /-- Takes or gives up the lock of a file. -/
  | hold {t : Tree} {l : Location} {f : File} (path : Path) (holder? : Option Nat) (allowed : within path)
      (found : t.find path = .ok (l, .file f)) : Acts p within t (t.put l (.file { f with holder? }))
  | makeDirectories (t : Tree) (path : Path) (now : Nat) :
      Acts p within t (t.makeDirectories path now).2
  | process (calls : List Call) (step : Step) (input : ByteArray) (disk : Disk) :
      Acts p within disk.files (p calls step input disk).2.files

/-- Any number of operations, one after the other. -/
def Performs (p : Processor) (within : Path → Prop) : Tree → Tree → Prop :=
  Relation.ReflTransGen (Acts p within)

variable {p : Processor} {within within' : Path → Prop} {own : Location → Prop} {t t' t'' : Tree}

/-- An operation changes no file but the one at its path, and those that belong to the processor. -/
theorem Acts.keeps (h : Acts p within t t')
    (hp : ∀ calls step input disk, Keeps own disk.files (p calls step input disk).2.files) :
    Keeps (fun l => own l ∨ ∃ path, within path ∧ l = path.resolve t.home) t t' := by
  cases h with
  | write path bytes now allowed written =>
    obtain ⟨l, hplace, hk, _⟩ := Tree.write_eq_ok written
    obtain ⟨rfl, _⟩ := Tree.locate_eq_ok (Tree.place_eq_ok hplace).1
    exact hk.mono fun l hl => .inr ⟨path, allowed, hl⟩
  | remove path now allowed removed =>
    obtain ⟨l, hlocate, _, hk, _⟩ := Tree.remove_eq_ok removed
    obtain ⟨rfl, _⟩ := Tree.locate_eq_ok hlocate
    exact hk.mono fun l hl => .inr ⟨path, allowed, hl⟩
  | hold path holder? allowed found =>
    obtain ⟨hlocate, hg⟩ := Tree.find_eq_ok_iff.mp found
    obtain ⟨rfl, _⟩ := Tree.locate_eq_ok hlocate
    exact (Tree.keeps_put_file hg).mono fun l hl => .inr ⟨path, allowed, hl⟩
  | makeDirectories _ path now => exact (t.makeDirectories_spec path now).1.mono fun _ hl => hl.elim
  | process calls step input disk => exact (hp calls step input disk).mono fun _ => .inl

theorem Acts.mono (h : Acts p within t t') (hw : ∀ path, within path → within' path) :
    Acts p within' t t' := by
  cases h with
  | write path bytes now allowed written => exact .write path bytes now (hw path allowed) written
  | remove path now allowed removed => exact .remove path now (hw path allowed) removed
  | hold path holder? allowed found => exact .hold path holder? (hw path allowed) found
  | makeDirectories _ path now => exact .makeDirectories t path now
  | process calls step input disk => exact .process calls step input disk

namespace Performs

theorem refl (p : Processor) (within : Path → Prop) (t : Tree) : Performs p within t t :=
  Relation.ReflTransGen.refl

theorem one (h : Acts p within t t') : Performs p within t t' := .single h

theorem trans (h : Performs p within t t') (h' : Performs p within t' t'') :
    Performs p within t t'' :=
  Relation.ReflTransGen.trans h h'

theorem mono (h : Performs p within t t') (hw : ∀ path, within path → within' path) :
    Performs p within' t t' :=
  Relation.ReflTransGen.mono (fun _ _ ha => Acts.mono ha hw) _ _ h

/-- From end to end a series changes what its operations can change. -/
theorem keeps (h : Performs p within t t')
    (hp : ∀ calls step input disk, Keeps own disk.files (p calls step input disk).2.files) :
    Keeps (fun l => own l ∨ ∃ path, within path ∧ l = path.resolve t.home) t t' := by
  induction h with
  | refl => exact .refl _ t
  | tail _ hact ih =>
    have hlast := hact.keeps hp
    rw [ih.grows.home] at hlast
    exact ih.trans hlast

end Performs

end Tree

open AssetCompiler.Tree (Performs)

namespace Workspace

variable {p : Processor} {within : Path → Prop} {w w' : Workspace} {path : Path}

theorem performs_write {bytes : ByteArray} (h : w.write path bytes = .ok w') (hw : within path) :
    Performs p within w.files w'.files :=
  .one (.write path bytes w.clock hw (change_eq_ok h).1)

theorem performs_removeIfExists (h : w.removeIfExists path = .ok w') (hw : within path) :
    Performs p within w.files w'.files := by
  unfold removeIfExists at h
  split at h
  · cases h
    exact .refl p within _
  · exact .one (.remove path w.clock hw (change_eq_ok h).1)

theorem performs_makeDirectories (p : Processor) (within : Path → Prop) (w : Workspace) (path : Path) :
    Performs p within w.files (w.makeDirectories path).2.files :=
  .one (.makeDirectories w.files path w.clock)

theorem performs_lock? {holder : Nat} (h : w.lock? path = some (holder, w')) (hw : within path) :
    Performs p within w.files w'.files := by
  unfold lock? at h
  split at h
  · rename_i l f hf
    split at h
    · cases h
    · cases h
      exact .one (.hold path (some w.locks) hw hf)
  · cases h

theorem performs_unlock (w : Workspace) (holder : Nat) (hw : within path) :
    Performs p within w.files (w.unlock path holder).files := by
  unfold unlock
  split
  · rename_i l f hf
    split
    · exact .one (.hold path none hw hf)
    · exact .refl p within _
  · exact .refl p within _

end Workspace

end AssetCompiler
