import AssetCompiler.Cache.Store
import AssetCompiler.Proofs.Files.Changes

/-! # What operations change in a workspace

The operations of a build on its workspace, seen through the files that they change. None of
them calls a processor.
-/
namespace AssetCompiler

open AssetCompiler.Tree (Keeps)

namespace Workspace

variable {w w' : Workspace} {p : Path} {bytes : ByteArray}

theorem change_eq_ok {f : Tree → Nat → Except Fault Tree} (h : w.change f = .ok w') :
    f w.files w.clock = .ok w'.files ∧ w'.calls = w.calls := by
  unfold change Disk.change at h
  cases ht : f w.files w.clock with
  | error e =>
    rw [ht] at h
    cases h
  | ok t =>
    rw [ht] at h
    cases h
    exact ⟨rfl, rfl⟩

theorem change_eq_error {f : Tree → Nat → Except Fault Tree} {fault : Fault}
    (h : w.change f = .error fault) : f w.files w.clock = .error fault := by
  unfold change Disk.change at h
  cases ht : f w.files w.clock with
  | error e =>
    rw [ht] at h
    cases h
    rfl
  | ok t =>
    rw [ht] at h
    cases h

theorem write_eq_ok (h : w.write p bytes = .ok w') :
    w.files.place p = .ok (p.resolve w.files.home) ∧
      Keeps (· = p.resolve w.files.home) w.files w'.files ∧
      w'.files.fileAt? (p.resolve w.files.home) =
        some ⟨bytes, w.clock, (w.files.fileAt? (p.resolve w.files.home)).bind File.holder?⟩ ∧
      w'.calls = w.calls := by
  obtain ⟨ht, hcalls⟩ := change_eq_ok h
  obtain ⟨l, hp, hk, hf⟩ := Tree.write_eq_ok ht
  obtain ⟨rfl, _⟩ := Tree.locate_eq_ok (Tree.place_eq_ok hp).1
  exact ⟨hp, hk, hf, hcalls⟩

theorem grows_of_write (h : w.write p bytes = .ok w') : w'.files.Grows w.files :=
  Tree.grows_of_write (change_eq_ok h).1

/-- Deleting what may be missing changes at most the file that the path leads to. -/
theorem removeIfExists_eq_ok (h : w.removeIfExists p = .ok w') :
    Keeps (· = p.resolve w.files.home) w.files w'.files ∧ w'.calls = w.calls := by
  unfold removeIfExists at h
  split at h
  · cases h
    exact ⟨.refl _ _, rfl⟩
  · obtain ⟨ht, hcalls⟩ := change_eq_ok h
    obtain ⟨l, hl, _, hk, _⟩ := Tree.remove_eq_ok ht
    obtain ⟨rfl, _⟩ := Tree.locate_eq_ok hl
    exact ⟨hk, hcalls⟩

theorem lost_of_removeIfExists (h : w.removeIfExists p = .ok w') (l : Location) :
    w'.files.fileAt? l = none ∨ w'.files.fileAt? l = w.files.fileAt? l := by
  unfold removeIfExists at h
  split at h
  · cases h
    exact Or.inr rfl
  · obtain ⟨ht, _⟩ := change_eq_ok h
    obtain ⟨m, _, _, hk, hgone⟩ := Tree.remove_eq_ok ht
    by_cases hl : l = m
    · exact Or.inl (hl ▸ hgone)
    · exact Or.inr (hk.files l hl)

theorem grows_of_removeIfExists (h : w.removeIfExists p = .ok w') : w'.files.Grows w.files := by
  unfold removeIfExists at h
  split at h
  · cases h
    exact .refl _
  · exact Tree.grows_of_remove (change_eq_ok h).1

/-- After a deletion no file is where the path led. -/
theorem gone_of_removeIfExists {l : Location} (h : w.removeIfExists p = .ok w')
    (hl : w.files.locate p = .ok l) : w'.files.fileAt? l = none := by
  unfold removeIfExists at h
  split at h
  · rename_i hmissing
    cases h
    refine Option.eq_none_iff_forall_ne_some.mpr fun f hf => ?_
    exact Tree.file_of_remove_missing (change_eq_error hmissing) f (Tree.file_eq_ok_iff.mpr ⟨l, hl, hf⟩)
  · obtain ⟨ht, _⟩ := change_eq_ok h
    obtain ⟨m, hm, _, _, hgone⟩ := Tree.remove_eq_ok ht
    rw [hl] at hm
    cases hm
    exact hgone

theorem makeDirectories_spec (w : Workspace) (p : Path) :
    Keeps (fun _ => False) w.files (w.makeDirectories p).2.files ∧
      (w.makeDirectories p).2.calls = w.calls ∧
      ((w.makeDirectories p).1 = .ok () →
        p.text = "" ∨ (w.makeDirectories p).2.files.isDirectory p = true) := by
  have h := Tree.makeDirectories_spec w.files p w.clock
  exact ⟨h.1, rfl, h.2⟩

theorem lock?_eq_some {holder : Nat} (h : w.lock? p = some (holder, w')) :
    ∃ f, w.files.fileAt? (p.resolve w.files.home) = some f ∧ f.holder? = none ∧
      Keeps (· = p.resolve w.files.home) w.files w'.files ∧
      w'.files.fileAt? (p.resolve w.files.home) = some { f with holder? := some holder } ∧
      w'.calls = w.calls := by
  unfold lock? at h
  split at h
  · rename_i l f hf
    obtain ⟨hl, hg⟩ := Tree.find_eq_ok_iff.mp hf
    obtain ⟨rfl, _⟩ := Tree.locate_eq_ok hl
    split at h
    · cases h
    · rename_i hfree
      cases h
      refine ⟨f, Tree.fileAt?_eq_some_iff.mpr hg, by simpa using hfree, ?_, ?_, rfl⟩
      · exact Tree.keeps_put_file hg
      · exact Tree.fileAt?_put_file hg
  · cases h

/-- Locking makes no directory. -/
theorem grows_of_lock? {holder : Nat} (h : w.lock? p = some (holder, w')) : w'.files.Grows w.files := by
  unfold lock? at h
  split at h
  · rename_i l f hf
    have hplain := Tree.not_isDir_of_file (Tree.find_eq_ok_iff.mp hf).2
    split at h
    · cases h
    · cases h
      exact (Tree.sameDirs_put_file hplain _).back
  · cases h

theorem unlock_spec {holder : Nat} {l : Location} (hl : w.files.locate p = .ok l) :
    Keeps (· = l) w.files (w.unlock p holder).files ∧ (w.unlock p holder).calls = w.calls ∧
      ∀ f, w.files.fileAt? l = some f → f.holder? = some holder →
        (w.unlock p holder).files.fileAt? l = some { f with holder? := none } := by
  unfold unlock
  split
  · rename_i m f hf
    obtain ⟨hm, hg⟩ := Tree.find_eq_ok_iff.mp hf
    obtain rfl : m = l := Except.ok.inj (hm.symm.trans hl)
    have hfile := Tree.fileAt?_eq_some_iff.mpr hg
    split
    · refine ⟨Tree.keeps_put_file hg, rfl, ?_⟩
      intro g hg' _
      rw [hfile] at hg'
      cases hg'
      exact Tree.fileAt?_put_file hg
    · rename_i hholder
      refine ⟨.refl _ _, rfl, ?_⟩
      intro g hg' hh
      rw [hfile] at hg'
      cases hg'
      exact absurd hh hholder
  · rename_i hnone
    refine ⟨.refl _ _, rfl, ?_⟩
    intro f hf _
    exact absurd (Tree.find_eq_ok_iff.mpr ⟨hl, Tree.fileAt?_eq_some_iff.mp hf⟩) (hnone l f)

theorem grows_of_unlock (w : Workspace) (p : Path) (holder : Nat) :
    (w.unlock p holder).files.Grows w.files := by
  unfold unlock
  split
  · rename_i l f hf
    split
    · have hplain := Tree.not_isDir_of_file (Tree.find_eq_ok_iff.mp hf).2
      exact (Tree.sameDirs_put_file hplain _).back
    · exact .refl _
  · exact .refl _

/-- A lock that nobody else has is free after it is given up. -/
theorem holder?_of_unlock {holder : Nat} {l : Location} {f : File} (hl : w.files.locate p = .ok l)
    (hown : ∀ g, w.files.fileAt? l = some g → g.holder? = some holder)
    (hf : (w.unlock p holder).files.fileAt? l = some f) : f.holder? = none := by
  cases hg : w.files.fileAt? l with
  | some g =>
    rw [(unlock_spec hl).2.2 g hg (hown g hg)] at hf
    cases hf
    rfl
  | none =>
    have hsame : w.unlock p holder = w := by
      unfold unlock
      split
      · rename_i m g hfind
        obtain ⟨hm, hget⟩ := Tree.find_eq_ok_iff.mp hfind
        rw [← Except.ok.inj (hm.symm.trans hl), Tree.fileAt?_eq_some_iff.mpr hget] at hg
        cases hg
      · rfl
    rw [hsame, hg] at hf
    cases hf

theorem calls_unlock (w : Workspace) (p : Path) (holder : Nat) :
    (w.unlock p holder).calls = w.calls := by
  unfold unlock
  split
  · split <;> rfl
  · rfl

end Workspace

end AssetCompiler
