import AssetCompiler.Proofs.Cache.Rows
import AssetCompiler.Proofs.Files.Changes

/-! # When a row is stale

A row is kept when it describes the source, its target is there, and its stamps are those of the
dependencies. All else that makes an asset stale is known only while a build goes on.
-/
namespace AssetCompiler

namespace Stamp

theorem same_refl (a : Stamp) : a.same a = true := by
  simp [same, Path.beq_refl]

theorem sameAll_refl (as : List Stamp) : sameAll as as = true := by
  induction as with
  | nil => rfl
  | cons a as ih => simp [sameAll, same_refl, ih]

theorem exists_same_of_mem {as bs : List Stamp} (h : sameAll as bs = true) :
    (∀ a ∈ as, ∃ b ∈ bs, a.same b = true) ∧ ∀ b ∈ bs, ∃ a ∈ as, a.same b = true := by
  induction as generalizing bs with
  | nil =>
    cases bs with
    | nil => simp
    | cons b bs => cases h
  | cons a as ih =>
    cases bs with
    | nil => cases h
    | cons b bs =>
      simp only [sameAll, Bool.and_eq_true] at h
      obtain ⟨h1, h2⟩ := ih h.2
      refine ⟨fun x hx => ?_, fun y hy => ?_⟩
      · rcases List.mem_cons.mp hx with rfl | hx
        · exact ⟨b, List.mem_cons_self, h.1⟩
        · obtain ⟨y, hy, hs⟩ := h1 x hx
          exact ⟨y, List.mem_cons_of_mem _ hy, hs⟩
      · rcases List.mem_cons.mp hy with rfl | hy
        · exact ⟨a, List.mem_cons_self, h.1⟩
        · obtain ⟨x, hx, hs⟩ := h2 y hy
          exact ⟨x, List.mem_cons_of_mem _ hx, hs⟩

end Stamp

/-- Whether a row describes a source: the source is not younger, and has the content that the
row's checksum is of. -/
def Row.Describes (digest : ByteArray → String) (files : Tree) (r : Row) (source : Path) : Prop :=
  ∃ f, files.file source = .ok f ∧ ¬r.modified < Cache.keptTime f.modified ∧
    digest f.bytes = r.checksum

namespace Cache

variable {digest : ByteArray → String} {files : Tree} {c c' : Cache} {as as' : Collection}
  {a a' : Asset} {r : Row}

theorem find_of_file {t : Tree} {p : Path} {f : File} (h : t.file p = .ok f) :
    ∃ l, t.find p = .ok (l, .file f) := by
  obtain ⟨l, hl, hf⟩ := Tree.file_eq_ok_iff.mp h
  exact ⟨l, Tree.find_eq_ok_iff.mpr ⟨hl, Tree.fileAt?_eq_some_iff.mp hf⟩⟩

theorem sourceChanged_of_file {f : File} (h : files.file a.source = .ok f) :
    sourceChanged digest files r a =
      .ok (decide (r.modified < keptTime f.modified) || digest f.bytes != r.checksum) := by
  obtain ⟨l, hl⟩ := find_of_file h
  have hr : files.read a.source = .ok f.bytes := Tree.read_eq_ok_iff.mpr ⟨f, h, rfl⟩
  unfold sourceChanged
  simp only [hl, hr, bind, Except.bind, Entry.modified]
  by_cases hm : r.modified < keptTime f.modified <;> simp [hm]

theorem sourceChanged_eq_false_iff :
    sourceChanged digest files r a = .ok false ↔ r.Describes digest files a.source := by
  constructor
  · intro h
    obtain ⟨⟨l, e⟩, hf, h⟩ := bind_eq_ok_iff.mp h
    dsimp only at h
    split at h
    · cases h
    · rename_i hm
      obtain ⟨bytes, hr, h⟩ := bind_eq_ok_iff.mp h
      obtain ⟨f, hfile, rfl⟩ := Tree.read_eq_ok_iff.mp hr
      obtain ⟨l', hl'⟩ := find_of_file hfile
      rw [hf] at hl'
      cases hl'
      exact ⟨f, hfile, hm, by simpa using h⟩
  · rintro ⟨f, hf, hm, hd⟩
    rw [sourceChanged_of_file hf]
    simp [hm, hd]

/-- What a row is kept for. -/
theorem isStale_eq_false_iff : isStale digest files c as a (some r) = .ok false ↔
    r.Describes digest files a.source ∧ files.isFile r.target = true ∧
      (∀ i ∈ a.dependencies, (as.get i).rebuilt = false) ∧
      (∀ p ∈ a.unresolved, c.pruned.contains p = false) ∧
      Stamp.sameAll (c.stamps as a) r.dependencies = true := by
  rw [← sourceChanged_eq_false_iff]
  unfold isStale
  dsimp only
  cases hs : sourceChanged digest files r a with
  | error e => simp [bind, Except.bind]
  | ok changed =>
    cases changed with
    | true => simp [bind, Except.bind]
    | false => simp [bind, Except.bind, and_assoc]

/-- A row whose source can be read is judged one way or the other. -/
theorem isStale_eq_true_of_ne {f : File} (h : files.file a.source = .ok f)
    (hne : isStale digest files c as a (some r) ≠ .ok false) :
    isStale digest files c as a (some r) = .ok true := by
  unfold isStale at hne ⊢
  dsimp only at hne ⊢
  rw [sourceChanged_of_file h] at hne ⊢
  simp only [bind, Except.bind] at hne ⊢
  split
  · rfl
  · rename_i hsame
    rw [if_neg hsame] at hne
    exact congrArg _ (Bool.of_not_eq_false fun he => hne (congrArg _ he))

theorem stamps_congr (hd : a'.dependencies = a.dependencies)
    (h : ∀ i ∈ a.dependencies, c'.find? (as'.get i).source (as'.get i).language =
      c.find? (as.get i).source (as.get i).language) : c'.stamps as' a' = c.stamps as a := by
  unfold stamps
  rw [hd]
  refine List.filterMap_congr fun i hi => ?_
  dsimp only
  rw [h i hi]

theorem keptTime_lt (modified : Nat) : keptTime modified < 2 ^ 64 := by
  unfold keptTime
  have h : 0 < 2 ^ 64 := Nat.two_pow_pos 64
  omega

/-- The row for a compile of an asset, whose source is the given file, to a target. -/
def rowFor (c : Cache) (digest : ByteArray → String) (f : File) (as : Collection) (a : Asset)
    (target : Path) (output : ByteArray) : Row where
  source := a.source
  target := target
  language := a.language
  modified := keptTime f.modified
  checksum := digest f.bytes
  outputChecksum := digest output
  dependencies := c.stamps as a

theorem record_eq_ok {target : Path} {output : ByteArray}
    (h : record digest files c as a target output = .ok c') :
    ∃ f, files.file a.source = .ok f ∧ c' = c.put (c.rowFor digest f as a target output) := by
  obtain ⟨f, hf, h⟩ := bind_eq_ok_iff.mp h
  exact ⟨f, hf, (Except.ok.inj h).symm⟩

theorem describes_rowFor {f : File} {target : Path} {output : ByteArray}
    (h : files.file a.source = .ok f) :
    (c.rowFor digest f as a target output).Describes digest files a.source :=
  ⟨f, h, Nat.lt_irrefl _, rfl⟩

/-- A row that says how an asset's source, target and dependencies are. -/
structure Settled (digest : ByteArray → String) (files : Tree) (c : Cache) (as : Collection)
    (a : Asset) (r : Row) : Prop where
  found : c.find? a.source a.language = some r
  source : r.Describes digest files a.source
  target : files.isFile r.target = true
  stamps : Stamp.sameAll (c.stamps as a) r.dependencies = true

/-- The row of a settled asset is kept unless something was rebuilt or pruned. -/
theorem Settled.isStale_eq_false (h : Settled digest files c as a r)
    (hr : ∀ i ∈ a.dependencies, (as.get i).rebuilt = false)
    (hp : ∀ p ∈ a.unresolved, c.pruned.contains p = false) :
    isStale digest files c as a (some r) = .ok false :=
  isStale_eq_false_iff.mpr ⟨h.source, h.target, hr, hp, h.stamps⟩

end Cache

end AssetCompiler
