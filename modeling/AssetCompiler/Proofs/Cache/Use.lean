import AssetCompiler.Proofs.Cache.Disk
import AssetCompiler.Proofs.Cache.Stale

/-! # Caches in use

Between opening and closing, a cache is pruned, recorded in and saved any number of times. As long as
it is not dirty, its manifest has its rows, and a manifest that was saved is read back as these rows
when the directory is opened again. The lock is given up for that, even where its file is gone.
-/
namespace AssetCompiler

open AssetCompiler.Tree (Keeps)

namespace Manifest

theorem lt_of_unsigned? {bits n : Nat} {v : Json.Form} (h : unsigned? bits v = some n) :
    n < 2 ^ bits := by
  unfold unsigned? at h
  split at h
  · split at h
    · rename_i i hi
      cases h
      simp only [Bool.and_eq_true, decide_eq_true_eq] at hi
      have hcast : ((2 ^ bits : Nat) : Int) = 2 ^ bits := by norm_cast
      omega
    · cases h
  · cases h

/-- Only times that fit in 64 bits are read. -/
theorem fits_of_row? {v : Json.Form} {r : Row} (h : row? v = some r) : Fits r := by
  unfold row? at h
  simp only [bind, Option.bind_eq_some_iff] at h
  obtain ⟨_, _, _, _, _, _, _, _, modified, ⟨_, _, hmodified⟩, _, _, _, _, _, _, h⟩ := h
  cases h
  exact lt_of_unsigned? hmodified

theorem fits_of_rows? {items : List Json.Form} {rows : List Row} (h : items.mapM row? = some rows) :
    ∀ r ∈ rows, Fits r := by
  induction items generalizing rows with
  | nil =>
    cases h
    exact fun r hr => (by cases hr)
  | cons v vs ih =>
    rw [List.mapM_cons] at h
    obtain ⟨r, hr, h⟩ := Option.bind_eq_some_iff.mp h
    obtain ⟨rs, hrs, h⟩ := Option.bind_eq_some_iff.mp h
    cases h
    exact List.forall_mem_cons.mpr ⟨fits_of_row? hr, ih hrs⟩

theorem fits_of_parse? {text : String} {v : Nat} {rows : List Row} (h : parse? text = some (v, rows)) :
    ∀ r ∈ rows, Fits r := by
  unfold parse? at h
  simp only [bind, Option.bind_eq_some_iff] at h
  obtain ⟨_, _, _, _, _, _, rows', ⟨entries, _, hrows⟩, h⟩ := h
  cases h
  unfold list? at hrows
  split at hrows
  · exact fits_of_rows? hrows
  · cases hrows

end Manifest

namespace Cache

variable {directory : Path} {c c' : Cache} {w w' : Workspace}

theorem grows_of_save (h : c.save w = (.ok (), w')) : w'.files.Grows w.files := by
  unfold save at h
  split at h
  · split at h
    · rename_i hw
      cases h
      exact Workspace.grows_of_write hw
    · cases h
  · cases h
    exact .refl _

theorem fits_of_savedRows (t : Tree) (directory : Path) : ∀ r ∈ savedRows t directory, Manifest.Fits r := by
  unfold savedRows rowsAt
  split
  · exact fun r hr => (by cases hr)
  · split
    · exact fun r hr => (by cases hr)
    · rename_i hp
      split
      · exact Manifest.fits_of_parse? hp
      · exact fun r hr => (by cases hr)

/-- What others may change while a cache directory is in use: all but the directory and the two
files of the cache in it. -/
structure Spares (directory : Path) (t t' : Tree) : Prop where
  home : t'.home = t.home
  isDirectory : t.isDirectory directory = true → t'.isDirectory directory = true
  lockPlace : t'.place (lockPath directory) = t.place (lockPath directory)
  lock : t'.get? (lockAt t.home directory) = t.get? (lockAt t.home directory)
  manifest : t'.fileAt? (manifestAt t.home directory) = t.fileAt? (manifestAt t.home directory)

/-- An open cache and its workspace after some use. A compile that cannot be recorded and a manifest
that cannot be saved change nothing. -/
inductive InUse (directory : Path) : Cache → Workspace → Prop
  | opened {c : Cache} {w w' : Workspace} (opens : openAt directory w = (.ok c, w')) : InUse directory c w'
  | prune {c : Cache} {w : Workspace} (before : InUse directory c w) :
      InUse directory (c.prune w).2.1 (c.prune w).2.2
  | record {c c' : Cache} {w : Workspace} (digest : ByteArray → String) (assets : Collection) (a : Asset)
      (target : Path) (output : ByteArray) (before : InUse directory c w)
      (recorded : record digest w.files c assets a target output = .ok c') : InUse directory c' w
  | save {c : Cache} {w w' : Workspace} (before : InUse directory c w)
      (saved : c.save w = (.ok (), w')) : InUse directory c w'
  | others {c : Cache} {w w' : Workspace} (before : InUse directory c w)
      (spared : Spares directory w.files w'.files) : InUse directory c w'

/-- What is known of a cache in use. Nobody else has its lock. -/
structure Held (directory : Path) (c : Cache) (w : Workspace) : Prop where
  directory_eq : c.directory = directory
  fits : ∀ r ∈ c.rows, Manifest.Fits r
  stored : c.dirty = false → savedRows w.files directory = c.rows
  isDirectory : directory.text = "" ∨ w.files.isDirectory directory = true
  lockPlace : w.files.place (lockPath directory) = .ok (lockAt w.files.home directory)
  lockFree : ¬w.files.IsDir (lockAt w.files.home directory)
  lock : ∀ f, w.files.fileAt? (lockAt w.files.home directory) = some f → f.holder? = some c.holder

theorem held_of_openAt (h : openAt directory w = (.ok c, w')) : Held directory c w' := by
  have ho := opened_of_openAt h
  obtain ⟨f, hf, _, hholder⟩ := ho.lock
  have hhome := ho.keeps.grows.home
  have hsaved : savedRows w'.files directory = savedRows w.files directory := by
    unfold savedRows
    rw [hhome]
    exact rowsAt_congr (ho.keeps.files _ (manifestAt_ne_lockAt _ _))
  rw [← hhome] at hf
  refine ⟨ho.directory_eq, ?_, fun _ => hsaved.trans ho.rows.symm, ho.isDirectory, ?_, ?_, ?_⟩
  · rw [ho.rows]
    exact fits_of_savedRows _ _
  · rw [hhome]
    exact ho.lockPlace
  · intro hd
    rw [Tree.fileAt?_eq_none_of_isDir hd] at hf
    cases hf
  · intro g hg
    rw [hf] at hg
    cases hg
    exact hholder

namespace Held

theorem prune (h : Held directory c w) : Held directory (c.prune w).2.1 (c.prune w).2.2 := by
  obtain ⟨hrows, hdirectory, hholder, _, hkeeps, hclean⟩ := c.prune_spec w
  have hhome := hkeeps.grows.home
  refine ⟨hdirectory.trans h.directory_eq, ?_, ?_, h.isDirectory.imp_right hkeeps.grows.isDirectory, ?_,
    ?_, ?_⟩
  · rw [hrows]
    exact fun r hr => h.fits r (List.mem_of_mem_filter hr)
  · intro hd
    obtain ⟨hbefore, hall⟩ := hclean hd
    have hfiles : ∀ r ∈ c.rows, w.files.isFile r.source = true := List.filter_eq_self.mp hall
    rw [prune_of_isFile hfiles]
    exact h.stored hbefore
  · rw [hhome]
    exact hkeeps.grows.place h.lockPlace
  · rw [hhome]
    exact fun hd => h.lockFree ((c.grows_of_prune w).dirs _ hd)
  · rw [hhome, hholder]
    intro f hf
    rcases c.lost_of_prune w (lockAt w.files.home directory) with hl | hl
    · rw [hl] at hf
      cases hf
    · exact h.lock f (hl.symm.trans hf)

theorem record {digest : ByteArray → String} {assets : Collection} {a : Asset} {target : Path}
    {output : ByteArray}
    (h : Held directory c w) (hr : Cache.record digest w.files c assets a target output = .ok c') :
    Held directory c' w := by
  obtain ⟨f, _, rfl⟩ := record_eq_ok hr
  refine ⟨h.directory_eq, fun r hmem => ?_, fun hd => (by cases hd), h.isDirectory, h.lockPlace, h.lockFree,
    h.lock⟩
  rcases mem_put hmem with rfl | hmem
  · exact keptTime_lt f.modified
  · exact h.fits r hmem

theorem save (h : Held directory c w) (hs : c.save w = (.ok (), w')) : Held directory c w' := by
  obtain ⟨_, hkeeps, hclean, _⟩ := save_spec hs
  have hhome := hkeeps.grows.home
  rw [h.directory_eq] at hkeeps
  refine ⟨h.directory_eq, h.fits, fun hd => ?_, h.isDirectory.imp_right hkeeps.grows.isDirectory, ?_, ?_,
    ?_⟩
  · rw [hclean hd]
    exact h.stored hd
  · rw [hhome]
    exact hkeeps.grows.place h.lockPlace
  · rw [hhome]
    exact fun hd => h.lockFree ((grows_of_save hs).dirs _ hd)
  · rw [hhome, hkeeps.files _ (manifestAt_ne_lockAt _ _).symm]
    exact h.lock

theorem others (h : Held directory c w) (hs : Spares directory w.files w'.files) :
    Held directory c w' := by
  refine ⟨h.directory_eq, h.fits, fun hd => ?_, h.isDirectory.imp_right hs.isDirectory, ?_, ?_, ?_⟩
  · rw [← h.stored hd]
    unfold savedRows
    rw [hs.home]
    exact rowsAt_congr hs.manifest
  · rw [hs.home, hs.lockPlace]
    exact h.lockPlace
  · rw [hs.home]
    unfold Tree.IsDir
    rw [hs.lock]
    exact h.lockFree
  · rw [hs.home]
    unfold Tree.fileAt?
    rw [hs.lock]
    exact h.lock

theorem of_inUse (h : InUse directory c w) : Held directory c w := by
  induction h with
  | opened opens => exact held_of_openAt opens
  | prune _ ih => exact ih.prune
  | record _ _ _ _ _ _ recorded ih => exact ih.record recorded
  | save _ saved ih => exact ih.save saved
  | others _ spared ih => exact ih.others spared

theorem locate_lock (h : Held directory c w) :
    w.files.locate (lockPath directory) = .ok (lockAt w.files.home directory) :=
  (Tree.place_eq_ok h.lockPlace).1

theorem loadRows (h : Held directory c w) (hd : c.dirty = false) :
    (Cache.loadRows w.files directory).1 = c.rows :=
  (loadRows_eq (locate_manifest h.locate_lock)).trans (h.stored hd)

/-- After a save the manifest has the rows of the cache, whether or not it was written. -/
theorem savedRows_of_save (h : Held directory c w) (hs : c.save w = (.ok (), w')) :
    savedRows w'.files directory = c.rows := by
  obtain ⟨_, _, hclean, hdirty⟩ := save_spec hs
  cases hd : c.dirty with
  | false =>
    rw [hclean hd]
    exact h.stored hd
  | true =>
    rw [← h.directory_eq]
    exact hdirty hd h.fits

theorem keeps_close (h : Held directory c w) :
    Keeps (· = lockAt w.files.home directory) w.files (c.close w).files := by
  unfold close
  rw [h.directory_eq]
  exact (Workspace.unlock_spec h.locate_lock).1

/-- A directory that is given up can be opened again. -/
theorem exists_openAt_close (h : Held directory c w) :
    ∃ c₂ w₂, openAt directory (c.close w) = (.ok c₂, w₂) := by
  have hkeeps := h.keeps_close
  have hhome := hkeeps.grows.home
  refine exists_openAt_eq_ok (h.isDirectory.imp_right hkeeps.grows.isDirectory) ?_ ?_ ?_
  · rw [hhome]
    exact hkeeps.grows.place h.lockPlace
  · rw [hhome]
    exact fun hd => h.lockFree ((Workspace.grows_of_unlock _ _ _).dirs _ hd)
  · rw [hhome]
    intro f hf
    unfold close at hf
    rw [h.directory_eq] at hf
    exact Workspace.holder?_of_unlock h.locate_lock h.lock hf

/-- Giving the lock up and taking it again leaves the manifest as it is. -/
theorem rows_of_reopen {c₂ : Cache} {w₂ : Workspace} (h : Held directory c w)
    (ho : openAt directory (c.close w) = (.ok c₂, w₂)) : c₂.rows = savedRows w.files directory := by
  have hkeeps := h.keeps_close
  rw [(opened_of_openAt ho).rows]
  unfold savedRows
  rw [hkeeps.grows.home]
  exact rowsAt_congr (hkeeps.files _ (manifestAt_ne_lockAt _ _))

end Held

theorem find?_congr {c₂ : Cache} (h : c₂.rows = c.rows) (source : Path) (language : Option String) :
    c₂.find? source language = c.find? source language := by
  unfold find?
  rw [h]

/-- The manifest of a clean cache has its rows. Saving, closing and opening again gives back the rows,
in their order, and with them what is found. -/
theorem reopen_eq (h : InUse directory c w) :
    (c.dirty = false → (loadRows w.files directory).1 = c.rows) ∧
      ∀ w', c.save w = (.ok (), w') →
        ∃ c₂ w₂, openAt directory (c.close w') = (.ok c₂, w₂) ∧ c₂.rows = c.rows ∧
          ∀ source language, c₂.find? source language = c.find? source language := by
  have hheld := Held.of_inUse h
  refine ⟨hheld.loadRows, fun w' hs => ?_⟩
  have hafter := hheld.save hs
  obtain ⟨c₂, w₂, ho⟩ := hafter.exists_openAt_close
  have hrows : c₂.rows = c.rows := (hafter.rows_of_reopen ho).trans (hheld.savedRows_of_save hs)
  exact ⟨c₂, w₂, ho, hrows, find?_congr hrows⟩

end Cache

namespace Sample

/-- A page that embeds a stylesheet, with a time that rows have no room for and a language that
has to be escaped. -/
def pair : Collection := [
  .ofSource .stylesheet ⟨"site.css"⟩ none,
  { Asset.ofSource .markup ⟨"page.html"⟩ (some "\"ü\\\n") with dependencies := [0] }]

def pairFiles : Workspace where
  files := { entries := [
    (["site.css"], .file { bytes := ByteArray.empty, modified := 5 }),
    (["page.html"], .file { bytes := ByteArray.empty, modified := 2 ^ 70 })] }

/-- The cache and the workspace right after opening. -/
def pairOpened : Cache × Workspace :=
  match Cache.openAt ⟨"build"⟩ pairFiles with
  | (.ok c, w) => (c, w)
  | (.error _, w) => (default, w)

def pairRecord (c : Cache) (i : Nat) (target : Path) : Cache :=
  (Cache.record (fun _ => "sum") pairOpened.2.files c pair (pair.get i) target ByteArray.empty).toOption.getD c

def pairCache : Cache := pairRecord (pairRecord pairOpened.1 0 ⟨"site.out"⟩) 1 ⟨"page.out"⟩

end Sample

namespace Cache

open Sample

theorem inUse_pairRecord {c : Cache} (h : InUse ⟨"build"⟩ c pairOpened.2) (i : Nat) (target : Path) :
    InUse ⟨"build"⟩ (pairRecord c i target) pairOpened.2 := by
  unfold pairRecord
  cases hr : Cache.record (fun _ => "sum") pairOpened.2.files c pair (pair.get i) target ByteArray.empty with
  | error fault => exact h
  | ok c' => exact h.record _ _ _ _ _ hr

theorem inUse_pairCache : InUse ⟨"build"⟩ pairCache pairOpened.2 := by
  refine inUse_pairRecord (inUse_pairRecord ?_ _ _) _ _
  have hok : (openAt ⟨"build"⟩ pairFiles).1.isOk = true := by decide +kernel
  unfold pairOpened
  cases ho : openAt ⟨"build"⟩ pairFiles with
  | mk result w =>
    rw [ho] at hok
    cases result with
    | error e => cases hok
    | ok c => exact .opened ho

theorem reopen_eq_pair : InUse ⟨"build"⟩ pairCache pairOpened.2 ∧
    pairCache.rows.map Row.dependencies = [[], [(pairCache.rows.getD 0 default).stamp]] ∧
    (pairCache.save pairOpened.2).1 = .ok () ∧
    ∃ c₂ w₂, openAt ⟨"build"⟩ (pairCache.close (pairCache.save pairOpened.2).2) = (.ok c₂, w₂) ∧
      c₂.rows = pairCache.rows := by
  have hsaved : (pairCache.save pairOpened.2).1 = .ok () := by decide +kernel
  obtain ⟨c₂, w₂, ho, hrows, _⟩ := (reopen_eq inUse_pairCache).2 _ (Prod.ext hsaved rfl)
  exact ⟨inUse_pairCache, by decide +kernel, hsaved, c₂, w₂, ho, hrows⟩

end Cache

end AssetCompiler
