import AssetCompiler.Proofs.Cache.Manifest
import AssetCompiler.Proofs.Cache.Rows
import AssetCompiler.Proofs.Files.Work

/-! # The cache on the disk

The rows of a cache directory are those of the manifest file in it. Opening a cache reads them
and locks the directory, saving writes them back, pruning deletes the targets of the rows whose
source is gone. No other file changes.
-/
namespace AssetCompiler

open AssetCompiler.Tree (Keeps)

namespace Cache

def rowsAt (t : Tree) (l : Location) : List Row :=
  match (t.fileAt? l).bind fun f => String.fromUTF8? f.bytes with
  | none => []
  | some text =>
    match Manifest.parse? text with
    | none => []
    | some (v, rows) => if v = Manifest.version then rows else []

def manifestAt (home : Location) (directory : Path) : Location := (manifestPath directory).resolve home

def lockAt (home : Location) (directory : Path) : Location := (lockPath directory).resolve home

/-- The rows that a cache opened on a directory has. -/
def savedRows (t : Tree) (directory : Path) : List Row := rowsAt t (manifestAt t.home directory)

theorem isName_manifest : IsName "cache.json" := ⟨by decide, by decide, by decide⟩

theorem isName_lock : IsName "cache.lock" := ⟨by decide, by decide, by decide⟩

theorem manifestAt_eq (home : Location) (directory : Path) :
    manifestAt home directory = directory.resolve home ++ ["cache.json"] :=
  Path.resolve_join_name isName_manifest

theorem lockAt_eq (home : Location) (directory : Path) :
    lockAt home directory = directory.resolve home ++ ["cache.lock"] :=
  Path.resolve_join_name isName_lock

theorem manifestAt_ne_lockAt (home : Location) (directory : Path) :
    manifestAt home directory ≠ lockAt home directory := by
  rw [manifestAt_eq, lockAt_eq]
  simp

theorem fromUTF8?_toUTF8 (s : String) : String.fromUTF8? s.toUTF8 = some s := by
  have h : s.toUTF8.IsValidUTF8 := s.isValidUTF8
  rw [String.fromUTF8?, dif_pos h]
  rfl

theorem rowsAt_of_render {t : Tree} {l : Location} {f : File} {rows : List Row}
    (h : t.fileAt? l = some f) (hb : f.bytes = (Manifest.render rows).toUTF8)
    (hf : ∀ r ∈ rows, Manifest.Fits r) : rowsAt t l = rows := by
  rw [rowsAt, h, Option.bind_some, hb, fromUTF8?_toUTF8]
  simp [Manifest.parse?_render hf]

theorem rowsAt_congr {t t' : Tree} {l : Location} (h : t'.fileAt? l = t.fileAt? l) :
    rowsAt t' l = rowsAt t l := by
  rw [rowsAt, h, rowsAt]

theorem loadRows_eq {t : Tree} {directory : Path}
    (h : t.locate (manifestPath directory) = .ok (manifestAt t.home directory)) :
    (loadRows t directory).1 = savedRows t directory := by
  unfold loadRows savedRows rowsAt Tree.readText Tree.read
  dsimp only
  cases hf : t.fileAt? (manifestAt t.home directory) with
  | none =>
    cases hfile : t.file (manifestPath directory) with
    | error e => rfl
    | ok f =>
      obtain ⟨l, hl, hfl⟩ := Tree.file_eq_ok_iff.mp hfile
      rw [h] at hl
      cases hl
      rw [hf] at hfl
      cases hfl
  | some f =>
    have hfile := Tree.file_eq_ok_iff.mpr ⟨_, h, hf⟩
    rw [hfile]
    simp only [Except.map, bind, Except.bind, Option.bind_some]
    cases hu : String.fromUTF8? f.bytes with
    | none => rfl
    | some text =>
      dsimp only
      cases hp : Manifest.parse? text with
      | none => rfl
      | some r =>
        obtain ⟨v, rows⟩ := r
        dsimp only
        split <;> rfl

/-- Next to the lock file there is a place for the manifest. -/
theorem locate_manifest {t : Tree} {directory : Path}
    (h : t.locate (lockPath directory) = .ok (lockAt t.home directory)) :
    t.locate (manifestPath directory) = .ok (manifestAt t.home directory) := by
  have hlock := Path.isAbsolute_name isName_lock
  have hmanifest := Path.isAbsolute_name isName_manifest
  obtain ⟨_, hne⟩ := Tree.locate_eq_ok h
  have hne' : (manifestPath directory).text ≠ "" := Path.text_join_ne_empty (by decide)
  have hstart : t.start (manifestPath directory) = t.start (lockPath directory) := by
    simp only [Tree.start, manifestPath, lockPath, Path.isAbsolute_join hlock,
      Path.isAbsolute_join hmanifest]
  rw [Tree.locate_eq_foldlM hne, ← hstart, lockPath, Path.parts_join hlock, List.foldlM_append,
    Path.parts_name isName_lock] at h
  obtain ⟨l, hw, h⟩ := bind_eq_ok_iff.mp h
  rw [List.foldlM_cons] at h
  obtain ⟨m, hs, h⟩ := bind_eq_ok_iff.mp h
  obtain ⟨hd, hm⟩ := Tree.step_eq_ok_iff.mp hs
  rw [Path.follow_name isName_lock] at hm
  rw [hm, lockAt_eq] at h
  have hl : l = directory.resolve t.home := List.append_cancel_right (Except.ok.inj h)
  have hparts : (manifestPath directory).parts = _ := Path.parts_join hmanifest
  rw [Tree.locate_eq_foldlM hne', hparts, List.foldlM_append, Path.parts_name isName_manifest]
  refine bind_eq_ok_iff.mpr ⟨l, hw, ?_⟩
  rw [List.foldlM_cons, manifestAt_eq, ← hl]
  exact bind_eq_ok_iff.mpr ⟨_, Tree.step_name hd isName_manifest, rfl⟩

variable {directory : Path} {w w' : Workspace} {c : Cache}

/-- How opening a directory goes: it cannot be made, its lock file cannot be written, its lock is
taken, or its manifest is loaded. -/
inductive Opens (directory : Path) (w : Workspace) : Except CacheError Cache → Workspace → Prop
  | unmade {fault : Fault} {w₁ : Workspace} (made : w.makeDirectories directory = (.error fault, w₁)) :
      Opens directory w (.error (.file fault)) w₁
  | unwritten {fault : Fault} {w₁ : Workspace} (made : w.makeDirectories directory = (.ok (), w₁))
      (written : w₁.write (lockPath directory) ByteArray.empty = .error fault) :
      Opens directory w (.error (.file fault)) w₁
  | busy {w₁ w₂ : Workspace} (made : w.makeDirectories directory = (.ok (), w₁))
      (written : w₁.write (lockPath directory) ByteArray.empty = .ok w₂)
      (locked : w₂.lock? (lockPath directory) = none) : Opens directory w (.error (.busy directory)) w₂
  | opened {w₁ w₂ w₃ : Workspace} {holder : Nat} (made : w.makeDirectories directory = (.ok (), w₁))
      (written : w₁.write (lockPath directory) ByteArray.empty = .ok w₂)
      (locked : w₂.lock? (lockPath directory) = some (holder, w₃)) :
      Opens directory w (.ok { directory, rows := (loadRows w₃.files directory).1, holder })
        (w₃.note (loadRows w₃.files directory).2)

theorem opens_openAt {result : Except CacheError Cache} (h : openAt directory w = (result, w')) :
    Opens directory w result w' := by
  unfold openAt at h
  cases hm : w.makeDirectories directory with
  | mk made w₁ =>
    rw [hm] at h
    cases made with
    | error fault =>
      cases h
      exact .unmade hm
    | ok _ =>
      dsimp only at h
      cases hw : w₁.write (lockPath directory) ByteArray.empty with
      | error fault =>
        rw [hw] at h
        cases h
        exact .unwritten hm hw
      | ok w₂ =>
        rw [hw] at h
        dsimp only at h
        cases hl : w₂.lock? (lockPath directory) with
        | none =>
          rw [hl] at h
          cases h
          exact .busy hm hw hl
        | some r =>
          rw [hl] at h
          cases h
          exact .opened hm hw hl

/-- Opening a directory changes no file but the lock, however it goes. -/
theorem Opens.keeps {result : Except CacheError Cache} (h : Opens directory w result w') :
    Keeps (· = lockAt w.files.home directory) w.files w'.files := by
  have hmade {r : Except Fault Unit} {w₁ : Workspace} (hm : w.makeDirectories directory = (r, w₁)) :
      Keeps (· = lockAt w.files.home directory) w.files w₁.files := by
    have hspec := (w.makeDirectories_spec directory).1
    rw [hm] at hspec
    exact hspec.mono fun _ hl => hl.elim
  have hwritten {r : Except Fault Unit} {w₁ w₂ : Workspace} (hm : w.makeDirectories directory = (r, w₁))
      (hw : w₁.write (lockPath directory) ByteArray.empty = .ok w₂) :
      Keeps (· = lockAt w.files.home directory) w.files w₂.files := by
    obtain ⟨_, hk, _⟩ := Workspace.write_eq_ok hw
    rw [(hmade hm).grows.home] at hk
    exact (hmade hm).trans hk
  cases h with
  | unmade made => exact hmade made
  | unwritten made _ => exact hmade made
  | busy made written _ => exact hwritten made written
  | opened made written locked =>
    obtain ⟨_, _, _, hk, _⟩ := Workspace.lock?_eq_some locked
    rw [(hwritten made written).grows.home] at hk
    exact (hwritten made written).trans hk

/-- What is known of a freshly opened cache and of the workspace then. -/
structure Opened (directory : Path) (w : Workspace) (c : Cache) (w' : Workspace) : Prop where
  directory_eq : c.directory = directory
  rows : c.rows = savedRows w.files directory
  pruned : c.pruned = []
  clean : c.dirty = false
  keeps : Keeps (· = lockAt w.files.home directory) w.files w'.files
  isDirectory : directory.text = "" ∨ w'.files.isDirectory directory = true
  lockPlace : w'.files.place (lockPath directory) = .ok (lockAt w.files.home directory)
  lock : ∃ f, w'.files.fileAt? (lockAt w.files.home directory) = some f ∧ f.bytes = ByteArray.empty ∧
    f.holder? = some c.holder
  calls : w'.calls = w.calls

theorem opened_of_openAt (h : openAt directory w = (.ok c, w')) : Opened directory w c w' := by
  have hopens := opens_openAt h
  have hkeeps := hopens.keeps
  cases hopens with
  | @opened w₁ w₂ w₃ holder made written locked =>
    have hhome : w₃.files.home = w.files.home := hkeeps.grows.home
    obtain ⟨hk₁, hc₁, hd₁⟩ := w.makeDirectories_spec directory
    rw [made] at hk₁ hc₁ hd₁
    dsimp only at hk₁ hc₁ hd₁
    obtain ⟨hp₂, hk₂, hf₂, hc₂⟩ := Workspace.write_eq_ok written
    obtain ⟨f, hf, _, hk₃, hf₃, hc₃⟩ := Workspace.lock?_eq_some locked
    rw [hk₂.grows.home, hk₁.grows.home] at hf hf₃
    rw [hk₁.grows.home] at hf₂ hp₂
    have hplace := hk₃.grows.place (hk₂.grows.place hp₂)
    have hlocate : w₃.files.locate (manifestPath directory) = _ := locate_manifest (by
      rw [hhome]
      exact (Tree.place_eq_ok hplace).1)
    refine ⟨rfl, ?_, rfl, rfl, hkeeps, ?_, hplace, ⟨_, hf₃, ?_, rfl⟩, hc₃.trans (hc₂.trans hc₁)⟩
    · show (loadRows w₃.files directory).1 = _
      rw [loadRows_eq hlocate, savedRows, savedRows, hhome]
      exact rowsAt_congr (hkeeps.files _ (manifestAt_ne_lockAt _ _))
    · exact (hd₁ rfl).imp_right fun hd => hk₃.grows.isDirectory (hk₂.grows.isDirectory hd)
    · rw [hf] at hf₂
      rw [Option.some.inj hf₂]

/-- A directory can be opened again as soon as nobody holds its lock. -/
theorem exists_openAt_eq_ok {directory : Path} {w : Workspace}
    (hd : directory.text = "" ∨ w.files.isDirectory directory = true)
    (hp : w.files.place (lockPath directory) = .ok (lockAt w.files.home directory))
    (hplain : ¬w.files.IsDir (lockAt w.files.home directory))
    (hfree : ∀ f, w.files.fileAt? (lockAt w.files.home directory) = some f → f.holder? = none) :
    ∃ c w', openAt directory w = (.ok c, w') := by
  have hmake : w.makeDirectories directory =
      (.ok (), { w with files := w.files, clock := w.clock + 1 }) := by
    unfold Workspace.makeDirectories
    rw [Tree.makeDirectories_of_isDirectory hd]
  have hwrite : ∃ w2, Workspace.write { w with files := w.files, clock := w.clock + 1 }
      (lockPath directory) ByteArray.empty = .ok w2 := by
    unfold Workspace.write Workspace.change Disk.change Tree.write
    simp only [hp, bind, Except.bind]
    cases hget : w.files.get? (lockAt w.files.home directory) with
    | none => exact ⟨_, rfl⟩
    | some e =>
      cases e with
      | file f => exact ⟨_, rfl⟩
      | directory time => exact absurd ⟨time, hget⟩ hplain
  obtain ⟨w2, hw2⟩ := hwrite
  obtain ⟨hplace, hk, hf2, _⟩ := Workspace.write_eq_ok hw2
  have hfind := Tree.find_eq_ok_iff.mpr
    ⟨hk.grows.locate (Tree.place_eq_ok hplace).1, Tree.fileAt?_eq_some_iff.mp hf2⟩
  have hholder : (w.files.fileAt? ((lockPath directory).resolve w.files.home)).bind File.holder? =
      none := by
    rw [Option.bind_eq_none_iff]
    exact hfree
  have hlock : ∃ r, w2.lock? (lockPath directory) = some r := by
    unfold Workspace.lock?
    rw [hfind]
    dsimp only
    rw [hholder]
    exact ⟨_, rfl⟩
  obtain ⟨⟨holder, w3⟩, hw3⟩ := hlock
  unfold openAt
  rw [hmake]
  dsimp only
  rw [hw2]
  dsimp only
  rw [hw3]
  exact ⟨_, _, rfl⟩

/-- Saving changed rows writes the manifest; otherwise nothing happens. -/
theorem save_spec {c : Cache} {w w' : Workspace} (h : c.save w = (.ok (), w')) :
    w'.calls = w.calls ∧
      Keeps (· = manifestAt w.files.home c.directory) w.files w'.files ∧
      (c.dirty = false → w' = w) ∧
      (c.dirty = true → (∀ r ∈ c.rows, Manifest.Fits r) →
        savedRows w'.files c.directory = c.rows) := by
  unfold save at h
  cases hd : c.dirty with
  | false =>
    rw [hd] at h
    cases h
    exact ⟨rfl, .refl _ _, fun _ => rfl, fun h => by cases h⟩
  | true =>
    rw [hd, if_pos rfl] at h
    cases hw : w.write (manifestPath c.directory) (Manifest.render c.rows).toUTF8 with
    | error fault =>
      rw [hw] at h
      cases h
    | ok w1 =>
      rw [hw] at h
      cases h
      obtain ⟨_, hk, hf, hc⟩ := Workspace.write_eq_ok hw
      refine ⟨hc, hk, fun h => (by cases h), fun _ hfits => ?_⟩
      unfold savedRows
      rw [hk.grows.home]
      exact rowsAt_of_render hf rfl hfits

theorem save_error {c : Cache} {w w' : Workspace} {e : CacheError} (h : c.save w = (.error e, w')) :
    w' = w ∧ ∃ fault, e = .file fault := by
  unfold save at h
  split at h
  · split at h
    · cases h
    · rename_i fault _
      cases h
      exact ⟨rfl, fault, rfl⟩
  · cases h

/-- What holds across the deletion of each target holds across the deletion of them all. -/
theorem dropTargets_relates {R : Workspace → Workspace → Prop} (hrefl : ∀ w, R w w)
    (htrans : ∀ w w' w'', R w w' → R w' w'' → R w w'') {rs : List Row}
    (hstep : ∀ r ∈ rs, ∀ w w' lines, w.removeIfExists r.target = .ok w' → R w (w'.note lines))
    (c : Cache) (w : Workspace) : R w (c.dropTargets w rs).2.2 := by
  induction rs generalizing c w with
  | nil => exact hrefl w
  | cons r rs ih =>
    unfold dropTargets
    cases hr : w.removeIfExists r.target with
    | error fault => exact hrefl w
    | ok w₁ =>
      exact htrans _ _ _ (hstep r List.mem_cons_self _ _ _ hr)
        (ih (fun q hq => hstep q (List.mem_cons_of_mem _ hq)) _ _)

/-- A cache remembers the sources of the rows whose targets are deleted, as far as that gets. -/
theorem cache_dropTargets (rs : List Row) (c : Cache) (w : Workspace) : ∃ sources,
    (c.dropTargets w rs).2.1 = { c with pruned := c.pruned ++ sources } ∧
      sources <+: rs.map Row.source ∧
      ((c.dropTargets w rs).1 = .ok () → sources = rs.map Row.source) := by
  induction rs generalizing c w with
  | nil => exact ⟨[], by rw [List.append_nil]; rfl, List.prefix_rfl, fun _ => rfl⟩
  | cons r rs ih =>
    unfold dropTargets
    cases hr : w.removeIfExists r.target with
    | error fault => exact ⟨[], by rw [List.append_nil], List.nil_prefix, fun h => by cases h⟩
    | ok w₁ =>
      dsimp only
      obtain ⟨sources, hc, hprefix, hall⟩ := ih { c with pruned := c.pruned ++ [r.source] }
        (w₁.note [.info ("pruned " ++ r.source.text ++ " (removed " ++ r.target.text ++ ")")])
      refine ⟨r.source :: sources, ?_, ?_, fun h => ?_⟩
      · rw [hc, List.append_assoc, List.singleton_append]
      · exact (List.prefix_cons_inj _).mpr hprefix
      · rw [hall h, List.map_cons]

/-- Deleting targets calls no processor, and changes no other files. -/
theorem keeps_dropTargets (rs : List Row) (c : Cache) (w : Workspace) :
    (c.dropTargets w rs).2.2.calls = w.calls ∧
      Keeps (fun l => ∃ r ∈ rs, l = r.target.resolve w.files.home) w.files
        (c.dropTargets w rs).2.2.files := by
  refine dropTargets_relates
    (R := fun w w' => w'.calls = w.calls ∧
      Keeps (fun l => ∃ r ∈ rs, l = r.target.resolve w.files.home) w.files w'.files)
    (fun w => ⟨rfl, .refl _ _⟩) ?_ ?_ c w
  · rintro w w' w'' ⟨hc, hk⟩ ⟨hc', hk'⟩
    rw [hk.grows.home] at hk'
    exact ⟨hc'.trans hc, hk.trans hk'⟩
  · intro r hr w w' lines h
    obtain ⟨hk, hc⟩ := Workspace.removeIfExists_eq_ok h
    exact ⟨hc, hk.mono fun l hl => ⟨r, hr, hl⟩⟩

theorem lost_of_dropTargets (rs : List Row) (c : Cache) (w : Workspace) (l : Location) :
    (c.dropTargets w rs).2.2.files.fileAt? l = none ∨
      (c.dropTargets w rs).2.2.files.fileAt? l = w.files.fileAt? l := by
  refine dropTargets_relates
    (R := fun w w' => w'.files.fileAt? l = none ∨ w'.files.fileAt? l = w.files.fileAt? l)
    (fun w => .inr rfl) ?_ (fun r _ w w' _ h => Workspace.lost_of_removeIfExists h l) c w
  rintro w w' w'' h (h' | h')
  · exact .inl h'
  · rwa [h']

/-- Deleting targets makes no directory. -/
theorem grows_of_dropTargets (rs : List Row) (c : Cache) (w : Workspace) :
    (c.dropTargets w rs).2.2.files.Grows w.files := by
  refine dropTargets_relates (R := fun w w' => w'.files.Grows w.files) (fun w => .refl w.files)
    (fun _ _ _ h h' => h'.trans h) (fun r _ w w' _ h => ?_) c w
  have hremoved : w'.files.Grows w.files := Workspace.grows_of_removeIfExists h
  exact hremoved

/-- The targets of dropped rows are gone. -/
theorem gone_of_dropTargets {rs : List Row} {c : Cache} {w : Workspace}
    (h : (c.dropTargets w rs).1 = .ok ()) {r : Row} (hr : r ∈ rs) {l : Location}
    (hl : w.files.locate r.target = .ok l) : (c.dropTargets w rs).2.2.files.fileAt? l = none := by
  induction rs generalizing c w with
  | nil => cases hr
  | cons q rs ih =>
    unfold dropTargets at h ⊢
    cases hq : w.removeIfExists q.target with
    | error fault =>
      rw [hq] at h
      cases h
    | ok w₁ =>
      rw [hq] at h
      dsimp only at h ⊢
      have hk := (Workspace.removeIfExists_eq_ok hq).1
      rcases List.mem_cons.mp hr with rfl | hr
      · have hgone := Workspace.gone_of_removeIfExists hq hl
        rcases lost_of_dropTargets rs { c with pruned := c.pruned ++ [r.source] }
          (w₁.note [.info ("pruned " ++ r.source.text ++ " (removed " ++ r.target.text ++ ")")]) l with
          hlost | hlost
        · exact hlost
        · exact hlost.trans hgone
      · exact ih h hr (hk.grows.locate hl)

/-- The rows whose source is no file. -/
def goneRows (c : Cache) (files : Tree) : List Row := c.rows.filter fun r => !files.isFile r.source

/-- A cache without the rows whose source is no file. -/
def swept (c : Cache) (files : Tree) : Cache :=
  { c with
    rows := c.rows.filter fun r => files.isFile r.source
    dirty := c.dirty || !(c.goneRows files).isEmpty }

theorem prune_eq (c : Cache) (w : Workspace) :
    c.prune w = (((c.swept w.files).dropTargets w (c.goneRows w.files)).1.map
      fun _ => c.goneRows w.files, ((c.swept w.files).dropTargets w (c.goneRows w.files)).2) := rfl

theorem mem_goneRows {files : Tree} {r : Row} :
    r ∈ c.goneRows files ↔ r ∈ c.rows ∧ files.isFile r.source = false := by
  simp [goneRows]

/-- Pruning that gets to its end deletes the targets of all rows whose source is no file. -/
theorem dropTargets_of_prune {gone : List Row} (h : (c.prune w).1 = .ok gone) :
    gone = c.goneRows w.files ∧
      ((c.swept w.files).dropTargets w (c.goneRows w.files)).1 = .ok () := by
  rw [prune_eq] at h
  cases hd : ((c.swept w.files).dropTargets w (c.goneRows w.files)).1 with
  | error fault =>
    rw [hd] at h
    cases h
  | ok _ =>
    rw [hd] at h
    exact ⟨(Except.ok.inj h).symm, rfl⟩

theorem gone_of_prune {gone : List Row} (h : (c.prune w).1 = .ok gone) :
    gone = c.rows.filter fun r => !w.files.isFile r.source :=
  (dropTargets_of_prune h).1

theorem lost_of_prune (c : Cache) (w : Workspace) (l : Location) :
    (c.prune w).2.2.files.fileAt? l = none ∨ (c.prune w).2.2.files.fileAt? l = w.files.fileAt? l :=
  lost_of_dropTargets ..

/-- Pruning makes no directory. -/
theorem grows_of_prune (c : Cache) (w : Workspace) : (c.prune w).2.2.files.Grows w.files :=
  grows_of_dropTargets ..

/-- Where pruning succeeds, the targets of the rows that it drops are gone. -/
theorem gone_target_of_prune {gone : List Row} (h : (c.prune w).1 = .ok gone) {r : Row}
    (hr : r ∈ c.rows) (hfile : w.files.isFile r.source = false) {l : Location}
    (hl : w.files.locate r.target = .ok l) : (c.prune w).2.2.files.fileAt? l = none :=
  gone_of_dropTargets (dropTargets_of_prune h).2 (mem_goneRows.mpr ⟨hr, hfile⟩) hl

/-- A cache remembers the sources of the rows that it prunes, as far as it gets. -/
theorem pruned_of_prune (c : Cache) (w : Workspace) :
    (c.prune w).2.1.pruned <+:
        c.pruned ++ (c.rows.filter fun r => !w.files.isFile r.source).map Row.source ∧
      ∀ gone, (c.prune w).1 = .ok gone → (c.prune w).2.1.pruned = c.pruned ++ gone.map Row.source := by
  obtain ⟨sources, hc, hprefix, hall⟩ := cache_dropTargets (c.goneRows w.files) (c.swept w.files) w
  have hpruned : (c.prune w).2.1.pruned = c.pruned ++ sources := congrArg pruned hc
  rw [hpruned]
  refine ⟨(List.prefix_append_right_inj _).mpr hprefix, fun gone h => ?_⟩
  obtain ⟨hgone, hok⟩ := dropTargets_of_prune h
  rw [hall hok, hgone]

/-- What pruning leaves. -/
theorem prune_spec (c : Cache) (w : Workspace) :
    (c.prune w).2.1.rows = c.rows.filter (fun r => w.files.isFile r.source) ∧
      (c.prune w).2.1.directory = c.directory ∧ (c.prune w).2.1.holder = c.holder ∧
      (c.prune w).2.2.calls = w.calls ∧
      Keeps (fun l => ∃ r ∈ c.rows, w.files.isFile r.source = false ∧
        l = r.target.resolve w.files.home) w.files (c.prune w).2.2.files ∧
      ((c.prune w).2.1.dirty = false → c.dirty = false ∧
        c.rows.filter (fun r => w.files.isFile r.source) = c.rows) := by
  obtain ⟨hcalls, hkeeps⟩ := keeps_dropTargets (c.goneRows w.files) (c.swept w.files) w
  obtain ⟨sources, hc, _⟩ := cache_dropTargets (c.goneRows w.files) (c.swept w.files) w
  rw [prune_eq]
  dsimp only
  rw [hc]
  refine ⟨rfl, rfl, rfl, hcalls, hkeeps.mono ?_, fun hd => ?_⟩
  · rintro l ⟨r, hr, hl⟩
    obtain ⟨hmem, hfile⟩ := mem_goneRows.mp hr
    exact ⟨r, hmem, hfile, hl⟩
  · have hd : (c.dirty || !(c.goneRows w.files).isEmpty) = false := hd
    simp only [Bool.or_eq_false_iff, Bool.not_eq_false', List.isEmpty_iff, goneRows,
      List.filter_eq_nil_iff, Bool.not_eq_true'] at hd
    refine ⟨hd.1, List.filter_eq_self.mpr fun r hr => ?_⟩
    simpa using hd.2 r hr

theorem prune_of_isFile (h : ∀ r ∈ c.rows, w.files.isFile r.source = true) :
    c.prune w = (.ok [], c, w) := by
  have hgone : c.goneRows w.files = [] := by
    simpa [goneRows] using h
  have hkept : c.rows.filter (fun r => w.files.isFile r.source) = c.rows :=
    List.filter_eq_self.mpr h
  rw [prune_eq, hgone, swept, hgone, hkept]
  simp [dropTargets, Except.map]

end Cache

end AssetCompiler
