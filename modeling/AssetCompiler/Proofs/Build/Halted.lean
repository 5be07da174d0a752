import AssetCompiler.Proofs.Asset.Anchored
import AssetCompiler.Proofs.Build.Performed

/-! # Builds that fail before they compile

A build whose cache is in use, or whose sources cannot be planned, compiles nothing and saves no rows.
All that it may have done is to make the lock file, and to delete the targets of rows whose sources are
gone by then. That leaves the manifest alone, since targets are named for kinds of assets.
-/
namespace AssetCompiler

open AssetCompiler.Tree (Keeps)
open Cache (Bound savedRows manifestAt lockAt)

/-- A path to names with the extension of a kind, wherever it is followed from. -/
def Path.NamesKind (p : Path) : Prop := ∀ home, ∃ kind, EndsIn kind (p.resolve home)

/-- An error of a build that has not compiled anything: its cache is in use, or its sources have no
plan. -/
def BuildError.IsPlanning : BuildError → Prop
  | .cache (.busy _) | .parse _ | .cycle _ => True
  | .cache (.file _) | .file _ | .processor .. => False

def BuildError.IsBusy (e : BuildError) : Prop := ∃ directory, e = .cache (.busy directory)

namespace Cache

variable {directory : Path} {w w' : Workspace}

/-- A cache in use has its lock file truncated all the same. -/
theorem lock_of_busy {d : Path} (h : openAt directory w = (.error (.busy d), w')) :
    ∃ f, w'.files.fileAt? (lockAt w.files.home directory) = some f ∧ f.bytes = ByteArray.empty := by
  cases opens_openAt h with
  | busy made written _ =>
    have hmade := (w.makeDirectories_spec directory).1.grows.home
    obtain ⟨_, _, hf, _⟩ := Workspace.write_eq_ok written
    rw [made] at hmade
    rw [hmade] at hf
    exact ⟨_, hf, rfl⟩

theorem lock_of_close {c : Cache} {f : File}
    (hl : w.files.locate (lockPath directory) = .ok (lockAt w.files.home directory))
    (hd : c.directory = directory) (hf : w.files.fileAt? (lockAt w.files.home directory) = some f)
    (hholder : f.holder? = some c.holder) :
    (c.close w).files.fileAt? (lockAt w.files.home directory) = some { f with holder? := none } := by
  unfold close
  rw [hd]
  exact (Workspace.unlock_spec hl).2.2 f hf hholder

end Cache

namespace Build

open Session

variable {c : Config} {own : Location → Prop} {x : Context} {w w' : Workspace} {e : BuildError}
  {edits : Workspace → Workspace → Prop}

/-! ### Histories with a cache apart from the sources -/

/-- A site without rows whose cache lies apart from its sources. -/
structure Unstarted (c : Config) (w : Workspace) : Prop where
  wellFormed : w.files.WellFormed
  apart : ∀ k, Apart ((c.sectionOf k).source.resolve w.files.home) (c.cache.resolve w.files.home)
  rows : savedRows w.files c.cache = []

/-- A change of sources, or of the lock by another build. -/
structure EditsBeside (c : Config) (w w' : Workspace) : Prop where
  home : w'.files.home = w.files.home
  wellFormed : w'.files.WellFormed
  files : ∀ l, ¬InSources w.files.home c l → l ≠ lockAt w.files.home c.cache →
    w'.files.fileAt? l = w.files.fileAt? l

/-- What holds in every state of a history: the manifest is no source, and rows have targets that
builds make. -/
structure Secured (c : Config) (w : Workspace) : Prop where
  wellFormed : w.files.WellFormed
  apart : ∀ k, Apart ((c.sectionOf k).source.resolve w.files.home) (c.cache.resolve w.files.home)
  rows : Bound Path.NamesKind (savedRows w.files c.cache)

theorem namesKind_of_made {files : Tree} {p : Plan} (hf : x.FlatFingerprints)
    (hmade : Plan.Made x.config files p) (hw : files.WellFormed) {a : Asset} (ha : a ∈ p.assets)
    {target : Path} (ht : IsTarget x a target) : target.NamesKind := by
  obtain ⟨fp?, rfl, _, hflat⟩ := ht.flat hf
  obtain ⟨dir, stem, extension, hplaced⟩ := hmade.exists_placedAt hw ha
  exact fun home => ⟨a.kind, Asset.endsIn_target hplaced hflat home⟩

namespace EditsBeside

theorem manifest_eq (h : EditsBeside c w w')
    (ha : ∀ k, Apart ((c.sectionOf k).source.resolve w.files.home) (c.cache.resolve w.files.home)) :
    w'.files.fileAt? (manifestAt w.files.home c.cache) =
      w.files.fileAt? (manifestAt w.files.home c.cache) := by
  refine h.files _ ?_ (Cache.manifestAt_ne_lockAt _ _)
  rintro ⟨k, hk⟩
  rw [Cache.manifestAt_eq] at hk
  exact (ha k).not_prefix_append _ hk

end EditsBeside

namespace Secured

theorem bounds (h : Secured c w) (hx : Uses c own x w) : Bounds own Path.NamesKind x w where
  uses := ⟨rfl, hx.processor, hx.flat, Config.cache_eq_of_roots hx.roots ▸ hx.manifest⟩
  targets _ _ hmade hw _ ha _ ht := namesKind_of_made hx.flat hmade hw ha ht
  apart p hp := by
    obtain ⟨kind, hkind⟩ := hp w.files.home
    exact hkind.ne_manifestAt _ _
  wellFormed := h.wellFormed
  rows := Config.cache_eq_of_roots hx.roots ▸ h.rows

theorem of_manifest (h : Secured c w) (hhome : w'.files.home = w.files.home)
    (hw : w'.files.WellFormed)
    (hm : w'.files.fileAt? (manifestAt w.files.home c.cache) =
      w.files.fileAt? (manifestAt w.files.home c.cache)) : Secured c w' where
  wellFormed := hw
  apart := hhome ▸ h.apart
  rows := by
    unfold savedRows
    rw [hhome, Cache.rowsAt_congr hm]
    exact h.rows

theorem edit (h : Secured c w) (hedit : EditsBeside c w w') : Secured c w' :=
  h.of_manifest hedit.home hedit.wellFormed (hedit.manifest_eq h.apart)

theorem build (h : Secured c w) (hx : Uses c own x w) : Secured c (build x w).2 := by
  obtain ⟨hperforms, hrows⟩ := (h.bounds hx).performs_build
  have hkeeps := hperforms.keeps hx.processor
  refine ⟨hkeeps.wellFormed h.wellFormed, hkeeps.grows.home ▸ h.apart, ?_⟩
  rw [Config.cache_eq_of_roots hx.roots]
  exact hrows

theorem ne_lockAt (h : Secured c w) {r : Row} (hr : r ∈ savedRows w.files c.cache) (home : Location) :
    r.target.resolve home ≠ lockAt home c.cache := by
  obtain ⟨kind, hkind⟩ := (h.rows r hr).1 home
  exact hkind.ne_lockAt _ _

theorem ne_manifestAt (h : Secured c w) {r : Row} (hr : r ∈ savedRows w.files c.cache) (home : Location) :
    r.target.resolve home ≠ manifestAt home c.cache := by
  obtain ⟨kind, hkind⟩ := (h.rows r hr).1 home
  exact hkind.ne_manifestAt _ _

end Secured

theorem secured_of_leads (h : Leads (Unstarted c) (EditsBeside c) (Uses c own) w) : Secured c w := by
  induction h with
  | start w start => exact ⟨start.wellFormed, start.apart, start.rows ▸ .nil⟩
  | edit w w' _ edited ih => exact ih.edit edited
  | build x w _ run ih => exact ih.build run

/-! ### The failing build -/

theorem not_isPlanning_of_compileOne {s : Session} {i : Nat} (h : (compileOne x s i).1 = .error e) :
    ¬e.IsPlanning := by
  have hconcludes := concludes_of_compileOne (Prod.eta (compileOne x s i)).symm
  rw [h] at hconcludes
  generalize (compileOne x s i).2 = s' at hconcludes
  cases hconcludes <;> exact id

/-- A build that fails in planning has not set out. -/
theorem outset?_of_isPlanning (h : (build x w).1 = .error e) (he : e.IsPlanning) :
    outset? x w = none := by
  cases hout : outset? x w with
  | none => rfl
  | some o =>
    exfalso
    obtain ⟨cache, w1, _, _, hbuild⟩ := build_of_outset hout
    rw [hbuild] at h
    have hsaved (fault : Fault) : (finish x cache o).1 ≠ .error (.cache (.file fault)) := by
      intro hfault
      rw [h] at hfault
      cases hfault
      exact he
    rw [finish_result hsaved] at h
    cases hrun : (compileAll x o.session o.order).1 with
    | ok reports =>
      rw [hrun] at h
      cases h
    | error cause =>
      rw [hrun] at h
      cases h
      obtain ⟨v, _, hv⟩ := exists_visit_of_error hrun
      exact not_isPlanning_of_compileOne hv he

/-- What a build leaves that fails in planning: the lock is empty, targets of rows whose source is no
file are gone, and every other file is as before. -/
structure Halted (c : Config) (e : BuildError) (w w' : Workspace) : Prop where
  lock : ∃ f, w'.files.fileAt? (lockAt w.files.home c.cache) = some f ∧ f.bytes = ByteArray.empty
  keeps : Keeps (fun l => l = lockAt w.files.home c.cache ∨ ¬e.IsBusy ∧
    ∃ r ∈ savedRows w.files c.cache, (Cache.openAt c.cache w).2.files.isFile r.source = false ∧
      l = r.target.resolve w.files.home) w.files w'.files
  lost : ∀ l, l ≠ lockAt w.files.home c.cache →
    w'.files.fileAt? l = none ∨ w'.files.fileAt? l = w.files.fileAt? l
  dropped : ¬e.IsBusy → ∀ r ∈ savedRows w.files c.cache,
    (Cache.openAt c.cache w).2.files.isFile r.source = false →
    ∀ l, (Cache.openAt c.cache w).2.files.locate r.target = .ok l → w'.files.fileAt? l = none
  manifest : w'.files.fileAt? (manifestAt w.files.home c.cache) =
    w.files.fileAt? (manifestAt w.files.home c.cache)

/-- A build that fails in planning after it has opened its cache has pruned it. -/
theorem pruned_of_setOut {cache : Cache} (h : setOut x cache w = (.error e, w')) (he : e.IsPlanning) :
    ¬e.IsBusy ∧ ∃ gone, (cache.prune w).1 = .ok gone ∧ w'.files = (cache.prune w).2.2.files := by
  have hset := settingOut_of_setOut h
  have hfiles := hset.files
  cases hset with
  | unpruned _ => exact he.elim
  | unplanned pruned planned =>
    refine ⟨?_, _, congrArg Prod.fst pruned, hfiles⟩
    rintro ⟨d, rfl⟩
    rcases Plan.make_error (congrArg Prod.fst planned) with ⟨_, he⟩ | ⟨_, he⟩ <;> cases he

theorem halted_of_busy {d : Path} {w1 : Workspace}
    (opened : Cache.openAt c.cache w = (.error (.busy d), w1)) : Halted c (.cache (.busy d)) w w1 := by
  have hopening := (Cache.opens_openAt opened).keeps
  exact ⟨Cache.lock_of_busy opened, hopening.mono fun _ => .inl, fun l hl => .inr (hopening.files l hl),
    fun h => absurd ⟨d, rfl⟩ h, hopening.files _ (Cache.manifestAt_ne_lockAt _ _)⟩

/-- Pruning deletes targets of rows, which are neither the lock nor the manifest, and closing the cache
only gives up the lock. -/
theorem halted_of_setOut {cache : Cache} {w1 w2 : Workspace} (hw : Secured c w)
    (opened : Cache.openAt c.cache w = (.ok cache, w1)) (hset : setOut x cache w1 = (.error e, w2))
    (he : e.IsPlanning) : Halted c e w (cache.close w2) := by
  obtain ⟨hbusy, gone, hgone, hfiles⟩ := pruned_of_setOut hset he
  have hopened := Cache.opened_of_openAt opened
  have hopening := hopened.keeps
  have hhome := hopening.grows.home
  obtain ⟨_, _, _, _, hpruned, _⟩ := cache.prune_spec w1
  rw [← hfiles, hopened.rows, hhome] at hpruned
  have htarget {l : Location} (hl : ∃ r ∈ savedRows w.files c.cache,
      w1.files.isFile r.source = false ∧ l = r.target.resolve w.files.home) :
      l ≠ lockAt w.files.home c.cache ∧ l ≠ manifestAt w.files.home c.cache := by
    obtain ⟨r, hr, _, rfl⟩ := hl
    exact ⟨hw.ne_lockAt hr _, hw.ne_manifestAt hr _⟩
  have hclose := cache.keeps_close w2
  rw [hopened.directory_eq, hpruned.grows.home, hhome] at hclose
  have hkeeps : Keeps (fun l => l = lockAt w.files.home c.cache ∨ ¬e.IsBusy ∧
      ∃ r ∈ savedRows w.files c.cache, w1.files.isFile r.source = false ∧
        l = r.target.resolve w.files.home) w.files (cache.close w2).files :=
    (hopening.mono fun _ => .inl).trans
      ((hpruned.mono fun _ hl => .inr ⟨hbusy, hl⟩).trans (hclose.mono fun _ => .inl))
  refine ⟨?_, by rw [opened]; exact hkeeps, fun l hl => ?_, ?_, hkeeps.files _ ?_⟩
  · obtain ⟨f, hf, hempty, hholder⟩ := hopened.lock
    have hlocate := hpruned.grows.locate (Tree.place_eq_ok hopened.lockPlace).1
    rw [← hpruned.files _ fun hl => (htarget hl).1 rfl] at hf
    rw [← hhome, ← hpruned.grows.home] at hlocate hf ⊢
    exact ⟨_, Cache.lock_of_close hlocate hopened.directory_eq hf hholder, hempty⟩
  · rw [hclose.files l hl, ← hopening.files l hl, hfiles]
    exact cache.lost_of_prune w1 l
  · rw [opened]
    intro _ r hr hsource l hl
    have hat := (Tree.locate_eq_ok hl).1
    rw [hhome] at hat
    rw [hclose.files l (hat ▸ hw.ne_lockAt hr _), hfiles]
    exact Cache.gone_target_of_prune hgone (hopened.rows ▸ hr) hsource hl
  · rintro (hl | ⟨_, hl⟩)
    · exact Cache.manifestAt_ne_lockAt _ _ hl
    · exact (htarget hl).2 rfl

theorem halted_of_isPlanning (hw : Secured c w) (hx : c.roots = x.config.roots)
    (hb : (build x w).1 = .error e) (he : e.IsPlanning) : Halted c e w (build x w).2 := by
  have hgoes := goes_build x w
  rw [outset?_of_isPlanning hb he] at hgoes
  have hcache := Config.cache_eq_of_roots hx
  generalize build x w = result at hb hgoes ⊢
  cases hgoes with
  | @unopened cause w1 opened =>
    rw [← hcache] at opened
    cases hb
    cases cause with
    | file fault => exact he.elim
    | busy d => exact halted_of_busy opened
  | @halted cache w1 w2 cause opened hset =>
    rw [← hcache] at opened
    cases hb
    exact halted_of_setOut hw opened hset he

end Build

end AssetCompiler
