import AssetCompiler.Proofs.Build.Outset

/-! # What builds keep on the disk

Between builds the rows of the manifest have the form that builds record. A build keeps it so,
whatever it comes to, and changes files only where targets, the manifest and the lock lie. A
build that succeeds leaves the rows of its run in the manifest.
-/
namespace AssetCompiler.Build

open AssetCompiler.Tree (Keeps)
open Cache (Kept Exclusive savedRows manifestAt lockAt)

variable {x : Context} {w w' w1 : Workspace} {cache : Cache} {o : Outset}

/-- What a build needs of its processor, its fingerprints, its languages and the rows that it finds,
wherever the roots lie. -/
structure Able (x : Context) (w : Workspace) : Prop where
  processor : x.processor.KeepsFiles
  flat : x.FlatFingerprints
  languages : ∀ k, ∀ l ∈ (x.config.sectionOf k).languages, '/' ∉ l.toList
  wellFormed : w.files.WellFormed
  kept : Kept x.config (savedRows w.files x.config.cache)

/-- What a build needs of the site, of its processor and of its fingerprints. -/
structure Fit (x : Context) (w : Workspace) : Prop where
  processor : x.processor.KeepsFiles
  flat : x.FlatFingerprints
  layout : Layout w.files.home x.config
  wellFormed : w.files.WellFormed
  kept : Kept x.config (savedRows w.files x.config.cache)

theorem Fit.able (h : Fit x w) : Able x w :=
  ⟨h.processor, h.flat, h.layout.languages, h.wellFormed, h.kept⟩

namespace Able

/-- Opening the cache and pruning change files only where targets and the lock lie. -/
theorem keeps_pruned (h : Able x w) (ho : Cache.Opened x.config.cache w cache w1) {t : Tree}
    (hk : Keeps (fun l => ∃ r ∈ cache.rows, w1.files.isFile r.source = false ∧
      l = r.target.resolve w1.files.home) w1.files t) :
    Keeps (fun l => TargetAt w.files.home x.config l ∨ l = lockAt w.files.home x.config.cache)
      w.files t := by
  refine (ho.keeps.mono fun _ => Or.inr).trans (hk.mono ?_)
  rintro l ⟨r, hr, _, rfl⟩
  rw [ho.rows] at hr
  rw [ho.keeps.grows.home]
  exact Or.inl (h.kept.targetAt hr)

theorem keeps_outset (h : Able x w) (ho : Cache.Opened x.config.cache w cache w1)
    (hs : SetsOut x cache w1 o) :
    Keeps (fun l => TargetAt w.files.home x.config l ∨ l = lockAt w.files.home x.config.cache)
      w.files o.session.work.files :=
  h.keeps_pruned ho hs.keeps

theorem kept_outset (h : Able x w) (ho : Cache.Opened x.config.cache w cache w1)
    (hs : SetsOut x cache w1 o) : Kept x.config o.session.cache.rows := by
  rw [hs.rows, ho.rows]
  exact h.kept.filter _

theorem preserves_outset (h : Able x w) (ho : Cache.Opened x.config.cache w cache w1)
    (hs : SetsOut x cache w1 o) : Preserves x o.session (compileAll x o.session o.order).2 := by
  have hwellFormed := (h.keeps_outset ho hs).wellFormed h.wellFormed
  refine (preserves_run_of_placed h.processor h.flat (h.kept_outset ho hs) fun i hi => ?_).2
  exact hs.made.placed_of_flat hwellFormed h.languages (Collection.mem_get (hs.made.mem_order.mp hi))

theorem home_run (h : Able x w) (ho : Cache.Opened x.config.cache w cache w1) (hs : SetsOut x cache w1 o) :
    (compileAll x o.session o.order).2.work.files.home = w.files.home :=
  (h.preserves_outset ho hs).keeps.grows.home.trans (h.keeps_outset ho hs).grows.home

theorem savedRows_outset (h : Able x w) (ho : Cache.Opened x.config.cache w cache w1)
    (hs : SetsOut x cache w1 o) :
    savedRows (compileAll x o.session o.order).2.work.files x.config.cache =
      savedRows w.files x.config.cache := by
  have hkeeps := h.keeps_outset ho hs
  rw [Cache.savedRows_of_keeps (h.preserves_outset ho hs).keeps, Cache.savedRows_of_keeps hkeeps]
  · rintro (ht | hl)
    · exact ht.ne_manifest rfl
    · exact Cache.manifestAt_ne_lockAt _ _ hl
  · exact fun ht => ht.ne_manifest rfl

/-- The end of a run on the disk: the manifest has its rows, unless it cannot be written. -/
theorem finish_spec (h : Able x w) (ho : Cache.Opened x.config.cache w cache w1)
    (hs : SetsOut x cache w1 o) :
    Keeps (fun l => l = lockAt w.files.home x.config.cache ∨ l = manifestAt w.files.home x.config.cache)
        (compileAll x o.session o.order).2.work.files (finish x cache o).2.files ∧
      (savedRows (finish x cache o).2.files x.config.cache =
          (compileAll x o.session o.order).2.cache.rows ∨
        (∃ fault, (finish x cache o).1 = .error (.cache (.file fault))) ∧
          savedRows (finish x cache o).2.files x.config.cache = savedRows w.files x.config.cache) := by
  have hpres := h.preserves_outset ho hs
  have hrows := h.savedRows_outset ho hs
  have hhome := h.home_run ho hs
  cases hc : compileAll x o.session o.order with
  | mk result s =>
    rw [hc] at hpres hrows hhome
    dsimp only at hpres hrows hhome ⊢
    have hdir : s.cache.directory = x.config.cache :=
      hpres.directory.trans (hs.directory.trans ho.directory_eq)
    have hkeeps := keeps_finish hc hdir ho.directory_eq
    rw [hhome] at hkeeps
    refine ⟨hkeeps, ?_⟩
    have hclosed (w2 : Workspace) :
        savedRows (cache.close w2).files x.config.cache = savedRows w2.files x.config.cache := by
      have hclose := cache.keeps_close w2
      rw [ho.directory_eq] at hclose
      exact Cache.savedRows_of_keeps hclose _ (Cache.manifestAt_ne_lockAt _ _)
    rcases finish_cases cache hc with ⟨fault, hfinish⟩ | ⟨w2, hsave, hfinish⟩
    all_goals rw [hfinish, hclosed]
    · exact .inr ⟨⟨fault, rfl⟩, hrows⟩
    · obtain ⟨_, _, hclean, hdirty⟩ := Cache.save_spec hsave
      rw [hdir] at hdirty
      cases hd : s.cache.dirty with
      | false =>
        have hstart : o.session.cache.dirty = false := by
          rw [← hpres.clean hd]
          exact hd
        rw [hclean hd, hrows, hpres.clean hd, (hs.clean hstart).2, ho.rows]
        exact .inl rfl
      | true => exact .inl (hdirty hd fun r hr => (hpres.kept.formed r hr).fits)

/-- Whatever a build comes to, it changes files only where targets, the manifest and the lock
lie. -/
theorem keeps_build (h : Able x w) :
    Keeps (ChangedAt w.files.home x.config) w.files (build x w).2.files := by
  cases ho : outset? x w with
  | none =>
    refine (build_of_no_outset ho).2.1.mono ?_
    rintro l (hl | ⟨r, hr, rfl⟩)
    · exact Or.inr (Or.inl hl)
    · exact Or.inl (h.kept.targetAt hr)
  | some o =>
    obtain ⟨cache, w1, hopened, hsets, hbuild⟩ := build_of_outset ho
    have hkeeps := h.keeps_outset hopened hsets
    have hrun := (h.preserves_outset hopened hsets).keeps
    rw [hkeeps.grows.home] at hrun
    rw [hbuild]
    refine (hkeeps.mono ?_).trans ((hrun.mono fun _ => Or.inl).trans
      ((h.finish_spec hopened hsets).1.mono fun _ => Or.inr))
    rintro l (ht | hl)
    · exact Or.inl ht
    · exact Or.inr (Or.inl hl)

/-- A build that does not set out keeps the rows. -/
theorem savedRows_of_no_outset (h : Able x w) (ho : outset? x w = none) :
    savedRows (build x w).2.files x.config.cache = savedRows w.files x.config.cache := by
  refine Cache.savedRows_of_keeps (build_of_no_outset ho).2.1 _ ?_
  rintro (hl | ⟨r, hr, he⟩)
  · exact Cache.manifestAt_ne_lockAt _ _ hl
  · exact (h.kept.targetAt hr).ne_manifest he.symm

/-- The rows on the disk after a build are those of its run, or those before it. -/
theorem savedRows_build (h : Able x w) :
    savedRows (build x w).2.files x.config.cache = savedRows w.files x.config.cache ∨
      ∃ o, outset? x w = some o ∧ savedRows (build x w).2.files x.config.cache =
        (compileAll x o.session o.order).2.cache.rows := by
  cases ho : outset? x w with
  | none => exact Or.inl (h.savedRows_of_no_outset ho)
  | some o =>
    obtain ⟨cache, w1, hopened, hsets, hbuild⟩ := build_of_outset ho
    rw [hbuild]
    rcases (h.finish_spec hopened hsets).2 with hrows | ⟨_, hrows⟩
    · exact Or.inr ⟨o, rfl, hrows⟩
    · exact Or.inl hrows

theorem kept_build (h : Able x w) : Kept x.config (savedRows (build x w).2.files x.config.cache) := by
  rcases h.savedRows_build with hrows | ⟨o, ho, hrows⟩
  · rw [hrows]
    exact h.kept
  · obtain ⟨cache, w1, hopened, hsets, _⟩ := build_of_outset ho
    rw [hrows]
    exact (h.preserves_outset hopened hsets).kept

end Able

theorem ready_of_setsOut (h : Fit x w) (ho : Cache.Opened x.config.cache w cache w1)
    (hs : SetsOut x cache w1 o) : Ready x o.session o.order := by
  have hkeeps := h.able.keeps_outset ho hs
  have hlayout : Layout o.session.work.files.home x.config := by
    rw [hkeeps.grows.home]
    exact h.layout
  have hplaced : ∀ a ∈ o.session.assets, a.Placed x.config := fun a ha =>
    hs.made.placed (hkeeps.wellFormed h.wellFormed) hlayout ha
  refine ⟨h.processor, h.flat, hlayout, fun i hi => hplaced _ (Collection.mem_get hi),
    hs.made.distinct, fun i => ?_, h.able.kept_outset ho hs, hs.made.nodup,
    fun i hi => hs.made.mem_order.mp hi, fun front i back he d hd =>
      hs.made.dependency_mem_front he hd⟩
  by_cases hi : i < o.session.assets.length
  · obtain ⟨log, hp⟩ := hs.made.read _ (Collection.mem_get hi)
    exact waiting_of_parse hp
  · have hget : o.session.assets.get i = default := by
      simp [Collection.get, List.getElem?_eq_none (Nat.le_of_not_lt hi)]
    rw [hget]
    exact ⟨rfl, rfl⟩

/-- What a build leaves in which no file operation fails. It has not set out and at most loses files, or
it gets through its run and saves the rows. -/
inductive ComesTo (x : Context) (w : Workspace) : Workspace → Prop
  | unset {w' : Workspace} (grows : w.files.Grows w'.files)
      (lost : ∀ l, l ≠ lockAt w.files.home x.config.cache →
        w'.files.fileAt? l = none ∨ w'.files.fileAt? l = w.files.fileAt? l)
      (rows : savedRows w'.files x.config.cache = savedRows w.files x.config.cache) : ComesTo x w w'
  | saved {w' w1 : Workspace} {cache : Cache} {o : Outset} (outset : outset? x w = some o)
      (opened : Cache.Opened x.config.cache w cache w1) (sets : SetsOut x cache w1 o)
      (result : ∀ fault, (compileAll x o.session o.order).1 ≠ .error (.file fault))
      (keeps : Keeps (fun l => l = lockAt w.files.home x.config.cache ∨
        l = manifestAt w.files.home x.config.cache) (compileAll x o.session o.order).2.work.files w'.files)
      (rows : savedRows w'.files x.config.cache = (compileAll x o.session o.order).2.cache.rows) :
      ComesTo x w w'

theorem comesTo_build (h : Fit x w) (hoperations : ∀ fault, (build x w).1 ≠ .error (.file fault) ∧
    (build x w).1 ≠ .error (.cache (.file fault))) : ComesTo x w (build x w).2 := by
  cases ho : outset? x w with
  | none =>
    obtain ⟨_, hkeeps, hlost⟩ := build_of_no_outset ho
    exact .unset hkeeps.grows hlost (h.able.savedRows_of_no_outset ho)
  | some o =>
    obtain ⟨cache, w1, hopened, hsets, hbuild⟩ := build_of_outset ho
    obtain ⟨hkeeps, hrows⟩ := h.able.finish_spec hopened hsets
    rw [hbuild] at hoperations ⊢
    have hsaved := fun fault => (hoperations fault).2
    have hresult := fun fault he => (hoperations fault).1 (finish_error he hsaved)
    rcases hrows with hrows | ⟨⟨fault, he⟩, _⟩
    · exact .saved ho hopened hsets hresult hkeeps hrows
    · exact absurd he (hsaved fault)

/-- What a build that succeeds has done. -/
structure Succeeds (x : Context) (w : Workspace) (o : Outset) (report : BuildReport) (s : Session)
    (w' : Workspace) : Prop where
  run : compileAll x o.session o.order = (.ok report.assets, s)
  pruned : report.pruned = o.gone.map Row.source
  keeps : Keeps (fun l => l = lockAt w.files.home x.config.cache ∨
    l = manifestAt w.files.home x.config.cache) s.work.files w'.files
  rows : savedRows w'.files x.config.cache = s.cache.rows

theorem succeeds_of_build {report : BuildReport} (h : Fit x w) (hb : build x w = (.ok report, w')) :
    ∃ cache w1 o s, Cache.Opened x.config.cache w cache w1 ∧ SetsOut x cache w1 o ∧
      outset? x w = some o ∧ Succeeds x w o report s w' := by
  obtain ⟨o, ho⟩ := exists_outset_of_ok (congrArg Prod.fst hb)
  obtain ⟨cache, w1, hopened, hsets, hbuild⟩ := build_of_outset ho
  obtain ⟨hkeeps, hrows⟩ := h.able.finish_spec hopened hsets
  rw [← hbuild, hb] at hkeeps hrows
  obtain ⟨s, hrun, hpruned⟩ := run_of_finish (congrArg Prod.fst (hbuild.symm.trans hb))
  rw [hrun] at hkeeps hrows
  refine ⟨cache, w1, o, s, hopened, hsets, ho, hrun, hpruned, hkeeps, ?_⟩
  rcases hrows with hrows | ⟨⟨e, he⟩, _⟩
  · exact hrows
  · cases he

end AssetCompiler.Build

/-! ## Fresh fingerprints

A fingerprint that is drawn must not give a target that a row has at that time. Then the targets
that compiles replace are exclusive in every run, and stay so on the disk.
-/

namespace AssetCompiler.Build

open Session
open Cache (Exclusive savedRows)

variable {x : Context} {s : Session} {order : List Nat} {w : Workspace}

/-- Whether a run gives every fingerprinted asset that it writes a target of no row. -/
def DrawsFresh (x : Context) (s : Session) (order : List Nat) : Prop :=
  ∀ v ∈ visits x s order,
    let a := (compileOne x v.1 v.2).2.assets.get v.2
    a.isFingerprinted = true → a.rebuilt = true → ∀ r ∈ v.1.cache.rows, a.target ≠ some r.target

instance (x : Context) (s : Session) (order : List Nat) : Decidable (DrawsFresh x s order) :=
  inferInstanceAs (Decidable (∀ v ∈ visits x s order,
    let a := (compileOne x v.1 v.2).2.assets.get v.2
    a.isFingerprinted = true → a.rebuilt = true → ∀ r ∈ v.1.cache.rows, a.target ≠ some r.target))

/-- A run through assets that are not fingerprinted draws nothing. -/
theorem drawsFresh_of_plain (hp : x.processor.KeepsFiles)
    (h : ∀ i ∈ order, (s.assets.get i).isFingerprinted = false) : DrawsFresh x s order := by
  have hbare : (∀ v ∈ visits x s order, v.1.assets.bare = s.assets.bare) ∧
      (compileAll x s order).2.assets.bare = s.assets.bare :=
    compileAll_invariant (P := fun t => t.assets.bare = s.assets.bare) rfl
      fun v _ ht => (compiles_compileOne hp v.1 v.2).bare.trans ht
  intro v hv a hfingerprinted
  have hidentity : a.identity = (s.assets.get v.2).identity := Asset.identity_eq_of_bare
    (Collection.bare_get_congr ((compiles_compileOne hp v.1 v.2).bare.trans (hbare.1 v hv)) v.2)
  obtain ⟨hkind, hsource, _⟩ := Asset.identity_eq_iff.mp hidentity
  have hplain := h v.2 (mem_order_of_mem_visits hv)
  rw [Asset.isFingerprinted, Asset.isPartial, ← hkind, ← hsource] at hplain
  rw [Asset.isFingerprinted, Asset.isPartial, hplain] at hfingerprinted
  cases hfingerprinted

theorem exclusive_run (hr : Ready x s order) (hd : DrawsFresh x s order)
    (h : Exclusive x.config s.cache.rows) :
    (∀ v ∈ visits x s order, Exclusive x.config v.1.cache.rows) ∧
      Exclusive x.config (compileAll x s order).2.cache.rows := by
  obtain ⟨h1, h2⟩ := compileAll_invariant
    (P := fun t => Preserves x s t ∧ Exclusive x.config t.cache.rows) ⟨.start hr, h⟩ (by
      rintro ⟨t, i⟩ hv ⟨hp, he⟩
      have hi := hr.lt i (mem_order_of_mem_visits hv)
      have hc := compiles_compileOne hr.processor t i
      refine ⟨preserves_step hr hi hp hc, ?_⟩
      rcases hc.cache with hcache | ⟨target, bytes, w⟩
      · rw [hcache]
        exact he
      · have hfresh := hd (t, i) hv
        obtain ⟨f, _, hcache⟩ := w.record
        have hget := w.get_self (hp.length_eq.symm ▸ hi)
        dsimp only at hfresh ⊢
        rw [hget] at hfresh
        rw [hcache]
        refine he.put (formed_rowFor hr.flat (hp.placed hr hi) w.isTarget f bytes).1 ?_
        intro hf q hq heq
        exact hfresh hf rfl q hq (congrArg some heq.symm))
  exact ⟨fun v hv => (h1 v hv).2, h2.2⟩

/-- Whether a build draws fresh fingerprints, if it draws any. -/
def Fresh (x : Context) (w : Workspace) : Prop :=
  ∀ o, outset? x w = some o → DrawsFresh x o.session o.order

instance (x : Context) (w : Workspace) : Decidable (Fresh x w) :=
  match h : outset? x w with
  | none => isTrue fun o ho => by rw [h] at ho; cases ho
  | some o => decidable_of_iff (DrawsFresh x o.session o.order)
      ⟨fun hd o' ho => by rw [h] at ho; cases ho; exact hd, fun hf => hf o h⟩

/-- With fresh fingerprints, targets stay exclusive on the disk. -/
theorem exclusive_build (h : Fit x w) (hfresh : Fresh x w)
    (he : Exclusive x.config (savedRows w.files x.config.cache)) :
    Exclusive x.config (savedRows (build x w).2.files x.config.cache) := by
  rcases h.able.savedRows_build with hrows | ⟨o, ho, hrows⟩
  · rw [hrows]
    exact he
  · obtain ⟨cache, w1, hopened, hsets, _⟩ := build_of_outset ho
    have hstart : Exclusive x.config o.session.cache.rows := by
      rw [hsets.rows, hopened.rows]
      exact he.filter _
    rw [hrows]
    exact (exclusive_run (ready_of_setsOut h hopened hsets) (hfresh o ho) hstart).2

end AssetCompiler.Build
