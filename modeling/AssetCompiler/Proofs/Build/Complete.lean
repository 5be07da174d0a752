import AssetCompiler.Proofs.Build.History
import AssetCompiler.Proofs.Walk

/-! # What a complete build leaves behind

After a build in which no asset failed, the rows in the manifest are those of the plan's assets and
of assets that are no longer planned but still have a source. Every planned asset is settled, the
same sources give the same plan, and the lock is free.
-/
namespace AssetCompiler

open AssetCompiler.Tree (Keeps)
open Cache (Kept Exclusive Settled savedRows manifestAt lockAt)

namespace Cache

variable {c c' : Cache}

theorem find?_of_rows (h : c'.rows = c.rows) (source : Path) (language : Option String) :
    c'.find? source language = c.find? source language := by
  unfold find?
  rw [h]

theorem Settled.of_rows {digest : ByteArray → String} {files files' : Tree} {as : Collection}
    {a : Asset} {r : Row} (hs : Settled digest files c as a r) (hrows : c'.rows = c.rows)
    (hsource : ∀ f, files.file a.source = .ok f → files'.file a.source = .ok f)
    (htarget : files'.isFile r.target = true) : Settled digest files' c' as a r := by
  have hstamps : c'.stamps as a = c.stamps as a :=
    stamps_congr rfl fun _ _ => find?_of_rows hrows _ _
  obtain ⟨f, hf, hm, hd⟩ := hs.source
  exact ⟨(find?_of_rows hrows _ _).trans hs.found, ⟨f, hsource f hf, hm, hd⟩, htarget,
    hstamps ▸ hs.stamps⟩

/-- Closing a cache gives its lock free. -/
theorem Opened.fileAt?_close {directory : Path} {w w' w₂ : Workspace} {l : Location} {f : File}
    (h : Opened directory w c w') (hf : w₂.files.fileAt? l = some f)
    (hplace : w₂.files.place (lockPath directory) = .ok l) (hholder : f.holder? = some c.holder) :
    (c.close w₂).files.fileAt? l = some { f with holder? := none } := by
  unfold close
  rw [h.directory_eq]
  exact (Workspace.unlock_spec (Tree.place_eq_ok hplace).1).2.2 f hf hholder

end Cache

namespace Build

open Session

variable {x : Context} {w w' w1 : Workspace} {cache : Cache} {o : Outset} {s : Session}
  {order : List Nat}

theorem isFile_sources_run (hr : Ready x s order)
    (h : ∀ r ∈ s.cache.rows, s.work.files.isFile r.source = true) :
    ∀ r ∈ (compileAll x s order).2.cache.rows,
      (compileAll x s order).2.work.files.isFile r.source = true := by
  refine (compileAll_invariant (P := fun t => Preserves x s t ∧
    ∀ r ∈ t.cache.rows, t.work.files.isFile r.source = true) ⟨.start hr, h⟩ ?_).2.2
  rintro ⟨t, i⟩ hv ⟨hp, hfiles⟩
  have hi := hr.lt i (mem_order_of_mem_visits hv)
  have hc := compiles_compileOne hr.processor t i
  have hold : ∀ r ∈ t.cache.rows, (compileOne x t i).2.work.files.isFile r.source = true := by
    intro r hrow
    obtain ⟨f, hf⟩ := Tree.isFile_iff.mp (hfiles r hrow)
    exact Tree.isFile_iff.mpr ⟨f, file_of_compiles hr hi hp hc (hp.kept.inSources_source hrow) hf⟩
  refine ⟨preserves_step hr hi hp hc, fun r hrow => ?_⟩
  rcases hc.cache with hcache | ⟨target, bytes, hw⟩
  · rw [hcache] at hrow
    exact hold r hrow
  · obtain ⟨f, hf, hcache⟩ := hw.record
    rw [hcache] at hrow
    rcases Cache.mem_put hrow with rfl | hrow
    · exact Tree.isFile_iff.mpr ⟨f, hf⟩
    · exact hold r hrow

/-- A build that sets out has dropped the rows whose source is no file. -/
theorem isFile_sources_outset (h : Fit x w) (ho : Cache.Opened x.config.cache w cache w1)
    (hs : SetsOut x cache w1 o) :
    ∀ r ∈ o.session.cache.rows, o.session.work.files.isFile r.source = true := by
  intro r hrow
  have hmem : r ∈ o.session.cache.rows := hrow
  rw [hs.rows, List.mem_filter] at hmem
  obtain ⟨hcache, hfile⟩ := hmem
  obtain ⟨f, hf⟩ := Tree.isFile_iff.mp hfile
  refine Tree.isFile_iff.mpr ⟨f, hs.keeps.file hf ?_⟩
  rintro ⟨q, hq, _, hl⟩
  rw [ho.rows] at hq
  rw [ho.keeps.grows.home] at hl
  exact (h.kept.targetAt hq).not_inSources h.layout (hl ▸ (h.able.kept_outset ho hs).inSources_source hrow)

theorem lock_finish (h : Fit x w) (ho : Cache.Opened x.config.cache w cache w1)
    (hs : SetsOut x cache w1 o) :
    ∃ f, (finish x cache o).2.files.fileAt? (lockAt w.files.home x.config.cache) = some f ∧
      f.bytes = ByteArray.empty ∧ f.holder? = none := by
  obtain ⟨f, hf, hbytes, hholder⟩ := ho.lock
  have hpres := h.able.preserves_outset ho hs
  have hrun : ∀ l, TargetAt w.files.home x.config l → l ≠ lockAt w.files.home x.config.cache :=
    fun l ht => ht.ne_lock
  have hout : o.session.work.files.fileAt? (lockAt w.files.home x.config.cache) = some f := by
    rw [hs.keeps.files, hf]
    rintro ⟨r, hr, _, he⟩
    rw [ho.rows] at hr
    rw [ho.keeps.grows.home] at he
    exact hrun _ (h.kept.targetAt hr) he.symm
  have hhome := (ho.keeps.grows.trans hs.keeps.grows).home
  have hend : (compileAll x o.session o.order).2.work.files.fileAt?
      (lockAt w.files.home x.config.cache) = some f := by
    rw [hpres.keeps.files, hout]
    rw [hhome]
    exact fun ht => hrun _ ht rfl
  -- Neither pruning nor the run comes to the lock; what is left is that saving writes another file.
  have hplace := hpres.keeps.grows.place (hs.keeps.grows.place ho.lockPlace)
  cases hc : compileAll x o.session o.order with
  | mk result s =>
    rw [hc] at hend hplace hpres
    dsimp only at hend hplace hpres
    rcases finish_cases cache hc with ⟨fault, hfinish⟩ | ⟨w2, hsave, hfinish⟩
    all_goals rw [hfinish]
    · exact ⟨_, ho.fileAt?_close hend hplace hholder, hbytes, rfl⟩
    · obtain ⟨_, hk, _⟩ := Cache.save_spec hsave
      have hdir : s.cache.directory = x.config.cache :=
        hpres.directory.trans (hs.directory.trans ho.directory_eq)
      have hh : s.work.files.home = w.files.home := hpres.keeps.grows.home.trans hhome
      rw [hdir, hh] at hk
      rw [← hk.files _ (Cache.manifestAt_ne_lockAt _ _).symm] at hend
      exact ⟨_, ho.fileAt?_close hend (hk.grows.place hplace) hholder, hbytes, rfl⟩

/-- A plan stays what it is, and so does what is wrong with it, while no source changes. -/
theorem make_of_keeps {c : Config} {changed : Location → Prop} (hw : w.files.WellFormed)
    (hl : Layout w.files.home c) (hs : ∀ k, w.files.Steady (c.sectionOf k).source)
    (hk : Keeps changed w.files w'.files) (hc : ∀ l, changed l → ¬InSources w.files.home c l) :
    (Plan.make c w').1 = (Plan.make c w).1 := by
  have hsame : ∀ l, InSources w.files.home c l → w'.files.fileAt? l = w.files.fileAt? l :=
    fun l hin => hk.files l fun ht => hc l ht hin
  have hsources : Discovery.sources w'.files c = Discovery.sources w.files c :=
    Discovery.sources_congr hw (hk.wellFormed hw) hk.grows hs fun l hin => by rw [hsame l hin]
  refine Plan.make_congr hsources fun a ha _ => ?_
  have hin : InSources w.files.home c (a.source.resolve w.files.home) :=
    Asset.inSources_source (Collection.placed_of_mem_ofFiles hw hl ha)
  obtain ⟨p, hp, _, _, _, _, rfl⟩ := Collection.exists_of_mem_ofFiles ha
  obtain ⟨_, _, f, _, hf⟩ := Discovery.exists_listed_of_mem_sources hw hp
  have hf' := hk.file hf fun ht => hc _ ht hin
  exact (Tree.read_eq_ok_iff.mpr ⟨f, hf', rfl⟩).trans (Tree.read_eq_ok_iff.mpr ⟨f, hf, rfl⟩).symm

/-- What a build in which no asset failed leaves on the disk. -/
structure Complete (x : Context) (w : Workspace) (o : Outset) (report : BuildReport)
    (w' : Workspace) : Prop where
  grows : w.files.Grows w'.files
  opens : ∃ cache w1, Cache.openAt x.config.cache w' = (.ok cache, w1)
  lock : ∃ f, w'.files.fileAt? (lockAt w'.files.home x.config.cache) = some f ∧
    f.bytes = ByteArray.empty
  plan : (∀ k, w.files.Steady (x.config.sectionOf k).source) →
    (Plan.make x.config w').1 = .ok ⟨o.session.assets, o.order⟩
  sources : ∀ r ∈ savedRows w'.files x.config.cache, w'.files.isFile r.source = true
  waiting : ∀ i, (o.session.assets.get i).target = none ∧ (o.session.assets.get i).rebuilt = false
  entries : List.Forall₂ (fun i e => ∃ r,
    e = assetReport { o.session.assets.get i with target := some r.target } e.outcome none ∧
      ∀ c : Cache, c.rows = savedRows w'.files x.config.cache →
        Settled x.digest w'.files c o.session.assets (o.session.assets.get i) r) o.order report.assets

theorem Complete.settled {report : BuildReport} {i : Nat} (hc : Complete x w o report w')
    (hi : i ∈ o.order) : ∃ r, ∀ c : Cache, c.rows = savedRows w'.files x.config.cache →
      Settled x.digest w'.files c o.session.assets (o.session.assets.get i) r := by
  obtain ⟨n, hn, rfl⟩ := List.getElem_of_mem hi
  obtain ⟨r, _, h⟩ := (List.forall₂_iff_get.mp hc.entries).2 n hn (hc.entries.length_eq ▸ hn)
  exact ⟨r, h⟩

section succeeds

variable {report : BuildReport} (h : Fit x w) (ho : Cache.Opened x.config.cache w cache w1)
  (hs : SetsOut x cache w1 o) (hsucceeds : Succeeds x w o report s w')
include h ho hs hsucceeds

theorem Succeeds.preserves : Preserves x o.session s := by
  have hpres := h.able.preserves_outset ho hs
  rwa [hsucceeds.run] at hpres

theorem Succeeds.home_eq : s.work.files.home = w.files.home := by
  have hhome := h.able.home_run ho hs
  rwa [hsucceeds.run] at hhome

/-- Saving and closing the cache write to no source. -/
theorem Succeeds.file_source {p : Path} {f : File} (hf : s.work.files.file p = .ok f)
    (hin : InSources w.files.home x.config (p.resolve w.files.home)) : w'.files.file p = .ok f := by
  refine hsucceeds.keeps.file hf fun hl => ?_
  rw [hsucceeds.home_eq h ho hs] at hl
  exact ChangedAt.not_inSources h.layout (Or.inr hl) hin

/-- An asset that the run leaves settled is settled on the disk. -/
theorem Succeeds.settled {a : Asset} {as : Collection} {r : Row} {c : Cache} (hplaced : a.Placed x.config)
    (hsettled : Settled x.digest s.work.files s.cache as a r)
    (hrows : c.rows = savedRows w'.files x.config.cache) : Settled x.digest w'.files c as a r := by
  refine hsettled.of_rows (hrows.trans hsucceeds.rows)
    (fun f hf => hsucceeds.file_source h ho hs hf (Asset.inSources_source hplaced)) ?_
  obtain ⟨f, hf⟩ := Tree.isFile_iff.mp hsettled.target
  refine Tree.isFile_iff.mpr ⟨f, hsucceeds.keeps.file hf ?_⟩
  rw [hsucceeds.home_eq h ho hs]
  exact ((hsucceeds.preserves h ho hs).kept.of_find? hplaced hsettled.found).targetAt.apart

theorem Succeeds.opens {f : File}
    (hf : w'.files.fileAt? (lockAt w'.files.home x.config.cache) = some f) (hfree : f.holder? = none) :
    ∃ cache w1, Cache.openAt x.config.cache w' = (.ok cache, w1) := by
  have hgrows := hs.keeps.grows.trans ((hsucceeds.preserves h ho hs).keeps.grows.trans
    hsucceeds.keeps.grows)
  refine Cache.exists_openAt_eq_ok (ho.isDirectory.imp id hgrows.isDirectory) ?_ ?_ ?_
  · rw [hsucceeds.keeps.grows.home, hsucceeds.home_eq h ho hs]
    exact hgrows.place ho.lockPlace
  · intro hd
    rw [Tree.fileAt?_eq_none_of_isDir hd] at hf
    cases hf
  · intro g hg
    rwa [Option.some.inj (hg.symm.trans hf)]

/-- A build changes no source, so the same plan can be made again. -/
theorem Succeeds.plan (hsteady : ∀ k, w.files.Steady (x.config.sectionOf k).source) :
    (Plan.make x.config w').1 = .ok ⟨o.session.assets, o.order⟩ := by
  have houtset := h.able.keeps_outset ho hs
  obtain ⟨v, hv, hplan⟩ := hs.planned
  have hrun := (hsucceeds.preserves h ho hs).keeps
  rw [← hv] at houtset hrun
  have hkeeps : Keeps (ChangedAt v.files.home x.config) v.files w'.files := by
    refine (hrun.mono fun _ => Or.inl).trans (hsucceeds.keeps.mono fun l hl => Or.inr ?_)
    rwa [houtset.grows.home]
  have hlayout : Layout v.files.home x.config := houtset.grows.home.symm ▸ h.layout
  exact (make_of_keeps (houtset.wellFormed h.wellFormed) hlayout
    (fun k => (hsteady k).of_grows houtset.grows) hkeeps
    fun _ hl => hl.not_inSources hlayout).trans hplan

theorem Succeeds.sources :
    ∀ r ∈ savedRows w'.files x.config.cache, w'.files.isFile r.source = true := by
  intro r hr
  have hsources := isFile_sources_run (ready_of_setsOut h ho hs) (isFile_sources_outset h ho hs)
  rw [hsucceeds.run] at hsources
  rw [hsucceeds.rows] at hr
  obtain ⟨f, hf⟩ := Tree.isFile_iff.mp (hsources r hr)
  exact Tree.isFile_iff.mpr ⟨f, hsucceeds.file_source h ho hs hf
    ((hsucceeds.preserves h ho hs).kept.inSources_source hr)⟩

end succeeds

theorem complete_of_build {report : BuildReport} (h : Fit x w)
    (hexcl : ∀ o, outset? x w = some o → ∀ v ∈ visits x o.session o.order,
      Exclusive x.config v.1.cache.rows)
    (hb : build x w = (.ok report, w')) (hok : report.hasFailures = false) :
    ∃ o, outset? x w = some o ∧ Complete x w o report w' := by
  obtain ⟨cache, w1, o, s, hopened, hsets, hout, hsucceeds⟩ := succeeds_of_build h hb
  have hready := ready_of_setsOut h hopened hsets
  have hrunning := (running_run hready (hexcl o hout)).2 _ _ hsucceeds.run
  have hpres := hrunning.preserves
  obtain ⟨f, hf, hempty, hfree⟩ : ∃ f, w'.files.fileAt? (lockAt w'.files.home x.config.cache) =
      some f ∧ f.bytes = ByteArray.empty ∧ f.holder? = none := by
    obtain ⟨cache', w1', hopened', hsets', hbuild⟩ := build_of_outset hout
    have hlock := lock_finish h hopened' hsets'
    rw [← hbuild, hb] at hlock
    rwa [hsucceeds.keeps.grows.home, hsucceeds.home_eq h hopened hsets]
  have hgrows : w.files.Grows w'.files := by
    have hkeeps := h.able.keeps_build
    rw [hb] at hkeeps
    exact hkeeps.grows
  refine ⟨o, hout, hgrows, hsucceeds.opens h hopened hsets hf hfree, ⟨f, hf, hempty⟩,
    hsucceeds.plan h hopened hsets, hsucceeds.sources h hopened hsets, hready.waiting,
    List.forall₂_iff_zip.mpr ⟨hrunning.entries.length_eq, ?_⟩⟩
  intro i e hmem
  have hentry := (List.forall₂_iff_zip.mp hrunning.entries).2 hmem
  obtain ⟨hi, he⟩ := List.of_mem_zip hmem
  obtain ⟨herror, r, hsettled⟩ := hentry.settled (BuildReport.hasFailures_eq_false_iff.mp hok e he)
  obtain ⟨hkind, hsource, hlanguage⟩ := Asset.identity_eq_iff.mp (hpres.identity_eq i)
  have htarget : (s.assets.get i).target = some r.target := by
    have hfound : s.row? i = some r := hsettled.found
    rw [hentry.target, hfound]
    rfl
  refine ⟨r, ?_, fun c hc => ?_⟩
  · conv_lhs => rw [hentry.report]
    simp only [assetReport, Asset.isPartial, htarget, hkind, hsource, hlanguage, herror]
  · exact hsucceeds.settled h hopened hsets (hready.placed i (hready.lt i hi))
      (settled_of_bare hpres.bare.symm hsettled) hc

end Build

end AssetCompiler
