import AssetCompiler.Proofs.Build.Complete
import AssetCompiler.Proofs.Build.Preview

/-! # Builds with nothing to do

After a build in which no asset failed there is nothing to do: an unforced build keeps every asset
with the target that it has, calls no processor and changes no content of a file.
-/
namespace AssetCompiler.Build

open Session
open AssetCompiler.Tree (Keeps)
open Cache (Exclusive Settled savedRows manifestAt lockAt)

variable {x x' : Context} {s : Session} {w w' : Workspace} {order : List Nat}

def keptReport (s : Session) (i : Nat) : AssetReport :=
  assetReport { s.assets.get i with target := (s.row? i).map Row.target } .cached none

/-- A session after an asset has been kept: nothing has changed that the assets behind it are judged
by. -/
structure KeptOne (s s₁ : Session) (i : Nat) : Prop where
  files : s₁.work.files = s.work.files
  calls : s₁.work.calls = s.work.calls
  cache : s₁.cache = s.cache
  bare : s₁.assets.bare = s.assets.bare
  other : ∀ j, i ≠ j → s₁.assets.get j = s.assets.get j
  rebuilt : ∀ j, (s₁.assets.get j).rebuilt = (s.assets.get j).rebuilt

theorem KeptOne.keptReport_eq {s₁ : Session} {i j : Nat} (h : KeptOne s s₁ i) (hij : i ≠ j) :
    keptReport s₁ j = keptReport s j := by
  rw [keptReport, keptReport, row?_congr h.cache h.bare, h.other j hij]

theorem compileOne_of_settled {i : Nat} {r : Row} (hforce : x.config.force = false)
    (hpruned : s.cache.pruned = []) (hi : i < s.assets.length)
    (hrebuilt : ∀ j, (s.assets.get j).rebuilt = false)
    (hs : Settled x.digest s.work.files s.cache s.assets (s.assets.get i) r) :
    ∃ s₁, compileOne x s i = (.ok (keptReport s i), s₁) ∧ KeptOne s s₁ i := by
  have hcompile := compile_of_fresh (x := x) hs.found hforce
    (hs.isStale_eq_false (fun d _ => hrebuilt d) fun p _ => by rw [hpruned]; rfl)
  let s₁ := (s.note [outcomeLine .cached (s.assets.get i) r.target]).setTarget i (some r.target)
  have hself : s₁.assets.get i = { s.assets.get i with target := some r.target } :=
    Collection.get_update_self hi _
  have hreport : keptReport s i = assetReport (s₁.assets.get i) .cached none := by
    have hfound : s.row? i = some r := hs.found
    rw [keptReport, hself, hfound]
    rfl
  refine ⟨s₁, ?_, rfl, rfl, rfl, bare_setTarget _ _ _, fun j hj => get_setTarget_of_ne hj _ _,
    rebuilt_setTarget _ _ _⟩
  rw [compileOne, hcompile, hreport]

/-- A run over settled assets keeps them all. -/
theorem compileAll_of_settled (hforce : x.config.force = false) (hpruned : s.cache.pruned = [])
    (hnodup : order.Nodup) (hlt : ∀ i ∈ order, i < s.assets.length)
    (hrebuilt : ∀ i, (s.assets.get i).rebuilt = false)
    (h : ∀ i ∈ order, ∃ r, Settled x.digest s.work.files s.cache s.assets (s.assets.get i) r) :
    ∃ s', compileAll x s order = (.ok (order.map (keptReport s)), s') ∧
      s'.work.files = s.work.files ∧ s'.work.calls = s.work.calls ∧ s'.cache = s.cache := by
  induction order generalizing s with
  | nil => exact ⟨s, rfl, rfl, rfl, rfl⟩
  | cons i order ih =>
    obtain ⟨hi, hrest⟩ := List.nodup_cons.mp hnodup
    obtain ⟨hlt, hlt'⟩ := List.forall_mem_cons.mp hlt
    obtain ⟨⟨r, hs⟩, hsettled⟩ := List.forall_mem_cons.mp h
    obtain ⟨s₁, hone, hkept⟩ := compileOne_of_settled hforce hpruned hlt hrebuilt hs
    have hsettled' : ∀ j ∈ order,
        ∃ r, Settled x.digest s₁.work.files s₁.cache s₁.assets (s₁.assets.get j) r := by
      intro j hj
      obtain ⟨q, hq⟩ := hsettled j hj
      rw [hkept.files, hkept.cache]
      exact ⟨q, settled_of_bare hkept.bare hq⟩
    obtain ⟨s', hrun, hfiles, hcalls, hcache⟩ := ih (hkept.cache ▸ hpruned) hrest
      (fun j hj => Collection.length_congr hkept.bare ▸ hlt' j hj)
      (fun j => (hkept.rebuilt j).trans (hrebuilt j)) hsettled'
    have hreports : order.map (keptReport s₁) = order.map (keptReport s) :=
      List.map_congr_left fun j hj => hkept.keptReport_eq fun he => hi (he ▸ hj)
    refine ⟨s', ?_, hfiles.trans hkept.files, hcalls.trans hkept.calls, hcache.trans hkept.cache⟩
    rw [compileAll_cons_of_ok hone, hrun, hreports]
    rfl

/-- Where every row has a source, a build that can be planned sets out without pruning. -/
theorem setOut_of_sources {cache : Cache} {p : Plan}
    (hrows : ∀ r ∈ cache.rows, w.files.isFile r.source = true)
    (hplan : (Plan.make x.config w).1 = .ok p) : ∃ lines, setOut x cache w =
      (.ok ⟨[], ⟨w.note lines, cache, p.assets, { directory? := x.config.catalog }⟩, p.order⟩,
        w.note lines) := by
  obtain ⟨lines, hlog⟩ := Plan.make_log x.config w
  refine ⟨lines, ?_⟩
  unfold setOut
  rw [Cache.prune_of_isFile hrows]
  dsimp only
  rw [← Prod.eta (Plan.make x.config w), hplan, hlog]

def cachedReport (report : BuildReport) : BuildReport where
  assets := report.assets.map fun e => { e with outcome := .cached }
  pruned := []

section again

variable {o : Outset} {report : BuildReport} {cache : Cache} {w₁ : Workspace}
  (hstanding : Standing x'.config w') (hc : Complete x w o report w')
  (hroots : x.config.roots = x'.config.roots) (hopened : Cache.Opened x'.config.cache w' cache w₁)
include hstanding hopened

/-- Opening the cache writes to no source. -/
theorem file_source_of_opened {p : Path} {f : File} (hf : w'.files.file p = .ok f)
    (hin : InSources w'.files.home x'.config (p.resolve w'.files.home)) : w₁.files.file p = .ok f :=
  hopened.keeps.file hf fun hl => ChangedAt.not_inSources hstanding.layout (Or.inr (Or.inl hl)) hin

include hroots

/-- What the first build left settled is settled for the second, since opening the cache changes no file
but the lock. -/
theorem settled_of_opened (hmade : Plan.Made x.config w'.files ⟨o.session.assets, o.order⟩)
    (hdigest : x'.digest = x.digest) {i : Nat} (hi : i ∈ o.order) {r : Row}
    (hsettled : ∀ c : Cache, c.rows = savedRows w'.files x.config.cache →
      Settled x.digest w'.files c o.session.assets (o.session.assets.get i) r) :
    Settled x'.digest w₁.files cache o.session.assets (o.session.assets.get i) r := by
  have hrows : cache.rows = savedRows w'.files x.config.cache := by
    rw [hopened.rows, Config.cache_eq_of_roots hroots]
  have hs := hsettled cache hrows
  have hplaced := hmade.placed hstanding.wellFormed (hstanding.layout.of_roots hroots.symm)
    (Collection.mem_get (hmade.mem_order.mp hi))
  rw [← Asset.placed_roots, hroots, Asset.placed_roots] at hplaced
  have hof : r.Of x'.config (o.session.assets.get i) :=
    Cache.Kept.of_find? (hopened.rows ▸ hstanding.kept) hplaced hs.found
  obtain ⟨f, hf⟩ := Tree.isFile_iff.mp hs.target
  rw [hdigest]
  exact hs.of_rows rfl
    (fun f hf => file_source_of_opened hstanding hopened hf (Asset.inSources_source hplaced))
    (Tree.isFile_iff.mpr ⟨f, hopened.keeps.file hf hof.targetAt.ne_lock⟩)

include hc

theorem plan_of_complete (hsteady : ∀ k, w.files.Steady (x.config.sectionOf k).source) :
    (Plan.make x'.config w₁).1 = .ok ⟨o.session.assets, o.order⟩ := by
  rw [make_of_keeps hstanding.wellFormed hstanding.layout (fun k => ?_) hopened.keeps
    fun l hl hin => ChangedAt.not_inSources hstanding.layout (Or.inr (Or.inl hl)) hin]
  · rw [← Plan.make_of_roots hroots]
    exact hc.plan hsteady
  · rw [← Config.sectionOf_eq_of_roots hroots]
    exact (hsteady k).of_grows hc.grows

theorem isFile_sources_of_complete : ∀ r ∈ cache.rows, w₁.files.isFile r.source = true := by
  intro r hr
  rw [hopened.rows] at hr
  obtain ⟨f, hf⟩ := Tree.isFile_iff.mp (hc.sources r (Config.cache_eq_of_roots hroots ▸ hr))
  exact Tree.isFile_iff.mpr
    ⟨f, file_source_of_opened hstanding hopened hf (hstanding.kept.inSources_source hr)⟩

theorem entries_of_complete (hmade : Plan.Made x.config w'.files ⟨o.session.assets, o.order⟩)
    (hdigest : x'.digest = x.digest) (s₀ : Session) (hfiles : s₀.work.files = w₁.files)
    (hcache : s₀.cache = cache) (hassets : s₀.assets = o.session.assets) :
    List.Forall₂ (fun i e => keptReport s₀ i = { e with outcome := .cached } ∧
      ∃ r, Settled x'.digest s₀.work.files s₀.cache s₀.assets (s₀.assets.get i) r)
      o.order report.assets := by
  have hand := (List.forall₂_and_left (p := (· ∈ o.order)) _ _).mpr ⟨fun _ h => h, hc.entries⟩
  refine hand.imp ?_
  rintro i e ⟨hi, r, he, hsettled⟩
  have hs := settled_of_opened hstanding hroots hopened hmade hdigest hi hsettled
  rw [← hfiles, ← hcache, ← hassets] at hs
  have hfound : s₀.row? i = some r := hs.found
  refine ⟨?_, r, hs⟩
  rw [he, keptReport, hfound, hassets]
  rfl

end again

/-- A build right after a complete one has nothing to do. -/
theorem build_of_complete {o : Outset} {report : BuildReport} (hstanding : Standing x'.config w')
    (hc : Complete x w o report w') (hsteady : ∀ k, w.files.Steady (x.config.sectionOf k).source)
    (hroots : x.config.roots = x'.config.roots) (hforce : x'.config.force = false)
    (hdigest : x'.digest = x.digest) :
    ∃ w'', build x' w' = (.ok (cachedReport report), w'') ∧ w''.calls = w'.calls ∧
      Keeps (· = lockAt w'.files.home x'.config.cache) w'.files w''.files ∧
      ∃ f, w''.files.fileAt? (lockAt w'.files.home x'.config.cache) = some f ∧
        f.bytes = ByteArray.empty := by
  obtain ⟨cache, w₁, hopen⟩ := hc.opens
  rw [Config.cache_eq_of_roots hroots] at hopen
  have hopened := Cache.opened_of_openAt hopen
  have hmade := Plan.made_of_make (Prod.ext (hc.plan hsteady) rfl)
  obtain ⟨lines, hset⟩ := setOut_of_sources (isFile_sources_of_complete hstanding hc hroots hopened)
    (plan_of_complete hstanding hc hroots hopened hsteady)
  let s₀ : Session := ⟨w₁.note lines, cache, o.session.assets, { directory? := x'.config.catalog }⟩
  have hentries := entries_of_complete hstanding hc hroots hopened hmade hdigest s₀ rfl rfl rfl
  obtain ⟨s', hrun, hfiles, hcalls, hcache⟩ := compileAll_of_settled (s := s₀) hforce hopened.pruned
    hmade.nodup (fun i hi => hmade.mem_order.mp hi) (fun i => (hc.waiting i).2) fun i hi => by
      obtain ⟨n, hn, rfl⟩ := List.getElem_of_mem hi
      exact ((List.forall₂_iff_get.mp hentries).2 n hn (hentries.length_eq ▸ hn)).2
  have hreports : o.order.map (keptReport s₀) = (cachedReport report).assets := by
    rw [cachedReport, ← List.forall₂_eq_eq_eq, List.forall₂_map_left_iff, List.forall₂_map_right_iff]
    exact hentries.imp fun _ _ h => h.1
  have hbuild : build x' w' = (.ok (cachedReport report), cache.close s'.work) := by
    unfold build withCache
    rw [hopen]
    dsimp only
    rw [hset]
    dsimp only
    rw [hrun]
    dsimp only
    unfold saved Cache.save
    rw [hcache, hopened.clean, hreports]
    rfl
  obtain ⟨f, hf, hempty, hholder⟩ := hopened.lock
  have hplace := hopened.lockPlace
  have hfiles' : s'.work.files = w₁.files := hfiles
  rw [← hfiles'] at hplace hf
  have hclose := cache.keeps_close s'.work
  rw [hopened.directory_eq, hfiles', hopened.keeps.grows.home] at hclose
  refine ⟨cache.close s'.work, hbuild, ?_, hopened.keeps.trans hclose, { f with holder? := none },
    hopened.fileAt?_close hf hplace hholder, hempty⟩
  exact (Workspace.calls_unlock _ _ _).trans (hcalls.trans hopened.calls)

/-- In every state that a site gets to, a build in which no asset failed leaves nothing to do for
an unforced one right after it. -/
theorem build_again {c : Config} {report : BuildReport}
    (h : Reached c (Disturbs c) (fun x w => Suits c x ∧ Fresh x w) w) (hx : Suits c x)
    (hfresh : Fresh x w) (hsteady : ∀ k, w.files.Steady (c.sectionOf k).source)
    (hb : build x w = (.ok report, w')) (hok : report.hasFailures = false)
    (hroots : x.config.roots = x'.config.roots) (hforce : x'.config.force = false)
    (hdigest : x'.digest = x.digest) :
    ∃ w'', build x' w' = (.ok (cachedReport report), w'') ∧ (∀ e ∈ report.assets, e.target ≠ none) ∧
      w''.calls = w'.calls ∧
      (∀ l, l ≠ lockAt w'.files.home c.cache → w''.files.fileAt? l = w'.files.fileAt? l) ∧
      ∀ l, (w''.files.fileAt? l).map File.bytes = (w'.files.fileAt? l).map File.bytes := by
  have hfit := (h.standing (fun _ _ => id) fun _ _ hr => hr.1).fit hx
  have hexcl : ∀ o, outset? x w = some o → ∀ v ∈ visits x o.session o.order,
      Exclusive x.config v.1.cache.rows := by
    intro o ho
    obtain ⟨cache, w1, hopened, hsets, _⟩ := build_of_outset ho
    refine (exclusive_run (ready_of_setsOut hfit hopened hsets) (hfresh o ho) ?_).1
    rw [hsets.rows, hopened.rows, ← Config.cache_eq_of_roots hx.roots]
    exact ((h.exclusive (fun _ _ => id) fun _ _ => id).of_roots hx.roots).filter _
  obtain ⟨o, _, hcomplete⟩ := complete_of_build hfit hexcl hb hok
  have hstanding : Standing c w' := by
    have hreached := Reached.build x w h ⟨hx, hfresh⟩
    rw [hb] at hreached
    exact hreached.standing (fun _ _ => id) fun _ _ hr => hr.1
  have hcache := Config.cache_eq_of_roots (hx.roots.trans hroots)
  obtain ⟨w'', hbuild, hcalls, hkeeps, f, hf, hempty⟩ := build_of_complete
    (hstanding.of_roots (hx.roots.trans hroots)) hcomplete
    (fun k => Config.sectionOf_eq_of_roots hx.roots k ▸ hsteady k) hroots hforce hdigest
  rw [← hcache] at hkeeps hf
  refine ⟨w'', hbuild, fun e he => ?_, hcalls, hkeeps.files, fun l => ?_⟩
  · obtain ⟨n, hn, rfl⟩ := List.getElem_of_mem he
    obtain ⟨r, hr, _⟩ :=
      (List.forall₂_iff_get.mp hcomplete.entries).2 n (hcomplete.entries.length_eq.symm ▸ hn) hn
    have htarget : report.assets[n].target = some r.target := by
      have ht := congrArg AssetReport.target hr
      exact ht
    rw [htarget]
    exact Option.some_ne_none _
  · by_cases hl : l = lockAt w'.files.home c.cache
    · obtain ⟨g, hg, hempty'⟩ := hcomplete.lock
      rw [← Config.cache_eq_of_roots hx.roots] at hg
      rw [hl, hf, hg, Option.map_some, Option.map_some, hempty, hempty']
    · rw [hkeeps.files l hl]

set_option maxRecDepth 100000 in
theorem build_again_page : ∃ report w' w'', build (Sample.context {}) Sample.page = (.ok report, w') ∧
    report.assets.length = 2 ∧ build (Sample.context {}) w' = (.ok (cachedReport report), w'') ∧
      w''.calls = w'.calls := by
  obtain ⟨report, w', hb, hok, hresults⟩ := Sample.exists_of_results (x := Sample.context {})
    (w := Sample.page)
    [(.created, ⟨"stylesheets/site.css"⟩, none, some ⟨"public/stylesheets/site-0123456789.css"⟩),
      (.created, ⟨"html/page.html"⟩, none, some ⟨"public/html/page.html"⟩)] (by decide +kernel) (by decide)
  have hstart : Reached {} (Disturbs {}) (fun x w => Suits {} x ∧ Fresh x w) Sample.page :=
    .start _ (by decide +kernel) Sample.layout (by decide +kernel)
  obtain ⟨w'', hbuild, _, hcalls, _⟩ := build_again hstart (Sample.suits {}) (by decide +kernel)
    (fun k => Or.inl (by cases k <;> decide +kernel)) hb hok rfl rfl rfl
  have hlen := congrArg List.length hresults
  rw [List.length_map] at hlen
  exact ⟨report, w', w'', hb, hlen, hbuild, hcalls⟩

set_option maxRecDepth 100000 in
/-- Where a source root leads out of a directory that builds make, or a language leads from the
targets to the sources, the build after a complete one has something to do. -/
theorem exists_created_again :
    (Reached Sample.unsteady (Disturbs Sample.unsteady) (fun x w => Suits Sample.unsteady x ∧ Fresh x w) Sample.page ∧
      Suits Sample.unsteady (Sample.context Sample.unsteady) ∧ Fresh (Sample.context Sample.unsteady) Sample.page ∧
      ∃ report w' report' w'', build (Sample.context Sample.unsteady) Sample.page = (.ok report, w') ∧
        report.hasFailures = false ∧ build (Sample.context Sample.unsteady) w' = (.ok report', w'') ∧
        report'.assets.length ≠ report.assets.length) ∧
    Sample.detouring.validate = .ok Sample.detouring ∧ Sample.lonePage.files.WellFormed ∧
      savedRows Sample.lonePage.files Sample.detouring.cache = [] ∧
      (∀ k k', Apart ((Sample.detouring.sectionOf k).source.resolve [])
        ((Sample.detouring.sectionOf k').target.resolve [])) ∧
      (∀ k, Apart ((Sample.detouring.sectionOf k).source.resolve []) (Sample.detouring.cache.resolve [])) ∧
      (∀ k, Sample.lonePage.files.Steady (Sample.detouring.sectionOf k).source) ∧
      Suits Sample.detouring (Sample.context Sample.detouring) ∧
      Fresh (Sample.context Sample.detouring) Sample.lonePage ∧
      ∃ report w' report' w'', build (Sample.context Sample.detouring) Sample.lonePage = (.ok report, w') ∧
        report.hasFailures = false ∧ build (Sample.context Sample.detouring) w' = (.ok report', w'') ∧
        report'.assets.length ≠ report.assets.length := by
  obtain ⟨hapart, hapart'⟩ := Sample.apart_detouring
  refine ⟨⟨.start _ (by decide +kernel) Sample.layout_unsteady (by decide +kernel), Sample.suits _,
      by decide +kernel, ?_⟩, by decide +kernel, by decide +kernel, by decide +kernel, hapart, hapart',
    fun k => Or.inl (by cases k <;> decide +kernel), Sample.suits _, by decide +kernel, ?_⟩
  · obtain ⟨report, w', report', w'', hb, hok, hlen, hb', _, hresults⟩ := Sample.results_unsteady
    refine ⟨report, w', report', w'', hb, hok, hb', ?_⟩
    have hlen' := congrArg List.length hresults
    rw [List.length_map] at hlen'
    rw [hlen, hlen']
    decide
  · obtain ⟨report, w', report', w'', hb, hok, hlen, hb', _, hresults⟩ := Sample.results_detouring
    refine ⟨report, w', report', w'', hb, hok, hb', ?_⟩
    have hlen' := congrArg List.length hresults
    rw [List.length_map] at hlen'
    rw [hlen, hlen']
    decide

end AssetCompiler.Build
