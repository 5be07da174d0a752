import AssetCompiler.Proofs.Build.Cascade
import AssetCompiler.Proofs.Build.Halted

/-! # After builds that fail before they compile

When builds fail in planning, rows and files no longer agree: rows stay on the disk whose targets are
deleted. However many builds fail, and however sources are edited between them, the next one that opens
the cache finds all the rows, prunes by the sources that are there then, and takes for stale every row
whose target is still missing.
-/
namespace AssetCompiler

open AssetCompiler.Tree (Keeps)
open Cache (savedRows manifestAt lockAt)

namespace Build

open Session

variable {c : Config} {own : Location → Prop} {x : Context} {w w' : Workspace} {e : BuildError}
  {edits : Workspace → Workspace → Prop}

/-! ### Failures in a row -/

/-- The states that builds failing in planning lead to, with edits between them. -/
inductive Stalls (c : Config) (edits : Workspace → Workspace → Prop) (w : Workspace) : Workspace → Prop
  | refl : Stalls c edits w w
  | edit (w₁ w₂ : Workspace) (before : Stalls c edits w w₁) (edited : edits w₁ w₂) : Stalls c edits w w₂
  | fail (x : Context) (w₁ : Workspace) (e : BuildError) (before : Stalls c edits w w₁)
      (roots : c.roots = x.config.roots) (failed : (AssetCompiler.build x w₁).1 = .error e)
      (planning : e.IsPlanning) : Stalls c edits w (AssetCompiler.build x w₁).2

theorem Halted.secured (h : Halted c e w w') (hw : Secured c w) : Secured c w' :=
  hw.of_manifest h.keeps.grows.home (h.keeps.wellFormed hw.wellFormed) h.manifest

namespace Stalls

/-- However often builds fail, the rows on the disk are those that were there. -/
theorem secured (h : Stalls c edits w w') (hw : Secured c w)
    (he : ∀ u u', edits u u' → EditsBeside c u u') : Secured c w' ∧
      w'.files.home = w.files.home ∧ w'.files.fileAt? (manifestAt w.files.home c.cache) =
        w.files.fileAt? (manifestAt w.files.home c.cache) := by
  induction h with
  | refl => exact ⟨hw, rfl, rfl⟩
  | edit w₁ w₂ _ edited ih =>
    obtain ⟨hsecured, hhome, hmanifest⟩ := ih
    have hedit := he w₁ w₂ edited
    refine ⟨hsecured.edit hedit, hedit.home.trans hhome, ?_⟩
    rw [← hmanifest, ← hhome]
    exact hedit.manifest_eq hsecured.apart
  | fail x w₁ e _ roots failed planning ih =>
    obtain ⟨hsecured, hhome, hmanifest⟩ := ih
    have hhalted := halted_of_isPlanning hsecured roots failed planning
    refine ⟨hhalted.secured hsecured, hhalted.keeps.grows.home.trans hhome, ?_⟩
    rw [← hmanifest, ← hhome]
    exact hhalted.manifest

/-- Where no edit makes a file, none appears. -/
theorem absent (h : Stalls c edits w w') (hw : Secured c w)
    (he : ∀ u u', edits u u' → EditsBeside c u u') {l : Location}
    (hl : l ≠ lockAt w.files.home c.cache) (hnone : w.files.fileAt? l = none)
    (hedits : ∀ u u', edits u u' → u.files.fileAt? l = none → u'.files.fileAt? l = none) :
    w'.files.fileAt? l = none := by
  induction h with
  | refl => exact hnone
  | edit w₁ w₂ _ edited ih => exact hedits w₁ w₂ edited ih
  | fail x w₁ e before roots failed planning ih =>
    obtain ⟨hsecured, hhome, _⟩ := before.secured hw he
    have hhalted := halted_of_isPlanning hsecured roots failed planning
    rcases hhalted.lost l (hhome ▸ hl) with hlost | hlost
    · exact hlost
    · exact hlost.trans ih

end Stalls

/-! ### The run after it -/

section run

variable {s s' : Session} {i : Nat} {l : Location} {order : List Nat}

/-- Whether an asset was written to a location. -/
def Remade (s : Session) (l : Location) (i : Nat) : Prop :=
  (s.assets.get i).rebuilt = true ∧
    ∃ target, (s.assets.get i).target = some target ∧ target.resolve s.work.files.home = l

/-- One compile changes its asset alone, and makes no file at a location but by writing the asset to
it. -/
structure Spares (l : Location) (s : Session) (i : Nat) (s' : Session) : Prop where
  home : s'.work.files.home = s.work.files.home
  length : s'.assets.length = s.assets.length
  others : ∀ j, j ≠ i → s'.assets.get j = s.assets.get j
  absent : s.work.files.fileAt? l = none → s'.work.files.fileAt? l = none ∨ Remade s' l i

theorem spares_update (hfile : s'.work.files.fileAt? l = s.work.files.fileAt? l)
    (hhome : s'.work.files.home = s.work.files.home)
    (hassets : ∃ f, s'.assets = s.assets.update i f) : Spares l s i s' := by
  obtain ⟨f, hassets⟩ := hassets
  refine ⟨hhome, ?_, fun j hj => ?_, fun hnone => .inl (hfile.trans hnone)⟩
  · rw [hassets, Collection.length_update]
  · rw [hassets, Collection.get_update_of_ne hj.symm]

theorem fileAt?_of_produces {result : Except CompileError ByteArray}
    (hp : ∀ calls step input disk, Keeps own disk.files (x.processor calls step input disk).2.files)
    (hown : ¬own l) (h : Produces x s i result s') : s'.work.files.fileAt? l = s.work.files.fileAt? l := by
  refine ((h.performs fun _ => False).keeps hp).files l ?_
  rintro (ho | ⟨p, hp, _⟩)
  · exact hown ho
  · exact hp

theorem spares_recompile {outcome : Outcome}
    (hp : ∀ calls step input disk, Keeps own disk.files (x.processor calls step input disk).2.files)
    (hown : ¬own l) (hi : i < s.assets.length)
    (h : s.recompile x i (s.row? i) = (.ok outcome, s')) : Spares l s i s' := by
  cases recompiles_of_recompile h with
  | @installed s₁ s₂ s₃ bytes target lines produces aims installs =>
    have hhome : s₂.work.files.home = s.work.files.home := by
      rw [aims.files]
      exact ((produces.performs fun _ => False).keeps hp).grows.home
    have hbefore : s₂.work.files.fileAt? l = s.work.files.fileAt? l := by
      rw [aims.files]
      exact fileAt?_of_produces hp hown produces
    have hassets : s₃.assets = s.assets :=
      installs.assets.trans (aims.assets.trans produces.assets)
    have hi₃ : i < s₃.assets.length := hassets ▸ hi
    refine ⟨installs.keeps.grows.home.trans hhome, ?_, fun j hj => ?_, fun hnone => ?_⟩
    · show (s₃.assets.update i _).length = _
      rw [Collection.length_update, hassets]
    · show (s₃.assets.update i _).get j = _
      rw [Collection.get_update_of_ne hj.symm, hassets]
    · by_cases hl : l = target.resolve s₂.work.files.home
      · refine .inr ⟨?_, target, ?_, ?_⟩
        · show ((s₃.assets.update i _).get i).rebuilt = true
          rw [Collection.get_update_self hi₃]
        · show ((s₃.assets.update i _).get i).target = _
          rw [Collection.get_update_self hi₃]
        · show target.resolve s₃.work.files.home = l
          rw [installs.keeps.grows.home, hl]
      · rcases installs.replaces.lost l hl with hlost | hlost
        · exact .inl hlost
        · exact .inl (hlost.trans (hbefore.trans hnone))

theorem spares_compileOne {report : AssetReport}
    (hp : ∀ calls step input disk, Keeps own disk.files (x.processor calls step input disk).2.files)
    (hown : ¬own l) (hi : i < s.assets.length)
    (h : compileOne x s i = (.ok report, s')) : Spares l s i s' := by
  cases concludes_of_compileOne h with
  | compiled outcome compile =>
    cases proceeds_of_compile compile with
    | kept => exact spares_update rfl rfl ⟨_, rfl⟩
    | recompiled _ recompiled => exact spares_recompile hp hown hi recompiled
  | failed e compile policy =>
    have produces := produces_of_compile compile
    have hfile := fileAt?_of_produces hp hown produces
    have hhome := ((produces.performs fun _ => False).keeps hp).grows.home
    exact spares_update hfile hhome ⟨_, by rw [← produces.assets]; rfl⟩

/-- A run that starts without a file at a location finds none there before it has written an asset to
the location. -/
theorem absent_visits
    (hp : ∀ calls step input disk, Keeps own disk.files (x.processor calls step input disk).2.files)
    (hown : ¬own l) (hnodup : order.Nodup) (hlt : ∀ i ∈ order, i < s.assets.length)
    (hnone : s.work.files.fileAt? l = none) : ∀ v ∈ visits x s order,
      v.1.work.files.home = s.work.files.home ∧
        (v.1.work.files.fileAt? l = none ∨ ∃ j, Remade v.1 l j) := by
  intro v hv
  have hrun := (run_induction (P := fun done _ t =>
    t.work.files.home = s.work.files.home ∧ t.assets.length = s.assets.length ∧
      (t.work.files.fileAt? l = none ∨ ∃ j ∈ done, Remade t l j)) ⟨rfl, rfl, .inl hnone⟩ ?_).1 v hv
  · obtain ⟨_, _, _, _, hhome, _, habsent⟩ := hrun
    exact ⟨hhome, habsent.imp_right fun ⟨j, _, hj⟩ => ⟨j, hj⟩⟩
  · rintro front i back _ report t t' he hv ⟨hhome, hlength, habsent⟩ hc
    have hi : i ∈ order := he ▸ List.mem_append_right _ List.mem_cons_self
    have hspares : Spares l t i t' := spares_compileOne hp hown (hlength ▸ hlt i hi) hc
    refine ⟨hspares.home.trans hhome, hspares.length.trans hlength, ?_⟩
    rcases habsent with hnone | ⟨j, hj, hrebuilt, target, htarget, hat⟩
    · refine (hspares.absent hnone).imp_right fun hi => ⟨i, by simp, hi⟩
    · have hne : j ≠ i := by
        rintro rfl
        rw [he] at hnodup
        exact (List.nodup_middle.mp hnodup).notMem (List.mem_append_left _ hj)
      refine .inr ⟨j, List.mem_append_left _ hj, ?_, target, ?_, hspares.home ▸ hat⟩ <;>
      rwa [hspares.others j hne]

end run

/-! ### The next build -/

section next

variable {cache : Cache} {w1 : Workspace} {o : Outset} {l : Location} {rows : List Row}

/-- What a build that opens its cache does with the rows that it is to find: it takes all of them up,
and prunes and remembers those whose source is no file by then. -/
structure Resumes (rows : List Row) (cache : Cache) (w : Workspace) : Prop where
  found : cache.rows = rows
  kept : (cache.prune w).2.1.rows = rows.filter fun r => w.files.isFile r.source
  pruned : ∀ gone, (cache.prune w).1 = .ok gone →
    (gone = rows.filter fun r => !w.files.isFile r.source) ∧
      (cache.prune w).2.1.pruned = gone.map Row.source

theorem resumes_of_openAt (h : Cache.openAt c.cache w = (.ok cache, w1)) :
    Resumes (savedRows w.files c.cache) cache w1 := by
  have hopened := Cache.opened_of_openAt h
  have hrows := hopened.rows
  refine ⟨hrows, hrows ▸ (cache.prune_spec w1).1, fun gone hgone => ?_⟩
  refine ⟨hrows ▸ Cache.gone_of_prune hgone, ?_⟩
  rw [(cache.pruned_of_prune w1).2 gone hgone, hopened.pruned, List.nil_append]

/-- The report names the sources of the pruned rows. -/
theorem pruned_of_build (hx : c.roots = x.config.roots)
    (h : Cache.openAt c.cache w = (.ok cache, w1)) {report : BuildReport}
    (hb : (build x w).1 = .ok report) : report.pruned =
      ((savedRows w.files c.cache).filter fun r => !w1.files.isFile r.source).map Row.source := by
  obtain ⟨o, ho⟩ := exists_outset_of_ok hb
  obtain ⟨cache', w1', hopen, hsets, hbuild⟩ := exists_openAt_of_outset ho
  rw [← Config.cache_eq_of_roots hx, h] at hopen
  cases hopen
  rw [hbuild] at hb
  obtain ⟨_, _, hpruned⟩ := run_of_finish hb
  rw [hpruned, hsets.gone, (Cache.opened_of_openAt h).rows]

/-- Whether a row is judged stale for an asset, once the asset's source is there. -/
def JudgedStale (x : Context) (s : Session) (i : Nat) (r : Row) : Prop :=
  s.cache.isStale x.digest s.work.files s.assets (s.assets.get i) (some r) ≠ .ok false ∧
    (s.work.files.isFile (s.assets.get i).source = true →
      s.cache.isStale x.digest s.work.files s.assets (s.assets.get i) (some r) = .ok true)

theorem judgedStale_of_absent {s : Session} {r : Row}
    (h : s.work.files.fileAt? (r.target.resolve s.work.files.home) = none) (i : Nat) :
    JudgedStale x s i r := by
  have hne : s.cache.isStale x.digest s.work.files s.assets (s.assets.get i) (some r) ≠ .ok false := by
    intro hfresh
    obtain ⟨_, htarget, _⟩ := Cache.isStale_eq_false_iff.mp hfresh
    obtain ⟨f, hf⟩ := Tree.isFile_iff.mp htarget
    rw [Tree.fileAt?_of_file hf] at h
    cases h
  refine ⟨hne, fun hsource => ?_⟩
  obtain ⟨f, hf⟩ := Tree.isFile_iff.mp hsource
  exact Cache.isStale_eq_true_of_ne hf hne

/-- Where a target is missing when a build begins, and nothing makes it anew, rows of this target are
judged stale. -/
theorem judgedStale_of_missing (hx : Uses c own x w) (hown : ¬own l)
    (hl : l ≠ lockAt w.files.home c.cache) (hnone : w.files.fileAt? l = none)
    (hout : outset? x w = some o) {v : Session × Nat} (hv : v ∈ visits x o.session o.order) {r : Row}
    (hr : r.target.resolve w.files.home = l) (hremade : ∀ j, ¬Remade v.1 l j) :
    JudgedStale x v.1 v.2 r := by
  obtain ⟨cache, w1, hopened, hsets, _⟩ := build_of_outset hout
  have hopening := hopened.keeps
  have hstart : o.session.work.files.fileAt? l = none := by
    rw [← Config.cache_eq_of_roots hx.roots] at hopening
    rcases hsets.lost l with hlost | hlost
    · exact hlost
    · rw [hlost, hopening.files l hl, hnone]
  have hhome : o.session.work.files.home = w.files.home :=
    hsets.keeps.grows.home.trans hopening.grows.home
  obtain ⟨hvisit, habsent⟩ := absent_visits hx.processor hown hsets.made.nodup
    (fun i hi => hsets.made.mem_order.mp hi) hstart v hv
  refine judgedStale_of_absent ?_ v.2
  rw [hvisit, hhome, hr]
  exact habsent.resolve_right fun ⟨j, hj⟩ => hremade j hj

end next

/-! ### A page that is gone for a while -/

/-- A source put in the place of another. -/
def swapped (gone new : Location) (text : String) (w : Workspace) : Workspace :=
  { w with files := (w.files.erase gone).put new (Sample.source text) }

/-- The page taken away, and a partial that includes itself. -/
def looped (w : Workspace) : Workspace :=
  swapped ["html", "page.html"] ["html", "_a.html"] "[%= include a %]" w

/-- The page again in place of the partial. -/
def restored (w : Workspace) : Workspace :=
  swapped ["html", "_a.html"] ["html", "page.html"] "hi" w

def loopedPage : Workspace := looped (build (Sample.context {}) Sample.lonePage).2

def restoredPage : Workspace := restored (build (Sample.context {}) loopedPage).2

theorem fileAt?_swapped {gone new l : Location} (text : String) (hg : l ≠ gone) (hn : l ≠ new) :
    (swapped gone new text w).files.fileAt? l = w.files.fileAt? l :=
  (Tree.fileAt?_put_of_ne hn).trans (Tree.fileAt?_erase_of_ne hg)

theorem editsBeside_swapped {gone new : Location} {text : String}
    (hw : (swapped gone new text w).files.WellFormed) (hg : InSources w.files.home c gone)
    (hn : InSources w.files.home c new) : EditsBeside c w (swapped gone new text w) where
  home := rfl
  wellFormed := hw
  files _ hl _ := fileAt?_swapped text (fun he => hl (he ▸ hg)) fun he => hl (he ▸ hn)

theorem holds_swapped {gone new : Location} {text : String} {directory : Path} {rows : List Row}
    (h : Cache.Holds w.files directory rows) (hg : gone.getLast? ≠ some "cache.json")
    (hn : new.getLast? ≠ some "cache.json") :
    Cache.Holds (swapped gone new text w).files directory rows :=
  h.congr rfl (fileAt?_swapped text (Cache.manifestAt_ne _ _ hg) (Cache.manifestAt_ne _ _ hn))

/-- What a build comes to when the manifest has the given rows. -/
def buildWith (rows : List Row) (x : Context) (w : Workspace) : Except BuildError BuildReport × Workspace :=
  match Cache.openWith rows x.config.cache w with
  | (.error e, w) => (.error (.cache e), w)
  | (.ok cache, w) =>
    let (result, w) := withCache x cache w
    (result, cache.close w)

theorem build_eq_buildWith {rows : List Row} (h : Cache.Holds w.files x.config.cache rows) :
    build x w = buildWith rows x w := by
  unfold build
  rw [Cache.openAt_eq_openWith h]
  rfl

/-- The rows of the built page. -/
def pageRows : List Row := rehearsedRows [] (Sample.context {}) Sample.lonePage

theorem holds_loopedPage : Cache.Holds loopedPage.files ⟨"build"⟩ pageRows := by
  unfold loopedPage
  rw [lonePageRun.build_eq holds_lonePage]
  exact holds_swapped (lonePageRun.holds (Sample.suits {}).processor holds_lonePage) (by decide) (by decide)

set_option maxRecDepth 100000 in
theorem cycle_loopedPage :
    (build (Sample.context {}) loopedPage).1 = .error (.cycle ["markup html/_a.html"]) ∧
    (build (Sample.context {}) loopedPage).2.files.fileAt? ["public", "html", "page.html"] = none := by
  have htold : told (build (Sample.context {}) loopedPage).1 = .error (.cycle ["markup html/_a.html"]) ∧
      ((build (Sample.context {}) loopedPage).2.files.fileAt? ["public", "html", "page.html"]).isNone = true := by
    rw [build_eq_buildWith holds_loopedPage, loopedPage, lonePageRun.build_eq holds_lonePage]
    decide +kernel
  refine ⟨?_, Option.isNone_iff_eq_none.mp htold.2⟩
  cases hb : (build (Sample.context {}) loopedPage).1 with
  | ok report =>
    rw [hb] at htold
    cases htold.1
  | error e =>
    rw [hb] at htold
    exact congrArg _ (Except.error.inj htold.1)

theorem leads_loopedPage : Leads (Unstarted {}) (EditsBeside {}) (Uses {} fun _ => False) loopedPage := by
  have hunstarted : Unstarted {} Sample.lonePage :=
    ⟨by decide +kernel, Sample.layout.cache, holds_lonePage.savedRows_eq⟩
  have hbuilt : Leads (Unstarted {}) (EditsBeside {}) (Uses {} fun _ => False)
      (build (Sample.context {}) Sample.lonePage).2 :=
    .build (Sample.context {}) Sample.lonePage (.start _ hunstarted) (uses_context {} _)
  refine .edit _ _ hbuilt (editsBeside_swapped ?_ ⟨.markup, ?_⟩ ⟨.markup, ?_⟩) <;> decide +kernel

/-- Whether an outset comes to a row with a target at a location, before it has compiled anything, for
an asset whose source is there. -/
def MeetsRow (x : Context) (l : Location) (o : Outset) : Prop :=
  ∃ v ∈ visits x o.session o.order, (v.1.assets.all fun a => !a.rebuilt) = true ∧
    v.1.work.files.isFile (v.1.assets.get v.2).source = true ∧
    ∃ r ∈ v.1.row? v.2, r.target.resolve [] = l

theorem halted_loopedPage :
    Halted {} (.cycle ["markup html/_a.html"]) loopedPage (build (Sample.context {}) loopedPage).2 :=
  halted_of_isPlanning (secured_of_leads leads_loopedPage) rfl cycle_loopedPage.1 trivial

theorem holds_restoredPage : Cache.Holds restoredPage.files ⟨"build"⟩ pageRows := by
  refine holds_swapped (holds_loopedPage.congr halted_loopedPage.keeps.grows.home ?_) (by decide) (by decide)
  exact halted_loopedPage.manifest

set_option maxRecDepth 100000 in
theorem exists_outset_restoredPage : ∃ o, outset? (Sample.context {}) restoredPage = some o ∧
    MeetsRow (Sample.context {}) ["public", "html", "page.html"] o := by
  have hpreview : ∃ o ∈ preview? pageRows (Sample.context {}) restoredPage,
      MeetsRow (Sample.context {}) ["public", "html", "page.html"] o := by
    rw [restoredPage, build_eq_buildWith holds_loopedPage, loopedPage, lonePageRun.build_eq holds_lonePage]
    unfold MeetsRow
    decide +kernel
  obtain ⟨o, ho, hmeets⟩ := hpreview
  exact ⟨o, outset?_of_preview holds_restoredPage ho, hmeets⟩

end Build

end AssetCompiler
