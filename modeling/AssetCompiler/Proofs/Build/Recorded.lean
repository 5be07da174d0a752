import AssetCompiler.Proofs.Build.Current
import AssetCompiler.Proofs.Build.Preview

/-! # Rows that agree with outputs

A compile records what it has written, and no other compile of a run writes to the same place. So
the rows in the manifest say what stands at their targets, and their stamps, which are taken while
other rows still change, are those of the rows that the build ends with.
-/
namespace AssetCompiler

open AssetCompiler.Tree (Keeps)
open Cache (Kept Owned Settled savedRows)

/-- A path that assets of a configuration can be written to. -/
def Config.HasTarget (c : Config) (p : Path) : Prop :=
  ∃ (a : Asset) (fp? : Option String), a.Placed c ∧ Asset.FlatFingerprint fp? ∧ p = a.targetPath c fp?

theorem Config.HasTarget.eq_of_beq {c : Config} {p q : Path} (hp : c.HasTarget p) (hq : c.HasTarget q)
    (h : (p == q) = true) : p = q := by
  obtain ⟨a, fp?, ha, hf, rfl⟩ := hp
  obtain ⟨b, fp?', hb, hf', rfl⟩ := hq
  exact Asset.targetPath_eq_of_beq ha hb hf hf' h

theorem Row.Of.hasTarget {c : Config} {a : Asset} {r : Row} (h : r.Of c a) : c.HasTarget r.target := by
  obtain ⟨fp?, hflat, _, htarget⟩ := h.target
  exact ⟨a, fp?, h.placed, hflat, htarget⟩

theorem Stamp.eq_of_sameAll {as bs : List Stamp} (h : sameAll as bs = true)
    (htarget : ∀ a ∈ as, ∀ b ∈ bs, (a.target == b.target) = true → a.target = b.target) : as = bs := by
  induction as generalizing bs with
  | nil =>
    cases bs with
    | nil => rfl
    | cons b bs => cases h
  | cons a as ih =>
    cases bs with
    | nil => cases h
    | cons b bs =>
      simp only [sameAll, same, Bool.and_eq_true, beq_iff_eq] at h
      obtain ⟨⟨hpath, hchecksum⟩, hrest⟩ := h
      have hhead : a = b := by
        obtain ⟨target, checksum⟩ := a
        obtain ⟨target', checksum'⟩ := b
        simp only [Stamp.mk.injEq]
        exact ⟨htarget _ List.mem_cons_self _ List.mem_cons_self hpath, hchecksum⟩
      rw [hhead, ih hrest fun a ha b hb =>
        htarget a (List.mem_cons_of_mem _ ha) b (List.mem_cons_of_mem _ hb)]

namespace Build

open Session

variable {digest : ByteArray → String} {owner : Owner} {c : Config} {x : Context} {s s' s₀ : Session}
  {i : Nat} {files files' : Tree} {rows : List Row} {order : List Nat} {w w' w1 : Workspace}
  {cache : Cache} {o : Outset} {report : BuildReport}

/-- Rows that agree with the files of a site: targets have owners, a file at a target has the
content that was written there, and stamps are of targets. -/
structure Agreeing (digest : ByteArray → String) (owner : Owner) (c : Config) (files : Tree)
    (rows : List Row) : Prop where
  owned : Owned owner rows
  stored : ∀ r ∈ rows, ∀ f, files.fileAt? (r.target.resolve files.home) = some f →
    digest f.bytes = r.outputChecksum
  stamped : ∀ r ∈ rows, ∀ stamp ∈ r.dependencies, c.HasTarget stamp.target

namespace Agreeing

theorem nil : Agreeing digest owner c files [] :=
  ⟨.nil owner, fun _ h => (by cases h), fun _ h => (by cases h)⟩

theorem filter (h : Agreeing digest owner c files rows) (p : Row → Bool) :
    Agreeing digest owner c files (rows.filter p) :=
  ⟨h.owned.filter p, fun r hr => h.stored r (List.mem_of_mem_filter hr),
    fun r hr => h.stamped r (List.mem_of_mem_filter hr)⟩

/-- Losing outputs does not make rows disagree with those that are left. -/
theorem of_files (h : Agreeing digest owner c files rows) (hhome : files'.home = files.home)
    (hfiles : ∀ r ∈ rows, files'.fileAt? (r.target.resolve files.home) = none ∨
      files'.fileAt? (r.target.resolve files.home) = files.fileAt? (r.target.resolve files.home)) :
    Agreeing digest owner c files' rows := by
  refine ⟨h.owned, fun r hr f hf => ?_, h.stamped⟩
  rw [hhome] at hf
  rcases hfiles r hr with hl | hl <;> rw [hl] at hf
  · cases hf
  · exact h.stored r hr f hf

theorem of_keeps {changed : Location → Prop} (h : Agreeing digest owner c files rows)
    (hk : Keeps changed files files') (hrows : ∀ r ∈ rows, ¬changed (r.target.resolve files.home)) :
    Agreeing digest owner c files' rows :=
  h.of_files hk.grows.home fun r hr => Or.inr (hk.files _ (hrows r hr))

theorem of_roots {c' : Config} (hr : c.roots = c'.roots) (h : Agreeing digest owner c files rows) :
    Agreeing digest owner c' files rows := by
  refine ⟨h.owned, h.stored, fun r hrow stamp hs => ?_⟩
  obtain ⟨a, fp?, ha, hf, htarget⟩ := h.stamped r hrow stamp hs
  refine ⟨a, fp?, Asset.placed_roots.mp (hr ▸ Asset.placed_roots.mpr ha), hf, ?_⟩
  rw [htarget, ← Asset.targetPath_roots, hr, Asset.targetPath_roots]

end Agreeing

/-- A row that a compile leaves in place leaves its target in place too. -/
theorem agreeing_step {result : Except BuildError AssetReport} (hr : Ready x s₀ order)
    (hi : i < s₀.assets.length) (hp : Preserves x s₀ s) (howned : Owned owner s'.cache.rows)
    (hc : Compiles x s i result s') (hresult : ∀ fault, result ≠ .error (.file fault))
    (h : Agreeing x.digest owner x.config s.work.files s.cache.rows) :
    Agreeing x.digest owner x.config s'.work.files s'.cache.rows := by
  rcases hc.written_or_idle hresult with ⟨target, bytes, hw⟩ | ⟨hkeeps, hcache, _⟩
  · obtain ⟨f, _, hrows⟩ := mem_rows_of_written hr hi hp hw
    refine ⟨howned, stored_of_written hr hi hp howned h.owned hw h.stored, fun q hq stamp hs => ?_⟩
    rcases hrows q hq with rfl | ⟨hold, _⟩
    · obtain ⟨d, _, hd⟩ := List.mem_filterMap.mp hs
      obtain ⟨r, hrow, rfl⟩ := Option.map_eq_some_iff.mp hd
      obtain ⟨a, ha⟩ := (hp.kept.formed r (Cache.find?_eq_some hrow).1).of
      exact ha.hasTarget
    · exact h.stamped q hold stamp hs
  · rw [hcache]
    exact h.of_keeps hkeeps fun _ _ => id

/-- What is asked of a build: it is one of the site, every target has an owner, and no file operation
fails. -/
structure Regular (digest : ByteArray → String) (owner : Owner) (c : Config) (x : Context)
    (w : Workspace) : Prop where
  suits : Suits c x
  digest_eq : x.digest = digest
  owns : WritesOwn owner x w
  operations : ∀ fault, (build x w).1 ≠ .error (.file fault) ∧
    (build x w).1 ≠ .error (.cache (.file fault))

section run

variable (h : Fit x w) (ho : Cache.Opened x.config.cache w cache w1) (hs : SetsOut x cache w1 o)
include h ho hs

/-- Pruning deletes the targets of pruned rows only. -/
theorem agreeing_outset
    (hrows : Agreeing digest owner c w.files (savedRows w.files x.config.cache)) :
    Agreeing digest owner c o.session.work.files o.session.cache.rows := by
  have hopened : Agreeing digest owner c w1.files cache.rows := by
    rw [ho.rows]
    exact hrows.of_keeps ho.keeps fun r hr => (h.kept.targetAt hr).ne_lock
  refine (hs.rows ▸ hopened.filter _).of_keeps hs.keeps ?_
  rintro r hr ⟨q, hq, hgone, hl⟩
  exact resolve_ne_of_pruned h ho hs hrows.owned hr hq hgone _ hl

theorem agreeing_run (hw : WritesOwned owner x o.session o.order)
    (hresult : ∀ fault, (compileAll x o.session o.order).1 ≠ .error (.file fault))
    (hrows : Agreeing x.digest owner x.config w.files (savedRows w.files x.config.cache)) :
    Agreeing x.digest owner x.config (compileAll x o.session o.order).2.work.files
      (compileAll x o.session o.order).2.cache.rows := by
  have hr := ready_of_setsOut h ho hs
  refine (compileAll_invariant (P := fun t => Preserves x o.session t ∧
    Agreeing x.digest owner x.config t.work.files t.cache.rows)
    ⟨.start hr, agreeing_outset h ho hs hrows⟩ ?_).2.2
  rintro ⟨t, i⟩ hv ⟨hp, hagree⟩
  have hi := hr.lt i (mem_order_of_mem_visits hv)
  have hc := compiles_compileOne hr.processor t i
  exact ⟨preserves_step hr hi hp hc, agreeing_step hr hi hp (owned_step hr hw hv hp hagree.owned) hc
    (fun fault he => hresult fault (compileAll_error hv he)) hagree⟩

end run

theorem agreeing_build (h : Fit x w) (hx : Regular x.digest owner c x w)
    (hrows : Agreeing x.digest owner x.config w.files (savedRows w.files x.config.cache)) :
    Agreeing x.digest owner x.config (build x w).2.files
      (savedRows (build x w).2.files x.config.cache) := by
  cases comesTo_build h hx.operations with
  | unset grows lost rows =>
    rw [rows]
    exact hrows.of_files grows.home fun r hr => lost _ (h.kept.targetAt hr).ne_lock
  | saved outset opened sets result keeps rows =>
    have hrun := agreeing_run h opened sets (hx.owns _ outset) result hrows
    rw [rows]
    refine hrun.of_keeps keeps fun r hr => ?_
    rw [h.able.home_run opened sets]
    exact ((h.able.preserves_outset opened sets).kept.targetAt hr).apart

/-- Where sources are edited and builds are regular, the rows agree with the files in every state. -/
theorem Reached.agreeing (h : Reached c (EditsSources c) (Regular digest owner c) w) :
    Standing c w ∧ Agreeing digest owner c w.files (savedRows w.files c.cache) := by
  induction h with
  | start w wellFormed layout rows =>
    rw [rows]
    exact ⟨⟨wellFormed, layout, rows ▸ .nil _⟩, .nil⟩
  | edit w w' _ edited ih =>
    obtain ⟨hstanding, hagree⟩ := ih
    refine ⟨hstanding.disturbs (edited.disturbs hstanding), ?_⟩
    rw [edited.savedRows_eq hstanding.layout]
    exact hagree.of_files edited.home fun r hr =>
      Or.inr (edited.files _ ((hstanding.kept.targetAt hr).not_inSources hstanding.layout))
  | build x w _ run ih =>
    obtain ⟨hstanding, hagree⟩ := ih
    have hdigest := run.digest_eq
    subst hdigest
    refine ⟨hstanding.build run.suits, ?_⟩
    have hroots := run.suits.roots
    rw [Config.cache_eq_of_roots hroots] at hagree ⊢
    exact (agreeing_build (hstanding.fit run.suits) run (hagree.of_roots hroots)).of_roots hroots.symm

/-- A row that says how an asset is now: its target, its source, its output, and the rows of its
dependencies. -/
structure OnRecord (digest : ByteArray → String) (t : Tree) (cache : Cache) (as : Collection) (i : Nat)
    (e : AssetReport) (r : Row) : Prop where
  identity : (e.kind, e.source, e.language) = (as.get i).identity
  found : cache.find? (as.get i).source (as.get i).language = some r
  target : e.target = some r.target
  source : ∃ f, t.file (as.get i).source = .ok f ∧ digest f.bytes = r.checksum
  output : ∃ f, t.file r.target = .ok f ∧ digest f.bytes = r.outputChecksum
  stamps : r.dependencies = cache.stamps as (as.get i)

/-- A build that succeeds is regular if its report gives every asset a target of its own. -/
theorem regular_of_build (h : Fit x w) (hx : Suits c x) (hb : build x w = (.ok report, w'))
    (hreport : ∀ e ∈ report.assets, ∀ target ∈ e.target,
      owner target.components = (e.source, e.language)) : Regular x.digest owner c x w := by
  refine ⟨hx, rfl, writesOwn_of_build h hb hreport, fun fault => ?_⟩
  rw [hb]
  exact ⟨fun he => (by cases he), fun he => (by cases he)⟩

theorem owns_of_results {rs : List (Outcome × Path × Option String × Option Path)}
    (hresults : (report.assets.map fun e => (e.outcome, e.source, e.language, e.target)) = rs)
    (h : ∀ r ∈ rs, ∀ target ∈ r.2.2.2, owner target.components = (r.2.1, r.2.2.1)) :
    ∀ e ∈ report.assets, ∀ target ∈ e.target, owner target.components = (e.source, e.language) := by
  intro e he
  exact h _ (hresults ▸ List.mem_map_of_mem he)

def changedStyle (w : Workspace) : Workspace :=
  { w with files := w.files.put ["stylesheets", "site.css"] (Sample.source "a\x7b\x7d") }

/-- What builds of the page and its stylesheet report. -/
def siteResult (outcome : Outcome) : List (Outcome × Path × Option String × Option Path) :=
  [(outcome, ⟨"stylesheets/site.css"⟩, none, some ⟨"public/stylesheets/site-0123456789.css"⟩),
    (outcome, ⟨"html/page.html"⟩, none, some ⟨"public/html/page.html"⟩)]

def siteOwner : Owner := fun components =>
  if components = (⟨"public/html/page.html"⟩ : Path).components then (⟨"html/page.html"⟩, none)
  else (⟨"stylesheets/site.css"⟩, none)

theorem siteOwner_owns : ∀ r ∈ siteResult .created, ∀ target ∈ r.2.2.2,
    siteOwner target.components = (r.2.1, r.2.2.1) := by
  decide +kernel

set_option maxRecDepth 100000 in
def changedStyleRun : Rehearsed [] (Sample.context {}) (changedStyle Sample.page) fun o =>
    DrawsFresh (Sample.context {}) o.session o.order where
  results := siteResult .created
  evaluated := by decide +kernel

theorem holds_changedStyle : Cache.Holds (changedStyle Sample.page).files ⟨"build"⟩ [] :=
  Cache.holds_nil (by decide +kernel)

theorem results_changedStyle : Sample.results? (Sample.context {}) (changedStyle Sample.page) =
    some (siteResult .created) :=
  changedStyleRun.results?_eq holds_changedStyle

/-- A configuration with a language that leads a target back over the source. -/
def returning : Config :=
  { markup := ⟨⟨"html"⟩, ⟨"public"⟩, ["en", "x/../../html/page"]⟩ }

def endedPage : Workspace := Sample.site [
  (["html"], .directory 0),
  (["html", "page.html"], Sample.source "hi[% end %]")]

def returningOwner : Owner := fun components =>
  if components = (⟨"public/page-en.html"⟩ : Path).components then (⟨"html/page.html"⟩, some "en")
  else (⟨"html/page.html"⟩, some "x/../../html/page")

set_option maxRecDepth 100000 in
def endedPageRun : Rehearsed [] (Sample.context returning) endedPage fun o =>
    WritesOwned returningOwner (Sample.context returning) o.session o.order where
  results := [(.created, ⟨"html/page.html"⟩, some "en", some ⟨"public/page-en.html"⟩),
    (.created, ⟨"html/page.html"⟩, some "x/../../html/page",
      some ⟨"public/page-x/../../html/page.html"⟩)]
  evaluated := by decide +kernel

theorem holds_endedPage : Cache.Holds endedPage.files returning.cache [] :=
  Cache.holds_nil (by decide +kernel)

set_option maxRecDepth 100000 in
theorem recorded_endedPage :
    (rehearsedRows [] (Sample.context returning) endedPage).map
        (fun r => (r.source, r.language, r.checksum)) =
      [(⟨"html/page.html"⟩, some "en", Sample.digest "hi[% end %]".toUTF8),
        (⟨"html/page.html"⟩, some "x/../../html/page", Sample.digest "hi".toUTF8)] ∧
    ((rehearsal [] (Sample.context returning) endedPage).2.files.file ⟨"html/page.html"⟩).map
      File.bytes = .ok "hi".toUTF8 := by
  decide +kernel

end Build

end AssetCompiler
