import AssetCompiler.Proofs.Build.Accounted

/-! # What a check says of a build

A check plans as a build does, without opening the cache and without pruning. Neither of these
changes a source, and nor does anything else in a build. So a build gets past planning where a check
succeeds, and stops with the same error where it does not. A build that gets to its report lists the
planned assets in the order of the check, and a check after a build says what one before it says.
-/
namespace AssetCompiler

theorem check_eq_map (c : Config) (w : Workspace) : (check c w).1 = (Plan.make c w).1.map Plan.report := rfl

/-- What a report says of an asset, whatever becomes of it. -/
def AssetReport.subject (e : AssetReport) : Kind × Path × Option String × Bool :=
  (e.kind, e.source, e.language, e.isPartial)

def PlannedAsset.subject (a : PlannedAsset) : Kind × Path × Option String × Bool :=
  (a.kind, a.source, a.language, a.isPartial)

namespace Build

open Session
open Cache (savedRows lockAt)

variable {c : Config} {x : Context} {w w' : Workspace} {o : Outset} {report : BuildReport}

/-- A build that opens its cache and prunes gets past planning, or fails with what is wrong with the
plan. -/
theorem outset_or_error (h : Fit x w) (hsteady : ∀ k, w.files.Steady (x.config.sectionOf k).source)
    (hcache : ∀ e, (build x w).1 ≠ .error (.cache e))
    (hfile : ∀ fault, (build x w).1 ≠ .error (.file fault)) :
    (∃ o, outset? x w = some o ∧ (Plan.make x.config w).1 = .ok ⟨o.session.assets, o.order⟩) ∨
      outset? x w = none ∧ ∃ e, (build x w).1 = .error e ∧ (Plan.make x.config w).1 = .error e := by
  have hapart (l : Location)
      (hl : TargetAt w.files.home x.config l ∨ l = lockAt w.files.home x.config.cache) :
      ¬InSources w.files.home x.config l :=
    ChangedAt.not_inSources h.layout (hl.imp_right Or.inl)
  cases hout : outset? x w with
  | some o =>
    obtain ⟨cache, w1, hopened, hsets, _⟩ := build_of_outset hout
    obtain ⟨w2, hfiles, hplan⟩ := hsets.planned
    have hkeeps := h.able.keeps_outset hopened hsets
    rw [← hfiles] at hkeeps
    exact .inl ⟨o, rfl, (make_of_keeps h.wellFormed h.layout hsteady hkeeps hapart).symm.trans hplan⟩
  | none =>
    refine .inr ⟨rfl, ?_⟩
    have hgoes := goes_build x w
    rw [hout] at hgoes
    generalize build x w = result at hcache hfile hgoes ⊢
    cases hgoes with
    | @unopened e _ _ => exact absurd rfl (hcache e)
    | @halted cache w1 w2 e opened hset =>
      have hkeeps := h.able.keeps_pruned (Cache.opened_of_openAt opened) (cache.prune_spec w1).2.2.2.2.1
      cases settingOut_of_setOut hset with
      | @unpruned fault _ _ _ => exact absurd rfl (hfile fault)
      | unplanned pruned planned =>
        rw [pruned] at hkeeps
        refine ⟨e, rfl, (make_of_keeps h.wellFormed h.layout hsteady hkeeps hapart).symm.trans ?_⟩
        exact congrArg Prod.fst planned

/-- A check comes to the plan that a build compiles by, or to what the build fails with. -/
theorem check_or_error (h : Standing c w) (hx : Suits c x)
    (hsteady : ∀ k, w.files.Steady (c.sectionOf k).source)
    (hcache : ∀ e, (build x w).1 ≠ .error (.cache e))
    (hfile : ∀ fault, (build x w).1 ≠ .error (.file fault)) :
    (∃ o, outset? x w = some o ∧ (check c w).1 = .ok (Plan.report ⟨o.session.assets, o.order⟩)) ∨
      outset? x w = none ∧ ∃ e, (build x w).1 = .error e ∧ (check c w).1 = .error e := by
  have hsteady' : ∀ k, w.files.Steady (x.config.sectionOf k).source := fun k =>
    Config.sectionOf_eq_of_roots hx.roots k ▸ hsteady k
  rw [check_eq_map, Plan.make_of_roots hx.roots]
  rcases outset_or_error (h.fit hx) hsteady' hcache hfile with ⟨o, hout, hmake⟩ | ⟨hout, e, he, hmake⟩
  · exact .inl ⟨o, hout, by rw [hmake]; rfl⟩
  · exact .inr ⟨hout, e, he, by rw [hmake]; rfl⟩

/-- A check fails as a plan does. -/
theorem check_error {e : BuildError} (h : (check c w).1 = .error e) :
    (∃ cause, e = .parse cause) ∨ ∃ names, e = .cycle names := by
  rw [check_eq_map] at h
  cases hm : (Plan.make c w).1 with
  | ok p =>
    rw [hm] at h
    cases h
  | error e' =>
    rw [hm] at h
    cases h
    exact Plan.make_error hm

/-- No build changes what a check says. -/
theorem check_of_build (h : Standing c w) (hx : Suits c x)
    (hsteady : ∀ k, w.files.Steady (c.sectionOf k).source) :
    (check c (build x w).2).1 = (check c w).1 := by
  have hfit := h.fit hx
  rw [check_eq_map, check_eq_map, make_of_keeps h.wellFormed h.layout hsteady (hfit.able.keeps_build)]
  exact fun l hl hin => hl.not_inSources hfit.layout (inSources_of_roots hx.roots.symm hin)

/-- A build that gets to its report lists every planned asset once, in the order of the plan. -/
theorem subjects_of_build (h : Fit x w) (hb : build x w = (.ok report, w')) :
    ∃ o, outset? x w = some o ∧ (report.assets.map fun e => (e.source, e.language)).Nodup ∧
      (report.assets.map AssetReport.subject).Perm
        (o.session.assets.map fun a => (Plan.planned a).subject) ∧
      report.assets.map AssetReport.subject =
        (Plan.report ⟨o.session.assets, o.order⟩).order.map PlannedAsset.subject := by
  obtain ⟨cache, w1, o, s, hopened, hsets, hout, hsucceeds⟩ := succeeds_of_build h hb
  have hpres := h.able.preserves_outset hopened hsets
  rw [hsucceeds.run] at hpres
  have hreport := forall₂_report h.processor hsets.made.nodup hsucceeds.run
  have hsubjects : report.assets.map AssetReport.subject =
      o.order.map fun i => (Plan.planned (o.session.assets.get i)).subject := by
    refine (List.forall₂_eq_eq_eq ▸
      List.forall₂_map_left_iff.mpr (List.forall₂_map_right_iff.mpr ?_) : _ = _).symm
    refine hreport.imp fun i e he => ?_
    obtain ⟨hkind, hsource, hlanguage⟩ := Asset.identity_eq_iff.mp (hpres.identity_eq i)
    rw [he]
    simp only [PlannedAsset.subject, AssetReport.subject, Plan.planned, assetReport,
      Asset.isPartial, hkind, hsource, hlanguage]
  have hperm : (report.assets.map AssetReport.subject).Perm
      (o.session.assets.map fun a => (Plan.planned a).subject) := by
    rw [hsubjects, Collection.map_eq_map_range]
    exact hsets.made.order.map _
  refine ⟨o, hout, ?_, hperm, by rw [hsubjects, Plan.report, List.map_map]; rfl⟩
  have hkeys := hperm.map fun e => (e.2.1, e.2.2.1)
  rw [List.map_map, List.map_map] at hkeys
  exact hkeys.nodup_iff.mpr (nodup_identities hsets.made.distinct)

/-- The built page, with another text in its source. -/
def editedPage : Workspace := changedPage (build (Sample.context {}) Sample.lonePage).2

/-- How many assets a check lists. -/
def listed? (c : Config) (w : Workspace) : Option Nat := (check c w).1.toOption.map (·.order.length)

theorem listed?_of_pairwise {n : Nat}
    (h : (∀ kind ∈ Kind.all, (found w.files c kind).Pairwise fun p q => p.le q = true) ∧
      ((Plan.ofSources c (Kind.all.flatMap (found w.files c)) w).1.toOption.map
        (·.report.order.length)) = some n) : listed? c w = some n := by
  obtain ⟨hsorted, hlength⟩ := h
  rw [← sources_of_pairwise hsorted] at hlength
  rw [← hlength]
  unfold listed?
  rw [check_eq_map]
  change ((Plan.ofSources c (Discovery.sources w.files c) w).1.map Plan.report).toOption.map _ = _
  cases (Plan.ofSources c (Discovery.sources w.files c) w).1 <;> rfl

/-- A page whose source stands behind the place that the language of `crossing` leads to. -/
def lastPage : Workspace := Sample.site [
  (["html"], .directory 0),
  (["html", "z.html"], Sample.source "hi")]

end Build

end AssetCompiler
