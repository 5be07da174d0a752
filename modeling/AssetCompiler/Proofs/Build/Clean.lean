import AssetCompiler.Proofs.Build.Drawn

/-! # Runs without rows

A run that starts without rows writes every asset. Where targets are files of their own, away from the
sources, no compile touches what another one reads: each finds the sources as they were at the start,
and the targets of those before it as they were written. So two such runs can be followed through one
order side by side.
-/
namespace AssetCompiler

open AssetCompiler.Tree (Keeps)

/-! ### What a compile without a row does in the workspace -/

theorem Workspace.drawn_of_write {w w' : Workspace} {p : Path} {bytes : ByteArray}
    (h : w.write p bytes = .ok w') : w'.drawn = w.drawn := by
  unfold Workspace.write Workspace.change at h
  cases hd : w.toDisk.change fun files now => files.write p bytes now with
  | error fault =>
    rw [hd] at h
    cases h
  | ok disk =>
    rw [hd] at h
    cases h
    rfl

namespace Session

variable {x : Context} {s s' : Session} {a : Asset} {i : Nat} {target : Path} {bytes : ByteArray}
  {outcome : Outcome}

/-- How an asset comes to its target: a fingerprint is drawn from its source, if it takes one. -/
def Draws (x : Context) (files : Tree) (drawn : Nat) (a : Asset) (target : Path) (drawn' : Nat) : Prop :=
  if a.isFingerprinted then
    ∃ bytes, files.read a.source = .ok bytes ∧
      target = a.targetPath x.config (some (x.fingerprint drawn bytes)) ∧ drawn' = drawn + 1
  else target = a.targetPath x.config none ∧ drawn' = drawn

/-- What a compile without a row does in the workspace, one thing after the other. -/
structure Lays (x : Context) (s : Session) (i : Nat) (target : Path) (s' : Session) : Prop where
  draws : ∃ files, Keeps (fun _ => False) s.work.files files ∧
    Draws x files s.work.drawn (s.assets.get i) target s'.work.drawn
  parent : ∃ w1 w2 : Workspace,
    w1.files = (Produce.content (s.scene x i) s.catalog s.work).2.2.files ∧
      makeParent w1 target = (.ok (), w2) ∧ w2.files.Grows s'.work.files ∧ s'.work.files.Grows w2.files
  target : s'.assets = s.assets.update i fun a => { a with target := some target, rebuilt := true }

theorem Aims.draws (h : Aims x s a (.ok target) s') :
    Draws x s.work.files s.work.drawn a target s'.work.drawn := by
  unfold Draws
  cases h with
  | drawn bytes fingerprinted read =>
    rw [if_pos fingerprinted]
    exact ⟨bytes, read, rfl, rfl⟩
  | plain plain =>
    rw [if_neg (by simp [plain])]
    exact ⟨rfl, rfl⟩

theorem drawn_makeParent (w : Workspace) (target : Path) : (makeParent w target).2.drawn = w.drawn := by
  unfold makeParent
  split <;> rfl

/-- Without a row, putting content in place makes directories and writes one file. -/
theorem Installs.lays (h : Installs x s a none target bytes (.ok ()) s') :
    s'.work.drawn = s.work.drawn ∧ ∃ w, makeParent s.work target = (.ok (), w) ∧
      w.files.Grows s'.work.files ∧ s'.work.files.Grows w.files := by
  cases h with
  | @recorded _ w _ _ removed made written _ =>
    cases removed
    have hdrawn := drawn_makeParent s.work target
    rw [made] at hdrawn
    exact ⟨(Workspace.drawn_of_write written).trans hdrawn, w, made,
      (Workspace.write_eq_ok written).2.1.grows, Workspace.grows_of_write written⟩

theorem lays_of_recompile (hp : x.processor.KeepsFiles)
    (h : s.recompile x i none = (.ok outcome, s')) : ∃ target, Lays x s i target s' := by
  cases recompiles_of_recompile h with
  | @installed s₁ s₂ s₃ bytes target lines produces aims installs =>
    obtain ⟨hdrawn, w, hparent, hgrows, hgrows'⟩ := installs.lays
    have hdraws := aims.draws
    rw [produces.drawn, ← hdrawn] at hdraws
    refine ⟨target, ⟨s₁.work.files, produces.keeps hp, hdraws⟩,
      ⟨s₂.work, w, aims.files.trans produces.files, hparent, hgrows, hgrows'⟩, ?_⟩
    show s₃.assets.update i _ = _
    rw [installs.assets, aims.assets, produces.assets]

end Session

namespace Build

open Session

/-! ### Runs and their prefixes -/

/-- What holds of nothing done and stays when one thing more is done holds of every prefix. -/
theorem prefix_induction {α : Type} {order : List α} {P : List α → Prop} (hnil : P [])
    (hstep : ∀ front i back, order = front ++ i :: back → P front → P (front ++ [i])) :
    ∀ front back, order = front ++ back → P front := by
  intro front
  induction front using List.reverseRecOn with
  | nil => exact fun _ _ => hnil
  | append_singleton front i ih =>
    intro back he
    have he' : order = front ++ i :: back := by simpa using he
    exact hstep front i back he' (ih (i :: back) he')

theorem pairwise_of_forall₂ {α β : Type} {R : α → β → Prop} {S : α → α → Prop} {T : β → β → Prop}
    {as : List α} {bs : List β} (h : List.Forall₂ R as bs) (hpairs : bs.Pairwise T)
    (hback : ∀ a a' b b', R a b → R a' b' → T b b' → S a a') : as.Pairwise S := by
  induction h with
  | nil => exact .nil
  | @cons a b as bs hab hrest ih =>
    obtain ⟨hfirst, hpairs⟩ := List.pairwise_cons.mp hpairs
    refine List.pairwise_cons.mpr ⟨fun a' ha' => ?_, ih hpairs⟩
    obtain ⟨n, hn, rfl⟩ := List.getElem_of_mem ha'
    have hn' : n < bs.length := hrest.length_eq ▸ hn
    exact hback _ _ _ _ hab (List.forall₂_iff_get.mp hrest |>.2 n hn hn') (hfirst _ (List.getElem_mem hn'))

variable {x : Context} {s s' : Session} {order front back : List Nat} {i j : Nat}
  {reports : List AssetReport}

/-- The session that a run ends in. -/
def after (x : Context) (s : Session) (order : List Nat) : Session := (compileAll x s order).2

theorem compileAll_append (h : compileAll x s (front ++ back) = (.ok reports, s')) :
    ∃ before rest, compileAll x s front = (.ok before, after x s front) ∧
      compileAll x (after x s front) back = (.ok rest, s') ∧ reports = before ++ rest := by
  induction front generalizing s reports with
  | nil => exact ⟨[], reports, rfl, h, rfl⟩
  | cons i front ih =>
    obtain ⟨report, s₁, rest, hc, hr, rfl⟩ := compileAll_cons_eq_ok h
    obtain ⟨before, rest', hbefore, hrest, rfl⟩ := ih hr
    have hfront : compileAll x s (i :: front) = (.ok (report :: before), after x s₁ front) := by
      rw [compileAll_cons_of_ok hc, hbefore]
      rfl
    have hafter : after x s (i :: front) = after x s₁ front := by
      rw [after, hfront]
    rw [hafter]
    exact ⟨report :: before, rest', hfront, hrest, rfl⟩

theorem mem_visits_of_append (h : compileAll x s front = (.ok reports, s')) :
    (s', i) ∈ visits x s (front ++ i :: back) := by
  induction front generalizing s reports with
  | nil =>
    cases h
    exact List.mem_cons_self
  | cons k front ih =>
    obtain ⟨report, s₁, rest, hc, hr, rfl⟩ := compileAll_cons_eq_ok h
    rw [List.cons_append, visits_cons_of_ok hc]
    exact List.mem_cons_of_mem _ (ih hr)

theorem lays_of_compileOne (hp : x.processor.KeepsFiles) (hnone : s.row? i = none) {report : AssetReport}
    (h : compileOne x s i = (.ok report, s')) (hok : report.outcome ≠ .failed) :
    ∃ target, Lays x s i target s' := by
  cases concludes_of_compileOne h with
  | compiled outcome compile =>
    cases proceeds_of_compile compile with
    | kept r lines judged =>
      have hfound := (reusable?_eq_some judged).1
      rw [hnone] at hfound
      cases hfound
    | recompiled _ recompiled =>
      rw [hnone] at recompiled
      exact lays_of_recompile hp recompiled
  | failed e compile policy => exact absurd rfl hok

/-- Assets that are not compiled stay as they are. -/
theorem get_after (hp : x.processor.KeepsFiles) (hj : j ∉ order) :
    (after x s order).assets.get j = s.assets.get j := by
  refine (compileAll_invariant (P := fun t => t.assets.get j = s.assets.get j) rfl fun v hv ht => ?_).2
  have hne : v.2 ≠ j := fun he => hj (he ▸ mem_order_of_mem_visits hv)
  exact ((compiles_compileOne hp v.1 v.2).get_of_ne hne).trans ht

end Build

/-- Whether the reported targets are files of their own. -/
def BuildReport.TargetsDistinct (home : Location) (reports : List AssetReport) : Prop :=
  reports.Pairwise fun e e' => ∀ p ∈ e.target, ∀ q ∈ e'.target, p.resolve home ≠ q.resolve home

/-- Whether the reported targets lie away from the sources. -/
def BuildReport.TargetsOutside (home : Location) (c : Config) (reports : List AssetReport) : Prop :=
  ∀ e ∈ reports, ∀ p ∈ e.target, ¬InSources home c (p.resolve home)

namespace Build

open Session
open BuildReport (TargetsDistinct TargetsOutside)

/-- A run without rows that gets to its end and in which no asset fails. Its targets are files of their
own, away from the sources. -/
structure Clean (x : Context) (s : Session) (order : List Nat) (reports : List AssetReport) : Prop where
  processor : x.processor.KeepsFiles
  flat : x.FlatFingerprints
  wellFormed : s.work.files.WellFormed
  made : Plan.Made x.config s.work.files ⟨s.assets, order⟩
  rows : s.cache.rows = []
  run : compileAll x s order = (.ok reports, after x s order)
  succeeds : ∀ e ∈ reports, e.outcome ≠ .failed
  distinct : TargetsDistinct s.work.files.home reports
  outside : TargetsOutside s.work.files.home x.config reports

/-- What is known in the middle of such a run. -/
structure Underway (s : Session) (front : List Nat) (t : Session) : Prop where
  bare : t.assets.bare = s.assets.bare
  keeps : Keeps (fun l => ∃ j ∈ front, ∃ target ∈ (t.assets.get j).target,
    l = target.resolve s.work.files.home) s.work.files t.work.files
  rows : ∀ j < s.assets.length, j ∉ front → t.row? j = none
  stored : ∀ j ∈ front, ∃ target f, (t.assets.get j).target = some target ∧
    t.work.files.file target = .ok f

/-- One compile of such a run. -/
structure Adds (x : Context) (s : Session) (front : List Nat) (t : Session) (i : Nat) (target : Path)
    (bytes : ByteArray) (t' : Session) : Prop where
  written : Written x t i target bytes t'
  lays : Lays x t i target t'
  keeps : Keeps (· = target.resolve s.work.files.home) t.work.files t'.work.files
  self : t'.assets.get i = { t.assets.get i with target := some target, rebuilt := true }
  other : ∀ j, j ≠ i → t'.assets.get j = t.assets.get j
  apart : ∀ j ∈ front, ∀ p ∈ (t.assets.get j).target,
    p.resolve s.work.files.home ≠ target.resolve s.work.files.home

namespace Underway

variable {s t : Session} {front : List Nat} {j : Nat}

theorem home (h : Underway s front t) : t.work.files.home = s.work.files.home := h.keeps.grows.home

theorem identity_eq (h : Underway s front t) (j : Nat) :
    (t.assets.get j).identity = (s.assets.get j).identity :=
  Asset.identity_eq_of_bare (Collection.bare_get_congr h.bare j)

theorem occurrences_eq (h : Underway s front t) (j : Nat) :
    (t.assets.get j).occurrences = (s.assets.get j).occurrences :=
  (congrArg Asset.occurrences (Collection.bare_get_congr h.bare j) :)

theorem content_eq (h : Underway s front t) (j : Nat) :
    (t.assets.get j).content = (s.assets.get j).content :=
  (congrArg Asset.content (Collection.bare_get_congr h.bare j) :)

end Underway

/-- A compile leaves the targets before it as they are. -/
theorem Adds.file {x : Context} {s t t' : Session} {front : List Nat} {i j : Nat} {target p : Path}
    {bytes : ByteArray} (h : Adds x s front t i target bytes t')
    (hhome : t.work.files.home = s.work.files.home) (hj : j ∈ front)
    (hp : (t.assets.get j).target = some p) {f : File} (hf : t.work.files.file p = .ok f) :
    t'.work.files.file p = .ok f :=
  h.keeps.file hf (hhome ▸ h.apart j hj p hp)

namespace Clean

variable {x : Context} {s : Session} {order front back : List Nat} {reports : List AssetReport} {i j : Nat}

theorem lt (h : Clean x s order reports) (hj : j ∈ order) : j < s.assets.length := h.made.mem_order.mp hj

theorem not_mem_front (h : Clean x s order reports) (he : order = front ++ i :: back) : i ∉ front := by
  have hnodup := h.made.nodup
  rw [he] at hnodup
  exact fun hf => (List.nodup_append.mp hnodup).2.2 i hf i List.mem_cons_self rfl

theorem forall₂_report (h : Clean x s order reports) : List.Forall₂
    (fun j e => e = assetReport ((after x s order).assets.get j) e.outcome e.error) order reports :=
  Build.forall₂_report h.processor h.made.nodup h.run

theorem exists_report (h : Clean x s order reports) (hj : j ∈ order) :
    ∃ e ∈ reports, e = assetReport ((after x s order).assets.get j) e.outcome e.error := by
  obtain ⟨n, hn, rfl⟩ := List.getElem_of_mem hj
  have hn' : n < reports.length := h.forall₂_report.length_eq ▸ hn
  exact ⟨_, List.getElem_mem hn', (List.forall₂_iff_get.mp h.forall₂_report).2 n hn hn'⟩

/-- The targets that a run ends with are files of their own. -/
theorem pairwise_targets (h : Clean x s order reports) : order.Pairwise fun j k =>
    ∀ p ∈ ((after x s order).assets.get j).target, ∀ q ∈ ((after x s order).assets.get k).target,
      p.resolve s.work.files.home ≠ q.resolve s.work.files.home := by
  refine pairwise_of_forall₂ h.forall₂_report h.distinct ?_
  intro j k e e' he he' hne p hp q hq
  refine hne p ?_ q ?_
  · rw [he]
    exact hp
  · rw [he']
    exact hq

theorem after_append (h : Clean x s order reports) (he : order = front ++ back) :
    after x s order = after x (after x s front) back := by
  have hrun := h.run
  rw [he] at hrun
  obtain ⟨_, _, _, hback, _⟩ := compileAll_append hrun
  rw [he]
  exact (congrArg Prod.snd hback).symm

/-- The asset of a target that has been written stays as it is. -/
theorem get_of_mem_front (h : Clean x s order reports) (he : order = front ++ back) (hj : j ∈ front) :
    (after x s front).assets.get j = (after x s order).assets.get j := by
  have hback : j ∉ back := by
    have hnodup := h.made.nodup
    rw [he] at hnodup
    exact fun hb => (List.nodup_append.mp hnodup).2.2 j hj j hb rfl
  rw [h.after_append he, get_after h.processor hback]

theorem compiles (h : Clean x s order reports) (he : order = front ++ i :: back) :
    ∃ report ∈ reports, Compiles x (after x s front) i (.ok report) (after x s (front ++ [i])) ∧
      compileOne x (after x s front) i = (.ok report, after x s (front ++ [i])) := by
  have hrun := h.run
  rw [he] at hrun
  obtain ⟨before, rest, hfront, hback, rfl⟩ := compileAll_append hrun
  obtain ⟨report, s₁, rest', hc, _, rfl⟩ := compileAll_cons_eq_ok hback
  have hnext : s₁ = after x s (front ++ [i]) :=
    (congrArg Prod.snd (compileAll_concat hfront hc)).symm
  have hcompiles := compiles_compileOne h.processor (after x s front) i
  rw [hc] at hcompiles
  exact ⟨report, by simp, hnext ▸ hcompiles, hnext ▸ hc⟩

theorem mem_visits (h : Clean x s order reports) (he : order = front ++ i :: back) :
    (after x s front, i) ∈ visits x s order := by
  have hrun := h.run
  rw [he] at hrun ⊢
  obtain ⟨_, _, hfront, _, _⟩ := compileAll_append hrun
  exact mem_visits_of_append hfront

theorem adds (h : Clean x s order reports) (he : order = front ++ i :: back)
    (hu : Underway s front (after x s front)) :
    ∃ target bytes, Adds x s front (after x s front) i target bytes (after x s (front ++ [i])) := by
  have hi : i < s.assets.length := h.lt (by simp [he])
  have hi' : i < (after x s front).assets.length := by
    rw [Collection.length_congr hu.bare]
    exact hi
  have hnone := hu.rows i hi (h.not_mem_front he)
  obtain ⟨report, hmem, hc, hone⟩ := h.compiles he
  have hother := fun j (hj : j ≠ i) => hc.get_of_ne (Ne.symm hj)
  obtain ⟨laid, hlays⟩ := lays_of_compileOne h.processor hnone hone (h.succeeds _ hmem)
  generalize hs' : after x s (front ++ [i]) = s' at hc hother hlays
  cases hc with
  | cached r lines found => rw [hnone] at found; cases found
  | failed e s' => exact absurd rfl (h.succeeds _ hmem)
  | written target bytes s' w =>
    have hself := w.get_self hi'
    obtain rfl : laid = target := by
      have hget := hself
      rw [hlays.target, Collection.get_update_self hi'] at hget
      exact Option.some.inj (congrArg Asset.target hget)
    refine ⟨laid, bytes, w, hlays, w.keeps.mono ?_, hself, hother, fun j hj p hp => ?_⟩
    · rintro l (rfl | ⟨r, hr, _⟩)
      · rw [hu.home]
      · rw [hnone] at hr
        cases hr
    · have he' : order = (front ++ [i]) ++ back := by simp [he]
      have htarget : ((after x s order).assets.get i).target = some laid := by
        rw [← h.get_of_mem_front he' (by simp), hs', hself]
      have hpairs := h.pairwise_targets
      rw [List.pairwise_iff_forall_sublist] at hpairs
      refine hpairs (a := j) (b := i) ?_ p ?_ laid htarget
      · rw [he]
        exact (List.singleton_sublist.mpr hj).append (List.singleton_sublist.mpr List.mem_cons_self)
      · rw [← h.get_of_mem_front he hj]
        exact hp

/-- What is known before each compile, and at the end. -/
theorem underway (h : Clean x s order reports) :
    ∀ front back, order = front ++ back → Underway s front (after x s front) := by
  refine prefix_induction ⟨rfl, .refl _ _, fun j _ _ => ?_, fun _ hj => (by cases hj)⟩ ?_
  · unfold after
    rw [compileAll, row?, Cache.find?, h.rows]
    rfl
  intro front i back he hu
  obtain ⟨target, bytes, ha⟩ := h.adds he hu
  obtain ⟨_, _, hc, _⟩ := h.compiles he
  have hi : i < s.assets.length := h.lt (by simp [he])
  have hfront := h.not_mem_front he
  have hlength := Collection.length_congr hu.bare
  have hget {j : Nat} (hj : j ∈ front) : (after x s (front ++ [i])).assets.get j =
      (after x s front).assets.get j := ha.other j fun heq => hfront (heq ▸ hj)
  refine ⟨hc.bare.trans hu.bare, ?_, fun j hj hjd => ?_, fun j hj => ?_⟩
  · refine (hu.keeps.mono ?_).trans (ha.keeps.mono ?_)
    · rintro l ⟨j, hj, p, hp, hl⟩
      exact ⟨j, List.mem_append_left _ hj, p, by rw [hget hj]; exact hp, hl⟩
    · rintro l rfl
      exact ⟨i, by simp, target, by rw [ha.self]; rfl, rfl⟩
  · rw [List.mem_append, List.mem_singleton, not_or] at hjd
    have hdistinct := Collection.distinct_congr (Collection.identities_of_bare hu.bare).symm
      h.made.distinct
    rw [hc.row?_of_ne hdistinct (hlength ▸ hi) (hlength ▸ hj) (Ne.symm hjd.2)]
    exact hu.rows j hj hjd.1
  · rcases List.mem_append.mp hj with hj | hj
    · obtain ⟨p, f, hp, hf⟩ := hu.stored j hj
      exact ⟨p, f, by rw [hget hj]; exact hp, ha.file hu.home hj hp hf⟩
    · obtain rfl := List.mem_singleton.mp hj
      obtain ⟨f, hf, _⟩ := ha.written.file
      exact ⟨target, f, by rw [ha.self], hf⟩

theorem adds_of_append (h : Clean x s order reports) (he : order = front ++ i :: back) :
    ∃ target bytes, Adds x s front (after x s front) i target bytes (after x s (front ++ [i])) :=
  h.adds he (h.underway front _ he)

theorem exists_reported (h : Clean x s order reports) (he : order = front ++ back) (hj : j ∈ front)
    {p : Path} (hp : ((after x s front).assets.get j).target = some p) : ∃ e ∈ reports, e.target = some p := by
  obtain ⟨e, hmem, hreport⟩ := h.exists_report (j := j) (by simp [he, hj])
  refine ⟨e, hmem, ?_⟩
  rw [hreport, ← hp, h.get_of_mem_front he hj]
  rfl

/-- Sources stay as they are. -/
theorem fileAt?_source (h : Clean x s order reports) (he : order = front ++ back)
    (hj : j < s.assets.length) : (after x s front).work.files.fileAt?
      ((s.assets.get j).source.resolve s.work.files.home) =
        s.work.files.fileAt? ((s.assets.get j).source.resolve s.work.files.home) := by
  refine (h.underway front back he).keeps.files _ ?_
  rintro ⟨k, hk, p, hp, hl⟩
  obtain ⟨e, hmem, htarget⟩ := h.exists_reported he hk hp
  have hplaced := h.made.exists_placedAt h.wellFormed (Collection.mem_get hj)
  refine h.outside e hmem p htarget ?_
  rw [← hl]
  exact Asset.inSources_source (a := { s.assets.get j with language := none }) hplaced

/-- What is read from a source in the course of a run stands there from the start. -/
theorem read_source (h : Clean x s order reports) (he : order = front ++ back)
    (hj : j < s.assets.length) {files : Tree}
    (hk : Keeps (fun _ => False) (after x s front).work.files files) {bytes : ByteArray}
    (hr : files.read (s.assets.get j).source = .ok bytes) :
    ∃ f, s.work.files.fileAt? ((s.assets.get j).source.resolve s.work.files.home) = some f ∧
      f.bytes = bytes := by
  obtain ⟨f, hf, hbytes⟩ := Tree.read_eq_ok_iff.mp hr
  have hfile := Tree.fileAt?_of_file hf
  rw [hk.grows.home, (h.underway front back he).home, hk.files _ id, h.fileAt?_source he hj] at hfile
  exact ⟨f, hfile, hbytes⟩

/-- Targets are such as their assets may get. -/
theorem exists_targetPath (h : Clean x s order reports) (he : order = front ++ back) (hj : j ∈ front)
    {p : Path} (hp : ((after x s front).assets.get j).target = some p) : ∃ fp?,
      p = (s.assets.get j).targetPath x.config fp? ∧ fp?.isSome = (s.assets.get j).isFingerprinted ∧
        Asset.FlatFingerprint fp? := by
  obtain ⟨before, rest, rfl⟩ := List.append_of_mem hj
  have hi : order = before ++ j :: (rest ++ back) := by simp [he]
  obtain ⟨target, bytes, ha⟩ := h.adds_of_append hi
  have hid := (h.underway before _ hi).identity_eq j
  have hself : order = (before ++ [j]) ++ (rest ++ back) := by simp [hi]
  have hget := h.get_of_mem_front hself (List.mem_append_right before (List.mem_singleton_self j))
  rw [h.get_of_mem_front he hj, ← hget, ha.self] at hp
  obtain rfl : target = p := Option.some.inj hp
  obtain ⟨fp?, htarget, hsome, hflat⟩ := ha.written.isTarget.flat h.flat
  rw [Asset.isFingerprinted_congr hid] at hsome
  exact ⟨fp?, htarget.trans (Asset.targetPath_congr hid _), hsome, hflat⟩

/-- Targets end in an extension of their kind. -/
theorem endsIn_target (h : Clean x s order reports) (he : order = front ++ back) (hj : j ∈ front)
    {p : Path} (hp : ((after x s front).assets.get j).target = some p) (home : Location) :
    EndsIn (s.assets.get j).kind (p.resolve home) := by
  obtain ⟨fp?, rfl, _, hflat⟩ := h.exists_targetPath he hj hp
  have hlt := h.lt (j := j) (by simp [he, hj])
  obtain ⟨_, _, _, hplaced⟩ := h.made.exists_placedAt h.wellFormed (Collection.mem_get hlt)
  exact Asset.endsIn_target hplaced hflat home

end Clean

/-! ### Builds without rows -/

/-- What a build sets out with depends on roots alone, and on where texts are. -/
theorem outset?_of_roots {x x' : Context} {w : Workspace} {o : Outset}
    (hroots : x'.config.roots = x.config.roots) (h : outset? x w = some o) : outset? x' w =
      some { o with session := { o.session with catalog := { directory? := x'.config.catalog } } } := by
  have hgoes := goes_build x w
  rw [h] at hgoes
  generalize build x w = result at hgoes
  cases hgoes with
  | compiles opened hset =>
    unfold outset? setOut
    rw [Config.cache_eq_of_roots hroots, opened]
    cases settingOut_of_setOut hset with
    | planned pruned planned =>
      dsimp only
      rw [pruned]
      dsimp only
      rw [Plan.make_of_roots hroots, planned]

variable {x : Context} {w w' : Workspace} {report : BuildReport}

/-- A build without a failed asset whose targets are files of their own, away from the sources. -/
structure BuildsApart (x : Context) (w : Workspace) (report : BuildReport) (w' : Workspace) : Prop where
  built : build x w = (.ok report, w')
  succeeds : report.hasFailures = false
  distinct : TargetsDistinct w.files.home report.assets
  outside : TargetsOutside w.files.home x.config report.assets

/-- Such a build is a run without rows, after which only the manifest and the lock change. -/
structure CleanBuild (x : Context) (w : Workspace) (report : BuildReport) (w' : Workspace) (o : Outset) :
    Prop where
  outset : outset? x w = some o
  clean : Clean x o.session o.order report.assets
  home : o.session.work.files.home = w.files.home
  catalog : o.session.catalog = { directory? := x.config.catalog }
  keeps : Keeps (fun l => l = Cache.lockAt w.files.home x.config.cache ∨
      l = Cache.manifestAt w.files.home x.config.cache)
    (after x o.session o.order).work.files w'.files

theorem BuildsApart.exists_cleanBuild (h : BuildsApart x w report w') (hprocessor : x.processor.KeepsFiles)
    (hflat : x.FlatFingerprints) (hw : w.files.WellFormed)
    (hrows : Cache.savedRows w.files x.config.cache = []) : ∃ o, CleanBuild x w report w' o := by
  obtain ⟨o, ho⟩ := exists_outset_of_ok (congrArg Prod.fst h.built)
  obtain ⟨cache, w1, hopened, hsets, hbuild⟩ := build_of_outset ho
  rw [h.built] at hbuild
  obtain ⟨s, hrun, _⟩ := run_of_finish (congrArg Prod.fst hbuild.symm)
  have hs : after x o.session o.order = s := congrArg Prod.snd hrun
  have hhome : o.session.work.files.home = w.files.home :=
    hsets.keeps.grows.home.trans hopened.keeps.grows.home
  have hempty : o.session.cache.rows = [] := by
    rw [hsets.rows, hopened.rows, hrows]
    rfl
  have hclean : Clean x o.session o.order report.assets := by
    refine ⟨hprocessor, hflat, hsets.keeps.wellFormed (hopened.keeps.wellFormed hw), hsets.made,
      hempty, by rw [hrun, hs], BuildReport.hasFailures_eq_false_iff.mp h.succeeds, ?_, ?_⟩
    · rw [hhome]
      exact h.distinct
    · rw [hhome]
      exact h.outside
  have hdirectory : s.cache.directory = x.config.cache := by
    rw [← hs]
    exact (directory_compileAll hprocessor _ _).trans (hsets.directory.trans hopened.directory_eq)
  have hkeeps := keeps_finish hrun hdirectory hopened.directory_eq
  have hunder := hclean.underway o.order [] (by simp)
  rw [hs] at hunder
  rw [← hbuild, hunder.home, hhome] at hkeeps
  refine ⟨o, ho, hclean, hhome, hsets.catalog, ?_⟩
  rw [hs]
  exact hkeeps

namespace CleanBuild

variable {o : Outset} {j : Nat}

/-- What a run has written stands there after the build. -/
theorem exists_file (h : CleanBuild x w report w' o) (hj : j ∈ o.order) : ∃ p f,
    ((after x o.session o.order).assets.get j).target = some p ∧
      (after x o.session o.order).work.files.file p = .ok f ∧ w'.files.file p = .ok f := by
  have hunder := h.clean.underway o.order [] (by simp)
  obtain ⟨p, f, hp, hf⟩ := hunder.stored j hj
  refine ⟨p, f, hp, hf, h.keeps.file hf ?_⟩
  have hends := h.clean.endsIn_target (List.append_nil _).symm hj hp
    (after x o.session o.order).work.files.home
  rintro (hl | hl)
  · exact hends.ne_lockAt _ _ hl
  · exact hends.ne_manifestAt _ _ hl

end CleanBuild

/-! ### Rehearsed builds -/

/-- A rehearsed build in which no asset fails gets to its report, and leaves what the rehearsal leaves. -/
theorem Rehearsed.exists_build {P : Outset → Prop} {p : Path} {text : String} (r : Rehearsed [] x w P)
    (h : Cache.Holds w.files x.config.cache []) (hok : ∀ e ∈ r.results, e.1 ≠ .failed)
    (hleaves : ∀ o, P o → ((finish x o.session.cache o).2.files.read p).toOption = some text.toUTF8) :
    ∃ report w', build x w = (.ok report, w') ∧ report.hasFailures = false ∧
      (report.assets.map fun e => (e.outcome, e.source, e.language, e.target)) = r.results ∧
      w'.files.read p = .ok text.toUTF8 := by
  obtain ⟨report, w', hb, hfailures, hresults⟩ := Sample.exists_of_results _ (r.results?_eq h) hok
  obtain ⟨o, ho, hp⟩ := r.exists_outset h
  refine ⟨report, w', hb, hfailures, hresults, ?_⟩
  have hfinish := hleaves o hp
  rw [← build_eq_finish ho, hb] at hfinish
  cases hr : w'.files.read p with
  | error fault =>
    rw [hr] at hfinish
    cases hfinish
  | ok bytes =>
    rw [hr] at hfinish
    exact congrArg _ (Option.some.inj hfinish)

theorem targetsDistinct_of_results {reports : List AssetReport} {home : Location}
    {rs : List (Outcome × Path × Option String × Option Path)}
    (hresults : (reports.map fun e => (e.outcome, e.source, e.language, e.target)) = rs)
    (h : rs.Pairwise fun e e' => ∀ p ∈ e.2.2.2, ∀ q ∈ e'.2.2.2, p.resolve home ≠ q.resolve home) :
    TargetsDistinct home reports := by
  rw [← hresults, List.pairwise_map] at h
  exact h

theorem targetsOutside_of_results {reports : List AssetReport} {home : Location} {c : Config}
    {rs : List (Outcome × Path × Option String × Option Path)}
    (hresults : (reports.map fun e => (e.outcome, e.source, e.language, e.target)) = rs)
    (h : ∀ k ∈ Kind.all, ∀ e ∈ rs, ∀ p ∈ e.2.2.2, ¬(c.sectionOf k).source.resolve home <+: p.resolve home) :
    TargetsOutside home c reports := by
  rintro e he p hp ⟨k, hk⟩
  refine h k (by cases k <;> decide) (e.outcome, e.source, e.language, e.target) ?_ p hp hk
  rw [← hresults]
  exact List.mem_map.mpr ⟨e, he, rfl⟩

end Build

end AssetCompiler
