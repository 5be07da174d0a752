import AssetCompiler.Proofs.Build.Spared

/-! # Runs with failures

A processor that fails on an asset either ends the run or is reported, and changes nothing. Of the
assets that do not depend on a failed one, at any distance, a run compiles those that are out of date
at its start and those that depend on them, and no others. So it does the same to them whether other
assets fail or not.
-/
namespace AssetCompiler

open Cache (Owned)

namespace Build

open Session

variable {owner : Owner} {x : Context} {s₀ s s' : Session} {order front back : List Nat}
  {before reports : List AssetReport} {report : AssetReport} {i : Nat} {bad : Nat → Prop}

/-- Whether a processor fails on an asset in a run. -/
def Fails (x : Context) (s : Session) (order : List Nat) (i : Nat) (e : ProcessorError) : Prop :=
  ∃ v ∈ visits x s order, v.2 = i ∧ (v.1.compile x i).1 = .error (.processor e)

section failures

theorem outcome_ne_failed {outcome : Outcome} (h : s.compile x i = (.ok outcome, s')) :
    outcome ≠ .failed := by
  cases proceeds_of_compile h with
  | kept => decide
  | recompiled _ recompiled =>
    cases recompiles_of_recompile recompiled with
    | installed => split <;> decide

/-- A report tells of a failure just when a processor fails and the run goes on. -/
theorem failed_iff_of_compileOne (h : (compileOne x s i).1 = .ok report) :
    (report.outcome = .failed ↔ ∃ e, (s.compile x i).1 = .error (.processor e)) ∧
      (report.outcome = .failed → x.config.onProcessorError = .proceed) := by
  have hconcludes := concludes_of_compileOne (Prod.eta (compileOne x s i)).symm
  rw [h] at hconcludes
  generalize (compileOne x s i).2 = s' at hconcludes
  cases hconcludes with
  | compiled outcome compile =>
    have hne := outcome_ne_failed compile
    rw [compile]
    exact ⟨iff_of_false hne fun ⟨_, he⟩ => (by cases he), fun he => absurd he hne⟩
  | failed e compile policy =>
    rw [compile]
    exact ⟨iff_of_true rfl ⟨e, rfl⟩, fun _ => policy⟩

/-- A compile ends a run when a file operation fails, or when a processor fails and the configuration
says so. -/
theorem cases_of_compileOne_error {e : BuildError} (h : (compileOne x s i).1 = .error e) :
    (∃ fault, e = .file fault) ∨
      x.config.onProcessorError = .abort ∧ ∃ e', (s.compile x i).1 = .error (.processor e') := by
  have hconcludes := concludes_of_compileOne (Prod.eta (compileOne x s i)).symm
  rw [h] at hconcludes
  generalize (compileOne x s i).2 = s' at hconcludes
  cases hconcludes with
  | stopped fault compile => exact Or.inl ⟨fault, rfl⟩
  | aborted e' compile policy => exact Or.inr ⟨policy, e', congrArg Prod.fst compile⟩

/-- A processor that fails where the configuration says so ends the run, and changes nothing. -/
theorem exists_failed_of_abort (hp : x.processor.KeepsFiles) (habort : x.config.onProcessorError = .abort)
    {e : ProcessorError} (h : (s.compile x i).1 = .error (.processor e)) :
    ∃ s', compileOne x s i = (.error (.processor (s.assets.get i).label e), s') ∧ Failed x s i s' := by
  cases hc : s.compile x i with
  | mk result s' =>
    rw [hc] at h
    cases h
    have hfailed := failed_of_compile hp hc
    refine ⟨s', ?_, hfailed⟩
    unfold compileOne
    rw [hc]
    dsimp only
    rw [habort, hfailed.assets]

/-- Whether a report tells of a failure just when a processor fails on the asset and the run goes on. -/
structure Tells (x : Context) (s : Session) (order : List Nat) (i : Nat) (report : AssetReport) : Prop where
  failed_iff : report.outcome = .failed ↔ ∃ e, Fails x s order i e
  policy : report.outcome = .failed → x.config.onProcessorError = .proceed

theorem told_run (hr : Ready x s₀ order) (hw : WritesOwned owner x s₀ order)
    (ho : Owned owner s₀.cache.rows) :
    (∀ v ∈ visits x s₀ order, ∃ front back reports, order = front ++ v.2 :: back ∧
        Ran x s₀ front reports v.1 ∧ List.Forall₂ (Tells x s₀ order) front reports) ∧
      ∀ reports s', compileAll x s₀ order = (.ok reports, s') →
        Ran x s₀ order reports s' ∧ List.Forall₂ (Tells x s₀ order) order reports := by
  refine run_induction (P := fun done reports t => Ran x s₀ done reports t ∧
    List.Forall₂ (Tells x s₀ order) done reports) ⟨.start hr, .nil⟩ ?_
  rintro front i back before report t t' he hv ⟨hran, htells⟩ hc
  obtain ⟨hiff, hpolicy⟩ := failed_iff_of_compileOne (congrArg Prod.fst hc)
  refine ⟨ran_step hr he ((owned_run hr hw ho).1 (t, i) hv) hran hc,
    List.rel_append htells (.cons ⟨hiff.trans ⟨fun ⟨e, he⟩ => ⟨e, (t, i), hv, rfl, he⟩, ?_⟩, hpolicy⟩ .nil)⟩
  rintro ⟨e, v, hv', hi, he⟩
  obtain rfl := eq_of_mem_visits hr.nodup hv' hv hi
  exact ⟨e, he⟩

end failures

/-! ### What becomes of the other assets -/

/-- Whether an asset would be kept if it were compiled now. -/
def UpToDate (x : Context) (s : Session) (i : Nat) : Prop :=
  x.config.force = false ∧ ∃ r, s.row? i = some r ∧
    s.cache.isStale x.digest s.work.files s.assets (s.assets.get i) (some r) = .ok false

/-- Whether an asset is out of date, or one that it depends on at any distance. -/
def Due (x : Context) (s : Session) (i : Nat) : Prop :=
  ∃ j, Relation.ReflTransGen (DependsOn s.assets) i j ∧ ¬UpToDate x s j

theorem due_iff : Due x s i ↔ ¬UpToDate x s i ∨ ∃ d ∈ (s.assets.get i).dependencies, Due x s d :=
  exists_dependsOn_iff

theorem not_upToDate_of_stale (h : Stale x s i) : ¬UpToDate x s i := by
  rintro ⟨hforce, r, hrow, hfresh⟩
  rcases h with hf | hstale
  · rw [hforce] at hf
    cases hf
  · rw [hstale r hrow] at hfresh
    cases hfresh

/-- What a build does to an asset when no failure gets to it. -/
def Verdict (x : Context) (s : Session) (i : Nat) (outcome : Outcome) : Prop :=
  (Due x s i ∧ outcome = if (s.row? i).isSome then .updated else .created) ∨
    ¬Due x s i ∧ outcome = .cached

theorem Verdict.unique {outcome outcome' : Outcome} (h : Verdict x s i outcome)
    (h' : Verdict x s i outcome') : outcome = outcome' := by
  rcases h with ⟨hdue, rfl⟩ | ⟨hdue, rfl⟩ <;> rcases h' with ⟨hdue', rfl⟩ | ⟨hdue', rfl⟩
  · rfl
  · exact absurd hdue hdue'
  · exact absurd hdue' hdue
  · rfl

/-- Whether an asset is none of the given ones and depends on none of them, at any distance. -/
def Unspoiled (as : Collection) (bad : Nat → Prop) (i : Nat) : Prop :=
  ∀ j, Relation.ReflTransGen (DependsOn as) i j → ¬bad j

theorem Unspoiled.of_mem {as : Collection} {d : Nat} (h : Unspoiled as bad i)
    (hd : d ∈ (as.get i).dependencies) : Unspoiled as bad d :=
  fun j hj => h j (.head hd hj)

section verdict

/-- What a run starts from: assets that can be compiled, with sources that are files and rows that were
written at their targets. -/
structure Grounded (x : Context) (s₀ : Session) (order : List Nat) : Prop extends Ready x s₀ order where
  sources : ∀ i < s₀.assets.length, ∃ f, s₀.work.files.file (s₀.assets.get i).source = .ok f
  located : Located s₀.work.files s₀.cache.rows

variable (hr : Grounded x s₀ order)
include hr

theorem describes_iff (hp : Preserves x s₀ s) (hi : i < s₀.assets.length) {r : Row} :
    r.Describes x.digest s.work.files (s.assets.get i).source ↔
      r.Describes x.digest s₀.work.files (s₀.assets.get i).source := by
  obtain ⟨f, hf⟩ := hr.sources i hi
  have hf' := hp.file_source hr.toReady hi hf
  constructor
  · rintro ⟨g, hg, h⟩
    obtain rfl : f = g := Except.ok.inj (hf'.symm.trans hg)
    exact ⟨f, hf, h⟩
  · rintro ⟨g, hg, h⟩
    obtain rfl : f = g := Except.ok.inj (hf.symm.trans hg)
    exact ⟨f, hf', h⟩

theorem isFile_target_iff (hp : Preserves x s₀ s) {r : Row} (hrow : r ∈ s₀.cache.rows)
    (hfile : s.work.files.fileAt? (r.target.resolve s₀.work.files.home) =
      s₀.work.files.fileAt? (r.target.resolve s₀.work.files.home)) :
    s.work.files.isFile r.target = true ↔ s₀.work.files.isFile r.target = true := by
  obtain ⟨l, hl⟩ := hr.located r hrow
  have hl' := hp.keeps.grows.locate hl
  obtain ⟨rfl, _⟩ := Tree.locate_eq_ok hl
  simp only [Tree.isFile_iff, Tree.file_eq_ok_iff, hl, hl', Except.ok.injEq, exists_eq_left', hfile]

/-- An asset that is still to be compiled is up to date if it was when the run started, and nothing
that it depends on has been written since. -/
theorem upToDate_iff (hp : Preserves x s₀ s) (hspared : Spared s₀ s) (hi : i < s₀.assets.length)
    (hget : s.assets.get i = s₀.assets.get i)
    (hlt : ∀ d ∈ (s₀.assets.get i).dependencies, d < s₀.assets.length) :
    UpToDate x s i ↔ UpToDate x s₀ i ∧
      ∀ d ∈ (s₀.assets.get i).dependencies, (s.assets.get d).rebuilt = false := by
  obtain ⟨hrow, hfile⟩ := hspared i hi (by rw [hget]; exact (hr.waiting i).2)
  have hdescribes {r : Row} := describes_iff hr hp hi (r := r)
  have htarget {r : Row} (hr₀ : s₀.row? i = some r) :=
    isFile_target_iff hr hp (Cache.find?_eq_some hr₀).1 (hfile r hr₀)
  have hstamps (hflags : ∀ d ∈ (s₀.assets.get i).dependencies, (s.assets.get d).rebuilt = false) :
      s.cache.stamps s.assets (s₀.assets.get i) = s₀.cache.stamps s₀.assets (s₀.assets.get i) :=
    Cache.stamps_congr rfl fun d hd => (hspared d (hlt d hd) (hflags d hd)).1
  unfold UpToDate
  rw [hrow]
  rw [hget] at hdescribes ⊢
  constructor
  · rintro ⟨hforce, r, hr₀, hfresh⟩
    obtain ⟨h1, h2, h3, h4, h5⟩ := Cache.isStale_eq_false_iff.mp hfresh
    refine ⟨⟨hforce, r, hr₀, Cache.isStale_eq_false_iff.mpr ⟨hdescribes.mp h1, (htarget hr₀).mp h2,
      fun d _ => (hr.waiting d).2, ?_, ?_⟩⟩, h3⟩
    · rw [← hp.pruned]
      exact h4
    · rw [← hstamps h3]
      exact h5
  · rintro ⟨⟨hforce, r, hr₀, hfresh⟩, hflags⟩
    obtain ⟨h1, h2, _, h4, h5⟩ := Cache.isStale_eq_false_iff.mp hfresh
    refine ⟨hforce, r, hr₀, Cache.isStale_eq_false_iff.mpr ⟨hdescribes.mpr h1, (htarget hr₀).mpr h2,
      hflags, ?_, ?_⟩⟩
    · rw [hp.pruned]
      exact h4
    · rw [hstamps hflags]
      exact h5

/-- What is known in the middle of a run of the assets that no failure gets to. -/
structure Judged (bad : Nat → Prop) (x : Context) (s₀ : Session) (done : List Nat)
    (reports : List AssetReport) (s : Session) : Prop where
  flags : ∀ j ∈ done, Unspoiled s₀.assets bad j → ((s.assets.get j).rebuilt = true ↔ Due x s₀ j)
  verdicts : List.Forall₂ (fun j e => Unspoiled s₀.assets bad j → Verdict x s₀ j e.outcome) done reports

/-- An asset that no failure gets to is compiled just when it is due. -/
theorem upToDate_iff_not_due (he : order = front ++ i :: back) (h : Running x s₀ front before s)
    (hspared : Spared s₀ s) (hj : Judged bad x s₀ front before s) (hgood : Unspoiled s₀.assets bad i) :
    UpToDate x s i ↔ ¬Due x s₀ i := by
  have hi : i < s₀.assets.length := hr.lt i (by simp [he])
  have hdeps := hr.dependencies front i back he
  rw [upToDate_iff hr h.preserves hspared hi (h.assets i (hr.not_mem_front he))
    (fun d hd => hr.lt d (by simp [he, hdeps d hd])), due_iff, not_or, not_not]
  refine and_congr_right fun _ => ?_
  simp only [not_exists, not_and]
  refine forall₂_congr fun d hd => ?_
  rw [← hj.flags d (hdeps d hd) (hgood.of_mem hd), Bool.not_eq_true]

theorem judged_step (he : order = front ++ i :: back) (h : Running x s₀ front before s)
    (hspared : Spared s₀ s) (hj : Judged bad x s₀ front before s) (hc : Compiles x s i (.ok report) s')
    (hbad : report.outcome = .failed → bad i) :
    Judged bad x s₀ (front ++ [i]) (before ++ [report]) s' := by
  have hi : i < s₀.assets.length := hr.lt i (by simp [he])
  have hlen := h.preserves.length_eq
  have hfront := hr.not_mem_front he
  have hrow := h.rows i hi hfront
  have hself : Unspoiled s₀.assets bad i →
      ((s'.assets.get i).rebuilt = true ↔ Due x s₀ i) ∧ Verdict x s₀ i report.outcome := by
    intro hgood
    have hiff := upToDate_iff_not_due hr he h hspared hj hgood
    cases hc with
    | cached r lines hfound hforce hfresh =>
      have hdue := hiff.mp ⟨hforce, r, hfound, hfresh⟩
      refine ⟨iff_of_false ?_ hdue, Or.inr ⟨hdue, rfl⟩⟩
      have hflag : (((s.note lines).setTarget i (some r.target)).assets.get i).rebuilt =
          (s.assets.get i).rebuilt := rebuilt_setTarget (s.note lines) i (some r.target) i
      rw [hflag, h.assets i hfront, (hr.waiting i).2]
      decide
    | written target bytes s' hw =>
      have hdue : Due x s₀ i := not_not.mp (mt hiff.mpr (not_upToDate_of_stale hw.stale))
      refine ⟨iff_of_true ?_ hdue, Or.inl ⟨hdue, ?_⟩⟩
      · rw [hw.get_self (hlen ▸ hi)]
      · rw [← hrow]
        rfl
    | failed e s' _ _ => exact absurd (hbad rfl) (hgood i .refl)
  refine ⟨fun j hmem hgood => ?_, List.rel_append hj.verdicts (.cons (fun hgood => (hself hgood).2) .nil)⟩
  by_cases hij : i = j
  · subst hij
    exact (hself hgood).1
  · rw [hc.get_of_ne hij]
    refine hj.flags j ((List.mem_append.mp hmem).resolve_right fun hlast => ?_) hgood
    exact hij (List.mem_singleton.mp hlast).symm

/-- In a run that gets to its end, the verdict on an asset that no failure gets to rests on what the
run started from. -/
theorem verdicts_run (hw : WritesOwned owner x s₀ order) (ho : Owned owner s₀.cache.rows)
    (hbad : ∀ i e, Fails x s₀ order i e → bad i) (h : compileAll x s₀ order = (.ok reports, s')) :
    List.Forall₂ (fun j e => Unspoiled s₀.assets bad j → Verdict x s₀ j e.outcome) order reports := by
  have hready := hr.toReady
  have hexcl := fun v hv => ((owned_run hready hw ho).1 v hv).exclusive x.config
  have hspared := (spared_run hready hw ho fun fault he => by rw [h] at he; cases he).1
  refine ((run_induction (P := fun done reports t => Running x s₀ done reports t ∧
    Judged bad x s₀ done reports t) ⟨⟨.start hready, fun _ _ => rfl, fun _ _ _ => rfl, .nil⟩,
      fun _ hj => (by cases hj), .nil⟩ ?_).2 _ _ h).2.verdicts
  rintro front i back before report t t' he hv ⟨hrun, hj⟩ hc
  have hcompiles := compiles_compileOne hready.processor t i
  rw [hc] at hcompiles
  refine ⟨running_step hready he (hexcl (t, i) hv) hrun hcompiles,
    judged_step hr he hrun (hspared (t, i) hv) hj hcompiles fun hfailed => ?_⟩
  obtain ⟨e, hfails⟩ := (failed_iff_of_compileOne (congrArg Prod.fst hc)).1.mp hfailed
  exact hbad i e ⟨(t, i), hv, rfl, hfails⟩

end verdict

end Build

end AssetCompiler
