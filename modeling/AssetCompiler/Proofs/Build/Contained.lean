import AssetCompiler.Proofs.Build.Failures

/-! # Failures are contained

A processor that fails on an asset leaves the row and the target of that asset as they were, and what
was finished before stays finished. Where the run goes on, the failure gets only to assets that depend
on the failed one: to all others happens what happens where no processor fails.
-/
namespace AssetCompiler

open Cache (Owned savedRows)

def Context.withProcessor (x : Context) (p : Processor) : Context := { x with processor := p }

namespace Build

open Session

variable {digest : ByteArray → String} {owner : Owner} {c : Config} {x : Context} {i j : Nat}
  {w : Workspace} {o : Outset}

section build

variable (h : Fit x w) (hw : WritesOwn owner x w) (ho : Owned owner (savedRows w.files x.config.cache))
  (hoperations : ∀ fault, (build x w).1 ≠ .error (.file fault) ∧
    (build x w).1 ≠ .error (.cache (.file fault)))
  (hout : outset? x w = some o)
include hoperations hout

theorem run_ne_fault (fault : Fault) : (compileAll x o.session o.order).1 ≠ .error (.file fault) := by
  obtain ⟨cache, w1, _, _, hbuild⟩ := build_of_outset hout
  rw [hbuild] at hoperations
  exact fun he => (hoperations fault).1 (finish_error he fun fault => (hoperations fault).2)

/-- A build in which a failure does not end the run succeeds. -/
theorem exists_report (hpolicy : ∀ i e, Fails x o.session o.order i e →
    x.config.onProcessorError = .proceed) : ∃ report w', build x w = (.ok report, w') := by
  have hresult := run_ne_fault hoperations hout
  obtain ⟨cache, w1, _, _, hbuild⟩ := build_of_outset hout
  rw [hbuild] at hoperations
  have hfinish := finish_result fun fault => (hoperations fault).2
  cases hrun : (compileAll x o.session o.order).1 with
  | ok reports =>
    rw [hrun] at hfinish
    exact ⟨_, _, hbuild.trans (Prod.ext hfinish rfl)⟩
  | error e =>
    obtain ⟨v, hv, herror⟩ := exists_visit_of_error hrun
    rcases cases_of_compileOne_error herror with ⟨fault, rfl⟩ | ⟨habort, e', hfails⟩
    · exact absurd hrun (hresult fault)
    · rw [hpolicy v.2 e' ⟨v, hv, rfl, hfails⟩] at habort
      cases habort

include h

theorem savedRows_of_run : savedRows (build x w).2.files x.config.cache =
    (compileAll x o.session o.order).2.cache.rows := by
  obtain ⟨cache, w1, hopened, hs, hbuild⟩ := build_of_outset hout
  rw [hbuild] at hoperations ⊢
  exact (h.able.finish_spec hopened hs).2.resolve_right fun ⟨⟨fault, he⟩, _⟩ => (hoperations fault).2 he

include hw ho

theorem retained_of_unwritten (hj : j < o.session.assets.length)
    (hflag : ((compileAll x o.session o.order).2.assets.get j).rebuilt = false) :
    Retained x.config.cache w.files (build x w).2.files (o.session.assets.get j) := by
  have hsaved := savedRows_of_run h hoperations hout
  have hresult := run_ne_fault hoperations hout
  obtain ⟨cache, w1, hopened, hs, hbuild⟩ := build_of_outset hout
  have hstart := owned_outset ho hopened hs
  rw [hbuild] at hsaved ⊢
  exact retained_of_spared h hopened hs ho
    (spared_run (ready_of_setsOut h hopened hs) (hw o hout) hstart hresult).2 hsaved hj hflag

/-- What is left of a build that a failure on an asset ends: the rows that pruning has left, with those
of the assets written before in place, and the asset and all after it as they were. -/
structure EndedBy (x : Context) (w : Workspace) (o : Outset) (i : Nat) (e : ProcessorError) : Prop where
  result : (build x w).1 = .error (.processor (o.session.assets.get i).label e)
  left : ∃ front back reports s, o.order = front ++ i :: back ∧
    compileAll x o.session front = (.ok reports, s) ∧
    (∀ j ∈ front, ∀ e, ¬Fails x o.session o.order j e) ∧
    savedRows (build x w).2.files x.config.cache =
      ((writtenRows s front).foldl Cache.put o.session.cache).rows ∧
    ∀ j ∈ i :: back, Retained x.config.cache w.files (build x w).2.files (o.session.assets.get j)

theorem endedBy_of_fails (habort : x.config.onProcessorError = .abort) {e : ProcessorError}
    (hfails : Fails x o.session o.order i e) : EndedBy x w o i e := by
  obtain ⟨cache, w1, hopened, hs, hbuild⟩ := build_of_outset hout
  have hready := ready_of_setsOut h hopened hs
  have hstart := owned_outset ho hopened hs
  obtain ⟨v, hv, rfl, hfails⟩ := hfails
  obtain ⟨s', hone, hf⟩ := exists_failed_of_abort hready.processor habort hfails
  have hrun := compileAll_of_error hv hone
  obtain ⟨front, back, reports, he, hran, htells⟩ := (told_run hready (hw o hout) hstart).1 v hv
  have hfront := hready.not_mem_front he
  have hsaved := savedRows_of_run h hoperations hout
  rw [hrun] at hsaved
  refine ⟨?_, front, back, reports, v.1, he, hran.run, fun j hj e hfails => ?_, ?_, fun j hj => ?_⟩
  · rw [hbuild] at hoperations ⊢
    rw [← hran.running.assets v.2 hfront]
    exact finish_error (congrArg Prod.fst hrun) fun fault => (hoperations fault).2
  · -- Had it failed, the run would not have got on.
    obtain ⟨n, hn, rfl⟩ := List.getElem_of_mem hj
    have htell := (List.forall₂_iff_get.mp htells).2 n hn (htells.length_eq ▸ hn)
    have hpolicy := htell.policy (htell.failed_iff.mpr ⟨e, hfails⟩)
    rw [habort] at hpolicy
    cases hpolicy
  · rw [hsaved, hf.cache, hran.cache]
  · have hjfront : j ∉ front := by
      have hnodup := hready.nodup
      rw [he] at hnodup
      exact fun hmem => (List.nodup_append.mp hnodup).2.2 j hmem j hj rfl
    refine retained_of_unwritten h hw ho hoperations hout (hready.lt j (by simp [he, hj])) ?_
    rw [hrun, hf.assets, hran.running.assets j hjfront]
    exact (hready.waiting j).2

omit h hw ho hoperations in
theorem exists_run_of_ok {report : BuildReport} (hb : (build x w).1 = .ok report) :
    ∃ s, compileAll x o.session o.order = (.ok report.assets, s) := by
  obtain ⟨cache, w1, _, _, hbuild⟩ := build_of_outset hout
  rw [hbuild] at hb
  exact (run_of_finish hb).imp fun _ hs => hs.1

/-- What a build that gets to its end reports of an asset: whether a processor failed on it. If so, the
asset is as it was, and reported with the target of the row that it had. -/
structure Accurate (x : Context) (w : Workspace) (o : Outset) (i : Nat) (report : AssetReport) : Prop where
  identity : (report.kind, report.source, report.language) = (o.session.assets.get i).identity
  failed_iff : report.outcome = .failed ↔ ∃ e, Fails x o.session o.order i e
  target : report.outcome = .failed → report.target =
    ((Cache.onDisk w.files x.config.cache).find? (o.session.assets.get i).source
      (o.session.assets.get i).language).map Row.target
  retained : report.outcome = .failed →
    Retained x.config.cache w.files (build x w).2.files (o.session.assets.get i)

theorem accurate_of_build {report : BuildReport} (hb : (build x w).1 = .ok report) :
    List.Forall₂ (Accurate x w o) o.order report.assets := by
  obtain ⟨s, hrun⟩ := exists_run_of_ok hout hb
  obtain ⟨cache, w1, hopened, hs, _⟩ := build_of_outset hout
  have hready := ready_of_setsOut h hopened hs
  have hstart := owned_outset ho hopened hs
  obtain ⟨hran, htells⟩ := (told_run hready (hw o hout) hstart).2 _ _ hrun
  refine List.forall₂_iff_zip.mpr ⟨htells.length_eq, fun {i e} hmem => ?_⟩
  have htell := (List.forall₂_iff_zip.mp htells).2 hmem
  have hentry := (List.forall₂_iff_zip.mp hran.running.entries).2 hmem
  have hi := hready.lt i (List.of_mem_zip hmem).1
  have hunwritten (hfailed : e.outcome = .failed) : (s.assets.get i).rebuilt = false := by
    cases hflag : (s.assets.get i).rebuilt with
    | false => rfl
    | true =>
      rcases hentry.rebuilt.mp hflag with hne | hne <;> rw [hne] at hfailed <;> cases hfailed
  have hspared := spared_run hready (hw o hout) hstart (run_ne_fault hoperations hout)
  rw [hrun] at hspared
  refine ⟨?_, htell.failed_iff, fun hfailed => ?_, fun hfailed => ?_⟩
  · rw [← hran.running.preserves.identity_eq i, hentry.report]
    rfl
  · rw [← row?_outset h hopened hs hi, ← (hspared.2 i hi (hunwritten hfailed)).1, ← hentry.target,
      hentry.report]
    rfl
  · refine retained_of_unwritten h hw ho hoperations hout hi ?_
    rw [hrun]
    exact hunwritten hfailed

theorem not_fails_of_build {report : BuildReport} (hb : (build x w).1 = .ok report)
    (hok : report.hasFailures = false) (i : Nat) (e : ProcessorError) :
    ¬Fails x o.session o.order i e := by
  intro hfails
  have haccurate := accurate_of_build h hw ho hoperations hout hb
  have hi : i ∈ o.order := by
    obtain ⟨v, hv, rfl, _⟩ := hfails
    exact mem_order_of_mem_visits hv
  obtain ⟨n, hn, rfl⟩ := List.getElem_of_mem hi
  have hn' : n < report.assets.length := haccurate.length_eq ▸ hn
  exact BuildReport.hasFailures_eq_false_iff.mp hok _ (List.getElem_mem hn')
    (((List.forall₂_iff_get.mp haccurate).2 n hn hn').failed_iff.mpr ⟨e, hfails⟩)

omit hoperations in
theorem verdicts_of_build (bad : Nat → Prop) (hl : Located w.files (savedRows w.files x.config.cache))
    (hbad : ∀ i e, Fails x o.session o.order i e → bad i)
    {report : BuildReport} (hb : (build x w).1 = .ok report) :
    List.Forall₂ (fun i e => Unspoiled o.session.assets bad i → Verdict x o.session i e.outcome)
      o.order report.assets := by
  obtain ⟨s, hrun⟩ := exists_run_of_ok hout hb
  obtain ⟨cache, w1, hopened, hs, _⟩ := build_of_outset hout
  have hstart := owned_outset ho hopened hs
  exact verdicts_run ⟨ready_of_setsOut h hopened hs, fun i hi => exists_file_source h hopened hs hi,
    located_outset h hopened hs hl⟩ (hw o hout) hstart hbad hrun

end build

theorem forall₂_zip {α β γ : Type} {r : α → β → Prop} {q : α → γ → Prop} {as : List α} {bs : List β}
    {cs : List γ} (h : List.Forall₂ r as bs) (h' : List.Forall₂ q as cs) :
    List.Forall₂ (fun a p => r a p.1 ∧ q a p.2) as (bs.zip cs) := by
  induction h generalizing cs with
  | nil =>
    cases h'
    exact .nil
  | cons hab _ ih =>
    cases h' with
    | cons hac hrest => exact .cons ⟨hab, hac⟩ (ih hrest)

section told

variable {rows : List Row} {rs : List (Outcome × Path × Option String × Option Path)}

/-- A build that succeeds is regular if a rehearsal gives every asset a target of its own. -/
theorem regular_of_told (hx : Suits c x) (hholds : Cache.Holds w.files x.config.cache rows)
    (ht : told (rehearsal rows x w).1 = .ok rs)
    (howner : ∀ r ∈ rs, ∀ target ∈ r.2.2.2, owner target.components = (r.2.1, r.2.2.1)) :
    Regular x.digest owner c x w := by
  obtain ⟨report, hreport, hrs⟩ := exists_of_told ht
  rw [← build_eq_rehearsal_of_told hholds ht] at hreport
  refine ⟨hx, rfl, ?_, fun fault => ?_⟩
  · intro o hout v hv a _ target htarget
    obtain ⟨s, hrun⟩ := exists_run_of_ok hout hreport
    obtain ⟨e, he, heq⟩ := exists_report_of_mem_visits hrun hv
    have hown := owns_of_results hrs howner e he target (by rw [heq]; exact htarget)
    rw [hown, heq]
    rfl
  · rw [hreport]
    exact ⟨nofun, nofun⟩

end told

def refusal (step : Step) : ProcessorError := .failed step "exit status: 1" ""

/-- Fails on a step. -/
def failingOn (step : Step) : Processor :=
  .ofFunction fun _ s input => if s = step then .error (refusal step) else .ok input

/-- Fails when it is called first. -/
def failingFirst : Processor :=
  .ofFunction fun calls step input => if calls = [] then .error (refusal step) else .ok input

def minifying (policy : ErrorPolicy) : Context :=
  Sample.context { minify := true, onProcessorError := policy }

def markupFails (policy : ErrorPolicy) : Context := (minifying policy).withProcessor (failingOn .minifyMarkup)

theorem suits_withProcessor (hx : Suits c x) {p : Processor} (hp : p.KeepsFiles) :
    Suits c (x.withProcessor p) :=
  ⟨hx.roots, hp, hx.flat⟩

theorem suits_minifying (policy : ErrorPolicy) : Suits {} (minifying policy) :=
  ⟨rfl, (Sample.suits { minify := true, onProcessorError := policy }).processor,
    (Sample.suits { minify := true, onProcessorError := policy }).flat⟩

/-- The page in a build that fails on its markup. -/
def failedPage : List (Outcome × Path × Option String × Option Path) :=
  [(.created, ⟨"stylesheets/site.css"⟩, none, some ⟨"public/stylesheets/site-0123456789.css"⟩),
    (.failed, ⟨"html/page.html"⟩, none, none)]

set_option maxRecDepth 100000 in
theorem page_abort : told (rehearsal [] (markupFails .abort) Sample.page).1 =
      .error (.processor "markup html/page.html" (refusal .minifyMarkup)) ∧
    ∃ o ∈ preview? [] (markupFails .abort) Sample.page,
      WritesOwned siteOwner (markupFails .abort) o.session o.order ∧
        ∃ v ∈ visits (markupFails .abort) o.session o.order, v.2 = 0 ∧
          (v.1.compile (markupFails .abort) 0).1 = .error (.processor (refusal .minifyMarkup)) := by
  decide +kernel

set_option maxRecDepth 100000 in
def failedPageRun : Rehearsed [] (markupFails .proceed) Sample.page fun o => o.order.length = 2 where
  results := failedPage
  evaluated := by decide +kernel

set_option maxRecDepth 100000 in
def minifiedPageRun : Rehearsed [] (minifying .proceed) Sample.page fun o => o.order.length = 2 where
  results := siteResult .created
  evaluated := by decide +kernel

/-- Two languages, one of which leads the target of a page back over its source. -/
def veering : Config where
  markup := ⟨⟨"html"⟩, ⟨"public"⟩, ["x/../../html/page", "en"]⟩
  minify := true
  onProcessorError := .proceed

def veeringFails (p : Processor) : Context := (Sample.context veering).withProcessor p

/-- The page after a build that failed on the first language. -/
def veered : Workspace := (rehearsal [] (veeringFails failingFirst) Sample.lonePage).2

/-- What builds of the page report: its target in the first language, if that was not failed on. -/
def veeringResult (outcome outcome' : Outcome) (target : Option Path) :
    List (Outcome × Path × Option String × Option Path) :=
  [(outcome, ⟨"html/page.html"⟩, some "x/../../html/page", target),
    (outcome', ⟨"html/page.html"⟩, some "en", some ⟨"public/page-en.html"⟩)]

set_option maxRecDepth 100000 in
def veeringRun : Rehearsed [] (veeringFails failingFirst) Sample.lonePage fun o => o.order = [0, 1] where
  results := veeringResult .failed .created none
  evaluated := by decide +kernel

set_option maxRecDepth 100000 in
theorem veering_failing : told (rehearsal (rehearsedRows [] (veeringFails failingFirst) Sample.lonePage)
    (veeringFails (failingOn .minifyMarkup)) veered).1 = .ok (veeringResult .failed .cached none) := by
  decide +kernel

set_option maxRecDepth 100000 in
def veeringRerun : Rehearsed (rehearsedRows [] (veeringFails failingFirst) Sample.lonePage)
    (Sample.context veering) veered
    fun o => o.order = [0, 1] ∧ (o.session.assets.get 1).dependencies = [] where
  results := veeringResult .created .updated (some ⟨"public/page-x/../../html/page.html"⟩)
  evaluated := by decide +kernel

end Build

end AssetCompiler
