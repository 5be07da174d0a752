import AssetCompiler.Proofs.Build.Intact

/-! # Builds that are easy to evaluate

Evaluating a build is slow where it reads a manifest, and stops where it sorts sources. A rehearsal
is given the rows of the manifest and takes the sources as they are found. It comes to what the
build comes to, when the manifest has these rows and the sources are found in order.
-/
namespace AssetCompiler

open Cache (savedRows manifestAt lockAt)

namespace Cache

variable {t t' : Tree} {directory : Path} {rows : List Row} {w : Workspace}

/-- A directory with a manifest of the given rows, or with none where there are no rows. -/
structure Holds (t : Tree) (directory : Path) (rows : List Row) : Prop where
  absent : t.fileAt? (manifestAt t.home directory) = none → rows = []
  present : ∀ f, t.fileAt? (manifestAt t.home directory) = some f →
    f.bytes = (Manifest.render rows).toUTF8 ∧ ∀ r ∈ rows, Manifest.Fits r

theorem manifestAt_ne (home : Location) (directory : Path) {l : Location}
    (hl : l.getLast? ≠ some "cache.json") : manifestAt home directory ≠ l := by
  rw [manifestAt_eq]
  rintro rfl
  exact hl List.getLast?_concat

theorem holds_nil (h : t.fileAt? (manifestAt t.home directory) = none) : Holds t directory [] :=
  ⟨fun _ => rfl, fun f hf => by rw [h] at hf; cases hf⟩

theorem Holds.congr (h : Holds t directory rows) (hhome : t'.home = t.home)
    (hfile : t'.fileAt? (manifestAt t.home directory) = t.fileAt? (manifestAt t.home directory)) :
    Holds t' directory rows := by
  refine ⟨fun hf => h.absent ?_, fun f hf => h.present f ?_⟩ <;>
  · rw [hhome, hfile] at hf
    exact hf

theorem Holds.savedRows_eq (h : Holds t directory rows) : savedRows t directory = rows := by
  unfold savedRows
  cases hf : t.fileAt? (manifestAt t.home directory) with
  | none =>
    rw [h.absent hf, rowsAt, hf]
    rfl
  | some f => exact rowsAt_of_render hf (h.present f hf).1 (h.present f hf).2

theorem Holds.loadRows_eq (h : Holds t directory rows)
    (hl : t.locate (manifestPath directory) = .ok (manifestAt t.home directory)) :
    loadRows t directory = (rows, []) := by
  unfold loadRows
  dsimp only
  cases hf : t.fileAt? (manifestAt t.home directory) with
  | none =>
    cases hr : t.readText (manifestPath directory) with
    | error e => rw [h.absent hf]
    | ok text =>
      unfold Tree.readText Tree.read at hr
      cases hfile : t.file (manifestPath directory) with
      | error e =>
        rw [hfile] at hr
        cases hr
      | ok f =>
        obtain ⟨l, hl', hat⟩ := Tree.file_eq_ok_iff.mp hfile
        rw [hl] at hl'
        cases hl'
        rw [hf] at hat
        cases hat
  | some f =>
    obtain ⟨hbytes, hfits⟩ := h.present f hf
    have hfile := Tree.file_eq_ok_iff.mpr ⟨_, hl, hf⟩
    have hread : t.readText (manifestPath directory) = .ok (Manifest.render rows) := by
      unfold Tree.readText Tree.read
      rw [hfile]
      simp only [Except.map, bind, Except.bind, hbytes, fromUTF8?_toUTF8]
    rw [hread]
    simp [Manifest.parse?_render hfits]

/-- What opening a directory comes to when its manifest has the given rows. -/
def openWith (rows : List Row) (directory : Path) (w : Workspace) : Except CacheError Cache × Workspace :=
  match w.makeDirectories directory with
  | (.error fault, w) => (.error (.file fault), w)
  | (.ok (), w) =>
    match w.write (lockPath directory) ByteArray.empty with
    | .error fault => (.error (.file fault), w)
    | .ok w =>
      match w.lock? (lockPath directory) with
      | none => (.error (.busy directory), w)
      | some (holder, w) => (.ok { directory, rows, holder }, w)

theorem openAt_eq_openWith (h : Holds w.files directory rows) :
    openAt directory w = openWith rows directory w := by
  have hopen : openAt directory w = ((openAt directory w).1, (openAt directory w).2) := rfl
  have hopens := opens_openAt hopen
  rw [hopen]
  unfold openWith
  generalize (openAt directory w).1 = result, (openAt directory w).2 = w' at hopen hopens ⊢
  cases hopens with
  | unmade made => rw [made]
  | unwritten made written =>
    rw [made]
    dsimp only
    rw [written]
  | busy made written locked =>
    rw [made]
    dsimp only
    rw [written]
    dsimp only
    rw [locked]
  | @opened w1 w2 w3 holder made written locked =>
    rw [made]
    dsimp only
    rw [written]
    dsimp only
    rw [locked]
    have hopened := opened_of_openAt hopen
    have hhome : w3.files.home = w.files.home := hopened.keeps.grows.home
    have hplace : w3.files.place (lockPath directory) = _ := hopened.lockPlace
    have hholds : Holds w3.files directory rows :=
      h.congr hhome (hopened.keeps.files _ (manifestAt_ne_lockAt _ _))
    rw [hholds.loadRows_eq (locate_manifest (hhome.symm ▸ (Tree.place_eq_ok hplace).1))]
    exact congrArg _ (Workspace.note_nil w3)

end Cache

/-- The plan for given sources. -/
def Plan.ofSources (c : Config) (files : List Path) (w : Workspace) : Except BuildError Plan × Workspace :=
  match (Collection.ofFiles c files).parseAll c w with
  | (.error e, _, w) => (.error (.parse e), w)
  | (.ok (), assets, w) =>
    match Schedule.order assets.graph with
    | .ok order => (.ok { assets, order }, w)
    | .error cycle => (.error (.cycle (cycle.remaining.map fun i => (assets.get i).label)), w)

namespace Build

variable {x : Context} {w : Workspace} {rows : List Row} {o : Outset}

/-- What a build sets out with when the manifest has the given rows, if sources are found in order. -/
def preview? (rows : List Row) (x : Context) (w : Workspace) : Option Outset :=
  match Cache.openWith rows x.config.cache w with
  | (.error _, _) => none
  | (.ok cache, w) =>
    match cache.prune w with
    | (.error _, _, _) => none
    | (.ok gone, cache, w) =>
      if ∀ kind ∈ Kind.all, (found w.files x.config kind).Pairwise fun p q => p.le q = true then
        match Plan.ofSources x.config (Kind.all.flatMap (found w.files x.config)) w with
        | (.error _, _) => none
        | (.ok plan, work) =>
          let catalog := { directory? := x.config.catalog }
          some { gone, session := ⟨work, cache, plan.assets, catalog⟩, order := plan.order }
      else none

theorem outset?_of_preview (h : Cache.Holds w.files x.config.cache rows)
    (hp : preview? rows x w = some o) : outset? x w = some o := by
  unfold preview? at hp
  unfold outset?
  rw [Cache.openAt_eq_openWith h]
  cases ho : Cache.openWith rows x.config.cache w with
  | mk result w1 =>
    rw [ho] at hp
    cases result with
    | error e => cases hp
    | ok cache =>
      dsimp only at hp ⊢
      unfold setOut
      cases hprune : cache.prune w1 with
      | mk result r =>
        obtain ⟨cache', w2⟩ := r
        rw [hprune] at hp
        cases result with
        | error fault => cases hp
        | ok gone =>
          dsimp only at hp ⊢
          split at hp
          · rename_i hsorted
            rw [← sources_of_pairwise hsorted] at hp
            have hplan : Plan.make x.config w2 =
                Plan.ofSources x.config (Discovery.sources w2.files x.config) w2 := rfl
            rw [hplan]
            cases hm : Plan.ofSources x.config (Discovery.sources w2.files x.config) w2 with
            | mk result w3 =>
              rw [hm] at hp
              cases result with
              | error e => cases hp
              | ok plan => exact hp
          · cases hp

/-- The cache that a run starts with is closed at the end as the one that was opened. -/
theorem build_eq_finish (h : outset? x w = some o) : build x w = finish x o.session.cache o := by
  obtain ⟨cache, w1, _, hsets, hbuild⟩ := build_of_outset h
  rw [hbuild]
  unfold finish Cache.close
  rw [hsets.directory, hsets.holder]

/-- What a build comes to when the manifest has the given rows, if it gets to compile. -/
def rehearsal (rows : List Row) (x : Context) (w : Workspace) : Except BuildError BuildReport × Workspace :=
  match preview? rows x w with
  | some o => finish x o.session.cache o
  | none => (.error (.cycle []), w)

theorem build_eq_rehearsal (h : Cache.Holds w.files x.config.cache rows)
    (hp : (preview? rows x w).isSome = true) : build x w = rehearsal rows x w := by
  obtain ⟨o, ho⟩ := Option.isSome_iff_exists.mp hp
  unfold rehearsal
  rw [ho]
  exact build_eq_finish (outset?_of_preview h ho)

theorem directory_compileAll (hx : x.processor.KeepsFiles) (s : Session) (order : List Nat) :
    (compileAll x s order).2.cache.directory = s.cache.directory := by
  refine (compileAll_invariant (P := fun t => t.cache.directory = s.cache.directory) rfl ?_).2
  rintro ⟨t, i⟩ _ ht
  rcases (compiles_compileOne hx t i).cache with hcache | ⟨target, bytes, hw⟩
  · rw [hcache]
    exact ht
  · obtain ⟨f, _, hcache⟩ := hw.record
    rw [hcache]
    exact ht

/-- A build that has recorded something leaves a manifest of its rows. -/
theorem holds_build (hx : x.processor.KeepsFiles) (h : outset? x w = some o)
    (hdirty : (compileAll x o.session o.order).2.cache.dirty = true)
    (hfits : ∀ r ∈ (compileAll x o.session o.order).2.cache.rows, Manifest.Fits r)
    (hok : ∀ fault, (build x w).1 ≠ .error (.cache (.file fault))) :
    Cache.Holds (build x w).2.files x.config.cache (compileAll x o.session o.order).2.cache.rows := by
  obtain ⟨cache, w1, hopened, hsets, hbuild⟩ := build_of_outset h
  have hdirectory : (compileAll x o.session o.order).2.cache.directory = x.config.cache := by
    have hstart : o.session.cache.directory = x.config.cache := hsets.directory.trans hopened.directory_eq
    exact (directory_compileAll hx o.session o.order).trans hstart
  rw [hbuild] at hok ⊢
  cases hc : compileAll x o.session o.order with
  | mk result s =>
    rw [hc] at hdirty hfits hdirectory
    dsimp only at hdirty hfits hdirectory ⊢
    rcases finish_cases cache hc with ⟨fault, hfinish⟩ | ⟨w2, hsave, hfinish⟩
    · exact absurd (congrArg Prod.fst hfinish) (hok fault)
    · rw [hfinish]
      unfold Cache.save at hsave
      rw [hdirty, if_pos rfl] at hsave
      cases hw : s.work.write (Cache.manifestPath s.cache.directory)
          (Manifest.render s.cache.rows).toUTF8 with
      | error fault =>
        rw [hw] at hsave
        cases hsave
      | ok w3 =>
        rw [hw] at hsave
        cases hsave
        obtain ⟨_, hk, hf, _⟩ := Workspace.write_eq_ok hw
        have hclose := cache.keeps_close w2
        rw [hopened.directory_eq] at hclose
        rw [hdirectory] at hf
        have hmanifest := hclose.files _ (Cache.manifestAt_ne_lockAt _ _)
        rw [hk.grows.home, Cache.manifestAt, hf] at hmanifest
        refine ⟨fun hnone => ?_, fun f hsome => ?_⟩
        · rw [hclose.grows.home, hk.grows.home, Cache.manifestAt, hmanifest] at hnone
          cases hnone
        · rw [hclose.grows.home, hk.grows.home, Cache.manifestAt, hmanifest] at hsome
          cases hsome
          exact ⟨rfl, hfits⟩

/-- The rows that saving a cache writes, if it writes any. -/
def writtenRows? (cache : Cache) : Option (List Row) :=
  if cache.dirty = true ∧ ∀ r ∈ cache.rows, r.modified < 2 ^ 64 then some cache.rows else none

/-- The rows that a rehearsal leaves, if it records any. -/
def rehearsedRows? (rows : List Row) (x : Context) (w : Workspace) : Option (List Row) :=
  match preview? rows x w with
  | none => none
  | some o => writtenRows? (compileAll x o.session o.order).2.cache

theorem holds_of_rehearsedRows (hx : x.processor.KeepsFiles) (h : Cache.Holds w.files x.config.cache rows)
    {rows' : List Row} (hr : rehearsedRows? rows x w = some rows')
    (hok : ∀ fault, (build x w).1 ≠ .error (.cache (.file fault))) :
    Cache.Holds (build x w).2.files x.config.cache rows' := by
  unfold rehearsedRows? at hr
  cases hp : preview? rows x w with
  | none =>
    rw [hp] at hr
    cases hr
  | some o =>
    rw [hp] at hr
    dsimp only at hr
    unfold writtenRows? at hr
    split at hr
    · rename_i hrun
      cases hr
      exact holds_build hx (outset?_of_preview h hp) hrun.1 hrun.2 hok
    · cases hr

def rehearsedRows (rows : List Row) (x : Context) (w : Workspace) : List Row :=
  (rehearsedRows? rows x w).getD []

/-- What a build reports of the assets, or how it fails. -/
def told (result : Except BuildError BuildReport) :
    Except BuildError (List (Outcome × Path × Option String × Option Path)) :=
  result.map fun r => r.assets.map fun e => (e.outcome, e.source, e.language, e.target)

section told

variable {rs : List (Outcome × Path × Option String × Option Path)}

theorem exists_of_told {result : Except BuildError BuildReport} (h : told result = .ok rs) :
    ∃ report, result = .ok report ∧
      (report.assets.map fun e => (e.outcome, e.source, e.language, e.target)) = rs := by
  cases result with
  | error e => cases h
  | ok report =>
    cases h
    exact ⟨report, rfl, rfl⟩

theorem build_eq_rehearsal_of_told (h : Cache.Holds w.files x.config.cache rows)
    (ht : told (rehearsal rows x w).1 = .ok rs) : build x w = rehearsal rows x w := by
  refine build_eq_rehearsal h ?_
  cases hp : preview? rows x w with
  | some o => rfl
  | none =>
    unfold rehearsal at ht
    rw [hp] at ht
    cases ht

theorem results?_of_told (h : Cache.Holds w.files x.config.cache rows)
    (ht : told (rehearsal rows x w).1 = .ok rs) : Sample.results? x w = some rs := by
  obtain ⟨report, hreport, hrs⟩ := exists_of_told ht
  unfold Sample.results?
  rw [build_eq_rehearsal_of_told h ht, hreport]
  exact congrArg some hrs

/-- What the next build of a site finds after a rehearsal that has recorded something. -/
theorem holds_rehearsal (hx : x.processor.KeepsFiles) (h : Cache.Holds w.files x.config.cache rows)
    (ht : told (rehearsal rows x w).1 = .ok rs) (hr : (rehearsedRows? rows x w).isSome = true) :
    Cache.Holds (rehearsal rows x w).2.files x.config.cache (rehearsedRows rows x w) := by
  obtain ⟨rows', hrows⟩ := Option.isSome_iff_exists.mp hr
  obtain ⟨report, hreport, _⟩ := exists_of_told ht
  have hbuild := build_eq_rehearsal_of_told h ht
  rw [← hbuild, rehearsedRows, hrows]
  refine holds_of_rehearsedRows hx h hrows fun fault he => ?_
  rw [hbuild, hreport] at he
  cases he

end told

/-- What evaluating a rehearsal comes to, where it records something and sets out as `P` says. -/
structure Rehearsed (rows : List Row) (x : Context) (w : Workspace) (P : Outset → Prop) where
  results : List (Outcome × Path × Option String × Option Path)
  evaluated : told (rehearsal rows x w).1 = .ok results ∧ (rehearsedRows? rows x w).isSome = true ∧
    ∃ o ∈ preview? rows x w, P o

namespace Rehearsed

variable {P : Outset → Prop} (r : Rehearsed rows x w P)

include r

theorem build_eq (h : Cache.Holds w.files x.config.cache rows) : build x w = rehearsal rows x w :=
  build_eq_rehearsal_of_told h r.evaluated.1

theorem results?_eq (h : Cache.Holds w.files x.config.cache rows) :
    Sample.results? x w = some r.results :=
  results?_of_told h r.evaluated.1

theorem exists_outset (h : Cache.Holds w.files x.config.cache rows) : ∃ o, outset? x w = some o ∧ P o := by
  obtain ⟨o, ho, hp⟩ := r.evaluated.2.2
  exact ⟨o, outset?_of_preview h ho, hp⟩

theorem holds (hx : x.processor.KeepsFiles) (h : Cache.Holds w.files x.config.cache rows) :
    Cache.Holds (rehearsal rows x w).2.files x.config.cache (rehearsedRows rows x w) :=
  holds_rehearsal hx h r.evaluated.1 r.evaluated.2.1

end Rehearsed

end Build

namespace Sample

open Build

set_option maxRecDepth 100000 in
def unsteadyRun : Rehearsed [] (context unsteady) page fun o => o.order.length = 1 where
  results := [(.created, ⟨"stylesheets/site.css"⟩, none, some ⟨"public/stylesheets/site-0123456789.css"⟩)]
  evaluated := by decide +kernel

set_option maxRecDepth 100000 in
def unsteadyRerun : Rehearsed (rehearsedRows [] (context unsteady) page) (context unsteady)
    (rehearsal [] (context unsteady) page).2 fun o => o.order.length = 2 where
  results := [(.cached, ⟨"stylesheets/site.css"⟩, none, some ⟨"public/stylesheets/site-0123456789.css"⟩),
    (.created, ⟨"public/../html/page.html"⟩, none, some ⟨"public/html/page.html"⟩)]
  evaluated := by decide +kernel

/-- What two builds in a row come to, where the first one finds no manifest. -/
theorem exists_of_runs {x : Context} {w : Workspace} {P Q : Outset → Prop} (hx : x.processor.KeepsFiles)
    (hempty : w.files.fileAt? (manifestAt w.files.home x.config.cache) = none) (first : Rehearsed [] x w P)
    (second : Rehearsed (rehearsedRows [] x w) x (rehearsal [] x w).2 Q)
    (hok : ∀ r ∈ first.results ++ second.results, r.1 ≠ .failed) :
    ∃ report w' report' w'', build x w = (.ok report, w') ∧ report.hasFailures = false ∧
      (report.assets.map fun e => (e.outcome, e.source, e.language, e.target)) = first.results ∧
      build x w' = (.ok report', w'') ∧ report'.hasFailures = false ∧
      (report'.assets.map fun e => (e.outcome, e.source, e.language, e.target)) = second.results := by
  have hholds := Cache.holds_nil hempty
  have hholds' := first.holds hx hholds
  obtain ⟨report, w', hb, hfirst, hresults⟩ := exists_of_results _ (first.results?_eq hholds)
    fun r hr => hok r (List.mem_append_left _ hr)
  obtain ⟨report', w'', hb', hsecond, hresults'⟩ := exists_of_results _ (second.results?_eq hholds')
    fun r hr => hok r (List.mem_append_right _ hr)
  rw [← first.build_eq hholds, hb] at hb'
  exact ⟨report, w', report', w'', hb, hfirst, hresults, hb', hsecond, hresults'⟩

theorem results_unsteady :
    ∃ report w' report' w'', build (context unsteady) page = (.ok report, w') ∧
      report.hasFailures = false ∧ report.assets.length = 1 ∧
      build (context unsteady) w' = (.ok report', w'') ∧ report'.hasFailures = false ∧
      (report'.assets.map fun e => (e.outcome, e.source, e.language, e.target)) =
        [(.cached, ⟨"stylesheets/site.css"⟩, none, some ⟨"public/stylesheets/site-0123456789.css"⟩),
          (.created, ⟨"public/../html/page.html"⟩, none, some ⟨"public/html/page.html"⟩)] := by
  obtain ⟨report, w', report', w'', hb, hok, hresults, hb', hok', hresults'⟩ :=
    exists_of_runs (suits unsteady).processor (by decide +kernel) unsteadyRun unsteadyRerun (by decide)
  have hlen := congrArg List.length hresults
  rw [List.length_map] at hlen
  exact ⟨report, w', report', w'', hb, hok, hlen, hb', hok', hresults'⟩

/-- A language that leads the target of each page at the top to the source of another page. -/
def detouring : Config := { markup := ⟨⟨"html"⟩, ⟨"public"⟩, ["x/../../html/d/b"]⟩ }

/-- What the layout of a site asks of its roots, of a site whose language has separators. -/
theorem apart_detouring :
    (∀ k k', Apart ((detouring.sectionOf k).source.resolve [])
      ((detouring.sectionOf k').target.resolve [])) ∧
      ∀ k, Apart ((detouring.sectionOf k).source.resolve []) (detouring.cache.resolve []) := by
  constructor
  · intro k k'
    cases k <;> cases k' <;> decide +kernel
  · intro k
    cases k <;> decide +kernel

set_option maxRecDepth 100000 in
theorem evaluated_detouring : told (rehearsal [] (context detouring) lonePage).1 =
      .ok [(.created, ⟨"html/page.html"⟩, some "x/../../html/d/b",
        some ⟨"public/page-x/../../html/d/b.html"⟩)] ∧
    (rehearsedRows? [] (context detouring) lonePage).isSome = true ∧
    ∃ o ∈ preview? [] (context detouring) lonePage, o.order.length = 1 := by
  decide +kernel

def detouringRun : Rehearsed [] (context detouring) lonePage fun o => o.order.length = 1 :=
  ⟨_, evaluated_detouring⟩

set_option maxRecDepth 100000 in
theorem evaluated_detouring_again :
    told (rehearsal (rehearsedRows [] (context detouring) lonePage) (context detouring)
        (rehearsal [] (context detouring) lonePage).2).1 =
      .ok [(.created, ⟨"html/d/b.html"⟩, some "x/../../html/d/b",
          some ⟨"public/d/b-x/../../html/d/b.html"⟩),
        (.cached, ⟨"html/page.html"⟩, some "x/../../html/d/b",
          some ⟨"public/page-x/../../html/d/b.html"⟩)] ∧
    (rehearsedRows? (rehearsedRows [] (context detouring) lonePage) (context detouring)
      (rehearsal [] (context detouring) lonePage).2).isSome = true ∧
    ∃ o ∈ preview? (rehearsedRows [] (context detouring) lonePage) (context detouring)
      (rehearsal [] (context detouring) lonePage).2, o.order.length = 2 := by
  decide +kernel

def detouringRerun : Rehearsed (rehearsedRows [] (context detouring) lonePage) (context detouring)
    (rehearsal [] (context detouring) lonePage).2 fun o => o.order.length = 2 :=
  ⟨_, evaluated_detouring_again⟩

theorem results_detouring :
    ∃ report w' report' w'', build (context detouring) lonePage = (.ok report, w') ∧
      report.hasFailures = false ∧ report.assets.length = 1 ∧
      build (context detouring) w' = (.ok report', w'') ∧ report'.hasFailures = false ∧
      (report'.assets.map fun e => (e.outcome, e.source, e.language, e.target)) =
        [(.created, ⟨"html/d/b.html"⟩, some "x/../../html/d/b",
            some ⟨"public/d/b-x/../../html/d/b.html"⟩),
          (.cached, ⟨"html/page.html"⟩, some "x/../../html/d/b",
            some ⟨"public/page-x/../../html/d/b.html"⟩)] := by
  obtain ⟨report, w', report', w'', hb, hok, hresults, hb', hok', hresults'⟩ :=
    exists_of_runs (suits detouring).processor (by decide +kernel) detouringRun detouringRerun (by decide)
  have hlen := congrArg List.length hresults
  rw [List.length_map] at hlen
  exact ⟨report, w', report', w'', hb, hok, hlen, hb', hok', hresults'⟩

end Sample

end AssetCompiler
