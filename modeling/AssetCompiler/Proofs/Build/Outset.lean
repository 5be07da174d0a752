import AssetCompiler.Proofs.Build.Run

/-! # How a build begins and ends

A build that opens its cache, prunes and plans sets out to compile. One that does not get there
keeps the manifest. What it changes lies where targets lie, besides the manifest and the lock.
-/
namespace AssetCompiler

open AssetCompiler.Tree (Keeps)
open Cache (Kept Exclusive savedRows manifestAt lockAt)

namespace Cache

theorem keeps_close (c : Cache) (w : Workspace) :
    Keeps (· = lockAt w.files.home c.directory) w.files (c.close w).files := by
  unfold close
  cases hl : w.files.locate (lockPath c.directory) with
  | ok l =>
    obtain ⟨rfl, _⟩ := Tree.locate_eq_ok hl
    exact (Workspace.unlock_spec hl).1
  | error fault =>
    unfold Workspace.unlock
    split
    · rename_i l f hf
      rw [(Tree.find_eq_ok_iff.mp hf).1] at hl
      cases hl
    · exact .refl _ _

theorem savedRows_of_keeps {t t' : Tree} {changed : Location → Prop} (h : Keeps changed t t')
    (directory : Path) (hm : ¬changed (manifestAt t.home directory)) :
    savedRows t' directory = savedRows t directory := by
  unfold savedRows
  rw [h.grows.home]
  exact rowsAt_congr (h.files _ hm)

end Cache

namespace Build

/-- Where a build may change files. -/
def ChangedAt (home : Location) (c : Config) (l : Location) : Prop :=
  TargetAt home c l ∨ l = lockAt home c.cache ∨ l = manifestAt home c.cache

theorem ChangedAt.not_inSources {home l : Location} {c : Config} (hl : Layout home c)
    (h : ChangedAt home c l) : ¬InSources home c l := by
  rcases h with h | rfl | rfl
  · exact h.not_inSources hl
  · rw [Cache.lockAt_eq]
    exact Asset.not_inSources_cache hl _
  · rw [Cache.manifestAt_eq]
    exact Asset.not_inSources_cache hl _

variable {x : Context} {w w' : Workspace} {cache : Cache} {o : Outset}

/-- What is known of a build that is about to compile. -/
structure SetsOut (x : Context) (cache : Cache) (w : Workspace) (o : Outset) : Prop where
  gone : o.gone = cache.rows.filter fun r => !w.files.isFile r.source
  rows : o.session.cache.rows = cache.rows.filter fun r => w.files.isFile r.source
  directory : o.session.cache.directory = cache.directory
  holder : o.session.cache.holder = cache.holder
  pruned : o.gone = [] → o.session.cache.pruned = cache.pruned
  clean : o.session.cache.dirty = false → cache.dirty = false ∧ o.session.cache.rows = cache.rows
  keeps : Keeps (fun l => ∃ r ∈ cache.rows, w.files.isFile r.source = false ∧
    l = r.target.resolve w.files.home) w.files o.session.work.files
  narrows : o.session.work.files.Grows w.files
  lost : ∀ l, o.session.work.files.fileAt? l = none ∨
    o.session.work.files.fileAt? l = w.files.fileAt? l
  dropped : ∀ r ∈ cache.rows, w.files.isFile r.source = false → ∀ l,
    w.files.locate r.target = .ok l → o.session.work.files.fileAt? l = none
  calls : o.session.work.calls = w.calls
  planned : ∃ w', w'.files = o.session.work.files ∧
    (Plan.make x.config w').1 = .ok ⟨o.session.assets, o.order⟩
  catalog : o.session.catalog = { directory? := x.config.catalog }

theorem SetsOut.made (h : SetsOut x cache w o) :
    Plan.Made x.config o.session.work.files ⟨o.session.assets, o.order⟩ := by
  obtain ⟨w', hfiles, hplan⟩ := h.planned
  rw [← hfiles]
  exact Plan.made_of_make (Prod.ext hplan rfl)

theorem waiting_of_parse {files : Tree} {c : Config} {as : Collection} {a b : Asset}
    {log : List LogLine} (h : Collection.parse files c as (Plan.unread a) = .ok (b, log)) :
    b.target = none ∧ b.rebuilt = false := by
  unfold Collection.parse at h
  split at h
  · cases h
    exact ⟨rfl, rfl⟩
  · split at h
    · cases h
    · split at h <;> cases h <;> exact ⟨rfl, rfl⟩

/-- How setting out goes: a target cannot be deleted, the sources have no plan, or they have one. -/
inductive SettingOut (x : Context) (cache : Cache) (w : Workspace) :
    Except BuildError Outset → Workspace → Prop
  | unpruned {fault : Fault} {cache' : Cache} {w₁ : Workspace}
      (pruned : cache.prune w = (.error fault, cache', w₁)) :
      SettingOut x cache w (.error (.file fault)) w₁
  | unplanned {gone : List Row} {cache' : Cache} {w₁ : Workspace} {lines : List LogLine} {e : BuildError}
      (pruned : cache.prune w = (.ok gone, cache', w₁))
      (planned : Plan.make x.config w₁ = (.error e, w₁.note lines)) :
      SettingOut x cache w (.error e) (w₁.note lines)
  | planned {gone : List Row} {cache' : Cache} {w₁ : Workspace} {lines : List LogLine} {plan : Plan}
      (pruned : cache.prune w = (.ok gone, cache', w₁))
      (planned : Plan.make x.config w₁ = (.ok plan, w₁.note lines)) :
      SettingOut x cache w
        (.ok { gone,
               session := ⟨w₁.note lines, cache', plan.assets, { directory? := x.config.catalog }⟩,
               order := plan.order }) (w₁.note lines)

theorem settingOut_of_setOut {result : Except BuildError Outset}
    (h : setOut x cache w = (result, w')) : SettingOut x cache w result w' := by
  unfold setOut at h
  cases hp : cache.prune w with
  | mk pruned r =>
    obtain ⟨cache', w₁⟩ := r
    rw [hp] at h
    cases pruned with
    | error fault =>
      cases h
      exact .unpruned hp
    | ok gone =>
      obtain ⟨lines, hlog⟩ := Plan.make_log x.config w₁
      dsimp only at h
      cases hm : Plan.make x.config w₁ with
      | mk planned w₂ =>
        rw [hm] at h hlog
        dsimp only at hlog
        subst hlog
        cases planned with
        | error e =>
          cases h
          exact .unplanned hp hm
        | ok plan =>
          cases h
          exact .planned hp hm

/-- Setting out changes files as pruning does. -/
theorem SettingOut.files {result : Except BuildError Outset} (h : SettingOut x cache w result w') :
    w'.files = (cache.prune w).2.2.files := by
  cases h with
  | unpruned pruned => rw [pruned]
  | unplanned pruned _ =>
    rw [pruned]
    rfl
  | planned pruned _ =>
    rw [pruned]
    rfl

theorem setsOut_of_setOut {work : Workspace} (h : setOut x cache w = (.ok o, work)) :
    SetsOut x cache w o := by
  obtain ⟨h1, h2, h3, h4, h5, h6⟩ := cache.prune_spec w
  have hnarrows := cache.grows_of_prune w
  have hlost := cache.lost_of_prune w
  have hdropped {gone : List Row} := @Cache.gone_target_of_prune w cache gone
  cases settingOut_of_setOut h with
  | @planned gone cache1 w1 lines plan hp hm =>
    have hgone := Cache.gone_of_prune (congrArg Prod.fst hp)
    rw [hp] at h1 h2 h3 h4 h5 h6 hnarrows hlost hdropped
    refine ⟨hgone, h1, h2, h3, fun he => ?_, fun hd => ?_, h5, hnarrows, hlost,
      fun r hr hfile l hl => hdropped rfl hr hfile hl, h4, ⟨w1, rfl, congrArg Prod.fst hm⟩, rfl⟩
    · have hall : ∀ r ∈ cache.rows, w.files.isFile r.source = true := by
        have hnil : gone = [] := he
        rw [hnil] at hgone
        simpa using hgone.symm
      rw [Cache.prune_of_isFile hall] at hp
      cases hp
      rfl
    · obtain ⟨hclean, hrows⟩ := h6 hd
      exact ⟨hclean, h1.trans hrows⟩

/-- What a build starts to compile from, if it gets that far. -/
def outset? (x : Context) (w : Workspace) : Option Outset :=
  match Cache.openAt x.config.cache w with
  | (.error _, _) => none
  | (.ok cache, w) =>
    match setOut x cache w with
    | (.error _, _) => none
    | (.ok o, _) => some o

/-- The end of a build: its cache is saved and closed. -/
def finish (x : Context) (cache : Cache) (o : Outset) : Except BuildError BuildReport × Workspace :=
  let (result, s) := compileAll x o.session o.order
  let (result, w) := saved (result.map fun assets => ⟨assets, o.gone.map Row.source⟩) s.cache s.work
  (result, cache.close w)

/-- How a build goes: its cache does not open, it does not set out, or it compiles. -/
inductive Goes (x : Context) (w : Workspace) : Option Outset → Except BuildError BuildReport × Workspace → Prop
  | unopened {e : CacheError} {w₁ : Workspace}
      (opened : Cache.openAt x.config.cache w = (.error e, w₁)) : Goes x w none (.error (.cache e), w₁)
  | halted {cache : Cache} {w₁ w₂ : Workspace} {e : BuildError}
      (opened : Cache.openAt x.config.cache w = (.ok cache, w₁))
      (setOut : setOut x cache w₁ = (.error e, w₂)) : Goes x w none (.error e, cache.close w₂)
  | compiles {cache : Cache} {w₁ w₂ : Workspace} {o : Outset}
      (opened : Cache.openAt x.config.cache w = (.ok cache, w₁))
      (setOut : setOut x cache w₁ = (.ok o, w₂)) : Goes x w (some o) (finish x cache o)

theorem goes_build (x : Context) (w : Workspace) : Goes x w (outset? x w) (build x w) := by
  unfold outset? build withCache
  cases ho : Cache.openAt x.config.cache w with
  | mk opened w₁ =>
    cases opened with
    | error e => exact .unopened ho
    | ok cache =>
      dsimp only
      cases hs : setOut x cache w₁ with
      | mk result w₂ =>
        cases result with
        | error e => exact .halted ho hs
        | ok o => exact .compiles ho hs

theorem exists_openAt_of_outset (h : outset? x w = some o) : ∃ cache w1,
    Cache.openAt x.config.cache w = (.ok cache, w1) ∧ SetsOut x cache w1 o ∧
      build x w = finish x cache o := by
  have hgoes := goes_build x w
  rw [h] at hgoes
  generalize build x w = result at hgoes ⊢
  cases hgoes with
  | compiles opened setOut => exact ⟨_, _, opened, setsOut_of_setOut setOut, rfl⟩

theorem build_of_outset (h : outset? x w = some o) : ∃ cache w1,
    Cache.Opened x.config.cache w cache w1 ∧ SetsOut x cache w1 o ∧ build x w = finish x cache o := by
  obtain ⟨cache, w1, hopen, hsets, hbuild⟩ := exists_openAt_of_outset h
  exact ⟨cache, w1, Cache.opened_of_openAt hopen, hsets, hbuild⟩

/-- A build that does not set out fails, and changes at most the lock and targets of rows whose
source is no file. Those it takes away. -/
theorem build_of_no_outset (h : outset? x w = none) : (∃ e, (build x w).1 = .error e) ∧
    Keeps (fun l => l = lockAt w.files.home x.config.cache ∨
      ∃ r ∈ savedRows w.files x.config.cache, l = r.target.resolve w.files.home)
      w.files (build x w).2.files ∧
    ∀ l, l ≠ lockAt w.files.home x.config.cache →
      (build x w).2.files.fileAt? l = none ∨ (build x w).2.files.fileAt? l = w.files.fileAt? l := by
  have hgoes := goes_build x w
  rw [h] at hgoes
  generalize build x w = result at hgoes ⊢
  cases hgoes with
  | unopened opened =>
    have hopen := (Cache.opens_openAt opened).keeps
    exact ⟨⟨_, rfl⟩, hopen.mono fun _ => .inl, fun l hl => .inr (hopen.files l hl)⟩
  | @halted cache w1 w2 e opened setOut =>
    have hopened := Cache.opened_of_openAt opened
    have hopen := hopened.keeps
    have hfiles := (settingOut_of_setOut setOut).files
    obtain ⟨_, _, _, _, hprune, _⟩ := cache.prune_spec w1
    have hclose := cache.keeps_close w2
    rw [hopened.directory_eq, hfiles, hprune.grows.home, hopen.grows.home] at hclose
    refine ⟨⟨e, rfl⟩, (hopen.mono fun _ => .inl).trans ((hprune.mono ?_).trans
      (hclose.mono fun _ => .inl)), fun l hl => ?_⟩
    · rintro l ⟨r, hr, _, hl⟩
      rw [hopened.rows] at hr
      rw [hopen.grows.home] at hl
      exact .inr ⟨r, hr, hl⟩
    · rw [hclose.files l hl, ← hopen.files l hl]
      exact cache.lost_of_prune w1 l

/-- A build that gets to its report has set out. -/
theorem exists_outset_of_ok {report : BuildReport} (h : (build x w).1 = .ok report) :
    ∃ o, outset? x w = some o := by
  cases ho : outset? x w with
  | some o => exact ⟨o, rfl⟩
  | none =>
    obtain ⟨⟨e, he⟩, _⟩ := build_of_no_outset ho
    rw [h] at he
    cases he

/-! ### The end of a build -/

variable {result : Except BuildError (List AssetReport)} {s : Session}

/-- At its end a build cannot write its manifest, or comes to what its run came to. -/
theorem finish_cases (cache : Cache) (hrun : compileAll x o.session o.order = (result, s)) :
    (∃ fault, finish x cache o = (.error (.cache (.file fault)), cache.close s.work)) ∨
      ∃ w₁, s.cache.save s.work = (.ok (), w₁) ∧ finish x cache o =
        (result.map fun assets => ⟨assets, o.gone.map Row.source⟩, cache.close w₁) := by
  unfold finish saved
  rw [hrun]
  dsimp only
  cases hsave : s.cache.save s.work with
  | mk written w₁ =>
    cases written with
    | error e =>
      obtain ⟨rfl, fault, rfl⟩ := Cache.save_error hsave
      exact .inl ⟨fault, rfl⟩
    | ok _ => exact .inr ⟨w₁, rfl, rfl⟩

/-- A build whose cache is saved comes to what its run comes to. -/
theorem finish_result (hsaved : ∀ fault, (finish x cache o).1 ≠ .error (.cache (.file fault))) :
    (finish x cache o).1 =
      (compileAll x o.session o.order).1.map fun assets => ⟨assets, o.gone.map Row.source⟩ := by
  rcases finish_cases cache (Prod.eta (compileAll x o.session o.order)).symm with
    ⟨fault, hfinish⟩ | ⟨_, _, hfinish⟩
  · exact absurd (congrArg Prod.fst hfinish) (hsaved fault)
  · exact congrArg Prod.fst hfinish

theorem finish_error {e : BuildError} (he : (compileAll x o.session o.order).1 = .error e)
    (hsaved : ∀ fault, (finish x cache o).1 ≠ .error (.cache (.file fault))) :
    (finish x cache o).1 = .error e := by
  rw [finish_result hsaved, he]
  rfl

theorem run_of_finish {report : BuildReport} (h : (finish x cache o).1 = .ok report) :
    ∃ s, compileAll x o.session o.order = (.ok report.assets, s) ∧
      report.pruned = o.gone.map Row.source := by
  have hresult := finish_result (x := x) (o := o) fun fault he => by rw [h] at he; cases he
  rw [h] at hresult
  cases hc : compileAll x o.session o.order with
  | mk result s =>
    rw [hc] at hresult
    cases result with
    | error e => cases hresult
    | ok reports =>
      cases hresult
      exact ⟨s, rfl, rfl⟩

/-- After a run only the manifest and the lock change. -/
theorem keeps_finish (hrun : compileAll x o.session o.order = (result, s))
    (hs : s.cache.directory = x.config.cache) (hc : cache.directory = x.config.cache) :
    Keeps (fun l => l = lockAt s.work.files.home x.config.cache ∨
      l = manifestAt s.work.files.home x.config.cache) s.work.files (finish x cache o).2.files := by
  rcases finish_cases cache hrun with ⟨fault, hfinish⟩ | ⟨w₁, hsave, hfinish⟩
  all_goals rw [hfinish]
  · have hclose := cache.keeps_close s.work
    rw [hc] at hclose
    exact hclose.mono fun _ => .inl
  · obtain ⟨_, hk, _, _⟩ := Cache.save_spec hsave
    have hclose := cache.keeps_close w₁
    rw [hc, hk.grows.home] at hclose
    rw [hs] at hk
    exact (hk.mono fun _ => .inr).trans (hclose.mono fun _ => .inl)

end Build

end AssetCompiler
