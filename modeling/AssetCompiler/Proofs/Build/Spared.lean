import AssetCompiler.Proofs.Build.Recorded
import AssetCompiler.Proofs.Walk

/-! # What a run spares

A run changes the rows and the target files of the assets that it writes, and of no others. What it
adds to the manifest are the rows of those assets, in the order of their compiles. So whatever ends
a run, an asset that was not written by then has its row and its target as before the build.
-/
namespace AssetCompiler

open AssetCompiler.Tree (Keeps)
open Cache (Kept Owned savedRows)

/-- Rows whose targets lead somewhere. -/
def Located (t : Tree) (rows : List Row) : Prop := ∀ r ∈ rows, ∃ l, t.locate r.target = .ok l

theorem Located.of_grows {t t' : Tree} {rows : List Row} (h : Located t rows) (hg : t.Grows t') :
    Located t' rows :=
  fun r hr => (h r hr).imp fun _ => hg.locate

namespace Build

open Session

variable {digest : ByteArray → String} {owner : Owner} {c : Config} {x : Context} {s₀ s s' : Session}
  {order : List Nat} {i j : Nat} {w w1 : Workspace} {cache : Cache} {o : Outset}

section run

/-- Whether every asset that is not written has the row, and the file at the row's target, that it had
in an earlier session. -/
def Spared (s₀ s : Session) : Prop :=
  ∀ j < s₀.assets.length, (s.assets.get j).rebuilt = false → s.row? j = s₀.row? j ∧
    ∀ r, s₀.row? j = some r → s.work.files.fileAt? (r.target.resolve s₀.work.files.home) =
      s₀.work.files.fileAt? (r.target.resolve s₀.work.files.home)

theorem spared_step {result : Except BuildError AssetReport} (hr : Ready x s₀ order)
    (hi : i < s₀.assets.length) (hp : Preserves x s₀ s) (ho : Owned owner s.cache.rows)
    (ho' : Owned owner s'.cache.rows) (hc : Compiles x s i result s')
    (hresult : ∀ fault, result ≠ .error (.file fault)) (h : Spared s₀ s) : Spared s₀ s' := by
  intro j hj hflag
  have hlen := hp.length_eq
  rcases hc.written_or_idle hresult with ⟨target, bytes, hw⟩ | ⟨hkeeps, hcache, hflags⟩
  · have hij : i ≠ j := by
      rintro rfl
      rw [hw.get_self (hlen ▸ hi)] at hflag
      cases hflag
    rw [hc.get_of_ne hij] at hflag
    obtain ⟨hrow, hfile⟩ := h j hj hflag
    refine ⟨(hc.row?_of_ne (hp.distinct hr) (hlen ▸ hi) (hlen ▸ hj) hij).trans hrow, fun r hr₀ => ?_⟩
    rw [← hfile r hr₀, ← hp.keeps.grows.home]
    have hrowj := hrow.trans hr₀
    exact hw.keeps.files _ (not_touched_of_other hr hi hp ho' ho hw (Cache.find?_eq_some hrowj).1
      (hasKey_of_other (hp.distinct hr) (hlen ▸ hi) (hlen ▸ hj) hij hrowj))
  · rw [hflags] at hflag
    obtain ⟨hrow, hfile⟩ := h j hj hflag
    refine ⟨(row?_congr hcache hc.bare j).trans hrow, fun r hr₀ => ?_⟩
    rw [hkeeps.files _ id]
    exact hfile r hr₀

theorem spared_run (hr : Ready x s₀ order) (hw : WritesOwned owner x s₀ order)
    (ho : Owned owner s₀.cache.rows)
    (hresult : ∀ fault, (compileAll x s₀ order).1 ≠ .error (.file fault)) :
    (∀ v ∈ visits x s₀ order, Spared s₀ v.1) ∧ Spared s₀ (compileAll x s₀ order).2 := by
  suffices hboth : (∀ v ∈ visits x s₀ order,
        Preserves x s₀ v.1 ∧ Owned owner v.1.cache.rows ∧ Spared s₀ v.1) ∧
      Preserves x s₀ (compileAll x s₀ order).2 ∧ Owned owner (compileAll x s₀ order).2.cache.rows ∧
        Spared s₀ (compileAll x s₀ order).2 from
    ⟨fun v hv => (hboth.1 v hv).2.2, hboth.2.2.2⟩
  refine compileAll_invariant (P := fun t => Preserves x s₀ t ∧ Owned owner t.cache.rows ∧ Spared s₀ t)
    ⟨.start hr, ho, fun _ _ _ => ⟨rfl, fun _ _ => rfl⟩⟩ ?_
  rintro ⟨t, i⟩ hv ⟨hp, ht, hspared⟩
  have hi := hr.lt i (mem_order_of_mem_visits hv)
  have hc := compiles_compileOne hr.processor t i
  have ht' := owned_step hr hw hv hp ht
  exact ⟨preserves_step hr hi hp hc, ht', spared_step hr hi hp ht ht' hc
    (fun fault he => hresult fault (compileAll_error hv he)) hspared⟩

theorem located_run (hr : Ready x s₀ order) (h : Located s₀.work.files s₀.cache.rows) :
    Located (compileAll x s₀ order).2.work.files (compileAll x s₀ order).2.cache.rows := by
  refine (compileAll_invariant (P := fun t => Preserves x s₀ t ∧ Located t.work.files t.cache.rows)
    ⟨.start hr, h⟩ ?_).2.2
  rintro ⟨t, i⟩ hv ⟨hp, hl⟩
  have hi := hr.lt i (mem_order_of_mem_visits hv)
  have hc := compiles_compileOne hr.processor t i
  have hl' := hl.of_grows (hc.keeps hr.flat hp.kept (hp.placed hr hi)).grows
  refine ⟨preserves_step hr hi hp hc, ?_⟩
  rcases hc.cache with hcache | ⟨target, bytes, hw⟩
  · rw [hcache]
    exact hl'
  · obtain ⟨f, _, hcache⟩ := hw.record
    rw [hcache]
    intro r hrow
    rcases Cache.mem_put hrow with rfl | hrow
    · obtain ⟨g, hg, _⟩ := hw.file
      obtain ⟨l, hlocate, _⟩ := Tree.file_eq_ok_iff.mp hg
      exact ⟨l, hlocate⟩
    · exact hl' r hrow

/-- The rows of those among the given assets that are written. -/
def writtenRows (s : Session) (done : List Nat) : List Row :=
  done.filterMap fun i => if (s.assets.get i).rebuilt then s.row? i else none

/-- What a run has come to after some of its assets: the rows that it started from, with those of the
written assets put in place one after the other. -/
structure Ran (x : Context) (s₀ : Session) (done : List Nat) (reports : List AssetReport)
    (s : Session) : Prop where
  run : compileAll x s₀ done = (.ok reports, s)
  running : Running x s₀ done reports s
  cache : s.cache = (writtenRows s done).foldl Cache.put s₀.cache

theorem cache_step {front back : List Nat} {before : List AssetReport} {report : AssetReport}
    (hr : Ready x s₀ order) (he : order = front ++ i :: back) (h : Running x s₀ front before s)
    (hcache : s.cache = (writtenRows s front).foldl Cache.put s₀.cache)
    (hc : Compiles x s i (.ok report) s') :
    s'.cache = (writtenRows s' (front ++ [i])).foldl Cache.put s₀.cache := by
  have hp := h.preserves
  have hlen := hp.length_eq
  have hfront := hr.not_mem_front he
  have hi : i < s₀.assets.length := hr.lt i (by simp [he])
  -- The compile changes neither the flags nor the rows of those before it.
  have hsame : writtenRows s' front = writtenRows s front := by
    refine List.filterMap_congr fun j hj => ?_
    have hij : i ≠ j := fun heq => hfront (heq ▸ hj)
    have hj : j < s₀.assets.length := hr.lt j (by simp [he, hj])
    rw [hc.get_of_ne hij, hc.row?_of_ne (hp.distinct hr) (hlen ▸ hi) (hlen ▸ hj) hij]
  unfold writtenRows at hsame hcache ⊢
  rw [List.filterMap_append, List.foldl_append, hsame, ← hcache]
  rcases hc.written_or_idle (fun fault he => by cases he) with
    ⟨target, bytes, hw⟩ | ⟨_, hsame', hflags⟩
  · obtain ⟨f, hf, hput⟩ := hw.record
    obtain ⟨g, hg, hrow⟩ := row?_of_written hw (hlen ▸ hi)
    obtain rfl : f = g := Except.ok.inj (hf.symm.trans hg)
    have hflag : (s'.assets.get i).rebuilt = true := by
      rw [hw.get_self (hlen ▸ hi)]
    simp only [List.filterMap_cons, List.filterMap_nil, hflag, if_true, hrow]
    exact hput
  · have hflag : (s'.assets.get i).rebuilt = false := by
      rw [hflags, h.assets i hfront]
      exact (hr.waiting i).2
    simp only [List.filterMap_cons, List.filterMap_nil, hflag, Bool.false_eq_true, if_false]
    exact hsame'

theorem Ran.start (hr : Ready x s₀ order) : Ran x s₀ [] [] s₀ :=
  ⟨rfl, ⟨.start hr, fun _ _ => rfl, fun _ _ _ => rfl, .nil⟩, rfl⟩

theorem ran_step {front back : List Nat} {before : List AssetReport} {report : AssetReport}
    (hr : Ready x s₀ order) (he : order = front ++ i :: back) (ho : Owned owner s.cache.rows)
    (h : Ran x s₀ front before s) (hc : compileOne x s i = (.ok report, s')) :
    Ran x s₀ (front ++ [i]) (before ++ [report]) s' := by
  have hcompiles := compiles_compileOne hr.processor s i
  rw [hc] at hcompiles
  exact ⟨compileAll_concat h.run hc, running_step hr he (ho.exclusive x.config) h.running hcompiles,
    cache_step hr he h.running h.cache hcompiles⟩

end run

section disk

variable (h : Fit x w) (hopened : Cache.Opened x.config.cache w cache w1) (hs : SetsOut x cache w1 o)
  (ho : Owned owner (savedRows w.files x.config.cache))

include h hopened hs

/-- The sources of planned assets are files. -/
theorem exists_file_source (hi : i < o.session.assets.length) :
    ∃ f, o.session.work.files.file (o.session.assets.get i).source = .ok f := by
  have hid : (o.session.assets.get i).identity ∈ o.session.assets.map Asset.identity :=
    List.mem_map_of_mem (Collection.mem_get hi)
  rw [hs.made.identities] at hid
  obtain ⟨b, hb, he⟩ := List.mem_map.mp hid
  obtain ⟨q, hq, k, l, _, _, rfl⟩ := Collection.exists_of_mem_ofFiles hb
  obtain ⟨_, _, f, _, hf⟩ := Discovery.exists_listed_of_mem_sources
    ((h.able.keeps_outset hopened hs).wellFormed h.wellFormed) hq
  exact ⟨f, (Asset.identity_eq_iff.mp he).2.1 ▸ hf⟩

/-- Pruning drops no row of a planned asset. -/
theorem row?_outset (hi : i < o.session.assets.length) :
    o.session.row? i = (Cache.onDisk w.files x.config.cache).find?
      (o.session.assets.get i).source (o.session.assets.get i).language := by
  have hplaced := (ready_of_setsOut h hopened hs).placed i hi
  cases hfound : (Cache.onDisk w.files x.config.cache).find? (o.session.assets.get i).source
      (o.session.assets.get i).language with
  | some r =>
    obtain ⟨hmem, hkey⟩ := Cache.find?_eq_some hfound
    refine Cache.find?_of_mem (h.able.kept_outset hopened hs).keyed ?_ hkey
    rw [hs.rows, hopened.rows]
    refine List.mem_filter.mpr ⟨hmem, ?_⟩
    obtain ⟨f, hf⟩ := exists_file_source h hopened hs hi
    obtain ⟨l, hl, hat⟩ := Tree.file_eq_ok_iff.mp hf
    rw [(h.kept.of_find? hplaced hfound).source]
    refine Tree.isFile_iff.mpr ⟨f, Tree.file_eq_ok_iff.mpr ⟨l, hs.narrows.locate hl, ?_⟩⟩
    rcases hs.lost l with hlost | hsame
    · rw [hlost] at hat
      cases hat
    · exact hsame.symm.trans hat
  | none =>
    refine Cache.find?_eq_none_iff.mpr fun r hr => Cache.find?_eq_none_iff.mp hfound r ?_
    rw [hs.rows, hopened.rows] at hr
    exact List.mem_of_mem_filter hr

theorem located_outset (hl : Located w.files (savedRows w.files x.config.cache)) :
    Located o.session.work.files o.session.cache.rows := by
  intro r hr
  rw [hs.rows, hopened.rows] at hr
  exact hl.of_grows (h.able.keeps_outset hopened hs).grows r (List.mem_of_mem_filter hr)

include ho

/-- Neither opening the cache nor pruning changes the target of a row that stays. -/
theorem fileAt?_outset {r : Row} (hr : r ∈ o.session.cache.rows) :
    o.session.work.files.fileAt? (r.target.resolve w.files.home) =
      w.files.fileAt? (r.target.resolve w.files.home) := by
  rw [hs.keeps.files, hopened.keeps.files]
  · exact ((h.able.kept_outset hopened hs).targetAt hr).ne_lock
  · rintro ⟨q, hq, hgone, hl⟩
    rw [hopened.keeps.grows.home] at hl
    exact resolve_ne_of_pruned h hopened hs ho hr hq hgone _ hl

/-- An asset whose row on the disk, and the file at the row's target, are as before. -/
structure Retained (directory : Path) (t t' : Tree) (a : Asset) : Prop where
  row : (Cache.onDisk t' directory).find? a.source a.language =
    (Cache.onDisk t directory).find? a.source a.language
  target : ∀ r, (Cache.onDisk t directory).find? a.source a.language = some r →
    t'.fileAt? (r.target.resolve t'.home) = t.fileAt? (r.target.resolve t.home)

theorem retained_of_spared (hspared : Spared o.session (compileAll x o.session o.order).2)
    (hsaved : savedRows (finish x cache o).2.files x.config.cache =
      (compileAll x o.session o.order).2.cache.rows) (hj : j < o.session.assets.length)
    (hflag : ((compileAll x o.session o.order).2.assets.get j).rebuilt = false) :
    Retained x.config.cache w.files (finish x cache o).2.files (o.session.assets.get j) := by
  have hpres := h.able.preserves_outset hopened hs
  have houtset := (h.able.keeps_outset hopened hs).grows.home
  have hfinish := (h.able.finish_spec hopened hs).1
  have hhome : (compileAll x o.session o.order).2.work.files.home = w.files.home :=
    hpres.keeps.grows.home.trans houtset
  obtain ⟨hrow, hfile⟩ := hspared j hj hflag
  have hstart := row?_outset h hopened hs hj
  refine ⟨?_, fun r hr => ?_⟩
  · rw [← hstart, ← hrow]
    obtain ⟨_, hsource, hlanguage⟩ := Asset.identity_eq_iff.mp (hpres.identity_eq j)
    unfold row?
    rw [hsource, hlanguage]
    unfold Cache.find?
    rw [← hsaved]
    rfl
  · rw [← hstart] at hr
    have hmem := (Cache.find?_eq_some hr).1
    have hrun := hfile r hr
    rw [houtset, fileAt?_outset h hopened hs ho hmem] at hrun
    rw [← hrun, hfinish.grows.home, hhome]
    exact hfinish.files _ ((h.able.kept_outset hopened hs).targetAt hmem).apart

end disk

theorem located_build (h : Fit x w) (hl : Located w.files (savedRows w.files x.config.cache)) :
    Located (build x w).2.files (savedRows (build x w).2.files x.config.cache) := by
  rcases h.able.savedRows_build with hrows | ⟨o, ho, hrows⟩
  · rw [hrows]
    exact hl.of_grows (h.able.keeps_build).grows
  · obtain ⟨cache, w1, hopened, hs, hbuild⟩ := build_of_outset ho
    rw [hrows, hbuild]
    exact (located_run (ready_of_setsOut h hopened hs) (located_outset h hopened hs hl)).of_grows
      (h.able.finish_spec hopened hs).1.grows

/-- An edit of anything but the rows, which it keeps or loses all together. It leaves the ways to
targets as they are. -/
structure Meddles (c : Config) (w w' : Workspace) : Prop extends Disturbs c w w' where
  ways : ∀ p, c.HasTarget p → ∀ l, w.files.locate p = .ok l → w'.files.locate p = .ok l

theorem Reached.standing_of_meddles (h : Reached c (Meddles c) (Regular digest owner c) w) : Standing c w :=
  h.standing (fun _ _ he => he.toDisturbs) fun _ _ hx => hx.suits

/-- Where edits leave the ways to targets as they are, every row can be followed to its target. -/
theorem Reached.located (h : Reached c (Meddles c) (Regular digest owner c) w) :
    Located w.files (savedRows w.files c.cache) := by
  induction h with
  | start w _ _ rows =>
    rw [rows]
    exact fun r hr => (by cases hr)
  | edit w w' before edited ih =>
    rcases edited.rows with hrows | hrows <;> rw [hrows]
    · intro r hr
      obtain ⟨l, hl⟩ := ih r hr
      obtain ⟨a, ha⟩ := (before.standing_of_meddles.kept.formed r hr).of
      exact ⟨l, edited.ways r.target ha.hasTarget l hl⟩
    · exact fun r hr => (by cases hr)
  | build x w before run ih =>
    rw [Config.cache_eq_of_roots run.suits.roots] at ih ⊢
    exact located_build (before.standing_of_meddles.fit run.suits) ih

end Build

end AssetCompiler
