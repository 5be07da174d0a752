import AssetCompiler.Proofs.Build.Plan
import AssetCompiler.Proofs.Build.Visits
import AssetCompiler.Proofs.Cache.Formed

/-! # What a run leaves

A run changes files only where targets lie, and keeps the rows in the form that builds record.
In a run that gets to its end, every asset that did not fail is settled: its row describes its
source, its target is there, and its stamps are those of its dependencies' rows. No later
compile of the run changes that.
-/
namespace AssetCompiler

open AssetCompiler.Tree (Keeps)
open Cache (Kept Exclusive Settled)

/-- Fingerprints without separators. -/
def Context.FlatFingerprints (x : Context) : Prop := ∀ draw bytes, '/' ∉ (x.fingerprint draw bytes).toList

namespace Session

variable {x : Context} {s : Session} {i : Nat}

theorem IsTarget.flat (hf : x.FlatFingerprints) {a : Asset} {target : Path} (h : IsTarget x a target) :
    ∃ fp?, target = a.targetPath x.config fp? ∧ fp?.isSome = a.isFingerprinted ∧
      Asset.FlatFingerprint fp? := by
  obtain ⟨fp?, htarget, hsome, hdraw⟩ := h
  refine ⟨fp?, htarget, hsome, fun fp he => ?_⟩
  obtain ⟨draw, bytes, rfl⟩ := hdraw fp he
  exact hf draw bytes

theorem Touched.targetAt (hf : x.FlatFingerprints) (hk : Kept x.config s.cache.rows)
    (hp : (s.assets.get i).Placed x.config) {target : Path}
    (ht : IsTarget x (s.assets.get i) target) {l : Location}
    (h : Touched s.work.files (s.row? i) target l) : TargetAt s.work.files.home x.config l := by
  rcases h with rfl | ⟨r, hr, _, rfl⟩
  · obtain ⟨fp?, rfl, _, hflat⟩ := ht.flat hf
    exact ⟨_, fp?, hp, hflat, rfl⟩
  · exact (hk.of_find? hp hr).targetAt

end Session

namespace Build

open Session

/-- A session whose assets can be compiled in an order. -/
structure Ready (x : Context) (s : Session) (order : List Nat) : Prop where
  processor : x.processor.KeepsFiles
  flat : x.FlatFingerprints
  layout : Layout s.work.files.home x.config
  placed : ∀ i < s.assets.length, (s.assets.get i).Placed x.config
  distinct : s.assets.Distinct
  waiting : ∀ i, (s.assets.get i).target = none ∧ (s.assets.get i).rebuilt = false
  kept : Kept x.config s.cache.rows
  nodup : order.Nodup
  lt : ∀ i ∈ order, i < s.assets.length
  dependencies : ∀ front i back, order = front ++ i :: back →
    ∀ d ∈ (s.assets.get i).dependencies, d ∈ front

theorem Ready.not_mem_front {x : Context} {s : Session} {order front back : List Nat} {i : Nat}
    (hr : Ready x s order) (he : order = front ++ i :: back) : i ∉ front := by
  have hnodup := hr.nodup
  rw [he] at hnodup
  exact fun hf => (List.nodup_append.mp hnodup).2.2 i hf i List.mem_cons_self rfl

/-- What a run preserves, whatever its compiles come to. -/
structure Preserves (x : Context) (s₀ s : Session) : Prop where
  bare : s.assets.bare = s₀.assets.bare
  keeps : Keeps (TargetAt s₀.work.files.home x.config) s₀.work.files s.work.files
  kept : Kept x.config s.cache.rows
  directory : s.cache.directory = s₀.cache.directory
  holder : s.cache.holder = s₀.cache.holder
  pruned : s.cache.pruned = s₀.cache.pruned
  clean : s.cache.dirty = false → s.cache = s₀.cache

namespace Preserves

variable {x : Context} {s₀ s s' : Session} {order : List Nat} {i : Nat}

theorem start (hr : Ready x s₀ order) : Preserves x s₀ s₀ :=
  ⟨rfl, .refl _ _, hr.kept, rfl, rfl, rfl, fun _ => rfl⟩

theorem length_eq (h : Preserves x s₀ s) : s.assets.length = s₀.assets.length :=
  Collection.length_congr h.bare

theorem identity_eq (h : Preserves x s₀ s) (i : Nat) :
    (s.assets.get i).identity = (s₀.assets.get i).identity :=
  Asset.identity_eq_of_bare (Collection.bare_get_congr h.bare i)

theorem dependencies_eq (h : Preserves x s₀ s) (i : Nat) :
    (s.assets.get i).dependencies = (s₀.assets.get i).dependencies := by
  have hd := congrArg Asset.dependencies (Collection.bare_get_congr h.bare i)
  exact hd

theorem placed (h : Preserves x s₀ s) (hr : Ready x s₀ order) (hi : i < s₀.assets.length) :
    (s.assets.get i).Placed x.config :=
  Asset.placed_congr (h.identity_eq i).symm (hr.placed i hi)

theorem distinct (h : Preserves x s₀ s) (hr : Ready x s₀ order) : s.assets.Distinct :=
  Collection.distinct_congr (Collection.identities_of_bare h.bare).symm hr.distinct

theorem file_source (h : Preserves x s₀ s) (hr : Ready x s₀ order) (hi : i < s₀.assets.length)
    {f : File} (hf : s₀.work.files.file (s₀.assets.get i).source = .ok f) :
    s.work.files.file (s.assets.get i).source = .ok f := by
  have hs : (s.assets.get i).source = (s₀.assets.get i).source :=
    (Asset.identity_eq_iff.mp (h.identity_eq i)).2.1
  rw [hs]
  refine h.keeps.file hf fun ht => ?_
  exact ht.not_inSources hr.layout (Asset.inSources_source (hr.placed i hi))

end Preserves

theorem bare_setTarget (s : Session) (i : Nat) (target : Option Path) :
    (s.setTarget i target).assets.bare = s.assets.bare :=
  Collection.bare_update fun _ => rfl

theorem formed_rowFor {x : Context} {s : Session} {i : Nat} {target : Path} (hf : x.FlatFingerprints)
    (hp : (s.assets.get i).Placed x.config) (ht : IsTarget x (s.assets.get i) target) (f : File)
    (bytes : ByteArray) :
    (s.cache.rowFor x.digest f s.assets (s.assets.get i) target bytes).Of x.config (s.assets.get i) ∧
      Cache.Formed x.config (s.cache.rowFor x.digest f s.assets (s.assets.get i) target bytes) := by
  obtain ⟨fp?, htarget, hsome, hflat⟩ := ht.flat hf
  have hof : (s.cache.rowFor x.digest f s.assets (s.assets.get i) target bytes).Of x.config
      (s.assets.get i) := ⟨hp, rfl, rfl, fp?, hflat, hsome, htarget⟩
  exact ⟨hof, ⟨_, hof⟩, Cache.keptTime_lt _⟩

section compiles

variable {x : Context} {s₀ s s' : Session} {order : List Nat} {i j : Nat}
  {result : Except BuildError AssetReport}

theorem Compiles.bare (hc : Compiles x s i result s') : s'.assets.bare = s.assets.bare := by
  cases hc with
  | cached r lines _ _ _ => exact bare_setTarget _ _ _
  | written target bytes s' w =>
    rw [w.assets]
    exact Collection.bare_update fun _ => rfl
  | failed e s' _ f => exact (bare_setTarget _ _ _).trans (congrArg Collection.bare f.assets)
  | aborted e s' _ f => exact congrArg Collection.bare f.assets
  | stopped fault s' f => exact congrArg Collection.bare f.assets

theorem Compiles.keeps (hc : Compiles x s i result s') (hf : x.FlatFingerprints)
    (hk : Kept x.config s.cache.rows) (hp : (s.assets.get i).Placed x.config) :
    Keeps (TargetAt s.work.files.home x.config) s.work.files s'.work.files := by
  cases hc with
  | cached r lines _ _ _ => exact .refl _ _
  | written target bytes s' w => exact w.keeps.mono fun _ hl => hl.targetAt hf hk hp w.isTarget
  | failed e s' _ f => exact f.keeps.mono fun _ hl => hl.elim
  | aborted e s' _ f => exact f.keeps.mono fun _ hl => hl.elim
  | stopped fault s' f =>
    refine f.keeps.mono ?_
    rintro l ⟨target, ht, hl⟩
    exact hl.targetAt hf hk hp ht

theorem Compiles.cache (hc : Compiles x s i result s') : s'.cache = s.cache ∨
    ∃ target bytes, Written x s i target bytes s' := by
  cases hc with
  | cached r lines _ _ _ => exact Or.inl rfl
  | written target bytes s' w => exact Or.inr ⟨target, bytes, w⟩
  | failed e s' _ f => exact Or.inl f.cache
  | aborted e s' _ f => exact Or.inl f.cache
  | stopped fault s' f => exact Or.inl f.cache

theorem rebuilt_setTarget (s : Session) (i : Nat) (target : Option Path) (j : Nat) :
    ((s.setTarget i target).assets.get j).rebuilt = (s.assets.get j).rebuilt := by
  unfold setTarget Collection.get Collection.update
  dsimp only
  rw [List.getD_eq_getElem?_getD, List.getD_eq_getElem?_getD, List.getElem?_modify]
  cases s.assets[j]? with
  | none => rfl
  | some a =>
    dsimp only [Option.map_eq_map, Option.map_some, Option.getD_some]
    split <;> rfl

/-- A compile that no file operation stops writes its asset, or changes no file, row or flag. -/
theorem Compiles.written_or_idle (hc : Compiles x s i result s')
    (hresult : ∀ fault, result ≠ .error (.file fault)) :
    (∃ target bytes, Written x s i target bytes s') ∨
      Keeps (fun _ => False) s.work.files s'.work.files ∧ s'.cache = s.cache ∧
        ∀ j, (s'.assets.get j).rebuilt = (s.assets.get j).rebuilt := by
  cases hc with
  | cached r lines _ _ _ =>
    exact Or.inr ⟨.refl _ _, rfl, rebuilt_setTarget (s.note lines) i (some r.target)⟩
  | written target bytes s' w => exact Or.inl ⟨target, bytes, w⟩
  | failed e s' _ f =>
    exact Or.inr ⟨f.keeps, f.cache, fun j => (rebuilt_setTarget _ _ _ j).trans (by rw [← f.assets]; rfl)⟩
  | aborted e s' _ f => exact Or.inr ⟨f.keeps, f.cache, fun j => by rw [f.assets]⟩
  | stopped fault s' _ => exact absurd rfl (hresult fault)

/-- One compile more, of an asset that lies among the sources of its kind. -/
theorem Preserves.next (h : Preserves x s₀ s) (hf : x.FlatFingerprints)
    (hp : (s.assets.get i).Placed x.config) (hc : Compiles x s i result s') : Preserves x s₀ s' := by
  have hbare := hc.bare.trans h.bare
  have hkeeps := hc.keeps hf h.kept hp
  rw [h.keeps.grows.home] at hkeeps
  rcases hc.cache with hcache | ⟨target, bytes, w⟩
  · exact ⟨hbare, h.keeps.trans hkeeps, hcache ▸ h.kept, hcache ▸ h.directory, hcache ▸ h.holder,
      hcache ▸ h.pruned, hcache ▸ h.clean⟩
  · obtain ⟨f, _, hcache⟩ := w.record
    refine ⟨hbare, h.keeps.trans hkeeps, ?_, ?_, ?_, ?_, ?_⟩ <;> rw [hcache]
    · exact h.kept.put (formed_rowFor hf hp w.isTarget f bytes).2
    · exact h.directory
    · exact h.holder
    · exact h.pruned
    · intro hd
      cases hd

theorem preserves_step (hr : Ready x s₀ order) (hi : i < s₀.assets.length) (h : Preserves x s₀ s)
    (hc : Compiles x s i result s') : Preserves x s₀ s' :=
  h.next hr.flat (h.placed hr hi) hc

/-- A compile keeps every file among the sources. -/
theorem file_of_compiles (hr : Ready x s₀ order) (hi : i < s₀.assets.length) (h : Preserves x s₀ s)
    (hc : Compiles x s i result s') {p : Path} {f : File}
    (hp : InSources s₀.work.files.home x.config (p.resolve s₀.work.files.home))
    (hf : s.work.files.file p = .ok f) : s'.work.files.file p = .ok f := by
  refine (hc.keeps hr.flat h.kept (h.placed hr hi)).file hf fun ht => ?_
  rw [h.keeps.grows.home] at ht
  exact ht.not_inSources hr.layout hp

end compiles

/-- Whatever a run comes to, it preserves this before each compile and at its end. -/
theorem preserves_run_of_placed {x : Context} {s : Session} {order : List Nat}
    (hp : x.processor.KeepsFiles) (hf : x.FlatFingerprints) (hk : Kept x.config s.cache.rows)
    (hplaced : ∀ i ∈ order, (s.assets.get i).Placed x.config) :
    (∀ v ∈ visits x s order, Preserves x s v.1) ∧ Preserves x s (compileAll x s order).2 :=
  compileAll_invariant ⟨rfl, .refl _ _, hk, rfl, rfl, rfl, fun _ => rfl⟩ fun v hv h =>
    h.next hf (Asset.placed_congr (h.identity_eq _).symm (hplaced _ (mem_order_of_mem_visits hv)))
      (compiles_compileOne hp v.1 v.2)

theorem preserves_run {x : Context} {s : Session} {order : List Nat} (hr : Ready x s order) :
    (∀ v ∈ visits x s order, Preserves x s v.1) ∧ Preserves x s (compileAll x s order).2 :=
  preserves_run_of_placed hr.processor hr.flat hr.kept fun i hi => hr.placed i (hr.lt i hi)

section step

variable {x : Context} {s₀ s s' : Session} {order : List Nat} {i j : Nat}
  {result : Except BuildError AssetReport} {report : AssetReport}

theorem get_setTarget_of_ne (h : i ≠ j) (s : Session) (target : Option Path) :
    (s.setTarget i target).assets.get j = s.assets.get j :=
  Collection.get_update_of_ne h _

theorem Compiles.get_of_ne (hc : Compiles x s i result s') (h : i ≠ j) :
    s'.assets.get j = s.assets.get j := by
  cases hc with
  | cached r lines _ _ _ => exact get_setTarget_of_ne h _ _
  | written target bytes s' w =>
    rw [w.assets]
    exact Collection.get_update_of_ne h _
  | failed e s' _ f => exact (get_setTarget_of_ne h _ _).trans (congrArg (Collection.get · j) f.assets)
  | aborted e s' _ f => exact congrArg (Collection.get · j) f.assets
  | stopped fault s' f => exact congrArg (Collection.get · j) f.assets

/-- Rows are found by what compiling does not change of the assets. -/
theorem row?_congr (hcache : s'.cache = s.cache) (hbare : s'.assets.bare = s.assets.bare) (i : Nat) :
    s'.row? i = s.row? i := by
  obtain ⟨_, hsource, hlanguage⟩ := Asset.identity_eq_iff.mp
    (Asset.identity_eq_of_bare (Collection.bare_get_congr hbare i))
  unfold row?
  rw [hcache, hsource, hlanguage]

theorem row?_of_written {target : Path} {bytes : ByteArray} (w : Written x s i target bytes s')
    (hi : i < s.assets.length) : ∃ f, s'.work.files.file (s.assets.get i).source = .ok f ∧
      s'.row? i = some (s.cache.rowFor x.digest f s.assets (s.assets.get i) target bytes) := by
  obtain ⟨f, hf, hcache⟩ := w.record
  refine ⟨f, hf, ?_⟩
  rw [row?, w.get_self hi, hcache, Cache.find?_put, if_pos]
  exact Row.hasKey_iff.mpr ⟨Path.beq_refl _, rfl⟩

theorem Compiles.row?_of_ne (hc : Compiles x s i result s') (hd : s.assets.Distinct)
    (hi : i < s.assets.length) (hj : j < s.assets.length) (h : i ≠ j) : s'.row? j = s.row? j := by
  have hget := hc.get_of_ne h
  cases hc with
  | cached r lines _ _ _ =>
    unfold row?
    rw [hget]
    rfl
  | written target bytes s' w =>
    obtain ⟨f, _, hcache⟩ := w.record
    unfold row?
    rw [hget, hcache, Cache.find?_put, if_neg]
    intro hkey
    obtain ⟨h1, h2⟩ := Row.hasKey_iff.mp hkey
    exact h (hd.eq_of_hasIdentity hi hj (Asset.hasIdentity_iff.mpr ⟨h1, h2⟩) (Asset.hasIdentity_self _))
  | failed e s' _ f =>
    unfold row?
    rw [hget]
    exact congrArg (Cache.find? · _ _) f.cache
  | aborted e s' _ f =>
    unfold row?
    rw [hget, f.cache]
  | stopped fault s' f =>
    unfold row?
    rw [hget, f.cache]

/-- The row of an asset has no other asset's key. -/
theorem hasKey_of_other (hd : s.assets.Distinct) (hi : i < s.assets.length) (hj : j < s.assets.length)
    (hij : i ≠ j) {r : Row} (hr : s.row? j = some r) :
    r.hasKey (s.assets.get i).source (s.assets.get i).language = false := by
  cases hkey : r.hasKey (s.assets.get i).source (s.assets.get i).language with
  | false => rfl
  | true =>
    obtain ⟨hs, hl⟩ := Row.hasKey_iff.mp hkey
    obtain ⟨hs', hl'⟩ := Row.hasKey_iff.mp (Cache.find?_eq_some hr).2
    have hid : (s.assets.get i).hasIdentity (s.assets.get j).source (s.assets.get j).language = true :=
      Asset.hasIdentity_iff.mpr ⟨Path.beq_trans (Path.beq_symm hs) hs', hl.symm.trans hl'⟩
    exact absurd (hd.eq_of_hasIdentity hi hj hid (Asset.hasIdentity_self _)) hij

/-- The rows of two assets have different keys. -/
theorem hasKey_eq_false_of_ne (hd : s.assets.Distinct) (hi : i < s.assets.length)
    (hj : j < s.assets.length) (hij : i ≠ j) {r q : Row} (hq : s.row? i = some q)
    (hr : s.row? j = some r) : r.hasKey q.source q.language = false := by
  cases hk : r.hasKey q.source q.language with
  | false => rfl
  | true =>
    have hother := hasKey_of_other hd hi hj hij hr
    rw [Row.hasKey_trans hk (Cache.find?_eq_some hq).2] at hother
    cases hother

theorem isFile_target_of_written (hr : Ready x s₀ order) (h : Preserves x s₀ s)
    (hexcl : Exclusive x.config s.cache.rows) (hi : i < s₀.assets.length)
    (hj : j < s₀.assets.length) (hij : i ≠ j) {target : Path} {bytes : ByteArray}
    (w : Written x s i target bytes s') {r : Row} (hrow : s.row? j = some r)
    (hf : s.work.files.isFile r.target = true) : s'.work.files.isFile r.target = true := by
  obtain ⟨f, hf⟩ := Tree.isFile_iff.mp hf
  by_cases hsame : r.target.resolve s.work.files.home = target.resolve s.work.files.home
  · obtain ⟨l, hl, hfl⟩ := Tree.file_eq_ok_iff.mp hf
    obtain ⟨g, hg, _⟩ := w.file
    obtain ⟨m, hm, hgm⟩ := Tree.file_eq_ok_iff.mp hg
    obtain ⟨rfl, _⟩ := Tree.locate_eq_ok hl
    obtain ⟨rfl, _⟩ := Tree.locate_eq_ok hm
    rw [w.keeps.grows.home, ← hsame] at hgm
    exact Tree.isFile_iff.mpr ⟨g, Tree.file_eq_ok_iff.mpr ⟨_, w.keeps.grows.locate hl, hgm⟩⟩
  · refine Tree.isFile_iff.mpr ⟨f, w.keeps.file hf ?_⟩
    rintro (hl | ⟨q, hq, hne, hl⟩)
    · exact hsame hl
    · have hpi := h.placed hr hi
      have hqmem := (Cache.find?_eq_some hq).1
      have hrmem := (Cache.find?_eq_some hrow).1
      obtain ⟨fp?, htarget, hsome, _⟩ := w.isTarget.flat hr.flat
      have hkey := hasKey_eq_false_of_ne (h.distinct hr) (h.length_eq.symm ▸ hi) (h.length_eq.symm ▸ hj)
        hij hq hrow
      exact hexcl.resolve_ne h.kept hqmem hrmem (h.kept.of_find? hpi hq) ⟨fp?, htarget, hsome⟩ hne
        hkey hl.symm

/-- What is known of a compiled asset and its report. -/
structure Entry (x : Context) (s : Session) (i : Nat) (e : AssetReport) : Prop where
  report : e = assetReport (s.assets.get i) e.outcome e.error
  target : (s.assets.get i).target = (s.row? i).map Row.target
  rebuilt : (s.assets.get i).rebuilt = true ↔ e.outcome = .created ∨ e.outcome = .updated
  settled : e.outcome ≠ .failed → e.error = none ∧
    ∃ r, Settled x.digest s.work.files s.cache s.assets (s.assets.get i) r

/-- What is known in the middle of a run. -/
structure Running (x : Context) (s₀ : Session) (done : List Nat) (reports : List AssetReport)
    (s : Session) : Prop where
  preserves : Preserves x s₀ s
  assets : ∀ i, i ∉ done → s.assets.get i = s₀.assets.get i
  rows : ∀ i < s₀.assets.length, i ∉ done → s.row? i = s₀.row? i
  entries : List.Forall₂ (Entry x s) done reports

theorem Running.exists_entry {done : List Nat} {reports : List AssetReport}
    (h : Running x s₀ done reports s) (hi : i ∈ done) : ∃ e ∈ reports, Entry x s i e := by
  obtain ⟨n, hn, rfl⟩ := List.getElem_of_mem hi
  have hn' : n < reports.length := h.entries.length_eq ▸ hn
  exact ⟨reports[n], List.getElem_mem hn', (List.forall₂_iff_get.mp h.entries).2 n hn hn'⟩

/-- An asset that is settled stays so when another one is compiled that it does not depend on. -/
theorem settled_of_compiles (hr : Ready x s₀ order) (h : Preserves x s₀ s)
    (hexcl : Exclusive x.config s.cache.rows) (hi : i < s₀.assets.length)
    (hj : j < s₀.assets.length) (hij : i ≠ j) (hdeps : ∀ d ∈ (s₀.assets.get j).dependencies, d ≠ i)
    (hlt : ∀ d ∈ (s₀.assets.get j).dependencies, d < s₀.assets.length)
    (hc : Compiles x s i (.ok report) s') {r : Row}
    (hs : Settled x.digest s.work.files s.cache s.assets (s.assets.get j) r) :
    Settled x.digest s'.work.files s'.cache s'.assets (s'.assets.get j) r := by
  have hlen := h.length_eq
  have h' := preserves_step hr hi h hc
  have hget := hc.get_of_ne hij
  have hrow := hc.row?_of_ne (h.distinct hr) (hlen ▸ hi) (hlen ▸ hj) hij
  have hstamps : s'.cache.stamps s'.assets (s'.assets.get j) =
      s.cache.stamps s.assets (s.assets.get j) := by
    rw [hget]
    refine Cache.stamps_congr rfl fun d hd => ?_
    rw [h.dependencies_eq] at hd
    exact hc.row?_of_ne (h.distinct hr) (hlen ▸ hi) (hlen ▸ hlt d hd) (hdeps d hd).symm
  refine ⟨hrow.trans hs.found, ?_, ?_, hstamps ▸ hs.stamps⟩
  · obtain ⟨f, hf, hm, hd⟩ := hs.source
    refine ⟨f, ?_, hm, hd⟩
    rw [hget]
    exact file_of_compiles hr hi h hc (Asset.inSources_source (h.placed hr hj)) hf
  · rcases hc.written_or_idle (fun _ hf => by cases hf) with ⟨target, bytes, w⟩ | ⟨hidle, _⟩
    · exact isFile_target_of_written hr h hexcl hi hj hij w hs.found hs.target
    · obtain ⟨g, hg⟩ := Tree.isFile_iff.mp hs.target
      exact Tree.isFile_iff.mpr ⟨g, hidle.file hg id⟩

theorem entry_of_other (hr : Ready x s₀ order) (h : Preserves x s₀ s)
    (hexcl : Exclusive x.config s.cache.rows) (hi : i < s₀.assets.length)
    (hj : j < s₀.assets.length) (hij : i ≠ j) (hdeps : ∀ d ∈ (s₀.assets.get j).dependencies, d ≠ i)
    (hlt : ∀ d ∈ (s₀.assets.get j).dependencies, d < s₀.assets.length)
    (hc : Compiles x s i (.ok report) s') {e : AssetReport} (he : Entry x s j e) :
    Entry x s' j e := by
  have hlen := h.length_eq
  have hget := hc.get_of_ne hij
  have hrow := hc.row?_of_ne (h.distinct hr) (hlen ▸ hi) (hlen ▸ hj) hij
  refine ⟨?_, ?_, ?_, fun hne => ?_⟩
  · rw [hget]
    exact he.report
  · rw [hget, hrow]
    exact he.target
  · rw [hget]
    exact he.rebuilt
  · obtain ⟨herror, r, hs⟩ := he.settled hne
    exact ⟨herror, r, settled_of_compiles hr h hexcl hi hj hij hdeps hlt hc hs⟩

/-- What compiling does not change of the assets does not unsettle them. -/
theorem settled_of_bare {digest : ByteArray → String} {files : Tree} {c : Cache}
    {as as' : Collection} {r : Row} (h : as'.bare = as.bare)
    (hs : Settled digest files c as (as.get i) r) : Settled digest files c as' (as'.get i) r := by
  have hbare := Collection.bare_get_congr h
  obtain ⟨_, hsource, hlanguage⟩ := Asset.identity_eq_iff.mp (Asset.identity_eq_of_bare (hbare i))
  have hdeps : (as'.get i).dependencies = (as.get i).dependencies := by
    have hd := congrArg Asset.dependencies (hbare i)
    exact hd
  have hstamps : c.stamps as' (as'.get i) = c.stamps as (as.get i) := by
    refine Cache.stamps_congr hdeps fun d _ => ?_
    obtain ⟨_, h1, h2⟩ := Asset.identity_eq_iff.mp (Asset.identity_eq_of_bare (hbare d))
    rw [h1, h2]
  refine ⟨?_, hsource ▸ hs.source, hs.target, hstamps ▸ hs.stamps⟩
  rw [hsource, hlanguage]
  exact hs.found

theorem entry_of_written {target : Path} {bytes : ByteArray} (hd : s.assets.Distinct)
    (hi : i < s.assets.length) (hself : i ∉ (s.assets.get i).dependencies)
    (hlt : ∀ d ∈ (s.assets.get i).dependencies, d < s.assets.length) (w : Written x s i target bytes s') :
    Entry x s' i (assetReport (s'.assets.get i) (if (s.row? i).isSome then .updated else .created) none) := by
  obtain ⟨f, hf, hrow⟩ := row?_of_written w hi
  have hget := w.get_self hi
  have hstamps : s'.cache.stamps s'.assets (s'.assets.get i) =
      s.cache.stamps s.assets (s.assets.get i) := by
    refine Cache.stamps_congr (by rw [hget]) fun d hdep => ?_
    have hne : i ≠ d := fun he => hself (he ▸ hdep)
    exact (Compiles.written target bytes s' w).row?_of_ne hd hi (hlt d hdep) hne
  obtain ⟨g, hg, _⟩ := w.file
  refine ⟨rfl, by rw [hrow, hget]; rfl, ?_, fun _ => ⟨rfl, _, hrow, ?_, Tree.isFile_iff.mpr ⟨g, hg⟩, ?_⟩⟩
  · rw [hget]
    cases s.row? i <;> simp [assetReport]
  · rw [hget]
    exact Cache.describes_rowFor hf
  · rw [hstamps]
    exact Stamp.sameAll_refl _

theorem row?_noteFailure (s : Session) (i : Nat) (e : ProcessorError) :
    (noteFailure s i e).row? i = s.row? i := by
  have hcache : (noteFailure s i e).cache = s.cache := rfl
  exact row?_congr hcache (bare_setTarget s i _) i

/-- The asset that was compiled just now is settled, unless it failed. -/
theorem entry_of_compiles (hr : Ready x s₀ order) (hi : i < s₀.assets.length)
    (h : Preserves x s₀ s) (hwaiting : s.assets.get i = s₀.assets.get i)
    (hself : i ∉ (s₀.assets.get i).dependencies)
    (hlt : ∀ d ∈ (s₀.assets.get i).dependencies, d < s₀.assets.length)
    (hc : Compiles x s i (.ok report) s') : Entry x s' i report := by
  have hi' : i < s.assets.length := by rw [h.length_eq]; exact hi
  cases hc with
  | cached r lines hfound hforce hfresh =>
    have hget : ((s.note lines).setTarget i (some r.target)).assets.get i =
        { s.assets.get i with target := some r.target } := Collection.get_update_self hi' _
    have hrow : ((s.note lines).setTarget i (some r.target)).row? i = some r := by
      unfold row?
      rw [hget]
      exact hfound
    obtain ⟨hsource, htarget, _, _, hstamps⟩ := Cache.isStale_eq_false_iff.mp hfresh
    refine ⟨rfl, by rw [hrow, hget]; rfl, ?_, fun _ => ⟨rfl, r, ?_⟩⟩
    · rw [hget, hwaiting]
      simp [assetReport, (hr.waiting i).2]
    · exact settled_of_bare (bare_setTarget s i (some r.target)) ⟨hfound, hsource, htarget, hstamps⟩
  | written target bytes s' w =>
    rw [← hwaiting] at hself hlt
    exact entry_of_written (h.distinct hr) hi' hself (fun d hd => h.length_eq.symm ▸ hlt d hd) w
  | failed e s' _ f =>
    have hget : (noteFailure s' i e).assets.get i =
        { s'.assets.get i with target := (s'.row? i).map Row.target } :=
      Collection.get_update_self (f.assets ▸ hi') _
    refine ⟨rfl, by rw [row?_noteFailure, hget], ?_, fun hne => absurd rfl hne⟩
    rw [hget, f.assets, hwaiting]
    simp [assetReport, (hr.waiting i).2]

/-- One compile more in a run that goes on. -/
theorem running_step (hr : Ready x s₀ order) {front back : List Nat} {before : List AssetReport}
    (he : order = front ++ i :: back) (hexcl : Exclusive x.config s.cache.rows)
    (h : Running x s₀ front before s) (hc : Compiles x s i (.ok report) s') :
    Running x s₀ (front ++ [i]) (before ++ [report]) s' := by
  have hi : i < s₀.assets.length := hr.lt i (by simp [he])
  have hlen := h.preserves.length_eq
  have hfront := hr.not_mem_front he
  -- What was compiled before depends on nothing behind it, so it stays settled.
  have hdone {j : Nat} (hj : j ∈ front) : ∀ d ∈ (s₀.assets.get j).dependencies, d ∈ front := by
    obtain ⟨a, b, rfl⟩ := List.append_of_mem hj
    intro d hd
    have hd' := hr.dependencies a j (b ++ i :: back) (by rw [he]; simp) d hd
    exact List.mem_append_left _ hd'
  have hdeps : ∀ d ∈ (s₀.assets.get i).dependencies, d ∈ front := hr.dependencies front i back he
  have hlt {d : Nat} (hd : d ∈ front) : d < s₀.assets.length := hr.lt d (by simp [he, hd])
  refine ⟨preserves_step hr hi h.preserves hc, ?_, ?_, ?_⟩
  · intro j hj
    rw [List.mem_append, List.mem_singleton, not_or] at hj
    rw [hc.get_of_ne (Ne.symm hj.2), h.assets j hj.1]
  · intro j hjl hj
    rw [List.mem_append, List.mem_singleton, not_or] at hj
    rw [hc.row?_of_ne (h.preserves.distinct hr) (hlen ▸ hi) (hlen ▸ hjl) (Ne.symm hj.2),
      h.rows j hjl hj.1]
  · refine List.rel_append ?_ (.cons ?_ .nil)
    · have hentries := (List.forall₂_and_left (p := (· ∈ front)) _ _).mpr ⟨fun _ hj => hj, h.entries⟩
      refine hentries.imp ?_
      rintro j e ⟨hj, entry⟩
      exact entry_of_other hr h.preserves hexcl hi (hlt hj) (fun he => hfront (he ▸ hj))
        (fun d hd he => hfront (he ▸ hdone hj d hd)) (fun d hd => hlt (hdone hj d hd)) hc entry
    · exact entry_of_compiles hr hi h.preserves (h.assets i hfront) (fun hd => hfront (hdeps i hd))
        (fun d hd => hlt (hdeps d hd)) hc

/-- What is known before each compile of a run, and at the end of one that gets there. The targets
that compiles replace have to be exclusive all the time. -/
theorem running_run (hr : Ready x s₀ order)
    (hexcl : ∀ v ∈ visits x s₀ order, Exclusive x.config v.1.cache.rows) :
    (∀ v ∈ visits x s₀ order, ∃ front back reports, order = front ++ v.2 :: back ∧
        Running x s₀ front reports v.1) ∧
      ∀ reports s', compileAll x s₀ order = (.ok reports, s') → Running x s₀ order reports s' := by
  refine run_induction ⟨.start hr, fun _ _ => rfl, fun _ _ _ => rfl, .nil⟩ ?_
  intro front i back before report t t' he hv hp hc
  have hcompiles := compiles_compileOne hr.processor t i
  rw [hc] at hcompiles
  exact running_step hr he (hexcl (t, i) hv) hp hcompiles

end step

end Build

end AssetCompiler
