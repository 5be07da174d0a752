import AssetCompiler.Proofs.Build.Owned
import AssetCompiler.Proofs.Build.Preview
import Mathlib.Logic.Relation

/-! # The cascade of a change

When sources change after a complete build, the next one compiles anew what has changed and all
that depends on it, at any distance, and keeps everything else as it is.
-/
namespace AssetCompiler

open AssetCompiler.Tree (Keeps)
open Cache (Settled savedRows Owned keptTime lockAt)

def Cache.onDisk (t : Tree) (directory : Path) : Cache where
  directory := directory
  rows := savedRows t directory

def DependsOn (as : Collection) (i j : Nat) : Prop := j ∈ (as.get i).dependencies

/-- Whether an asset has a row that its source no longer agrees with: the source is younger, or
has another content than the row's checksum is of. -/
def Altered (digest : ByteArray → String) (files : Tree) (c : Cache) (a : Asset) : Prop :=
  ∃ r f, c.find? a.source a.language = some r ∧ files.file a.source = .ok f ∧
    (r.modified < keptTime f.modified ∨ digest f.bytes ≠ r.checksum)

/-- What an asset reaches along dependencies is itself, or what one of its dependencies reaches. -/
theorem exists_dependsOn_iff {as : Collection} {P : Nat → Prop} {i : Nat} :
    (∃ j, Relation.ReflTransGen (DependsOn as) i j ∧ P j) ↔
      P i ∨ ∃ d ∈ (as.get i).dependencies, ∃ j, Relation.ReflTransGen (DependsOn as) d j ∧ P j := by
  constructor
  · rintro ⟨j, hij, hj⟩
    rcases hij.cases_head with rfl | ⟨d, hd, hdj⟩
    · exact Or.inl hj
    · exact Or.inr ⟨d, hd, j, hdj, hj⟩
  · rintro (h | ⟨d, hd, j, hdj, hj⟩)
    · exact ⟨i, .refl, h⟩
    · exact ⟨j, .head hd hdj, hj⟩

/-- Whether an asset is altered or depends, at any distance, on one that is. -/
def Affected (digest : ByteArray → String) (files : Tree) (c : Cache) (as : Collection)
    (i : Nat) : Prop :=
  ∃ j, Relation.ReflTransGen (DependsOn as) i j ∧ Altered digest files c (as.get j)

section affected

variable {digest : ByteArray → String} {files files' : Tree} {c c' : Cache} {as : Collection} {i : Nat}

theorem affected_iff : Affected digest files c as i ↔ Altered digest files c (as.get i) ∨
    ∃ d ∈ (as.get i).dependencies, Affected digest files c as d :=
  exists_dependsOn_iff

end affected

namespace Build

open Session

variable {owner : Owner} {x : Context} {s₀ s s' : Session} {order front back : List Nat} {i : Nat}
  {before reports : List AssetReport} {report : AssetReport}

def AffectedIn (x : Context) (s : Session) (i : Nat) : Prop :=
  Affected x.digest s.work.files s.cache s.assets i

/-- A session right after a complete build, but for changes of sources. -/
structure Resumed (x : Context) (s : Session) (order : List Nat) : Prop where
  force : x.config.force = false
  pruned : s.cache.pruned = []
  rows : ∀ i ∈ order, ∃ r, s.row? i = some r ∧
    (Altered x.digest s.work.files s.cache (s.assets.get i) ∨
      Settled x.digest s.work.files s.cache s.assets (s.assets.get i) r)

/-- What is known in the middle of a run that follows changes of sources. -/
structure Cascading (x : Context) (s₀ : Session) (done : List Nat) (reports : List AssetReport)
    (s : Session) : Prop where
  flags : ∀ j ∈ done, (s.assets.get j).rebuilt = true ↔ AffectedIn x s₀ j
  rows : ∀ j < s₀.assets.length, (j ∈ done → ¬AffectedIn x s₀ j) → s.row? j = s₀.row? j
  targets : ∀ j < s₀.assets.length, (j ∈ done → ¬AffectedIn x s₀ j) → ∀ r f, s₀.row? j = some r →
    s₀.work.files.file r.target = .ok f → s.work.files.file r.target = .ok f
  reports : List.Forall₂ (fun j e => (AffectedIn x s₀ j → e.outcome = .updated) ∧
    (¬AffectedIn x s₀ j → e.outcome = .cached)) done reports

section step

variable (hr : Ready x s₀ order) (he : order = front ++ i :: back)
  (h : Running x s₀ front before s) (hcas : Cascading x s₀ front before s)
include hr he h hcas

theorem not_fresh_of_affected (ha : AffectedIn x s₀ i) {r : Row} (hrow : s.row? i = some r) :
    s.cache.isStale x.digest s.work.files s.assets (s.assets.get i) (some r) ≠ .ok false := by
  intro hfresh
  have hi : i < s₀.assets.length := hr.lt i (by simp [he])
  have hfront := hr.not_mem_front he
  obtain ⟨⟨f, hf, hm, hd⟩, _, hdeps, _⟩ := Cache.isStale_eq_false_iff.mp hfresh
  have hget := h.assets i hfront
  rcases affected_iff.mp ha with ⟨q, g, hq, hg, hor⟩ | ⟨d, hd', haff⟩
  · have hsame := h.rows i hi hfront
    rw [hrow] at hsame
    have hq' : s₀.row? i = some q := hq
    rw [← hsame] at hq'
    have hg' := h.preserves.file_source hr hi hg
    rw [hf] at hg'
    cases hq'
    cases hg'
    exact hor.elim hm fun hne => hne hd
  · have hmem : d ∈ front := hr.dependencies front i back he d hd'
    rw [hget] at hdeps
    have hflag := (hcas.flags d hmem).mpr haff
    rw [hdeps d hd'] at hflag
    cases hflag

theorem fresh_of_not_affected (hres : Resumed x s₀ order) (ha : ¬AffectedIn x s₀ i) :
    ∃ r, s.row? i = some r ∧
      s.cache.isStale x.digest s.work.files s.assets (s.assets.get i) (some r) = .ok false := by
  have hi : i < s₀.assets.length := hr.lt i (by simp [he])
  have hfront := hr.not_mem_front he
  have hget := h.assets i hfront
  have hnot := fun hor => ha (affected_iff.mpr hor)
  obtain ⟨r, hrow, halt | hs⟩ := hres.rows i (by simp [he])
  · exact absurd (Or.inl halt) hnot
  refine ⟨r, (h.rows i hi hfront).trans hrow, ?_⟩
  have hdeps : ∀ d ∈ (s₀.assets.get i).dependencies, d ∈ front ∧ ¬AffectedIn x s₀ d :=
    fun d hd => ⟨hr.dependencies front i back he d hd, fun haff => hnot (Or.inr ⟨d, hd, haff⟩)⟩
  have hstamps : s.cache.stamps s.assets (s.assets.get i) =
      s₀.cache.stamps s₀.assets (s₀.assets.get i) := by
    rw [hget]
    refine Cache.stamps_congr rfl fun d hd => ?_
    obtain ⟨hmem, hd'⟩ := hdeps d hd
    exact hcas.rows d (hr.lt d (by simp [he, hmem])) fun _ => hd'
  obtain ⟨f, hf, hm, hdigest⟩ := hs.source
  obtain ⟨g, hg⟩ := Tree.isFile_iff.mp hs.target
  refine Cache.isStale_eq_false_iff.mpr ⟨⟨f, h.preserves.file_source hr hi hf, hm, hdigest⟩,
    Tree.isFile_iff.mpr ⟨g, hcas.targets i hi (fun hmem => absurd hmem hfront) r g hrow hg⟩, ?_, ?_, ?_⟩
  · intro d hd
    rw [hget] at hd
    obtain ⟨hmem, hd'⟩ := hdeps d hd
    cases hflag : (s.assets.get d).rebuilt with
    | false => rfl
    | true => exact absurd ((hcas.flags d hmem).mp hflag) hd'
  · intro p _
    rw [h.preserves.pruned, hres.pruned]
    rfl
  · rw [hstamps]
    exact hs.stamps

theorem outcome_of_compiles (hres : Resumed x s₀ order) (hc : Compiles x s i (.ok report) s')
    (hok : report.outcome ≠ .failed) :
    (AffectedIn x s₀ i ∧ report.outcome = .updated) ∨
      ¬AffectedIn x s₀ i ∧ report.outcome = .cached ∧ s'.cache = s.cache ∧
        s'.work.files = s.work.files := by
  have hi : i < s₀.assets.length := hr.lt i (by simp [he])
  obtain ⟨r, hrow, _⟩ := hres.rows i (by simp [he])
  have hrow' := (h.rows i hi (hr.not_mem_front he)).trans hrow
  cases hc with
  | cached q lines hfound _ hfresh =>
    exact Or.inr ⟨fun ha => not_fresh_of_affected hr he h hcas ha hfound hfresh, rfl, rfl, rfl⟩
  | written target bytes s' hw =>
    refine Or.inl ⟨by_contra fun ha => ?_, by rw [hrow']; rfl⟩
    obtain ⟨q, hq, hfresh⟩ := fresh_of_not_affected hr he h hcas hres ha
    rcases hw.stale with hforce | hstale
    · rw [hres.force] at hforce
      cases hforce
    · rw [hstale q hq] at hfresh
      cases hfresh
  | failed e s' _ _ => exact absurd rfl hok

/-- One compile more in a run that follows changes of sources. -/
theorem cascading_step (hres : Resumed x s₀ order) (ho : Owned owner s.cache.rows)
    (ho' : Owned owner s'.cache.rows) (hc : Compiles x s i (.ok report) s')
    (hok : report.outcome ≠ .failed) : Cascading x s₀ (front ++ [i]) (before ++ [report]) s' := by
  have hi : i < s₀.assets.length := hr.lt i (by simp [he])
  have hfront := hr.not_mem_front he
  have hlen := h.preserves.length_eq
  have hd := h.preserves.distinct hr
  have houtcome := outcome_of_compiles hr he h hcas hres hc hok
  have hlast : ∀ {j}, j ∈ front ++ [i] → i ≠ j → j ∈ front := by
    intro j hj hne
    rcases List.mem_append.mp hj with hj | hj
    · exact hj
    · exact absurd (List.mem_singleton.mp hj).symm hne
  have hrow : ∀ j < s₀.assets.length, (j ∈ front ++ [i] → ¬AffectedIn x s₀ j) →
      (j ∈ front → ¬AffectedIn x s₀ j) :=
    fun j _ hj hmem => hj (List.mem_append_left _ hmem)
  have hfrontdeps := hr.dependencies front i back he
  -- Flags, rows and targets are those of the step before at every asset but the one compiled,
  -- whose own are decided by whether it is affected.
  have hentry : Entry x s' i report := entry_of_compiles hr hi h.preserves (h.assets i hfront)
    (fun hmem => hfront (hfrontdeps i hmem))
    (fun d hmem => hr.lt d (by simp [he, hfrontdeps d hmem])) hc
  refine ⟨?_, ?_, ?_, List.rel_append hcas.reports (.cons ?_ .nil)⟩
  · intro j hj
    by_cases hij : i = j
    · subst hij
      rw [hentry.rebuilt]
      rcases houtcome with ⟨ha, ho⟩ | ⟨ha, ho, _⟩ <;> simp [ha, ho]
    · rw [hc.get_of_ne hij]
      exact hcas.flags j (hlast hj hij)
  · intro j hjl hj
    rw [← hcas.rows j hjl (hrow j hjl hj)]
    by_cases hij : i = j
    · subst hij
      rcases houtcome with ⟨ha, _⟩ | ⟨_, _, hcache, _⟩
      · exact absurd ha (hj (by simp))
      · exact row?_congr hcache hc.bare i
    · exact hc.row?_of_ne hd (hlen ▸ hi) (hlen ▸ hjl) hij
  · intro j hjl hj r f hr₀ hf₀
    have hf := hcas.targets j hjl (hrow j hjl hj) r f hr₀ hf₀
    by_cases hij : i = j
    · subst hij
      rcases houtcome with ⟨ha, _⟩ | ⟨_, _, _, hfiles⟩
      · exact absurd ha (hj (by simp))
      · rw [hfiles]
        exact hf
    · have hrs : s.row? j = some r := (hcas.rows j hjl (hrow j hjl hj)).trans hr₀
      exact file_target_of_compiles hr hi h.preserves ho' ho hc (fun fault hf => by cases hf)
        (Cache.find?_eq_some hrs).1 (hasKey_of_other hd (hlen ▸ hi) (hlen ▸ hjl) hij hrs) hf
  · rcases houtcome with ⟨ha, ho⟩ | ⟨ha, ho, _⟩
    · exact ⟨fun _ => ho, fun hn => absurd ha hn⟩
    · exact ⟨fun hn => absurd hn ha, fun _ => ho⟩

end step

theorem cascading_compileAll (hr : Ready x s₀ order) (hres : Resumed x s₀ order)
    (hw : WritesOwned owner x s₀ order) (ho : Owned owner s₀.cache.rows)
    (h : compileAll x s₀ order = (.ok reports, s')) (hok : ∀ e ∈ reports, e.outcome ≠ .failed) :
    Running x s₀ order reports s' ∧ Cascading x s₀ order reports s' := by
  suffices hboth : Running x s₀ order reports s' ∧ Owned owner s'.cache.rows ∧
      ((∀ e ∈ reports, e.outcome ≠ .failed) → Cascading x s₀ order reports s') from
    ⟨hboth.1, hboth.2.2 hok⟩
  have hstart : Cascading x s₀ [] [] s₀ :=
    ⟨fun _ hj => (by cases hj), fun _ _ _ => rfl, fun _ _ _ _ _ _ => id, .nil⟩
  refine (run_induction (P := fun done reports t => Running x s₀ done reports t ∧
    Owned owner t.cache.rows ∧ ((∀ e ∈ reports, e.outcome ≠ .failed) → Cascading x s₀ done reports t))
    ⟨⟨.start hr, fun _ _ => rfl, fun _ _ _ => rfl, .nil⟩, ho, fun _ => hstart⟩ ?_).2 _ _ h
  rintro front i back before report t t' he hv ⟨hrun, ht, hcas⟩ hc
  have hcompiles := compiles_compileOne hr.processor t i
  have hown := owned_step hr hw hv hrun.preserves ht
  rw [hc] at hcompiles hown
  refine ⟨running_step hr he (ht.exclusive x.config) hrun hcompiles, hown, fun hall => ?_⟩
  exact cascading_step hr he hrun (hcas fun e hmem => hall e (List.mem_append_left _ hmem)) hres ht
    hown hcompiles (hall report (by simp))

/-- A change of sources that makes and deletes no file. -/
structure Rewrites (c : Config) (w w' : Workspace) : Prop where
  keeps : Keeps (InSources w.files.home c) w.files w'.files
  same : ∀ l, (w'.files.fileAt? l).isSome = (w.files.fileAt? l).isSome

theorem Rewrites.savedRows_eq {c : Config} {w w' : Workspace} (h : Rewrites c w w')
    (hl : Layout w.files.home c) : savedRows w'.files c.cache = savedRows w.files c.cache :=
  Cache.savedRows_of_keeps h.keeps _ fun hin =>
    ChangedAt.not_inSources hl (Or.inr (Or.inr rfl)) hin

theorem Rewrites.disturbs {c : Config} {w w' : Workspace} (h : Rewrites c w w') (hw : Standing c w) :
    Disturbs c w w' where
  home := h.keeps.grows.home
  wellFormed := h.keeps.wellFormed hw.wellFormed
  rows := Or.inl (h.savedRows_eq hw.layout)

theorem Rewrites.refl (c : Config) (w : Workspace) : Rewrites c w w := ⟨.refl _ _, fun _ => rfl⟩

theorem rewrites_put {c : Config} {w : Workspace} {l : Location} {f : File} (g : File)
    (hf : w.files.fileAt? l = some f) (hl : InSources w.files.home c l) :
    Rewrites c w { w with files := w.files.put l (.file g) } := by
  have hget := Tree.fileAt?_eq_some_iff.mp hf
  refine ⟨(Tree.keeps_put_file hget).mono fun m hm => hm ▸ hl, fun m => ?_⟩
  show ((w.files.put l (.file g)).fileAt? m).isSome = (w.files.fileAt? m).isSome
  by_cases hm : m = l
  · rw [hm, Tree.fileAt?_put_file hget, hf]
    rfl
  · rw [Tree.fileAt?_put_of_ne hm]

theorem Rewrites.of_roots {c c' : Config} {w w' : Workspace} (hr : c.roots = c'.roots)
    (h : Rewrites c w w') : Rewrites c' w w' :=
  ⟨h.keeps.mono fun _ => inSources_of_roots hr.symm, h.same⟩

theorem Rewrites.isFile {c : Config} {w w' : Workspace} (h : Rewrites c w w') {p : Path}
    (hp : w.files.isFile p = true) : w'.files.isFile p = true := by
  obtain ⟨f, hf⟩ := Tree.isFile_iff.mp hp
  obtain ⟨l, hl, hfile⟩ := Tree.file_eq_ok_iff.mp hf
  have hsome := h.same l
  rw [hfile, Option.isSome_some] at hsome
  obtain ⟨g, hg⟩ := Option.isSome_iff_exists.mp hsome
  exact Tree.isFile_iff.mpr ⟨g, Tree.file_eq_ok_iff.mpr ⟨l, h.keeps.grows.locate hl, hg⟩⟩

/-- What a build says of an asset and does to it, by what has changed before it. -/
structure Cascaded (digest : ByteArray → String) (c : Config) (w w' : Workspace) (as : Collection)
    (i : Nat) (e : AssetReport) : Prop where
  identity : (e.kind, e.source, e.language) = (as.get i).identity
  updated : e.outcome = .updated ↔ Affected digest w.files (.onDisk w.files c.cache) as i
  kept : ¬Affected digest w.files (.onDisk w.files c.cache) as i → e.outcome = .cached ∧
    ∃ r f, (Cache.onDisk w.files c.cache).find? e.source e.language = some r ∧
      (Cache.onDisk w'.files c.cache).find? e.source e.language = some r ∧
      e.target = some r.target ∧ w.files.file r.target = .ok f ∧ w'.files.file r.target = .ok f

/-- A build that has set out after a complete build and changes of sources. -/
structure SetsOutAfter (x₁ x : Context) (w w₁ w₂ v : Workspace) (o₁ o₂ : Outset) (cache : Cache)
    (report : BuildReport) : Prop where
  standing : Standing x₁.config w₁
  complete : Complete x₁ w o₁ report w₁
  steady : ∀ k, w.files.Steady (x₁.config.sectionOf k).source
  roots : x₁.config.roots = x.config.roots
  edit : Rewrites x₁.config w₁ w₂
  fit : Fit x w₂
  opened : Cache.Opened x.config.cache w₂ cache v
  sets : SetsOut x cache v o₂

namespace SetsOutAfter

variable {x₁ : Context} {w w₁ w₂ w₃ v : Workspace} {o₁ o₂ : Outset} {cache : Cache}
  {report₁ report₂ : BuildReport} {r : Row} {a : Asset} {f : File} {e : AssetReport}

section

variable (h : SetsOutAfter x₁ x w w₁ w₂ v o₁ o₂ cache report₁)
include h

theorem savedRows_eq : savedRows w₂.files x.config.cache = savedRows w₁.files x₁.config.cache := by
  rw [← Config.cache_eq_of_roots h.roots]
  exact h.edit.savedRows_eq h.standing.layout

theorem isFile_source (hr : r ∈ cache.rows) : v.files.isFile r.source = true := by
  rw [h.opened.rows] at hr
  have hsource : InSources w₂.files.home _ _ := h.fit.kept.inSources_source hr
  rw [h.savedRows_eq] at hr
  obtain ⟨f, hf⟩ := Tree.isFile_iff.mp (h.edit.isFile (h.complete.sources r hr))
  refine Tree.isFile_iff.mpr ⟨f, h.opened.keeps.file hf fun hl => ?_⟩
  exact ChangedAt.not_inSources h.fit.layout (Or.inr (Or.inl hl)) hsource

/-- The changes delete no source, so no row is pruned. -/
theorem rows : o₂.session.cache.rows = savedRows w₁.files x₁.config.cache := by
  rw [h.sets.rows, List.filter_eq_self.mpr fun r hr => h.isFile_source hr, h.opened.rows, h.savedRows_eq]

theorem pruned : o₂.session.cache.pruned = [] := by
  have hgone : o₂.gone = [] := by
    rw [h.sets.gone]
    simpa using fun r => h.isFile_source
  exact (h.sets.pruned hgone).trans h.opened.pruned

theorem keeps : Keeps (· = lockAt w₂.files.home x.config.cache) w₂.files o₂.session.work.files := by
  refine h.opened.keeps.trans (h.sets.keeps.mono ?_)
  rintro l ⟨r, hr, hfile, _⟩
  rw [h.isFile_source hr] at hfile
  cases hfile

theorem made₁ : Plan.Made x₁.config w₁.files ⟨o₁.session.assets, o₁.order⟩ :=
  Plan.made_of_make (Prod.ext (h.complete.plan h.steady) rfl)

theorem made₂ : Plan.Made x₁.config o₂.session.work.files ⟨o₂.session.assets, o₂.order⟩ := by
  obtain ⟨u, hu, hplan⟩ := h.sets.planned
  rw [← Plan.make_of_roots h.roots] at hplan
  have hmade := Plan.made_of_make (Prod.ext hplan rfl)
  rwa [hu] at hmade

theorem identities :
    o₂.session.assets.map Asset.identity = o₁.session.assets.map Asset.identity := by
  have hout := h.fit.able.keeps_outset h.opened h.sets
  have hsources : Discovery.sources o₂.session.work.files x₁.config =
      Discovery.sources w₁.files x₁.config := by
    refine Discovery.sources_congr h.standing.wellFormed (hout.wellFormed h.fit.wellFormed)
      (h.edit.keeps.grows.trans hout.grows) (fun k => (h.steady k).of_grows h.complete.grows)
      fun l hin => ?_
    have hin₂ : InSources w₂.files.home x.config l :=
      inSources_of_roots h.roots.symm (h.edit.keeps.grows.home ▸ hin)
    rw [hout.files l, h.edit.same]
    rintro (ht | hl)
    · exact ht.not_inSources h.fit.layout hin₂
    · exact ChangedAt.not_inSources h.fit.layout (Or.inr (Or.inl hl)) hin₂
  rw [h.made₂.identities, h.made₁.identities, hsources]

theorem lt (hi : i < o₂.session.assets.length) : i < o₁.session.assets.length :=
  Collection.length_eq_of_identities h.identities ▸ hi

theorem placed (hi : i < o₂.session.assets.length) :
    (o₁.session.assets.get i).Placed x₁.config :=
  h.made₁.placed h.standing.wellFormed h.standing.layout (Collection.mem_get (h.lt hi))

/-- Every asset has the row that it has on the disk after the complete build. -/
theorem exists_row (hi : i < o₂.session.assets.length) :
    ∃ r, o₂.session.row? i = some r ∧ r.Of x₁.config (o₁.session.assets.get i) ∧
      Settled x₁.digest w₁.files o₂.session.cache o₁.session.assets (o₁.session.assets.get i) r := by
  obtain ⟨r, hsettled⟩ := h.complete.settled (h.made₁.mem_order.mpr (h.lt hi))
  have hs := hsettled o₂.session.cache h.rows
  have hkept : Cache.Kept x₁.config o₂.session.cache.rows := h.rows ▸ h.standing.kept
  refine ⟨r, ?_, hkept.of_find? (h.placed hi) hs.found, hs⟩
  obtain ⟨_, hsource, hlanguage⟩ := Asset.identity_eq_iff.mp
    (Collection.identity_get_congr h.identities i)
  rw [row?, hsource, hlanguage]
  exact hs.found

theorem file_source (ha : a.Placed x₁.config) (hf : w₂.files.file a.source = .ok f) :
    o₂.session.work.files.file a.source = .ok f := by
  have hin : InSources w₂.files.home _ _ := Asset.inSources_source ha
  exact h.keeps.file hf fun hl => ChangedAt.not_inSources h.fit.layout (Or.inr (Or.inl hl))
    (inSources_of_roots h.roots.symm hin)

theorem file_target (hr : r.Of x₁.config a) (hf : w₁.files.file r.target = .ok f) :
    w₂.files.file r.target = .ok f ∧ o₂.session.work.files.file r.target = .ok f := by
  have hf₂ := h.edit.keeps.file hf (hr.targetAt.not_inSources h.standing.layout)
  refine ⟨hf₂, h.keeps.file hf₂ fun hl => ?_⟩
  rw [← Config.cache_eq_of_roots h.roots] at hl
  exact hr.targetAt.ne_lock hl

/-- An asset that is not altered has the content that its row has, so it is read as before and
refers to the same assets; this carries its row over to the new plan. -/
theorem settled (hdigest : x.digest = x₁.digest) (hinj : Function.Injective x.digest)
    (hi : i < o₂.session.assets.length) (hrow : o₂.session.row? i = some r)
    (halt : ¬Altered x.digest o₂.session.work.files o₂.session.cache (o₂.session.assets.get i)) :
    Settled x.digest o₂.session.work.files o₂.session.cache o₂.session.assets
      (o₂.session.assets.get i) r := by
  obtain ⟨r', hrow', hof, hs⟩ := h.exists_row hi
  obtain rfl : r = r' := Option.some.inj (hrow.symm.trans hrow')
  obtain ⟨_, hsource, _⟩ := Asset.identity_eq_iff.mp (Collection.identity_get_congr h.identities i)
  obtain ⟨f₁, hf₁, _, hsum₁⟩ := hs.source
  obtain ⟨f, hf⟩ := Tree.isFile_iff.mp (h.edit.isFile (Tree.isFile_iff.mpr ⟨f₁, hf₁⟩))
  have hf' := h.file_source (h.placed hi) hf
  have hf₂ : o₂.session.work.files.file (o₂.session.assets.get i).source = .ok f := hsource ▸ hf'
  have hunaltered : ¬r.modified < keptTime f.modified ∧ x.digest f.bytes = r.checksum := by
    by_contra hnot
    exact halt ⟨r, f, hrow, hf₂, by tauto⟩
  have hbytes : f.bytes = f₁.bytes := by
    apply hinj
    rw [hunaltered.2, hdigest, hsum₁]
  have hget : o₂.session.assets.get i = o₁.session.assets.get i := by
    refine h.made₁.get_congr h.made₂ h.identities (h.lt hi) fun _ => ?_
    rw [Tree.read_eq_ok_iff.mpr ⟨f, hf', hbytes⟩, Tree.read_eq_ok_iff.mpr ⟨f₁, hf₁, rfl⟩]
  have hstamps : o₂.session.cache.stamps o₂.session.assets (o₂.session.assets.get i) =
      o₂.session.cache.stamps o₁.session.assets (o₁.session.assets.get i) := by
    refine Cache.stamps_congr (congrArg Asset.dependencies hget) fun d _ => ?_
    obtain ⟨_, h1, h2⟩ := Asset.identity_eq_iff.mp (Collection.identity_get_congr h.identities d)
    rw [h1, h2]
  obtain ⟨g, hg⟩ := Tree.isFile_iff.mp hs.target
  have htarget := Tree.isFile_iff.mpr ⟨g, (h.file_target hof hg).2⟩
  exact ⟨hrow, ⟨f, hf₂, hunaltered.1, hunaltered.2⟩, htarget, hstamps ▸ hs.stamps⟩

theorem resumed (hforce : x.config.force = false) (hdigest : x.digest = x₁.digest)
    (hinj : Function.Injective x.digest) : Resumed x o₂.session o₂.order := by
  refine ⟨hforce, h.pruned, fun i hi => ?_⟩
  have hi₂ : i < o₂.session.assets.length := h.made₂.mem_order.mp hi
  obtain ⟨r, hrow, _⟩ := h.exists_row hi₂
  exact ⟨r, hrow, or_iff_not_imp_left.mpr (h.settled hdigest hinj hi₂ hrow)⟩

theorem rows_onDisk : (Cache.onDisk w₂.files x.config.cache).rows = o₂.session.cache.rows :=
  h.savedRows_eq.trans h.rows.symm

/-- On the disk an asset is altered just when it is as the build sets out. -/
theorem affectedIn_iff (i : Nat) : AffectedIn x o₂.session i ↔
    Affected x.digest w₂.files (.onDisk w₂.files x.config.cache) o₂.session.assets i := by
  refine exists_congr fun j => and_congr_right fun _ => ?_
  unfold Altered
  simp only [Cache.find?_of_rows h.rows_onDisk]
  refine exists_congr fun r => exists_congr fun f => and_congr_right fun hfound =>
    and_congr_left fun _ => ?_
  by_cases hj : j < o₂.session.assets.length
  · obtain ⟨_, hsource, _⟩ := Asset.identity_eq_iff.mp (Collection.identity_get_congr h.identities j)
    obtain ⟨r', _, _, hs⟩ := h.exists_row hj
    obtain ⟨f₁, hf₁, _⟩ := hs.source
    obtain ⟨g, hg⟩ := Tree.isFile_iff.mp (h.edit.isFile (Tree.isFile_iff.mpr ⟨f₁, hf₁⟩))
    rw [hsource, hg, h.file_source (h.placed hj) hg]
  · -- Behind the end of the plan both sides speak of an asset without a source.
    have hget : o₂.session.assets.get j = default := by
      simp [Collection.get, List.getElem?_eq_none (Nat.le_of_not_lt hj)]
    have hnone (t : Tree) : t.file (default : Asset).source ≠ .ok f := by
      intro hf
      obtain ⟨l, hl, _⟩ := Tree.file_eq_ok_iff.mp hf
      exact (Tree.locate_eq_ok hl).2 rfl
    rw [hget]
    exact iff_of_false (hnone _) (hnone _)

theorem kept (hcas : Cascading x o₂.session o₂.order reports s) (hsucc : Succeeds x w₂ o₂ report₂ s w₃)
    (hi : i ∈ o₂.order) (ha : ¬AffectedIn x o₂.session i) :
    ∃ r f, o₂.session.row? i = some r ∧ s.row? i = some r ∧ w₂.files.file r.target = .ok f ∧
      w₃.files.file r.target = .ok f := by
  have hi₂ : i < o₂.session.assets.length := h.made₂.mem_order.mp hi
  obtain ⟨r, hrow, hof, hs⟩ := h.exists_row hi₂
  obtain ⟨f, hf⟩ := Tree.isFile_iff.mp hs.target
  obtain ⟨hf₂, hf₀⟩ := h.file_target hof hf
  refine ⟨r, f, hrow, (hcas.rows i hi₂ fun _ => ha).trans hrow, hf₂,
    hsucc.keeps.file (hcas.targets i hi₂ (fun _ => ha) r f hrow hf₀) ?_⟩
  rw [hsucc.home_eq h.fit h.opened h.sets, ← Config.cache_eq_of_roots h.roots]
  exact hof.targetAt.apart

/-- The run of the build reports by what is affected as it sets out; the same is so of the rows and
files on the disk before and after it. -/
theorem cascaded (hrunning : Running x o₂.session o₂.order report₂.assets s)
    (hcas : Cascading x o₂.session o₂.order report₂.assets s) (hsucc : Succeeds x w₂ o₂ report₂ s w₃)
    (hmem : (i, e) ∈ o₂.order.zip report₂.assets) :
    Cascaded x.digest x.config w₂ w₃ o₂.session.assets i e := by
  have hentry := (List.forall₂_iff_zip.mp hrunning.entries).2 hmem
  obtain ⟨hupdated, hcached⟩ := (List.forall₂_iff_zip.mp hcas.reports).2 hmem
  have hidentity : (e.kind, e.source, e.language) = (o₂.session.assets.get i).identity := by
    rw [hentry.report, ← hrunning.preserves.identity_eq i]
    rfl
  refine ⟨hidentity, ?_, fun ha => ?_⟩
  · rw [← h.affectedIn_iff]
    refine ⟨fun ho => by_contra fun ha => ?_, hupdated⟩
    rw [hcached ha] at ho
    cases ho
  · rw [← h.affectedIn_iff] at ha
    obtain ⟨r, f, hrow, hrow', hf, hf'⟩ := h.kept hcas hsucc (List.of_mem_zip hmem).1 ha
    obtain ⟨_, hsource, hlanguage⟩ := Asset.identity_eq_iff.mp (hrunning.preserves.identity_eq i)
    obtain ⟨_, hesource, helanguage⟩ : e.kind = _ ∧ e.source = _ ∧ e.language = _ := by
      simpa only [Asset.identity, Prod.mk.injEq] using hidentity
    have hdisk' : (Cache.onDisk w₃.files x.config.cache).rows = s.cache.rows := hsucc.rows
    refine ⟨hcached ha, r, f, ?_, ?_, ?_, hf, hf'⟩
    · rw [Cache.find?_of_rows h.rows_onDisk, hesource, helanguage]
      exact hrow
    · rw [Cache.find?_of_rows hdisk', hesource, helanguage, ← hsource, ← hlanguage]
      exact hrow'
    · rw [hentry.report]
      show (s.assets.get i).target = some r.target
      rw [hentry.target, hrow']
      rfl

end

end SetsOutAfter

theorem Cascaded.of_cache {digest : ByteArray → String} {c c' : Config} {w w' : Workspace}
    {as : Collection} {e : AssetReport} (hc : c.cache = c'.cache) (h : Cascaded digest c w w' as i e) :
    Cascaded digest c' w w' as i e := by
  obtain ⟨hidentity, hupdated, hkept⟩ := h
  rw [hc] at hupdated hkept
  exact ⟨hidentity, hupdated, hkept⟩

def changedPage (w : Workspace) : Workspace :=
  { w with files := w.files.put ["html", "page.html"] (Sample.source "ho") }

/-- What builds of the lone page report, if they report its target. -/
def pageResult (outcome : Outcome) : List (Outcome × Path × Option String × Option Path) :=
  [(outcome, ⟨"html/page.html"⟩, none, some ⟨"public/html/page.html"⟩)]

theorem writesOwn_of_pageResult {x : Context} {w w' : Workspace} {report : BuildReport} {outcome : Outcome}
    (hfit : Fit x w) (hb : build x w = (.ok report, w'))
    (hresults : (report.assets.map fun e => (e.outcome, e.source, e.language, e.target)) =
      pageResult outcome) : WritesOwn (fun _ => (⟨"html/page.html"⟩, none)) x w := by
  refine writesOwn_of_build hfit hb fun e he target _ => ?_
  have hmem := List.mem_map_of_mem (f := fun e : AssetReport =>
    (e.outcome, e.source, e.language, e.target)) he
  rw [hresults, pageResult, List.mem_singleton] at hmem
  simp only [Prod.mk.injEq] at hmem
  rw [hmem.2.1, hmem.2.2.1]

/-- Whether no planned asset refers to anything, if a build plans. -/
def isPlain (x : Context) (w : Workspace) : Bool :=
  (outset? x w).all fun o => o.session.assets.all (·.occurrences.isEmpty)

set_option maxRecDepth 100000 in
def lonePageRun : Rehearsed [] (Sample.context {}) Sample.lonePage
    fun o => o.session.assets.all (·.occurrences.isEmpty) = true where
  results := pageResult .created
  evaluated := by decide +kernel

set_option maxRecDepth 100000 in
def changedPageRun : Rehearsed (rehearsedRows [] (Sample.context {}) Sample.lonePage) (Sample.context {})
    (changedPage (rehearsal [] (Sample.context {}) Sample.lonePage).2)
    fun o => o.session.assets.all (·.occurrences.isEmpty) = true where
  results := pageResult .updated
  evaluated := by decide +kernel

theorem Rehearsed.isPlain {x : Context} {w : Workspace} {rows : List Row}
    (r : Rehearsed rows x w fun o => o.session.assets.all (·.occurrences.isEmpty) = true)
    (h : Cache.Holds w.files x.config.cache rows) : isPlain x w = true := by
  obtain ⟨o, ho, hall⟩ := r.exists_outset h
  unfold Build.isPlain
  rw [ho]
  exact hall

theorem holds_lonePage : Cache.Holds Sample.lonePage.files ⟨"build"⟩ [] :=
  Cache.holds_nil (by decide +kernel)

theorem holds_changedPage {w : Workspace} {directory : Path} {rows : List Row}
    (h : Cache.Holds w.files directory rows) : Cache.Holds (changedPage w).files directory rows :=
  h.congr rfl (Tree.fileAt?_put_of_ne (Cache.manifestAt_ne _ _ (by decide)))

theorem results_lonePage :
    Sample.results? (Sample.context {}) Sample.lonePage = some (pageResult .created) ∧
      isPlain (Sample.context {}) Sample.lonePage = true :=
  ⟨lonePageRun.results?_eq holds_lonePage, lonePageRun.isPlain holds_lonePage⟩

theorem results_changedPage :
    Sample.results? (Sample.context {}) (changedPage (build (Sample.context {}) Sample.lonePage).2) =
        some (pageResult .updated) ∧
      isPlain (Sample.context {}) (changedPage (build (Sample.context {}) Sample.lonePage).2) = true := by
  rw [lonePageRun.build_eq holds_lonePage]
  have hholds := holds_changedPage (lonePageRun.holds (Sample.suits {}).processor holds_lonePage)
  exact ⟨changedPageRun.results?_eq hholds, changedPageRun.isPlain hholds⟩

theorem file_lonePage : (build (Sample.context {}) Sample.lonePage).2.files.fileAt?
    ["html", "page.html"] = some ⟨"hi".toUTF8, 5, none⟩ := by
  decide +kernel

/-- What is known of the results of a build holds of an entry of its report. -/
theorem exists_outcome_of_results {es : List AssetReport}
    {rs : List (Outcome × Path × Option String × Option Path)}
    (h : (es.map fun e => (e.outcome, e.source, e.language, e.target)) = rs) {outcome : Outcome}
    (ho : outcome ∈ rs.map Prod.fst) : ∃ e ∈ es, e.outcome = outcome := by
  rw [← h, List.map_map] at ho
  exact List.mem_map.mp ho

theorem targets_of_results {es : List AssetReport}
    {rs : List (Outcome × Path × Option String × Option Path)}
    (h : (es.map fun e => (e.outcome, e.source, e.language, e.target)) = rs) :
    es.map AssetReport.target = rs.map fun r => r.2.2.2 := by
  rw [← h, List.map_map]
  rfl

end Build

end AssetCompiler
