import AssetCompiler.Proofs.Build.Faithful

/-! # Histories that keep outputs right

A run keeps rows and files sound, whether it gets to its end or a processor ends it, and so does a
build that fails before it compiles. Edits of sources do not touch outputs. So the rows and files
of a site are sound in every state of its history.
-/
namespace AssetCompiler

open AssetCompiler.Tree (Keeps)
open Cache (Kept Exclusive Owned savedRows manifestAt lockAt)
open Collection (parse)
open Plan (unread)

namespace Build

open Session

variable {tables : String → MessageTable} {owner : Owner} {out : Step → ByteArray → ByteArray}
  {x₀ x : Context} {s s' s₀ : Session} {i d : Nat} {files : Tree} {order done : List Nat}
  {w w' w1 : Workspace} {cache : Cache} {o : Outset}

/-- The planned assets of a session. -/
structure Planned (x : Context) (files : Tree) (as : Collection) (s : Session) : Prop where
  placed : ∀ a ∈ as, a.Placed x.config
  bare : s.assets.bare = as
  sources : ∀ i < as.length, ∀ f, files.file (as.get i).source = .ok f →
    s.work.files.file (as.get i).source = .ok f

theorem Planned.of_keeps {changed : Location → Prop} {as : Collection} (h : Planned x files as s)
    (hassets : s'.assets = s.assets) (hk : Keeps changed s.work.files s'.work.files)
    (hc : ∀ l, changed l → ¬InSources s.work.files.home x.config l) : Planned x files as s' where
  placed := h.placed
  bare := hassets ▸ h.bare
  sources i hi f hf := by
    refine hk.file (h.sources i hi f hf) fun ht => ?_
    exact hc _ ht (Asset.inSources_source (h.placed _ (Collection.mem_get hi)))

/-- A session is coherent at an asset whose dependencies have the targets of their rows. -/
theorem coherent_of_made {p : Plan} (hmade : Plan.Made x.config files p)
    (hplanned : Planned x files p.assets s) (hi : i < p.assets.length)
    (htargets : ∀ d ∈ (s.assets.get i).dependencies, (s.assets.get d).target = (s.row? d).map Row.target)
    (hkept : Kept x.config s.cache.rows) (hx : x₀.Continues x)
    (hsound : Sound out tables owner x₀ s.work.files s.cache.rows)
    (htables : ∀ language,
      (Catalog.readTable s.work.files x.config.catalog language).1 = tables language)
    (hcatalog : s.catalog.Holds tables x.config.catalog) : Coherent tables owner x s i := by
  have hget (j : Nat) : (s.assets.get j).bare = p.assets.get j := by
    rw [← hplanned.bare, Collection.get_bare]
  have hid (j : Nat) : (s.assets.get j).identity = (p.assets.get j).identity := by
    rw [← hget]
    rfl
  have hids : p.assets.map Asset.identity = s.assets.map Asset.identity := by
    rw [← hplanned.bare, Collection.bare, List.map_map]
    rfl
  have hlen : p.assets.length = s.assets.length := Collection.length_eq_of_identities hids
  refine ⟨Collection.distinct_congr hids hmade.distinct, fun j hj => ?_, fun j hj => ?_, ?_, htargets,
    hkept, hsound.owned, ?_, htables, hcatalog⟩
  · exact Asset.placed_congr (hid j).symm (hplanned.placed _ (Collection.mem_get (hlen ▸ hj)))
  · obtain ⟨hkind, _, hlanguage⟩ := Asset.identity_eq_iff.mp (hid j)
    rw [hkind, hlanguage]
    exact hmade.language_mem_variants (Collection.mem_get (hlen ▸ hj))
  · obtain ⟨log, hparse⟩ := hmade.read _ (Collection.mem_get hi)
    refine ⟨log, ?_⟩
    rw [hget, unread_congr (hid i), ← Collection.parse_congr hids, ← hparse]
    refine Collection.parse_congr_files fun hkind => ?_
    obtain ⟨bytes, hread⟩ := (Collection.parse_eq_ok hparse).1 hkind
    obtain ⟨f, hf, hbytes⟩ := Tree.read_eq_ok_iff.mp hread
    rw [hread]
    exact Tree.read_eq_ok_iff.mpr ⟨f, hplanned.sources i hi f hf, hbytes⟩
  · rw [hx.digest]
    exact hsound.stored

theorem Compiles.holds {result : Except BuildError AssetReport} (hc : Compiles x s i result s')
    (hresult : ∀ fault, result ≠ .error (.file fault))
    (htables : ∀ language,
      (Catalog.readTable s.work.files x.config.catalog language).1 = tables language)
    (h : s.catalog.Holds tables x.config.catalog) : s'.catalog.Holds tables x.config.catalog := by
  have hnext := Produce.Scene.holds_content (s := s.scene x i) s.catalog s.work htables h
  cases hc with
  | cached r lines _ _ _ => exact h
  | written target bytes s' hw => exact hw.catalog ▸ hnext
  | failed e s' _ f => exact (show s'.catalog.Holds _ _ from f.catalog ▸ hnext)
  | aborted e s' _ f => exact f.catalog ▸ hnext
  | stopped fault s' _ => exact absurd rfl (hresult fault)

/-- What is asked of a build: it is one of the site, its processor gives the fixed outputs, every
target has an owner, message tables stay, and no file operation fails. The last is also asked of
the reading of included texts, which no build stops at. -/
structure Orderly (out : Step → ByteArray → ByteArray) (tables : String → MessageTable) (owner : Owner)
    (x₀ x : Context) (w : Workspace) : Prop where
  continues : x₀.Continues x
  processor : x.processor.KeepsFiles
  follows : x.processor.Follows out
  flat : x.FlatFingerprints
  owns : WritesOwn owner x w
  messages : ∀ o ∈ outset? x w, ∀ v ∈ visits x o.session o.order, ∀ language,
    (Catalog.readTable v.1.work.files x.config.catalog language).1 = tables language
  messagesAfter : ∀ language,
    (Catalog.readTable (build x w).2.files x.config.catalog language).1 = tables language
  operations : ∀ fault, (build x w).1 ≠ .error (.file fault) ∧
    (build x w).1 ≠ .error (.cache (.file fault))
  included : ∀ o ∈ outset? x w, ∀ v ∈ visits x o.session o.order, Stale x v.1 v.2 →
    Readable x v.1 v.2

theorem Orderly.suits (h : Orderly out tables owner x₀ x w) : Suits x₀.config x :=
  ⟨(Config.roots_eq_of_lasting h.continues.config).symm, h.processor, h.flat⟩

/-- The assets of a build that sets out are planned all through its run. -/
theorem planned_of_preserves (h : Fit x w) (ho : Cache.Opened x.config.cache w cache w1)
    (hs : SetsOut x cache w1 o) (hp : Preserves x o.session s) :
    Planned x o.session.work.files o.session.assets s := by
  have hr := ready_of_setsOut h ho hs
  refine ⟨fun a ha => ?_, ?_, fun i hi f hf => ?_⟩
  · obtain ⟨i, hi, rfl⟩ := Collection.exists_get_of_mem ha
    exact hr.placed i hi
  · rw [hp.bare]
    refine (List.map_congr_left fun a ha => ?_).trans (List.map_id _)
    obtain ⟨i, _, rfl⟩ := Collection.exists_get_of_mem ha
    obtain ⟨htarget, hrebuilt⟩ := hr.waiting i
    rw [Asset.bare, ← htarget, ← hrebuilt]
    rfl
  · have hsource := hp.file_source hr hi hf
    rwa [(Asset.identity_eq_iff.mp (hp.identity_eq i)).2.1] at hsource

section run

variable (h : Fit x w) (ho : Cache.Opened x.config.cache w cache w1) (hs : SetsOut x cache w1 o)
include h ho hs

/-- Pruning loses the files of pruned rows only. -/
theorem sound_outset (hsound : Sound out tables owner x₀ w.files (savedRows w.files x.config.cache)) :
    Sound out tables owner x₀ o.session.work.files o.session.cache.rows := by
  have hrows : Sound out tables owner x₀ w1.files cache.rows := by
    rw [ho.rows]
    exact hsound.of_keeps ho.keeps fun r hr => (h.kept.targetAt hr).ne_lock
  have hkept : Kept x.config cache.rows := ho.rows ▸ h.kept
  refine (hs.rows ▸ hrows.filter _).of_keeps hs.keeps fun r hr => ?_
  rw [hs.rows, List.mem_filter] at hr
  obtain ⟨hmem, hfile⟩ := hr
  rintro ⟨q, hq, hgone, hl⟩
  have hne : q ≠ r := by
    rintro rfl
    rw [hfile] at hgone
    cases hgone
  exact hrows.owned.resolve_ne hkept hq hmem (hkept.keyed.forall hmem hq hne.symm) hl.symm

theorem sound_run (horderly : Orderly out tables owner x₀ x w) (hinj : Function.Injective x₀.digest)
    (hout : outset? x w = some o)
    (hresult : ∀ fault, (compileAll x o.session o.order).1 ≠ .error (.file fault))
    (hsound : Sound out tables owner x₀ w.files (savedRows w.files x.config.cache)) :
    Sound out tables owner x₀ (compileAll x o.session o.order).2.work.files
      (compileAll x o.session o.order).2.cache.rows := by
  have hr := ready_of_setsOut h ho hs
  have hstart := sound_outset h ho hs hsound
  have hrunning := (running_run hr fun v hv =>
    ((owned_visits h horderly.owns hsound.owned hout).1 v hv).exclusive x.config).1
  have hcatalog : o.session.catalog.Holds tables x.config.catalog :=
    hs.catalog ▸ Catalog.holds_empty _ _
  refine (compileAll_invariant (P := fun t => Preserves x o.session t ∧
    Sound out tables owner x₀ t.work.files t.cache.rows ∧ t.catalog.Holds tables x.config.catalog)
    ⟨.start hr, hstart, hcatalog⟩ ?_).2.2.1
  rintro ⟨t, i⟩ hv ⟨hp, hsound, hcatalog⟩
  have hi := hr.lt i (mem_order_of_mem_visits hv)
  have hc := compiles_compileOne hr.processor t i
  have hp' := preserves_step hr hi hp hc
  have htables := horderly.messages o hout (t, i) hv
  have hfault : ∀ fault, (compileOne x t i).1 ≠ .error (.file fault) :=
    fun fault he => hresult fault (compileAll_error hv he)
  obtain ⟨front, back, reports, he, hrun⟩ := hrunning (t, i) hv
  have hcoherent : Coherent tables owner x t i := by
    refine coherent_of_made hs.made (planned_of_preserves h ho hs hp) hi (fun d hd => ?_) hp.kept
      horderly.continues hsound htables hcatalog
    rw [hp.dependencies_eq] at hd
    obtain ⟨e, _, hentry⟩ := hrun.exists_entry (hr.dependencies front i back he d hd)
    exact hentry.target
  have hnext : Owned owner (compileOne x t i).2.cache.rows :=
    owned_step hr (horderly.owns o hout) hv hp hsound.owned
  exact ⟨hp', hsound.compiles hr hi hp horderly.continues hinj horderly.follows hcoherent
    (horderly.included o hout (t, i) hv) hnext hc hfault, hc.holds hfault htables hcatalog⟩

end run

/-- An orderly build keeps the rows and files of a site sound. -/
theorem sound_build (h : Fit x w) (horderly : Orderly out tables owner x₀ x w)
    (hinj : Function.Injective x₀.digest)
    (hsound : Sound out tables owner x₀ w.files (savedRows w.files x.config.cache)) :
    Sound out tables owner x₀ (build x w).2.files (savedRows (build x w).2.files x.config.cache) := by
  cases comesTo_build h horderly.operations with
  | unset grows lost rows =>
    rw [rows]
    exact hsound.of_files grows.home fun r hr => lost _ (h.kept.targetAt hr).ne_lock
  | saved outset opened sets result keeps rows =>
    have hrun := sound_run h opened sets horderly hinj outset result hsound
    rw [rows]
    refine hrun.of_keeps keeps fun r hr => ?_
    rw [h.able.home_run opened sets]
    exact ((h.able.preserves_outset opened sets).kept.targetAt hr).apart

structure EditsSources (c : Config) (w w' : Workspace) : Prop where
  home : w'.files.home = w.files.home
  wellFormed : w'.files.WellFormed
  files : ∀ l, ¬InSources w.files.home c l → w'.files.fileAt? l = w.files.fileAt? l

theorem EditsSources.savedRows_eq {c : Config} (h : EditsSources c w w') (hl : Layout w.files.home c) :
    savedRows w'.files c.cache = savedRows w.files c.cache := by
  unfold savedRows
  rw [h.home]
  refine Cache.rowsAt_congr (h.files _ ?_)
  rw [Cache.manifestAt_eq]
  exact Asset.not_inSources_cache hl _

theorem EditsSources.disturbs {c : Config} (h : EditsSources c w w') (hw : Standing c w) :
    Disturbs c w w' :=
  ⟨h.home, h.wellFormed, Or.inl (h.savedRows_eq hw.layout)⟩

theorem editsSources_put {c : Config} {l : Location} {f : File} (g : File) (hw : w.files.WellFormed)
    (hf : w.files.fileAt? l = some f) (hl : InSources w.files.home c l) :
    EditsSources c w { w with files := w.files.put l (.file g) } := by
  have hk := Tree.keeps_put_file (g := g) (Tree.fileAt?_eq_some_iff.mp hf)
  refine ⟨hk.grows.home, hk.wellFormed hw, fun m hm => hk.files m ?_⟩
  rintro rfl
  exact hm hl

/-- Where sources are edited and builds are orderly, every state stands and is sound. -/
theorem Reached.sound (h : Reached x₀.config (EditsSources x₀.config) (Orderly out tables owner x₀) w)
    (hinj : Function.Injective x₀.digest) : Standing x₀.config w ∧
      Sound out tables owner x₀ w.files (savedRows w.files x₀.config.cache) := by
  induction h with
  | start w wellFormed layout rows =>
    rw [rows]
    exact ⟨⟨wellFormed, layout, rows ▸ .nil _⟩, .nil⟩
  | edit w w' _ edited ih =>
    obtain ⟨hstanding, hsound⟩ := ih
    have hrows := edited.savedRows_eq hstanding.layout
    refine ⟨hstanding.disturbs (edited.disturbs hstanding), ?_⟩
    rw [hrows]
    exact hsound.of_files edited.home fun r hr =>
      Or.inr (edited.files _ ((hstanding.kept.targetAt hr).not_inSources hstanding.layout))
  | build x w _ run ih =>
    obtain ⟨hstanding, hsound⟩ := ih
    refine ⟨hstanding.build run.suits, ?_⟩
    rw [Config.cache_eq_of_roots run.suits.roots] at hsound ⊢
    exact sound_build (hstanding.fit run.suits) run hinj hsound

end Build

end AssetCompiler
