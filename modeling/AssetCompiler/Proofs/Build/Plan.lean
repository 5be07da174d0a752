import AssetCompiler.Build.Plan
import AssetCompiler.Proofs.Asset.References
import AssetCompiler.Proofs.Schedule

/-! # Plans

A plan holds the assets of the discovered sources, each read from its source, in an order that
puts dependencies first. Planning changes no file, and where the same sources stand with the
same contents it gives the same plan.
-/
namespace AssetCompiler.Plan

open Collection (readAs parse meant?)

def unread (a : Asset) : Asset := .ofSource a.kind a.source a.language

/-- What is known of the plan for the sources in a tree. -/
structure Made (c : Config) (files : Tree) (p : Plan) : Prop where
  identities : p.assets.map Asset.identity =
    (Collection.ofFiles c (Discovery.sources files c)).map Asset.identity
  read : ∀ a ∈ p.assets, ∃ log, parse files c p.assets (unread a) = .ok (a, log)
  order : p.order.Perm (List.range p.assets.length)
  first : Schedule.DependenciesFirst p.assets.graph (List.range p.assets.length) p.order

variable {c : Config} {files : Tree} {p : Plan} {w w' : Workspace}

/-- Planning only writes to the log. -/
theorem make_log (c : Config) (w : Workspace) : ∃ lines, (make c w).2 = w.note lines := by
  have hlog := Collection.parseFrom_log c 0
    (Collection.ofFiles c (Discovery.sources w.files c)).length
    (Collection.ofFiles c (Discovery.sources w.files c)) w
  unfold make Collection.parseAll
  dsimp only
  cases hp : Collection.parseFrom c 0 _ (Collection.ofFiles c (Discovery.sources w.files c)) w with
  | mk result r =>
    obtain ⟨assets, w1⟩ := r
    rw [hp] at hlog
    obtain ⟨lines, rfl⟩ := hlog
    cases result with
    | error e => exact ⟨lines, rfl⟩
    | ok u =>
      dsimp only
      split <;> exact ⟨lines, rfl⟩

/-- Planning fails at a source that cannot be read as it should, or at assets that depend on each
other. -/
theorem make_error {e : BuildError} (h : (make c w).1 = .error e) :
    (∃ cause, e = .parse cause) ∨ ∃ names, e = .cycle names := by
  unfold make at h
  dsimp only at h
  split at h
  · cases h
    exact .inl ⟨_, rfl⟩
  · split at h <;> cases h
    exact .inr ⟨_, rfl⟩

theorem made_of_make (h : make c w = (.ok p, w')) : Made c w.files p := by
  unfold make Collection.parseAll at h
  dsimp only at h
  cases hp : Collection.parseFrom c 0 (Collection.ofFiles c (Discovery.sources w.files c)).length
      (Collection.ofFiles c (Discovery.sources w.files c)) w with
  | mk result r =>
    obtain ⟨assets, w1⟩ := r
    rw [hp] at h
    cases result with
    | error e => cases h
    | ok u =>
      dsimp only at h
      obtain ⟨hid, _, hread⟩ := Collection.parseFrom_ok hp (Nat.zero_add _).symm
      cases ho : Schedule.order assets.graph with
      | error cycle =>
        rw [ho] at h
        cases h
      | ok order =>
        rw [ho] at h
        cases h
        obtain ⟨hperm, hfirst⟩ := Schedule.order_spec ho
        have hlen : assets.graph.length = assets.length := List.length_map ..
        rw [hlen] at hperm hfirst
        refine ⟨hid, ?_, hperm, hfirst⟩
        intro a ha
        obtain ⟨i, hi, rfl⟩ := Collection.exists_get_of_mem ha
        have hi' : i < (Collection.ofFiles c (Discovery.sources w.files c)).length := by
          have hl := congrArg List.length hid
          rw [List.length_map, List.length_map] at hl
          exact hl ▸ hi
        obtain ⟨log, hparse⟩ := hread i (Nat.zero_le i) hi'
        obtain ⟨_, _, k, l, _, _, hsource⟩ :=
          Collection.exists_of_mem_ofFiles (Collection.mem_get hi')
        have hunread : unread (assets.get i) =
            (Collection.ofFiles c (Discovery.sources w.files c)).get i := by
          have hidentity := Collection.identity_of_parse hparse
          rw [hsource] at hidentity ⊢
          simp only [Asset.identity, Asset.ofSource, Prod.mk.injEq] at hidentity
          obtain ⟨h1, h2, h3⟩ := hidentity
          rw [unread, h1, h2, h3]
        exact ⟨log, by rw [hunread, Collection.parse_congr hid]; exact hparse⟩

/-- The same sources with the same contents give the same plan. -/
theorem make_congr (hs : Discovery.sources w'.files c = Discovery.sources w.files c)
    (hr : ∀ a ∈ Collection.ofFiles c (Discovery.sources w.files c), a.kind ≠ .image →
      w'.files.read a.source = w.files.read a.source) :
    (make c w').1 = (make c w).1 := by
  unfold make Collection.parseAll
  dsimp only
  rw [hs]
  obtain ⟨h1, h2⟩ := @Collection.parseFrom_congr c 0 _ _ w w' (Nat.zero_add _).symm
    fun j _ hj => hr _ (Collection.mem_get hj)
  cases hp : Collection.parseFrom c 0 (Collection.ofFiles c (Discovery.sources w.files c)).length
      (Collection.ofFiles c (Discovery.sources w.files c)) w with
  | mk result r =>
    cases hp' : Collection.parseFrom c 0 (Collection.ofFiles c (Discovery.sources w.files c)).length
        (Collection.ofFiles c (Discovery.sources w.files c)) w' with
    | mk result' r' =>
      obtain ⟨assets, w1⟩ := r
      obtain ⟨assets', w1'⟩ := r'
      rw [hp, hp'] at h1 h2
      dsimp only at h1 h2 ⊢
      subst h1 h2
      cases result' with
      | error e => rfl
      | ok u =>
        dsimp only
        cases Schedule.order assets'.graph <;> rfl

namespace Made

variable (h : Made c files p) {i : Nat}
include h

theorem distinct : p.assets.Distinct :=
  Collection.distinct_congr h.identities.symm (Collection.distinct_ofFiles _ _)

theorem placed_of_flat (hw : files.WellFormed)
    (hl : ∀ k, ∀ l ∈ (c.sectionOf k).languages, '/' ∉ l.toList) {a : Asset} (ha : a ∈ p.assets) :
    a.Placed c := by
  have hid : a.identity ∈ p.assets.map Asset.identity := List.mem_map_of_mem ha
  rw [h.identities] at hid
  obtain ⟨b, hb, he⟩ := List.mem_map.mp hid
  exact Asset.placed_congr he (Collection.placed_of_flat_languages hw hl hb)

/-- Apart from its language, every planned asset is placed below the source root of its kind. -/
theorem exists_placedAt (hw : files.WellFormed) {a : Asset} (ha : a ∈ p.assets) :
    ({ a with language := none } : Asset).Placed c := by
  have hid : a.identity ∈ p.assets.map Asset.identity := List.mem_map_of_mem ha
  rw [h.identities] at hid
  obtain ⟨b, hb, hid⟩ := List.mem_map.mp hid
  obtain ⟨hkind, hsource, _⟩ := Asset.identity_eq_iff.mp hid
  obtain ⟨path, hp, k, l, hpath, _, rfl⟩ := Collection.exists_of_mem_ofFiles hb
  obtain ⟨kind, dir, stem, extension, hne, hd, hn, hplace, hext, hk⟩ :=
    Discovery.exists_names_of_mem_sources hw hp
  obtain rfl : kind = k := Option.some.inj (hk.symm.trans hpath)
  refine Asset.placed_congr (a := .ofSource kind path none) ?_
    ⟨dir, stem, extension, hne, hd, hn, hplace, hext, fun _ he => (by cases he)⟩
  exact Asset.identity_eq_iff.mpr ⟨hkind, hsource, rfl⟩

theorem placed {home : Location} (hw : files.WellFormed) (hl : Layout home c) {a : Asset}
    (ha : a ∈ p.assets) : a.Placed c :=
  h.placed_of_flat hw hl.languages ha

/-- The assets of a plan are in languages of their sections, or in none. -/
theorem language_mem_variants {a : Asset} (ha : a ∈ p.assets) :
    a.language ∈ Collection.variants (c.sectionOf a.kind) := by
  have hid : a.identity ∈ p.assets.map Asset.identity := List.mem_map_of_mem ha
  rw [h.identities] at hid
  obtain ⟨b, hb, he⟩ := List.mem_map.mp hid
  obtain ⟨hkind, _, hlanguage⟩ := Asset.identity_eq_iff.mp he
  rw [← hkind, ← hlanguage]
  exact Collection.language_mem_variants hb

theorem get_congr {files' : Tree} {p' : Plan} (h' : Made c files' p')
    (hid : p'.assets.map Asset.identity = p.assets.map Asset.identity) (hi : i < p.assets.length)
    (hread : (p.assets.get i).kind ≠ .image →
      files'.read (p.assets.get i).source = files.read (p.assets.get i).source) :
    p'.assets.get i = p.assets.get i := by
  have hi' : i < p'.assets.length := Collection.length_eq_of_identities hid ▸ hi
  have hunread : unread (p'.assets.get i) = unread (p.assets.get i) := by
    obtain ⟨h1, h2, h3⟩ := Asset.identity_eq_iff.mp (Collection.identity_get_congr hid i)
    rw [unread, h1, h2, h3, unread]
  obtain ⟨log, hp⟩ := h.read _ (Collection.mem_get hi)
  obtain ⟨log', hp'⟩ := h'.read _ (Collection.mem_get hi')
  rw [hunread, Collection.parse_congr hid,
    Collection.parse_congr_files (a := unread (p.assets.get i)) hread, hp] at hp'
  simp only [Except.ok.injEq, Prod.mk.injEq] at hp'
  exact hp'.1.symm

theorem nodup : p.order.Nodup := h.order.nodup_iff.mpr List.nodup_range

theorem mem_order : i ∈ p.order ↔ i < p.assets.length :=
  h.order.mem_iff.trans List.mem_range

/-- A dependency of an asset comes from a reference in its text. -/
theorem mem_dependencies {a : Asset} (ha : a ∈ p.assets) {d : Nat} (hd : d ∈ a.dependencies) :
    ∃ bytes text, files.read a.source = .ok bytes ∧ Collection.textOf? a bytes = some text ∧
      ∃ o ∈ occurrences a.kind text, meant? c p.assets a o = some d := by
  obtain ⟨log, hp⟩ := h.read a ha
  obtain ⟨hread, hcontent⟩ := Collection.parse_eq_ok hp
  by_cases hk : a.kind = .image
  · have hk' : (unread a).kind = .image := hk
    rw [Collection.parse_image hk'] at hp
    simp only [Except.ok.injEq, Prod.mk.injEq] at hp
    rw [← hp.1] at hd
    cases hd
  · obtain ⟨bytes, hb⟩ := hread hk
    have ha' := hcontent bytes hb
    cases ht : Collection.textOf? (unread a) bytes with
    | none =>
      rw [Collection.readAs_of_none ht] at ha'
      rw [ha'] at hd
      cases hd
    | some text =>
      obtain ⟨_, _, hdeps⟩ := @Collection.readAs_of_text c p.assets _ _ _ ht
      refine ⟨bytes, text, hb, ht, (hdeps d).mp ?_⟩
      rw [← ha']
      exact hd

theorem dependency_lt {a : Asset} (ha : a ∈ p.assets) {d : Nat} (hd : d ∈ a.dependencies) :
    d < p.assets.length := by
  obtain ⟨_, _, _, _, o, _, hm⟩ := h.mem_dependencies ha hd
  obtain ⟨r, _, hr⟩ := Option.bind_eq_some_iff.mp hm
  exact (Collection.findFor?_eq_some hr).1

theorem dependency_mem_front {front back : List Nat} (he : p.order = front ++ i :: back) {d : Nat}
    (hd : d ∈ (p.assets.get i).dependencies) : d ∈ front := by
  have hi : i < p.assets.length := h.mem_order.mp (by simp [he])
  have hlt := h.dependency_lt (Collection.mem_get hi) hd
  refine h.first front i back he d ?_ (List.mem_range.mpr hlt)
  unfold Schedule.dependencies Collection.graph
  rw [Collection.get_eq_getElem hi] at hd
  simpa [hi] using hd

end Made

end AssetCompiler.Plan
