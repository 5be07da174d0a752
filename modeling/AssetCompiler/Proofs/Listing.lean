import AssetCompiler.Proofs.Build.History
import AssetCompiler.Proofs.Walk

/-! # What discovery lists

A walk from a source root goes on through every directory that it has come to and turns back at hidden
names and at the cache. The sources of a kind are the files of the kind that it comes to, each once, in
the order of paths. Roots may lie in one another: a file has only one kind.
-/
namespace AssetCompiler.Discovery

variable {t : Tree} {c : Config} {kind kind' : Kind} {root cache p q : Path} {l : Location}
  {names : List String}

/-! ### The walk -/

/-- The names of what a walk below a directory comes to, whose path is the root. -/
inductive Visited (t : Tree) (l : Location) (root cache : Path) : List String → Prop
  | start : t.IsDir l → Visited t l root cache []
  | entry (names : List String) (n : String) : Visited t l root cache names → t.IsDir (l ++ names) →
      (t.get? (l ++ (names ++ [n]))).isSome = true → isHidden n = false →
      (pathBelow root (names ++ [n]) == cache) = false → Visited t l root cache (names ++ [n])

theorem isReached_iff : isReached root cache names = true ↔ (∀ n ∈ names, isHidden n = false) ∧
    ∀ front, front ≠ [] → front <+: names → (pathBelow root front == cache) = false := by
  induction names generalizing root with
  | nil => exact iff_of_true rfl ⟨by simp, fun front hne hp => absurd (List.prefix_nil.mp hp) hne⟩
  | cons n ns ih =>
    simp only [isReached, Bool.and_eq_true, Bool.not_eq_eq_eq_not, Bool.not_true, ih, List.forall_mem_cons]
    constructor
    · rintro ⟨⟨hhidden, hcache⟩, hrest, hfronts⟩
      refine ⟨⟨hhidden, hrest⟩, ?_⟩
      intro front hne hpre
      obtain ⟨m, ms, rfl⟩ := List.exists_cons_of_ne_nil hne
      obtain ⟨rfl, hbelow⟩ := List.cons_prefix_cons.mp hpre
      cases ms with
      | nil => exact hcache
      | cons k ks => exact hfronts (k :: ks) (List.cons_ne_nil k ks) hbelow
    · rintro ⟨⟨hhidden, hrest⟩, hfronts⟩
      refine ⟨⟨hhidden, hfronts [n] (List.cons_ne_nil n []) ?_⟩, hrest, ?_⟩
      · exact List.cons_prefix_cons.mpr ⟨rfl, List.nil_prefix⟩
      · intro front _ hpre
        exact hfronts (n :: front) (List.cons_ne_nil n front) (List.cons_prefix_cons.mpr ⟨rfl, hpre⟩)

theorem isReached_concat {n : String} : isReached root cache (names ++ [n]) = true ↔
    isReached root cache names = true ∧ isHidden n = false ∧
      (pathBelow root (names ++ [n]) == cache) = false := by
  induction names generalizing root with
  | nil => simp [isReached, pathBelow]
  | cons m ms ih =>
    have hpath : pathBelow root (m :: ms ++ [n]) = pathBelow (root.join ⟨m⟩) (ms ++ [n]) := rfl
    simp only [isReached, List.cons_append, Bool.and_eq_true, ih, ← hpath, and_assoc]

/-- The walk loses nothing where it does not turn back, and finds nothing behind. -/
theorem visited_iff (hw : t.WellFormed) (hd : t.IsDir l) : Visited t l root cache names ↔
    (t.get? (l ++ names)).isSome = true ∧ isReached root cache names = true := by
  constructor
  · intro h
    induction h with
    | start hl =>
      obtain ⟨time, htime⟩ := hl
      rw [List.append_nil, htime]
      exact ⟨rfl, rfl⟩
    | entry names n _ _ hsome hhidden hcache ih => exact ⟨hsome, isReached_concat.mpr ⟨ih.2, hhidden, hcache⟩⟩
  · rintro ⟨hsome, hreached⟩
    induction names using List.reverseRecOn with
    | nil => exact .start hd
    | append_singleton ns n ih =>
      obtain ⟨hbefore, hhidden, hcache⟩ := isReached_concat.mp hreached
      have hdir : t.IsDir (l ++ ns) := by
        obtain ⟨e, he⟩ := Option.isSome_iff_exists.mp hsome
        rw [Tree.get?, if_neg (by simp)] at he
        have hparent := hw.parents _ (List.mem_map.mpr ⟨_, Tree.mem_of_lookup_eq_some he, rfl⟩)
        rwa [← List.append_assoc, List.dropLast_concat] at hparent
      obtain ⟨time, htime⟩ := hdir
      exact .entry ns n (ih (by rw [htime]; rfl) hbefore) ⟨time, htime⟩ hsome hhidden hcache

/-! ### The list of a kind -/

/-- A file below the source root of a kind whose extension belongs to the kind. Nothing on the way
from the root to it, the file included, is hidden or the cache. -/
structure IsSource (t : Tree) (c : Config) (kind : Kind) (p : Path) (names : List String) : Prop where
  root : t.isDirectory (c.sectionOf kind).source = true
  ne_nil : names ≠ []
  isNames : ∀ n ∈ names, IsName n
  path : p = (c.sectionOf kind).source.join (Path.ofNames names)
  isFile : t.isFile p = true
  extension : ∃ e, p.extension? = some e ∧ Kind.lowerAscii e ∈ kind.extensions
  shown : ∀ n ∈ names, n.toList.head? ≠ some '.'
  apart : ∀ front, front ≠ [] → front <+: names →
    ((c.sectionOf kind).source.join (Path.ofNames front) == c.cache) = false

theorem ofPath?_eq_some_iff : Kind.ofPath? p = some kind ↔
    ∃ e, p.extension? = some e ∧ Kind.lowerAscii e ∈ kind.extensions := by
  simp only [Kind.ofPath?, Option.bind_eq_some_iff, Kind.ofExtension?_eq_some_iff]

theorem ofPath?_of_mem_ofKind (h : p ∈ ofKind t c kind) : Kind.ofPath? p = some kind := by
  obtain ⟨l, _, _, h⟩ := exists_find_of_mem_ofKind h
  rw [sourcesBelow_eq, List.mem_filterMap] at h
  obtain ⟨names, _, hsource⟩ := h
  unfold sourceOf? at hsource
  split_ifs at hsource with hkind
  rw [← Option.some.inj hsource]
  exact eq_of_beq (Bool.and_eq_true_iff.mp hkind).2

/-- The sources of a kind are the files that the walk through its root lists. -/
theorem mem_ofKind_iff (hw : t.WellFormed) :
    p ∈ ofKind t c kind ↔ ∃ names, Listed c kind names p ∧ t.isFile p = true := by
  have hall (k : Kind) : k ∈ Kind.all := by cases k <;> decide
  constructor
  · intro h
    obtain ⟨kind', names, f, hlisted, hf⟩ :=
      exists_listed_of_mem_sources hw (List.mem_flatMap.mpr ⟨kind, hall kind, h⟩)
    obtain rfl : kind' = kind := Option.some.inj (hlisted.ofPath?.symm.trans (ofPath?_of_mem_ofKind h))
    exact ⟨names, hlisted, Tree.isFile_iff.mpr ⟨f, hf⟩⟩
  · rintro ⟨names, hlisted, hf⟩
    obtain ⟨kind', _, h⟩ := List.mem_flatMap.mp (mem_sources_of_listed hw hlisted hf)
    obtain rfl : kind' = kind := Option.some.inj ((ofPath?_of_mem_ofKind h).symm.trans hlisted.ofPath?)
    exact h

/-- The sources of a kind are the files of the kind that the walk visits. -/
theorem mem_ofKind_iff_visited (hw : t.WellFormed) : p ∈ ofKind t c kind ↔
    ∃ l names f, t.locate (c.sectionOf kind).source = .ok l ∧
      Visited t l (c.sectionOf kind).source c.cache names ∧ t.fileAt? (l ++ names) = some f ∧
      p = pathBelow (c.sectionOf kind).source names ∧ Kind.ofPath? p = some kind := by
  rw [mem_ofKind_iff hw]
  constructor
  · rintro ⟨names, h, hf⟩
    obtain ⟨f, hf⟩ := Tree.isFile_iff.mp hf
    rw [h.eq_join] at hf
    obtain ⟨l, hl, hd, hat⟩ := (Tree.file_join_ofNames hw h.root_ne h.ne_nil h.isNames).mp hf
    have hsome : (t.get? (l ++ names)).isSome = true := by
      rw [Tree.fileAt?_eq_some_iff.mp hat]
      rfl
    exact ⟨l, names, f, hl, (visited_iff hw hd).mpr ⟨hsome, h.isReached⟩, hat,
      h.eq_join.trans (Path.pathBelow_eq h.ne_nil h.isNames).symm, h.ofPath?⟩
  · rintro ⟨l, names, f, hl, hvisited, hat, rfl, hkind⟩
    have hd : t.IsDir l := by
      cases hvisited with
      | start hd => exact hd
      | entry names n _ hdir => exact hw.isDir_of_prefix (List.prefix_append l names) hdir
    have hne : names ≠ [] := by
      rintro rfl
      rw [List.append_nil, Tree.fileAt?_eq_none_of_isDir hd] at hat
      cases hat
    have hnames := hw.isName_of_fileAt? hat
    have hroot := (Tree.locate_eq_ok hl).2
    refine ⟨names, ⟨hroot, hne, hnames, ?_⟩, Tree.isFile_iff.mpr ⟨f, ?_⟩⟩
    · rw [sourceOf?, ((visited_iff hw hd).mp hvisited).2, hkind]
      simp
    · rw [Path.pathBelow_eq hne hnames]
      exact (Tree.file_join_ofNames hw hroot hne hnames).mpr ⟨l, hl, hd, hat⟩

/-- Files of different names have different paths. -/
theorem nodup_sourcesBelow (hw : t.WellFormed) (root cache : Path) (kind : Kind) (l : Location) :
    (sourcesBelow t root cache kind l).Nodup := by
  rw [sourcesBelow_eq]
  refine List.Pairwise.filterMap _ ?_ (List.Pairwise.and_mem.mp (Tree.nodup_fileNames hw.nodup l))
  rintro names names' ⟨hmem, hmem', hne⟩ p hp q hq rfl
  have hsame := (components_of_sourceOf? hw hmem hp).symm.trans (components_of_sourceOf? hw hmem' hq)
  exact hne (Component.map_name_injective (List.append_cancel_left hsame))

/-- The sources of a kind stand in order, each once. -/
theorem pairwise_ofKind (hw : t.WellFormed) (c : Config) (kind : Kind) :
    (ofKind t c kind).Pairwise fun p q => p.le q = true ∧ (p == q) = false := by
  cases hd : t.isDirectory (c.sectionOf kind).source with
  | false => exact ofKind_of_not_isDirectory hd ▸ List.Pairwise.nil
  | true =>
    obtain ⟨l, hl, ⟨time, htime⟩⟩ := Tree.isDirectory_iff.mp hd
    rw [ofKind_of_find (Tree.find_eq_ok_iff.mpr ⟨hl, htime⟩)]
    have hdistinct := ((List.mergeSort_perm _ Path.le).nodup_iff).mpr
      (nodup_sourcesBelow hw (c.sectionOf kind).source c.cache kind l)
    apply ((Path.pairwise_mergeSort_le _).and hdistinct).imp_of_mem
    rintro p q hp hq ⟨hle, hne⟩
    refine ⟨hle, Bool.eq_false_iff.mpr fun he => hne ?_⟩
    exact eq_of_beq_of_mem_sourcesBelow hw (List.mem_mergeSort.mp hp) (List.mem_mergeSort.mp hq) he

theorem isSource_iff (hw : t.WellFormed) :
    IsSource t c kind p names ↔ Listed c kind names p ∧ t.isFile p = true := by
  constructor
  · rintro ⟨hroot, hne, hnames, rfl, hf, hextension, hshown, hapart⟩
    obtain ⟨l, hl, _⟩ := Tree.isDirectory_iff.mp hroot
    refine ⟨⟨(Tree.locate_eq_ok hl).2, hne, hnames, ?_⟩, hf⟩
    have hreached : isReached (c.sectionOf kind).source c.cache names = true := by
      refine isReached_iff.mpr ⟨fun n hn => beq_eq_false_iff_ne.mpr (hshown n hn), ?_⟩
      intro front hfront hpre
      rw [Path.pathBelow_eq hfront fun n hn => hnames n (hpre.subset hn)]
      exact hapart front hfront hpre
    rw [sourceOf?, Path.pathBelow_eq hne hnames, hreached, ofPath?_eq_some_iff.mpr hextension]
    simp
  · rintro ⟨h, hf⟩
    obtain ⟨f, hfile⟩ := Tree.isFile_iff.mp hf
    rw [h.eq_join] at hfile
    obtain ⟨l, hl, hd, _⟩ := (Tree.file_join_ofNames hw h.root_ne h.ne_nil h.isNames).mp hfile
    obtain ⟨hshown, hapart⟩ := isReached_iff.mp h.isReached
    refine ⟨Tree.isDirectory_iff.mpr ⟨l, hl, hd⟩, h.ne_nil, h.isNames, h.eq_join, hf,
      ofPath?_eq_some_iff.mp h.ofPath?, fun n hn => beq_eq_false_iff_ne.mp (hshown n hn), ?_⟩
    intro front hfront hpre
    rw [← Path.pathBelow_eq hfront fun n hn => h.isNames n (hpre.subset hn)]
    exact hapart front hfront hpre

/-- A stylesheet root and the cache within a markup root, beside hidden files. -/
def within : Config where
  markup := ⟨⟨"site"⟩, ⟨"public"⟩, []⟩
  stylesheets := ⟨⟨"site/css"⟩, ⟨"public/css"⟩, []⟩
  cache := ⟨"site/build"⟩

/-- Component by component, `a/b.html` stands before `a-b.html`, though not as a text. -/
def overlapping : Tree :=
  (Sample.site [
    (["site"], .directory 0),
    (["site", ".draft.html"], Sample.source ""),
    (["site", "a"], .directory 0),
    (["site", "a", "b.html"], Sample.source ""),
    (["site", "a-b.html"], Sample.source ""),
    (["site", "build"], .directory 0),
    (["site", "build", "a.html"], Sample.source ""),
    (["site", "css"], .directory 0),
    (["site", "css", "Main.CSS"], Sample.source "")]).files

theorem ofKind_overlapping :
    ofKind overlapping within .markup = [⟨"site/a/b.html"⟩, ⟨"site/a-b.html"⟩] ∧
      ofKind overlapping within .stylesheet = [⟨"site/css/Main.CSS"⟩] ∧
      ofKind overlapping within .script = [] ∧ ofKind overlapping within .image = [] := by
  refine ⟨?_, by decide +kernel, by decide +kernel, by decide +kernel⟩
  have hroot : overlapping.find ⟨"site"⟩ = .ok (["site"], .directory 0) := by decide +kernel
  have hbelow : sourcesBelow overlapping ⟨"site"⟩ ⟨"site/build"⟩ .markup ["site"] =
      [⟨"site/a/b.html"⟩, ⟨"site/a-b.html"⟩] := by decide +kernel
  have hsorted : [(⟨"site/a/b.html"⟩ : Path), ⟨"site/a-b.html"⟩].Pairwise fun p q => p.le q = true := by
    decide +kernel
  have hmarkup : ofKind overlapping within .markup =
      (sourcesBelow overlapping ⟨"site"⟩ ⟨"site/build"⟩ .markup ["site"]).mergeSort Path.le :=
    ofKind_of_find hroot
  rw [hmarkup, hbelow]
  exact List.mergeSort_of_pairwise hsorted

end AssetCompiler.Discovery
