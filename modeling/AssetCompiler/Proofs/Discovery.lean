import AssetCompiler.Discovery
import AssetCompiler.Proofs.Asset.Target
import AssetCompiler.Proofs.Path.Order

/-! # Discovered sources

Every discovered source lies below the source root of its kind. What is discovered depends only
on which files stand among the sources, as long as no source root leads out of a directory that
it has named before.
-/
namespace AssetCompiler

open Naming (named IsNamed)

namespace Kind

/-- No extension belongs to two kinds. -/
theorem ofExtension?_eq_some_iff {extension : String} {kind : Kind} :
    ofExtension? extension = some kind ↔ lowerAscii extension ∈ kind.extensions := by
  have hdisjoint : ∀ k ∈ all, ∀ k' ∈ all, ∀ e ∈ k.extensions, e ∈ k'.extensions → k = k' := by decide
  have hall (k : Kind) : k ∈ all := by cases k <;> decide
  unfold ofExtension?
  constructor
  · intro h
    have hmem := List.find?_some h
    rwa [List.contains_iff_mem] at hmem
  · intro h
    cases hfind : all.find? fun k => k.extensions.contains (lowerAscii extension) with
    | none => exact absurd (List.contains_iff_mem.mpr h) (List.find?_eq_none.mp hfind kind (hall kind))
    | some k =>
      have hmem := List.find?_some hfind
      rw [List.contains_iff_mem] at hmem
      rw [hdisjoint k (hall k) kind (hall kind) _ hmem h]

theorem ofPath?_congr {p q : Path} (h : (p == q) = true) : ofPath? p = ofPath? q := by
  simp only [ofPath?, Path.extension?, Path.fileName?, Path.beq_iff.mp h]

end Kind

namespace Path

/-- Whether a piece names no directory below the one it is followed from. -/
def isLeading (piece : List Char) : Bool := isFiller piece || piece == ['.', '.']

/-- Paths that lead upwards only at their beginning. -/
def Direct (p : Path) : Prop := ∀ piece ∈ p.parts.dropWhile isLeading, piece ≠ ['.', '.']

instance (p : Path) : Decidable p.Direct := List.decidableBAll _ _

theorem prefix_foldl_follow {pieces : List (List Char)} (h : ∀ piece ∈ pieces, piece ≠ ['.', '.'])
    (l : Location) : l <+: pieces.foldl follow l := by
  induction pieces generalizing l with
  | nil => exact List.prefix_rfl
  | cons p ps ih =>
    have hp : p ≠ ['.', '.'] := h p (by simp)
    have hl : l <+: follow l p := by
      unfold follow
      split
      · exact List.prefix_rfl
      · exact List.prefix_append _ _
    exact hl.trans (ih (fun q hq => h q (List.mem_cons_of_mem _ hq)) _)

end Path

namespace Tree

variable {t t' : Tree}

/-- Pieces that lead upwards only at the beginning lead to a directory through directories. -/
theorem foldlM_step_of_isDir (hw : t.WellFormed) {pieces : List (List Char)} {l : Location}
    (h : ∀ piece ∈ pieces.dropWhile Path.isLeading, piece ≠ ['.', '.']) (hl : t.IsDir l)
    (hd : t.IsDir (pieces.foldl Path.follow l)) :
    pieces.foldlM t.step l = .ok (pieces.foldl Path.follow l) := by
  induction pieces generalizing l with
  | nil => rfl
  | cons p ps ih =>
    have hstep : t.step l p = .ok (Path.follow l p) := step_eq_ok_iff.mpr ⟨hl, rfl⟩
    rw [List.foldlM_cons, hstep, List.foldl_cons]
    refine ih ?_ ?_ hd
    · intro q hq
      by_cases hp : Path.isLeading p = true
      · exact h q (by simpa [hp] using hq)
      · refine h q ?_
        rw [List.dropWhile_cons_of_neg hp]
        exact List.mem_cons_of_mem _ ((List.dropWhile_suffix _).subset hq)
    · by_cases hp : Path.isLeading p = true
      · unfold Path.follow
        split
        · exact hl
        · split
          · exact hw.isDir_of_prefix (List.dropLast_prefix l) hl
          · rename_i h1 h2
            simp [Path.isLeading, h1, h2] at hp
      · rw [List.dropWhile_cons_of_neg hp] at h
        refine hw.isDir_of_prefix (Path.prefix_foldl_follow ?_ _) hd
        exact fun q hq => h q (List.mem_cons_of_mem _ hq)

theorem locate_of_direct (hw : t.WellFormed) {p : Path} (hp : p.Direct) (hne : p.text ≠ "")
    (hd : t.IsDir (p.resolve t.home)) : t.locate p = .ok (p.resolve t.home) := by
  have hstart : t.IsDir (t.start p) := by
    unfold start
    split
    · exact t.isDir_nil
    · exact hw.home
  unfold locate
  rw [if_neg hne]
  exact foldlM_step_of_isDir hw hp hstart hd

/-- Whether new directories lead a path to no other place: it leads to a directory already, or
upwards only at its beginning. -/
def Steady (t : Tree) (p : Path) : Prop := p.Direct ∨ t.isDirectory p = true

theorem Steady.of_grows {p : Path} (h : t.Steady p) (hg : t.Grows t') : t'.Steady p :=
  h.imp id hg.isDirectory

theorem lookup_eq_some_iff (h : t.keys.Nodup) {l : Location} {e : Entry} :
    t.entries.lookup l = some e ↔ (l, e) ∈ t.entries := by
  refine ⟨mem_of_lookup_eq_some, fun hm => ?_⟩
  unfold keys at h
  generalize t.entries = es at h hm
  induction es with
  | nil => cases hm
  | cons x xs ih =>
    obtain ⟨k, v⟩ := x
    rw [List.map_cons, List.nodup_cons] at h
    rcases List.mem_cons.mp hm with hx | hx
    · cases hx
      simp
    · have hne : (l == k) = false := by
        rw [beq_eq_false_iff_ne]
        rintro rfl
        exact h.1 (List.mem_map.mpr ⟨_, hx, rfl⟩)
      rw [List.lookup_cons, hne]
      exact ih h.2 hx

def fileNames (t : Tree) (l : Location) : List (List String) :=
  (t.below l).filterMap fun (names, e) =>
    match e with
    | .file _ => some names
    | .directory _ => none

theorem mem_below_iff (h : t.keys.Nodup) {l : Location} {names : List String} {e : Entry} :
    (names, e) ∈ t.below l ↔ names ≠ [] ∧ t.get? (l ++ names) = some e := by
  unfold below
  simp only [List.mem_filterMap, Prod.exists, Option.ite_none_right_eq_some, Bool.and_eq_true,
    List.isPrefixOf_iff_prefix, bne_iff_ne, ne_eq, Option.some.injEq, Prod.mk.injEq]
  constructor
  · rintro ⟨m, f, hm, ⟨⟨r, rfl⟩, hne⟩, rfl, rfl⟩
    have hr : r ≠ [] := fun hr => hne (by simp [hr])
    rw [List.drop_left, get?, if_neg (by simp [hr])]
    exact ⟨hr, (lookup_eq_some_iff h).mpr hm⟩
  · rintro ⟨hne, hg⟩
    rw [get?, if_neg (by simp [hne])] at hg
    refine ⟨l ++ names, e, (lookup_eq_some_iff h).mp hg, ⟨List.prefix_append _ _, by simpa using hne⟩,
      by simp, rfl⟩

theorem mem_fileNames_iff (h : t.keys.Nodup) {l : Location} {names : List String} :
    names ∈ t.fileNames l ↔ names ≠ [] ∧ (t.fileAt? (l ++ names)).isSome = true := by
  unfold fileNames
  rw [List.mem_filterMap]
  constructor
  · rintro ⟨⟨ns, e⟩, hb, he⟩
    obtain ⟨hne, hg⟩ := (mem_below_iff h).mp hb
    cases e with
    | directory time => cases he
    | file f =>
      cases he
      exact ⟨hne, by simp [fileAt?, hg]⟩
  · rintro ⟨hne, hf⟩
    obtain ⟨f, hf⟩ := Option.isSome_iff_exists.mp hf
    exact ⟨(names, .file f), (mem_below_iff h).mpr ⟨hne, fileAt?_eq_some_iff.mp hf⟩, rfl⟩

theorem WellFormed.isName_of_fileAt? (hw : t.WellFormed) {l : Location} {names : List String} {f : File}
    (h : t.fileAt? (l ++ names) = some f) : ∀ n ∈ names, IsName n := fun n hn =>
  (hw.names _ (mem_of_get?_file (fileAt?_eq_some_iff.mp h))).2 n (List.mem_append_right _ hn)

theorem WellFormed.names_of_mem_fileNames (hw : t.WellFormed) {l : Location} {names : List String}
    (h : names ∈ t.fileNames l) : names ≠ [] ∧ ∀ n ∈ names, IsName n := by
  obtain ⟨hne, hf⟩ := (mem_fileNames_iff hw.nodup).mp h
  obtain ⟨f, hf⟩ := Option.isSome_iff_exists.mp hf
  exact ⟨hne, hw.isName_of_fileAt? hf⟩

theorem nodup_fileNames (h : t.keys.Nodup) (l : Location) : (t.fileNames l).Nodup := by
  unfold fileNames below
  rw [List.filterMap_filterMap]
  unfold keys at h
  rw [List.Nodup, List.pairwise_map] at h
  refine List.Pairwise.filterMap _ ?_ h
  rintro ⟨m, e⟩ ⟨m', e'⟩ hne ns hn ns' hn' rfl
  dsimp only at hn hn' hne
  split at hn <;> split at hn' <;> simp_all
  rename_i hm hm'
  obtain ⟨r, rfl⟩ := hm.1
  obtain ⟨r', rfl⟩ := hm'.1
  cases e <;> cases e' <;> simp_all

end Tree

namespace Discovery

variable {t t' : Tree} {c : Config} {kind : Kind} {p : Path}

/-- The source of a kind that a file of the given names below its root is, if it is one. -/
def sourceOf? (root cache : Path) (kind : Kind) (names : List String) : Option Path :=
  if isReached root cache names && Kind.ofPath? (pathBelow root names) == some kind then
    some (pathBelow root names)
  else none

theorem sourcesBelow_eq (t : Tree) (root cache : Path) (kind : Kind) (l : Location) :
    sourcesBelow t root cache kind l = (t.fileNames l).filterMap (sourceOf? root cache kind) := by
  unfold sourcesBelow Tree.fileNames
  rw [List.filterMap_filterMap]
  congr 1
  funext x
  obtain ⟨names, e⟩ := x
  cases e <;> rfl

theorem ofPath?_join_ofNames {root : Path} {dir : List String} {n : String}
    (h : ∀ m ∈ dir ++ [n], IsName m) :
    Kind.ofPath? (root.join (Path.ofNames (dir ++ [n]))) = Kind.ofPath? (Path.ofNames (dir ++ [n])) := by
  unfold Kind.ofPath? Path.extension?
  rw [Path.fileName?_join_ofNames (by simp) h, Path.fileName?_ofNames h]
  simp

theorem exists_names_of_mem_sourcesBelow (hw : t.WellFormed) {root cache : Path} {l : Location}
    (h : p ∈ sourcesBelow t root cache kind l) : ∃ dir stem extension,
      (∀ m ∈ dir, IsName m) ∧ IsNamed stem extension ∧
      p = root.join (Path.ofNames (dir ++ [named stem extension])) ∧
      Kind.ofExtension? (String.ofList extension) = some kind := by
  rw [sourcesBelow_eq, List.mem_filterMap] at h
  obtain ⟨names, hnames, hp⟩ := h
  obtain ⟨hne, hall⟩ := hw.names_of_mem_fileNames hnames
  unfold sourceOf? at hp
  rw [Path.pathBelow_eq hne hall] at hp
  simp only [Option.ite_none_right_eq_some, Bool.and_eq_true, beq_iff_eq, Option.some.injEq] at hp
  obtain ⟨⟨_, hk⟩, rfl⟩ := hp
  obtain ⟨dir, n, rfl⟩ := (List.eq_nil_or_concat' names).resolve_left hne
  rw [ofPath?_join_ofNames hall] at hk
  obtain ⟨stem, extension, rfl, hn, hext⟩ := Kind.exists_named_of_ofPath? hall hk
  exact ⟨dir, stem, extension, fun m hm => hall m (by simp [hm]), hn, rfl, hext⟩

theorem components_of_sourceOf? (hw : t.WellFormed) {root cache : Path} {l : Location} {names : List String}
    (hmem : names ∈ t.fileNames l) (h : sourceOf? root cache kind names = some p) :
    p.components = root.components ++ names.map Component.name := by
  obtain ⟨hne, hnames⟩ := hw.names_of_mem_fileNames hmem
  unfold sourceOf? at h
  split_ifs at h
  rw [← Option.some.inj h, Path.pathBelow_eq hne hnames, Path.components_join_ofNames hne hnames]

theorem eq_of_beq_of_mem_sourcesBelow (hw : t.WellFormed) {root cache : Path} {l : Location} {q : Path}
    (hp : p ∈ sourcesBelow t root cache kind l) (hq : q ∈ sourcesBelow t root cache kind l)
    (h : (p == q) = true) : p = q := by
  rw [sourcesBelow_eq, List.mem_filterMap] at hp hq
  obtain ⟨names, hmem, hp⟩ := hp
  obtain ⟨names', hmem', hq⟩ := hq
  have hc := Path.beq_iff.mp h
  rw [components_of_sourceOf? hw hmem hp, components_of_sourceOf? hw hmem' hq] at hc
  have hnames := Component.map_name_injective (List.append_cancel_left hc)
  rw [hnames, hq] at hp
  exact (Option.some.inj hp).symm

/-- Sorted sources depend on which files there are. -/
theorem mergeSort_sourcesBelow_congr (hw : t.WellFormed) (hw' : t'.WellFormed) {root cache : Path}
    {l : Location} (h : ∀ names, (t'.fileAt? (l ++ names)).isSome = (t.fileAt? (l ++ names)).isSome) :
    (sourcesBelow t' root cache kind l).mergeSort Path.le =
      (sourcesBelow t root cache kind l).mergeSort Path.le := by
  have hnames : (t'.fileNames l).Perm (t.fileNames l) := by
    refine (List.perm_ext_iff_of_nodup (Tree.nodup_fileNames hw'.nodup l)
      (Tree.nodup_fileNames hw.nodup l)).mpr fun names => ?_
    rw [Tree.mem_fileNames_iff hw'.nodup, Tree.mem_fileNames_iff hw.nodup, h]
  have hperm : (sourcesBelow t' root cache kind l).Perm (sourcesBelow t root cache kind l) := by
    rw [sourcesBelow_eq, sourcesBelow_eq]
    exact hnames.filterMap _
  refine List.Perm.eq_of_pairwise ?_ (Path.pairwise_mergeSort_le _) (Path.pairwise_mergeSort_le _)
    ((List.mergeSort_perm _ _).trans (hperm.trans (List.mergeSort_perm _ _).symm))
  intro p q hp hq hpq hqp
  rw [List.mem_mergeSort] at hp hq
  exact eq_of_beq_of_mem_sourcesBelow hw (hperm.mem_iff.mp hp) hq (Path.beq_of_le hpq hqp)

theorem ofKind_of_find {l : Location} {time : Nat}
    (h : t.find (c.sectionOf kind).source = .ok (l, .directory time)) : ofKind t c kind =
      (sourcesBelow t (c.sectionOf kind).source c.cache kind l).mergeSort Path.le := by
  unfold ofKind
  dsimp only
  rw [h]

/-- The sources of a kind are below a directory that its root leads to. -/
theorem exists_find_of_mem_ofKind (h : p ∈ ofKind t c kind) : ∃ l time,
    t.find (c.sectionOf kind).source = .ok (l, .directory time) ∧
      p ∈ sourcesBelow t (c.sectionOf kind).source c.cache kind l := by
  unfold ofKind at h
  dsimp only at h
  split at h
  · rename_i l time hf
    exact ⟨l, time, hf, List.mem_mergeSort.mp h⟩
  · cases h

theorem ofKind_of_not_isDirectory (h : t.isDirectory (c.sectionOf kind).source = false) :
    ofKind t c kind = [] := by
  apply List.eq_nil_iff_forall_not_mem.mpr
  intro p hp
  obtain ⟨l, time, hf, _⟩ := exists_find_of_mem_ofKind hp
  rw [Tree.isDirectory, hf] at h
  cases h

/-- The sources of a direct root are the files below it, also where no directory is. -/
theorem ofKind_eq (hw : t.WellFormed) (hd : (c.sectionOf kind).source.Direct)
    (hne : (c.sectionOf kind).source.text ≠ "") :
    ofKind t c kind = (sourcesBelow t (c.sectionOf kind).source c.cache kind
      ((c.sectionOf kind).source.resolve t.home)).mergeSort Path.le := by
  by_cases hdir : t.IsDir ((c.sectionOf kind).source.resolve t.home)
  · have hl := Tree.locate_of_direct hw hd hne hdir
    obtain ⟨time, ht⟩ := hdir
    exact ofKind_of_find (Tree.find_eq_ok_iff.mpr ⟨hl, ht⟩)
  · have hnone : t.fileNames ((c.sectionOf kind).source.resolve t.home) = [] := by
      refine List.eq_nil_iff_forall_not_mem.mpr fun names hnames => ?_
      obtain ⟨hnn, hf⟩ := (Tree.mem_fileNames_iff hw.nodup).mp hnames
      obtain ⟨f, hf⟩ := Option.isSome_iff_exists.mp hf
      exact hdir (hw.isDir_of_append hnn (Tree.mem_of_get?_file (Tree.fileAt?_eq_some_iff.mp hf)))
    rw [sourcesBelow_eq, hnone, List.filterMap_nil, List.mergeSort_nil]
    refine ofKind_of_not_isDirectory (Bool.eq_false_iff.mpr fun hd => hdir ?_)
    obtain ⟨l, hl, hd⟩ := Tree.isDirectory_iff.mp hd
    rwa [(Tree.locate_eq_ok hl).1] at hd

theorem ofKind_of_empty (hne : (c.sectionOf kind).source.text = "") : ofKind t c kind = [] := by
  refine ofKind_of_not_isDirectory (Bool.eq_false_iff.mpr fun hd => ?_)
  obtain ⟨l, hl, _⟩ := Tree.isDirectory_iff.mp hd
  exact (Tree.locate_eq_ok hl).2 hne

/-- What is discovered depends only on which files stand among the sources. -/
theorem sources_congr (hw : t.WellFormed) (hw' : t'.WellFormed) (hg : t.Grows t')
    (hs : ∀ k, t.Steady (c.sectionOf k).source)
    (h : ∀ l, InSources t.home c l → (t'.fileAt? l).isSome = (t.fileAt? l).isSome) :
    sources t' c = sources t c := by
  have hkind : ofKind t' c = ofKind t c := by
    funext k
    have hbelow : (sourcesBelow t' (c.sectionOf k).source c.cache k _).mergeSort Path.le =
        (sourcesBelow t (c.sectionOf k).source c.cache k _).mergeSort Path.le :=
      mergeSort_sourcesBelow_congr hw hw' fun names => h _ ⟨k, List.prefix_append _ names⟩
    by_cases hne : (c.sectionOf k).source.text = ""
    · rw [ofKind_of_empty hne, ofKind_of_empty hne]
    rcases hs k with hd | hd
    · rw [ofKind_eq hw' hd hne, ofKind_eq hw hd hne, hg.home]
      exact hbelow
    · obtain ⟨l, hl, hdir⟩ := Tree.isDirectory_iff.mp hd
      obtain ⟨time, ht⟩ := hdir
      obtain ⟨time', ht'⟩ := hg.dirs l ⟨time, ht⟩
      have hf := Tree.find_eq_ok_iff.mpr ⟨hl, ht⟩
      have hf' := Tree.find_eq_ok_iff.mpr ⟨hg.locate hl, ht'⟩
      obtain ⟨rfl, _⟩ := Tree.locate_eq_ok hl
      rw [ofKind_of_find hf, ofKind_of_find hf']
      exact hbelow
  rw [sources, sources, hkind]

theorem exists_names_of_mem_sources (hw : t.WellFormed) (h : p ∈ sources t c) :
    ∃ kind dir stem extension, (c.sectionOf kind).source.text ≠ "" ∧ (∀ m ∈ dir, IsName m) ∧
      IsNamed stem extension ∧
      p = (c.sectionOf kind).source.join (Path.ofNames (dir ++ [named stem extension])) ∧
      Kind.ofExtension? (String.ofList extension) = some kind ∧ Kind.ofPath? p = some kind := by
  obtain ⟨kind, _, hk⟩ := List.mem_flatMap.mp h
  obtain ⟨l, time, hf, hk⟩ := exists_find_of_mem_ofKind hk
  obtain ⟨dir, stem, extension, hd, hn, hp, hext⟩ := exists_names_of_mem_sourcesBelow hw hk
  refine ⟨kind, dir, stem, extension, ?_, hd, hn, hp, hext, ?_⟩
  · exact (Tree.locate_eq_ok (Tree.find_eq_ok_iff.mp hf).1).2
  · have hall := Naming.isName_concat hd hn.isName
    rw [hp, ofPath?_join_ofNames hall, Kind.ofPath?, Path.extension?_ofNames hall, hn.splitName,
      Option.map_some, Option.bind_some, hext]

end Discovery

end AssetCompiler
