import AssetCompiler.Proofs.Discovery

/-! # Where sources stand

Names lead on from the root of a kind through the directories below it. So a source is the file
that its names lead to, and a file is a source when its root leads to a directory and the walk from
there comes to it.
-/
namespace AssetCompiler

namespace Tree

variable {t : Tree} {root : Path} {names : List String} {l m : Location}

/-- Names can be followed from a location when each but the last leads to a directory. -/
theorem foldlM_step_names (hn : ∀ n ∈ names, IsName n) :
    (names.map String.toList).foldlM t.step l = .ok m ↔
      (∀ front n back, names = front ++ n :: back → t.IsDir (l ++ front)) ∧ m = l ++ names := by
  induction names generalizing l with
  | nil =>
    constructor
    · intro h
      cases h
      exact ⟨fun front n back he => (by simp at he), (List.append_nil _).symm⟩
    · rintro ⟨_, rfl⟩
      rw [List.append_nil]
      rfl
  | cons n ns ih =>
    have hname := hn n List.mem_cons_self
    have hrest : ∀ n ∈ ns, IsName n := fun k hk => hn k (List.mem_cons_of_mem _ hk)
    rw [List.map_cons, List.foldlM_cons]
    constructor
    · intro h
      cases hs : t.step l n.toList with
      | error e =>
        rw [hs] at h
        cases h
      | ok k =>
        rw [hs] at h
        obtain ⟨hd, rfl⟩ := step_eq_ok_iff.mp hs
        rw [Path.follow_name hname] at h
        obtain ⟨hdirs, rfl⟩ := (ih hrest).mp h
        refine ⟨fun front p back he => ?_, by simp⟩
        cases front with
        | nil => simpa using hd
        | cons q qs =>
          obtain ⟨rfl, hns⟩ := List.cons.inj (he.trans (List.cons_append ..))
          simpa using hdirs qs p back hns
    · rintro ⟨hdirs, rfl⟩
      have hd : t.IsDir l := by simpa using hdirs [] n ns rfl
      rw [step_name hd hname]
      refine (ih hrest).mpr ⟨fun front p back he => ?_, by simp⟩
      simpa using hdirs (n :: front) p back (by rw [he]; rfl)

/-- A directory is where the pieces of its path lead, with or without a separator at the end. -/
theorem foldlM_trail {p : Path} {k : Location} (hd : t.IsDir l) :
    p.trail.foldlM t.step k = .ok l ↔ p.parts.foldlM t.step k = .ok l := by
  rcases Path.parts_eq_trail p with h | h
  · rw [h]
  · rw [h, List.foldlM_append]
    constructor
    · intro hl
      rw [hl]
      exact foldlM_step_fillers hd (by simp)
    · intro hl
      cases hw : p.trail.foldlM t.step k with
      | error e =>
        rw [hw] at hl
        cases hl
      | ok j =>
        rw [hw] at hl
        exact (foldlM_step_eq_ok hl).symm ▸ rfl

theorem locate_join_ofNames (h0 : root.text ≠ "") (hne : names ≠ []) (hn : ∀ n ∈ names, IsName n) :
    t.locate (root.join (Path.ofNames names)) = .ok m ↔ ∃ l, t.locate root = .ok l ∧
      (∀ front n back, names = front ++ n :: back → t.IsDir (l ++ front)) ∧ m = l ++ names := by
  have hrel := Path.isAbsolute_ofNames hn
  have hstart : t.start (root.join (Path.ofNames names)) = t.start root := by
    unfold start
    rw [Path.isAbsolute_join hrel]
  have hdir {k : Location}
      (hdirs : ∀ front n back, names = front ++ n :: back → t.IsDir (k ++ front)) : t.IsDir k := by
    obtain ⟨n, ns, rfl⟩ := List.exists_cons_of_ne_nil hne
    simpa using hdirs [] n ns rfl
  unfold locate
  rw [if_neg (Path.text_join_ne_empty (Path.text_ofNames_ne_empty hne hn)), if_neg h0, hstart,
    ← Path.parts, ← Path.parts, Path.parts_join hrel, Path.parts_ofNames hne hn, List.foldlM_append]
  constructor
  · intro h
    cases hw : root.trail.foldlM t.step (t.start root) with
    | error e =>
      rw [hw] at h
      cases h
    | ok k =>
      rw [hw] at h
      obtain ⟨hdirs, rfl⟩ := (foldlM_step_names hn).mp h
      exact ⟨k, (foldlM_trail (hdir hdirs)).mp hw, hdirs, rfl⟩
  · rintro ⟨l, hl, hdirs, rfl⟩
    rw [(foldlM_trail (hdir hdirs)).mpr hl]
    exact (foldlM_step_names hn).mpr ⟨hdirs, rfl⟩

/-- A file below a directory is where its names lead from there. -/
theorem file_join_ofNames (hw : t.WellFormed) {f : File} (h0 : root.text ≠ "") (hne : names ≠ [])
    (hn : ∀ n ∈ names, IsName n) : t.file (root.join (Path.ofNames names)) = .ok f ↔
      ∃ l, t.locate root = .ok l ∧ t.IsDir l ∧ t.fileAt? (l ++ names) = some f := by
  rw [file_eq_ok_iff]
  constructor
  · rintro ⟨m, hm, hat⟩
    obtain ⟨l, hl, hdirs, rfl⟩ := (locate_join_ofNames h0 hne hn).mp hm
    obtain ⟨n, ns, rfl⟩ := List.exists_cons_of_ne_nil hne
    exact ⟨l, hl, by simpa using hdirs [] n ns rfl, hat⟩
  · rintro ⟨l, hl, _, hat⟩
    refine ⟨l ++ names, (locate_join_ofNames h0 hne hn).mpr ⟨l, hl, ?_, rfl⟩, hat⟩
    rintro front n back rfl
    refine hw.isDir_of_append (List.cons_ne_nil n back) ?_
    rw [List.append_assoc]
    exact mem_of_get?_file (fileAt?_eq_some_iff.mp hat)

end Tree

namespace Discovery

variable {t : Tree} {c : Config} {kind : Kind} {p : Path}

/-- A path that the walk through the sources of a kind lists where there is a file. -/
structure Listed (c : Config) (kind : Kind) (names : List String) (p : Path) : Prop where
  root_ne : (c.sectionOf kind).source.text ≠ ""
  ne_nil : names ≠ []
  isNames : ∀ n ∈ names, IsName n
  source : sourceOf? (c.sectionOf kind).source c.cache kind names = some p

namespace Listed

variable {names : List String}

theorem eq_join (h : Listed c kind names p) :
    p = (c.sectionOf kind).source.join (Path.ofNames names) := by
  have hs := h.source
  unfold sourceOf? at hs
  rw [Path.pathBelow_eq h.ne_nil h.isNames] at hs
  split at hs
  · exact (Option.some.inj hs).symm
  · cases hs

theorem isReached (h : Listed c kind names p) :
    isReached (c.sectionOf kind).source c.cache names = true := by
  have hs := h.source
  unfold sourceOf? at hs
  split at hs
  · rename_i hr
    exact (Bool.and_eq_true_iff.mp hr).1
  · cases hs

theorem ofPath? (h : Listed c kind names p) : Kind.ofPath? p = some kind := by
  have hs := h.source
  unfold sourceOf? at hs
  split at hs
  · rename_i hr
    rw [← Option.some.inj hs]
    simpa using (Bool.and_eq_true_iff.mp hr).2
  · cases hs

theorem resolve_eq (h : Listed c kind names p) (home : Location) :
    p.resolve home = (c.sectionOf kind).source.resolve home ++ names := by
  rw [h.eq_join, Path.resolve_join_ofNames h.ne_nil h.isNames]

end Listed

/-- A source is a file that the walk through the sources of its kind lists. -/
theorem exists_listed_of_mem_sources (hw : t.WellFormed) (h : p ∈ sources t c) :
    ∃ kind names f, Listed c kind names p ∧ t.file p = .ok f := by
  obtain ⟨kind, _, hk⟩ := List.mem_flatMap.mp h
  obtain ⟨l, time, hf, hk⟩ := exists_find_of_mem_ofKind hk
  obtain ⟨hl, htime⟩ := Tree.find_eq_ok_iff.mp hf
  rw [sourcesBelow_eq, List.mem_filterMap] at hk
  obtain ⟨names, hnames, hsource⟩ := hk
  obtain ⟨hne, hall⟩ := hw.names_of_mem_fileNames hnames
  obtain ⟨f, hat⟩ := Option.isSome_iff_exists.mp ((Tree.mem_fileNames_iff hw.nodup).mp hnames).2
  have hlisted : Listed c kind names p := ⟨(Tree.locate_eq_ok hl).2, hne, hall, hsource⟩
  refine ⟨kind, names, f, hlisted, ?_⟩
  rw [hlisted.eq_join]
  exact (Tree.file_join_ofNames hw hlisted.root_ne hne hall).mpr ⟨l, hl, ⟨time, htime⟩, hat⟩

/-- A file that the walk through the sources of a kind lists is a source. -/
theorem mem_sources_of_listed (hw : t.WellFormed) {names : List String} (h : Listed c kind names p)
    (hf : t.isFile p = true) : p ∈ sources t c := by
  obtain ⟨f, hf⟩ := Tree.isFile_iff.mp hf
  rw [h.eq_join] at hf
  obtain ⟨l, hl, ⟨time, htime⟩, hat⟩ := (Tree.file_join_ofNames hw h.root_ne h.ne_nil h.isNames).mp hf
  refine List.mem_flatMap.mpr ⟨kind, by cases kind <;> decide, ?_⟩
  rw [ofKind_of_find (Tree.find_eq_ok_iff.mpr ⟨hl, htime⟩), List.mem_mergeSort, sourcesBelow_eq,
    List.mem_filterMap]
  refine ⟨names, (Tree.mem_fileNames_iff hw.nodup).mpr ⟨h.ne_nil, ?_⟩, h.source⟩
  rw [hat]
  rfl

end Discovery

end AssetCompiler
