import AssetCompiler.Asset.References
import AssetCompiler.Proofs.Path.Siblings

/-! # What an include names

A reference leads to the directory above its last name, and there to that name with the mark of partials
and an extension. Both are fixed points: the mark is not put in front of itself, and a completed name has
an extension.
-/
namespace AssetCompiler

namespace Path

variable {p q : Path} {n : String} {front front' : List (List Char)}

theorem eq_of_parts (h : p.parts = q.parts) : p = q := by
  apply eq_of_text
  rw [← Text.unite_pieces '/' p.text.toList, ← Text.unite_pieces '/' q.text.toList]
  exact congrArg (Text.unite ['/']) h

/-- Fillers in front of the last name do not make another path. -/
theorem beq_of_trimmed_eq (hp : p.parts = front ++ [n.toList]) (hq : q.parts = front' ++ [n.toList])
    (h : trimmed front = trimmed front') : (p == q) = true := by
  cases front with
  | nil =>
    cases front' with
    | nil => exact beq_iff.mpr (congrArg components (eq_of_parts (hp.trans hq.symm)))
    | cons => cases h
  | cons first mid =>
    cases front' with
    | nil => cases h
    | cons first' mid' =>
      obtain ⟨rfl, hmid⟩ := List.cons.inj h
      have hfillers (rest : List (List Char)) :
          (Text.dropEndWhile isFiller rest).filterMap (Component.ofPiece? false) = _ :=
        Text.filterMap_dropEndWhile (fun _ hf => ofPiece?_false_eq_none_iff.mpr hf) rest
      rw [List.cons_append] at hp hq
      rw [beq_iff, components_of_parts hp, components_of_parts hq, List.filterMap_append,
        List.filterMap_append, ← hfillers mid, hmid, hfillers mid']
      simp [leadingComponent?]

theorem exists_parent?_getD_eq_above (p : Path) :
    ∃ front, (∀ piece ∈ front, piece ∈ p.parts) ∧ p.parent?.getD ⟨""⟩ = above front := by
  obtain ⟨first, rest, hparts⟩ := List.exists_cons_of_ne_nil p.parts_ne_nil
  by_cases hkept : Text.dropEndWhile isFiller rest = []
  · refine ⟨[], by simp, ?_⟩
    simp only [parent?, headTail_of_parts hparts, hkept, if_true]
    split_ifs <;> rfl
  · refine ⟨first :: (Text.dropEndWhile isFiller rest).dropLast, fun piece hpiece => ?_, ?_⟩
    · obtain ⟨back, hrest, _, _⟩ := Text.dropEndWhile_spec isFiller rest
      rw [hparts, hrest]
      refine (List.mem_cons.mp hpiece).elim (fun he => he ▸ List.mem_cons_self) fun hp => ?_
      exact List.mem_cons_of_mem _ (List.mem_append_left back (List.dropLast_subset _ hp))
    · simp only [parent?, headTail_of_parts hparts, hkept, if_false]
      rfl

theorem mem_of_mem_trimmed {piece : List Char} (h : piece ∈ trimmed front) : piece ∈ front := by
  cases front with
  | nil => exact h
  | cons first mid =>
    obtain ⟨back, hmid, _, _⟩ := Text.dropEndWhile_spec isFiller mid
    rcases List.mem_cons.mp h with rfl | h
    · exact List.mem_cons_self
    · exact List.mem_cons_of_mem _ (hmid ▸ List.mem_append_left back h)

theorem trimmed_names {names : List String} (h : ∀ n ∈ names, IsName n) :
    trimmed (names.map String.toList) = names.map String.toList := by
  cases names with
  | nil => rfl
  | cons n names =>
    rw [List.map_cons, trimmed, dropEndWhile_names fun m hm => h m (List.mem_cons_of_mem _ hm)]

theorem mem_text_of_fileName? {c : Char} (h : p.fileName? = some n) (hc : c ∈ n.toList) : c ∈ p.text.toList :=
  Text.mem_of_mem_pieces (mem_parts_of_name_mem (List.mem_of_getLast? (getLast?_components h))) hc

end Path

namespace Naming

open AssetCompiler.Path (ofNames trimmed)

variable {name stem extension : String} {extension? : Option String} {tail : List Char}

/-- A reference without backslashes stays in its directory, where its last name is marked and completed. -/
theorem parts_partialReference {p : Path} {front : List (List Char)} (hback : '\\' ∉ p.text.toList)
    (hn : IsName name) (h : p.parts = front ++ [name.toList]) (hpartial : IsName (partialName name extension?)) :
    (partialReference p.text extension?).parts = trimmed front ++ [(partialName name extension?).toList] := by
  have hfile : p.fileName? = some name := Path.fileName?_of_getLast? hn (by rw [h, List.getLast?_concat])
  have hpath : Path.ofString p.text = p := rfl
  rw [partialReference_eq, forwardSlashes_eq_self hback, hpath, hfile, Path.parent?_eq_above hn h,
    Option.getD_some, Option.getD_some]
  refine Path.parts_join_above hpartial fun piece hp => ?_
  exact Text.not_mem_of_mem_pieces (show piece ∈ p.parts from h ▸ List.mem_append_left _ hp)

/-- Whatever a reference is, it leads to a directory and there to a marked and completed name. -/
theorem exists_parts_partialReference (reference : String)
    (hflat : ∀ e ∈ extension?, '/' ∉ e.toList ∧ '\\' ∉ e.toList) :
    ∃ (front : List (List Char)) (name : String) (tail : List Char),
      (partialReference reference extension?).parts = trimmed front ++ [name.toList] ∧
        name.toList = partialMark :: tail ∧ '/' ∉ tail ∧ (extension? ≠ none → '.' ∈ tail) ∧
        '\\' ∉ (partialReference reference extension?).text.toList := by
  have hslashes := not_mem_forwardSlashes reference
  rw [partialReference_eq]
  generalize hpath : Path.ofString (forwardSlashes reference) = path
  have htext : path.text = forwardSlashes reference := by rw [← hpath]; rfl
  rw [← htext] at hslashes
  obtain ⟨front, hfront, habove⟩ := path.exists_parent?_getD_eq_above
  have hname {c : Char} (h : c ∈ (path.fileName?.getD "").toList) : c ≠ '/' ∧ c ≠ '\\' := by
    cases hfile : path.fileName? with
    | none => simp [hfile] at h
    | some n =>
      rw [hfile, Option.getD_some] at h
      refine ⟨?_, ?_⟩ <;> rintro rfl
      · exact Path.not_mem_of_fileName? hfile h
      · exact hslashes (Path.mem_text_of_fileName? hfile h)
  obtain ⟨tail, htail, hclean, hdot⟩ :=
    exists_partialName (fun h => (hname h).1 rfl) fun e he => (hflat e he).1
  have hback : '\\' ∉ (partialName (path.fileName?.getD "") extension?).toList :=
    not_mem_partialName (by decide) (by decide) (fun h => (hname h).2 rfl) fun e he => (hflat e he).2
  have hflatFront : ∀ piece ∈ front, '/' ∉ piece := fun piece hp =>
    Text.not_mem_of_mem_pieces (show piece ∈ path.parts from hfront piece hp)
  have hparts := Path.parts_join_above (isName_of_partialMark htail hclean) hflatFront
  rw [habove]
  refine ⟨front, _, tail, hparts, htail, hclean, hdot, fun h => ?_⟩
  rw [← Text.unite_pieces '/' (Path.text _).toList] at h
  rcases Text.mem_unite h with h | ⟨piece, hpiece, h⟩
  · exact absurd h (by decide)
  · rw [← Path.parts, hparts] at hpiece
    rcases List.mem_append.mp hpiece with hpiece | hpiece
    · exact hslashes (Text.mem_of_mem_pieces (hfront piece (Path.mem_of_mem_trimmed hpiece)) h)
    · exact hback (List.mem_singleton.mp hpiece ▸ h)

/-- The names by which an include can call the partial `_stem.extension`. -/
inductive Calls (stem extension : String) : Option String → String → Prop
  | plain (extension? : Option String) : Calls stem extension extension? (stem ++ "." ++ extension)
  | marked (extension? : Option String) : Calls stem extension extension? ("_" ++ stem ++ "." ++ extension)
  | bare : '.' ∉ stem.toList → Calls stem extension (some extension) stem
  | bareMarked : '.' ∉ stem.toList → Calls stem extension (some extension) ("_" ++ stem)

/-- A stem that a name can begin with, and that has no mark of its own. -/
structure IsUnmarked (stem : String) : Prop where
  nonempty : stem ≠ ""
  no_mark : stem.toList.head? ≠ some partialMark
  no_dot : stem.toList.head? ≠ some '.'
  no_separator : '/' ∉ stem.toList
  no_backslash : '\\' ∉ stem.toList

/-- By each of its names an include calls one partial. -/
theorem partialName_of_calls (hstem : IsUnmarked stem) (hflat : '/' ∉ extension.toList)
    (h : Calls stem extension extension? name) :
    IsName name ∧ IsName ("_" ++ stem ++ "." ++ extension) ∧
      partialName name extension? = "_" ++ stem ++ "." ++ extension := by
  obtain ⟨c, cs, hcs⟩ := List.exists_cons_of_ne_nil fun h => hstem.nonempty (String.toList_eq_nil_iff.mp h)
  have hc : c ≠ '.' := by simpa [hcs] using hstem.no_dot
  have hmem : c ∈ stem.toList := hcs ▸ List.mem_cons_self
  have hmarked : ("_" ++ stem).toList = partialMark :: stem.toList := by simp [partialMark]
  have hfull : ("_" ++ stem ++ "." ++ extension).toList =
      partialMark :: (stem.toList ++ '.' :: extension.toList) := by
    simp [partialMark]
  have hclean : '/' ∉ stem.toList ++ '.' :: extension.toList := by simp [hstem.no_separator, hflat]
  have hcomplete : completeName ("_" ++ stem ++ "." ++ extension) extension? =
      "_" ++ stem ++ "." ++ extension :=
    completeName_of_mem hfull hclean (by simp) _
  have hname : IsName ("_" ++ stem ++ "." ++ extension) := isName_of_partialMark hfull hclean
  cases h with
  | plain =>
    have hunmarked : (stem ++ "." ++ extension).toList.head? ≠ some partialMark := by
      have hmark := hstem.no_mark
      rw [hcs] at hmark
      simpa [hcs] using hmark
    refine ⟨isName_of_mem (by simpa using hclean) (by simp [hmem]) hc, hname, ?_⟩
    rw [partialName, markName_of_unmarked hunmarked, ← String.append_assoc, ← String.append_assoc, hcomplete]
  | marked =>
    refine ⟨hname, hname, ?_⟩
    rw [partialName, markName_of_marked hfull, hcomplete]
  | bare hdot =>
    refine ⟨isName_of_mem hstem.no_separator hmem hc, hname, ?_⟩
    rw [partialName, markName_of_unmarked hstem.no_mark,
      completeName_of_not_mem hmarked hstem.no_separator hdot]
  | bareMarked hdot =>
    refine ⟨isName_of_partialMark hmarked hstem.no_separator, hname, ?_⟩
    rw [partialName, markName_of_marked hmarked, completeName_of_not_mem hmarked hstem.no_separator hdot]

theorem not_mem_of_calls {c : Char} (hmark : c ≠ '_') (hdot : c ≠ '.') (hstem : c ∉ stem.toList)
    (hextension : c ∉ extension.toList) (h : Calls stem extension extension? name) : c ∉ name.toList := by
  cases h <;> simp [hmark, hdot, hstem, hextension]

theorem not_mem_join {c : Char} {dir : Path} (hc : c ≠ '/') (hdir : c ∉ dir.text.toList)
    (hname : c ∉ name.toList) :
    c ∉ (dir.join ⟨name⟩).text.toList := by
  unfold Path.join
  split_ifs <;> simp [hc, hdir, hname]

theorem partialReference_ofNames {dir : List String} (h : ∀ n ∈ dir ++ [name], IsName n)
    (hback : ∀ n ∈ dir ++ [name], '\\' ∉ n.toList) (hpartial : IsName (partialName name extension?)) :
    partialReference (ofNames (dir ++ [name])).text extension? = ofNames (dir ++ [partialName name extension?]) := by
  have hdir : ∀ n ∈ dir, IsName n := fun n hn => h n (List.mem_append_left _ hn)
  have hparts {n : String} (hn : IsName n) :
      (ofNames (dir ++ [n])).parts = dir.map String.toList ++ [n.toList] := by
    rw [Path.parts_ofNames (by simp) (isName_concat hdir hn), List.map_append]
    rfl
  have hclean : '\\' ∉ (ofNames (dir ++ [name])).text.toList := by
    intro hmem
    rw [ofNames, String.toList_ofList] at hmem
    rcases Text.mem_unite hmem with hmem | ⟨piece, hpiece, hmem⟩
    · exact absurd hmem (by decide)
    · obtain ⟨n, hn, rfl⟩ := List.mem_map.mp hpiece
      exact hback n hn hmem
  have hname : IsName name := h name (by simp)
  apply Path.eq_of_parts
  rw [parts_partialReference hclean hname (hparts hname) hpartial, Path.trimmed_names hdir, hparts hpartial]

/-- Any reference leads to a partial, which has an extension when there is one by default and which is
what its own path leads to. A partial whose name begins with one mark is what an include calls by that
name, without the mark and, where the default extension is its own, without the extension. -/
theorem partialReference_exact :
    (∀ (reference : String) (extension? : Option String),
      (∀ e ∈ extension?, '/' ∉ e.toList ∧ '\\' ∉ e.toList) →
      isPartial (partialReference reference extension?) = true ∧
      (extension? ≠ none → (partialReference reference extension?).extension? ≠ none) ∧
      partialReference (partialReference reference extension?).text extension? =
        partialReference reference extension?) ∧
    ∀ (stem extension name : String) (extension? : Option String), IsUnmarked stem →
      '/' ∉ extension.toList → '\\' ∉ extension.toList → Calls stem extension extension? name →
      (∀ dir : Path, '\\' ∉ dir.text.toList →
        (partialReference (dir.join ⟨name⟩).text extension? ==
          dir.join ⟨"_" ++ stem ++ "." ++ extension⟩) = true) ∧
      ∀ dir : List String, (∀ n ∈ dir, IsName n ∧ '\\' ∉ n.toList) →
        partialReference (ofNames (dir ++ [name])).text extension? =
          ofNames (dir ++ ["_" ++ stem ++ "." ++ extension]) ∧
        ∀ (c : Config) (kind : Kind), extension? = (if kind = .markup then some "html" else none) →
          Collection.referencePath c ⟨kind, (ofNames (dir ++ [name])).text, true⟩ =
            (c.sectionOf kind).source.join (ofNames (dir ++ ["_" ++ stem ++ "." ++ extension])) := by
  refine ⟨fun reference extension? hflat => ?_, ?_⟩
  · obtain ⟨front, name, tail, hparts, hmarked, hclean, hdot, hback⟩ :=
      exists_parts_partialReference reference hflat
    have hname := isName_of_partialMark hmarked hclean
    have hself : partialName name extension? = name := partialName_eq_self hmarked hclean hdot
    have hfile : (partialReference reference extension?).fileName? = some name :=
      Path.fileName?_of_getLast? hname (by rw [hparts, List.getLast?_concat])
    refine ⟨?_, fun hne => ?_, Path.eq_of_parts ?_⟩
    · rw [isPartial, hfile]
      simp [hmarked]
    · have hsome := (Path.isSome_splitName (show partialMark ≠ '.' by decide)).mpr (hdot hne)
      rw [Path.extension?, hfile, Option.bind_some, hmarked]
      simpa [← Option.isSome_iff_ne_none] using hsome
    · have hpartial : IsName (partialName name extension?) := by
        rw [hself]
        exact hname
      rw [parts_partialReference hback hname hparts hpartial, Path.trimmed_trimmed, hself, hparts]
  · intro stem extension name extension? hstem hflat hplain hcalls
    obtain ⟨hname, hpartial, hcalled⟩ := partialName_of_calls hstem hflat hcalls
    have hback : '\\' ∉ name.toList :=
      not_mem_of_calls (by decide) (by decide) hstem.no_backslash hplain hcalls
    rw [← hcalled] at hpartial ⊢
    refine ⟨fun dir hdir => ?_, fun dir hdir => ?_⟩
    · have hjoin {n : String} (hn : IsName n) : (dir.join ⟨n⟩).parts = dir.trail ++ [n.toList] := by
        rw [Path.parts_join (Path.isAbsolute_name hn), Path.parts_name hn]
      have hparts := parts_partialReference (not_mem_join (by decide) hdir hback) hname (hjoin hname) hpartial
      exact Path.beq_of_trimmed_eq hparts (hjoin hpartial) (Path.trimmed_trimmed _)
    · have hnames : ∀ n ∈ dir ++ [name], IsName n := isName_concat (fun n hn => (hdir n hn).1) hname
      have hclean : ∀ n ∈ dir ++ [name], '\\' ∉ n.toList := by
        intro n hn
        rcases List.mem_append.mp hn with hn | hn
        · exact (hdir n hn).2
        · exact List.mem_singleton.mp hn ▸ hback
      have hreference := partialReference_ofNames hnames hclean hpartial
      refine ⟨hreference, fun c kind hkind => ?_⟩
      rw [Collection.referencePath, ← hkind, hreference]
      rfl

theorem partialReference_exact_nav :
    partialReference "blocks\\.." (some "html") = ⟨"blocks/_.html"⟩ ∧
      isPartial (partialReference "blocks\\.." (some "html")) = true ∧
      partialReference "blocks/_.html" (some "html") = ⟨"blocks/_.html"⟩ ∧
      (partialReference "./blocks//nav" (some "html") == ⟨"./blocks//_nav.html"⟩) = true ∧
      Collection.referencePath {} ⟨.markup, "blocks/nav", true⟩ = ⟨"html/blocks/_nav.html"⟩ := by
  obtain ⟨hany, hcalls⟩ := partialReference_exact
  have hextension : ∀ e ∈ some "html", '/' ∉ e.toList ∧ '\\' ∉ e.toList := by decide
  obtain ⟨hpartial, _, hself⟩ := hany "blocks\\.." (some "html") hextension
  have hnav : IsUnmarked "nav" := by
    constructor <;> decide
  obtain ⟨hspelled, hnames⟩ :=
    hcalls "nav" "html" "nav" (some "html") hnav (by decide) (by decide) (.bare (by decide))
  have hup : partialReference "blocks\\.." (some "html") = ⟨"blocks/_.html"⟩ := by decide +kernel
  rw [hup] at hself
  refine ⟨hup, hpartial, hself, ?_, ?_⟩
  · exact hspelled ⟨"./blocks//"⟩ (by decide)
  · obtain ⟨_, hbelow⟩ := hnames ["blocks"] (by decide)
    exact (hbelow {} .markup rfl).trans (by decide +kernel)

end Naming

end AssetCompiler
