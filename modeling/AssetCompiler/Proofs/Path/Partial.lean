import AssetCompiler.Proofs.Path.Decoration

/-! # References to partials

Whatever an include writes, the path that is looked up has a file name that begins with the mark of
partials.
-/
namespace AssetCompiler

namespace Path

variable {p q : Path} {n : String}

theorem fileName?_congr (h : (p == q) = true) : p.fileName? = q.fileName? := by
  simp only [fileName?, beq_iff.mp h]

theorem ofPiece?_eq_name {leading : Bool} {piece : List Char}
    (h : Component.ofPiece? leading piece = some (.name n)) : piece = n.toList := by
  unfold Component.ofPiece? at h
  split_ifs at h <;> cases h
  exact String.toList_ofList.symm

/-- The names of a path are pieces of it. -/
theorem mem_parts_of_name_mem (h : .name n ∈ p.components) : n.toList ∈ p.parts := by
  obtain ⟨first, rest, hparts⟩ := List.exists_cons_of_ne_nil p.parts_ne_nil
  rw [components_of_parts hparts, List.mem_append, Option.mem_toList, List.mem_filterMap] at h
  rw [hparts]
  rcases h with h | ⟨piece, hmem, hpiece⟩
  · unfold leadingComponent? at h
    split_ifs at h
    · cases h
    · exact ofPiece?_eq_name h ▸ List.mem_cons_self
  · exact ofPiece?_eq_name hpiece ▸ List.mem_cons_of_mem _ hmem

theorem not_mem_of_fileName? (h : p.fileName? = some n) : '/' ∉ n.toList := by
  unfold fileName? at h
  split at h
  · rename_i hlast
    cases h
    exact Text.not_mem_of_mem_pieces (mem_parts_of_name_mem (List.mem_of_getLast? hlast))
  · cases h

end Path

namespace Naming

variable {name : String} {extension? : Option String} {tail : List Char}

theorem isPartial_congr {p q : Path} (h : (p == q) = true) : isPartial p = isPartial q := by
  simp only [isPartial, Path.fileName?_congr h]

theorem exists_markName (name : String) :
    ∃ tail, (markName name).toList = partialMark :: tail ∧ ('/' ∉ name.toList → '/' ∉ tail) := by
  unfold markName
  split
  · rename_i h
    obtain ⟨tail, htail⟩ := List.head?_eq_some_iff.mp (eq_of_beq h)
    exact ⟨tail, htail, fun hflat hmem => hflat (htail ▸ List.mem_cons_of_mem _ hmem)⟩
  · exact ⟨name.toList, String.toList_ofList, id⟩

theorem isName_of_partialMark (h : name.toList = partialMark :: tail)
    (hflat : '/' ∉ tail) : IsName name where
  no_separator := by
    rw [h, List.mem_cons, not_or]
    exact ⟨by decide, hflat⟩
  not_filler := by simp [Path.isFiller, h, partialMark]
  not_up := by simp [h, partialMark]

theorem toList_forwardSlashes (s : String) :
    (forwardSlashes s).toList = s.toList.map fun c => if c = '\\' then '/' else c :=
  String.toList_ofList

theorem not_mem_forwardSlashes (s : String) : '\\' ∉ (forwardSlashes s).toList := by
  rw [toList_forwardSlashes]
  intro h
  obtain ⟨c, _, hc⟩ := List.mem_map.mp h
  split_ifs at hc with hback
  · exact absurd hc (by decide)
  · exact hback hc

theorem forwardSlashes_eq_self {s : String} (h : '\\' ∉ s.toList) : forwardSlashes s = s := by
  apply String.toList_inj.mp
  rw [toList_forwardSlashes]
  refine (List.map_congr_left fun c hc => if_neg ?_).trans (List.map_id _)
  rintro rfl
  exact h hc

/-! ### The last name -/

theorem markName_of_marked (h : name.toList = partialMark :: tail) : markName name = name := by
  rw [markName, h]
  rfl

theorem markName_of_unmarked (h : name.toList.head? ≠ some partialMark) : markName name = "_" ++ name := by
  rw [markName, if_neg (by simpa using h)]
  apply String.toList_inj.mp
  simp [partialMark]

section
variable (h : name.toList = partialMark :: tail) (hflat : '/' ∉ tail)
include h hflat

theorem isNone_extension?_of_marked : (Path.ofString name).extension?.isNone = true ↔ '.' ∉ tail := by
  have hone : ∀ m ∈ [] ++ [name], IsName m := by simpa using isName_of_partialMark h hflat
  have hextension := Path.extension?_ofNames hone
  rw [List.nil_append, Path.ofNames_singleton, h] at hextension
  rw [← Path.isSome_splitName (show partialMark ≠ '.' by decide), Path.ofString, hextension,
    Option.isNone_iff_eq_none, Option.map_eq_none_iff]
  simp

theorem completeName_of_mem (hdot : '.' ∈ tail) (extension? : Option String) :
    completeName name extension? = name := by
  cases extension? with
  | none => rfl
  | some e => rw [completeName, if_neg fun hnone => (isNone_extension?_of_marked h hflat).mp hnone hdot]

theorem completeName_of_not_mem (hdot : '.' ∉ tail) (e : String) :
    completeName name (some e) = name ++ "." ++ e := by
  rw [completeName, if_pos ((isNone_extension?_of_marked h hflat).mpr hdot)]

end

/-- The file name that the last name of a reference stands for. -/
def partialName (name : String) (extension? : Option String) : String :=
  completeName (markName name) extension?

theorem exists_partialName (hname : '/' ∉ name.toList) (hflat : ∀ e ∈ extension?, '/' ∉ e.toList) :
    ∃ tail, (partialName name extension?).toList = partialMark :: tail ∧ '/' ∉ tail ∧
      (extension? ≠ none → '.' ∈ tail) := by
  obtain ⟨tail, hmark, htail⟩ := exists_markName name
  cases extension? with
  | none => exact ⟨tail, hmark, htail hname, fun hne => absurd rfl hne⟩
  | some e =>
    by_cases hdot : '.' ∈ tail
    · rw [partialName, completeName_of_mem hmark (htail hname) hdot]
      exact ⟨tail, hmark, htail hname, fun _ => hdot⟩
    · refine ⟨tail ++ '.' :: e.toList, ?_, ?_, fun _ => by simp⟩
      · simp [partialName, completeName_of_not_mem hmark (htail hname) hdot, hmark]
      · simp [htail hname, hflat e rfl]

theorem not_mem_partialName {c : Char} (hmark : c ≠ partialMark) (hdot : c ≠ '.') (hname : c ∉ name.toList)
    (he : ∀ e ∈ extension?, c ∉ e.toList) : c ∉ (partialName name extension?).toList := by
  have hmarked : c ∉ (markName name).toList := by
    unfold markName
    split
    · exact hname
    · simp [hmark, hname]
  cases extension? with
  | none => exact hmarked
  | some e =>
    rw [partialName, completeName]
    split
    · simp [hmarked, hdot, he e rfl]
    · exact hmarked

/-- A name that has the mark and an extension, when one is wanted, stands for itself. -/
theorem partialName_eq_self (h : name.toList = partialMark :: tail) (hflat : '/' ∉ tail)
    (hdot : extension? ≠ none → '.' ∈ tail) : partialName name extension? = name := by
  rw [partialName, markName_of_marked h]
  cases extension? with
  | none => rfl
  | some e => exact completeName_of_mem h hflat (hdot (by simp)) _

/-! ### The path -/

theorem partialReference_eq (reference : String) (extension? : Option String) :
    partialReference reference extension? =
      ((Path.ofString (forwardSlashes reference)).parent?.getD ⟨""⟩).join
        ⟨partialName ((Path.ofString (forwardSlashes reference)).fileName?.getD "") extension?⟩ := by
  unfold partialReference partialName
  dsimp only
  split
  · rename_i dir hdir
    split
    · rename_i hempty
      rw [hdir, Option.getD_some, Path.join_of_empty (by simpa using hempty)]
    · rw [hdir, Option.getD_some]
  · rename_i hdir
    rw [hdir, Option.getD_none, Path.join_of_empty rfl]

/-- A reference comes to a path that ends in a marked name, whatever stands in front of it. -/
theorem exists_name_partialReference (reference : String) (hflat : ∀ e ∈ extension?, '/' ∉ e.toList) :
    ∃ (name : String) (tail : List Char), name.toList = partialMark :: tail ∧ IsName name ∧
      (partialReference reference extension?).parts.getLast? = some name.toList := by
  rw [partialReference_eq]
  generalize Path.ofString (forwardSlashes reference) = path
  have hname : '/' ∉ (path.fileName?.getD "").toList := by
    cases h : path.fileName? with
    | none => simp
    | some n => exact Path.not_mem_of_fileName? h
  obtain ⟨tail, htail, hclean, _⟩ := exists_partialName hname hflat
  have hisname := isName_of_partialMark htail hclean
  refine ⟨_, tail, htail, hisname, (Path.getLast?_parts_join ..).trans ?_⟩
  rw [Path.parts_name hisname, List.getLast?_singleton]

/-- The path that an include is looked up by is that of a partial. -/
theorem isPartial_join_partialReference (root : Path) (reference : String)
    (hflat : ∀ e ∈ extension?, '/' ∉ e.toList) :
    isPartial (root.join (partialReference reference extension?)) = true := by
  obtain ⟨name, tail, hmarked, hname, hlast⟩ := exists_name_partialReference reference hflat
  have hfile := Path.fileName?_of_getLast? hname ((Path.getLast?_parts_join root _).trans hlast)
  rw [isPartial, hfile]
  simp [hmarked]

end Naming

end AssetCompiler
