import AssetCompiler.Naming
import AssetCompiler.Proofs.Files.Resolve

/-! # Where relative links lead

A link between two absolute paths without `..` climbs out of the part of the directory that they do
not share and goes down to the target. Read from the directory it was made for, it leads to the
target; read from elsewhere, it climbs as far from there.
-/
namespace AssetCompiler

theorem Text.unite_eq_intercalate (sep : List Char) (ps : List (List Char)) :
    unite sep ps = sep.intercalate ps := by
  induction ps with
  | nil => rfl
  | cons p ps ih =>
    cases ps with
    | nil => simp [unite]
    | cons q qs => rw [unite, ih, List.intercalate_cons_cons]

namespace Path

/-- A path that leads from the root down through the given names. -/
structure Spells (p : Path) (names : List String) : Prop where
  isName : ∀ n ∈ names, IsName n
  absolute : p.isAbsolute = true
  components : p.components = .root :: names.map .name
  resolve : ∀ home, p.resolve home = names

variable {p : Path} {names : List String} {rest : List (List Char)} {piece : List Char}

theorem parts_of_isAbsolute (h : p.isAbsolute = true) : ∃ rest, p.parts = [] :: rest ∧ rest ≠ [] := by
  obtain ⟨cs, hcs⟩ := isAbsolute_iff.mp h
  refine ⟨Text.pieces '/' cs, ?_, Text.pieces_ne_nil _ _⟩
  rw [parts, hcs]
  exact Text.pieces_append_sep [] cs

theorem isAbsolute_of_parts (h : p.parts = [] :: rest) (hne : rest ≠ []) : p.isAbsolute = true := by
  obtain ⟨piece, pieces, rfl⟩ := List.exists_cons_of_ne_nil hne
  refine isAbsolute_iff.mpr ⟨Text.unite ['/'] (piece :: pieces), ?_⟩
  rw [← Text.unite_pieces '/' p.text.toList, ← parts, h, Text.unite_cons_cons]
  rfl

theorem components_of_root (h : p.parts = [] :: rest) (hne : rest ≠ []) :
    p.components = .root :: rest.filterMap (Component.ofPiece? false) := by
  rw [components_of_parts h, leadingComponent?, if_pos rfl, if_neg hne]
  rfl

theorem ofPiece?_false_name (hf : isFiller piece = false) (hup : piece ≠ ['.', '.']) :
    Component.ofPiece? false piece = some (.name (String.ofList piece)) := by
  obtain ⟨hempty, hdot⟩ : piece ≠ [] ∧ piece ≠ ['.'] := by simpa [isFiller] using hf
  rw [Component.ofPiece?, if_neg hempty, if_neg hdot, if_neg hup]

theorem isName_ofList (hflat : '/' ∉ piece) (hf : isFiller piece = false) (hup : piece ≠ ['.', '.']) :
    IsName (String.ofList piece) := by
  refine ⟨?_, ?_, ?_⟩ <;> rw [String.toList_ofList]
  · exact hflat
  · exact hf
  · exact hup

/-- Pieces of which none climbs have names, which they lead down through. -/
theorem exists_names_of_pieces (hflat : ∀ piece ∈ rest, '/' ∉ piece) (hup : ['.', '.'] ∉ rest) :
    ∃ names, (∀ n ∈ names, IsName n) ∧
      rest.filterMap (Component.ofPiece? false) = names.map Component.name ∧
      ∀ l, rest.foldl follow l = l ++ names := by
  induction rest with
  | nil => exact ⟨[], fun _ hn => (by cases hn), rfl, fun l => by simp⟩
  | cons piece rest ih =>
    have hne : piece ≠ ['.', '.'] := fun he => hup (he ▸ List.mem_cons_self)
    obtain ⟨names, hnames, hmap, hfold⟩ := ih (fun q hq => hflat q (List.mem_cons_of_mem _ hq))
      fun hmem => hup (List.mem_cons_of_mem _ hmem)
    rw [List.filterMap_cons]
    cases hf : isFiller piece with
    | true =>
      rw [ofPiece?_false_eq_none_iff.mpr hf]
      refine ⟨names, hnames, hmap, fun l => ?_⟩
      rw [List.foldl_cons, follow, if_pos hf]
      exact hfold l
    | false =>
      have hname := isName_ofList (hflat piece List.mem_cons_self) hf hne
      have hstep := follow_name hname
      rw [String.toList_ofList] at hstep
      rw [ofPiece?_false_name hf hne, hmap]
      refine ⟨String.ofList piece :: names, ?_, rfl, fun l => ?_⟩
      · exact List.forall_mem_cons.mpr ⟨hname, hnames⟩
      · rw [List.foldl_cons, hstep, hfold]
        simp

theorem exists_spells_of_parts (h : p.parts = [] :: rest) (hne : rest ≠ []) (hup : ['.', '.'] ∉ rest) :
    ∃ names, rest.filterMap (Component.ofPiece? false) = names.map Component.name ∧ p.Spells names := by
  have hflat : ∀ piece ∈ rest, '/' ∉ piece := fun piece hp =>
    Text.not_mem_of_mem_pieces (show piece ∈ p.parts from h ▸ List.mem_cons_of_mem _ hp)
  obtain ⟨names, hnames, hmap, hfold⟩ := exists_names_of_pieces hflat hup
  have habsolute := isAbsolute_of_parts h hne
  refine ⟨names, hmap, hnames, habsolute, by rw [components_of_root h hne, hmap], fun home => ?_⟩
  rw [resolve, h, if_pos habsolute, List.foldl_cons]
  exact hfold []

/-- An absolute path without `..` is a list of names. -/
theorem exists_spells (habsolute : p.isAbsolute = true) (hup : Component.up ∉ p.components) :
    ∃ names, p.Spells names := by
  obtain ⟨rest, hparts, hne⟩ := parts_of_isAbsolute habsolute
  rw [components_of_root hparts hne] at hup
  obtain ⟨names, _, h⟩ := exists_spells_of_parts hparts hne fun hmem =>
    hup (List.mem_cons_of_mem _ (List.mem_filterMap.mpr ⟨_, hmem, rfl⟩))
  exact ⟨names, h⟩

theorem filterMap_fillers (h : ∀ piece ∈ rest, isFiller piece = true) :
    rest.filterMap (Component.ofPiece? false) = [] :=
  List.filterMap_eq_nil_iff.mpr fun piece hp => ofPiece?_false_eq_none_iff.mpr (h piece hp)

/-- The pieces of names spell them out from the root. -/
theorem spells_spell (h : rest.filterMap (Component.ofPiece? false) = names.map Component.name)
    (hflat : ∀ piece ∈ rest, '/' ∉ piece) : (spell [] rest).Spells names := by
  have hup : ['.', '.'] ∉ rest := fun hmem => by
    have hmem : Component.up ∈ rest.filterMap (Component.ofPiece? false) :=
      List.mem_filterMap.mpr ⟨_, hmem, rfl⟩
    rw [h] at hmem
    simp at hmem
  by_cases hempty : rest = []
  · subst hempty
    obtain rfl : names = [] := List.map_eq_nil_iff.mp h.symm
    exact ⟨fun _ hn => (by cases hn), rfl, rfl, fun _ => rfl⟩
  · have hparts : (spell [] rest).parts = [] :: rest := by
      rw [spell, if_neg (by simpa using hempty), parts_of_text]
      exact Text.pieces_unite (by simp) (List.forall_mem_cons.mpr ⟨by simp, hflat⟩)
    obtain ⟨names', hmap, hspells⟩ := exists_spells_of_parts hparts hempty hup
    rw [h] at hmap
    rwa [Component.map_name_injective hmap]

namespace Spells

theorem join_ofNames {more : List String} (h : p.Spells names) (hne : more ≠ [])
    (hmore : ∀ n ∈ more, IsName n) : (p.join (ofNames more)).Spells (names ++ more) where
  absolute := (isAbsolute_join (isAbsolute_ofNames hmore)).trans h.absolute
  isName n hn := (List.mem_append.mp hn).elim (h.isName n) (hmore n)
  components := by rw [components_join_ofNames hne hmore, h.components]; simp
  resolve home := by rw [resolve_join_ofNames hne hmore, h.resolve]

theorem join_name {n : String} (h : p.Spells names) (hn : IsName n) :
    (p.join ⟨n⟩).Spells (names ++ [n]) := by
  have hjoin := h.join_ofNames (List.cons_ne_nil n []) (by simpa using hn)
  rwa [ofNames_singleton] at hjoin

/-- Above a name there is the directory that the other names lead to. -/
theorem parent? {n : String} (h : p.Spells (names ++ [n])) :
    ∃ q, p.parent? = some q ∧ q.Spells names := by
  obtain ⟨rest, hparts, hne⟩ := parts_of_isAbsolute h.absolute
  have hmap : rest.filterMap (Component.ofPiece? false) = (names ++ [n]).map Component.name := by
    have hcomponents := h.components
    rw [components_of_root hparts hne] at hcomponents
    exact (List.cons.inj hcomponents).2
  obtain ⟨back, hrest, hback, hlast⟩ := Text.dropEndWhile_spec isFiller rest
  obtain ⟨kept, piece, hkept⟩ : ∃ kept piece, Text.dropEndWhile isFiller rest = kept ++ [piece] := by
    refine (List.eq_nil_or_concat' _).resolve_left fun hnil => ?_
    rw [hnil, List.nil_append] at hrest
    rw [hrest, filterMap_fillers hback] at hmap
    simp at hmap
  obtain ⟨more, hmore, hfillers, _⟩ := Text.dropEndWhile_spec isFiller kept
  -- The last piece that is no filler is the name, and the pieces before it are the other names.
  have hnames : (Text.dropEndWhile isFiller kept).filterMap (Component.ofPiece? false) =
      names.map Component.name := by
    rw [hrest, hkept, List.filterMap_append, filterMap_fillers hback, List.append_nil,
      List.filterMap_append, List.map_append] at hmap
    have hlength : ([piece].filterMap (Component.ofPiece? false)).length =
        ([n].map Component.name).length := by
      obtain ⟨component, hp⟩ := exists_ofPiece? (hlast piece (by rw [hkept, List.getLast?_concat]))
      simp [hp]
    have hfront := (List.append_inj' hmap hlength).1
    rwa [hmore, List.filterMap_append, filterMap_fillers hfillers, List.append_nil] at hfront
  have hht := headTail_of_parts hparts
  have hparent : p.parent? = some (spell [] (Text.dropEndWhile isFiller kept)) := by
    unfold Path.parent?
    simp only [hht, hkept, List.append_eq_nil_iff, List.cons_ne_self, and_false, if_false,
      List.dropLast_concat]
  refine ⟨_, hparent, spells_spell hnames fun q hq => ?_⟩
  refine Text.not_mem_of_mem_pieces (show q ∈ p.parts from ?_)
  rw [hparts, hrest, hkept, hmore]
  simp [hq]

end Spells

/-! ### Links -/

theorem parts_joinComponents {cs : List Component} (hne : cs ≠ [])
    (hflat : ∀ component ∈ cs, '/' ∉ component.text.toList) :
    parts ⟨joinComponents cs⟩ = cs.map fun component => component.text.toList := by
  rw [parts, joinComponents, String.toList_intercalate, List.map_map]
  show Text.pieces '/' (['/'].intercalate (cs.map fun component => component.text.toList)) = _
  rw [← Text.unite_eq_intercalate]
  refine Text.pieces_unite (by simpa using hne) fun piece hp => ?_
  obtain ⟨component, hmem, rfl⟩ := List.mem_map.mp hp
  exact hflat component hmem

theorem foldl_follow_ups (n : Nat) (l : Location) :
    (List.replicate n ['.', '.']).foldl follow l = l.take (l.length - n) := by
  induction n generalizing l with
  | zero => simp
  | succ n ih =>
    have hup : follow l ['.', '.'] = l.dropLast := rfl
    rw [List.replicate_succ, List.foldl_cons, hup, ih, List.dropLast_eq_take, List.take_take,
      List.length_take]
    congr 1
    omega

/-- A path that climbs and then goes down through names. -/
theorem resolve_joinComponents {names : List String} (n : Nat) (h : ∀ m ∈ names, IsName m)
    (l : Location) :
    resolve l ⟨joinComponents (List.replicate n .up ++ names.map .name)⟩ =
      l.take (l.length - n) ++ names := by
  by_cases hempty : List.replicate n Component.up ++ names.map .name = []
  · obtain ⟨hn, hnames⟩ := List.append_eq_nil_iff.mp hempty
    obtain rfl := List.map_eq_nil_iff.mp hnames
    obtain rfl : n = 0 := by simpa using hn
    simp [resolve, parts, isAbsolute, joinComponents, follow, isFiller, Text.pieces]
  · have hparts : parts ⟨joinComponents (List.replicate n .up ++ names.map .name)⟩ =
        List.replicate n ['.', '.'] ++ names.map String.toList := by
      rw [parts_joinComponents hempty]
      · simp [Component.text, Function.comp_def]
      · intro component hmem
        rcases List.mem_append.mp hmem with hup | hname
        · rw [List.eq_of_mem_replicate hup]
          decide
        · obtain ⟨m, hm, rfl⟩ := List.mem_map.mp hname
          exact (h m hm).no_separator
    have hrelative : isAbsolute ⟨joinComponents (List.replicate n .up ++ names.map .name)⟩ = false := by
      refine Bool.eq_false_iff.mpr fun habsolute => ?_
      obtain ⟨rest, hrest, _⟩ := parts_of_isAbsolute habsolute
      have hmem : [] ∈ List.replicate n ['.', '.'] ++ names.map String.toList := by
        rw [← hparts, hrest]
        exact List.mem_cons_self
      rcases List.mem_append.mp hmem with hup | hname
      · exact absurd (List.eq_of_mem_replicate hup) (by decide)
      · obtain ⟨m, hm, hnil⟩ := List.mem_map.mp hname
        exact (h m hm).ne_nil hnil
    rw [resolve, hparts, hrelative, List.foldl_append, foldl_follow_ups]
    exact foldl_follow_names h _

end Path

namespace Naming

/-- A link climbs out of what its directory does not share with the target. -/
theorem linkSteps_eq (target dir : List String) : ∃ top aside down, dir = top ++ aside ∧
    target = top ++ down ∧ linkSteps (target.map .name) (dir.map .name) =
      List.replicate aside.length .up ++ down.map .name := by
  induction target generalizing dir with
  | nil => exact ⟨[], dir, [], rfl, rfl, by simp [linkSteps, sharedLength]⟩
  | cons n target ih =>
    cases dir with
    | nil => exact ⟨[], [], n :: target, rfl, rfl, by simp [linkSteps, sharedLength]⟩
    | cons m dir =>
      by_cases hmn : n = m
      · subst hmn
        obtain ⟨top, aside, down, rfl, rfl, hsteps⟩ := ih dir
        refine ⟨n :: top, aside, down, rfl, rfl, ?_⟩
        rw [← hsteps]
        simp [linkSteps, sharedLength]
      · exact ⟨[], m :: dir, n :: target, rfl, rfl, by simp [linkSteps, sharedLength, hmn]⟩

/-- Read from the directory that it was made for, a link leads to its target. -/
theorem resolve_relativeLink {target dir : Path} {names above : List String}
    (ht : target.Spells names) (hd : dir.Spells above) :
    (⟨relativeLink target dir⟩ : Path).resolve above = names := by
  obtain ⟨top, aside, down, rfl, rfl, hsteps⟩ := linkSteps_eq names above
  have hroot : relativeLink target dir =
      Path.joinComponents (List.replicate aside.length .up ++ down.map .name) := by
    rw [relativeLink, ht.components, hd.components, ← hsteps]
    simp [linkSteps, sharedLength]
  rw [hroot, Path.resolve_joinComponents _ fun n hn => ht.isName n (List.mem_append_right _ hn)]
  simp

end Naming

end AssetCompiler
