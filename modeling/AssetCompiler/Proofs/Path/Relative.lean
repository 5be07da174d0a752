import AssetCompiler.Proofs.Path.Links

/-! # Relative links, read from their directories

A path is read from a directory without looking at files: a name leads down, `..` leads back up. A
relative link made for a directory leads to its target, and every other relative path that does
climbs at least as often, since each climb gives up no more than one component of the directory.
-/
namespace AssetCompiler

namespace Component

/-- One step from where a path has led so far. Above the root there is nothing. -/
def walk (place : List Component) : Component → List Component
  | root => [root]
  | here => place
  | up =>
    match place.getLast? with
    | some (name _) => place.dropLast
    | some root => place
    | _ => place ++ [up]
  | name n => place ++ [name n]

theorem foldl_walk_names (place : List Component) (names : List String) :
    (names.map name).foldl walk place = place ++ names.map name := by
  induction names generalizing place with
  | nil => simp
  | cons n ns ih =>
    have hstep : walk place (name n) = place ++ [name n] := rfl
    rw [List.map_cons, List.foldl_cons, hstep, ih, List.append_assoc, List.singleton_append]

/-- Climbing as often as there are names leads back to where they began. -/
theorem foldl_walk_ups (place : List Component) (names : List String) :
    (List.replicate names.length up).foldl walk (place ++ names.map name) = place := by
  induction names using List.reverseRecOn with
  | nil => simp
  | append_singleton ns n ih =>
    have hstep : walk (place ++ (ns ++ [n]).map name) up = place ++ ns.map name := by
      rw [List.map_append, ← List.append_assoc]
      simp [walk]
    rw [List.length_append, List.length_singleton, List.replicate_succ, List.foldl_cons, hstep, ih]

variable {dir place cs : List Component} {k : Nat}

/-- A step of a relative path keeps the front of the directory, but for one component when it climbs. -/
theorem take_prefix_walk {c : Component} (hc : c ≠ root) (hk : k ≤ dir.length)
    (h : dir.take k <+: place) : dir.take (k - [c].count up) <+: walk place c := by
  have hshorter : dir.take (k - 1) <+: place :=
    (List.take_prefix_take_left (Nat.sub_le k 1)).trans h
  cases c with
  | root => exact absurd rfl hc
  | here => exact h
  | name n => exact h.trans (List.prefix_append _ _)
  | up =>
    show dir.take (k - 1) <+: walk place up
    simp only [walk]
    split
    · refine List.prefix_of_prefix_length_le hshorter (List.dropLast_prefix place) ?_
      have hlength := h.length_le
      simp only [List.length_take, List.length_dropLast] at hlength ⊢
      omega
    · exact hshorter
    · exact hshorter.trans (List.prefix_append _ _)

/-- Along a relative path, each climb gives up no more than one component of the directory. -/
theorem take_prefix_foldl_walk (hcs : root ∉ cs) (hk : k ≤ dir.length) (h : dir.take k <+: place) :
    dir.take (k - cs.count up) <+: cs.foldl walk place := by
  induction cs generalizing k place with
  | nil => exact h
  | cons c cs ih =>
    have hstep := take_prefix_walk (fun hc => hcs (hc ▸ List.mem_cons_self)) hk h
    have hrest := ih (fun hmem => hcs (List.mem_cons_of_mem _ hmem)) (by omega) hstep
    rwa [Nat.sub_sub, ← List.count_append, List.singleton_append] at hrest

end Component

namespace Path

/-- Where a path leads from a directory, read without looking at files. -/
def readFrom (dir p : Path) : List Component := p.components.foldl Component.walk dir.components

/-- Paths that consist of names, behind the root when they are absolute. -/
def IsPlain (p : Path) : Prop := Component.here ∉ p.components ∧ Component.up ∉ p.components

instance (p : Path) : Decidable p.IsPlain := instDecidableAnd

/-- What an absolute path begins with. -/
def rootOf (p : Path) : List Component := if p.isAbsolute then [.root] else []

variable {p : Path}

theorem root_not_mem_components (h : p.isAbsolute = false) : Component.root ∉ p.components := by
  have hpiece (leading : Bool) (piece : List Char) : Component.ofPiece? leading piece ≠ some .root := by
    unfold Component.ofPiece?
    split_ifs <;> simp
  obtain ⟨first, rest, hparts⟩ := List.exists_cons_of_ne_nil p.parts_ne_nil
  rw [components_of_parts hparts, List.mem_append, Option.mem_toList, List.mem_filterMap]
  rintro (hlead | ⟨piece, _, hroot⟩)
  · unfold leadingComponent? at hlead
    split_ifs at hlead with hfirst hrest
    · rw [hfirst] at hparts
      rw [isAbsolute_of_parts hparts hrest] at h
      cases h
    · exact hpiece _ _ hlead
  · exact hpiece _ _ hroot

theorem isAbsolute_of_root_not_mem (h : Component.root ∉ p.components) : p.isAbsolute = false := by
  refine Bool.eq_false_iff.mpr fun habsolute => h ?_
  obtain ⟨rest, hparts, hne⟩ := parts_of_isAbsolute habsolute
  rw [components_of_root hparts hne]
  exact List.mem_cons_self

/-- A plain path is a list of names, behind the root when it is absolute. -/
theorem IsPlain.exists_names (h : p.IsPlain) :
    ∃ names : List String, (∀ n ∈ names, IsName n) ∧ p.components = p.rootOf ++ names.map .name := by
  cases habsolute : p.isAbsolute with
  | true =>
    obtain ⟨names, hspells⟩ := exists_spells habsolute h.2
    exact ⟨names, hspells.isName, by rw [hspells.components, rootOf, if_pos habsolute]; rfl⟩
  | false =>
    obtain ⟨first, rest, hparts⟩ := List.exists_cons_of_ne_nil p.parts_ne_nil
    have hcomponents := components_of_parts hparts
    rw [rootOf, habsolute]
    by_cases hfirst : first = []
    · have hrest : rest = [] := by
        by_contra hne
        rw [hfirst] at hparts
        rw [isAbsolute_of_parts hparts hne] at habsolute
        cases habsolute
      exact ⟨[], fun _ hn => (by cases hn), by rw [hcomponents, hfirst, hrest]; rfl⟩
    · have hlead : leadingComponent? first rest = Component.ofPiece? true first := if_neg hfirst
      rw [hlead] at hcomponents
      have hmem {c : Component} (hc : Component.ofPiece? true first = some c) : c ∈ p.components := by
        rw [hcomponents, hc]
        exact List.mem_cons_self
      have hdot : first ≠ ['.'] := fun he => h.1 (hmem (by rw [he]; rfl))
      have hup : first ≠ ['.', '.'] := fun he => h.2 (hmem (by rw [he]; rfl))
      have hflat {piece : List Char} (hpiece : piece ∈ p.parts) : '/' ∉ piece :=
        Text.not_mem_of_mem_pieces hpiece
      have hname : IsName (String.ofList first) :=
        isName_ofList (hflat (hparts ▸ List.mem_cons_self)) (by simp [isFiller, hfirst, hdot]) hup
      obtain ⟨names, hnames, hmap, _⟩ := exists_names_of_pieces
        (fun piece hpiece => hflat (hparts ▸ List.mem_cons_of_mem _ hpiece)) fun hclimb => h.2 (by
          rw [hcomponents]
          exact List.mem_append_right _ (List.mem_filterMap.mpr ⟨_, hclimb, rfl⟩))
      have hfirst' := hname.ofPiece? true
      rw [String.toList_ofList] at hfirst'
      refine ⟨String.ofList first :: names, List.forall_mem_cons.mpr ⟨hname, hnames⟩, ?_⟩
      rw [hcomponents, hfirst', hmap]
      rfl

/-- Climbs and names, written with separators between them, are the components of what is written. -/
theorem components_joinComponents {cs : List Component}
    (h : ∀ c ∈ cs, c = .up ∨ ∃ n, c = .name n ∧ IsName n) :
    (⟨joinComponents cs⟩ : Path).components = cs := by
  have hpiece : ∀ c ∈ cs, c.text.toList ≠ [] ∧ '/' ∉ c.text.toList ∧
      ∀ leading, Component.ofPiece? leading c.text.toList = some c := by
    intro c hc
    rcases h c hc with rfl | ⟨n, rfl, hn⟩
    · exact ⟨by decide, by decide, fun leading => rfl⟩
    · exact ⟨hn.ne_nil, hn.no_separator, hn.ofPiece?⟩
  cases cs with
  | nil => exact components_of_empty rfl
  | cons c cs =>
    obtain ⟨hne, _, hc⟩ := hpiece c List.mem_cons_self
    have hparts := parts_joinComponents (List.cons_ne_nil c cs) fun d hd => (hpiece d hd).2.1
    have hrest : (cs.map fun d => d.text.toList).filterMap (Component.ofPiece? false) = cs := by
      rw [List.filterMap_map, List.filterMap_congr (g := some)]
      · exact List.filterMap_some
      · exact fun d hd => (hpiece d (List.mem_cons_of_mem _ hd)).2.2 false
    rw [components_of_parts hparts, leadingComponent?, if_neg hne, hc, hrest]
    rfl

end Path

namespace Naming

variable {target dir : Path}

theorem length_le_sharedLength {front as bs : List Component} (ha : front <+: as) (hb : front <+: bs) :
    front.length ≤ sharedLength as bs := by
  induction front generalizing as bs with
  | nil => exact Nat.zero_le _
  | cons c front ih =>
    obtain ⟨as', rfl⟩ := ha
    obtain ⟨bs', rfl⟩ := hb
    have hrest := ih (List.prefix_append front as') (List.prefix_append front bs')
    simpa [sharedLength] using hrest

theorem sharedLength_append (front as bs : List Component) :
    sharedLength (front ++ as) (front ++ bs) = front.length + sharedLength as bs := by
  induction front with
  | nil => simp
  | cons c front ih =>
    simp only [List.cons_append, sharedLength, if_true, ih, List.length_cons]
    omega

theorem linkSteps_append (front as bs : List Component) :
    linkSteps (front ++ as) (front ++ bs) = linkSteps as bs := by
  simp only [linkSteps, sharedLength_append, List.length_append, List.drop_append]
  simp [Nat.add_sub_add_left]

/-- The components of a link between plain paths: climbs out of what the directory does not share with
the target, and the names that remain of the target. -/
theorem exists_components_relativeLink (ht : target.IsPlain) (hd : dir.IsPlain)
    (h : target.isAbsolute = dir.isAbsolute) : ∃ top aside down : List String,
      dir.components = dir.rootOf ++ (top ++ aside).map .name ∧
      target.components = dir.rootOf ++ (top ++ down).map .name ∧
      (⟨relativeLink target dir⟩ : Path).components = linkSteps target.components dir.components ∧
      linkSteps target.components dir.components =
        List.replicate aside.length .up ++ down.map .name := by
  obtain ⟨names, hnames, htarget⟩ := ht.exists_names
  obtain ⟨above, _, hdir⟩ := hd.exists_names
  have hroot : target.rootOf = dir.rootOf := by rw [Path.rootOf, Path.rootOf, h]
  rw [hroot] at htarget
  obtain ⟨top, aside, down, rfl, rfl, hsteps⟩ := linkSteps_eq names above
  have hall : linkSteps target.components dir.components =
      List.replicate aside.length .up ++ down.map .name := by
    rw [htarget, hdir, linkSteps_append, hsteps]
  refine ⟨top, aside, down, hdir, htarget, ?_, hall⟩
  rw [relativeLink]
  apply Path.components_joinComponents
  intro c hc
  rw [hall] at hc
  rcases List.mem_append.mp hc with hup | hname
  · exact .inl (List.eq_of_mem_replicate hup)
  · obtain ⟨n, hn, rfl⟩ := List.mem_map.mp hname
    exact .inr ⟨n, rfl, hnames n (List.mem_append_right _ hn)⟩

theorem isAbsolute_relativeLink (ht : target.IsPlain) (hd : dir.IsPlain)
    (h : target.isAbsolute = dir.isAbsolute) : (⟨relativeLink target dir⟩ : Path).isAbsolute = false := by
  obtain ⟨top, aside, down, _, _, hlink, hsteps⟩ := exists_components_relativeLink ht hd h
  refine Path.isAbsolute_of_root_not_mem ?_
  rw [hlink, hsteps]
  simp

theorem readFrom_relativeLink (ht : target.IsPlain) (hd : dir.IsPlain)
    (h : target.isAbsolute = dir.isAbsolute) :
    dir.readFrom ⟨relativeLink target dir⟩ = target.components := by
  obtain ⟨top, aside, down, hdir, htarget, hlink, hsteps⟩ := exists_components_relativeLink ht hd h
  rw [Path.readFrom, hlink, hsteps, hdir, htarget, List.foldl_append, List.map_append,
    ← List.append_assoc, Component.foldl_walk_ups, Component.foldl_walk_names, List.map_append,
    List.append_assoc]

/-- No relative path that leads from the directory to the target climbs less often than the link. -/
theorem count_up_relativeLink_le (ht : target.IsPlain) (hd : dir.IsPlain)
    (h : target.isAbsolute = dir.isAbsolute) {other : Path} (hrelative : other.isAbsolute = false)
    (hother : dir.readFrom other = target.components) :
    (⟨relativeLink target dir⟩ : Path).components.count .up ≤ other.components.count .up := by
  obtain ⟨top, aside, down, _, _, hlink, _⟩ := exists_components_relativeLink ht hd h
  have hcount : (⟨relativeLink target dir⟩ : Path).components.count .up =
      dir.components.length - sharedLength target.components dir.components := by
    have hdown : (target.components.drop (sharedLength target.components dir.components)).count .up = 0 :=
      List.count_eq_zero.mpr fun hmem => ht.2 (List.mem_of_mem_drop hmem)
    rw [hlink, linkSteps, List.count_append, hdown, List.count_replicate_self, Nat.add_zero]
  have hfront := Component.take_prefix_foldl_walk (Path.root_not_mem_components hrelative)
    (Nat.le_refl dir.components.length) (List.take_prefix dir.components.length dir.components)
  rw [show other.components.foldl Component.walk dir.components = target.components from hother] at hfront
  have hshared := length_le_sharedLength hfront (List.take_prefix _ dir.components)
  rw [List.length_take] at hshared
  omega

end Naming

end AssetCompiler
