import AssetCompiler.Discovery
import AssetCompiler.Naming
import AssetCompiler.Proofs.Path.Pieces
import Mathlib.Data.List.Induction
import Mathlib.Tactic.SplitIfs

/-! # Paths made of names

Below a root, sources and targets are reached by names alone. For such paths the operations
that cut, strip and rename them act on the list of names, whatever the spelling of the root.
-/
namespace AssetCompiler

/-- What can stand as a name in a directory. -/
structure IsName (s : String) : Prop where
  no_separator : '/' ∉ s.toList
  not_filler : Path.isFiller s.toList = false
  not_up : s.toList ≠ ['.', '.']

instance (s : String) : Decidable (IsName s) :=
  decidable_of_iff ('/' ∉ s.toList ∧ Path.isFiller s.toList = false ∧ s.toList ≠ ['.', '.'])
    ⟨fun ⟨h1, h2, h3⟩ => ⟨h1, h2, h3⟩, fun h => ⟨h.1, h.2, h.3⟩⟩

namespace IsName

theorem ne_nil {s : String} (h : IsName s) : s.toList ≠ [] := by
  have hf := h.not_filler
  intro e
  simp [Path.isFiller, e] at hf

theorem ne_dot {s : String} (h : IsName s) : s.toList ≠ ['.'] := by
  have hf := h.not_filler
  intro e
  simp [Path.isFiller, e] at hf

theorem ofPiece? {s : String} (h : IsName s) (leading : Bool) :
    Component.ofPiece? leading s.toList = some (.name s) := by
  simp [Component.ofPiece?, h.ne_nil, h.ne_dot, h.not_up]

end IsName

theorem Component.map_name_injective : Function.Injective (List.map Component.name) :=
  List.map_injective_iff.mpr fun _ _ h => Component.name.inj h

namespace Path

/-- The relative path of a list of names. -/
def ofNames (names : List String) : Path :=
  ⟨String.ofList (Text.unite ['/'] (names.map String.toList))⟩

@[simp] theorem ofNames_singleton (n : String) : ofNames [n] = ⟨n⟩ := by
  simp [ofNames, Text.unite]

variable {names : List String}

theorem parts_ofNames (hne : names ≠ []) (h : ∀ n ∈ names, IsName n) :
    (ofNames names).parts = names.map String.toList := by
  rw [ofNames, parts_of_text]
  apply Text.pieces_unite (by simpa using hne)
  intro p hp
  obtain ⟨n, hn, rfl⟩ := List.mem_map.mp hp
  exact (h n hn).no_separator

theorem parts_name {n : String} (h : IsName n) : parts ⟨n⟩ = [n.toList] := by
  have hp := parts_ofNames (List.cons_ne_nil n []) (by simpa using h)
  simpa using hp

theorem isAbsolute_ofNames (h : ∀ n ∈ names, IsName n) : (ofNames names).isAbsolute = false := by
  cases names with
  | nil => rfl
  | cons n ns =>
    have hn := h n (by simp)
    obtain ⟨c, cs, hc⟩ := List.exists_cons_of_ne_nil hn.ne_nil
    have hs : c ≠ '/' := fun e => hn.no_separator (by simp [hc, e])
    cases ns <;> simp [ofNames, isAbsolute, Text.unite, hc, hs]

theorem isAbsolute_name {n : String} (h : IsName n) : isAbsolute ⟨n⟩ = false := by
  have hp : (ofNames [n]).isAbsolute = false := isAbsolute_ofNames (by simpa using h)
  simpa using hp

theorem text_ofNames_ne_empty (hne : names ≠ []) (h : ∀ n ∈ names, IsName n) :
    (ofNames names).text ≠ "" := by
  intro e
  have hp := parts_ofNames hne h
  rw [parts, e] at hp
  cases names with
  | nil => exact hne rfl
  | cons n ns =>
    simp only [Text.pieces, String.toList_empty, List.map_cons, List.cons.injEq] at hp
    exact (h n (by simp)).ne_nil hp.1.symm

theorem eq_of_text {p q : Path} (h : p.text.toList = q.text.toList) : p = q := by
  cases p
  cases q
  exact congrArg Path.mk (String.toList_inj.mp h)

/-- The text of a joined path, as one separator between the two where there is none. -/
theorem text_join {p q : Path} (hq : q.isAbsolute = false) (h0 : p.text ≠ "") :
    (p.join q).text.toList =
      p.text.toList ++ (if p.text.toList.getLast? = some '/' then [] else ['/']) ++ q.text.toList := by
  have h0' : (p.text == "") = false := by simpa using h0
  rw [join, hq, h0']
  simp only [Bool.false_or, Bool.false_eq_true, if_false]
  split <;> simp [*]

theorem join_of_empty {p q : Path} (h : p.text = "") : p.join q = q := by
  simp [join, h]

theorem text_ofNames_concat {dir : List String} (hne : dir ≠ []) (n : String) :
    (ofNames (dir ++ [n])).text.toList = (ofNames dir).text.toList ++ '/' :: n.toList := by
  have hu : Text.unite ['/'] (dir.map String.toList ++ [n.toList]) = _ :=
    Text.unite_append (by simpa using hne) (by simp)
  simp only [ofNames, String.toList_ofList, List.map_append, List.map_cons, List.map_nil, hu,
    Text.unite]

theorem getLast?_ofNames (h : ∀ n ∈ names, IsName n) :
    (ofNames names).text.toList.getLast? ≠ some '/' := by
  rcases List.eq_nil_or_concat' names with rfl | ⟨dir, n, rfl⟩
  · simp [ofNames, Text.unite]
  · have hn := h n (by simp)
    obtain ⟨xs, c, hc⟩ : ∃ xs c, n.toList = xs ++ [c] := by
      rcases List.eq_nil_or_concat' n.toList with h | h
      · exact absurd h hn.ne_nil
      · exact h
    have hs : c ≠ '/' := fun e => hn.no_separator (by simp [hc, e])
    cases dir with
    | nil => simp [hc, hs]
    | cons d ds =>
      rw [text_ofNames_concat (by simp), hc, ← List.cons_append, ← List.append_assoc,
        List.getLast?_concat]
      simpa using hs

theorem join_ofNames_join {p : Path} {n : String} (hne : names ≠ []) (h : ∀ m ∈ names, IsName m)
    (hn : IsName n) : (p.join (ofNames names)).join ⟨n⟩ = p.join (ofNames (names ++ [n])) := by
  have hrel := isAbsolute_ofNames h
  have hn' := isAbsolute_name hn
  have hall : ∀ m ∈ names ++ [n], IsName m := by
    intro m hm
    rcases List.mem_append.mp hm with hm | hm
    · exact h m hm
    · exact (List.mem_singleton.mp hm) ▸ hn
  have hlast := getLast?_ofNames h
  have hstep := text_ofNames_concat hne n
  by_cases h0 : p.text = ""
  · rw [join_of_empty h0, join_of_empty h0]
    apply eq_of_text
    rw [text_join hn' (text_ofNames_ne_empty hne h), if_neg hlast, hstep]
    simp
  · have h1 : (p.join (ofNames names)).text ≠ "" := text_join_ne_empty (text_ofNames_ne_empty hne h)
    have hl : (p.join (ofNames names)).text.toList.getLast? = (ofNames names).text.toList.getLast? := by
      rw [text_join hrel h0, List.getLast?_append_of_ne_nil]
      simpa using text_ofNames_ne_empty hne h
    apply eq_of_text
    rw [text_join hn' h1, hl, if_neg hlast, text_join hrel h0, text_join (isAbsolute_ofNames hall) h0,
      hstep]
    simp

/-- The walk from a root joins all names below it. -/
theorem pathBelow_eq {root : Path} (hne : names ≠ []) (h : ∀ n ∈ names, IsName n) :
    Discovery.pathBelow root names = root.join (ofNames names) := by
  obtain ⟨dir, n, rfl⟩ : ∃ dir n, names = dir ++ [n] := by
    rcases List.eq_nil_or_concat' names with h | h
    · exact absurd h hne
    · exact h
  clear hne
  induction dir using List.reverseRecOn generalizing n with
  | nil => simp [Discovery.pathBelow]
  | append_singleton dir m ih =>
    have hm := ih m (fun k hk => h k (List.mem_append_left _ hk))
    have hj := join_ofNames_join (p := root) (List.append_ne_nil_of_right_ne_nil dir (List.cons_ne_nil m []))
      (fun k hk => h k (List.mem_append_left _ hk)) (h n (by simp))
    rw [← hj, ← hm]
    simp [Discovery.pathBelow, List.foldl_append]

theorem headTail_of_parts {p : Path} {first : List Char} {rest : List (List Char)}
    (h : p.parts = first :: rest) : p.headTail = (first, rest) := by
  unfold headTail
  rw [parts] at h
  rw [h]

theorem components_of_parts {p : Path} {first : List Char} {rest : List (List Char)}
    (h : p.parts = first :: rest) :
    p.components = (leadingComponent? first rest).toList ++ rest.filterMap (Component.ofPiece? false) := by
  simp [components, headTail_of_parts h]

theorem components_of_empty {p : Path} (h : p.text = "") : p.components = [] := by
  have hp : p.parts = [[]] := by simp [parts, h, Text.pieces]
  simp [components_of_parts hp, leadingComponent?]

theorem filterMap_names (h : ∀ n ∈ names, IsName n) :
    (names.map String.toList).filterMap (Component.ofPiece? false) = names.map Component.name := by
  induction names with
  | nil => rfl
  | cons n ns ih =>
    have hn := (h n (by simp)).ofPiece? false
    simp [hn, ih (fun m hm => h m (List.mem_cons_of_mem _ hm))]

theorem components_ofNames (h : ∀ n ∈ names, IsName n) :
    (ofNames names).components = names.map Component.name := by
  cases names with
  | nil => exact components_of_empty (by simp [ofNames, Text.unite])
  | cons n ns =>
    have hp := parts_ofNames (List.cons_ne_nil n ns) h
    have hn := h n (by simp)
    have hns := filterMap_names (fun m hm => h m (List.mem_cons_of_mem _ hm))
    rw [List.map_cons] at hp
    rw [components_of_parts hp, hns]
    simp [leadingComponent?, hn.ne_nil, hn.ofPiece?]

theorem trail_eq_cons {p : Path} (h0 : p.text ≠ "") : ∃ first tr, p.trail = first :: tr ∧
    (p.parts = first :: tr ∨ p.parts = first :: (tr ++ [[]])) ∧ (first = [] → p.parts ≠ [[]]) := by
  have hne : p.parts ≠ [[]] := by
    intro e
    have := Text.unite_pieces '/' p.text.toList
    rw [parts] at e
    rw [e] at this
    exact h0 (String.toList_eq_nil_iff.mp this.symm)
  rcases parts_eq_trail p with h | h
  · cases ht : p.trail with
    | nil => exact absurd (h.trans ht) (parts_ne_nil p)
    | cons first tr => exact ⟨first, tr, rfl, Or.inl (h.trans ht), fun _ => hne⟩
  · cases ht : p.trail with
    | nil => exact absurd (by rw [h, ht]; rfl) hne
    | cons first tr => exact ⟨first, tr, rfl, Or.inr (by rw [h, ht]; rfl), fun _ => hne⟩

theorem components_join_ofNames {p : Path} (hne : names ≠ []) (h : ∀ n ∈ names, IsName n) :
    (p.join (ofNames names)).components = p.components ++ names.map Component.name := by
  by_cases h0 : p.text = ""
  · rw [join_of_empty h0, components_ofNames h, components_of_empty h0]
    rfl
  · obtain ⟨first, tr, ht, hp, hf⟩ := trail_eq_cons h0
    have hj : (p.join (ofNames names)).parts = first :: (tr ++ names.map String.toList) := by
      rw [parts_join (isAbsolute_ofNames h), ht, parts_ofNames hne h]
      rfl
    have hlead : ∀ rest, (first = [] → rest ≠ []) →
        leadingComponent? first rest = if first = [] then some .root else Component.ofPiece? true first := by
      intro rest hr
      unfold leadingComponent?
      split
      · rename_i hfirst
        rw [if_neg (hr hfirst)]
      · rfl
    have hnames := filterMap_names h
    rw [components_of_parts hj, List.filterMap_append, hnames, ← List.append_assoc]
    congr 1
    rw [hlead _ (fun _ => by simpa using fun _ => hne)]
    rcases hp with hp | hp
    · rw [components_of_parts hp, hlead tr (fun e et => hf e (by rw [hp, e, et]))]
    · rw [components_of_parts hp, hlead _ (fun _ => by simp), List.filterMap_append]
      simp [Component.ofPiece?]

theorem fileName?_join_ofNames {p : Path} (hne : names ≠ []) (h : ∀ n ∈ names, IsName n) :
    (p.join (ofNames names)).fileName? = names.getLast? := by
  obtain ⟨dir, n, rfl⟩ : ∃ dir n, names = dir ++ [n] := by
    rcases List.eq_nil_or_concat' names with h | h
    · exact absurd h hne
    · exact h
  rw [fileName?, components_join_ofNames hne h]
  simp

theorem fileName?_of_getLast? {p : Path} {n : String} (hn : IsName n) (h : p.parts.getLast? = some n.toList) :
    p.fileName? = some n := by
  obtain ⟨back, hback⟩ := List.getLast?_eq_some_iff.mp h
  have hlast : p.components.getLast? = some (.name n) := by
    cases back with
    | nil =>
      rw [components_of_parts hback, leadingComponent?, if_neg hn.ne_nil, hn.ofPiece?]
      rfl
    | cons first back =>
      rw [List.cons_append] at hback
      rw [components_of_parts hback, List.filterMap_append, ← List.append_assoc]
      simp [hn.ofPiece?]
  rw [fileName?, hlast]

theorem ofPiece?_false_eq_none_iff {piece : List Char} :
    Component.ofPiece? false piece = none ↔ isFiller piece = true := by
  unfold Component.ofPiece? isFiller
  by_cases h1 : piece = []
  · simp [h1]
  · by_cases h2 : piece = ['.']
    · simp [h2]
    · by_cases h3 : piece = ['.', '.'] <;> simp [h1, h2, h3]

theorem exists_ofPiece? {piece : List Char} (h : isFiller piece = false) :
    ∃ c, Component.ofPiece? false piece = some c := by
  cases hpiece : Component.ofPiece? false piece with
  | some c => exact ⟨c, rfl⟩
  | none =>
    rw [ofPiece?_false_eq_none_iff.mp hpiece] at h
    cases h

/-- Dropping as many components as the front has leaves what follows, fillers aside. -/
theorem dropComponents_append (front back : List (List Char)) :
    (dropComponents (front.filterMap (Component.ofPiece? false)).length (front ++ back)).dropWhile
      isFiller = back.dropWhile isFiller := by
  induction front with
  | nil => simp [dropComponents]
  | cons p ps ih =>
    cases hp : Component.ofPiece? false p with
    | none =>
      have hf := ofPiece?_false_eq_none_iff.mp hp
      simp only [List.filterMap_cons, hp, List.cons_append]
      cases hk : (ps.filterMap (Component.ofPiece? false)).length with
      | zero => rw [hk] at ih; simpa [dropComponents, hf] using ih
      | succ k => rw [hk] at ih; simpa [dropComponents, hf] using ih
    | some c =>
      have hf : isFiller p = false := by
        cases he : isFiller p with
        | false => rfl
        | true => rw [ofPiece?_false_eq_none_iff.mpr he] at hp; cases hp
      simpa [List.filterMap_cons, hp, dropComponents, hf] using ih

theorem dropWhile_names (h : ∀ n ∈ names, IsName n) :
    (names.map String.toList).dropWhile isFiller = names.map String.toList := by
  cases names with
  | nil => rfl
  | cons n ns => simp [(h n (by simp)).not_filler]

theorem dropEndWhile_names (h : ∀ n ∈ names, IsName n) :
    Text.dropEndWhile isFiller (names.map String.toList) = names.map String.toList := by
  apply Text.dropEndWhile_of_getLast
  intro x hx
  obtain ⟨n, hn, rfl⟩ := List.mem_map.mp (List.mem_of_getLast? hx)
  exact (h n hn).not_filler

/-- Below a root with a text, stripping the root leaves the names. -/
theorem stripPrefix?_join_ofNames {root : Path} (h0 : root.text ≠ "") (hne : names ≠ [])
    (h : ∀ n ∈ names, IsName n) :
    (root.join (ofNames names)).stripPrefix? root = some (ofNames names) := by
  obtain ⟨first, tr, ht, hp, hf⟩ := trail_eq_cons h0
  have hj : (root.join (ofNames names)).parts = first :: (tr ++ names.map String.toList) := by
    rw [parts_join (isAbsolute_ofNames h), ht, parts_ofNames hne h]
    rfl
  have htail : (root.join (ofNames names)).headTail.2 = tr ++ names.map String.toList := by
    rw [headTail_of_parts hj]
  have hlead : ∀ rest, (first = [] → rest ≠ []) → (leadingComponent? first rest).toList.length = 1 := by
    intro rest hr
    unfold leadingComponent?
    by_cases hfirst : first = []
    · simp [hfirst, hr hfirst]
    · unfold Component.ofPiece?
      split_ifs <;> simp_all
  have hlen : root.components.length = (tr.filterMap (Component.ofPiece? false)).length + 1 := by
    rcases hp with hp | hp
    · rw [components_of_parts hp, List.length_append,
        hlead tr (fun e et => hf e (by rw [hp, e, et])), Nat.add_comm]
    · rw [components_of_parts hp, List.length_append, hlead _ (fun _ => by simp),
        List.filterMap_append, Nat.add_comm]
      simp [Component.ofPiece?]
  have hbelow : root.components.isPrefixOf (root.join (ofNames names)).components = true := by
    rw [components_join_ofNames hne h]
    exact List.isPrefixOf_iff_prefix.mpr (List.prefix_append _ _)
  rw [stripPrefix?]
  simp only [hbelow, if_true, hlen, Nat.add_one_ne_zero, if_false, Nat.add_sub_cancel, htail,
    dropComponents_append, dropWhile_names h, dropEndWhile_names h]
  rfl

end Path

end AssetCompiler
