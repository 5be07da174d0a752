import AssetCompiler.Proofs.Path.Decoration
import AssetCompiler.Proofs.Path.Links
import AssetCompiler.Proofs.Path.Partial

/-! # Paths that differ in their last names

However a path with a file name is spelled, its pieces are those of a directory and the name. Another
file name, a suffix to the stem and another root in front of both keep what is above the name, up to
pieces without a component.
-/
namespace AssetCompiler

theorem Text.dropEndWhile_append {α : Type} (p : α → Bool) (xs ys : List α) :
    dropEndWhile p (xs ++ dropEndWhile p ys) = dropEndWhile p (xs ++ ys) := by
  induction ys using List.reverseRecOn with
  | nil => rfl
  | append_singleton ys y ih =>
    cases hy : p y with
    | true =>
      rw [dropEndWhile_append_of_pos ys hy, ih, ← List.append_assoc,
        dropEndWhile_append_of_pos (xs ++ ys) hy]
    | false => rw [dropEndWhile_append_of_neg ys hy]

theorem Text.filterMap_dropEndWhile {α β : Type} {p : α → Bool} {f : α → Option β}
    (h : ∀ x, p x = true → f x = none) (xs : List α) : (dropEndWhile p xs).filterMap f = xs.filterMap f := by
  obtain ⟨back, hxs, hback, _⟩ := dropEndWhile_spec p xs
  conv => rhs; rw [hxs, List.filterMap_append,
    List.filterMap_eq_nil_iff.mpr fun x hx => h x (hback x hx), List.append_nil]

/-- Any text with a character that is neither a dot nor a separator can be a name, unless a separator
is in it. -/
theorem isName_of_mem {s : String} {c : Char} (hflat : '/' ∉ s.toList) (hc : c ∈ s.toList) (hdot : c ≠ '.') :
    IsName s where
  no_separator := hflat
  not_filler := by
    apply Bool.eq_false_iff.mpr
    intro hf
    rcases (by simpa [Path.isFiller] using hf : s = "" ∨ s.toList = ['.']) with h | h
    · simp [h] at hc
    · exact hdot (by simpa [h] using hc)
  not_up h := hdot (by simpa [h] using hc)

namespace Path

variable {p q base : Path} {n m : String} {front front' rest : List (List Char)}

theorem isName_of_ofPiece? {leading : Bool} {piece : List Char} (hflat : '/' ∉ piece)
    (h : Component.ofPiece? leading piece = some (.name n)) : IsName n := by
  have hpiece := ofPiece?_eq_name h
  unfold Component.ofPiece? at h
  split_ifs at h with hempty hdot hlead hup <;> cases h
  refine ⟨by simpa using hflat, by simp [isFiller, hempty, hdot], by simpa using hup⟩

/-- Pieces whose last component is a name end in it, but for fillers. -/
theorem exists_concat_of_getLast?
    (h : (rest.filterMap (Component.ofPiece? false)).getLast? = some (.name n)) :
    ∃ front, Text.dropEndWhile isFiller rest = front ++ [n.toList] := by
  rw [← Text.filterMap_dropEndWhile fun _ hf => ofPiece?_false_eq_none_iff.mpr hf] at h
  obtain ⟨_, _, _, hlast⟩ := Text.dropEndWhile_spec isFiller rest
  rcases List.eq_nil_or_concat' (Text.dropEndWhile isFiller rest) with hnil | ⟨front, piece, hkept⟩
  · rw [hnil] at h
    cases h
  · obtain ⟨c, hpiece⟩ := exists_ofPiece? (hlast piece (by rw [hkept, List.getLast?_concat]))
    rw [hkept, List.filterMap_append] at h
    have hc : c = .name n := by simpa [hpiece] using h
    exact ⟨front, by rw [hkept, ofPiece?_eq_name (hpiece.trans (congrArg some hc))]⟩

theorem filterMap_dropComponents (k : Nat) (ps : List (List Char)) :
    (dropComponents k ps).filterMap (Component.ofPiece? false) =
      (ps.filterMap (Component.ofPiece? false)).drop k := by
  induction ps generalizing k with
  | nil => cases k <;> simp [dropComponents]
  | cons piece ps ih =>
    cases k with
    | zero => rfl
    | succ k =>
      cases hf : isFiller piece with
      | true => simp [dropComponents, hf, ofPiece?_false_eq_none_iff.mpr hf, ih]
      | false =>
        obtain ⟨c, hpiece⟩ := exists_ofPiece? hf
        simp [dropComponents, hf, hpiece, ih]

theorem dropComponents_suffix (k : Nat) (ps : List (List Char)) : dropComponents k ps <:+ ps := by
  induction ps generalizing k with
  | nil => cases k <;> exact List.suffix_rfl
  | cons piece ps ih =>
    cases k with
    | zero => exact List.suffix_rfl
    | succ k =>
      rw [dropComponents]
      split
      · exact (ih (k + 1)).trans (List.suffix_cons piece ps)
      · exact (ih k).trans (List.suffix_cons piece ps)

theorem filterMap_dropWhile_isFiller (ps : List (List Char)) :
    (ps.dropWhile isFiller).filterMap (Component.ofPiece? false) =
      ps.filterMap (Component.ofPiece? false) := by
  induction ps with
  | nil => rfl
  | cons piece ps ih =>
    cases hf : isFiller piece with
    | true => simp [hf, ofPiece?_false_eq_none_iff.mpr hf, ih]
    | false => simp [hf]

theorem parts_spell {first : List Char} (h : first ≠ [] ∨ rest ≠ [])
    (hflat : ∀ piece ∈ first :: rest, '/' ∉ piece) :
    (spell first rest).parts = first :: rest := by
  have hnot : ¬(decide (first = []) && decide (rest = [])) = true := by
    rcases h with h | h <;> simp [h]
  rw [spell, if_neg hnot, parts_of_text]
  exact Text.pieces_unite (List.cons_ne_nil first rest) hflat

theorem getLast?_components (h : p.fileName? = some n) : p.components.getLast? = some (.name n) := by
  unfold fileName? at h
  split at h
  · rename_i hlast
    cases h
    exact hlast
  · cases h

theorem isName_of_fileName? (h : p.fileName? = some n) : IsName n := by
  obtain ⟨first, rest, hparts⟩ := List.exists_cons_of_ne_nil p.parts_ne_nil
  have hflat {piece : List Char} (hp : piece ∈ first :: rest) : '/' ∉ piece :=
    Text.not_mem_of_mem_pieces (show piece ∈ p.parts from hparts ▸ hp)
  have hmem := List.mem_of_getLast? (getLast?_components h)
  rw [components_of_parts hparts, List.mem_append, Option.mem_toList, List.mem_filterMap] at hmem
  rcases hmem with hlead | ⟨piece, hmem, hpiece⟩
  · unfold leadingComponent? at hlead
    split_ifs at hlead
    · cases hlead
    · exact isName_of_ofPiece? (hflat List.mem_cons_self) hlead
  · exact isName_of_ofPiece? (hflat (List.mem_cons_of_mem _ hmem)) hpiece

theorem dropEndWhile_eq_nil (h : rest.filterMap (Component.ofPiece? false) = []) :
    Text.dropEndWhile isFiller rest = [] := by
  obtain ⟨_, _, _, hlast⟩ := Text.dropEndWhile_spec isFiller rest
  rcases List.eq_nil_or_concat' (Text.dropEndWhile isFiller rest) with hnil | ⟨front, piece, hkept⟩
  · exact hnil
  · obtain ⟨c, hpiece⟩ := exists_ofPiece? (hlast piece (by rw [hkept, List.getLast?_concat]))
    rw [← Text.filterMap_dropEndWhile fun _ hf => ofPiece?_false_eq_none_iff.mpr hf, hkept] at h
    simp [hpiece] at h

/-- Up to fillers at its end, a path with a file name ends in it. -/
theorem exists_dropEndWhile_of_fileName? {first : List Char} (h : p.fileName? = some n)
    (hparts : p.parts = first :: rest) :
    ∃ front, first :: Text.dropEndWhile isFiller rest = front ++ [n.toList] := by
  have hlast := getLast?_components h
  rw [components_of_parts hparts, List.getLast?_append] at hlast
  cases hinner : (rest.filterMap (Component.ofPiece? false)).getLast? with
  | some c =>
    rw [hinner] at hlast
    cases hlast
    obtain ⟨front, hkept⟩ := exists_concat_of_getLast? hinner
    exact ⟨first :: front, by rw [hkept]; rfl⟩
  | none =>
    rw [hinner, Option.none_or] at hlast
    have hlead : leadingComponent? first rest = some (.name n) := by
      cases hl : leadingComponent? first rest <;> simp_all
    refine ⟨[], ?_⟩
    rw [dropEndWhile_eq_nil (List.getLast?_eq_none_iff.mp hinner)]
    unfold leadingComponent? at hlead
    split_ifs at hlead
    · cases hlead
    · rw [ofPiece?_eq_name hlead]
      rfl

theorem exists_parts_trimEnd (hn : p.fileName? = some n) :
    ∃ front, p.trimEnd.parts = front ++ [n.toList] := by
  obtain ⟨first, rest, hparts⟩ := List.exists_cons_of_ne_nil p.parts_ne_nil
  obtain ⟨front, hfront⟩ := exists_dropEndWhile_of_fileName? hn hparts
  refine ⟨front, ?_⟩
  have hsome : ¬(decide (first = []) && decide (rest = [])) = true := by
    rintro h
    obtain ⟨rfl, rfl⟩ : first = [] ∧ rest = [] := by simpa using h
    have hlast := getLast?_components hn
    rw [components_of_parts hparts] at hlast
    cases hlast
  obtain ⟨back, hrest, _, _⟩ := Text.dropEndWhile_spec isFiller rest
  unfold trimEnd
  rw [headTail_of_parts hparts]
  simp only [hsome]
  rw [← hfront]
  refine parts_spell ?_ fun piece hp => ?_
  · by_contra hnot
    obtain ⟨hfirst, hkept⟩ := not_or.mp hnot
    rw [not_not.mp hfirst, not_not.mp hkept] at hfront
    have hempty := (List.append_inj' (show [] ++ [[]] = front ++ [n.toList] from hfront) rfl).2
    exact (isName_of_fileName? hn).ne_nil (List.singleton_inj.mp hempty).symm
  · refine Text.not_mem_of_mem_pieces (show piece ∈ p.parts from hparts ▸ ?_)
    refine (List.mem_cons.mp hp).elim (fun he => he ▸ List.mem_cons_self) fun hp => ?_
    exact List.mem_cons_of_mem _ (hrest ▸ List.mem_append_left back hp)

/-- More components follow than are taken away, so the last of them is left. -/
theorem getLast?_dropComponents {first : List Char} {k : Nat} (hn : p.fileName? = some n)
    (hparts : p.parts = first :: rest) (hk : k + 1 < p.components.length) :
    ((dropComponents k rest).filterMap (Component.ofPiece? false)).getLast? = some (.name n) := by
  have hlead : (leadingComponent? first rest).toList.length ≤ 1 := by
    cases leadingComponent? first rest <;> simp
  rw [components_of_parts hparts, List.length_append] at hk
  rw [filterMap_dropComponents, ← getLast?_components hn, components_of_parts hparts,
    List.getLast?_drop, if_neg (by omega), List.getLast?_append_of_ne_nil]
  exact List.length_pos_iff.mp (by omega)

/-- What is left of a path below another ends in the name that the path ends in. -/
theorem exists_parts_stripPrefix? {more : List Component} (hn : p.fileName? = some n) (hne : more ≠ [])
    (hmore : p.components = base.components ++ more) :
    ∃ q front, p.stripPrefix? base = some q ∧ q.parts = front ++ [n.toList] := by
  have hbelow : base.components.isPrefixOf p.components = true :=
    List.isPrefixOf_iff_prefix.mpr ⟨more, hmore.symm⟩
  unfold stripPrefix?
  simp only [hbelow, if_true]
  cases hk : base.components.length with
  | zero =>
    -- Nothing is taken away but the fillers at the end.
    obtain ⟨front, hfront⟩ := exists_parts_trimEnd hn
    exact ⟨p.trimEnd, front, rfl, hfront⟩
  | succ k =>
    obtain ⟨first, rest, hparts⟩ := List.exists_cons_of_ne_nil p.parts_ne_nil
    have hlength : k + 1 < p.components.length := by
      rw [hmore, List.length_append, hk]
      exact Nat.lt_add_of_pos_right (List.length_pos_iff.mpr hne)
    have hlast := getLast?_dropComponents hn hparts hlength
    rw [← filterMap_dropWhile_isFiller] at hlast
    obtain ⟨front, hfront⟩ := exists_concat_of_getLast? hlast
    refine ⟨_, front, rfl, ?_⟩
    simp only [Nat.add_sub_cancel, headTail_of_parts hparts, hfront]
    rw [parts_of_text]
    refine Text.pieces_unite (by simp) fun piece hp => ?_
    obtain ⟨back, hback, _⟩ := Text.dropEndWhile_spec isFiller ((dropComponents k rest).dropWhile isFiller)
    rw [hfront] at hback
    have hmem : piece ∈ (dropComponents k rest).dropWhile isFiller :=
      hback ▸ List.mem_append_left back hp
    have hrest := (dropComponents_suffix k rest).subset ((List.dropWhile_suffix _).subset hmem)
    exact Text.not_mem_of_mem_pieces (show piece ∈ p.parts from hparts ▸ List.mem_cons_of_mem _ hrest)

/-! ### Above the last name -/

/-- The pieces above a name, without fillers in front of the name. -/
def trimmed : List (List Char) → List (List Char)
  | [] => []
  | first :: mid => first :: Text.dropEndWhile isFiller mid

@[simp] theorem trimmed_trimmed (front : List (List Char)) : trimmed (trimmed front) = trimmed front := by
  cases front with
  | nil => rfl
  | cons first mid =>
    have h := Text.dropEndWhile_append isFiller [] mid
    simp only [List.nil_append] at h
    rw [trimmed, trimmed, h]

theorem trimmed_append (ts front : List (List Char)) :
    trimmed (ts ++ trimmed front) = trimmed (ts ++ front) := by
  cases ts with
  | nil => exact trimmed_trimmed front
  | cons t ts =>
    cases front with
    | nil => rfl
    | cons first mid =>
      have h := Text.dropEndWhile_append isFiller (ts ++ [first]) mid
      simp only [List.append_assoc, List.singleton_append] at h
      simp only [trimmed, List.cons_append, h]

/-- The directory that pieces above a name lead to. -/
def above (front : List (List Char)) : Path :=
  match trimmed front with
  | [] => ⟨""⟩
  | first :: mid => spell first mid

theorem above_congr (h : trimmed front = trimmed front') : above front = above front' := by
  rw [above, above, h]

theorem parent?_eq_above (hn : IsName n) (h : p.parts = front ++ [n.toList]) :
    p.parent? = some (above front) := by
  rw [parent?_of_parts hn h]
  cases front <;> rfl

theorem isAbsolute_of_front (hn : IsName n) (h : p.parts = front ++ [n.toList]) :
    p.isAbsolute = (front.head? == some []) := by
  cases habsolute : p.isAbsolute with
  | true =>
    obtain ⟨rest, hparts, _⟩ := parts_of_isAbsolute habsolute
    rw [hparts] at h
    cases front with
    | nil => exact absurd (List.cons.inj h).1.symm hn.ne_nil
    | cons first mid =>
      rw [← (List.cons.inj h).1]
      rfl
  | false =>
    refine (Bool.eq_false_iff.mpr fun hhead => ?_).symm
    obtain ⟨mid, rfl⟩ := List.head?_eq_some_iff.mp (eq_of_beq hhead)
    rw [isAbsolute_of_parts h (by simp)] at habsolute
    cases habsolute

theorem head?_of_trimmed_eq (h : trimmed front = trimmed front') : front.head? = front'.head? := by
  cases front <;> cases front' <;> simp_all [trimmed]

/-- Names in one directory stay in one directory when the same root is put in front. -/
theorem exists_parent?_join (hn : IsName n) (hm : IsName m) (hp : p.parts = front ++ [n.toList])
    (hq : q.parts = front' ++ [m.toList]) (h : trimmed front = trimmed front') (root : Path) :
    ∃ dir, (root.join p).parent? = some dir ∧ (root.join q).parent? = some dir := by
  have hp' := isAbsolute_of_front hn hp
  have hq' := isAbsolute_of_front hm hq
  rw [← head?_of_trimmed_eq h, ← hp'] at hq'
  cases habsolute : p.isAbsolute with
  | true =>
    rw [habsolute] at hq'
    have hjoin {r : Path} (hr : r.isAbsolute = true) : root.join r = r := by
      rw [join, hr, Bool.true_or, if_pos rfl]
    rw [hjoin habsolute, hjoin hq', parent?_eq_above hn hp, parent?_eq_above hm hq, above_congr h]
    exact ⟨_, rfl, rfl⟩
  | false =>
    rw [habsolute] at hq'
    have hparts {r : Path} {fs : List (List Char)} {k : String} (hr : r.isAbsolute = false)
        (hk : r.parts = fs ++ [k.toList]) : (root.join r).parts = (root.trail ++ fs) ++ [k.toList] := by
      rw [parts_join hr, hk, List.append_assoc]
    have habove : trimmed (root.trail ++ front) = trimmed (root.trail ++ front') := by
      rw [← trimmed_append, h, trimmed_append]
    exact ⟨_, parent?_eq_above hn (hparts habsolute hp),
      (parent?_eq_above hm (hparts hq' hq)).trans (congrArg some (above_congr habove.symm))⟩

theorem trail_above (hflat : ∀ piece ∈ front, '/' ∉ piece) (hne : front ≠ []) :
    (above front).trail = trimmed front := by
  cases front with
  | nil => exact absurd rfl hne
  | cons first mid =>
    obtain ⟨back, hmid, _, hlast⟩ := Text.dropEndWhile_spec isFiller mid
    have habove : above (first :: mid) = spell first (Text.dropEndWhile isFiller mid) := rfl
    by_cases hnone : first = [] ∧ Text.dropEndWhile isFiller mid = []
    · rw [habove, trimmed, hnone.1, hnone.2]
      rfl
    · have hparts : (above (first :: mid)).parts = trimmed (first :: mid) := by
        rw [habove]
        refine parts_spell (not_and_or.mp hnone) fun piece hp => hflat piece ?_
        refine (List.mem_cons.mp hp).elim (fun he => he ▸ List.mem_cons_self) fun hp => ?_
        exact List.mem_cons_of_mem _ (hmid ▸ List.mem_append_left back hp)
      -- The last piece left is no filler, or the first piece is all that is left.
      have hend : (trimmed (first :: mid)).getLast? ≠ some [] := by
        rw [trimmed, List.getLast?_cons]
        cases hkept : (Text.dropEndWhile isFiller mid).getLast? with
        | none =>
          have hmidnil := List.getLast?_eq_none_iff.mp hkept
          exact fun he => hnone ⟨Option.some.inj he, hmidnil⟩
        | some piece =>
          intro he
          have hpiece : piece = [] := Option.some.inj he
          have hf := hlast piece hkept
          rw [hpiece] at hf
          cases hf
      rw [trail, hparts, if_neg hend]

theorem parts_join_above (hm : IsName m) (hflat : ∀ piece ∈ front, '/' ∉ piece) :
    ((above front).join ⟨m⟩).parts = trimmed front ++ [m.toList] := by
  cases front with
  | nil =>
    show ((⟨""⟩ : Path).join ⟨m⟩).parts = [m.toList]
    rw [join_of_empty rfl, parts_name hm]
  | cons first mid =>
    rw [parts_join (isAbsolute_name hm), parts_name hm, trail_above hflat (List.cons_ne_nil first mid)]

/-- Another file name stands where the old one stood. -/
theorem parts_withFileName (hn : IsName n) (hm : IsName m) (h : p.parts = front ++ [n.toList]) :
    (p.withFileName m).parts = trimmed front ++ [m.toList] := by
  have hfile : p.fileName? = some n := fileName?_of_getLast? hn (by rw [h, List.getLast?_concat])
  have hflat : ∀ piece ∈ front, '/' ∉ piece := fun piece hp =>
    Text.not_mem_of_mem_pieces (show piece ∈ p.parts from h ▸ List.mem_append_left _ hp)
  unfold withFileName
  rw [hfile, parent?_eq_above hn h, Option.getD_some]
  exact parts_join_above hm hflat

theorem mem_of_mem_splitName {name : List Char} {c : Char}
    (h : c ∈ (splitName name).1 ∨ ∃ e, (splitName name).2 = some e ∧ c ∈ e) : c ∈ name := by
  obtain ⟨stem, extension?, hsplits⟩ := Splits.total name
  rw [hsplits.splitName_eq] at h
  cases hsplits with
  | whole => simpa using h
  | atDot =>
    rcases h with h | ⟨_, he, h⟩
    · exact List.mem_append_left _ h
    · cases he
      exact List.mem_append_right _ (List.mem_cons_of_mem _ h)

end Path

namespace Naming

variable {p : Path} {n suffix : String} {front : List (List Char)}

theorem isName_suffixedName (hn : p.fileName? = some n) (hs : '/' ∉ suffix.toList) :
    IsName (suffixedName p suffix) := by
  have hflat := (Path.isName_of_fileName? hn).no_separator
  have hstem : '/' ∉ (Path.splitName n.toList).1 := fun h => hflat (Path.mem_of_mem_splitName (.inl h))
  have hextension : ∀ e, (Path.splitName n.toList).2 = some e → '/' ∉ e :=
    fun e he h => hflat (Path.mem_of_mem_splitName (.inr ⟨e, he, h⟩))
  unfold suffixedName Path.stem? Path.extension?
  rw [hn, Option.map_some, Option.bind_some, Option.getD_some]
  refine isName_of_mem (c := '-') ?_ ?_ (by decide) <;>
    cases hsplit : (Path.splitName n.toList).2 with
    | none => simp [hstem, hs]
    | some e => simp [hstem, hs, hextension e hsplit]

/-- A suffix keeps what is above the name. -/
theorem exists_parts_suffixStem (hn : IsName n) (h : p.parts = front ++ [n.toList])
    (hs : '/' ∉ suffix.toList) : ∃ m : String, IsName m ∧
      (suffixStem p suffix).parts = Path.trimmed front ++ [m.toList] := by
  have hfile : p.fileName? = some n := Path.fileName?_of_getLast? hn (by rw [h, List.getLast?_concat])
  have hm := isName_suffixedName hfile hs
  exact ⟨_, hm, Path.parts_withFileName hn hm h⟩

/-- Names with suffixes stay in the directory where they stood, whatever root is put in front. -/
theorem exists_parent?_join_decorate {d : Decoration} (hflat : IsFlat d) (hextension : d.extension = none)
    (hn : IsName n) (h : p.parts = front ++ [n.toList]) (root : Path) :
    ∃ dir, (root.join (decorate p d)).parent? = some dir ∧ (root.join p).parent? = some dir := by
  obtain ⟨fingerprint, extension, language⟩ := d
  cases hextension
  have hsuffix {q : Path} {m : String} {front' : List (List Char)} (hm : IsName m)
      (hq : q.parts = front' ++ [m.toList]) {suffix? : Option String}
      (hs : ∀ s, suffix? = some s → '/' ∉ s.toList) :
      ∃ (k : String) (front'' : List (List Char)), IsName k ∧
        (applyIfSome suffixStem q suffix?).parts = front'' ++ [k.toList] ∧
        Path.trimmed front'' = Path.trimmed front' := by
    cases suffix? with
    | none => exact ⟨m, front', hm, hq, rfl⟩
    | some s =>
      obtain ⟨k, hk, hparts⟩ := exists_parts_suffixStem hm hq (hs s rfl)
      exact ⟨k, _, hk, hparts, Path.trimmed_trimmed front'⟩
  obtain ⟨m, front', hm, hq, htrim⟩ := hsuffix hn h hflat.fingerprint
  obtain ⟨k, front'', hk, hr, htrim'⟩ := hsuffix hm hq hflat.language
  exact Path.exists_parent?_join hk hn hr h (htrim'.trans htrim) root

end Naming

end AssetCompiler
