import AssetCompiler.Kind
import AssetCompiler.Naming
import AssetCompiler.Proofs.Path.Names

/-! # Decorated names

A name splits into a stem and an extension at its last dot, if there is one behind its start.
A decoration changes the last name of a path and nothing else. What it makes of a name
`stem.extension` is written down in one equation, from which the kind of the target and its
being a partial are read off.
-/
namespace AssetCompiler

namespace Path

theorem splitName_append_dot {stem extension : List Char} (hs : stem ≠ []) (he : '.' ∉ extension) :
    splitName (stem ++ '.' :: extension) = (stem, some extension) := by
  have hp : Text.pieces '.' (stem ++ '.' :: extension) = Text.pieces '.' stem ++ [extension] := by
    rw [Text.pieces_append_sep, Text.pieces_eq_singleton he]
  simp [splitName, hp, Text.unite_pieces, hs]

variable {name stem extension : List Char} {extension? : Option (List Char)}

/-- How a name splits: at its last dot, unless the name has none behind its first character. -/
inductive Splits : List Char → List Char → Option (List Char) → Prop
  | whole {name : List Char} (h : '.' ∉ name.tail) : Splits name name none
  | atDot {stem extension : List Char} (hstem : stem ≠ []) (hdot : '.' ∉ extension) :
      Splits (stem ++ '.' :: extension) stem (some extension)

/-- A stem and, where there is one, an extension behind a dot. -/
def joined (stem : List Char) (extension? : Option (List Char)) : List Char :=
  stem ++ (extension?.map ('.' :: ·)).getD []

namespace Splits

theorem eq_joined (h : Splits name stem extension?) : name = joined stem extension? := by
  cases h with
  | whole => simp [joined]
  | atDot => rfl

theorem splitName_eq (h : Splits name stem extension?) : splitName name = (stem, extension?) := by
  cases h with
  | atDot hstem hdot => exact splitName_append_dot hstem hdot
  | whole h =>
    cases name with
    | nil => rfl
    | cons c tail =>
      have htail : '.' ∉ tail := h
      -- A dot at the very start leaves an empty piece in front, which is no stem.
      by_cases hc : c = '.'
      · subst hc
        have hpieces : Text.pieces '.' ('.' :: tail) = [[], tail] := by
          simp [Text.pieces, Text.pieces_eq_singleton htail]
        simp [splitName, hpieces, Text.unite]
      · have hpieces : Text.pieces '.' (c :: tail) = [c :: tail] :=
          Text.pieces_eq_singleton (by simp [Ne.symm hc, htail])
        simp [splitName, hpieces, Text.unite]

theorem total (name : List Char) : ∃ stem extension?, Splits name stem extension? := by
  by_cases h : '.' ∈ name.tail
  · -- The last dot is the first one from behind.
    obtain ⟨back, front, hsplit, hback⟩ := List.eq_append_cons_of_mem (List.mem_reverse.mpr h)
    have htail : name.tail = front.reverse ++ '.' :: back.reverse := by
      rw [← List.reverse_reverse name.tail, hsplit]
      simp
    obtain ⟨c, tail, rfl⟩ := List.exists_cons_of_ne_nil (fun hnil : name = [] => by simp [hnil] at h)
    rw [show tail = front.reverse ++ '.' :: back.reverse from htail, ← List.cons_append]
    exact ⟨_, _, atDot (List.cons_ne_nil c _) (by simpa using hback)⟩
  · exact ⟨name, none, whole h⟩

/-- A suffix to the stem does not move the place where the name splits. -/
theorem suffixed {s : List Char} (h : Splits name stem extension?) (hs : '.' ∉ s) :
    Splits (joined (stem ++ '-' :: s) extension?) (stem ++ '-' :: s) extension? := by
  cases h with
  | atDot _ hdot => exact atDot (by simp) hdot
  | whole h =>
    simp only [joined, Option.map_none, Option.getD_none, List.append_nil]
    refine whole fun hmem => ?_
    cases name with
    | nil => exact hs hmem
    | cons c tail =>
      rcases List.mem_append.mp hmem with hmem | hmem
      · exact h hmem
      · simp [hs] at hmem

theorem stem_ne_nil (h : Splits name stem extension?) (hname : name ≠ []) : stem ≠ [] := by
  cases h with
  | whole => exact hname
  | atDot hstem => exact hstem

end Splits

theorem splitName_eq_iff : splitName name = (stem, extension?) ↔ Splits name stem extension? := by
  refine ⟨fun h => ?_, Splits.splitName_eq⟩
  obtain ⟨s, e, hsplits⟩ := Splits.total name
  obtain ⟨rfl, rfl⟩ := Prod.mk.inj (hsplits.splitName_eq.symm.trans h)
  exact hsplits

theorem eq_append_dot_of_splitName (h : splitName name = (stem, some extension)) :
    name = stem ++ '.' :: extension ∧ stem ≠ [] ∧ '.' ∉ extension := by
  cases splitName_eq_iff.mp h with
  | atDot hstem hdot => exact ⟨rfl, hstem, hdot⟩

/-- A name that does not begin with a dot has an extension when there is a dot in it. -/
theorem isSome_splitName {c : Char} {tail : List Char} (hc : c ≠ '.') :
    (splitName (c :: tail)).2.isSome = true ↔ '.' ∈ tail := by
  constructor
  · intro h
    obtain ⟨extension, he⟩ := Option.isSome_iff_exists.mp h
    obtain ⟨hname, hstem, _⟩ := eq_append_dot_of_splitName (Prod.ext rfl he :
      splitName (c :: tail) = ((splitName (c :: tail)).1, some extension))
    obtain ⟨_, stem, hcons⟩ := List.exists_cons_of_ne_nil hstem
    rw [hcons, List.cons_append] at hname
    rw [(List.cons.inj hname).2]
    exact List.mem_append_right _ List.mem_cons_self
  · intro h
    obtain ⟨before, after, rfl⟩ := List.append_of_mem h
    -- The character in front of the dot is left in the stem.
    have hpieces : Text.pieces '.' (c :: before ++ '.' :: after) =
        Text.pieces '.' (c :: before) ++ Text.pieces '.' after := Text.pieces_append_sep (c :: before) after
    obtain ⟨piece, hpiece, hmem⟩ : ∃ piece ∈ Text.pieces '.' (c :: before), c ∈ piece := by
      have hhead : c ∈ Text.unite ['.'] (Text.pieces '.' (c :: before)) := by
        rw [Text.unite_pieces]
        exact List.mem_cons_self
      exact (Text.mem_unite hhead).resolve_left hc
    have hstem : Text.unite ['.'] (Text.pieces '.' (c :: (before ++ '.' :: after))).dropLast ≠ [] := by
      rw [← List.cons_append, hpieces, List.dropLast_append_of_ne_nil (Text.pieces_ne_nil '.' after)]
      exact List.ne_nil_of_mem (Text.mem_unite_of_mem (List.mem_append_left _ hpiece) hmem)
    rw [splitName, if_neg hstem]
    exact List.getLast?_isSome.mpr (Text.pieces_ne_nil _ _)

variable {dir : List String} {n : String}

theorem fileName?_ofNames (h : ∀ m ∈ dir ++ [n], IsName m) :
    (ofNames (dir ++ [n])).fileName? = some n := by
  rw [fileName?, components_ofNames h]
  simp

theorem headTail_ofNames_cons (m : String) (names : List String) (h : ∀ k ∈ m :: names, IsName k) :
    (ofNames (m :: names)).headTail = (m.toList, names.map String.toList) :=
  headTail_of_parts (parts_ofNames (List.cons_ne_nil m names) h)

theorem parent?_ofNames (hd : dir ≠ []) (h : ∀ m ∈ dir ++ [n], IsName m) :
    (ofNames (dir ++ [n])).parent? = some (ofNames dir) := by
  obtain ⟨m, ms, rfl⟩ := List.exists_cons_of_ne_nil hd
  have hht := headTail_ofNames_cons m (ms ++ [n]) h
  have htail : Text.dropEndWhile isFiller ((ms ++ [n]).map String.toList) = _ :=
    dropEndWhile_names fun k hk => h k (List.mem_cons_of_mem _ hk)
  have hdir : Text.dropEndWhile isFiller (ms.map String.toList) = _ :=
    dropEndWhile_names fun k hk => h k (by simp [hk])
  have hm : m.toList ≠ [] := (h m (by simp)).ne_nil
  rw [List.map_append, List.map_cons, List.map_nil] at htail hht
  unfold parent?
  simp only [List.cons_append, hht, htail, List.append_eq_nil_iff, List.cons_ne_self, and_false,
    if_false, List.dropLast_concat, hdir]
  simp [spell, hm, ofNames]

theorem parent?_name (h : IsName n) : parent? ⟨n⟩ = some ⟨""⟩ := by
  have hht := headTail_ofNames_cons n [] (by simpa using h)
  rw [ofNames_singleton] at hht
  unfold parent?
  simp [hht, Text.dropEndWhile, h.ne_nil]

theorem parent?_of_parts {p : Path} {front : List (List Char)} (hn : IsName n)
    (hp : p.parts = front ++ [n.toList]) :
    p.parent? = some ((front.head?.map fun first =>
      spell first (Text.dropEndWhile isFiller front.tail)).getD ⟨""⟩) := by
  unfold parent? headTail
  rw [← parts, hp]
  cases front with
  | nil => simp [Text.dropEndWhile, hn.ne_nil]
  | cons first mid =>
    have hkept := Text.dropEndWhile_append_of_neg mid hn.not_filler
    simp [hkept]

/-- The directory above does not depend on the last name. -/
theorem parent?_join_ofNames {p : Path} {m : String} (h : ∀ k ∈ dir ++ [n], IsName k)
    (h' : ∀ k ∈ dir ++ [m], IsName k) :
    (p.join (ofNames (dir ++ [n]))).parent? = (p.join (ofNames (dir ++ [m]))).parent? := by
  have hparts {k : String} (hk : ∀ l ∈ dir ++ [k], IsName l) :
      (p.join (ofNames (dir ++ [k]))).parts = (p.trail ++ dir.map String.toList) ++ [k.toList] := by
    rw [parts_join (isAbsolute_ofNames hk), parts_ofNames (by simp) hk]
    simp
  rw [parent?_of_parts (h n (by simp)) (hparts h), parent?_of_parts (h' m (by simp)) (hparts h')]

theorem withFileName_ofNames {m : String} (h : ∀ k ∈ dir ++ [n], IsName k) (hm : IsName m) :
    (ofNames (dir ++ [n])).withFileName m = ofNames (dir ++ [m]) := by
  unfold withFileName
  rw [fileName?_ofNames h]
  rcases List.eq_nil_or_concat' dir with rfl | ⟨ds, d, rfl⟩
  · have hn : IsName n := h n (by simp)
    simp [parent?_name hn, join]
  · rw [parent?_ofNames (by simp) h, Option.getD_some]
    have hj := join_ofNames_join (p := ⟨""⟩) (List.append_ne_nil_of_right_ne_nil ds (List.cons_ne_nil d []))
      (fun k hk => h k (List.mem_append_left _ hk)) hm
    rw [join_of_empty rfl, join_of_empty rfl] at hj
    exact hj

theorem stem?_ofNames (h : ∀ m ∈ dir ++ [n], IsName m) :
    (ofNames (dir ++ [n])).stem? = some (String.ofList (splitName n.toList).1) := by
  rw [stem?, fileName?_ofNames h, Option.map_some]

theorem extension?_ofNames (h : ∀ m ∈ dir ++ [n], IsName m) :
    (ofNames (dir ++ [n])).extension? = (splitName n.toList).2.map String.ofList := by
  rw [extension?, fileName?_ofNames h, Option.bind_some]

theorem withExtension_ofNames {e : String} (h : ∀ m ∈ dir ++ [n], IsName m) (he : e ≠ "") :
    (ofNames (dir ++ [n])).withExtension e =
      ofNames (dir ++ [String.ofList ((splitName n.toList).1 ++ '.' :: e.toList)]) := by
  have he' : (e == "") = false := by simpa using he
  unfold withExtension
  rw [stem?_ofNames h]
  simp only [he', Bool.false_eq_true, if_false]
  have hbefore : (ofNames (dir ++ [n])).beforeLast = dir.map String.toList := by
    cases dir with
    | nil =>
      have hht := headTail_ofNames_cons n [] h
      unfold beforeLast
      rw [List.nil_append, hht]
      simp [Text.dropEndWhile]
    | cons d ds =>
      have hht := headTail_ofNames_cons d (ds ++ [n]) h
      have htail : Text.dropEndWhile isFiller ((ds ++ [n]).map String.toList) = _ :=
        dropEndWhile_names fun k hk => h k (List.mem_cons_of_mem _ hk)
      rw [List.map_append, List.map_cons, List.map_nil] at htail hht
      unfold beforeLast
      simp [hht, htail]
  rw [hbefore]
  simp [ofNames]

end Path

namespace Naming

open AssetCompiler.Path (splitName ofNames)

def named (stem extension : List Char) : String := String.ofList (stem ++ '.' :: extension)

/-- Stems and extensions that make a file name. -/
structure IsNamed (stem extension : List Char) : Prop where
  stem_ne : stem ≠ []
  extension_ne : extension ≠ []
  stem_flat : '/' ∉ stem
  extension_flat : '/' ∉ extension
  no_dot : '.' ∉ extension

namespace IsNamed

variable {stem extension : List Char}

theorem splitName (h : IsNamed stem extension) :
    splitName (named stem extension).toList = (stem, some extension) := by
  rw [named, String.toList_ofList]
  exact Path.splitName_append_dot h.stem_ne h.no_dot

theorem isName (h : IsNamed stem extension) : IsName (named stem extension) := by
  have hlength : 3 ≤ (named stem extension).toList.length := by
    have h1 := List.length_pos_iff.mpr h.stem_ne
    have h2 := List.length_pos_iff.mpr h.extension_ne
    simp only [named, String.toList_ofList, List.length_append, List.length_cons]
    omega
  refine ⟨?_, ?_, ?_⟩
  · simp [named, h.stem_flat, h.extension_flat]
  · cases hf : Path.isFiller (named stem extension).toList with
    | false => rfl
    | true =>
      simp only [Path.isFiller, Bool.or_eq_true, beq_iff_eq] at hf
      rcases hf with hf | hf <;> simp [hf] at hlength
  · intro hf
    simp [hf] at hlength

theorem suffixed (h : IsNamed stem extension) {s : List Char} (hs : '/' ∉ s) :
    IsNamed (stem ++ '-' :: s) extension :=
  ⟨by simp, h.extension_ne, by simp [h.stem_flat, hs], h.extension_flat, h.no_dot⟩

theorem replaced (h : IsNamed stem extension) {e : List Char} (h0 : e ≠ []) (hs : '/' ∉ e)
    (hd : '.' ∉ e) : IsNamed stem e :=
  ⟨h.stem_ne, h0, h.stem_flat, hs, hd⟩

end IsNamed

theorem isName_concat {dir : List String} {n : String} (hd : ∀ m ∈ dir, IsName m) (hn : IsName n) :
    ∀ m ∈ dir ++ [n], IsName m := by
  intro m hm
  rcases List.mem_append.mp hm with hm | hm
  · exact hd m hm
  · exact (List.mem_singleton.mp hm) ▸ hn

variable {dir : List String} {stem extension : List Char}

theorem suffixStem_ofNames (hd : ∀ m ∈ dir, IsName m) (h : IsNamed stem extension) {s : String}
    (hs : '/' ∉ s.toList) :
    suffixStem (ofNames (dir ++ [named stem extension])) s =
      ofNames (dir ++ [named (stem ++ '-' :: s.toList) extension]) := by
  have hall := isName_concat hd h.isName
  have hname : suffixedName (ofNames (dir ++ [named stem extension])) s =
      named (stem ++ '-' :: s.toList) extension := by
    rw [suffixedName, Path.stem?_ofNames hall, Path.extension?_ofNames hall, h.splitName]
    apply String.toList_inj.mp
    simp [named]
  rw [suffixStem, hname, Path.withFileName_ofNames hall (h.suffixed hs).isName]

theorem withExtension_ofNames_named (hd : ∀ m ∈ dir, IsName m) (h : IsNamed stem extension)
    {e : String} (he : e ≠ "") :
    (ofNames (dir ++ [named stem extension])).withExtension e =
      ofNames (dir ++ [named stem e.toList]) := by
  rw [Path.withExtension_ofNames (isName_concat hd h.isName) he, h.splitName]
  rfl

/-- The stem under a decoration: suffixes are put behind it. -/
def decoratedStem (d : Decoration) (stem : List Char) : List Char :=
  stem ++ (d.fingerprint.map fun f => '-' :: f.toList).getD [] ++
    (d.language.map fun l => '-' :: l.toList).getD []

def decoratedExtension (d : Decoration) (extension : List Char) : List Char :=
  (d.extension.map String.toList).getD extension

/-- Decorations that keep a file name a file name. -/
structure IsFlat (d : Decoration) : Prop where
  fingerprint : ∀ f, d.fingerprint = some f → '/' ∉ f.toList
  language : ∀ l, d.language = some l → '/' ∉ l.toList
  extension : ∀ e, d.extension = some e → e ≠ "" ∧ '/' ∉ e.toList ∧ '.' ∉ e.toList

theorem IsNamed.decorated {d : Decoration} (hf : IsFlat d) (h : IsNamed stem extension) :
    IsNamed (decoratedStem d stem) (decoratedExtension d extension) := by
  obtain ⟨fingerprint, e, language⟩ := d
  have h1 : IsNamed (stem ++ (fingerprint.map fun f => '-' :: f.toList).getD []) extension := by
    cases fingerprint with
    | none => simpa using h
    | some f => exact h.suffixed (hf.fingerprint f rfl)
  have h2 : IsNamed (decoratedStem ⟨fingerprint, e, language⟩ stem) extension := by
    cases language with
    | none => simpa [decoratedStem] using h1
    | some l => exact h1.suffixed (hf.language l rfl)
  cases e with
  | none => exact h2
  | some e =>
    obtain ⟨he, hs, hd⟩ := hf.extension e rfl
    exact h2.replaced (fun hn => he (String.toList_eq_nil_iff.mp hn)) hs hd

/-- A decoration changes the last name of a path: suffixes go behind its stem, and a new
extension in place of the old one. -/
theorem decorate_ofNames {d : Decoration} (hf : IsFlat d) (hd : ∀ m ∈ dir, IsName m)
    (h : IsNamed stem extension) :
    decorate (ofNames (dir ++ [named stem extension])) d =
      ofNames (dir ++ [named (decoratedStem d stem) (decoratedExtension d extension)]) := by
  obtain ⟨fingerprint, e, language⟩ := d
  have h1 : IsNamed (stem ++ (fingerprint.map fun f => '-' :: f.toList).getD []) extension ∧
      applyIfSome suffixStem (ofNames (dir ++ [named stem extension])) fingerprint =
        ofNames (dir ++ [named (stem ++ (fingerprint.map fun f => '-' :: f.toList).getD [])
          extension]) := by
    cases fingerprint with
    | none => simpa [applyIfSome] using h
    | some f =>
      have hs := hf.fingerprint f rfl
      exact ⟨h.suffixed hs, suffixStem_ofNames hd h hs⟩
  obtain ⟨hn1, h1⟩ := h1
  have h2 : IsNamed (stem ++ (fingerprint.map fun f => '-' :: f.toList).getD [])
        (decoratedExtension ⟨fingerprint, e, language⟩ extension) ∧
      applyIfSome Path.withExtension (ofNames (dir ++
        [named (stem ++ (fingerprint.map fun f => '-' :: f.toList).getD []) extension])) e =
        ofNames (dir ++ [named (stem ++ (fingerprint.map fun f => '-' :: f.toList).getD [])
          (decoratedExtension ⟨fingerprint, e, language⟩ extension)]) := by
    cases e with
    | none => exact ⟨hn1, rfl⟩
    | some e =>
      obtain ⟨he, hs, hdot⟩ := hf.extension e rfl
      have hne : e.toList ≠ [] := fun hn => he (String.toList_eq_nil_iff.mp hn)
      exact ⟨hn1.replaced hne hs hdot, withExtension_ofNames_named hd hn1 he⟩
  obtain ⟨hn2, h2⟩ := h2
  rw [decorate, h1, h2]
  cases language with
  | none => simp [applyIfSome, decoratedStem]
  | some l => exact suffixStem_ofNames hd hn2 (hf.language l rfl)

theorem head?_decoratedStem (d : Decoration) (h : stem ≠ []) :
    (decoratedStem d stem).head? = stem.head? := by
  obtain ⟨c, cs, rfl⟩ := List.exists_cons_of_ne_nil h
  simp [decoratedStem]

end Naming

theorem Kind.exists_named_of_ofPath? {dir : List String} {n : String} {k : Kind}
    (h : ∀ m ∈ dir ++ [n], IsName m) (hk : Kind.ofPath? (Path.ofNames (dir ++ [n])) = some k) :
    ∃ stem extension, n = Naming.named stem extension ∧ Naming.IsNamed stem extension ∧
      Kind.ofExtension? (String.ofList extension) = some k := by
  rw [Kind.ofPath?, Path.extension?_ofNames h] at hk
  cases he : (Path.splitName n.toList).2 with
  | none => simp [he] at hk
  | some extension =>
    simp only [he, Option.map_some, Option.bind_some] at hk
    have hsplit : Path.splitName n.toList = ((Path.splitName n.toList).1, some extension) := by rw [← he]
    obtain ⟨hn, hstem, hdot⟩ := Path.eq_append_dot_of_splitName hsplit
    have hflat := (h n (by simp)).no_separator
    rw [hn] at hflat
    refine ⟨_, extension, ?_, ⟨hstem, ?_, ?_, ?_, hdot⟩, hk⟩
    · apply String.toList_inj.mp
      rw [Naming.named, String.toList_ofList]
      exact hn
    · rintro rfl
      revert hk
      cases k <;> decide
    · intro hs
      exact hflat (List.mem_append_left _ hs)
    · intro hs
      exact hflat (List.mem_append_right _ (List.mem_cons_of_mem _ hs))

end AssetCompiler
