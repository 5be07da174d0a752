import AssetCompiler.Proofs.Path.Reference
import AssetCompiler.Text.Span

/-! # Decorated names, taken apart

A path with a file name is cut into a directory, a stem and at most one extension. A decoration keeps the
directory, puts its suffixes behind the stem and may put in an extension, wherever the name has its dots.
As long as the length of fingerprints is fixed, a decorated name gives back what it was made of.
-/
namespace AssetCompiler

namespace Text

theorem size_eq_zero_iff {cs : List Char} : size cs = 0 ↔ cs = [] := by
  cases cs with
  | nil => simp [size]
  | cons c cs =>
    have hpos := c.utf8Size_pos
    simp only [size, List.cons_ne_nil, iff_false]
    omega

/-- A text is cut in one place only, when the number of octets behind the cut is known. -/
theorem append_inj_of_size {xs ys back back' : List Char} (h : xs ++ back = ys ++ back')
    (hsize : size back = size back') : xs = ys ∧ back = back' := by
  rcases List.append_eq_append_iff.mp h with ⟨more, rfl, rfl⟩ | ⟨more, rfl, rfl⟩
  all_goals
    rw [size_append] at hsize
    obtain rfl : more = [] := size_eq_zero_iff.mp (by omega)
    simp

end Text

namespace Path

variable {p q dir dir' : Path} {n m : String} {stem stem' : List Char}
  {extension? extension?' : Option (List Char)} {front : List (List Char)}

theorem exists_trimmed_of_fileName? (h : p.fileName? = some n) :
    ∃ front, trimmed p.parts = front ++ [n.toList] := by
  obtain ⟨first, rest, hparts⟩ := List.exists_cons_of_ne_nil p.parts_ne_nil
  rw [hparts]
  exact exists_dropEndWhile_of_fileName? h hparts

theorem parent?_of_trimmed (hn : IsName n) (h : trimmed p.parts = front ++ [n.toList]) :
    p.parent? = some (above front) := by
  obtain ⟨first, rest, hparts⟩ := List.exists_cons_of_ne_nil p.parts_ne_nil
  rw [hparts, trimmed] at h
  unfold parent?
  rw [headTail_of_parts hparts]
  cases front with
  | nil =>
    obtain ⟨rfl, hkept⟩ := List.cons.inj h
    simp [hkept, hn.ne_nil, above, trimmed]
  | cons f mid =>
    rw [List.cons_append] at h
    obtain ⟨rfl, hkept⟩ := List.cons.inj h
    simp [hkept, above, trimmed]

theorem components_spell {first : List Char} {rest more : List (List Char)}
    (hflat : ∀ piece ∈ first :: rest, '/' ∉ piece) (hmore : more ≠ []) :
    (spell first rest).components =
      (leadingComponent? first more).toList ++ rest.filterMap (Component.ofPiece? false) := by
  by_cases h : first ≠ [] ∨ rest ≠ []
  · rw [components_of_parts (parts_spell h hflat)]
    by_cases hfirst : first = []
    · simp [leadingComponent?, hfirst, hmore, h.resolve_left (not_not.mpr hfirst)]
    · simp [leadingComponent?, hfirst]
  · obtain ⟨rfl, rfl⟩ : first = [] ∧ rest = [] := by simpa [not_or] using h
    simp [leadingComponent?, hmore]
    rfl

theorem components_of_trimmed (hn : IsName n) (h : trimmed p.parts = front ++ [n.toList]) :
    p.components = (above front).components ++ [.name n] := by
  obtain ⟨first, rest, hparts⟩ := List.exists_cons_of_ne_nil p.parts_ne_nil
  have hfillers (ps : List (List Char)) :
      (Text.dropEndWhile isFiller ps).filterMap (Component.ofPiece? false) = _ :=
    Text.filterMap_dropEndWhile (fun _ hf => ofPiece?_false_eq_none_iff.mpr hf) ps
  have hflat : ∀ piece ∈ trimmed front, '/' ∉ piece := by
    intro piece hp
    have hmem : piece ∈ trimmed p.parts := h ▸ List.mem_append_left _ (mem_of_mem_trimmed hp)
    exact Text.not_mem_of_mem_pieces (show piece ∈ p.parts from mem_of_mem_trimmed hmem)
  rw [components_of_parts hparts, ← hfillers rest]
  rw [hparts, trimmed] at h
  cases front with
  | nil =>
    obtain ⟨rfl, hkept⟩ := List.cons.inj h
    rw [hkept]
    simp [leadingComponent?, hn.ne_nil, hn.ofPiece?, above, trimmed, components_of_empty]
  | cons f mid =>
    rw [List.cons_append] at h
    obtain ⟨rfl, hkept⟩ := List.cons.inj h
    -- Something follows the first piece, so on both sides it is the root when it is empty.
    have hrest : rest ≠ [] := by
      rintro rfl
      simp [Text.dropEndWhile] at hkept
    rw [hkept, List.filterMap_append, above, trimmed, components_spell hflat hrest, hfillers]
    simp [hn.ofPiece?]

/-- A path is cut into its directory and, in its file name, a stem and at most one extension. -/
structure Cut (p dir : Path) (stem : List Char) (extension? : Option (List Char)) : Prop where
  parent : p.parent? = some dir
  stem : p.stem? = some (String.ofList stem)
  extension : p.extension? = extension?.map String.ofList

namespace Cut

theorem of_fileName? (hparent : p.parent? = some dir) (hname : p.fileName? = some n)
    (hsplits : Splits n.toList stem extension?) : p.Cut dir stem extension? where
  parent := hparent
  stem := by rw [stem?, hname, Option.map_some, hsplits.splitName_eq]
  extension := by rw [Path.extension?, hname, Option.bind_some, hsplits.splitName_eq]

theorem exists_fileName? (h : p.Cut dir stem extension?) :
    ∃ n, p.fileName? = some n ∧ Splits n.toList stem extension? := by
  obtain ⟨n, hname, hstem⟩ := Option.map_eq_some_iff.mp h.stem
  have hextension := h.extension
  rw [Path.extension?, hname, Option.bind_some] at hextension
  refine ⟨n, hname, splitName_eq_iff.mp (Prod.ext (String.ofList_injective hstem) ?_)⟩
  exact Option.map_injective (fun _ _ => String.ofList_injective) hextension

/-- The pieces of a path that is cut, up to fillers at its end. -/
theorem exists_front (h : p.Cut dir stem extension?) : ∃ (n : String) (front : List (List Char)),
    p.fileName? = some n ∧ Splits n.toList stem extension? ∧ dir = above front ∧
      trimmed p.parts = front ++ [n.toList] ∧ ∀ piece ∈ front, '/' ∉ piece := by
  obtain ⟨n, hname, hsplits⟩ := h.exists_fileName?
  obtain ⟨front, hfront⟩ := exists_trimmed_of_fileName? hname
  have hdir := parent?_of_trimmed (isName_of_fileName? hname) hfront
  rw [h.parent] at hdir
  refine ⟨n, front, hname, hsplits, Option.some.inj hdir, hfront, fun piece hp => ?_⟩
  exact Text.not_mem_of_mem_pieces (show piece ∈ p.parts from
    mem_of_mem_trimmed (hfront ▸ List.mem_append_left _ hp))

/-- The directory and the file name make up the path. -/
theorem components (h : p.Cut dir stem extension?) :
    p.components = dir.components ++ [.name (String.ofList (joined stem extension?))] := by
  obtain ⟨n, front, hname, hsplits, rfl, hfront, _⟩ := h.exists_front
  rw [components_of_trimmed (isName_of_fileName? hname) hfront, ← hsplits.eq_joined, String.ofList_toList]

/-- Paths are equal when they are cut into the same parts. -/
theorem beq_iff (h : p.Cut dir stem extension?) (h' : q.Cut dir' stem' extension?') :
    (p == q) = true ↔ (dir == dir') = true ∧ stem = stem' ∧ extension? = extension?' := by
  obtain ⟨n, hn, hsplits⟩ := h.exists_fileName?
  obtain ⟨m, hm, hsplits'⟩ := h'.exists_fileName?
  rw [Path.beq_iff, Path.beq_iff, h.components, h'.components]
  constructor
  · intro heq
    obtain ⟨hdir, hname⟩ := List.append_inj' heq rfl
    have hjoined : joined stem extension? = joined stem' extension?' :=
      String.ofList_injective (by simpa using hname)
    rw [← hsplits.eq_joined, ← hsplits'.eq_joined] at hjoined
    have hparts := hsplits.splitName_eq.symm.trans (hjoined ▸ hsplits'.splitName_eq)
    exact ⟨hdir, Prod.mk.inj hparts⟩
  · rintro ⟨hdir, rfl, rfl⟩
    rw [hdir]

end Cut

theorem exists_cut (h : p.fileName? = some n) : ∃ dir stem extension?, p.Cut dir stem extension? := by
  obtain ⟨front, hfront⟩ := exists_trimmed_of_fileName? h
  obtain ⟨stem, extension?, hsplits⟩ := Splits.total n.toList
  exact ⟨above front, stem, extension?,
    .of_fileName? (parent?_of_trimmed (isName_of_fileName? h) hfront) h hsplits⟩

/-- A path of pieces that end in a name leads to the directory that the pieces above the name lead to. -/
theorem cut_of_parts (hn : IsName n) (h : p.parts = front ++ [n.toList])
    (hsplits : Splits n.toList stem extension?) : p.Cut (above front) stem extension? :=
  .of_fileName? (parent?_eq_above hn h) (fileName?_of_getLast? hn (by rw [h, List.getLast?_concat])) hsplits

theorem Cut.withFileName (h : p.Cut dir stem extension?) (hm : IsName m)
    (hsplits : Splits m.toList stem' extension?') : (p.withFileName m).Cut dir stem' extension?' := by
  obtain ⟨n, front, hname, _, rfl, _, hflat⟩ := h.exists_front
  have hparts : (p.withFileName m).parts = trimmed front ++ [m.toList] := by
    rw [Path.withFileName, hname, h.parent]
    exact parts_join_above hm hflat
  rw [above_congr (trimmed_trimmed front).symm]
  exact cut_of_parts hm hparts hsplits

theorem beforeLast_of_trimmed (h : trimmed p.parts = front ++ [n.toList]) : p.beforeLast = front := by
  obtain ⟨first, rest, hparts⟩ := List.exists_cons_of_ne_nil p.parts_ne_nil
  rw [hparts, trimmed] at h
  unfold beforeLast
  rw [headTail_of_parts hparts]
  cases front with
  | nil => simp [(List.cons.inj h).2]
  | cons f mid =>
    rw [List.cons_append] at h
    obtain ⟨rfl, hkept⟩ := List.cons.inj h
    simp [hkept]

theorem Cut.withExtension {e : String} (h : p.Cut dir stem extension?) (he : e ≠ "")
    (hflat : '/' ∉ e.toList) (hdot : '.' ∉ e.toList) : (p.withExtension e).Cut dir stem (some e.toList) := by
  obtain ⟨n, front, hname, hsplits, rfl, hfront, hfrontFlat⟩ := h.exists_front
  have hn := isName_of_fileName? hname
  have hnamed : Naming.IsNamed stem e.toList := by
    have hne : e.toList ≠ [] := fun hnil => he (String.toList_eq_nil_iff.mp hnil)
    have hstem : '/' ∉ stem := fun hmem => hn.no_separator
      (hsplits.eq_joined ▸ List.mem_append_left _ hmem)
    exact ⟨hsplits.stem_ne_nil hn.ne_nil, hne, hstem, hflat, hdot⟩
  have hparts : (p.withExtension e).parts = front ++ [(Naming.named stem e.toList).toList] := by
    have hne : (e == "") = false := by simpa using he
    have hflat : ∀ piece ∈ front ++ [(Naming.named stem e.toList).toList], '/' ∉ piece := by
      simpa [or_imp, forall_and] using ⟨hfrontFlat, hnamed.isName.no_separator⟩
    rw [Path.withExtension, h.stem]
    simp only [hne, Bool.false_eq_true, if_false, beforeLast_of_trimmed hfront]
    rw [parts_of_text, ← Text.pieces_unite (by simp) hflat]
    simp [Naming.named]
  exact cut_of_parts hnamed.isName hparts (splitName_eq_iff.mp hnamed.splitName)

end Path

namespace Naming

open AssetCompiler.Path (joined)

/-- Decorations whose texts cannot be taken for directories or extensions. -/
structure IsDotless (d : Decoration) : Prop extends IsFlat d where
  fingerprint_dotless : ∀ f, d.fingerprint = some f → '.' ∉ f.toList
  language_dotless : ∀ l, d.language = some l → '.' ∉ l.toList

instance (d : Decoration) : Decidable (IsDotless d) :=
  decidable_of_iff ((∀ f ∈ d.fingerprint, '/' ∉ f.toList ∧ '.' ∉ f.toList) ∧
      (∀ l ∈ d.language, '/' ∉ l.toList ∧ '.' ∉ l.toList) ∧
      ∀ e ∈ d.extension, e ≠ "" ∧ '/' ∉ e.toList ∧ '.' ∉ e.toList)
    ⟨fun ⟨hf, hl, he⟩ => ⟨⟨fun f h => (hf f h).1, fun l h => (hl l h).1, he⟩,
        fun f h => (hf f h).2, fun l h => (hl l h).2⟩,
      fun h => ⟨fun f hf => ⟨h.fingerprint f hf, h.fingerprint_dotless f hf⟩,
        fun l hl => ⟨h.language l hl, h.language_dotless l hl⟩, h.extension⟩⟩

/-- Fingerprints that are as long as each other, in characters or in octets. -/
inductive SameLength : Option String → Option String → Prop
  | absent : SameLength none none
  | characters {f g : String} (h : f.length = g.length) : SameLength (some f) (some g)
  | octets {f g : String} (h : Text.size f.toList = Text.size g.toList) : SameLength (some f) (some g)

variable {p q dir : Path} {stem stem' : List Char} {extension? : Option (List Char)} {d e : Decoration}

theorem cut_suffixStem {s : String} (h : p.Cut dir stem extension?) (hs : '/' ∉ s.toList)
    (hdot : '.' ∉ s.toList) :
    (suffixStem p s).Cut dir (stem ++ '-' :: s.toList) extension? := by
  obtain ⟨n, hname, hsplits⟩ := h.exists_fileName?
  have htext : (suffixedName p s).toList = joined (stem ++ '-' :: s.toList) extension? := by
    rw [suffixedName, h.stem, h.extension]
    cases extension? <;> simp [joined]
  refine h.withFileName (isName_suffixedName hname hs) ?_
  rw [htext]
  exact hsplits.suffixed hdot

theorem cut_applyIfSome_suffixStem {s? : Option String} (h : p.Cut dir stem extension?)
    (hs : ∀ s, s? = some s → '/' ∉ s.toList ∧ '.' ∉ s.toList) :
    (applyIfSome suffixStem p s?).Cut dir (stem ++ (s?.map fun s => '-' :: s.toList).getD []) extension? := by
  cases s? with
  | none => simpa [applyIfSome] using h
  | some s => exact cut_suffixStem h (hs s rfl).1 (hs s rfl).2

/-- A decoration keeps the directory, puts suffixes behind the stem, and an extension where it has one. -/
theorem cut_decorate (hd : IsDotless d) (h : p.Cut dir stem extension?) :
    (decorate p d).Cut dir (decoratedStem d stem) ((d.extension.map String.toList).or extension?) := by
  have hfingerprint := cut_applyIfSome_suffixStem h fun f hf =>
    ⟨hd.fingerprint f hf, hd.fingerprint_dotless f hf⟩
  have hextension : (applyIfSome Path.withExtension (applyIfSome suffixStem p d.fingerprint) d.extension).Cut dir
      (stem ++ (d.fingerprint.map fun f => '-' :: f.toList).getD [])
      ((d.extension.map String.toList).or extension?) := by
    cases he : d.extension with
    | none => exact hfingerprint
    | some e =>
      obtain ⟨hne, hflat, hdot⟩ := hd.extension e he
      exact hfingerprint.withExtension hne hflat hdot
  exact cut_applyIfSome_suffixStem hextension fun l hl => ⟨hd.language l hl, hd.language_dotless l hl⟩

theorem SameLength.append_inj {f? g? : Option String} {xs ys : List Char} (hlength : SameLength f? g?)
    (h : xs ++ (f?.map fun f => '-' :: f.toList).getD [] = ys ++ (g?.map fun g => '-' :: g.toList).getD []) :
    xs = ys ∧ f? = g? := by
  cases hlength with
  | absent => exact ⟨by simpa using h, rfl⟩
  | characters hlength =>
    rw [← String.length_toList, ← String.length_toList] at hlength
    obtain ⟨hstem, hsuffix⟩ := List.append_inj' h (congrArg (· + 1) hlength)
    exact ⟨hstem, congrArg some (String.toList_inj.mp (List.cons.inj hsuffix).2)⟩
  | octets hlength =>
    obtain ⟨hstem, hsuffix⟩ := Text.append_inj_of_size h (congrArg ('-'.utf8Size + ·) hlength)
    exact ⟨hstem, congrArg some (String.toList_inj.mp (List.cons.inj hsuffix).2)⟩

/-- With fingerprints of one length and in one language, a decorated stem gives back what it was made of. -/
theorem decoratedStem_eq_iff (hlength : SameLength d.fingerprint e.fingerprint)
    (hlanguage : d.language = e.language) :
    decoratedStem d stem = decoratedStem e stem' ↔ stem = stem' ∧ d.fingerprint = e.fingerprint := by
  rw [decoratedStem, decoratedStem, hlanguage, List.append_cancel_right_eq]
  refine ⟨hlength.append_inj, ?_⟩
  rintro ⟨rfl, hfingerprint⟩
  rw [hfingerprint]

/-- An extension that is put in where it stands already changes nothing. -/
theorem or_extension?_eq (h : p.Cut dir stem extension?) (hkept : ∀ x ∈ d.extension, p.extension? = some x) :
    (d.extension.map String.toList).or extension? = extension? := by
  cases hd : d.extension with
  | none => rfl
  | some x =>
    have hx := hkept x hd
    rw [h.extension] at hx
    obtain ⟨y, rfl, rfl⟩ := Option.map_eq_some_iff.mp hx
    simp

/-- Whatever dots a file name has and whatever stands above it, a decorated path is in the same directory,
has the extension that was put in or else its own, and the suffixes behind its stem. As long as no extension
is replaced, fingerprints of one length keep files apart: paths that are decorated in one language are equal
only if they were equal before and have one fingerprint. -/
theorem decorate_exact :
    (∀ (p : Path) (d : Decoration), p.fileName? ≠ none → IsDotless d →
      (decorate p d).parent? = p.parent? ∧
      (decorate p d).extension? = d.extension.or p.extension? ∧
      (decorate p d).stem? = p.stem?.map fun stem => String.ofList (decoratedStem d stem.toList)) ∧
    ∀ (p q : Path) (d e : Decoration), p.fileName? ≠ none → q.fileName? ≠ none → IsDotless d → IsDotless e →
      SameLength d.fingerprint e.fingerprint → d.language = e.language →
      (∀ x ∈ d.extension, p.extension? = some x) → (∀ x ∈ e.extension, q.extension? = some x) →
      ((decorate p d == decorate q e) = true ↔ (p == q) = true ∧ d.fingerprint = e.fingerprint) := by
  constructor
  · intro p d hp hd
    obtain ⟨n, hname⟩ := Option.ne_none_iff_exists'.mp hp
    obtain ⟨dir, stem, extension?, hcut⟩ := Path.exists_cut hname
    have hdecorated := cut_decorate hd hcut
    refine ⟨hdecorated.parent.trans hcut.parent.symm, ?_, ?_⟩
    · rw [hdecorated.extension, hcut.extension]
      cases d.extension <;> simp
    · rw [hdecorated.stem, hcut.stem, Option.map_some, String.toList_ofList]
  · intro p q d e hp hq hd he hlength hlanguage hkept hkept'
    obtain ⟨n, hname⟩ := Option.ne_none_iff_exists'.mp hp
    obtain ⟨m, hname'⟩ := Option.ne_none_iff_exists'.mp hq
    obtain ⟨dir, stem, extension?, hcut⟩ := Path.exists_cut hname
    obtain ⟨dir', stem', extension?', hcut'⟩ := Path.exists_cut hname'
    rw [(cut_decorate hd hcut).beq_iff (cut_decorate he hcut'), hcut.beq_iff hcut',
      or_extension?_eq hcut hkept, or_extension?_eq hcut' hkept', decoratedStem_eq_iff hlength hlanguage]
    tauto

theorem decorate_exact_archive :
    let p : Path := ⟨"img//.archive.tar.gz/"⟩
    let q : Path := ⟨"img/./.archive.tar.gz"⟩
    let script : Decoration := ⟨some "3fa9", some "js", some "pt-br"⟩
    let kept : Decoration := ⟨some "3fa9", some "gz", some "pt-br"⟩
    let plain : Decoration := ⟨some "3fa9", none, some "pt-br"⟩
    decorate p script = ⟨"img/.archive.tar-3fa9-pt-br.js"⟩ ∧
      (decorate p script).parent? = some ⟨"img"⟩ ∧
      (decorate p script).extension? = some "js" ∧
      (decorate p script).stem? = some ".archive.tar-3fa9-pt-br" ∧
      (decorate p kept == decorate q plain) = true ∧
      (decorate p kept == decorate ⟨"img/.archive.tar-3fa9.gz"⟩ plain) = false := by
  intro p q script kept plain
  obtain ⟨hcut, hequal⟩ := decorate_exact
  have hp : p.fileName? ≠ none := by decide +kernel
  have hplain : IsDotless plain := by decide
  have hkept : IsDotless kept := by decide
  have hown : ∀ x ∈ kept.extension, p.extension? = some x := by decide +kernel
  obtain ⟨hparent, hextension, hstem⟩ := hcut p script hp (by decide)
  have hsame := hequal p q kept plain hp (by decide +kernel) hkept hplain (.characters rfl) rfl hown
      (by decide)
  have hother := hequal p ⟨"img/.archive.tar-3fa9.gz"⟩ kept plain hp (by decide +kernel) hkept hplain
    (.octets rfl) rfl hown (by decide)
  refine ⟨by decide +kernel, ?_, ?_, ?_, hsame.mpr (by decide +kernel), ?_⟩
  · rw [hparent]
    decide +kernel
  · exact hextension
  · rw [hstem]
    decide +kernel
  · rw [Bool.eq_false_iff, ne_eq, hother]
    decide +kernel

/-- Fingerprints of different lengths do not keep files apart. -/
example : decorate ⟨"logo.png"⟩ { fingerprint := some "3fa9-c01b" } =
    decorate ⟨"logo-3fa9.png"⟩ { fingerprint := some "c01b" } := by decide +kernel

end Naming

end AssetCompiler
