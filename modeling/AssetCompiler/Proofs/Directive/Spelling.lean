import AssetCompiler.Proofs.Directive.Spans
import AssetCompiler.Proofs.Path.Pieces

/-! # How directives are spelled

The texts that spell a directive are described here without a scanner: literals, runs of a class
of characters, names, file names and operands. Reading from the front of a text succeeds exactly
on these texts. Every reader is exact where the character behind its text cannot belong to it,
and each closing begins with such a character.
-/
namespace AssetCompiler

open Text (pieces unite strip? strip?_eq_some_iff)

/-- A nonempty text of one class of characters. -/
def Filled (p : Char → Bool) (cs : List Char) : Prop :=
  cs ≠ [] ∧ ∀ c ∈ cs, p c = true

/-- Nonempty segments of one class of characters, with a separator between two of them. -/
def Joined (sep : Char) (p : Char → Bool) (cs : List Char) : Prop :=
  ∃ segments, segments ≠ [] ∧ (∀ s ∈ segments, Filled p s) ∧ cs = unite [sep] segments

/-- The name of a variable. -/
def IsIdent (cs : List Char) : Prop :=
  ∃ c tail, cs = c :: tail ∧ Form.isNameStart c = true ∧ ∀ x ∈ tail, Form.isNameChar x = true

/-- A path with a nonempty stem and one of the given extensions. -/
def HasExtension (extensions : List String) (cs : List Char) : Prop :=
  ∃ stem, ∃ e ∈ extensions, Filled Form.isPathChar stem ∧ cs = stem ++ '.' :: e.toList

/-- A text with a minus sign in front, or without. -/
def signed (negative : Bool) (cs : List Char) : List Char :=
  if negative then '-' :: cs else cs

/-- Decimal places with their point, or nothing. -/
def pointed (places : List Char) : List Char :=
  if places = [] then [] else '.' :: places

/-- The written forms of an operand. -/
inductive Operand.Spelled : Operand → List Char → Prop
  | number (negative : Bool) (whole places : List Char) (hwhole : Filled Char.isDigit whole)
      (hplaces : ∀ c ∈ places, c.isDigit = true) :
      Spelled (.number (Decimal.Literal.toBinary64 ⟨negative,
          Decimal.natOfDigits (whole ++ places), -Int.ofNat places.length⟩))
        (signed negative (whole ++ pointed places))
  | text (inside : List Char) (h : ∀ c ∈ inside, c ≠ '"' ∧ c ≠ '\n') :
      Spelled (.text (String.ofList inside)) ('"' :: inside ++ ['"'])
  | flag (b : Bool) : Spelled (.flag b) (if b then "true".toList else "false".toList)
  | name (cs : List Char) (h : IsIdent cs) (ht : cs ≠ "true".toList) (hf : cs ≠ "false".toList) :
      Spelled (.name (String.ofList cs)) cs

/-- The written forms of a guard. -/
inductive Guard.Spelled : Guard → List Char → Prop
  | holds (o : Operand) (t : List Char) (h : o.Spelled t) : Spelled (.holds o) t
  | equal (l r : Operand) (t u : List Char) (hl : l.Spelled t) (hr : r.Spelled u) :
      Spelled (.equal l r) (t ++ " == ".toList ++ u)
  | differ (l r : Operand) (t u : List Char) (hl : l.Spelled t) (hr : r.Spelled u) :
      Spelled (.differ l r) (t ++ " != ".toList ++ u)

/-- The characters of a localized text's words. -/
def Form.isLocalizedChar (c : Char) : Bool := isWordChar c || c == '.'

/-- The texts in which a form spells a directive. -/
inductive Form.Spelled : Form → Directive → List Char → Prop
  | markupInclude (path : List Char) (h : Filled isPathChar path) :
      Spelled .markupInclude (.embed (String.ofList path) false)
        ("[%= include ".toList ++ path ++ " %]".toList)
  | escapedInclude (path : List Char) (h : Filled isPathChar path) :
      Spelled .escapedInclude (.embed (String.ofList path) true)
        ("[%= include_escaped ".toList ++ path ++ " %]".toList)
  | stylesheetInclude (path : List Char) (h : HasExtension ["css", "scss", "sass"] path) :
      Spelled .stylesheetInclude (.embed (String.ofList path) false)
        ("/*= include ".toList ++ path ++ " */".toList)
  | scriptInclude (path : List Char) (h : HasExtension ["js", "coffee"] path) :
      Spelled .scriptInclude (.embed (String.ofList path) false)
        ("[%= include \"".toList ++ path ++ "\" %]".toList)
  | stylesheetUrl (path : List Char) (h : HasExtension ["css", "scss", "sass"] path) :
      Spelled .stylesheetUrl (.stylesheetUrl (String.ofList path))
        ("[%= stylesheet_url ".toList ++ path ++ " %]".toList)
  | scriptUrl (path : List Char) (h : HasExtension ["js", "coffee"] path) :
      Spelled .scriptUrl (.scriptUrl (String.ofList path))
        ("[%= script_url ".toList ++ path ++ " %]".toList)
  | imageUrl (path : List Char)
      (h : HasExtension ["png", "jpg", "jpeg", "gif", "svg", "webp", "ico"] path) :
      Spelled .imageUrl (.imageUrl (String.ofList path))
        ("[%= image_url ".toList ++ path ++ " %]".toList)
  | imagePath (path : List Char)
      (h : HasExtension ["png", "jpg", "jpeg", "gif", "svg", "webp", "ico"] path) :
      Spelled .imagePath (.imagePath (String.ofList path))
        ("[%= image_path \"".toList ++ path ++ "\" %]".toList)
  | resourceUrl (key : List Char) (h : Joined '/' isWordChar key) :
      Spelled .resourceUrl (.resourceUrl (String.ofList key))
        ("[%= resource_url ".toList ++ key ++ " %]".toList)
  | setting (key filter : List Char) (hkey : Joined '.' isWordChar key)
      (hfilter : ∀ c ∈ filter, isWordChar c = true) (hlength : filter.length ≤ 25) :
      Spelled .setting (.setting (String.ofList key) (String.ofList filter))
        ("[!".toList ++ key ++ "!".toList ++ filter ++ "]".toList)
  | declare (name : List Char) (value : Operand) (t : List Char) (hname : IsIdent name)
      (hvalue : value.Spelled t) :
      Spelled .declare (.declare (String.ofList name) value)
        ("[% set ".toList ++ name ++ " = ".toList ++ t ++ " %]".toList)
  | openBlock (g : Guard) (t : List Char) (h : g.Spelled t) :
      Spelled .openBlock (.openBlock g) ("[% if ".toList ++ t ++ " %]".toList)
  | elseBranch : Spelled .elseBranch .elseBranch "[% else %]".toList
  | closeBlock : Spelled .closeBlock .closeBlock "[% end %]".toList
  | display (name : List Char) (h : IsIdent name) :
      Spelled .display (.display (String.ofList name))
        ("[%= ".toList ++ name ++ " %]".toList)
  | localize (key : List Char)
      (h : Joined ' ' isLocalizedChar key) :
      Spelled .localize (.localize (String.ofList key)) ("[ ".toList ++ key ++ " ]".toList)

/-- A text whose first character, if it has one, is outside a class. -/
def Ends (p : Char → Bool) (rest : List Char) : Prop :=
  ∀ c tail, rest = c :: tail → p c = false

namespace Form

variable {cs rest t : List Char} {p q : Char → Bool}

theorem takeWhile_dropWhile_eq_iff :
    cs.takeWhile p = t ∧ cs.dropWhile p = rest ↔
      cs = t ++ rest ∧ (∀ c ∈ t, p c = true) ∧ Ends p rest := by
  constructor
  · rintro ⟨rfl, rfl⟩
    refine ⟨List.takeWhile_append_dropWhile.symm, List.all_eq_true.mp List.all_takeWhile, ?_⟩
    intro c tail h
    have hhead := List.head?_dropWhile_not p cs
    rw [h] at hhead
    simpa using hhead
  · rintro ⟨rfl, hall, hends⟩
    rw [List.takeWhile_append_of_pos hall, List.dropWhile_append_of_pos hall]
    cases rest with
    | nil => simp
    | cons c tail => simp [hends c tail rfl]

/-- A run is read exactly as far as its class goes. -/
theorem run_eq_some_iff {α : Type} {make : List Char → Option α} {a : α} :
    run p make cs = some (a, rest) ↔
      ∃ t, cs = t ++ rest ∧ (∀ c ∈ t, p c = true) ∧ Ends p rest ∧ make t = some a := by
  simp only [run, Option.map_eq_some_iff, Prod.mk.injEq]
  constructor
  · rintro ⟨b, hb, rfl, hrest⟩
    obtain ⟨hcs, hall, hends⟩ := takeWhile_dropWhile_eq_iff.mp ⟨rfl, hrest⟩
    exact ⟨_, hcs, hall, hends, hb⟩
  · rintro ⟨t, hcs, hall, hends, hmake⟩
    obtain ⟨htake, hdrop⟩ := takeWhile_dropWhile_eq_iff.mpr ⟨hcs, hall, hends⟩
    exact ⟨a, htake ▸ hmake, rfl, hdrop⟩

theorem single_eq_some_iff {check : List Char → Option (List Char)} {make : String → Directive}
    {d : Directive} : single p check make cs = some (d, rest) ↔
      ∃ t r, cs = t ++ rest ∧ (∀ c ∈ t, p c = true) ∧ Ends p rest ∧ check t = some r ∧
        d = make (String.ofList r) := by
  simp only [single, run_eq_some_iff, Option.map_eq_some_iff]
  constructor
  · rintro ⟨t, hcs, hall, hends, r, hr, rfl⟩
    exact ⟨t, r, hcs, hall, hends, hr, rfl⟩
  · rintro ⟨t, r, hcs, hall, hends, hr, rfl⟩
    exact ⟨t, hcs, hall, hends, r, hr, rfl⟩

/-! ## What a run may be -/

theorem nonempty_eq_some_iff {r : List Char} : nonempty t = some r ↔ r = t ∧ t ≠ [] := by
  unfold nonempty
  split <;> simp_all [eq_comm]

theorem withExtension_eq_some_iff {extensions : List String} {r : List Char} :
    withExtension extensions t = some r ↔
      r = t ∧ ∃ stem, ∃ e ∈ extensions, stem ≠ [] ∧ t = stem ++ '.' :: e.toList := by
  have hfits : (extensions.any fun e => ('.' :: e.toList).isSuffixOf t && e.length + 1 < t.length) =
      true ↔ ∃ stem, ∃ e ∈ extensions, stem ≠ [] ∧ t = stem ++ '.' :: e.toList := by
    simp only [List.any_eq_true, Bool.and_eq_true, List.isSuffixOf_iff_suffix, decide_eq_true_eq]
    constructor
    · rintro ⟨e, he, ⟨stem, rfl⟩, hlength⟩
      refine ⟨stem, e, he, ?_, rfl⟩
      rintro rfl
      simp [String.length_toList] at hlength
    · rintro ⟨stem, e, he, hne, rfl⟩
      refine ⟨e, he, ⟨stem, rfl⟩, ?_⟩
      have := List.length_pos_iff.mpr hne
      simp only [List.length_append, List.length_cons, String.length_toList]
      omega
  unfold withExtension
  dsimp only
  split
  · rename_i h
    simp [hfits.mp h, eq_comm]
  · rename_i h
    simp only [reduceCtorEq, false_iff, not_and]
    exact fun _ hex => h (hfits.mpr hex)

theorem segmented_eq_some_iff {sep : Char} {r : List Char} :
    segmented sep t = some r ↔ r = t ∧ ∀ s ∈ pieces sep t, s ≠ [] := by
  simp only [segmented, List.all_eq_true, bne_iff_ne, Option.ite_none_right_eq_some,
    Option.some.injEq]
  exact and_comm.trans (and_congr_left' eq_comm)

/-- A run of a class and a separator outside it is cut into segments of the class. -/
theorem joined_iff {sep : Char} (hsep : p sep = false) :
    Joined sep p t ↔
      (∀ c ∈ t, (p c || c == sep) = true) ∧ ∀ s ∈ pieces sep t, s ≠ [] := by
  constructor
  · rintro ⟨segments, hne, hfilled, rfl⟩
    have hmem : ∀ s ∈ segments, sep ∉ s := by
      intro s hs hc
      rw [(hfilled s hs).2 sep hc] at hsep
      cases hsep
    rw [Text.pieces_unite hne hmem]
    refine ⟨fun c hc => ?_, fun s hs => (hfilled s hs).1⟩
    rcases Text.mem_unite hc with rfl | ⟨s, hs, hcs⟩
    · simp
    · simp [(hfilled s hs).2 c hcs]
  · rintro ⟨hclass, hne⟩
    refine ⟨pieces sep t, Text.pieces_ne_nil sep t, fun s hs => ⟨hne s hs, fun c hc => ?_⟩,
      (Text.unite_pieces sep t).symm⟩
    have hct := hclass c (Text.mem_of_mem_pieces hs hc)
    have hcsep : c ≠ sep := by
      rintro rfl
      exact Text.not_mem_of_mem_pieces hs hc
    simpa [hcsep] using hct

/-- Words with a space after each are words with a space between two, and one space more. -/
theorem spacedWords_eq_some_iff {r : List Char} :
    spacedWords t = some r ↔ t = r ++ [' '] ∧ ∀ s ∈ pieces ' ' r, s ≠ [] := by
  unfold spacedWords
  split
  · rename_i hlast
    obtain ⟨init, rfl⟩ := List.getLast?_eq_some_iff.mp hlast
    rw [List.dropLast_concat, segmented_eq_some_iff, List.append_cancel_right_eq]
    exact ⟨fun ⟨h, hne⟩ => ⟨h.symm, h ▸ hne⟩, fun ⟨h, hne⟩ => ⟨h.symm, h ▸ hne⟩⟩
  · rename_i hlast
    simp only [reduceCtorEq, false_iff, not_and]
    rintro rfl
    exact absurd (by simp) hlast

theorem filterName_eq_some_iff {r : List Char} :
    filterName t = some r ↔ r = t ∧ t.length ≤ 25 := by
  unfold filterName
  split
  · rename_i h
    exact ⟨fun e => ⟨(Option.some.inj e).symm, h⟩, fun e => e.1 ▸ rfl⟩
  · rename_i h
    exact ⟨nofun, fun e => absurd e.2 h⟩

theorem isNameChar_of_isNameStart {c : Char} (h : isNameStart c = true) : isNameChar c = true := by
  simp only [isNameStart, isNameChar, Char.isAlphanum, Bool.or_eq_true] at h ⊢
  tauto

theorem nameText_eq_some_iff {r : List Char} :
    (∀ c ∈ t, isNameChar c = true) ∧ nameText t = some r ↔ r = t ∧ IsIdent t := by
  cases t with
  | nil => simp [nameText, IsIdent]
  | cons c tail =>
    simp only [nameText, Option.ite_none_right_eq_some, Option.some.injEq, List.forall_mem_cons]
    constructor
    · rintro ⟨⟨-, htail⟩, hstart, rfl⟩
      exact ⟨rfl, c, tail, rfl, hstart, htail⟩
    · rintro ⟨rfl, c', tail', h, hstart, htail⟩
      obtain ⟨rfl, rfl⟩ := List.cons.inj h
      exact ⟨⟨isNameChar_of_isNameStart hstart, htail⟩, hstart, rfl⟩

/-- A name is read exactly as far as it goes. -/
theorem run_nameText_eq_some_iff :
    run isNameChar nameText cs = some (t, rest) ↔
      cs = t ++ rest ∧ IsIdent t ∧ Ends isNameChar rest := by
  rw [run_eq_some_iff]
  constructor
  · rintro ⟨u, hcs, hall, hends, hname⟩
    obtain ⟨rfl, hident⟩ := nameText_eq_some_iff.mp ⟨hall, hname⟩
    exact ⟨hcs, hident, hends⟩
  · rintro ⟨hcs, hident, hends⟩
    obtain ⟨hall, hname⟩ := nameText_eq_some_iff.mpr ⟨rfl, hident⟩
    exact ⟨t, hcs, hall, hends, hname⟩

end Form

end AssetCompiler
