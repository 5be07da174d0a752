import AssetCompiler.Proofs.Asset.Address
import AssetCompiler.Proofs.Path.Links

/-! # Targets below anchored roots

From absolute roots without `..`, the directory that an asset links from is the one that its target
lies in, so its links lead to the targets that they are made for. Wherever the roots lie, the
extension of a target tells its kind, and the targets of different stylesheets lie apart.
-/
namespace AssetCompiler

open Naming (named IsNamed decoratedStem decoratedExtension)

/-- An absolute path without `..`. -/
def Path.FromRoot (p : Path) : Prop := p.isAbsolute = true ∧ Component.up ∉ p.components

instance (p : Path) : Decidable p.FromRoot :=
  inferInstanceAs (Decidable (p.isAbsolute = true ∧ Component.up ∉ p.components))

/-- A configuration whose stylesheets, images and partials are placed from the root. -/
structure Config.Anchored (c : Config) : Prop where
  stylesheets : c.stylesheets.target.FromRoot
  images : c.images.target.FromRoot
  cache : c.cache.FromRoot

namespace Asset

variable {c : Config} {a b : Asset} {dir : List String} {stem extension : List Char}
  {fp? : Option String} {home : Location}

theorem exists_spells_targetRoot (hc : c.Anchored) (hk : a.kind = .stylesheet ∨ a.kind = .image) :
    ∃ names, (a.targetRoot c).Spells names := by
  unfold targetRoot
  split
  · obtain ⟨names, hnames⟩ := Path.exists_spells hc.cache.1 hc.cache.2
    have hpartials := hnames.join_name (show IsName "partials" from by decide)
    have hdir : IsName a.kind.dirName := by cases a.kind <;> decide
    exact ⟨_, hpartials.join_name hdir⟩
  · rcases hk with hk | hk <;> rw [hk]
    · exact Path.exists_spells hc.stylesheets.1 hc.stylesheets.2
    · exact Path.exists_spells hc.images.1 hc.images.2

/-- A target lies in the directory that its asset links from. -/
theorem PlacedAt.exists_spells (h : PlacedAt c a dir stem extension) (hc : c.Anchored)
    (hk : a.kind = .stylesheet ∨ a.kind = .image) (hf : FlatFingerprint fp?) :
    ∃ above n, (a.targetDir c).Spells above ∧ (a.targetPath c fp?).Spells (above ++ [n]) := by
  obtain ⟨names, hroot⟩ := exists_spells_targetRoot hc hk
  have htarget := hroot.join_ofNames (by simp) (h.isNames_target hf)
  have hsource := hroot.join_ofNames (by simp) h.isNames
  rw [← h.targetPath_eq hf, ← List.append_assoc] at htarget
  rw [← List.append_assoc] at hsource
  obtain ⟨above, habove, hspells⟩ := hsource.parent?
  refine ⟨names ++ dir, _, ?_, htarget⟩
  rw [targetDir, h.relativeSource_eq, habove]
  exact hspells

/-- A link leads from the directory of the target that it stands in to the target it is made for. -/
theorem resolve_link (ha : a.Placed c) (hb : b.Placed c) (hc : c.Anchored)
    (hka : a.kind = .stylesheet) (hkb : b.kind = .image) {fp?' : Option String}
    (hf : FlatFingerprint fp?) (hf' : FlatFingerprint fp?') :
    (⟨Naming.relativeLink (b.targetPath c fp?') (a.targetDir c)⟩ : Path).resolve
        ((a.targetPath c fp?).resolve home).dropLast = (b.targetPath c fp?').resolve home := by
  obtain ⟨_, _, _, ha⟩ := ha
  obtain ⟨_, _, _, hb⟩ := hb
  obtain ⟨above, n, hdir, htarget⟩ := ha.exists_spells hc (.inl hka) hf
  obtain ⟨above', n', _, htarget'⟩ := hb.exists_spells hc (.inr hkb) hf'
  rw [htarget.resolve, htarget'.resolve, List.dropLast_concat]
  exact Naming.resolve_relativeLink htarget' hdir

end Asset

/-! ### Targets of different assets -/

theorem Text.exists_pieces_append {sep : Char} {back : List Char} (h : sep ∉ back) (xs : List Char) :
    ∃ ps front, pieces sep (xs ++ back) = ps ++ [front ++ back] := by
  induction xs with
  | nil => exact ⟨[], [], pieces_eq_singleton h⟩
  | cons c cs ih =>
    obtain ⟨ps, front, hps⟩ := ih
    by_cases hc : c = sep
    · exact ⟨[] :: ps, front, by simp [pieces, hc, hps]⟩
    · cases ps with
      | nil => exact ⟨[], c :: front, by simp [pieces, hc, hps]⟩
      | cons p ps => exact ⟨(c :: p) :: ps, front, by simp [pieces, hc, hps]⟩

namespace Path

theorem isName_extended {front extension : List Char} (hne : extension ≠ []) (hdot : '.' ∉ extension)
    (hflat : '/' ∉ front ++ '.' :: extension) : IsName (String.ofList (front ++ '.' :: extension)) := by
  obtain ⟨c, cs, rfl⟩ := List.exists_cons_of_ne_nil hne
  have hc : c ≠ '.' := fun he => hdot (he ▸ List.mem_cons_self)
  refine isName_ofList hflat ?_ ?_
  · cases front with
    | nil => simp [isFiller]
    | cons x front => cases front <;> simp [isFiller]
  · cases front with
    | nil => simp [hc]
    | cons x front => cases front <;> simp

theorem exists_resolve_of_getLast? {p : Path} {n : String} (hn : IsName n)
    (h : p.parts.getLast? = some n.toList) (home : Location) : ∃ above, p.resolve home = above ++ [n] := by
  obtain ⟨front, hfront⟩ := List.getLast?_eq_some_iff.mp h
  exact ⟨_, by rw [resolve, hfront, List.foldl_append, List.foldl_cons, List.foldl_nil, follow_name hn]⟩

end Path

/-- A location whose last name has an extension of the kind. -/
def EndsIn (kind : Kind) (l : Location) : Prop :=
  ∃ above front extension, l = above ++ [String.ofList (front ++ '.' :: extension)] ∧
    '.' ∉ extension ∧ Kind.ofExtension? (String.ofList extension) = some kind

namespace EndsIn

variable {kind kind' : Kind} {l above : Location}

theorem kind?_eq (h : EndsIn kind l) (front extension : List Char)
    (he : l = above ++ [String.ofList (front ++ '.' :: extension)]) (hdot : '.' ∉ extension) :
    Kind.ofExtension? (String.ofList extension) = some kind := by
  obtain ⟨above', front', extension', rfl, hdot', hkind'⟩ := h
  have hlast := congrArg (fun n : String => (Text.pieces '.' n.toList).getLast?)
    (List.cons.inj (List.append_inj' he rfl).2).1
  simp only [String.toList_ofList, Text.pieces_append_sep, Text.pieces_eq_singleton hdot,
    Text.pieces_eq_singleton hdot', List.getLast?_concat, Option.some.injEq] at hlast
  rw [← hlast, hkind']

theorem kind_eq (h : EndsIn kind l) (h' : EndsIn kind' l) : kind = kind' := by
  obtain ⟨above', front', extension', he, hdot', hkind'⟩ := h'
  have hkind := h.kind?_eq front' extension' he hdot'
  exact Option.some.inj (hkind.symm.trans hkind')

theorem ne_manifestAt (h : EndsIn kind l) (home : Location) (directory : Path) :
    l ≠ Cache.manifestAt home directory := by
  rintro rfl
  cases h.kind?_eq "cache".toList "json".toList
    (Cache.manifestAt_eq home directory) (by decide)

theorem ne_lockAt (h : EndsIn kind l) (home : Location) (directory : Path) :
    l ≠ Cache.lockAt home directory := by
  rintro rfl
  cases h.kind?_eq "cache".toList "lock".toList
    (Cache.lockAt_eq home directory) (by decide)

end EndsIn

namespace Asset

variable {c : Config} {a b : Asset} {dir : List String} {stem extension : List Char}
  {fp? fp?' : Option String} {home : Location}

/-- Whatever the language, a target ends in an extension of its kind. -/
theorem endsIn_target (h : ({ a with language := none } : Asset).PlacedAt c dir stem extension)
    (hf : FlatFingerprint fp?) (home : Location) :
    EndsIn a.kind ((a.targetPath c fp?).resolve home) := by
  have hnamed := h.isNamed.decorated (h.isFlat hf)
  have hkind := h.kind_decorated fp?
  have hplain := h.resolve_target hf home
  have hdecorate := Naming.decorate_ofNames (h.isFlat hf) h.dirs h.isNamed
  rw [← h.relativeSource_eq] at hdecorate
  generalize decoratedStem _ stem = s at hnamed hplain hdecorate
  generalize decoratedExtension _ extension = e at hnamed hkind hplain hdecorate
  cases hl : a.language with
  | none =>
    have hsame : a = { a with language := none } := by rw [← hl]
    rw [hsame, hplain, ← List.append_assoc]
    exact ⟨_, s, e, rfl, hnamed.no_dot, hkind⟩
  | some l =>
    have hall := Naming.isName_concat h.dirs hnamed.isName
    have htarget : a.targetPath c fp? = (a.targetRoot c).join
        (((Path.ofNames (dir ++ [named s e])).parent?.getD ⟨""⟩).join
          ⟨named (s ++ '-' :: l.toList) e⟩) := by
      have hstem : Naming.suffixedName (Path.ofNames (dir ++ [named s e])) l =
          named (s ++ '-' :: l.toList) e := by
        rw [Naming.suffixedName, Path.stem?_ofNames hall, Path.extension?_ofNames hall,
          hnamed.splitName]
        apply String.toList_inj.mp
        simp [named]
      rw [targetPath]
      show (a.targetRoot c).join (Naming.applyIfSome Naming.suffixStem
        (Naming.decorate (({ a with language := none } : Asset).relativeSource c)
          (({ a with language := none } : Asset).decoration fp?)) a.language) = _
      rw [hdecorate, hl, Naming.applyIfSome, Naming.suffixStem, hstem, Path.withFileName,
        Path.fileName?_ofNames hall]
    -- A language may hold separators, but what follows the last of them ends like the name.
    have hback : '/' ∉ '.' :: e := by simp [hnamed.extension_flat]
    obtain ⟨ps, front, hpieces⟩ := Text.exists_pieces_append hback (s ++ '-' :: l.toList)
    have hparts : (a.targetPath c fp?).parts.getLast? =
        some (String.ofList (front ++ '.' :: e)).toList := by
      rw [htarget, Path.getLast?_parts_join, Path.getLast?_parts_join, named, Path.parts_of_text,
        hpieces, List.getLast?_concat, String.toList_ofList]
    have hname : IsName (String.ofList (front ++ '.' :: e)) := by
      refine Path.isName_extended hnamed.extension_ne hnamed.no_dot ?_
      exact Text.not_mem_of_mem_pieces (hpieces ▸ List.mem_append_right _ List.mem_cons_self)
    obtain ⟨above, habove⟩ := Path.exists_resolve_of_getLast? hname hparts home
    exact ⟨above, front, e, habove, hnamed.no_dot, hkind⟩

/-- Stylesheets with one target are one stylesheet: fingerprints have one length, so they do not hide
what stands before them. -/
theorem source_eq_of_resolve (ha : a.Placed c) (hb : b.Placed c) (hk : a.kind = .stylesheet)
    (hla : a.language = none) (hlb : b.language = none) (hfp : a.Takes fp?) (hfp' : b.Takes fp?')
    (h : (a.targetPath c fp?).resolve home = (b.targetPath c fp?').resolve home) :
    a.source = b.source := by
  obtain ⟨dir, stem, extension, ha⟩ := ha
  obtain ⟨dir', stem', extension', hb⟩ := hb
  rw [ha.resolve_target hfp.flat, hb.resolve_target hfp'.flat] at h
  have hlast := congrArg List.getLast? h
  rw [← List.append_assoc, ← List.append_assoc, List.getLast?_concat, List.getLast?_concat] at hlast
  have hname := Option.some.inj hlast
  obtain ⟨hkind, hpartial, hroot⟩ := targetRoot_eq_of_name ha hb hfp.flat hfp'.flat hname
  rw [hroot] at h
  obtain rfl : dir = dir' := (List.append_inj' (List.append_cancel_left h) rfl).1
  have hnames := (ha.isNamed.decorated (ha.isFlat hfp.flat)).splitName
  rw [hname, (hb.isNamed.decorated (hb.isFlat hfp'.flat)).splitName, Prod.mk.injEq,
    Option.some.injEq] at hnames
  have hscript : a.needsTranspile = false ∧ b.needsTranspile = false := by
    simp [needsTranspile, ← hkind, hk]
  simp only [decoratedStem, decoratedExtension, decoration, hla, hlb, hscript, Bool.false_eq_true,
    if_false, Option.map_none, Option.getD_none, List.append_nil] at hnames
  have hsame : fp?.isSome = fp?'.isSome := by
    rw [hfp.1, hfp'.1, isFingerprinted, isFingerprinted, hkind, hpartial]
  have hlength : ((fp?'.map fun f => '-' :: f.toList).getD []).length =
      ((fp?.map fun f => '-' :: f.toList).getD []).length := by
    cases fp? with
    | none => rw [Option.isNone_iff_eq_none.mp (Option.isSome_eq_false_iff.mp hsame.symm)]
    | some f =>
      obtain ⟨f', rfl⟩ := Option.isSome_iff_exists.mp (hsame ▸ rfl : fp?'.isSome = true)
      simp [(hfp.2 f rfl).1, (hfp'.2 f' rfl).1]
  obtain rfl := (List.append_inj' hnames.1 hlength).1
  rw [ha.source_eq, hb.source_eq, hkind, hnames.2]

end Asset

end AssetCompiler
