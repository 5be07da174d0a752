import AssetCompiler.Build.Context
import AssetCompiler.Proofs.Asset.Collection

/-! # Assets that share a target

The name of a target is put together from the name of the source, a fingerprint or a language, and
an extension. It tells them apart again as long as no language can be taken for the end of another
one, and no two partial scripts lose the extensions that tell them apart.
-/
namespace AssetCompiler

open Naming (named IsNamed decoratedStem decoratedExtension)

def IsFingerprint (f : String) : Prop := f.toList.length = Context.fingerprintLength ∧ '/' ∉ f.toList

instance (f : String) : Decidable (IsFingerprint f) :=
  inferInstanceAs (Decidable (f.toList.length = Context.fingerprintLength ∧ '/' ∉ f.toList))

namespace Digest

theorem length_text (s : Words) : s.text.length = 64 := by
  simp [Words.text, wordText]

theorem not_mem_text (s : Words) : '/' ∉ s.text := by
  have hdigit : ∀ n < 16, Nat.digitChar n ≠ '/' := by decide
  intro h
  obtain ⟨w, _, hw⟩ := List.mem_flatMap.mp h
  obtain ⟨i, _, hi⟩ := List.mem_map.mp hw
  exact hdigit _ (Nat.mod_lt _ (by omega)) hi

end Digest

theorem Context.isFingerprint_saltedFingerprint (salt : Nat → ByteArray) (draw : Nat)
    (bytes : ByteArray) : IsFingerprint (saltedFingerprint salt draw bytes) := by
  have htext : (saltedFingerprint salt draw bytes).toList =
      (Digest.digest (bytes ++ salt draw).toList).text.take fingerprintLength := by
    rw [saltedFingerprint, String.toList_ofList, Digest.ofBytes, String.toList_ofList]
  rw [IsFingerprint, htext]
  constructor
  · rw [List.length_take, Digest.length_text]
    rfl
  · exact fun h => Digest.not_mem_text _ (List.mem_of_mem_take h)

namespace Config

/-- Languages without separators, none of which ends in a dash and another one. -/
structure Unambiguous (c : Config) : Prop where
  flat : ∀ l ∈ c.markup.languages, '/' ∉ l.toList
  apart : ∀ l ∈ c.markup.languages, ∀ l' ∈ c.markup.languages, ¬ '-' :: l.toList <:+ l'.toList

variable {c : Config} {k : Kind}

/-- Only markup of a valid configuration has languages. -/
theorem languages_eq_nil (h : c.validate = .ok c) (hk : k ≠ .markup) :
    (c.sectionOf k).languages = [] := by
  have hnone : c.localizedKind? = none := by
    cases hl : c.localizedKind? with
    | none => rfl
    | some k' =>
      unfold validate invalid? at h
      rw [hl] at h
      by_cases hu : c.delivery.url = "" <;> simp [hu] at h
  have hmem : k ∈ [Kind.stylesheet, .script, .image] := by
    cases k
    case markup => exact absurd rfl hk
    all_goals simp
  have hkind := List.find?_eq_none.mp hnone k hmem
  simpa using hkind

theorem Unambiguous.languages_flat (h : c.Unambiguous) (hv : c.validate = .ok c) (k : Kind) :
    ∀ l ∈ (c.sectionOf k).languages, '/' ∉ l.toList := by
  by_cases hk : k = .markup
  · exact hk ▸ h.flat
  · rw [languages_eq_nil hv hk]
    exact fun l hl => by cases hl

end Config

/-- Stems and suffixes that give the same name are the same, unless one suffix ends like the other
with a dash in front. -/
theorem eq_of_append_dash_eq {s s' l l' : List Char} (h : s ++ '-' :: l = s' ++ '-' :: l')
    (hl : ¬ '-' :: l <:+ l') (hl' : ¬ '-' :: l' <:+ l) : s = s' ∧ l = l' := by
  rcases List.append_eq_append_iff.mp h with ⟨as, rfl, he⟩ | ⟨as, rfl, he⟩
  · cases as with
    | nil =>
      simp only [List.nil_append, List.cons.injEq, true_and] at he
      exact ⟨(List.append_nil _).symm, he⟩
    | cons x as =>
      obtain ⟨_, he⟩ := List.cons.inj he
      exact absurd ⟨as, he.symm⟩ hl'
  · cases as with
    | nil =>
      simp only [List.nil_append, List.cons.injEq, true_and] at he
      exact ⟨List.append_nil _, he.symm⟩
    | cons x as =>
      obtain ⟨_, he⟩ := List.cons.inj he
      exact absurd ⟨as, he.symm⟩ hl

namespace Asset

variable {c : Config} {a b : Asset} {fp? fp?' : Option String}

/-- Whether an asset can be given a target with this fingerprint, or with none. -/
def Takes (a : Asset) (fp? : Option String) : Prop :=
  fp?.isSome = a.isFingerprinted ∧ ∀ f, fp? = some f → IsFingerprint f

/-- Partial scripts of which one is transpiled, and that differ at most in their extensions. -/
def Twins (c : Config) (a b : Asset) : Prop :=
  a.kind = .script ∧ b.kind = .script ∧ a.isPartial = true ∧ b.isPartial = true ∧
    (a.needsTranspile = true ∨ b.needsTranspile = true) ∧
    (a.relativeSource c).withExtension "js" = (b.relativeSource c).withExtension "js"

theorem Takes.flat (h : a.Takes fp?) : FlatFingerprint fp? := fun f hf => (h.2 f hf).2

/-- The language behind a stem, as a decoration spells it. -/
def spelledLanguage (language : Option String) : List Char :=
  (language.map fun l => '-' :: l.toList).getD []

theorem eq_of_append_language_eq {s : Section} {stem stem' : List Char} {language language' : Option String}
    (hapart : ∀ l ∈ s.languages, ∀ l' ∈ s.languages, ¬ '-' :: l.toList <:+ l'.toList)
    (hl : language ∈ Collection.variants s) (hl' : language' ∈ Collection.variants s)
    (h : stem ++ spelledLanguage language = stem' ++ spelledLanguage language') :
    stem = stem' ∧ language = language' := by
  unfold Collection.variants at hl hl'
  split at hl
  · rename_i hnone
    rw [if_pos hnone, List.mem_singleton] at hl'
    rw [List.mem_singleton] at hl
    subst hl hl'
    simpa [spelledLanguage] using h
  · rename_i hsome
    rw [if_neg hsome] at hl'
    obtain ⟨l, hmem, rfl⟩ := List.mem_map.mp hl
    obtain ⟨l', hmem', rfl⟩ := List.mem_map.mp hl'
    obtain ⟨hstem, hsame⟩ := eq_of_append_dash_eq h (hapart l hmem l' hmem') (hapart l' hmem' l hmem)
    exact ⟨hstem, congrArg some (String.toList_inj.mp hsame)⟩

theorem kind_of_isFingerprinted (h : a.isFingerprinted = true) : a.kind ≠ .markup := by
  intro hk
  simp [isFingerprinted, hk] at h

/-- Fingerprints have one length, so different ones tell names apart. -/
theorem decoratedStem_ne {stem stem' : List Char} {f f' : String} (ha : a.language = none)
    (hb : b.language = none) (hf : IsFingerprint f) (hf' : IsFingerprint f') (hne : f ≠ f') :
    decoratedStem (a.decoration (some f)) stem ≠ decoratedStem (b.decoration (some f')) stem' := by
  intro h
  simp only [decoratedStem, decoration, ha, hb, Option.map_some, Option.map_none, Option.getD_some,
    Option.getD_none, List.append_nil] at h
  have hsuffix := (List.append_inj' h (by simp [hf.1, hf'.1])).2
  exact hne (String.toList_inj.mp (List.cons.inj hsuffix).2)

theorem eq_of_decorated_eq (hvalid : c.validate = .ok c) (hlanguages : c.Unambiguous)
    {stem stem' : List Char} (hkind : a.kind = b.kind) (hpartial : a.isPartial = b.isPartial)
    (ha : a.language ∈ Collection.variants (c.sectionOf a.kind))
    (hb : b.language ∈ Collection.variants (c.sectionOf b.kind))
    (hfp : a.Takes fp?) (hfp' : b.Takes fp?') (hdistinct : ∀ f, fp? = some f → fp?' ≠ some f)
    (h : decoratedStem (a.decoration fp?) stem = decoratedStem (b.decoration fp?') stem') :
    a.isFingerprinted = false ∧ stem = stem' ∧ a.language = b.language := by
  have hsame : b.isFingerprinted = a.isFingerprinted := by
    rw [isFingerprinted, isFingerprinted, hkind, hpartial]
  rw [← hkind] at hb
  cases hf : a.isFingerprinted with
  | true =>
    rw [Collection.variants, if_pos (Config.languages_eq_nil hvalid (kind_of_isFingerprinted hf)),
      List.mem_singleton] at ha hb
    obtain ⟨f, rfl⟩ := Option.isSome_iff_exists.mp (hfp.1.trans hf)
    obtain ⟨f', rfl⟩ := Option.isSome_iff_exists.mp (hfp'.1.trans (hsame.trans hf))
    have hne : f ≠ f' := fun he => hdistinct f rfl (congrArg some he.symm)
    exact absurd h (decoratedStem_ne ha hb (hfp.2 f rfl) (hfp'.2 f' rfl) hne)
  | false =>
    obtain rfl : fp? = none := Option.isNone_iff_eq_none.mp
      (Option.isSome_eq_false_iff.mp (hfp.1.trans hf))
    obtain rfl : fp?' = none := Option.isNone_iff_eq_none.mp
      (Option.isSome_eq_false_iff.mp (hfp'.1.trans (hsame.trans hf)))
    have happend : stem ++ spelledLanguage a.language = stem' ++ spelledLanguage b.language := by
      simpa only [decoratedStem, decoration, spelledLanguage, Option.map_none, Option.getD_none,
        List.append_nil] using h
    refine ⟨rfl, eq_of_append_language_eq (fun l hl l' hl' => ?_) ha hb happend⟩
    by_cases hk : a.kind = .markup
    · rw [hk] at hl hl'
      exact hlanguages.apart l hl l' hl'
    · rw [Config.languages_eq_nil hvalid hk] at hl
      cases hl

/-- Different assets have their targets at different places. -/
theorem resolve_targetPath_ne {t : Tree} (hvalid : c.validate = .ok c) (hlanguages : c.Unambiguous)
    (hw : t.WellFormed) (ha : a ∈ Collection.ofFiles c (Discovery.sources t c))
    (hb : b ∈ Collection.ofFiles c (Discovery.sources t c))
    (hab : ¬(a.source = b.source ∧ a.language = b.language)) (htwins : ¬Twins c a b)
    (hfp : a.Takes fp?) (hfp' : b.Takes fp?') (hdistinct : ∀ f, fp? = some f → fp?' ≠ some f)
    (home : Location) : (a.targetPath c fp?).resolve home ≠ (b.targetPath c fp?').resolve home := by
  have hflat := hlanguages.languages_flat hvalid
  obtain ⟨dir, stem, extension, hpa⟩ := Collection.placed_of_flat_languages hw hflat ha
  obtain ⟨dir', stem', extension', hpb⟩ := Collection.placed_of_flat_languages hw hflat hb
  intro hresolve
  rw [hpa.resolve_target hfp.flat, hpb.resolve_target hfp'.flat] at hresolve
  have hlast := congrArg List.getLast? hresolve
  rw [← List.append_assoc, ← List.append_assoc, List.getLast?_concat, List.getLast?_concat] at hlast
  have hname := Option.some.inj hlast
  obtain ⟨hkind, hpartial, hroot⟩ := targetRoot_eq_of_name hpa hpb hfp.flat hfp'.flat hname
  have hnames := (hpa.isNamed.decorated (hpa.isFlat hfp.flat)).splitName
  rw [hname, (hpb.isNamed.decorated (hpb.isFlat hfp'.flat)).splitName, Prod.mk.injEq,
    Option.some.injEq] at hnames
  obtain ⟨hunprinted, rfl, hlanguage⟩ := eq_of_decorated_eq hvalid hlanguages hkind hpartial
    (Collection.language_mem_variants ha) (Collection.language_mem_variants hb) hfp hfp' hdistinct
    hnames.1.symm
  rw [hroot] at hresolve
  obtain rfl : dir = dir' := (List.append_inj' (List.append_cancel_left hresolve) rfl).1
  -- Directory, stem and language agree. Only transpiling changes an extension.
  by_cases htranspiled : a.needsTranspile = true ∨ b.needsTranspile = true
  · have hscript : a.kind = .script := by
      rcases htranspiled with h | h <;> simp only [needsTranspile, Bool.and_eq_true, beq_iff_eq] at h
      · exact h.1
      · exact hkind.trans h.1
    have hpart : a.isPartial = true := by
      simpa [isFingerprinted, hscript] using hunprinted
    refine htwins ⟨hscript, hkind ▸ hscript, hpart, hpartial ▸ hpart, htranspiled, ?_⟩
    rw [hpa.relativeSource_eq, hpb.relativeSource_eq,
      Naming.withExtension_ofNames_named hpa.dirs hpa.isNamed (by decide),
      Naming.withExtension_ofNames_named hpb.dirs hpb.isNamed (by decide)]
  · rw [not_or, Bool.not_eq_true, Bool.not_eq_true] at htranspiled
    have hextension := hnames.2
    simp only [decoratedExtension, decoration, htranspiled.1, htranspiled.2, Bool.false_eq_true,
      if_false, Option.map_none, Option.getD_none] at hextension
    refine hab ⟨?_, hlanguage⟩
    rw [hpa.source_eq, hpb.source_eq, hkind, hextension]

end Asset

end AssetCompiler
