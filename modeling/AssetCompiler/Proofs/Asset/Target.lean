import AssetCompiler.Asset.Collection
import AssetCompiler.Proofs.Cache.Disk
import AssetCompiler.Proofs.Path.Decoration

/-! # Where targets lie

A target lies below its root under the directories of its source, and its last name tells the
kind of the asset and whether it is a partial. So targets at one location are one path, and when
the roots of targets and the cache lie apart from the roots of sources, no target is a source,
nor a file of the cache itself.
-/
namespace AssetCompiler

open Naming (named IsNamed IsFlat decoratedStem decoratedExtension)

/-- Neither of two locations lies below the other. -/
def Apart (a b : Location) : Prop := ¬a <+: b ∧ ¬b <+: a

instance (a b : Location) : Decidable (Apart a b) := inferInstanceAs (Decidable (¬a <+: b ∧ ¬b <+: a))

theorem Apart.not_prefix_append {a b : Location} (h : Apart a b) (c : Location) : ¬a <+: b ++ c := by
  intro hp
  rcases List.prefix_or_prefix_of_prefix hp (List.prefix_append b c) with h' | h'
  · exact h.1 h'
  · exact h.2 h'

/-- The layout of a configuration: the roots of targets and the cache lie apart from the roots
of sources, and no language has a separator in it. -/
structure Layout (home : Location) (c : Config) : Prop where
  targets : ∀ k k', Apart ((c.sectionOf k).source.resolve home) ((c.sectionOf k').target.resolve home)
  cache : ∀ k, Apart ((c.sectionOf k).source.resolve home) (c.cache.resolve home)
  languages : ∀ k, ∀ l ∈ (c.sectionOf k).languages, '/' ∉ l.toList

def InSources (home : Location) (c : Config) (l : Location) : Prop :=
  ∃ k, (c.sectionOf k).source.resolve home <+: l

namespace Asset

variable {c : Config} {a b : Asset} {home : Location}

structure PlacedAt (c : Config) (a : Asset) (dir : List String) (stem extension : List Char) : Prop where
  root_ne : (c.sectionOf a.kind).source.text ≠ ""
  dirs : ∀ m ∈ dir, IsName m
  isNamed : IsNamed stem extension
  source_eq : a.source =
    (c.sectionOf a.kind).source.join (Path.ofNames (dir ++ [named stem extension]))
  kind_eq : Kind.ofExtension? (String.ofList extension) = some a.kind
  language_flat : ∀ l, a.language = some l → '/' ∉ l.toList

/-- An asset whose source lies below the source root of its kind, in a language without
separators. -/
def Placed (c : Config) (a : Asset) : Prop := ∃ dir stem extension, PlacedAt c a dir stem extension

/-- Fingerprints without separators. -/
def FlatFingerprint (fp? : Option String) : Prop := ∀ f, fp? = some f → '/' ∉ f.toList

namespace PlacedAt

variable {dir : List String} {stem extension : List Char} {fp? : Option String}

theorem isNames (h : PlacedAt c a dir stem extension) :
    ∀ m ∈ dir ++ [named stem extension], IsName m :=
  Naming.isName_concat h.dirs h.isNamed.isName

theorem resolve_source (h : PlacedAt c a dir stem extension) (home : Location) :
    a.source.resolve home =
      (c.sectionOf a.kind).source.resolve home ++ (dir ++ [named stem extension]) := by
  rw [h.source_eq, Path.resolve_join_ofNames (by simp) h.isNames]

theorem fileName?_source (h : PlacedAt c a dir stem extension) :
    a.source.fileName? = some (named stem extension) := by
  rw [h.source_eq, Path.fileName?_join_ofNames (by simp) h.isNames]
  simp

theorem extension?_source (h : PlacedAt c a dir stem extension) :
    a.source.extension? = some (String.ofList extension) := by
  rw [Path.extension?, h.fileName?_source, Option.bind_some, h.isNamed.splitName]
  rfl

theorem isPartial_iff (h : PlacedAt c a dir stem extension) :
    a.isPartial = (stem.head? == some Naming.partialMark) := by
  obtain ⟨x, xs, hx⟩ := List.exists_cons_of_ne_nil h.isNamed.stem_ne
  simp [isPartial, Naming.isPartial, h.fileName?_source, named, hx]

theorem relativeSource_eq (h : PlacedAt c a dir stem extension) :
    a.relativeSource c = Path.ofNames (dir ++ [named stem extension]) := by
  rw [relativeSource, h.source_eq,
    Path.stripPrefix?_join_ofNames h.root_ne (by simp) h.isNames, Option.getD_some]

theorem isFlat (h : PlacedAt c a dir stem extension) (hf : FlatFingerprint fp?) :
    IsFlat (a.decoration fp?) := by
  refine ⟨hf, h.language_flat, ?_⟩
  intro e he
  simp only [decoration] at he
  split at he
  · cases he
    decide
  · cases he

theorem kind_decorated (h : PlacedAt c a dir stem extension) (fp? : Option String) :
    Kind.ofExtension? (String.ofList (decoratedExtension (a.decoration fp?) extension)) =
      some a.kind := by
  unfold decoratedExtension decoration
  dsimp only
  cases ht : a.needsTranspile with
  | false => simpa using h.kind_eq
  | true =>
    simp only [needsTranspile, Bool.and_eq_true, beq_iff_eq] at ht
    rw [ht.1]
    simp only [if_true, Option.map_some, Option.getD_some]
    decide

/-- The target of a placed asset: the root of its kind's targets, the directories of the source,
and the decorated name. -/
theorem targetPath_eq (h : PlacedAt c a dir stem extension) (hf : FlatFingerprint fp?) :
    a.targetPath c fp? = (a.targetRoot c).join (Path.ofNames (dir ++
      [named (decoratedStem (a.decoration fp?) stem)
        (decoratedExtension (a.decoration fp?) extension)])) := by
  rw [targetPath, h.relativeSource_eq, Naming.decorate_ofNames (h.isFlat hf) h.dirs h.isNamed]

theorem isNames_target (h : PlacedAt c a dir stem extension) (hf : FlatFingerprint fp?) :
    ∀ m ∈ dir ++ [named (decoratedStem (a.decoration fp?) stem)
      (decoratedExtension (a.decoration fp?) extension)], IsName m :=
  Naming.isName_concat h.dirs (h.isNamed.decorated (h.isFlat hf)).isName

theorem resolve_target (h : PlacedAt c a dir stem extension) (hf : FlatFingerprint fp?)
    (home : Location) : (a.targetPath c fp?).resolve home = (a.targetRoot c).resolve home ++ (dir ++
      [named (decoratedStem (a.decoration fp?) stem)
        (decoratedExtension (a.decoration fp?) extension)]) := by
  rw [h.targetPath_eq hf, Path.resolve_join_ofNames (by simp) (h.isNames_target hf)]

theorem components_target (h : PlacedAt c a dir stem extension) (hf : FlatFingerprint fp?) :
    (a.targetPath c fp?).components = (a.targetRoot c).components ++ (dir ++
      [named (decoratedStem (a.decoration fp?) stem)
        (decoratedExtension (a.decoration fp?) extension)]).map Component.name := by
  rw [h.targetPath_eq hf, Path.components_join_ofNames (by simp) (h.isNames_target hf)]

end PlacedAt

def identity (a : Asset) : Kind × Path × Option String := (a.kind, a.source, a.language)

theorem identity_eq_iff :
    a.identity = b.identity ↔ a.kind = b.kind ∧ a.source = b.source ∧ a.language = b.language := by
  simp [identity]

section congr

variable (h : a.identity = b.identity)
include h

theorem isFingerprinted_congr : a.isFingerprinted = b.isFingerprinted := by
  obtain ⟨hk, hs, _⟩ := identity_eq_iff.mp h
  simp only [isFingerprinted, isPartial, hk, hs]

theorem targetPath_congr (fp? : Option String) : a.targetPath c fp? = b.targetPath c fp? := by
  obtain ⟨hk, hs, hl⟩ := identity_eq_iff.mp h
  cases a
  cases b
  dsimp only at hk hs hl
  subst hk hs hl
  rfl

theorem placed_congr (ha : a.Placed c) : b.Placed c := by
  obtain ⟨hk, hs, hl⟩ := identity_eq_iff.mp h
  obtain ⟨dir, stem, extension, h1, h2, h3, h4, h5, h6⟩ := ha
  exact ⟨dir, stem, extension, hk ▸ h1, h2, h3, by rw [← hs, ← hk]; exact h4, hk ▸ h5, hl ▸ h6⟩

end congr

/-- All targets that an asset may get lie in one directory. -/
theorem parent?_targetPath (h : a.Placed c) {fp? fp?' : Option String} (hf : FlatFingerprint fp?)
    (hf' : FlatFingerprint fp?') : (a.targetPath c fp?).parent? = (a.targetPath c fp?').parent? := by
  obtain ⟨dir, stem, extension, h⟩ := h
  rw [h.targetPath_eq hf, h.targetPath_eq hf']
  exact Path.parent?_join_ofNames (h.isNames_target hf) (h.isNames_target hf')

theorem targetRoot_eq_of_name {dir dir' : List String} {stem extension stem' extension' : List Char}
    {fp? fp?' : Option String} (ha : PlacedAt c a dir stem extension)
    (hb : PlacedAt c b dir' stem' extension') (hf : FlatFingerprint fp?) (hf' : FlatFingerprint fp?')
    (h : named (decoratedStem (a.decoration fp?) stem)
        (decoratedExtension (a.decoration fp?) extension) =
      named (decoratedStem (b.decoration fp?') stem')
        (decoratedExtension (b.decoration fp?') extension')) :
    a.kind = b.kind ∧ a.isPartial = b.isPartial ∧ a.targetRoot c = b.targetRoot c := by
  have hna := (ha.isNamed.decorated (ha.isFlat hf)).splitName
  have hnb := (hb.isNamed.decorated (hb.isFlat hf')).splitName
  rw [h, hnb] at hna
  simp only [Prod.mk.injEq, Option.some.injEq] at hna
  obtain ⟨hstem, hextension⟩ := hna
  have hkind : a.kind = b.kind := by
    have hk := ha.kind_decorated fp?
    rw [← hextension, hb.kind_decorated fp?'] at hk
    exact (Option.some.inj hk).symm
  have hpartial : a.isPartial = b.isPartial := by
    rw [ha.isPartial_iff, hb.isPartial_iff,
      ← Naming.head?_decoratedStem (a.decoration fp?) ha.isNamed.stem_ne,
      ← Naming.head?_decoratedStem (b.decoration fp?') hb.isNamed.stem_ne, hstem]
  refine ⟨hkind, hpartial, ?_⟩
  simp only [targetRoot, hkind, hpartial]

theorem targetRoot_eq_of_resolve {dir dir' : List String} {stem extension stem' extension' : List Char}
    {fp? fp?' : Option String} (ha : PlacedAt c a dir stem extension)
    (hb : PlacedAt c b dir' stem' extension') (hf : FlatFingerprint fp?) (hf' : FlatFingerprint fp?')
    (h : (a.targetPath c fp?).resolve home = (b.targetPath c fp?').resolve home) :
    a.kind = b.kind ∧ a.isPartial = b.isPartial ∧ a.targetRoot c = b.targetRoot c := by
  rw [ha.resolve_target hf, hb.resolve_target hf'] at h
  have hlast := congrArg List.getLast? h
  rw [← List.append_assoc, ← List.append_assoc, List.getLast?_concat, List.getLast?_concat] at hlast
  exact targetRoot_eq_of_name ha hb hf hf' (Option.some.inj hlast)

theorem isFingerprinted_eq_of_resolve (ha : a.Placed c) (hb : b.Placed c) {fp? fp?' : Option String}
    (hf : FlatFingerprint fp?) (hf' : FlatFingerprint fp?')
    (h : (a.targetPath c fp?).resolve home = (b.targetPath c fp?').resolve home) :
    a.isFingerprinted = b.isFingerprinted := by
  obtain ⟨dir, stem, extension, ha⟩ := ha
  obtain ⟨dir', stem', extension', hb⟩ := hb
  obtain ⟨hk, hp, _⟩ := targetRoot_eq_of_resolve ha hb hf hf' h
  rw [isFingerprinted, isFingerprinted, hk, hp]

theorem targetPath_eq_of_resolve (ha : a.Placed c) (hb : b.Placed c) {fp? fp?' : Option String}
    (hf : FlatFingerprint fp?) (hf' : FlatFingerprint fp?')
    (h : (a.targetPath c fp?).resolve home = (b.targetPath c fp?').resolve home) :
    a.targetPath c fp? = b.targetPath c fp?' := by
  obtain ⟨dir, stem, extension, ha⟩ := ha
  obtain ⟨dir', stem', extension', hb⟩ := hb
  obtain ⟨_, _, hroot⟩ := targetRoot_eq_of_resolve ha hb hf hf' h
  rw [ha.resolve_target hf, hb.resolve_target hf', hroot] at h
  rw [ha.targetPath_eq hf, hb.targetPath_eq hf', hroot, List.append_cancel_left h]

/-- Targets that are the same path are spelled alike. -/
theorem targetPath_eq_of_beq (ha : a.Placed c) (hb : b.Placed c) {fp? fp?' : Option String}
    (hf : FlatFingerprint fp?) (hf' : FlatFingerprint fp?')
    (h : (a.targetPath c fp? == b.targetPath c fp?') = true) :
    a.targetPath c fp? = b.targetPath c fp?' := by
  obtain ⟨dir, stem, extension, ha⟩ := ha
  obtain ⟨dir', stem', extension', hb⟩ := hb
  have hc := Path.beq_iff.mp h
  rw [ha.components_target hf, hb.components_target hf'] at hc
  have hlast := congrArg List.getLast? hc
  rw [List.map_append, List.map_append, ← List.append_assoc, ← List.append_assoc] at hlast
  simp only [List.map_cons, List.map_nil, List.getLast?_concat, Option.some.injEq,
    Component.name.injEq] at hlast
  obtain ⟨_, _, hroot⟩ := targetRoot_eq_of_name ha hb hf hf' hlast
  rw [hroot] at hc
  have hnames := Component.map_name_injective (List.append_cancel_left hc)
  rw [ha.targetPath_eq hf, hb.targetPath_eq hf', hroot, hnames]

/-- Sources that are the same path are spelled alike, and are of one kind. -/
theorem source_eq_of_beq (ha : a.Placed c) (hb : b.Placed c) (h : (a.source == b.source) = true) :
    a.source = b.source ∧ a.kind = b.kind := by
  obtain ⟨dir, stem, extension, ha⟩ := ha
  obtain ⟨dir', stem', extension', hb⟩ := hb
  have hc := Path.beq_iff.mp h
  have hkind : a.kind = b.kind := by
    have hname : a.source.extension? = b.source.extension? := by
      simp only [Path.extension?, Path.fileName?, hc]
    rw [ha.extension?_source, hb.extension?_source] at hname
    have hk := ha.kind_eq
    rw [Option.some.inj hname, hb.kind_eq] at hk
    exact (Option.some.inj hk).symm
  refine ⟨?_, hkind⟩
  rw [ha.source_eq, hb.source_eq, hkind, Path.components_join_ofNames (by simp) ha.isNames,
    Path.components_join_ofNames (by simp) hb.isNames] at hc
  have hnames := Component.map_name_injective (List.append_cancel_left hc)
  rw [ha.source_eq, hb.source_eq, hkind, hnames]

theorem inSources_source (h : a.Placed c) : InSources home c (a.source.resolve home) := by
  obtain ⟨dir, stem, extension, h⟩ := h
  rw [h.resolve_source]
  exact ⟨a.kind, List.prefix_append _ _⟩

theorem not_inSources_target (hl : Layout home c) (h : a.Placed c) {fp? : Option String}
    (hf : FlatFingerprint fp?) : ¬InSources home c ((a.targetPath c fp?).resolve home) := by
  obtain ⟨dir, stem, extension, h⟩ := h
  rintro ⟨k, hk⟩
  rw [h.resolve_target hf] at hk
  unfold targetRoot at hk
  split at hk
  · have hdir : IsName a.kind.dirName := by
      cases a.kind <;> exact ⟨by decide, by decide, by decide⟩
    have hpartials : IsName "partials" := ⟨by decide, by decide, by decide⟩
    rw [Path.resolve_join_name hdir, Config.partialsDir, Path.resolve_join_name hpartials,
      List.append_assoc, List.append_assoc] at hk
    exact (hl.cache k).not_prefix_append _ hk
  · exact (hl.targets k a.kind).not_prefix_append _ hk

theorem not_inSources_cache (hl : Layout home c) (n : String) :
    ¬InSources home c (c.cache.resolve home ++ [n]) := by
  rintro ⟨k, hk⟩
  exact (hl.cache k).not_prefix_append _ hk

theorem resolve_target_ne (h : a.Placed c) {fp? : Option String} (hf : FlatFingerprint fp?)
    {l : Location} (stem extension : List Char) (hn : IsNamed stem extension)
    (hk : Kind.ofExtension? (String.ofList extension) = none) :
    (a.targetPath c fp?).resolve home ≠ l ++ [named stem extension] := by
  obtain ⟨dir, stem', extension', h⟩ := h
  intro he
  rw [h.resolve_target hf, ← List.append_assoc] at he
  have hlast := congrArg List.getLast? he
  rw [List.getLast?_concat, List.getLast?_concat] at hlast
  have hsplit := (h.isNamed.decorated (h.isFlat hf)).splitName
  rw [Option.some.inj hlast, hn.splitName] at hsplit
  simp only [Prod.mk.injEq, Option.some.injEq] at hsplit
  have hkind := h.kind_decorated fp?
  rw [← hsplit.2, hk] at hkind
  cases hkind

theorem target_ne_manifest (h : a.Placed c) {fp? : Option String} (hf : FlatFingerprint fp?) :
    (a.targetPath c fp?).resolve home ≠ Cache.manifestAt home c.cache := by
  rw [Cache.manifestAt_eq]
  exact resolve_target_ne h hf "cache".toList "json".toList
    ⟨by decide, by decide, by decide, by decide, by decide⟩ (by decide)

theorem target_ne_lock (h : a.Placed c) {fp? : Option String} (hf : FlatFingerprint fp?) :
    (a.targetPath c fp?).resolve home ≠ Cache.lockAt home c.cache := by
  rw [Cache.lockAt_eq]
  exact resolve_target_ne h hf "cache".toList "lock".toList
    ⟨by decide, by decide, by decide, by decide, by decide⟩ (by decide)

end Asset

/-- Where a target of a configuration can lie. -/
def TargetAt (home : Location) (c : Config) (l : Location) : Prop :=
  ∃ (a : Asset) (fp? : Option String), a.Placed c ∧ Asset.FlatFingerprint fp? ∧
    l = (a.targetPath c fp?).resolve home

namespace TargetAt

variable {home l : Location} {c : Config}

theorem not_inSources (hl : Layout home c) (h : TargetAt home c l) : ¬InSources home c l := by
  obtain ⟨a, fp?, ha, hf, rfl⟩ := h
  exact Asset.not_inSources_target hl ha hf

theorem ne_manifest (h : TargetAt home c l) : l ≠ Cache.manifestAt home c.cache := by
  obtain ⟨a, fp?, ha, hf, rfl⟩ := h
  exact Asset.target_ne_manifest ha hf

theorem ne_lock (h : TargetAt home c l) : l ≠ Cache.lockAt home c.cache := by
  obtain ⟨a, fp?, ha, hf, rfl⟩ := h
  exact Asset.target_ne_lock ha hf

/-- Saving and closing the cache change no target. -/
theorem apart (h : TargetAt home c l) :
    ¬(l = Cache.lockAt home c.cache ∨ l = Cache.manifestAt home c.cache) :=
  not_or.mpr ⟨h.ne_lock, h.ne_manifest⟩

end TargetAt

end AssetCompiler
