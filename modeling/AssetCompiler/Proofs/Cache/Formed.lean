import AssetCompiler.Proofs.Asset.Target
import AssetCompiler.Proofs.Cache.Stale

/-! # Rows that a build can have recorded

The row of an asset has the asset's source and language and one of its targets. Recording keeps
the rows of this form. The targets of rows are exclusive when none that a compile can replace is
the target of another row; then replacing one takes no file away from another row.
-/
namespace AssetCompiler

open Asset (FlatFingerprint)

variable {c : Config} {a b : Asset} {r q : Row} {home : Location}

structure Row.Of (c : Config) (a : Asset) (r : Row) : Prop where
  placed : a.Placed c
  source : r.source = a.source
  language : r.language = a.language
  target : ∃ fp?, FlatFingerprint fp? ∧ fp?.isSome = a.isFingerprinted ∧ r.target = a.targetPath c fp?

namespace Row.Of

theorem hasKey (h : r.Of c a) : r.hasKey a.source a.language = true :=
  hasKey_iff.mpr ⟨h.source ▸ Path.beq_refl _, h.language⟩

theorem of_hasKey (h : r.Of c a) (hb : b.Placed c) (hk : r.hasKey b.source b.language = true) :
    r.Of c b := by
  obtain ⟨hs, hl⟩ := hasKey_iff.mp hk
  rw [h.source] at hs
  obtain ⟨hsource, hkind⟩ := Asset.source_eq_of_beq h.placed hb hs
  have hid : a.identity = b.identity :=
    Asset.identity_eq_iff.mpr ⟨hkind, hsource, h.language.symm.trans hl⟩
  obtain ⟨fp?, hflat, hsome, htarget⟩ := h.target
  refine ⟨hb, h.source.trans hsource, hl, fp?, hflat, ?_, ?_⟩
  · rw [hsome, Asset.isFingerprinted_congr hid]
  · rw [htarget, Asset.targetPath_congr hid]

theorem targetAt (h : r.Of c a) : TargetAt home c (r.target.resolve home) := by
  obtain ⟨fp?, hflat, _, htarget⟩ := h.target
  exact ⟨a, fp?, h.placed, hflat, by rw [htarget]⟩

theorem target_eq_of_resolve (h : r.Of c a) (h' : q.Of c b)
    (he : r.target.resolve home = q.target.resolve home) : r.target = q.target := by
  obtain ⟨fp?, hflat, _, htarget⟩ := h.target
  obtain ⟨fp?', hflat', _, htarget'⟩ := h'.target
  rw [htarget, htarget'] at he ⊢
  exact Asset.targetPath_eq_of_resolve h.placed h'.placed hflat hflat' he

theorem target_eq_of_beq (h : r.Of c a) (h' : q.Of c b) (he : (r.target == q.target) = true) :
    r.target = q.target := by
  obtain ⟨fp?, hflat, _, htarget⟩ := h.target
  obtain ⟨fp?', hflat', _, htarget'⟩ := h'.target
  rw [htarget, htarget'] at he ⊢
  exact Asset.targetPath_eq_of_beq h.placed h'.placed hflat hflat' he

theorem isFingerprinted_eq (h : r.Of c a) (h' : q.Of c b) (he : r.target = q.target) :
    a.isFingerprinted = b.isFingerprinted := by
  obtain ⟨fp?, hflat, _, htarget⟩ := h.target
  obtain ⟨fp?', hflat', _, htarget'⟩ := h'.target
  rw [htarget, htarget'] at he
  exact Asset.isFingerprinted_eq_of_resolve h.placed h'.placed hflat hflat'
    (congrArg (Path.resolve []) he)

theorem target_eq_of_not_fingerprinted (h : r.Of c a) (hf : a.isFingerprinted = false) :
    r.target = a.targetPath c none := by
  obtain ⟨fp?, _, hsome, htarget⟩ := h.target
  rw [hf] at hsome
  rw [htarget, Option.isSome_eq_false_iff.mp hsome |> Option.isNone_iff_eq_none.mp]

end Row.Of

namespace Cache

/-- Whether a row can have been recorded by a build. -/
structure Formed (c : Config) (r : Row) : Prop where
  of : ∃ a, r.Of c a
  fits : Manifest.Fits r

/-- The rows of a cache, as builds leave them: of different keys, each of a form that a build
can record. -/
structure Kept (c : Config) (rows : List Row) : Prop where
  keyed : Keyed rows
  formed : ∀ r ∈ rows, Formed c r

theorem Kept.nil (c : Config) : Kept c [] := ⟨List.Pairwise.nil, fun _ h => by cases h⟩

theorem Kept.filter {rows : List Row} (h : Kept c rows) (p : Row → Bool) : Kept c (rows.filter p) :=
  ⟨h.keyed.sublist List.filter_sublist, fun r hr => h.formed r (List.mem_of_mem_filter hr)⟩

theorem Kept.put {cache : Cache} (h : Kept c cache.rows) (hr : Formed c r) :
    Kept c (cache.put r).rows := by
  refine ⟨keyed_put h.keyed, fun q hq => ?_⟩
  rcases mem_put hq with rfl | hq
  · exact hr
  · exact h.formed q hq

theorem Kept.of_find? {cache : Cache} (h : Kept c cache.rows) (ha : a.Placed c)
    (hr : cache.find? a.source a.language = some r) : r.Of c a := by
  obtain ⟨hmem, hkey⟩ := find?_eq_some hr
  obtain ⟨b, hb⟩ := (h.formed r hmem).of
  exact hb.of_hasKey ha hkey

theorem Kept.targetAt {rows : List Row} (h : Kept c rows) (hr : r ∈ rows) :
    TargetAt home c (r.target.resolve home) := by
  obtain ⟨a, ha⟩ := (h.formed r hr).of
  exact ha.targetAt

theorem Kept.inSources_source {rows : List Row} (h : Kept c rows) (hr : r ∈ rows) :
    InSources home c (r.source.resolve home) := by
  obtain ⟨a, ha⟩ := (h.formed r hr).of
  exact ha.source ▸ Asset.inSources_source ha.placed

/-- No target that a compile can replace is the target of another row. -/
def Exclusive (c : Config) (rows : List Row) : Prop :=
  ∀ r ∈ rows, ∀ q ∈ rows, ∀ a, r.Of c a → a.isFingerprinted = true → r.target = q.target →
    q.hasKey r.source r.language = true

theorem Exclusive.filter {rows : List Row} (h : Exclusive c rows) (p : Row → Bool) :
    Exclusive c (rows.filter p) :=
  fun r hr q hq => h r (List.mem_of_mem_filter hr) q (List.mem_of_mem_filter hq)

theorem Exclusive.put {cache : Cache} (h : Exclusive c cache.rows) (hr : r.Of c a)
    (hfresh : a.isFingerprinted = true → ∀ q ∈ cache.rows, q.target ≠ r.target) :
    Exclusive c (cache.put r).rows := by
  intro s hs q hq b hb hf he
  rcases mem_put hs with hs' | hs'
  · subst hs'
    rcases mem_put hq with hq' | hq'
    · exact hq' ▸ s.hasKey_self
    · rw [← hr.isFingerprinted_eq hb rfl] at hf
      exact absurd he.symm (hfresh hf q hq')
  · rcases mem_put hq with hq' | hq'
    · subst hq'
      have hf' := hf
      rw [hb.isFingerprinted_eq hr he] at hf'
      exact absurd he (hfresh hf' s hs')
    · exact h s hs' q hq' b hb hf he

/-- A target that is replaced is at no place where another row has its target. -/
theorem Exclusive.resolve_ne {rows : List Row} (h : Exclusive c rows) (hk : Kept c rows) (hr : r ∈ rows)
    (hq : q ∈ rows) (hof : r.Of c a) {target : Path}
    (htarget : ∃ fp?, target = a.targetPath c fp? ∧ fp?.isSome = a.isFingerprinted)
    (hne : (r.target == target) = false) (hkey : q.hasKey r.source r.language = false) :
    r.target.resolve home ≠ q.target.resolve home := by
  intro he
  obtain ⟨b, hb⟩ := (hk.formed q hq).of
  have heq := hof.target_eq_of_resolve hb he
  cases hf : a.isFingerprinted with
  | true =>
    rw [h r hr q hq a hof hf heq] at hkey
    cases hkey
  | false =>
    obtain ⟨fp?, rfl, hsome⟩ := htarget
    rw [hf] at hsome
    obtain rfl := Option.isNone_iff_eq_none.mp (Option.isSome_eq_false_iff.mp hsome)
    rw [hof.target_eq_of_not_fingerprinted hf, Path.beq_refl] at hne
    cases hne

end Cache

end AssetCompiler
