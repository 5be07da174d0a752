import AssetCompiler.Config.Basic
import Mathlib.Data.List.Nodup

/-! # Valid configurations

What the checks of a configuration come to, whatever the order they are made in: an address, languages
for markup alone, and among these no empty one and none twice.
-/
namespace AssetCompiler.Config

structure IsValid (c : Config) : Prop where
  url : c.delivery.url ≠ ""
  localized : ∀ k, k ≠ .markup → (c.sectionOf k).languages = []
  named : "" ∉ c.markup.languages
  distinct : c.markup.languages.Nodup

variable {c d : Config}

theorem badLanguage?_eq_none_iff {seen languages : List String} :
    badLanguage? seen languages = none ↔
      "" ∉ languages ∧ languages.Nodup ∧ ∀ l ∈ languages, l ∉ seen := by
  induction languages generalizing seen with
  | nil => simp [badLanguage?]
  | cons l languages ih =>
    unfold badLanguage?
    by_cases hbad : l = "" ∨ l ∈ seen
    · rw [if_pos (by simpa using hbad)]
      refine iff_of_false (by simp) fun ⟨hnamed, _, hseen⟩ => ?_
      rcases hbad with rfl | hmem
      · exact hnamed List.mem_cons_self
      · exact hseen l List.mem_cons_self hmem
    · rw [if_neg (by simpa using hbad), ih]
      obtain ⟨hempty, hnew⟩ := not_or.mp hbad
      simp only [List.mem_cons, not_or, List.nodup_cons, forall_eq_or_imp]
      constructor
      · rintro ⟨hnamed, hnodup, hseen⟩
        refine ⟨⟨Ne.symm hempty, hnamed⟩, ⟨fun hl => (hseen l hl).1 rfl, hnodup⟩, hnew, ?_⟩
        exact fun m hm => (hseen m hm).2
      · rintro ⟨⟨_, hnamed⟩, ⟨hl, hnodup⟩, _, hseen⟩
        exact ⟨hnamed, hnodup, fun m hm => ⟨fun he => hl (he ▸ hm), hseen m hm⟩⟩

theorem localizedKind?_eq_none_iff :
    c.localizedKind? = none ↔ ∀ k, k ≠ .markup → (c.sectionOf k).languages = [] := by
  unfold localizedKind?
  rw [List.find?_eq_none]
  constructor
  · intro h k hk
    have hmem : k ∈ [Kind.stylesheet, .script, .image] := by cases k <;> simp_all
    simpa using h k hmem
  · intro h k hmem
    have hk : k ≠ .markup := by rintro rfl; simp at hmem
    simp [h k hk]

theorem invalid?_eq_none_iff : c.invalid? = none ↔ c.IsValid := by
  unfold invalid?
  by_cases hurl : c.delivery.url = ""
  · rw [if_pos hurl]
    exact iff_of_false (by simp) fun h => h.url hurl
  · rw [if_neg hurl]
    cases hkind : c.localizedKind? with
    | some k =>
      refine iff_of_false (by simp) fun h => ?_
      rw [localizedKind?_eq_none_iff.mpr h.localized] at hkind
      cases hkind
    | none =>
      rw [Option.map_eq_none_iff, badLanguage?_eq_none_iff]
      constructor
      · rintro ⟨hnamed, hnodup, _⟩
        exact ⟨hurl, localizedKind?_eq_none_iff.mp hkind, hnamed, hnodup⟩
      · exact fun h => ⟨h.named, h.distinct, fun l _ => List.not_mem_nil⟩

theorem validate_of_isValid (h : c.IsValid) : c.validate = .ok c := by
  rw [validate, invalid?_eq_none_iff.mpr h]

/-- What is not valid is refused for a reason. -/
theorem exists_validate_eq_error (h : ¬c.IsValid) : ∃ reason, c.validate = .error (.invalid reason) := by
  obtain ⟨reason, hreason⟩ := Option.ne_none_iff_exists'.mp fun hnone => h (invalid?_eq_none_iff.mp hnone)
  exact ⟨reason, by rw [validate, hreason]⟩

theorem validate_eq_ok_iff : c.validate = .ok d ↔ c.IsValid ∧ d = c := by
  constructor
  · intro h
    by_cases hvalid : c.IsValid
    · rw [validate_of_isValid hvalid] at h
      exact ⟨hvalid, (Except.ok.inj h).symm⟩
    · obtain ⟨reason, hreason⟩ := exists_validate_eq_error hvalid
      rw [hreason] at h
      cases h
  · rintro ⟨hvalid, rfl⟩
    exact validate_of_isValid hvalid

/-- A configuration that passes its checks is valid. -/
theorem isValid_of_validate (h : c.validate = .ok c) : c.IsValid := (validate_eq_ok_iff.mp h).1

end AssetCompiler.Config
