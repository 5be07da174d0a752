import AssetCompiler.Path
import Mathlib.Data.String.Basic

/-! # The order of paths

Components are ordered totally, and paths by their components: the order is total and
transitive, and two paths that come before each other are the same path.
-/
namespace AssetCompiler

namespace Component

variable {a b c : Component}

theorem rank_injective (h : a.rank = b.rank) : a = b := by
  cases a <;> cases b <;> simp_all [rank]

theorem before_iff :
    a.before b = true ↔ a.rank.1 < b.rank.1 ∨ a.rank.1 = b.rank.1 ∧ a.rank.2 < b.rank.2 := by
  simp [before]

theorem before_trans (h : a.before b = true) (h' : b.before c = true) : a.before c = true := by
  rw [before_iff] at h h' ⊢
  rcases h with h | ⟨h, hs⟩ <;> rcases h' with h' | ⟨h', hs'⟩
  · exact Or.inl (h.trans h')
  · exact Or.inl (h'.symm ▸ h)
  · exact Or.inl (h ▸ h')
  · exact Or.inr ⟨h.trans h', hs.trans hs'⟩

theorem before_irrefl (a : Component) : a.before a = false := by
  simp [before]

theorem before_or_eq (a b : Component) : a.before b = true ∨ a = b ∨ b.before a = true := by
  rcases lt_trichotomy a.rank.1 b.rank.1 with h | h | h
  · exact Or.inl (before_iff.mpr (Or.inl h))
  · rcases lt_trichotomy a.rank.2 b.rank.2 with hs | hs | hs
    · exact Or.inl (before_iff.mpr (Or.inr ⟨h, hs⟩))
    · exact Or.inr (Or.inl (rank_injective (Prod.ext h hs)))
    · exact Or.inr (Or.inr (before_iff.mpr (Or.inr ⟨h.symm, hs⟩)))
  · exact Or.inr (Or.inr (before_iff.mpr (Or.inl h)))

end Component

namespace Path

theorem componentsLe_cons {a b : Component} {as bs : List Component} :
    componentsLe (a :: as) (b :: bs) = true ↔
      a.before b = true ∨ a = b ∧ componentsLe as bs = true := by
  simp [componentsLe]

theorem componentsLe_total (as bs : List Component) :
    componentsLe as bs = true ∨ componentsLe bs as = true := by
  induction as generalizing bs with
  | nil => simp [componentsLe]
  | cons a as ih =>
    cases bs with
    | nil => simp [componentsLe]
    | cons b bs =>
      rw [componentsLe_cons, componentsLe_cons]
      rcases a.before_or_eq b with h | rfl | h
      · exact Or.inl (Or.inl h)
      · exact (ih bs).imp (fun h => Or.inr ⟨rfl, h⟩) (fun h => Or.inr ⟨rfl, h⟩)
      · exact Or.inr (Or.inl h)

theorem componentsLe_trans {as bs cs : List Component} (h : componentsLe as bs = true)
    (h' : componentsLe bs cs = true) : componentsLe as cs = true := by
  induction as generalizing bs cs with
  | nil => simp [componentsLe]
  | cons a as ih =>
    cases bs with
    | nil => cases h
    | cons b bs =>
      cases cs with
      | nil => cases h'
      | cons c cs =>
        rw [componentsLe_cons] at h h' ⊢
        rcases h with h | ⟨rfl, h⟩ <;> rcases h' with h' | ⟨rfl, h'⟩
        · exact Or.inl (Component.before_trans h h')
        · exact Or.inl h
        · exact Or.inl h'
        · exact Or.inr ⟨rfl, ih h h'⟩

theorem componentsLe_antisymm {as bs : List Component} (h : componentsLe as bs = true)
    (h' : componentsLe bs as = true) : as = bs := by
  induction as generalizing bs with
  | nil =>
    cases bs with
    | nil => rfl
    | cons b bs => cases h'
  | cons a as ih =>
    cases bs with
    | nil => cases h
    | cons b bs =>
      rw [componentsLe_cons] at h h'
      have hirrefl (x : Component) : ¬x.before x = true := by simp [Component.before_irrefl]
      rcases h with h | ⟨rfl, h⟩ <;> rcases h' with h' | ⟨he, h'⟩
      · exact absurd (Component.before_trans h h') (hirrefl a)
      · exact absurd (he ▸ h) (hirrefl a)
      · exact absurd h' (hirrefl a)
      · rw [ih h h']

variable {p q r : Path}

theorem le_total (p q : Path) : (p.le q || q.le p) = true := by
  simpa [le] using componentsLe_total p.components q.components

theorem le_trans (h : p.le q = true) (h' : q.le r = true) : p.le r = true :=
  componentsLe_trans h h'

theorem beq_of_le (h : p.le q = true) (h' : q.le p = true) : (p == q) = true :=
  beq_iff.mpr (componentsLe_antisymm h h')

theorem pairwise_mergeSort_le (ps : List Path) : (ps.mergeSort le).Pairwise fun p q => p.le q = true := by
  have htrans (p q r : Path) (h : p.le q = true) (h' : q.le r = true) : p.le r = true := le_trans h h'
  exact List.pairwise_mergeSort htrans le_total ps

end Path

end AssetCompiler
