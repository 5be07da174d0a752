import AssetCompiler.Schedule
import Mathlib.Data.List.Perm.Basic
import Mathlib.Data.List.Nodup

/-! # Orders of a graph

An order that is found holds every item once, and no item before one of its dependencies.
-/
namespace AssetCompiler.Schedule

variable {g : Graph} {remaining order : List Nat}

/-- Whether every item of a list comes after those of its dependencies that are to come. -/
def DependenciesFirst (g : Graph) (among order : List Nat) : Prop :=
  ∀ front i back, order = front ++ i :: back → ∀ d ∈ dependencies g i, d ∈ among → d ∈ front

theorem mem_layer_iff {i : Nat} :
    i ∈ layer g remaining ↔ i ∈ remaining ∧ ∀ d ∈ dependencies g i, d ∉ remaining := by
  simp [layer, isReady]

theorem perm_layer_blocked (g : Graph) (remaining : List Nat) :
    (layer g remaining ++ blocked g remaining).Perm remaining :=
  List.filter_append_perm (isReady g remaining) remaining

theorem dependenciesFirst_append (h : DependenciesFirst g (blocked g remaining) order) :
    DependenciesFirst g remaining (layer g remaining ++ order) := by
  intro front i back he d hd hr
  rcases List.append_eq_append_iff.mp he with ⟨rest, rfl, horder⟩ | ⟨rest, hlayer, hback⟩
  · rcases List.mem_append.mp ((perm_layer_blocked g remaining).mem_iff.mpr hr) with hl | hb
    · exact List.mem_append_left _ hl
    · exact List.mem_append_right _ (h rest i back horder d hd hb)
  · cases rest with
    | nil =>
      rw [List.append_nil] at hlayer
      rcases List.mem_append.mp ((perm_layer_blocked g remaining).mem_iff.mpr hr) with hl | hb
      · rwa [hlayer] at hl
      · exact absurd (h [] i back hback.symm d hd hb) List.not_mem_nil
    | cons j rest =>
      obtain rfl : i = j := (List.cons.inj hback).1
      have hi : i ∈ layer g remaining := by simp [hlayer]
      exact absurd hr ((mem_layer_iff.mp hi).2 d hd)

theorem orderFrom_spec (h : orderFrom g remaining = .ok order) :
    order.Perm remaining ∧ DependenciesFirst g remaining order := by
  fun_induction orderFrom g remaining generalizing order with
  | case1 =>
    cases h
    refine ⟨.refl _, fun front i back he => ?_⟩
    simp at he
  | case2 => cases h
  | case3 remaining _ _ _ ih =>
    cases hr : orderFrom g (blocked g remaining) with
    | error e =>
      rw [hr] at h
      cases h
    | ok rest =>
      rw [hr] at h
      cases h
      obtain ⟨hp, hd⟩ := ih hr
      exact ⟨(hp.append_left _).trans (perm_layer_blocked g remaining),
        dependenciesFirst_append hd⟩

/-- An order that is found is a permutation of the items that puts dependencies first. -/
theorem order_spec (h : Schedule.order g = .ok order) :
    order.Perm (List.range g.length) ∧ DependenciesFirst g (List.range g.length) order :=
  orderFrom_spec h

end AssetCompiler.Schedule
