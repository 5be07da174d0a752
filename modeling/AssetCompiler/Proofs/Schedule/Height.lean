import AssetCompiler.Proofs.Schedule
import Mathlib.Data.Nat.Find
import Mathlib.Order.MinMax

/-! # The order by height

The height of an item is the length of the longest chain of dependencies below it. The layers
of an order are the items of one height each, lowest first, so the order that is found is the
items sorted by height, items of one height by their number.
-/
namespace AssetCompiler.Schedule

variable {g : Graph} {remaining order : List Nat} {i j k : Nat}

/-- Whether a chain of `k` dependencies leads down from an item. -/
def Climbs (g : Graph) : Nat → Nat → Prop
  | 0, i => i < g.length
  | k + 1, i => i < g.length ∧ ∃ d ∈ dependencies g i, Climbs g k d

instance decidableClimbs (g : Graph) : (k i : Nat) → Decidable (Climbs g k i)
  | 0, i => inferInstanceAs (Decidable (i < g.length))
  | k + 1, i =>
    have : ∀ d, Decidable (Climbs g k d) := decidableClimbs g k
    inferInstanceAs (Decidable (i < g.length ∧ ∃ d ∈ dependencies g i, Climbs g k d))

/-- The length of the longest chain of dependencies below an item. -/
def height (g : Graph) (i : Nat) : Nat := Nat.findGreatest (fun k => Climbs g k i) g.length

namespace Climbs

theorem lt_length (h : Climbs g k i) : i < g.length := by
  cases k with
  | zero => exact h
  | succ k => exact h.1

theorem of_succ (h : Climbs g (k + 1) i) : Climbs g k i := by
  induction k generalizing i with
  | zero => exact h.1
  | succ k ih =>
    obtain ⟨hi, d, hd, hc⟩ := h
    exact ⟨hi, d, hd, ih hc⟩

theorem of_le (h : Climbs g k i) (hj : j ≤ k) : Climbs g j i := by
  induction hj with
  | refl => exact h
  | step _ ih => exact ih h.of_succ

end Climbs

theorem le_height_iff (hi : i < g.length) (hk : k ≤ g.length) : k ≤ height g i ↔ Climbs g k i := by
  constructor
  · intro h
    have hspec : Climbs g (height g i) i :=
      Nat.findGreatest_spec (P := fun k => Climbs g k i) (Nat.zero_le _) hi
    exact hspec.of_le h
  · intro h
    exact Nat.le_findGreatest hk h

theorem succ_le_foldr_max_iff (f : Nat → Nat) (ds : List Nat) :
    k + 1 ≤ (ds.map fun d => f d + 1).foldr max 0 ↔ ∃ d ∈ ds, k ≤ f d := by
  induction ds with
  | nil => simp
  | cons d ds ih =>
    rw [List.map_cons, List.foldr_cons, le_max_iff, ih]
    simp

/-- The items with a chain of `k` dependencies below them, in input order. -/
def above (g : Graph) (k : Nat) : List Nat := (List.range g.length).filter fun i => Climbs g k i

theorem mem_above_iff : i ∈ above g k ↔ Climbs g k i := by
  simp only [above, List.mem_filter, List.mem_range, decide_eq_true_eq]
  exact ⟨fun h => h.2, fun h => ⟨h.lt_length, h⟩⟩

theorem isReady_above_iff (h : Climbs g k i) :
    isReady g (above g k) i = true ↔ ¬Climbs g (k + 1) i := by
  simp only [isReady, List.all_eq_true, Bool.not_eq_true', List.contains_eq_mem,
    decide_eq_false_iff_not, mem_above_iff, Climbs, not_and, not_exists]
  exact ⟨fun hd _ => hd, fun hd => hd h.lt_length⟩

/-- What is blocked after a number of passes is what has a longer chain below it. -/
theorem blocked_above (g : Graph) (k : Nat) : blocked g (above g k) = above g (k + 1) := by
  rw [blocked, above, List.filter_filter, above]
  refine List.filter_congr fun i _ => ?_
  by_cases hc : Climbs g k i
  · have hready := isReady_above_iff hc
    by_cases hs : Climbs g (k + 1) i
    · have hwaits : isReady g (above g k) i = false := by
        rw [← Bool.not_eq_true, hready]
        exact fun hn => hn hs
      rw [above] at hwaits
      simp [hc, hs, hwaits]
    · have hgoes := hready.mpr hs
      rw [above] at hgoes
      simp [hc, hs, hgoes]
  · have hs : ¬Climbs g (k + 1) i := fun hs => hc hs.of_succ
    simp [hc, hs]

theorem above_zero (g : Graph) : above g 0 = List.range g.length := by
  refine List.filter_eq_self.mpr fun i hi => ?_
  exact decide_eq_true (List.mem_range.mp hi)

/-- An item comes before another: it is lower, or as high and earlier. -/
def Before (g : Graph) (i j : Nat) : Prop :=
  height g i < height g j ∨ height g i = height g j ∧ i < j

theorem height_of_mem_layer (hk : k < g.length) (h : i ∈ layer g (above g k)) : height g i = k := by
  obtain ⟨hmem, hready⟩ := List.mem_filter.mp h
  have hc := mem_above_iff.mp hmem
  have hi := hc.lt_length
  have hlow := (le_height_iff hi (Nat.le_of_lt hk)).mpr hc
  have hhigh : ¬k + 1 ≤ height g i := fun hle =>
    (isReady_above_iff hc).mp hready ((le_height_iff hi hk).mp hle)
  omega

theorem pairwise_layer (hk : k < g.length) : (layer g (above g k)).Pairwise (Before g) := by
  have hasc : (layer g (above g k)).Pairwise (· < ·) := (List.pairwise_lt_range.filter _).filter _
  refine hasc.imp_of_mem fun {i j} hi hj hlt => ?_
  exact Or.inr ⟨(height_of_mem_layer hk hi).trans (height_of_mem_layer hk hj).symm, hlt⟩

/-- A run from some pass on gives items in ascending order of height and number, and there are
not more passes than items. -/
theorem orderFrom_above (k : Nat) (hlen : k + (above g k).length ≤ g.length)
    (h : orderFrom g (above g k) = .ok order) :
    order.Pairwise (Before g) ∧ ∀ i, ¬Climbs g g.length i := by
  -- The induction is on the passes, each of which takes `above g k` to `above g (k + 1)`.
  generalize hr : above g k = remaining at h
  fun_induction orderFrom g remaining generalizing k order with
  | case1 =>
    cases h
    refine ⟨.nil, fun i hc => ?_⟩
    have hmem := mem_above_iff.mpr (hc.of_le (Nat.le_of_add_right_le hlen))
    rw [hr] at hmem
    cases hmem
  | case2 => cases h
  | case3 remaining hne hlayer hlt ih =>
    subst hr
    rw [blocked_above] at hlt ih
    have hk : k < g.length := by
      have hpos := List.length_pos_iff.mpr hne
      omega
    cases hrest : orderFrom g (blocked g (above g k)) with
    | error e =>
      rw [hrest] at h
      cases h
    | ok rest =>
      rw [hrest] at h
      cases h
      rw [blocked_above] at hrest
      obtain ⟨hpairwise, hnone⟩ := ih (k + 1) (by omega) rfl hrest
      refine ⟨List.pairwise_append.mpr ⟨pairwise_layer hk, hpairwise, ?_⟩, hnone⟩
      intro i hi j hj
      have hc := mem_above_iff.mp ((orderFrom_spec hrest).1.mem_iff.mp hj)
      have hle := (le_height_iff hc.lt_length hk).mpr hc
      left
      rw [height_of_mem_layer hk hi]
      exact hle

/-- Where no chain is as long as there are items, heights follow from those of dependencies. -/
theorem height_eq_foldr (h : ∀ i, ¬Climbs g g.length i) (hi : i < g.length) :
    height g i =
      (((dependencies g i).filter (· < g.length)).map fun d => height g d + 1).foldr max 0 := by
  refine eq_of_forall_le_iff fun k => ?_
  cases k with
  | zero => simp
  | succ k =>
    rw [succ_le_foldr_max_iff]
    simp only [List.mem_filter, decide_eq_true_eq]
    constructor
    · intro hle
      have hk : k + 1 ≤ g.length := hle.trans (Nat.findGreatest_le _)
      obtain ⟨_, d, hd, hc⟩ := (le_height_iff hi hk).mp hle
      exact ⟨d, ⟨hd, hc.lt_length⟩, (le_height_iff hc.lt_length (by omega)).mpr hc⟩
    · rintro ⟨d, ⟨hd, hdl⟩, hle⟩
      have hc := (le_height_iff hdl (hle.trans (Nat.findGreatest_le _))).mp hle
      have hk : k < g.length := by
        by_contra hge
        exact h d (hc.of_le (Nat.le_of_not_lt hge))
      exact (le_height_iff hi hk).mpr ⟨hi, d, hd, hc⟩

def sortedByHeight (g : Graph) : List Nat :=
  (List.range g.length).mergeSort fun i j =>
    height g i < height g j || height g i == height g j && i ≤ j

theorem eq_sortedByHeight (hp : order.Perm (List.range g.length)) (h : order.Pairwise (Before g)) :
    order = sortedByHeight g := by
  let le (i j : Nat) : Bool := height g i < height g j || height g i == height g j && i ≤ j
  have hle : ∀ i j, le i j = true ↔ height g i < height g j ∨ height g i = height g j ∧ i ≤ j := by
    intro i j
    simp [le]
  have hsorted : (sortedByHeight g).Pairwise fun i j => le i j = true := by
    refine @List.pairwise_mergeSort _ le ?_ ?_ _
    · intro a b c hab hbc
      rw [hle] at *
      omega
    · intro a b
      rw [Bool.or_eq_true, hle, hle]
      omega
  have horder : order.Pairwise fun i j => le i j = true := by
    refine h.imp fun {i j} hij => (hle i j).mpr ?_
    unfold Before at hij
    omega
  refine List.Perm.eq_of_pairwise ?_ horder hsorted (hp.trans (List.mergeSort_perm _ _).symm)
  intro i j _ _ hij hji
  rw [hle] at hij hji
  omega

/-- The order that is found holds every item after its dependencies and is the items sorted by
height and number. -/
theorem order_eq_sortedByHeight (h : Schedule.order g = .ok order) :
    order.Perm (List.range g.length) ∧ DependenciesFirst g (List.range g.length) order ∧
      (∀ i < g.length, height g i =
        (((dependencies g i).filter (· < g.length)).map fun d => height g d + 1).foldr max 0) ∧
      order = sortedByHeight g := by
  obtain ⟨hperm, hfirst⟩ := order_spec h
  rw [Schedule.order, ← above_zero] at h
  have hlen : 0 + (above g 0).length ≤ g.length := by simp [above_zero]
  obtain ⟨hpairwise, hnone⟩ := orderFrom_above 0 hlen h
  exact ⟨hperm, hfirst, fun i hi => height_eq_foldr hnone hi, eq_sortedByHeight hperm hpairwise⟩

/-- A diamond with an edge out of the graph and a repeated one. -/
theorem order_eq_sortedByHeight_diamond :
    Schedule.order [[1, 2, 1], [3], [3, 9], [], [0, 3]] = .ok [3, 1, 2, 0, 4] ∧
      [3, 1, 2, 0, 4] = sortedByHeight [[1, 2, 1], [3], [3, 9], [], [0, 3]] := by
  have h : Schedule.order [[1, 2, 1], [3], [3, 9], [], [0, 3]] = .ok [3, 1, 2, 0, 4] := by
    decide +kernel
  exact ⟨h, (order_eq_sortedByHeight h).2.2.2⟩

end AssetCompiler.Schedule
