import AssetCompiler.Proofs.Schedule
import Mathlib.Data.Fintype.Pigeonhole
import Mathlib.Logic.Relation

/-! # Cycles

A run takes at most one pass for each item. It fails when the graph has a cycle, and what it
then names is what a cycle can be reached from: whatever waits for such an item waits for ever,
and in a set of items that all wait for each other a walk along dependencies comes round.
-/
namespace AssetCompiler.Schedule

open Relation (ReflTransGen TransGen)

variable {g : Graph} {remaining order : List Nat} {result : Except Cycle (List Nat)} {c : Cycle}
  {i j k : Nat}

def Edge (g : Graph) (i d : Nat) : Prop := i < g.length ∧ d < g.length ∧ d ∈ dependencies g i

/-- Some cycle can be reached from an item along dependencies. -/
def ReachesCycle (g : Graph) (i : Nat) : Prop := ∃ j, ReflTransGen (Edge g) i j ∧ TransGen (Edge g) j j

/-- The passes over what remains, up to the last, and what they come to. -/
inductive Passes (g : Graph) : List Nat → Nat → Except Cycle (List Nat) → Prop
  | finished : Passes g [] 0 (.ok [])
  | stuck (remaining : List Nat) (waiting : remaining ≠ []) (none_ready : layer g remaining = []) :
      Passes g remaining 1 (.error ⟨remaining⟩)
  | pass (remaining : List Nat) (k : Nat) (result : Except Cycle (List Nat))
      (some_ready : layer g remaining ≠ []) (rest : Passes g (blocked g remaining) k result) :
      Passes g remaining (k + 1) (result.map (layer g remaining ++ ·))

/-- Every pass but a last one that is stuck takes an item out of what remains. -/
theorem exists_passes_orderFrom (g : Graph) (remaining : List Nat) :
    ∃ k ≤ remaining.length, Passes g remaining k (orderFrom g remaining) := by
  fun_induction orderFrom g remaining with
  | case1 => exact ⟨0, Nat.le_refl _, .finished⟩
  | case2 remaining hne hlayer =>
    exact ⟨1, List.length_pos_iff.mpr hne, .stuck remaining hne hlayer⟩
  | case3 remaining hne hlayer hlt ih =>
    obtain ⟨k, hk, hp⟩ := ih
    exact ⟨k + 1, Nat.lt_of_le_of_lt hk hlt, .pass remaining k _ hlayer hp⟩

theorem ReachesCycle.exists_edge (h : ReachesCycle g i) : ∃ d, Edge g i d ∧ ReachesCycle g d := by
  obtain ⟨j, hij, hj⟩ := h
  rcases hij.cases_head with rfl | ⟨d, hd, hdj⟩
  · obtain ⟨d, hd, hdi⟩ := TransGen.head'_iff.mp hj
    exact ⟨d, hd, i, hdi, hj⟩
  · exact ⟨d, hd, j, hdj, hj⟩

theorem mem_blocked_of_reachesCycle (h : ∀ i, ReachesCycle g i → i ∈ remaining)
    (hi : ReachesCycle g i) : i ∈ blocked g remaining := by
  obtain ⟨d, hd, hdc⟩ := hi.exists_edge
  refine List.mem_filter.mpr ⟨h i hi, ?_⟩
  have hnot : isReady g remaining i ≠ true := by
    intro hready
    have hall := List.all_eq_true.mp hready d hd.2.2
    simp [h d hdc] at hall
  simpa using hnot

/-- In a nonempty set in which every item waits for another one, a cycle is reached from all. -/
theorem reachesCycle_of_stuck (hlt : ∀ i ∈ remaining, i < g.length) (h : layer g remaining = [])
    (hi : i ∈ remaining) : ReachesCycle g i := by
  have hwaits : ∀ x : {i // i ∈ remaining}, ∃ y : {i // i ∈ remaining}, Edge g x y := by
    rintro ⟨i, hi⟩
    have hnot : i ∉ layer g remaining := by simp [h]
    rw [mem_layer_iff] at hnot
    push Not at hnot
    obtain ⟨d, hd, hdr⟩ := hnot hi
    exact ⟨⟨d, hdr⟩, hlt i hi, hlt d hdr, hd⟩
  choose next hnext using hwaits
  -- A walk through finitely many items is twice at one of them.
  let walk (n : Nat) : {i // i ∈ remaining} := next^[n] ⟨i, hi⟩
  have hstep : ∀ n, Edge g (walk n) (walk (n + 1)) := by
    intro n
    have hsucc : walk (n + 1) = next (walk n) := Function.iterate_succ_apply' next n _
    rw [hsucc]
    exact hnext (walk n)
  have hpath : ∀ m n, ReflTransGen (Edge g) (walk m) (walk (m + n)) := by
    intro m n
    induction n with
    | zero => exact .refl
    | succ n ih => exact ih.tail (hstep (m + n))
  obtain ⟨m, n, hne, heq⟩ := Finite.exists_ne_map_eq_of_infinite walk
  wlog hmn : m < n generalizing m n
  · exact this n m hne.symm heq.symm (by omega)
  obtain ⟨k, rfl⟩ := Nat.exists_eq_add_of_lt hmn
  refine ⟨walk m, ?_, ?_⟩
  · have hstart := hpath 0 m
    rwa [Nat.zero_add] at hstart
  · have hround : TransGen (Edge g) (walk m) (walk (m + k + 1)) :=
      TransGen.tail' (hpath m k) (hstep (m + k))
    rwa [← heq] at hround

/-- As long as everything that reaches a cycle remains, a run fails with just that, or, when there
is no such thing, does not fail. -/
theorem orderFrom_cycle (hsub : remaining.Sublist (List.range g.length))
    (h : ∀ i, ReachesCycle g i → i ∈ remaining) :
    (∀ order, orderFrom g remaining = .ok order → ∀ i, ¬ReachesCycle g i) ∧
      ∀ c, orderFrom g remaining = .error c → c.remaining ≠ [] ∧ c.remaining.Pairwise (· < ·) ∧
        ∀ i, i ∈ c.remaining ↔ ReachesCycle g i := by
  fun_induction orderFrom g remaining with
  | case1 =>
    refine ⟨fun order _ i hi => ?_, fun c hc => ?_⟩
    · exact absurd (h i hi) List.not_mem_nil
    · cases hc
  | case2 remaining hne hlayer =>
    refine ⟨fun order ho => ?_, fun c hc => ?_⟩
    · cases ho
    · cases hc
      have hlt : ∀ i ∈ remaining, i < g.length := fun i hi => List.mem_range.mp (hsub.subset hi)
      exact ⟨hne, List.pairwise_lt_range.sublist hsub,
        fun i => ⟨reachesCycle_of_stuck hlt hlayer, h i⟩⟩
  | case3 remaining hne hlayer hlt ih =>
    obtain ⟨hok, herror⟩ := ih (List.filter_sublist.trans hsub)
      fun i hi => mem_blocked_of_reachesCycle h hi
    refine ⟨fun order ho => ?_, fun c hc => ?_⟩
    · cases hrest : orderFrom g (blocked g remaining) with
      | error e =>
        rw [hrest] at ho
        cases ho
      | ok rest => exact hok rest hrest
    · cases hrest : orderFrom g (blocked g remaining) with
      | error e =>
        rw [hrest] at hc
        cases hc
        exact herror _ hrest
      | ok rest =>
        rw [hrest] at hc
        cases hc

/-- Ordering takes at most one pass for each item. It fails if and only if there is a cycle, and
names, in ascending order, the items from which one can be reached. -/
theorem order_eq_error_iff (g : Graph) :
    (∃ k ≤ g.length, Passes g (List.range g.length) k (Schedule.order g)) ∧
      ((∃ c, Schedule.order g = .error c) ↔ ∃ i, TransGen (Edge g) i i) ∧
      ∀ c, Schedule.order g = .error c → c.remaining.Pairwise (· < ·) ∧
        ∀ i, i ∈ c.remaining ↔ ∃ j, ReflTransGen (Edge g) i j ∧ TransGen (Edge g) j j := by
  have hall : ∀ i, ReachesCycle g i → i ∈ List.range g.length := by
    intro i hi
    obtain ⟨d, hd, _⟩ := hi.exists_edge
    exact List.mem_range.mpr hd.1
  obtain ⟨hok, herror⟩ := orderFrom_cycle (List.Sublist.refl _) hall
  refine ⟨?_, ⟨?_, ?_⟩, fun c hc => (herror c hc).2⟩
  · have hpasses := exists_passes_orderFrom g (List.range g.length)
    rwa [List.length_range] at hpasses
  · rintro ⟨c, hc⟩
    obtain ⟨hne, _, hiff⟩ := herror c hc
    obtain ⟨i, hi⟩ := List.exists_mem_of_ne_nil _ hne
    obtain ⟨j, _, hj⟩ := (hiff i).mp hi
    exact ⟨j, hj⟩
  · rintro ⟨i, hi⟩
    cases hc : Schedule.order g with
    | error c => exact ⟨c, rfl⟩
    | ok order => exact absurd ⟨i, .refl, hi⟩ (hok order hc i)

end AssetCompiler.Schedule
