import AssetCompiler.Cache.Store
import Mathlib.Data.List.Pairwise

/-! # Rows by key

The key of a row is its source as a path and its language. Putting a row replaces the row of
its key, wherever that stands, and touches no other key.
-/
namespace AssetCompiler

namespace Path

theorem beq_refl (p : Path) : (p == p) = true := beq_iff.mpr rfl

theorem beq_symm {p q : Path} (h : (p == q) = true) : (q == p) = true :=
  beq_iff.mpr (beq_iff.mp h).symm

theorem beq_trans {p q r : Path} (h : (p == q) = true) (h' : (q == r) = true) : (p == r) = true :=
  beq_iff.mpr ((beq_iff.mp h).trans (beq_iff.mp h'))

end Path

namespace Row

variable {r q s : Row} {source source' : Path} {language language' : Option String}

theorem hasKey_iff : r.hasKey source language = true ↔
    (r.source == source) = true ∧ r.language = language := by
  simp [hasKey]

theorem hasKey_self (r : Row) : r.hasKey r.source r.language = true :=
  hasKey_iff.mpr ⟨Path.beq_refl _, rfl⟩

theorem hasKey_symm (h : r.hasKey q.source q.language = true) :
    q.hasKey r.source r.language = true := by
  obtain ⟨hs, hl⟩ := hasKey_iff.mp h
  exact hasKey_iff.mpr ⟨Path.beq_symm hs, hl.symm⟩

theorem hasKey_trans (h : r.hasKey q.source q.language = true)
    (h' : q.hasKey source language = true) : r.hasKey source language = true := by
  obtain ⟨hs, hl⟩ := hasKey_iff.mp h
  obtain ⟨hs', hl'⟩ := hasKey_iff.mp h'
  exact hasKey_iff.mpr ⟨Path.beq_trans hs hs', hl.trans hl'⟩

theorem hasKey_of_hasKey (h : r.hasKey source language = true)
    (h' : q.hasKey source language = true) : r.hasKey q.source q.language = true := by
  obtain ⟨hs, hl⟩ := hasKey_iff.mp h
  obtain ⟨hs', hl'⟩ := hasKey_iff.mp h'
  exact hasKey_iff.mpr ⟨Path.beq_trans hs (Path.beq_symm hs'), hl.trans hl'.symm⟩

end Row

namespace Cache

/-- The last element that satisfies a predicate is replaced, or the new one stands at the end. -/
theorem replaceLast_cases {α : Type} (p : α → Bool) (x : α) (xs : List α) :
    ((∀ y ∈ xs, p y = false) ∧ replaceLast p x xs = xs ++ [x]) ∨
      ∃ front y back, xs = front ++ y :: back ∧ p y = true ∧ (∀ z ∈ back, p z = false) ∧
        replaceLast p x xs = front ++ x :: back := by
  unfold replaceLast
  cases h : xs.reverse.findIdx? p with
  | none =>
    left
    refine ⟨fun y hy => ?_, rfl⟩
    have hnone := List.findIdx?_eq_none_iff.mp h
    exact hnone y (List.mem_reverse.mpr hy)
  | some i =>
    right
    obtain ⟨hi, hp, hbefore⟩ := List.findIdx?_eq_some_iff_getElem.mp h
    have hlen : i < xs.length := by simpa using hi
    have hk : xs.length - 1 - i < xs.length := by omega
    have hget : xs.reverse[i] = xs[xs.length - 1 - i] := by rw [List.getElem_reverse]
    refine ⟨xs.take (xs.length - 1 - i), xs[xs.length - 1 - i], xs.drop (xs.length - 1 - i + 1), ?_,
      ?_, ?_, ?_⟩
    · rw [List.getElem_cons_drop, List.take_append_drop]
    · rw [← hget]
      exact hp
    · intro z hz
      obtain ⟨j, hj, rfl⟩ := List.getElem_of_mem hz
      rw [List.length_drop] at hj
      have hji : i - 1 - j < i := by omega
      have hb := hbefore (i - 1 - j) hji
      rw [List.getElem_reverse] at hb
      rw [List.getElem_drop]
      have hidx : xs.length - 1 - (i - 1 - j) = xs.length - 1 - i + 1 + j := by omega
      simpa [hidx] using hb
    · dsimp only
      rw [List.set_eq_take_append_cons_drop, if_pos hk]

variable {c : Cache} {r q : Row} {source : Path} {language : Option String}

def Keyed (rows : List Row) : Prop :=
  rows.Pairwise fun r q => r.hasKey q.source q.language = false

instance : Std.Symm fun r q : Row => r.hasKey q.source q.language = false := by
  constructor
  intro r q h
  cases hq : q.hasKey r.source r.language with
  | false => rfl
  | true =>
    rw [Row.hasKey_symm hq] at h
    cases h

theorem find?_eq_some (h : c.find? source language = some r) :
    r ∈ c.rows ∧ r.hasKey source language = true := by
  unfold find? at h
  have hkey := List.find?_some (p := fun r : Row => r.hasKey source language) h
  exact ⟨List.mem_reverse.mp (List.mem_of_find?_eq_some h), hkey⟩

theorem find?_eq_none_iff :
    c.find? source language = none ↔ ∀ r ∈ c.rows, r.hasKey source language = false := by
  unfold find?
  simp

theorem find?_of_mem (hk : Keyed c.rows) (hr : r ∈ c.rows) (hkey : r.hasKey source language = true) :
    c.find? source language = some r := by
  cases h : c.find? source language with
  | none => simp [find?_eq_none_iff.mp h r hr] at hkey
  | some q =>
    obtain ⟨hq, hqkey⟩ := find?_eq_some h
    by_cases he : q = r
    · rw [he]
    · have hd := hk.forall hq hr he
      rw [Row.hasKey_of_hasKey hqkey hkey] at hd
      cases hd

/-- A row that is put is found under its key, and nothing else changes for any key. -/
theorem find?_put (c : Cache) (r : Row) (source : Path) (language : Option String) :
    (c.put r).find? source language =
      if r.hasKey source language then some r else c.find? source language := by
  unfold find? put
  rcases replaceLast_cases (fun q => q.hasKey r.source r.language) r c.rows with
    ⟨_, h⟩ | ⟨front, y, back, hrows, hy, hback, h⟩
  · rw [h]
    cases hk : r.hasKey source language <;> simp [hk]
  · rw [h, hrows]
    cases hk : r.hasKey source language with
    | true =>
      have hnone : ∀ z ∈ back, z.hasKey source language = false := by
        intro z hz
        cases hz' : z.hasKey source language with
        | false => rfl
        | true =>
          have := hback z hz
          rw [Row.hasKey_of_hasKey hz' hk] at this
          cases this
      have hfind : back.reverse.find? (fun q => q.hasKey source language) = none := by
        simpa using hnone
      simp [hfind, hk]
    | false =>
      have hyk : y.hasKey source language = false := by
        cases hy' : y.hasKey source language with
        | false => rfl
        | true =>
          rw [Row.hasKey_trans (Row.hasKey_symm hy) hy'] at hk
          cases hk
      simp [List.find?_append, hk, hyk]

theorem mem_put (hq : q ∈ (c.put r).rows) : q = r ∨ q ∈ c.rows := by
  unfold put at hq
  rcases replaceLast_cases (fun q => q.hasKey r.source r.language) r c.rows with
    ⟨_, h⟩ | ⟨front, y, back, hrows, _, _, h⟩
  · rw [h] at hq
    rcases List.mem_append.mp hq with hq | hq
    · exact Or.inr hq
    · exact Or.inl (List.mem_singleton.mp hq)
  · rw [h] at hq
    rw [hrows]
    rcases List.mem_append.mp hq with hq | hq
    · exact Or.inr (List.mem_append_left _ hq)
    · rcases List.mem_cons.mp hq with hq | hq
      · exact Or.inl hq
      · exact Or.inr (List.mem_append_right _ (List.mem_cons_of_mem _ hq))

theorem keyed_put (hk : Keyed c.rows) : Keyed (c.put r).rows := by
  unfold put
  rcases replaceLast_cases (fun q => q.hasKey r.source r.language) r c.rows with
    ⟨hnone, h⟩ | ⟨front, y, back, hrows, hy, _, h⟩
  · rw [h]
    refine List.pairwise_append.mpr ⟨hk, List.pairwise_singleton _ _, ?_⟩
    intro q hq x hx
    obtain rfl := List.mem_singleton.mp hx
    exact hnone q hq
  · rw [h]
    unfold Keyed at hk
    rw [hrows] at hk
    obtain ⟨h1, h2, h3⟩ := List.pairwise_append.mp hk
    obtain ⟨h4, h5⟩ := List.pairwise_cons.mp h2
    refine List.pairwise_append.mpr ⟨h1, List.pairwise_cons.mpr ⟨?_, h5⟩, ?_⟩
    · intro z hz
      cases hz' : r.hasKey z.source z.language with
      | false => rfl
      | true =>
        have hyz := h4 z hz
        rw [Row.hasKey_trans hy hz'] at hyz
        cases hyz
    · intro q hq x hx
      rcases List.mem_cons.mp hx with rfl | hx
      · cases hq' : q.hasKey x.source x.language with
        | false => rfl
        | true =>
          have hqy := h3 q hq y List.mem_cons_self
          rw [Row.hasKey_trans hq' (Row.hasKey_symm hy)] at hqy
          cases hqy
      · exact h3 q hq x (List.mem_cons_of_mem _ hx)

end Cache

end AssetCompiler
