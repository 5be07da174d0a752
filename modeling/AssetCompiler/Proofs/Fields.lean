import AssetCompiler.Fields
import Mathlib.Data.List.Basic
import Mathlib.Data.List.Forall2
import Mathlib.Data.List.Induction
import Mathlib.Data.String.Basic

/-! # Sorted fields

Inserting keeps fields in strictly ascending order of their keys. Sorted fields are the ones that
their look-ups find, so two lists of them with the same look-ups are equal. Beside these stand two facts
about lists whose items are read one by one.
-/
namespace AssetCompiler

namespace Fields

variable {α : Type} {fields upper : List (String × α)} {key k : String} {v : α}

def Sorted (fields : List (String × α)) : Prop := fields.Pairwise fun a b => a.1 < b.1

theorem mem_insert {kv : String × α} (h : kv ∈ insert key v fields) : kv = (key, v) ∨ kv ∈ fields := by
  induction fields with
  | nil => exact .inl (List.mem_singleton.mp h)
  | cons first rest ih =>
    obtain ⟨k, w⟩ := first
    unfold insert at h
    split at h
    · exact (List.mem_cons.mp h).imp_right (List.mem_cons_of_mem _)
    · split at h
      · exact List.mem_cons.mp h
      · rcases List.mem_cons.mp h with rfl | h
        · exact .inr List.mem_cons_self
        · exact (ih h).imp_right (List.mem_cons_of_mem _)

theorem sorted_insert (h : Sorted fields) : Sorted (insert key v fields) := by
  induction fields with
  | nil => exact List.pairwise_singleton _ _
  | cons first rest ih =>
    obtain ⟨k, w⟩ := first
    obtain ⟨hfirst, hrest⟩ := List.pairwise_cons.mp h
    unfold insert
    split
    · rename_i he
      exact List.pairwise_cons.mpr ⟨he ▸ hfirst, hrest⟩
    · split
      · rename_i hlt
        refine List.pairwise_cons.mpr ⟨fun kv hkv => ?_, h⟩
        rcases List.mem_cons.mp hkv with rfl | hkv
        · exact hlt
        · exact hlt.trans (hfirst kv hkv)
      · rename_i hne hnlt
        refine List.pairwise_cons.mpr ⟨fun kv hkv => ?_, ih hrest⟩
        rcases mem_insert hkv with rfl | hkv
        · exact lt_of_le_of_ne (not_lt.mp hnlt) (Ne.symm hne)
        · exact hfirst kv hkv

theorem sorted_foldl_insert (h : Sorted fields) (upper : List (String × α)) :
    Sorted (upper.foldl (fun fs kv => insert kv.1 kv.2 fs) fields) := by
  induction upper generalizing fields with
  | nil => exact h
  | cons kv rest ih => exact ih (sorted_insert h)

theorem mem_foldl_insert {kv : String × α}
    (h : kv ∈ upper.foldl (fun fs kv => insert kv.1 kv.2 fs) fields) : kv ∈ upper ∨ kv ∈ fields := by
  induction upper generalizing fields with
  | nil => exact .inr h
  | cons first rest ih =>
    rcases ih h with h | h
    · exact .inl (List.mem_cons_of_mem _ h)
    · rcases mem_insert h with rfl | h
      · exact .inl List.mem_cons_self
      · exact .inr h

theorem get?_eq_none_iff : get? fields k = none ↔ k ∉ fields.map Prod.fst := by
  induction fields with
  | nil => simp
  | cons first rest ih =>
    obtain ⟨k', w⟩ := first
    rw [get?_cons]
    by_cases hk : k = k'
    · simp [hk]
    · simp [hk, ih]

theorem mem_of_get?_eq_some (h : get? fields k = some v) : (k, v) ∈ fields := by
  induction fields with
  | nil => cases h
  | cons first rest ih =>
    obtain ⟨k', w⟩ := first
    rw [get?_cons] at h
    split at h
    · rename_i hk
      cases h
      exact hk ▸ List.mem_cons_self
    · exact List.mem_cons_of_mem _ (ih h)

/-- Fields put over others in order hide those with their keys, and no others. -/
theorem get?_foldl_insert (h : Sorted upper) (k : String) :
    get? (upper.foldl (fun fs kv => insert kv.1 kv.2 fs) fields) k = (get? upper k).or (get? fields k) := by
  induction upper generalizing fields with
  | nil => rfl
  | cons first rest ih =>
    obtain ⟨k', w⟩ := first
    obtain ⟨hfirst, hrest⟩ := List.pairwise_cons.mp h
    rw [List.foldl_cons, ih hrest, get?_insert, get?_cons]
    by_cases hk : k = k'
    · have hnone : get? rest k = none := by
        refine get?_eq_none_iff.mpr fun hmem => ?_
        obtain ⟨kv, hkv, rfl⟩ := List.mem_map.mp hmem
        exact absurd hk (hfirst kv hkv).ne'
      simp [hk, hk ▸ hnone]
    · simp [hk]

theorem get?_eq_some_iff (h : Sorted fields) : get? fields k = some v ↔ (k, v) ∈ fields := by
  refine ⟨mem_of_get?_eq_some, fun hmem => ?_⟩
  induction fields with
  | nil => cases hmem
  | cons first rest ih =>
    obtain ⟨k', w⟩ := first
    obtain ⟨hfirst, hrest⟩ := List.pairwise_cons.mp h
    rw [get?_cons]
    rcases List.mem_cons.mp hmem with he | hmem
    · cases he
      exact if_pos rfl
    · rw [if_neg (hfirst _ hmem).ne', ih hrest hmem]

/-- Sorted fields are equal when their look-ups are. -/
theorem eq_of_get?_eq (h : Sorted fields) (h' : Sorted upper) (hget : ∀ k, get? fields k = get? upper k) :
    fields = upper := by
  have hmem (kv : String × α) : kv ∈ fields ↔ kv ∈ upper := by
    rw [← get?_eq_some_iff h, hget, get?_eq_some_iff h']
  have hnodup {fs : List (String × α)} (hfs : Sorted fs) : fs.Nodup := by
    unfold Sorted at hfs
    refine hfs.imp ?_
    rintro a _ hlt rfl
    exact lt_irrefl _ hlt
  refine List.Perm.eq_of_pairwise (fun a b _ _ hab hba => absurd hab hba.not_gt) h h' ?_
  exact (List.perm_ext_iff_of_nodup (hnodup h) (hnodup h')).mpr hmem

/-- Sorting fields with different keys changes no look-up. -/
theorem get?_sort (h : (fields.map Prod.fst).Nodup) (k : String) : get? (sort fields) k = get? fields k := by
  induction fields using List.reverseRecOn with
  | nil => rfl
  | append_singleton fields kv ih =>
    obtain ⟨key, v⟩ := kv
    rw [List.map_append, List.nodup_append] at h
    obtain ⟨hnodup, _, happart⟩ := h
    have hsort : sort (fields ++ [(key, v)]) = insert key v (sort fields) := by simp [sort]
    rw [hsort, get?_insert, ih hnodup, get?, get?, List.lookup_append]
    by_cases hk : k = key
    · have hnone : fields.lookup k = none := get?_eq_none_iff.mpr fun hmem => happart k hmem key (by simp) hk
      simp [hk, hk ▸ hnone]
    · have hother : [(key, v)].lookup k = none := get?_eq_none_iff.mpr (by simpa using hk)
      rw [if_neg hk, hother, Option.or_none]

end Fields

/-! ### Lists read item by item -/

theorem exists_forall₂_iff {α β : Type} {r : α → β → Prop} {as : List α} :
    (∃ bs, List.Forall₂ r as bs) ↔ ∀ a ∈ as, ∃ b, r a b := by
  induction as with
  | nil => exact ⟨fun _ _ h => (by cases h), fun _ => ⟨[], .nil⟩⟩
  | cons a as ih =>
    rw [List.forall_mem_cons, ← ih]
    constructor
    · rintro ⟨bs, h⟩
      cases h with
      | cons hb hbs => exact ⟨⟨_, hb⟩, _, hbs⟩
    · rintro ⟨⟨b, hb⟩, bs, hbs⟩
      exact ⟨b :: bs, .cons hb hbs⟩

theorem mapM_eq_some_iff {α β : Type} {f : α → Option β} {r : α → β → Prop}
    (h : ∀ a b, f a = some b ↔ r a b) {xs : List α} {ys : List β} :
    xs.mapM f = some ys ↔ List.Forall₂ r xs ys := by
  induction xs generalizing ys with
  | nil =>
    rw [List.forall₂_nil_left_iff]
    exact Option.some_inj.trans eq_comm
  | cons x xs ih =>
    have hbind : (x :: xs).mapM f = (f x).bind fun z => (xs.mapM f).bind fun zs => some (z :: zs) :=
        List.mapM_cons
    rw [hbind, Option.bind_eq_some_iff, List.forall₂_cons_left_iff]
    constructor
    · rintro ⟨y, hy, hrest⟩
      obtain ⟨ys', hys, he⟩ := Option.bind_eq_some_iff.mp hrest
      exact ⟨y, ys', (h x y).mp hy, ih.mp hys, (Option.some.inj he).symm⟩
    · rintro ⟨y, ys', hy, hys, rfl⟩
      exact ⟨y, (h x y).mpr hy, Option.bind_eq_some_iff.mpr ⟨ys', ih.mpr hys, rfl⟩⟩

end AssetCompiler
