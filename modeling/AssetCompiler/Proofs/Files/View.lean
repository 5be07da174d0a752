import AssetCompiler.Proofs.Files.Resolve

/-! # What a tree shows

A tree shows directories and files. Each operation is described by what it changes of this
view: at most one file, and directories only by adding some. A well-formed tree, in which every
entry stands in a directory, stays well formed.
-/
namespace AssetCompiler

namespace Tree

def fileAt? (t : Tree) (l : Location) : Option File :=
  match t.get? l with
  | some (.file f) => some f
  | _ => none

def keys (t : Tree) : List Location := t.entries.map Prod.fst

theorem fileAt?_eq_some_iff {t : Tree} {l : Location} {f : File} :
    t.fileAt? l = some f ↔ t.get? l = some (.file f) := by
  unfold fileAt?
  cases h : t.get? l with
  | none => simp
  | some e => cases e <;> simp

theorem fileAt?_nil (t : Tree) : t.fileAt? [] = none := by simp [fileAt?, get?]

theorem fileAt?_eq_none_of_isDir {t : Tree} {l : Location} (h : t.IsDir l) : t.fileAt? l = none := by
  obtain ⟨m, hm⟩ := h
  simp [fileAt?, hm]

theorem not_isDir_of_file {t : Tree} {l : Location} {f : File} (h : t.get? l = some (.file f)) :
    ¬t.IsDir l := by
  rintro ⟨time, ht⟩
  rw [h] at ht
  cases ht

theorem not_isDir_of_none {t : Tree} {l : Location} (h : t.get? l = none) : ¬t.IsDir l := by
  rintro ⟨time, ht⟩
  rw [h] at ht
  cases ht

section put

variable {t : Tree} {l m : Location} {e : Entry}

theorem fileAt?_put_of_ne (h : m ≠ l) : (t.put l e).fileAt? m = t.fileAt? m := by
  by_cases hm : m = []
  · rw [hm, fileAt?_nil, fileAt?_nil]
  · rw [fileAt?, get?_put t e hm, if_neg h, ← fileAt?]

theorem get?_put_self (h : l ≠ []) : (t.put l e).get? l = some e := by
  rw [get?_put t e h, if_pos rfl]

theorem isDir_put_of_ne (h : m ≠ l) : (t.put l e).IsDir m ↔ t.IsDir m := by
  by_cases hm : m = []
  · subst hm
    exact ⟨fun _ => t.isDir_nil, fun _ => isDir_nil _⟩
  · unfold IsDir
    rw [get?_put t e hm, if_neg h]

theorem isDir_put_file {f : File} (h : ¬t.IsDir l) (m : Location) :
    (t.put l (.file f)).IsDir m ↔ t.IsDir m := by
  by_cases hm : m = l
  · subst hm
    have hne : m ≠ [] := by
      rintro rfl
      exact h t.isDir_nil
    refine ⟨?_, fun hd => absurd hd h⟩
    rintro ⟨time, ht⟩
    rw [get?_put_self hne] at ht
    cases ht
  · exact isDir_put_of_ne hm

theorem mem_keys_put : m ∈ (t.put l e).keys ↔ m = l ∨ m ∈ t.keys := by
  simp only [keys, put, erase, List.map_cons, List.mem_cons, List.mem_map, List.mem_filter,
    bne_iff_ne, ne_eq]
  constructor
  · rintro (h | ⟨x, ⟨hx, _⟩, rfl⟩)
    · exact Or.inl h
    · exact Or.inr ⟨x, hx, rfl⟩
  · rintro (h | ⟨x, hx, rfl⟩)
    · exact Or.inl h
    · by_cases hk : x.1 = l
      · exact Or.inl hk
      · exact Or.inr ⟨x, ⟨hx, hk⟩, rfl⟩

theorem nodup_keys_put (h : t.keys.Nodup) : (t.put l e).keys.Nodup := by
  simp only [keys, put, erase, List.map_cons, List.nodup_cons]
  constructor
  · simp
  · exact h.sublist (List.filter_sublist.map _)

end put

section erase

variable {t : Tree} {l m : Location}

theorem fileAt?_erase_of_ne (h : m ≠ l) : (t.erase l).fileAt? m = t.fileAt? m := by
  by_cases hm : m = []
  · rw [hm, fileAt?_nil, fileAt?_nil]
  · rw [fileAt?, get?_erase t hm, if_neg h, ← fileAt?]

theorem fileAt?_erase_self : (t.erase l).fileAt? l = none := by
  by_cases hl : l = []
  · rw [hl, fileAt?_nil]
  · rw [fileAt?, get?_erase t hl, if_pos rfl]

theorem isDir_erase (h : ¬t.IsDir l) (m : Location) : (t.erase l).IsDir m ↔ t.IsDir m := by
  by_cases hm : m = []
  · subst hm
    exact ⟨fun _ => t.isDir_nil, fun _ => isDir_nil _⟩
  · by_cases hl : m = l
    · subst hl
      refine ⟨?_, fun hd => absurd hd h⟩
      rintro ⟨time, ht⟩
      rw [get?_erase t hm, if_pos rfl] at ht
      cases ht
    · unfold IsDir
      rw [get?_erase t hm, if_neg hl]

theorem mem_keys_erase : m ∈ (t.erase l).keys ↔ m ∈ t.keys ∧ m ≠ l := by
  simp only [keys, erase, List.mem_map, List.mem_filter, bne_iff_ne, ne_eq]
  constructor
  · rintro ⟨x, ⟨hx, hk⟩, rfl⟩
    exact ⟨⟨x, hx, rfl⟩, hk⟩
  · rintro ⟨⟨x, hx, rfl⟩, hk⟩
    exact ⟨x, ⟨hx, hk⟩, rfl⟩

theorem nodup_keys_erase (h : t.keys.Nodup) : (t.erase l).keys.Nodup :=
  h.sublist (List.filter_sublist.map _)

end erase

section stamp

variable {t : Tree} {l m : Location} {now : Nat}

/-- Noting a change of a directory is putting the directory there again, or nothing. -/
theorem stamp_cases (t : Tree) (l : Location) (now : Nat) :
    t.stamp l now = t ∨ t.IsDir l ∧ l ∈ t.keys ∧ t.stamp l now = t.put l (.directory now) := by
  unfold stamp
  split
  · rename_i time h
    refine Or.inr ⟨?_, ?_, rfl⟩
    · by_cases hl : l = []
      · exact hl ▸ t.isDir_nil
      · exact ⟨time, by rw [get?, if_neg hl, h]⟩
    · exact List.mem_map.mpr ⟨_, mem_of_lookup_eq_some h, rfl⟩
  · exact Or.inl rfl

@[simp] theorem fileAt?_stamp : (t.stamp l now).fileAt? m = t.fileAt? m := by
  rcases stamp_cases t l now with h | ⟨hd, _, h⟩
  · rw [h]
  · rw [h]
    by_cases hm : m = l
    · subst hm
      rw [fileAt?_eq_none_of_isDir hd]
      by_cases hl : m = []
      · rw [hl, fileAt?_nil]
      · exact fileAt?_eq_none_of_isDir ⟨now, get?_put_self hl⟩
    · exact fileAt?_put_of_ne hm

@[simp] theorem isDir_stamp : (t.stamp l now).IsDir m ↔ t.IsDir m := by
  rcases stamp_cases t l now with h | ⟨hd, _, h⟩
  · rw [h]
  · rw [h]
    by_cases hm : m = l
    · subst hm
      refine ⟨fun _ => hd, fun _ => ?_⟩
      by_cases hl : m = []
      · exact hl ▸ isDir_nil _
      · exact ⟨now, get?_put_self hl⟩
    · exact isDir_put_of_ne hm

@[simp] theorem home_stamp : (t.stamp l now).home = t.home := by
  rcases stamp_cases t l now with h | ⟨_, _, h⟩ <;> rw [h]
  rfl

@[simp] theorem mem_keys_stamp : m ∈ (t.stamp l now).keys ↔ m ∈ t.keys := by
  rcases stamp_cases t l now with h | ⟨_, hk, h⟩
  · rw [h]
  · rw [h, mem_keys_put]
    exact ⟨fun hm => hm.elim (· ▸ hk) id, Or.inr⟩

theorem nodup_keys_stamp (h : t.keys.Nodup) : (t.stamp l now).keys.Nodup := by
  rcases stamp_cases t l now with hs | ⟨_, _, hs⟩ <;> rw [hs]
  · exact h
  · exact nodup_keys_put h

end stamp

/-- A tree as file operations leave it. -/
structure WellFormed (t : Tree) : Prop where
  nodup : t.keys.Nodup
  names : ∀ l ∈ t.keys, l ≠ [] ∧ ∀ n ∈ l, IsName n
  parents : ∀ l ∈ t.keys, t.IsDir l.dropLast
  home : t.IsDir t.home

instance (t : Tree) : Decidable t.WellFormed :=
  decidable_of_iff (t.keys.Nodup ∧ (∀ l ∈ t.keys, l ≠ [] ∧ ∀ n ∈ l, IsName n) ∧
      (∀ l ∈ t.keys, t.IsDir l.dropLast) ∧ t.IsDir t.home)
    ⟨fun ⟨h1, h2, h3, h4⟩ => ⟨h1, h2, h3, h4⟩, fun h => ⟨h.1, h.2, h.3, h.4⟩⟩

namespace WellFormed

variable {t : Tree} {dir : Location} {n : String}

theorem put (h : t.WellFormed) {e : Entry} (hd : t.IsDir dir) (hn : IsName n)
    (hdirs : ∀ m, t.IsDir m → (t.put (dir ++ [n]) e).IsDir m)
    (hnames : ∀ m ∈ dir, IsName m) : (t.put (dir ++ [n]) e).WellFormed where
  nodup := nodup_keys_put h.nodup
  names := by
    intro l hl
    rcases mem_keys_put.mp hl with rfl | hl
    · refine ⟨by simp, fun m hm => ?_⟩
      rcases List.mem_append.mp hm with hm | hm
      · exact hnames m hm
      · exact (List.mem_singleton.mp hm) ▸ hn
    · exact h.names l hl
  parents := by
    intro l hl
    rcases mem_keys_put.mp hl with rfl | hl
    · rw [List.dropLast_concat]
      exact hdirs _ hd
    · exact hdirs _ (h.parents l hl)
  home := hdirs _ h.home

theorem names_of_isDir (h : t.WellFormed) {l : Location} (hd : t.IsDir l) : ∀ n ∈ l, IsName n := by
  by_cases hl : l = []
  · simp [hl]
  · obtain ⟨time, ht⟩ := hd
    rw [get?, if_neg hl] at ht
    exact (h.names l (List.mem_map.mpr ⟨_, mem_of_lookup_eq_some ht, rfl⟩)).2

theorem stamp (h : t.WellFormed) (l : Location) (now : Nat) : (t.stamp l now).WellFormed where
  nodup := nodup_keys_stamp h.nodup
  names := fun m hm => h.names m (mem_keys_stamp.mp hm)
  parents := fun m hm => isDir_stamp.mpr (h.parents m (mem_keys_stamp.mp hm))
  home := by
    rw [home_stamp]
    exact isDir_stamp.mpr h.home

theorem erase (h : t.WellFormed) {l : Location} (hl : ¬t.IsDir l) : (t.erase l).WellFormed where
  nodup := nodup_keys_erase h.nodup
  names := fun m hm => h.names m (mem_keys_erase.mp hm).1
  parents := fun m hm => (isDir_erase hl _).mpr (h.parents m (mem_keys_erase.mp hm).1)
  home := (isDir_erase hl _).mpr h.home

theorem isDir_of_append (h : t.WellFormed) {l m : Location} (hm : m ≠ []) (hk : l ++ m ∈ t.keys) :
    t.IsDir l := by
  induction m using List.reverseRecOn with
  | nil => exact absurd rfl hm
  | append_singleton ms n ih =>
    have hp := h.parents _ hk
    rw [← List.append_assoc, List.dropLast_concat] at hp
    by_cases hms : ms = []
    · simpa [hms] using hp
    · obtain ⟨time, ht⟩ := hp
      have hne : l ++ ms ≠ [] := by simp [hms]
      rw [get?, if_neg hne] at ht
      exact ih hms (List.mem_map.mpr ⟨_, mem_of_lookup_eq_some ht, rfl⟩)

theorem isDir_of_prefix (h : t.WellFormed) {l m : Location} (hp : l <+: m) (hd : t.IsDir m) :
    t.IsDir l := by
  obtain ⟨r, rfl⟩ := hp
  by_cases hr : r = []
  · simpa [hr] using hd
  · obtain ⟨time, ht⟩ := hd
    have hne : l ++ r ≠ [] := by simp [hr]
    rw [get?, if_neg hne] at ht
    exact h.isDir_of_append hr (List.mem_map.mpr ⟨_, mem_of_lookup_eq_some ht, rfl⟩)

end WellFormed

end Tree

end AssetCompiler
