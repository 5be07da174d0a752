import AssetCompiler.Proofs.Discovery

/-! # Collections by identity

The identities of a collection are different, and looking one up gives its index. What a
look-up finds depends on the identities only, which compiling never changes.
-/
namespace AssetCompiler

namespace Asset

variable {a b : Asset} {source : Path} {language : Option String}

theorem hasIdentity_iff : a.hasIdentity source language = true ↔
    (a.source == source) = true ∧ a.language = language := by
  simp [hasIdentity]

theorem hasIdentity_self (a : Asset) : a.hasIdentity a.source a.language = true :=
  hasIdentity_iff.mpr ⟨Path.beq_refl _, rfl⟩

/-- An asset as it is before it is compiled. -/
def bare (a : Asset) : Asset := { a with rebuilt := false, target := none }

theorem identity_eq_of_bare (h : a.bare = b.bare) : a.identity = b.identity := by
  have hk := congrArg Asset.identity h
  exact hk

end Asset

namespace Collection

variable {as bs : Collection} {a : Asset} {i j : Nat} {source : Path} {language : Option String}

theorem get_eq_getElem (h : i < as.length) : as.get i = as[i] := by
  simp [get, h]

theorem map_eq_map_range {β : Type} (f : Asset → β) (as : Collection) :
    as.map f = (List.range as.length).map fun i => f (as.get i) := by
  refine List.ext_getElem (by simp) fun i hi _ => ?_
  rw [List.length_map] at hi
  simp [get_eq_getElem hi]

theorem mem_get (h : i < as.length) : as.get i ∈ as := by
  rw [get_eq_getElem h]
  exact List.getElem_mem h

theorem exists_get_of_mem (h : a ∈ as) : ∃ i < as.length, as.get i = a := by
  obtain ⟨i, hi, he⟩ := List.getElem_of_mem h
  exact ⟨i, hi, (get_eq_getElem hi).trans he⟩

@[simp] theorem length_update (as : Collection) (i : Nat) (f : Asset → Asset) :
    (as.update i f).length = as.length := List.length_modify ..

theorem get_update_self (h : i < as.length) (f : Asset → Asset) :
    (as.update i f).get i = f (as.get i) := by
  simp [get, update, List.getD_eq_getElem?_getD, h]

theorem get_update_of_ne (h : i ≠ j) (f : Asset → Asset) : (as.update i f).get j = as.get j := by
  simp [get, update, List.getD_eq_getElem?_getD, h]

def bare (as : Collection) : Collection := as.map Asset.bare

@[simp] theorem length_bare (as : Collection) : as.bare.length = as.length := List.length_map ..

theorem get_bare (as : Collection) (i : Nat) : as.bare.get i = (as.get i).bare := by
  unfold get bare
  by_cases h : i < as.length
  · simp [h]
  · simp [h]
    rfl

theorem bare_get_congr (h : as.bare = bs.bare) (i : Nat) : (as.get i).bare = (bs.get i).bare := by
  rw [← get_bare, ← get_bare, h]

theorem length_congr (h : as.bare = bs.bare) : as.length = bs.length := by
  rw [← length_bare, h, length_bare]

theorem bare_update {f : Asset → Asset} (h : ∀ a, (f a).bare = a.bare) :
    (as.update i f).bare = as.bare := by
  refine List.ext_getElem? fun j => ?_
  simp only [bare, update, List.getElem?_map, List.getElem?_modify]
  by_cases hj : i = j
  · cases as[j]? <;> simp [hj, h]
  · simp [hj]

/-- No two assets of one identity. -/
def Distinct (as : Collection) : Prop :=
  as.Pairwise fun a b => a.hasIdentity b.source b.language = false

theorem indexOf?_eq_some (h : as.indexOf? source language = some i) :
    i < as.length ∧ (as.get i).hasIdentity source language = true := by
  obtain ⟨hi, hp, _⟩ := List.findIdx?_eq_some_iff_getElem.mp h
  exact ⟨hi, by rwa [get_eq_getElem hi]⟩

theorem indexOf?_eq_none_iff :
    as.indexOf? source language = none ↔ ∀ a ∈ as, a.hasIdentity source language = false :=
  List.findIdx?_eq_none_iff

/-- Two assets of one identity are one. -/
theorem Distinct.eq_of_hasIdentity (h : as.Distinct) (hi : i < as.length) (hj : j < as.length)
    (hs : (as.get i).hasIdentity source language = true)
    (hs' : (as.get j).hasIdentity source language = true) : i = j := by
  obtain ⟨h1, h2⟩ := Asset.hasIdentity_iff.mp hs
  obtain ⟨h3, h4⟩ := Asset.hasIdentity_iff.mp hs'
  have hbeq := Path.beq_trans h1 (Path.beq_symm h3)
  rw [get_eq_getElem hi, get_eq_getElem hj] at *
  rcases Nat.lt_trichotomy i j with hlt | he | hlt
  · have hd := List.pairwise_iff_getElem.mp h i j hi hj hlt
    rw [Asset.hasIdentity_iff.mpr ⟨hbeq, h2.trans h4.symm⟩] at hd
    cases hd
  · exact he
  · have hd := List.pairwise_iff_getElem.mp h j i hj hi hlt
    rw [Asset.hasIdentity_iff.mpr ⟨Path.beq_symm hbeq, h4.trans h2.symm⟩] at hd
    cases hd

theorem Distinct.indexOf?_of_hasIdentity (h : as.Distinct) (hi : i < as.length)
    (hs : (as.get i).hasIdentity source language = true) :
    as.indexOf? source language = some i := by
  cases hf : as.indexOf? source language with
  | none =>
    rw [indexOf?_eq_none_iff.mp hf _ (mem_get hi)] at hs
    cases hs
  | some j =>
    obtain ⟨hj, hs'⟩ := indexOf?_eq_some hf
    rw [h.eq_of_hasIdentity hi hj hs hs']

theorem Distinct.indexOf?_eq_some_iff (h : as.Distinct) : as.indexOf? source language = some i ↔
    i < as.length ∧ (as.get i).hasIdentity source language = true :=
  ⟨indexOf?_eq_some, fun hi => h.indexOf?_of_hasIdentity hi.1 hi.2⟩

theorem distinct_insert (h : as.Distinct) (a : Asset) : (as.insert a).2.Distinct := by
  unfold insert
  cases hf : as.indexOf? a.source a.language with
  | some i => exact h
  | none =>
    refine List.pairwise_append.mpr ⟨h, List.pairwise_singleton _ _, ?_⟩
    intro b hb x hx
    rw [List.mem_singleton.mp hx]
    exact indexOf?_eq_none_iff.mp hf b hb

theorem mem_insert {b : Asset} (h : b ∈ (as.insert a).2) : b = a ∨ b ∈ as := by
  unfold insert at h
  split at h
  · exact Or.inr h
  · rcases List.mem_append.mp h with h | h
    · exact Or.inr h
    · exact Or.inl (List.mem_singleton.mp h)

theorem distinct_ofFiles (c : Config) (files : List Path) : (ofFiles c files).Distinct := by
  unfold ofFiles
  suffices h : ∀ (xs : List Asset) (as : Collection), as.Distinct →
      (xs.foldl (fun as a => (insert as a).2) as).Distinct from h _ _ List.Pairwise.nil
  intro xs
  induction xs with
  | nil => exact fun _ h => h
  | cons x xs ih => exact fun as h => ih _ (distinct_insert h x)

/-- Every asset of files is that of one of them, in one of the languages of its section. -/
theorem exists_of_mem_ofFiles {c : Config} {files : List Path} (h : a ∈ ofFiles c files) :
    ∃ p ∈ files, ∃ k l, Kind.ofPath? p = some k ∧ l ∈ variants (c.sectionOf k) ∧
      a = .ofSource k p l := by
  have hmem : ∀ (xs : List Asset) (as : Collection),
      a ∈ xs.foldl (fun as a => (insert as a).2) as → a ∈ xs ∨ a ∈ as := by
    intro xs
    induction xs with
    | nil => exact fun _ h => Or.inr h
    | cons x xs ih =>
      intro as h
      rcases ih _ h with h | h
      · exact Or.inl (List.mem_cons_of_mem _ h)
      · rcases mem_insert h with rfl | h
        · exact Or.inl List.mem_cons_self
        · exact Or.inr h
  rcases hmem _ _ h with h | h
  · obtain ⟨p, hp, hx⟩ := List.mem_flatMap.mp h
    unfold ofFile at hx
    split at hx
    · rename_i k hk
      obtain ⟨l, hl, rfl⟩ := List.mem_map.mp hx
      exact ⟨p, hp, k, l, hk, hl, rfl⟩
    · cases hx
  · cases h

theorem exists_mem_insert (as : Collection) (a : Asset) :
    ∃ b ∈ (as.insert a).2, b.hasIdentity a.source a.language = true := by
  unfold insert
  cases hf : as.indexOf? a.source a.language with
  | some i =>
    obtain ⟨hi, hid⟩ := indexOf?_eq_some hf
    exact ⟨_, mem_get hi, hid⟩
  | none => exact ⟨a, List.mem_append_right _ (List.mem_singleton_self a), a.hasIdentity_self⟩

theorem mem_insert_of_mem {b : Asset} (h : b ∈ as) (a : Asset) : b ∈ (as.insert a).2 := by
  unfold insert
  split
  · exact h
  · exact List.mem_append_left _ h

/-- Every file of a kind has its assets, one in each language of the section. -/
theorem exists_mem_ofFiles {c : Config} {files : List Path} {p : Path} {k : Kind} {l : Option String}
    (hp : p ∈ files) (hk : Kind.ofPath? p = some k) (hl : l ∈ variants (c.sectionOf k)) :
    ∃ a ∈ ofFiles c files, a.hasIdentity p l = true := by
  have hmem : Asset.ofSource k p l ∈ files.flatMap (ofFile c) := by
    refine List.mem_flatMap.mpr ⟨p, hp, ?_⟩
    unfold ofFile
    rw [hk]
    exact List.mem_map_of_mem hl
  suffices h : ∀ (xs : List Asset) (as : Collection),
      (Asset.ofSource k p l ∈ xs ∨ ∃ a ∈ as, a.hasIdentity p l = true) →
        ∃ a ∈ xs.foldl (fun as a => (insert as a).2) as, a.hasIdentity p l = true from
    h _ _ (Or.inl hmem)
  intro xs
  induction xs with
  | nil =>
    rintro as (h | h)
    · cases h
    · exact h
  | cons x xs ih =>
    rintro as (h | ⟨a, ha, hid⟩)
    · rcases List.mem_cons.mp h with rfl | h
      · exact ih _ (Or.inr (exists_mem_insert as _))
      · exact ih _ (Or.inl h)
    · exact ih _ (Or.inr ⟨a, mem_insert_of_mem ha x, hid⟩)

/-- The language of an asset is one of its section's, or none where the section has none. -/
theorem language_mem_variants {c : Config} {files : List Path} (h : a ∈ ofFiles c files) :
    a.language ∈ variants (c.sectionOf a.kind) := by
  obtain ⟨p, _, k, l, _, hl, rfl⟩ := exists_of_mem_ofFiles h
  exact hl

theorem placed_of_flat_languages {t : Tree} {c : Config} (hw : t.WellFormed)
    (hl : ∀ k, ∀ l ∈ (c.sectionOf k).languages, '/' ∉ l.toList)
    (h : a ∈ ofFiles c (Discovery.sources t c)) : a.Placed c := by
  obtain ⟨p, hp, k, l, hk, hvariant, rfl⟩ := exists_of_mem_ofFiles h
  obtain ⟨kind, dir, stem, extension, hne, hd, hn, hsource, hext, hkind⟩ :=
    Discovery.exists_names_of_mem_sources hw hp
  obtain rfl : kind = k := Option.some.inj (hkind.symm.trans hk)
  refine ⟨dir, stem, extension, hne, hd, hn, hsource, hext, ?_⟩
  intro language he
  unfold variants at hvariant
  split at hvariant
  · rw [List.mem_singleton.mp hvariant] at he
    cases he
  · obtain ⟨language', hm, rfl⟩ := List.mem_map.mp hvariant
    obtain rfl : language' = language := Option.some.inj he
    exact hl kind _ hm

theorem placed_of_mem_ofFiles {t : Tree} {c : Config} {home : Location} (hw : t.WellFormed)
    (hl : Layout home c) (h : a ∈ ofFiles c (Discovery.sources t c)) : a.Placed c :=
  placed_of_flat_languages hw hl.languages h

section congr

variable (h : as.map Asset.identity = bs.map Asset.identity)
include h

theorem length_eq_of_identities : as.length = bs.length := by
  have hl := congrArg List.length h
  rwa [List.length_map, List.length_map] at hl

theorem identity_get_congr (i : Nat) : (as.get i).identity = (bs.get i).identity := by
  have hmap (cs : Collection) :
      (cs.get i).identity = (cs.map Asset.identity).getD i (default : Asset).identity := by
    simp only [get, List.getD_eq_getElem?_getD, List.getElem?_map]
    cases cs[i]? <;> rfl
  rw [hmap, hmap, h]

theorem indexOf?_congr (source : Path) (language : Option String) :
    as.indexOf? source language = bs.indexOf? source language := by
  have hidx (cs : Collection) : cs.indexOf? source language =
      (cs.map Asset.identity).findIdx? fun x => x.2.1 == source && x.2.2 == language := by
    rw [List.findIdx?_map]
    rfl
  rw [hidx, hidx, h]

theorem findFor?_congr (source : Path) (language : Option String) :
    as.findFor? source language = bs.findFor? source language := by
  unfold findFor?
  simp only [indexOf?_congr h]

theorem distinct_congr (hd : as.Distinct) : bs.Distinct := by
  have hmap (cs : Collection) : cs.Distinct ↔ (cs.map Asset.identity).Pairwise fun x y =>
      (x.2.1 == y.2.1 && x.2.2 == y.2.2) = false := by
    rw [List.pairwise_map]
    rfl
  exact (hmap bs).mpr (h ▸ (hmap as).mp hd)

end congr

theorem identities_of_bare (h : as.bare = bs.bare) :
    as.map Asset.identity = bs.map Asset.identity := by
  have hmap (cs : Collection) : cs.map Asset.identity = cs.bare.map Asset.identity := by
    rw [bare, List.map_map]
    rfl
  rw [hmap as, hmap bs, h]

/-- The asset that a reference means has the referenced source, and its language is that of the
referring asset or none. -/
theorem findFor?_eq_some (h : as.findFor? source language = some i) :
    i < as.length ∧ ((as.get i).source == source) = true ∧
      ((as.get i).language = language ∨ (as.get i).language = none) := by
  unfold findFor? at h
  split at h
  · rename_i j hj
    cases h
    obtain ⟨l, rfl, hl⟩ := Option.bind_eq_some_iff.mp hj
    obtain ⟨hi, hs⟩ := indexOf?_eq_some hl
    obtain ⟨h1, h2⟩ := Asset.hasIdentity_iff.mp hs
    exact ⟨hi, h1, Or.inl h2⟩
  · obtain ⟨hi, hs⟩ := indexOf?_eq_some h
    obtain ⟨h1, h2⟩ := Asset.hasIdentity_iff.mp hs
    exact ⟨hi, h1, Or.inr h2⟩

end Collection

end AssetCompiler
