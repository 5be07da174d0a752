import AssetCompiler.Proofs.Asset.Collection
import AssetCompiler.Proofs.Config.Valid

/-! # Assets put in one after another

Putting assets in only ever adds at the end, and only what has a new identity. So an index keeps
meaning the asset that it was given for, and the assets of a list of files are those of its different
paths, each path where it occurs first.
-/
namespace AssetCompiler.Collection

variable {c : Config} {as : Collection} {a b : Asset} {xs : List Asset} {files : List Path} {p q : Path}
  {i : Nat} {source : Path} {language : Option String}

def insertAll (as : Collection) (xs : List Asset) : Collection :=
  xs.foldl (fun as a => (as.insert a).2) as

/-- The asset at an index has an identity. -/
def Holds (as : Collection) (i : Nat) (source : Path) (language : Option String) : Prop :=
  ∃ a, as[i]? = some a ∧ a.hasIdentity source language = true

theorem insertAll_append (as : Collection) (xs ys : List Asset) :
    as.insertAll (xs ++ ys) = (as.insertAll xs).insertAll ys :=
  List.foldl_append

/-! ### One asset -/

theorem prefix_insert (as : Collection) (a : Asset) : as <+: (as.insert a).2 := by
  unfold insert
  split
  · exact List.prefix_rfl
  · exact List.prefix_append as [a]

theorem holds_iff : as.Holds i source language ↔
    i < as.length ∧ (as.get i).hasIdentity source language = true := by
  constructor
  · rintro ⟨a, ha, hid⟩
    obtain ⟨hi, rfl⟩ := List.getElem?_eq_some_iff.mp ha
    exact ⟨hi, by rwa [get_eq_getElem hi]⟩
  · rintro ⟨hi, hid⟩
    exact ⟨as.get i, by rw [get_eq_getElem hi, List.getElem?_eq_getElem hi], hid⟩

/-- A look-up finds exactly the index of the asset with the identity. -/
theorem Distinct.indexOf?_eq_some_iff_holds (h : as.Distinct) :
    as.indexOf? source language = some i ↔ as.Holds i source language :=
  h.indexOf?_eq_some_iff.trans holds_iff.symm

theorem Distinct.insert_of_holds (h : as.Distinct) (hi : as.Holds i a.source a.language) :
    as.insert a = (i, as) := by
  rw [insert, h.indexOf?_eq_some_iff_holds.mpr hi]

theorem insert_of_new (h : ∀ b ∈ as, b.hasIdentity a.source a.language = false) :
    as.insert a = (as.length, as ++ [a]) := by
  rw [insert, indexOf?_eq_none_iff.mpr h]

/-- The index that putting an asset in gives is that of an asset with its identity. -/
theorem holds_insert (as : Collection) (a : Asset) :
    (as.insert a).2.Holds (as.insert a).1 a.source a.language := by
  unfold insert
  cases hf : as.indexOf? a.source a.language with
  | some i => exact holds_iff.mpr (indexOf?_eq_some hf)
  | none => exact ⟨a, by simp, a.hasIdentity_self⟩

/-! ### Many assets -/

theorem prefix_insertAll (as : Collection) (xs : List Asset) : as <+: as.insertAll xs := by
  induction xs generalizing as with
  | nil => exact List.prefix_rfl
  | cons x xs ih => exact (prefix_insert as x).trans (ih _)

theorem getElem?_insertAll (h : as[i]? = some b) (xs : List Asset) : (as.insertAll xs)[i]? = some b := by
  obtain ⟨more, hmore⟩ := prefix_insertAll as xs
  obtain ⟨hi, _⟩ := List.getElem?_eq_some_iff.mp h
  rw [← hmore, List.getElem?_append_left hi, h]

theorem distinct_insertAll (h : as.Distinct) (xs : List Asset) : (as.insertAll xs).Distinct := by
  induction xs generalizing as with
  | nil => exact h
  | cons x xs ih => exact ih (distinct_insert h x)

/-- Assets of different new identities are put at the end in their order. -/
theorem insertAll_of_new (h : Distinct (as ++ xs)) : as.insertAll xs = as ++ xs := by
  induction xs generalizing as with
  | nil => exact (List.append_nil as).symm
  | cons x xs ih =>
    have hnew : ∀ b ∈ as, b.hasIdentity x.source x.language = false := fun b hb =>
      (List.pairwise_append.mp h).2.2 b hb x List.mem_cons_self
    have hstep : as.insertAll (x :: xs) = (as ++ [x]).insertAll xs := by
      rw [insertAll, List.foldl_cons, insert_of_new hnew]
      rfl
    rw [List.append_cons] at h ⊢
    rw [hstep, ih h]

/-- Assets whose identities are all there change nothing. -/
theorem insertAll_of_present (h : as.Distinct)
    (hpresent : ∀ a ∈ xs, ∃ b ∈ as, b.hasIdentity a.source a.language = true) : as.insertAll xs = as := by
  induction xs with
  | nil => rfl
  | cons x xs ih =>
    obtain ⟨b, hb, hid⟩ := hpresent x List.mem_cons_self
    obtain ⟨i, hi⟩ := List.getElem?_of_mem hb
    have hstep : as.insertAll (x :: xs) = as.insertAll xs := by
      rw [insertAll, List.foldl_cons, h.insert_of_holds ⟨b, hi, hid⟩]
      rfl
    rw [hstep, ih fun a ha => hpresent a (List.mem_cons_of_mem x ha)]

/-! ### The assets of files -/

theorem ofFiles_eq_insertAll (c : Config) (files : List Path) :
    ofFiles c files = insertAll [] (files.flatMap (ofFile c)) := rfl

theorem mem_ofFile_iff : a ∈ ofFile c p ↔ ∃ k, Kind.ofPath? p = some k ∧
    ∃ l ∈ variants (c.sectionOf k), Asset.ofSource k p l = a := by
  unfold ofFile
  cases Kind.ofPath? p with
  | none => simp
  | some k => simp

theorem source_of_mem_ofFile (h : a ∈ ofFile c p) : a.source = p := by
  obtain ⟨k, _, l, _, rfl⟩ := mem_ofFile_iff.mp h
  rfl

theorem nodup_variants (hvalid : c.IsValid) (k : Kind) : (variants (c.sectionOf k)).Nodup := by
  unfold variants
  split
  · exact List.nodup_singleton none
  · rename_i hlanguages
    have hmarkup : k = .markup := by
      by_contra hk
      exact hlanguages (hvalid.localized k hk)
    subst hmarkup
    exact hvalid.distinct.map (Option.some_injective String)

theorem distinct_ofFile (hvalid : c.IsValid) (p : Path) : Distinct (ofFile c p) := by
  unfold ofFile
  split
  · rename_i k _
    refine List.pairwise_map.mpr ((nodup_variants hvalid k).imp fun hne => ?_)
    exact Bool.eq_false_iff.mpr fun hid => hne (Asset.hasIdentity_iff.mp hid).2
  · exact List.Pairwise.nil

/-- The assets of one path have the identities of those of the same path, however that is spelled. -/
theorem exists_mem_ofFile_of_beq (hqp : (q == p) = true) (h : a ∈ ofFile c q) :
    ∃ b ∈ ofFile c p, b.hasIdentity a.source a.language = true := by
  obtain ⟨k, hk, l, hl, rfl⟩ := mem_ofFile_iff.mp h
  rw [Kind.ofPath?_congr hqp] at hk
  exact ⟨_, mem_ofFile_iff.mpr ⟨k, hk, l, hl, rfl⟩, Asset.hasIdentity_iff.mpr ⟨Path.beq_symm hqp, rfl⟩⟩

/-- Once the assets of a path are there, its further occurrences add nothing. -/
theorem insertAll_filter (h : as.Distinct) (hp : ∀ a ∈ ofFile c p, a ∈ as) (files : List Path) :
    as.insertAll (files.flatMap (ofFile c)) =
      as.insertAll ((files.filter fun q => !q == p).flatMap (ofFile c)) := by
  induction files generalizing as with
  | nil => rfl
  | cons q files ih =>
    rw [List.flatMap_cons, insertAll_append]
    cases hqp : q == p with
    | true =>
      have hnone : as.insertAll (ofFile c q) = as := insertAll_of_present h fun a ha => by
        obtain ⟨b, hb, hid⟩ := exists_mem_ofFile_of_beq hqp ha
        exact ⟨b, hp b hb, hid⟩
      rw [hnone, List.filter_cons_of_neg (by simp [hqp]), ih h hp]
    | false =>
      rw [List.filter_cons_of_pos (by simp [hqp]), List.flatMap_cons, insertAll_append]
      exact ih (distinct_insertAll h _) fun a ha => (prefix_insertAll as _).subset (hp a ha)

/-- Files behind others add the assets of their different paths in order, if no file has a path of those. -/
theorem insertAll_flatMap_ofFile (hvalid : c.IsValid) (h : as.Distinct)
    (hnew : ∀ a ∈ as, ∀ p ∈ files, (a.source == p) = false) :
    as.insertAll (files.flatMap (ofFile c)) = as ++ files.eraseDups.flatMap (ofFile c) := by
  induction hn : files.length using Nat.strongRecOn generalizing files as with
  | _ n ih =>
    cases files with
    | nil => exact (List.append_nil as).symm
    | cons p files =>
      have hfresh : Distinct (as ++ ofFile c p) := by
        refine List.pairwise_append.mpr ⟨h, distinct_ofFile hvalid p, fun a ha b hb => ?_⟩
        refine Bool.eq_false_iff.mpr fun hid => ?_
        rw [source_of_mem_ofFile hb, Asset.hasIdentity_iff, hnew a ha p List.mem_cons_self] at hid
        cases hid.1
      have hrest : ∀ a ∈ as ++ ofFile c p, ∀ q ∈ files.filter (fun q => !q == p),
          (a.source == q) = false := by
        intro a ha q hq
        obtain ⟨hq, hqp⟩ := List.mem_filter.mp hq
        rcases List.mem_append.mp ha with ha | ha
        · exact hnew a ha q (List.mem_cons_of_mem p hq)
        · rw [source_of_mem_ofFile ha]
          refine Bool.eq_false_iff.mpr fun hbeq => ?_
          simp [Path.beq_symm hbeq] at hqp
      have hlt : (files.filter fun q => !q == p).length < n := by
        rw [← hn, List.length_cons]
        exact Nat.lt_succ_of_le (List.length_filter_le _ files)
      rw [List.flatMap_cons, insertAll_append, insertAll_of_new hfresh,
        insertAll_filter hfresh fun a ha => List.mem_append_right as ha, ih _ hlt hfresh hrest rfl,
        List.eraseDups_cons, List.flatMap_cons, List.append_assoc]

/-- The assets of files are, for each path where it first occurs, one asset for each language of its
kind's section; and what is put into a collection is found under its identity from then on. -/
theorem insertion_exact :
    (∀ (c : Config) (files : List Path), c.validate = .ok c →
      ofFiles c files = files.eraseDups.flatMap (fun p => match Kind.ofPath? p with
        | some k => (variants (c.sectionOf k)).map fun l => Asset.ofSource k p l
        | none => []) ∧
      ∀ p ∈ files, ∀ k, Kind.ofPath? p = some k → ∀ l ∈ variants (c.sectionOf k),
        ∃! i, (ofFiles c files).Holds i p l) ∧
    ∀ (xs : List Asset) (as : Collection), insertAll [] xs = as →
      as.Distinct ∧
      (∀ source language i, as.indexOf? source language = some i ↔ as.Holds i source language) ∧
      (∀ a i, as.Holds i a.source a.language → as.insert a = (i, as)) ∧
      ∀ a, ∃ b : Asset, b.hasIdentity a.source a.language = true ∧
        ∀ ys, (insertAll [] (xs ++ a :: ys))[(as.insert a).1]? = some b := by
  constructor
  · intro c files hvalidated
    have hvalid := Config.isValid_of_validate hvalidated
    have hnew : ∀ a ∈ ([] : Collection), ∀ p ∈ files, (a.source == p) = false := fun _ ha => nomatch ha
    have hlisted := insertAll_flatMap_ofFile hvalid List.Pairwise.nil hnew
    rw [← ofFiles_eq_insertAll] at hlisted
    refine ⟨hlisted, ?_⟩
    intro p hp k hk l hl
    obtain ⟨a, ha, hid⟩ := exists_mem_ofFiles hp hk hl
    obtain ⟨i, hi⟩ := List.getElem?_of_mem ha
    have hdistinct := distinct_ofFiles c files
    refine ⟨i, ⟨a, hi, hid⟩, fun j hj => ?_⟩
    have hfind := hdistinct.indexOf?_eq_some_iff_holds.mpr hj
    rw [hdistinct.indexOf?_eq_some_iff_holds.mpr ⟨a, hi, hid⟩] at hfind
    exact (Option.some.inj hfind).symm
  · rintro xs as rfl
    have hdistinct : Distinct (insertAll [] xs) := distinct_insertAll List.Pairwise.nil xs
    refine ⟨hdistinct, fun source language i => hdistinct.indexOf?_eq_some_iff_holds, ?_, ?_⟩
    · exact fun a i hi => hdistinct.insert_of_holds hi
    · intro a
      obtain ⟨b, hb, hid⟩ := holds_insert (insertAll [] xs) a
      refine ⟨b, hid, fun ys => ?_⟩
      rw [insertAll_append]
      exact getElem?_insertAll hb ys

/-- A page in two languages and an image, the page listed twice, beside a file of no kind. -/
theorem insertion_exact_localized :
    let c : Config := { markup := ⟨⟨"html"⟩, ⟨"public/html"⟩, ["en", "de"]⟩ }
    let files : List Path :=
      [⟨"html/readme.txt"⟩, ⟨"html/a.html"⟩, ⟨"images/x.PNG"⟩, ⟨"html/.//a.html"⟩]
    c.validate = .ok c ∧
      (ofFiles c files).map Asset.identity = [(.markup, ⟨"html/a.html"⟩, some "en"),
        (.markup, ⟨"html/a.html"⟩, some "de"), (.image, ⟨"images/x.PNG"⟩, none)] ∧
      (∃! i, (ofFiles c files).Holds i ⟨"html/.//a.html"⟩ (some "de")) ∧
      (insert (insertAll [] (ofFiles c files)) (.ofSource .markup ⟨"html//a.html"⟩ (some "de"))).1 = 1 := by
  intro c files
  have hvalid : c.validate = .ok c := by decide +kernel
  obtain ⟨hfiles, hone⟩ := insertion_exact.1 c files hvalid
  obtain ⟨_, _, hinsert, _⟩ := insertion_exact.2 (ofFiles c files) _ rfl
  have hpage : (insertAll [] (ofFiles c files)).Holds 1 ⟨"html//a.html"⟩ (some "de") :=
    ⟨.ofSource .markup ⟨"html/a.html"⟩ (some "de"), rfl, by decide +kernel⟩
  refine ⟨hvalid, ?_, ?_, ?_⟩
  · rw [hfiles]
    decide +kernel
  · exact hone _ (by simp [files]) .markup (by decide +kernel) _ (by decide +kernel)
  · rw [hinsert (.ofSource .markup ⟨"html//a.html"⟩ (some "de")) 1 hpage]

end AssetCompiler.Collection
