import AssetCompiler.Proofs.AppConfig.Includes
import AssetCompiler.Proofs.Json.Ordered

/-! # What a value is expanded to

Every key of an object has the value of the last included object that has the key, and otherwise its
own, expanded; nothing else changes. No include is left at any depth, if none is left in what is
included.
-/
namespace AssetCompiler.AppConfig

open Json (EveryObject EveryItem EveryField)

variable {load : Path → Except AppConfigError Json} {base : Path}
  {included : String → List (String × Json) → Prop}

/-- The value of a key in the last of some objects that has it. -/
def lastValue? (objects : List (List (String × Json))) (k : String) : Option Json :=
  objects.reverse.findSome? (Fields.get? · k)

/-- What an expansion makes of a value, given the objects that names stand for. -/
inductive Expansion (included : String → List (String × Json) → Prop) : Json → Json → Prop
  | other {v : Json} (notArray : ∀ items, v ≠ .array items) (notObject : ∀ fields, v ≠ .object fields) :
      Expansion included v v
  | array {items expanded : List Json} (each : List.Forall₂ (Expansion included) items expanded) :
      Expansion included (.array items) (.array expanded)
  /-- A key has the last value that an included object has for it, or else its own, expanded. -/
  | object {fields out : List (String × Json)} (objects : List (List (String × Json)))
      (own : String → Json)
      (loaded : List.Forall₂ included ((Fields.get? fields includeKey).elim [] namesIn) objects)
      (each : ∀ k v, k ≠ includeKey → Fields.get? fields k = some v → Expansion included v (own k))
      (sorted : Fields.Sorted out)
      (value : ∀ k, Fields.get? out k = (lastValue? objects k).or
        (if k = includeKey then none else (Fields.get? fields k).map fun _ => own k)) :
      Expansion included (.object fields) (.object out)

/-- Of objects laid over one another the last that has a key counts. -/
theorem get?_foldl_overlay {objects : List (List (String × Json))}
    (h : ∀ o ∈ objects, Fields.Sorted o) (own : List (String × Json)) (k : String) :
    Fields.get? (objects.foldl overlay own) k = (lastValue? objects k).or (Fields.get? own k) := by
  induction objects generalizing own with
  | nil => rfl
  | cons o os ih =>
    obtain ⟨ho, hos⟩ := List.forall_mem_cons.mp h
    have hover : Fields.get? (overlay own o) k = (Fields.get? o k).or (Fields.get? own k) :=
      Fields.get?_foldl_insert ho k
    rw [List.foldl_cons, ih hos, hover, lastValue?, lastValue?, List.reverse_cons,
      List.findSome?_append, ← Option.or_assoc]
    simp

theorem sorted_foldl_overlay (objects : List (List (String × Json))) {own : List (String × Json)}
    (h : Fields.Sorted own) : Fields.Sorted (objects.foldl overlay own) := by
  induction objects generalizing own with
  | nil => exact h
  | cons o os ih => exact ih (Fields.sorted_foldl_insert h o)

theorem mem_foldl_overlay {objects : List (List (String × Json))} {own : List (String × Json)}
    {kv : String × Json} (h : kv ∈ objects.foldl overlay own) :
    (∃ o ∈ objects, kv ∈ o) ∨ kv ∈ own := by
  induction objects generalizing own with
  | nil => exact .inr h
  | cons o os ih =>
    rcases ih h with ⟨p, hp, hkv⟩ | h
    · exact .inl ⟨p, List.mem_cons_of_mem _ hp, hkv⟩
    · exact (Fields.mem_foldl_insert h).imp_left fun hkv => ⟨o, List.mem_cons_self, hkv⟩

theorem sorted_of_expandFields {fields own : List (String × Json)}
    (h : expandFields load base fields = .ok own) (hs : Fields.Sorted fields) : Fields.Sorted own := by
  have hkeys {fs : List (String × Json)} : Fields.Sorted fs ↔ (fs.map Prod.fst).Pairwise (· < ·) :=
    List.pairwise_map.symm
  rw [hkeys, keys_of_expandFields h]
  exact (hkeys.mp hs).filter _

mutual
/-- What a value is expanded to, where all objects have their fields in order. -/
theorem expansion_of_expand
    (hload : ∀ name fields, Loads load base name fields → included name fields ∧ Fields.Sorted fields)
    (v : Json) {w : Json} (hv : EveryObject Fields.Sorted v) (h : expand load base v = .ok w) :
    Expansion included v w := by
  match v with
  | .null | .bool _ | .integer _ | .float _ | .string _ =>
    cases h
    exact .other (fun _ => by simp) (fun _ => by simp)
  | .array items =>
    obtain ⟨ws, hws, rfl⟩ := map_eq_ok_iff.mp h
    exact .array (expansion_of_expandItems hload items hv hws)
  | .object fields =>
    obtain ⟨own, objects, hown, _, hobjects, rfl⟩ := expand_object_eq_ok_iff.mp h
    obtain ⟨hsorted, hfields⟩ := hv
    have hobject : ∀ o ∈ objects, Fields.Sorted o := by
      intro o ho
      obtain ⟨name, _, hname⟩ := exists_of_mem_right hobjects ho
      exact (hload name o hname).2
    have heach := expansion_of_expandFields hload fields hfields hown
    refine .object objects (fun k => (Fields.get? own k).getD .null)
      (hobjects.imp fun name o hname => (hload name o hname).1) (fun k v hk hget => ?_)
      (sorted_foldl_overlay objects (sorted_of_expandFields hown hsorted)) fun k => ?_
    · obtain ⟨w, hw, hexpansion⟩ := heach k v hk hget
      rw [hw]
      exact hexpansion
    · rw [get?_foldl_overlay hobject]
      congr 1
      split
      · rename_i hk
        refine Fields.get?_eq_none_iff.mpr ?_
        rw [keys_of_expandFields hown]
        simp [hk]
      · rename_i hk
        cases hget : Fields.get? fields k with
        | none =>
          refine Fields.get?_eq_none_iff.mpr ?_
          rw [keys_of_expandFields hown, List.mem_filter]
          exact fun hmem => Fields.get?_eq_none_iff.mp hget hmem.1
        | some v =>
          obtain ⟨w, hw, _⟩ := heach k v hk hget
          rw [hw]
          rfl

theorem expansion_of_expandItems
    (hload : ∀ name fields, Loads load base name fields → included name fields ∧ Fields.Sorted fields)
    (items : List Json) {ws : List Json} (hv : EveryItem Fields.Sorted items)
    (h : expandItems load base items = .ok ws) : List.Forall₂ (Expansion included) items ws := by
  match items with
  | [] =>
    cases h
    exact .nil
  | v :: vs =>
    rw [expandItems_eq_ok_iff] at h
    cases h with
    | cons hw hws =>
      exact .cons (expansion_of_expand hload v hv.1 hw)
        (expansion_of_expandItems hload vs hv.2 (expandItems_eq_ok_iff.mpr hws))

theorem expansion_of_expandFields
    (hload : ∀ name fields, Loads load base name fields → included name fields ∧ Fields.Sorted fields)
    (fields : List (String × Json)) {own : List (String × Json)} (hv : EveryField Fields.Sorted fields)
    (h : expandFields load base fields = .ok own) (k : String) (v : Json) (hk : k ≠ includeKey)
    (hget : Fields.get? fields k = some v) :
    ∃ w, Fields.get? own k = some w ∧ Expansion included v w := by
  match fields with
  | [] => cases hget
  | (k', v') :: rest =>
    rw [Fields.get?_cons] at hget
    by_cases hk' : k' = includeKey
    · rw [expandFields, if_pos hk'] at h
      rw [if_neg fun he => hk (he.trans hk')] at hget
      exact expansion_of_expandFields hload rest hv.2 h k v hk hget
    · obtain ⟨w, hw, others, hothers, rfl⟩ := (expandFields_cons_of_ne hk').mp h
      rw [Fields.get?_cons]
      split at hget
      · rename_i he
        cases hget
        rw [if_pos he]
        exact ⟨w, rfl, expansion_of_expand hload v hv.1 hw⟩
      · rename_i he
        rw [if_neg he]
        exact expansion_of_expandFields hload rest hv.2 hothers k v hk hget
end

/-- Whether fields are in order and none of them is an include. -/
def Merged (fields : List (String × Json)) : Prop :=
  Fields.Sorted fields ∧ includeKey ∉ fields.map Prod.fst

mutual
/-- With loaded objects that are merged all the way down, so is what is expanded. -/
theorem everyObject_expand
    (hload : ∀ name fields, Loads load base name fields → EveryObject Merged (.object fields))
    (v : Json) {w : Json} (hv : EveryObject Fields.Sorted v) (h : expand load base v = .ok w) :
    EveryObject Merged w := by
  match v with
  | .null | .bool _ | .integer _ | .float _ | .string _ =>
    cases h
    exact trivial
  | .array items =>
    obtain ⟨ws, hws, rfl⟩ := map_eq_ok_iff.mp h
    exact everyObject_expandItems hload items hv hws
  | .object fields =>
    obtain ⟨own, objects, hown, _, hobjects, rfl⟩ := expand_object_eq_ok_iff.mp h
    have hobject : ∀ o ∈ objects, EveryObject Merged (.object o) := by
      intro o ho
      obtain ⟨name, _, hname⟩ := exists_of_mem_right hobjects ho
      exact hload name o hname
    refine ⟨⟨sorted_foldl_overlay objects (sorted_of_expandFields hown hv.1), fun hmem => ?_⟩, ?_⟩
    · obtain ⟨kv, hkv, he⟩ := List.mem_map.mp hmem
      rcases mem_foldl_overlay hkv with ⟨o, ho, hkv⟩ | hkv
      · exact (hobject o ho).1.2 (he ▸ List.mem_map.mpr ⟨kv, hkv, rfl⟩)
      · have hkey := List.mem_map.mpr ⟨kv, hkv, he⟩
        rw [keys_of_expandFields hown] at hkey
        simp at hkey
    · refine Json.everyField_iff.mpr fun kv hkv => ?_
      rcases mem_foldl_overlay hkv with ⟨o, ho, hkv⟩ | hkv
      · exact Json.everyField_iff.mp (hobject o ho).2 kv hkv
      · exact Json.everyField_iff.mp (everyObject_expandFields hload fields hv.2 hown) kv hkv

theorem everyObject_expandItems
    (hload : ∀ name fields, Loads load base name fields → EveryObject Merged (.object fields))
    (items : List Json) {ws : List Json} (hv : EveryItem Fields.Sorted items)
    (h : expandItems load base items = .ok ws) : EveryItem Merged ws := by
  match items with
  | [] =>
    cases h
    exact trivial
  | v :: vs =>
    rw [expandItems_eq_ok_iff] at h
    cases h with
    | cons hw hws =>
      exact ⟨everyObject_expand hload v hv.1 hw,
        everyObject_expandItems hload vs hv.2 (expandItems_eq_ok_iff.mpr hws)⟩

theorem everyObject_expandFields
    (hload : ∀ name fields, Loads load base name fields → EveryObject Merged (.object fields))
    (fields : List (String × Json)) {own : List (String × Json)} (hv : EveryField Fields.Sorted fields)
    (h : expandFields load base fields = .ok own) : EveryField Merged own := by
  match fields with
  | [] =>
    cases h
    exact trivial
  | (k, v) :: rest =>
    by_cases hk : k = includeKey
    · rw [expandFields, if_pos hk] at h
      exact everyObject_expandFields hload rest hv.2 h
    · obtain ⟨w, hw, others, hothers, rfl⟩ := (expandFields_cons_of_ne hk).mp h
      exact ⟨everyObject_expand hload v hv.1 hw, everyObject_expandFields hload rest hv.2 hothers⟩
end

end AssetCompiler.AppConfig
