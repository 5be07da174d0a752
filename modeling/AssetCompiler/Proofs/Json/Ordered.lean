import AssetCompiler.Json.Reader
import AssetCompiler.Proofs.Fields

/-! # Objects in order

The fields of an object that was read from a text of no fixed form ascend strictly by their keys, at
any depth. So a look-up finds the one field that a key has.
-/
namespace AssetCompiler

namespace Json

mutual
/-- Whether the fields of every object in a value, at any depth, have a property. -/
def EveryObject (p : List (String × Json) → Prop) : Json → Prop
  | .object fields => p fields ∧ EveryField p fields
  | .array items => EveryItem p items
  | _ => True

def EveryItem (p : List (String × Json) → Prop) : List Json → Prop
  | [] => True
  | v :: vs => EveryObject p v ∧ EveryItem p vs

def EveryField (p : List (String × Json) → Prop) : List (String × Json) → Prop
  | [] => True
  | (_, v) :: rest => EveryObject p v ∧ EveryField p rest
end

variable {p : List (String × Json) → Prop}

theorem everyItem_iff {items : List Json} : EveryItem p items ↔ ∀ v ∈ items, EveryObject p v := by
  induction items with
  | nil => simp [EveryItem]
  | cons v vs ih => simp [EveryItem, ih]

theorem everyField_iff {fields : List (String × Json)} :
    EveryField p fields ↔ ∀ kv ∈ fields, EveryObject p kv.2 := by
  induction fields with
  | nil => simp [EveryField]
  | cons kv rest ih => simp [EveryField, ih]

mutual
theorem EveryObject.imp {q : List (String × Json) → Prop} (h : ∀ fields, p fields → q fields)
    {v : Json} (hv : EveryObject p v) : EveryObject q v := by
  match v with
  | .null | .bool _ | .integer _ | .float _ | .string _ => exact trivial
  | .array items => exact EveryItem.imp h hv
  | .object fields => exact ⟨h fields hv.1, EveryField.imp h hv.2⟩

theorem EveryItem.imp {q : List (String × Json) → Prop} (h : ∀ fields, p fields → q fields)
    {items : List Json} (hv : EveryItem p items) : EveryItem q items := by
  match items with
  | [] => exact trivial
  | v :: vs => exact ⟨EveryObject.imp h hv.1, EveryItem.imp h hv.2⟩

theorem EveryField.imp {q : List (String × Json) → Prop} (h : ∀ fields, p fields → q fields)
    {fields : List (String × Json)} (hv : EveryField p fields) : EveryField q fields := by
  match fields with
  | [] => exact trivial
  | (_, v) :: rest => exact ⟨EveryObject.imp h hv.1, EveryField.imp h hv.2⟩
end

mutual
theorem everyObject_canonical (v : Json) : EveryObject Fields.Sorted v.canonical := by
  match v with
  | .null | .bool _ | .integer _ | .float _ | .string _ => exact trivial
  | .array items =>
    exact everyItem_iff.mpr (everyObject_canonicalItems items)
  | .object fields =>
    refine ⟨Fields.sorted_foldl_insert List.Pairwise.nil _, everyField_iff.mpr fun kv hkv => ?_⟩
    rcases Fields.mem_foldl_insert hkv with hkv | hkv
    · exact everyObject_canonicalFields fields kv hkv
    · cases hkv

theorem everyObject_canonicalItems (items : List Json) :
    ∀ v ∈ canonicalItems items, EveryObject Fields.Sorted v := by
  match items with
  | [] => simp [canonicalItems]
  | v :: vs =>
    have hv := everyObject_canonical v
    have hvs := everyObject_canonicalItems vs
    exact List.forall_mem_cons.mpr ⟨hv, hvs⟩

theorem everyObject_canonicalFields (fields : List (String × Json)) :
    ∀ kv ∈ canonicalFields fields, EveryObject Fields.Sorted kv.2 := by
  match fields with
  | [] => simp [canonicalFields]
  | (k, v) :: rest =>
    have hv := everyObject_canonical v
    have hrest := everyObject_canonicalFields rest
    exact List.forall_mem_cons.mpr ⟨hv, hrest⟩
end

theorem everyObject_of_parse? {text : String} {v : Json} (h : parse? text = some v) :
    EveryObject Fields.Sorted v := by
  unfold parse? at h
  obtain ⟨w, _, rfl⟩ := Option.map_eq_some_iff.mp h
  exact everyObject_canonical w

end Json

end AssetCompiler
