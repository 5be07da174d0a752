import AssetCompiler.Config.Reading
import AssetCompiler.Proofs.Toml.Merge

/-! # What a configuration text may hold

What each value stands for is said as a relation, apart from the readers, and the keys of each record with
what they take as a schema. A value has the form that a key takes when it stands for something.
-/
namespace AssetCompiler

namespace Toml

def keys : Toml → List String
  | table entries => entries.map Prod.fst
  | _ => []

end Toml

namespace Config

/-! ### Single values -/

/-- A string stands for itself. So does a date, written out. -/
inductive IsText : Toml → String → Prop
  | string (s : String) : IsText (.string s) s
  | datetime (s : String) : IsText (.datetime s) s

def IsPath (v : Toml) (p : Path) : Prop := IsText v p.text

def IsSomePath (v : Toml) (p? : Option Path) : Prop := ∃ p, p? = some p ∧ IsPath v p

inductive IsFlag : Toml → Bool → Prop
  | boolean (b : Bool) : IsFlag (.boolean b) b

inductive IsPolicy : Toml → ErrorPolicy → Prop
  | abort : IsPolicy (.string "abort") .abort
  | proceed : IsPolicy (.string "continue") .proceed

def AreTexts (v : Toml) (texts : List String) : Prop :=
  ∃ items, v = .array items ∧ List.Forall₂ IsText items texts

def AreResources (v : Toml) (resources : List (String × String)) : Prop :=
  ∃ entries, v = .table entries ∧
    List.Forall₂ (fun entry resource => entry.1 = resource.1 ∧ IsText entry.2 resource.2) entries resources

variable {v : Toml} {s : String} {p : Path} {b : Bool}

theorem readString_eq_some_iff : readString v = some s ↔ IsText v s := by
  constructor
  · intro h
    cases v with
    | string t =>
      obtain rfl := Option.some.inj h
      exact .string t
    | datetime t =>
      obtain rfl := Option.some.inj h
      exact .datetime t
    | integer _ | float _ | boolean _ | array _ | table _ => cases h
  · intro h
    cases h <;> rfl

theorem readPath_eq_some_iff : readPath v = some p ↔ IsPath v p := by
  rw [readPath, Option.map_eq_some_iff, IsPath, ← readString_eq_some_iff]
  constructor
  · rintro ⟨s, hs, rfl⟩
    exact hs
  · exact fun h => ⟨p.text, h, rfl⟩

theorem readOptionalPath_eq_some_iff {p? : Option Path} : readOptionalPath v = some p? ↔ IsSomePath v p? := by
  rw [readOptionalPath, Option.map_eq_some_iff]
  constructor
  · rintro ⟨p, hp, rfl⟩
    exact ⟨p, rfl, readPath_eq_some_iff.mp hp⟩
  · rintro ⟨p, rfl, hp⟩
    exact ⟨p, readPath_eq_some_iff.mpr hp, rfl⟩

theorem readFlag_eq_some_iff : readFlag v = some b ↔ IsFlag v b := by
  constructor
  · intro h
    cases v with
    | boolean b =>
      cases h
      exact .boolean b
    | string _ | integer _ | float _ | datetime _ | array _ | table _ => cases h
  · intro h
    cases h
    rfl

/-- A policy that is not written as a table is written as its name. -/
theorem readPolicy_eq_some_iff {policy : ErrorPolicy} (h : ¬v.IsTable) :
    readPolicy v = some policy ↔ IsPolicy v policy := by
  constructor
  · intro hp
    cases v with
    | string s =>
      change policyOf? s = some policy at hp
      unfold policyOf? at hp
      split at hp
      · cases hp
        exact .abort
      · cases hp
        exact .proceed
      · cases hp
    | table _ => exact absurd trivial h
    | integer _ | float _ | boolean _ | datetime _ | array _ => cases hp
  · intro hp
    cases hp <;> rfl

theorem readStrings_eq_some_iff {texts : List String} : readStrings v = some texts ↔ AreTexts v texts := by
  cases v with
  | array items =>
    rw [readStrings, mapM_eq_some_iff fun _ _ => readString_eq_some_iff]
    exact ⟨fun h => ⟨items, rfl, h⟩, fun ⟨_, he, h⟩ => Toml.array.inj he ▸ h⟩
  | string _ | integer _ | float _ | boolean _ | datetime _ | table _ => simp [readStrings, AreTexts]

theorem readResources_eq_some_iff {resources : List (String × String)} :
    readResources v = some resources ↔ AreResources v resources := by
  cases v with
  | table entries =>
    have hentry (entry : String × Toml) (resource : String × String) :
        (readString entry.2).map (entry.1, ·) = some resource ↔
          entry.1 = resource.1 ∧ IsText entry.2 resource.2 := by
      rw [Option.map_eq_some_iff, ← readString_eq_some_iff]
      constructor
      · rintro ⟨t, ht, rfl⟩
        exact ⟨rfl, ht⟩
      · rintro ⟨hk, ht⟩
        exact ⟨resource.2, ht, Prod.ext hk rfl⟩
    have hall : readResources (.table entries) =
        entries.mapM fun entry => (readString entry.2).map (entry.1, ·) := rfl
    rw [hall, mapM_eq_some_iff hentry]
    exact ⟨fun h => ⟨entries, rfl, h⟩, fun ⟨_, he, h⟩ => Toml.table.inj he ▸ h⟩
  | string _ | integer _ | float _ | boolean _ | datetime _ | array _ => simp [readResources, AreResources]

/-! ### The schema -/

/-- A table with no keys but the given ones. -/
structure HasKeys (names : List String) (v : Toml) : Prop where
  isTable : v.IsTable
  known : v.keys ⊆ names

/-- A table whose keys are those of slots, and that has in each slot what the slot takes. -/
structure IsRecord (slots : List (String × (Toml → Prop))) (v : Toml) : Prop
    extends HasKeys (slots.map Prod.fst) v where
  takes : ∀ slot ∈ slots, ∀ w, v.entry? slot.1 = some w → slot.2 w

def IsListOf (takes : Toml → Prop) (v : Toml) : Prop := ∃ items, v = .array items ∧ ∀ item ∈ items, takes item

/-- A table with any keys. -/
def IsMapOf (takes : Toml → Prop) (v : Toml) : Prop :=
  ∃ entries, v = .table entries ∧ ∀ entry ∈ entries, takes entry.2

section
variable (text : Toml → Prop)

def sectionSlots : List (String × (Toml → Prop)) :=
  [("source", text), ("target", text), ("languages", IsListOf text)]

def deliverySlots : List (String × (Toml → Prop)) := [("path", text), ("url", text)]

def commandSlots : List (String × (Toml → Prop)) :=
  [("transpile_script", IsListOf text), ("minify_stylesheet", IsListOf text),
    ("minify_script", IsListOf text), ("minify_markup", IsListOf text)]

/-- The keys of a configuration, where a text is whatever is said to be one. -/
def configSlots : List (String × (Toml → Prop)) :=
  [("cache", text), ("force", fun v => ∃ b, IsFlag v b), ("minify", fun v => ∃ b, IsFlag v b),
    ("on_processor_error", fun v => ∃ policy, IsPolicy v policy),
    ("appconf", text), ("i18n", text), ("cdn", IsRecord (deliverySlots text)),
    ("html", IsRecord (sectionSlots text)), ("stylesheets", IsRecord (sectionSlots text)),
    ("scripts", IsRecord (sectionSlots text)), ("images", IsRecord (sectionSlots text)),
    ("resources", IsMapOf text), ("processors", IsRecord (commandSlots text))]

end

def HasText (v : Toml) : Prop := ∃ s, IsText v s

/-- A value of the form that a configuration is written in. -/
def Conforms (v : Toml) : Prop := IsRecord (configSlots HasText) v

theorem isRecord_iff {slots : List (String × (Toml → Prop))} : IsRecord slots v ↔
    HasKeys (slots.map Prod.fst) v ∧ slots.Forall fun slot => ∀ w, v.entry? slot.1 = some w → slot.2 w := by
  rw [List.forall_iff_forall_mem]
  exact ⟨fun h => ⟨h.toHasKeys, h.takes⟩, fun h => ⟨h.1, h.2⟩⟩

theorem exists_isPath_iff (v : Toml) : (∃ p, IsPath v p) ↔ HasText v :=
  ⟨fun ⟨p, hp⟩ => ⟨p.text, hp⟩, fun ⟨s, hs⟩ => ⟨⟨s⟩, hs⟩⟩

theorem exists_isSomePath_iff (v : Toml) : (∃ p?, IsSomePath v p?) ↔ HasText v :=
  ⟨fun ⟨_, p, _, hp⟩ => ⟨p.text, hp⟩, fun ⟨s, hs⟩ => ⟨some ⟨s⟩, ⟨s⟩, rfl, hs⟩⟩

theorem exists_areTexts_iff (v : Toml) : (∃ texts, AreTexts v texts) ↔ IsListOf HasText v := by
  constructor
  · rintro ⟨texts, items, rfl, h⟩
    exact ⟨items, rfl, exists_forall₂_iff.mp ⟨texts, h⟩⟩
  · rintro ⟨items, rfl, h⟩
    obtain ⟨texts, htexts⟩ := exists_forall₂_iff.mpr h
    exact ⟨texts, items, rfl, htexts⟩

theorem exists_areResources_iff (v : Toml) : (∃ resources, AreResources v resources) ↔ IsMapOf HasText v := by
  constructor
  · rintro ⟨resources, entries, rfl, h⟩
    refine ⟨entries, rfl, fun entry hentry => ?_⟩
    obtain ⟨resource, _, hs⟩ := exists_forall₂_iff.mp ⟨resources, h⟩ entry hentry
    exact ⟨resource.2, hs⟩
  · rintro ⟨entries, rfl, h⟩
    have heach : ∀ entry ∈ entries, ∃ resource : String × String,
        entry.1 = resource.1 ∧ IsText entry.2 resource.2 := by
      intro entry hentry
      obtain ⟨s, hs⟩ := h entry hentry
      exact ⟨(entry.1, s), rfl, hs⟩
    obtain ⟨resources, hresources⟩ := exists_forall₂_iff.mpr heach
    exact ⟨resources, entries, rfl, hresources⟩

end Config

end AssetCompiler
