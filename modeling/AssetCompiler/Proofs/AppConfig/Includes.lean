import AssetCompiler.AppConfig.Includes
import AssetCompiler.Proofs.Except
import AssetCompiler.Proofs.Fields

/-! # When a value can be expanded

A value is expanded by whatever loads the files that its includes name. This succeeds just when every
include is a name or a list of names and an object is loaded for each of them. Otherwise an include is
bad, or a file that is named cannot be loaded.
-/
namespace AssetCompiler.AppConfig

mutual
/-- What stands under the key of includes, at any depth of a value's objects and arrays. -/
def includesIn : Json → List Json
  | .object fields => (Fields.get? fields includeKey).toList ++ includesInFields fields
  | .array items => includesInItems items
  | _ => []

def includesInItems : List Json → List Json
  | [] => []
  | v :: vs => includesIn v ++ includesInItems vs

def includesInFields : List (String × Json) → List Json
  | [] => []
  | (k, v) :: rest =>
    if k = includeKey then includesInFields rest else includesIn v ++ includesInFields rest
end

def nameOf? : Json → Option String
  | .string name => some name
  | _ => none

/-- The names in an include. -/
def namesIn : Json → List String
  | .array items => items.filterMap nameOf?
  | v => (nameOf? v).toList

/-- An include is a name or a list of names. -/
def IsInclude (i : Json) : Prop :=
  (∃ name, i = .string name) ∨ ∃ names : List String, i = .array (names.map .string)

/-- Whether a loader gives an object for a name. -/
def Loads (load : Path → Except AppConfigError Json) (base : Path) (name : String)
    (fields : List (String × Json)) : Prop := load (base.join ⟨name⟩) = .ok (.object fields)

variable {load load' : Path → Except AppConfigError Json} {base : Path}

/-! ## Names -/

theorem namesIn_list (names : List String) : namesIn (.array (names.map .string)) = names := by
  induction names with
  | nil => rfl
  | cons name names ih =>
    simp only [namesIn, List.map_cons, List.filterMap_cons, nameOf?] at ih ⊢
    rw [ih]

theorem isInclude_list_iff {items : List Json} :
    IsInclude (.array items) ↔ ∃ names : List String, items = names.map .string := by
  constructor
  · rintro (⟨name, h⟩ | ⟨names, h⟩)
    · cases h
    · exact ⟨names, Json.array.inj h⟩
  · rintro ⟨names, rfl⟩
    exact .inr ⟨names, rfl⟩

theorem includeNames_list_eq_ok_iff {items : List Json} {names : List String} :
    includeNames base (some (.array items)) = .ok names ↔ items = names.map .string := by
  unfold includeNames
  dsimp only
  induction items generalizing names with
  | nil => cases names <;> simp [pure, Except.pure]
  | cons v vs ih =>
    rw [List.mapM_cons, bind_eq_ok_iff]
    constructor
    · rintro ⟨name, hname, h⟩
      obtain ⟨rest, hrest, h⟩ := bind_eq_ok_iff.mp h
      cases h
      rw [ih.mp hrest]
      cases v with
      | string s => rw [Except.ok.inj hname]; rfl
      | _ => cases hname
    · intro h
      cases names with
      | nil => cases h
      | cons name names =>
        obtain ⟨rfl, hvs⟩ := List.cons.inj h
        exact ⟨name, rfl, bind_eq_ok_iff.mpr ⟨names, ih.mpr hvs, rfl⟩⟩

/-- Includes have names just when each is a name or a list of names. -/
theorem includeNames_eq_ok_iff {i? : Option Json} {names : List String} :
    includeNames base i? = .ok names ↔ (∀ i ∈ i?, IsInclude i) ∧ names = i?.elim [] namesIn := by
  cases i? with
  | none => simp [includeNames, eq_comm]
  | some i =>
    simp only [Option.mem_def, Option.some.injEq, forall_eq', Option.elim_some]
    cases i with
    | string s => simp [includeNames, namesIn, nameOf?, IsInclude, eq_comm]
    | array items =>
      rw [includeNames_list_eq_ok_iff, isInclude_list_iff]
      constructor
      · rintro rfl
        exact ⟨⟨names, rfl⟩, (namesIn_list names).symm⟩
      · rintro ⟨⟨others, rfl⟩, rfl⟩
        rw [namesIn_list]
    | _ => simp [includeNames, IsInclude]

theorem mem_elim_namesIn_iff {i? : Option Json} {name : String} :
    name ∈ i?.elim [] namesIn ↔ ∃ i ∈ i?, name ∈ namesIn i := by
  cases i? <;> simp

theorem includeNames_eq_error {i? : Option Json} {e : AppConfigError}
    (h : includeNames base i? = .error e) : ∃ fault, e = .badInclude base fault := by
  unfold includeNames at h
  split at h
  · cases h
  · cases h
  · rename_i items
    induction items with
    | nil => cases h
    | cons v vs ih =>
      rw [List.mapM_cons] at h
      rcases bind_eq_error_iff.mp h with h | ⟨_, _, h⟩
      · split at h
        · cases h
        · exact ⟨_, (Except.error.inj h).symm⟩
      · rcases bind_eq_error_iff.mp h with h | ⟨_, _, h⟩
        · exact ih h
        · cases h
  · exact ⟨_, (Except.error.inj h).symm⟩

/-! ## Included objects -/

theorem includeAll_cons (own : List (String × Json)) (name : String) (names : List String) :
    includeAll load base own (name :: names) =
      (match load (base.join ⟨name⟩) with
        | .ok (.object fields) => .ok (overlay own fields)
        | .ok _ => .error (.badInclude (base.join ⟨name⟩) .notObject)
        | .error e => .error e) >>= fun fields => includeAll load base fields names := by
  unfold includeAll
  rw [List.foldlM_cons]
  dsimp only
  cases load (base.join ⟨name⟩) with
  | error e => rfl
  | ok v => cases v <;> rfl

theorem includeAll_eq_ok_iff {own out : List (String × Json)} {names : List String} :
    includeAll load base own names = .ok out ↔
      ∃ objects, List.Forall₂ (Loads load base) names objects ∧ out = objects.foldl overlay own := by
  induction names generalizing own with
  | nil =>
    constructor
    · intro h
      cases h
      exact ⟨[], .nil, rfl⟩
    · rintro ⟨objects, h, rfl⟩
      cases h
      rfl
  | cons name names ih =>
    rw [includeAll_cons, bind_eq_ok_iff]
    constructor
    · rintro ⟨fields, hload, h⟩
      obtain ⟨objects, hobjects, rfl⟩ := ih.mp h
      split at hload
      · rename_i included hincluded
        cases hload
        exact ⟨included :: objects, .cons hincluded hobjects, rfl⟩
      · cases hload
      · cases hload
    · rintro ⟨objects, hobjects, rfl⟩
      cases hobjects with
      | cons hfirst hrest =>
        rename_i first rest
        refine ⟨overlay own first, ?_, ih.mpr ⟨rest, hrest, rfl⟩⟩
        unfold Loads at hfirst
        rw [hfirst]

theorem includeAll_eq_error {own : List (String × Json)} {names : List String} {e : AppConfigError}
    (h : includeAll load base own names = .error e) :
    (∃ path fault, e = .badInclude path fault) ∨ ∃ name ∈ names, load (base.join ⟨name⟩) = .error e := by
  induction names generalizing own with
  | nil => cases h
  | cons name names ih =>
    rw [includeAll_cons] at h
    rcases bind_eq_error_iff.mp h with h | ⟨fields, _, h⟩
    · split at h
      · cases h
      · exact .inl ⟨_, _, (Except.error.inj h).symm⟩
      · rename_i hload
        cases h
        exact .inr ⟨name, List.mem_cons_self, hload⟩
    · exact (ih h).imp_right fun ⟨n, hn, hload⟩ => ⟨n, List.mem_cons_of_mem _ hn, hload⟩

/-! ## Values -/

theorem expandItems_eq_ok_iff {items expanded : List Json} :
    expandItems load base items = .ok expanded ↔
      List.Forall₂ (fun v w => expand load base v = .ok w) items expanded := by
  induction items generalizing expanded with
  | nil =>
    rw [expandItems]
    constructor
    · intro h
      cases h
      exact .nil
    · intro h
      cases h
      rfl
  | cons v vs ih =>
    rw [expandItems, bind_eq_ok_iff]
    constructor
    · rintro ⟨w, hw, h⟩
      obtain ⟨ws, hws, h⟩ := bind_eq_ok_iff.mp h
      cases h
      exact .cons hw (ih.mp hws)
    · intro h
      cases h with
      | cons hw hws => exact ⟨_, hw, bind_eq_ok_iff.mpr ⟨_, ih.mpr hws, rfl⟩⟩

theorem expandFields_cons_of_ne {k : String} (hk : k ≠ includeKey) {v : Json}
    {rest own : List (String × Json)} :
    expandFields load base ((k, v) :: rest) = .ok own ↔
      ∃ w, expand load base v = .ok w ∧
        ∃ others, expandFields load base rest = .ok others ∧ own = (k, w) :: others := by
  rw [expandFields, if_neg hk, bind_eq_ok_iff]
  simp only [bind_eq_ok_iff, Except.ok.injEq, eq_comm (a := own)]

theorem keys_of_expandFields {fields own : List (String × Json)}
    (h : expandFields load base fields = .ok own) :
    own.map Prod.fst = (fields.map Prod.fst).filter (· ≠ includeKey) := by
  induction fields generalizing own with
  | nil =>
    rw [expandFields] at h
    cases h
    rfl
  | cons kv rest ih =>
    obtain ⟨k, v⟩ := kv
    by_cases hk : k = includeKey
    · rw [expandFields, if_pos hk] at h
      simp [ih h, hk]
    · obtain ⟨w, _, others, hothers, rfl⟩ := (expandFields_cons_of_ne hk).mp h
      simp [ih hothers, hk]

/-- An object is expanded to its own fields with the included ones laid over them. -/
theorem expand_object_eq_ok_iff {fields : List (String × Json)} {w : Json} :
    expand load base (.object fields) = .ok w ↔
      ∃ own objects, expandFields load base fields = .ok own ∧
        (∀ i ∈ Fields.get? fields includeKey, IsInclude i) ∧
        List.Forall₂ (Loads load base) ((Fields.get? fields includeKey).elim [] namesIn) objects ∧
        w = .object (objects.foldl overlay own) := by
  rw [expand]
  constructor
  · intro h
    obtain ⟨own, hown, h⟩ := bind_eq_ok_iff.mp h
    obtain ⟨names, hnames, h⟩ := bind_eq_ok_iff.mp h
    obtain ⟨out, hout, rfl⟩ := map_eq_ok_iff.mp h
    obtain ⟨hinclude, rfl⟩ := includeNames_eq_ok_iff.mp hnames
    obtain ⟨objects, hobjects, rfl⟩ := includeAll_eq_ok_iff.mp hout
    exact ⟨own, objects, hown, hinclude, hobjects, rfl⟩
  · rintro ⟨own, objects, hown, hinclude, hobjects, rfl⟩
    refine bind_eq_ok_iff.mpr ⟨own, hown, bind_eq_ok_iff.mpr ⟨_,
      includeNames_eq_ok_iff.mpr ⟨hinclude, rfl⟩, ?_⟩⟩
    exact map_eq_ok_iff.mpr ⟨_, includeAll_eq_ok_iff.mpr ⟨objects, hobjects, rfl⟩, rfl⟩

/-- An include that an object is loaded for each name of. -/
def Provided (load : Path → Except AppConfigError Json) (base : Path) (i : Json) : Prop :=
  IsInclude i ∧ ∀ name ∈ namesIn i, ∃ fields, Loads load base name fields

theorem exists_of_mem_right {α β : Type} {r : α → β → Prop} {as : List α} {bs : List β}
    (h : List.Forall₂ r as bs) {b : β} (hb : b ∈ bs) : ∃ a ∈ as, r a b := by
  induction h with
  | nil => cases hb
  | cons hr _ ih =>
    rcases List.mem_cons.mp hb with rfl | hb
    · exact ⟨_, List.mem_cons_self, hr⟩
    · obtain ⟨a, ha, hab⟩ := ih hb
      exact ⟨a, List.mem_cons_of_mem _ ha, hab⟩

mutual
/-- A value is expanded just when all its includes are provided. -/
theorem exists_expand_iff (v : Json) :
    (∃ w, expand load base v = .ok w) ↔ ∀ i ∈ includesIn v, Provided load base i := by
  match v with
  | .null | .bool _ | .integer _ | .float _ | .string _ =>
    exact ⟨fun _ i hi => (by cases hi), fun _ => ⟨_, rfl⟩⟩
  | .array items =>
    rw [includesIn, ← exists_expandItems_iff items]
    simp only [expand, map_eq_ok_iff]
    exact ⟨fun ⟨_, ws, h, _⟩ => ⟨ws, h⟩, fun ⟨ws, h⟩ => ⟨_, ws, h, rfl⟩⟩
  | .object fields =>
    rw [includesIn, List.forall_mem_append, ← exists_expandFields_iff fields]
    simp only [expand_object_eq_ok_iff]
    constructor
    · rintro ⟨_, own, objects, hown, hinclude, hobjects, _⟩
      refine ⟨fun i hi => ?_, own, hown⟩
      have hget : Fields.get? fields includeKey = some i := Option.mem_toList.mp hi
      rw [hget] at hinclude hobjects
      exact ⟨hinclude i rfl, exists_forall₂_iff.mp ⟨objects, hobjects⟩⟩
    · rintro ⟨hinclude, own, hown⟩
      have hprovided : ∀ i ∈ Fields.get? fields includeKey, Provided load base i :=
        fun i hi => hinclude i (Option.mem_toList.mpr hi)
      have hnames : ∀ name ∈ (Fields.get? fields includeKey).elim [] namesIn,
          ∃ o, Loads load base name o := by
        intro name hname
        obtain ⟨i, hi, hname⟩ := mem_elim_namesIn_iff.mp hname
        exact (hprovided i hi).2 name hname
      obtain ⟨objects, hobjects⟩ := exists_forall₂_iff.mpr hnames
      exact ⟨_, own, objects, hown, fun i hi => (hprovided i hi).1, hobjects, rfl⟩

theorem exists_expandItems_iff (items : List Json) :
    (∃ ws, expandItems load base items = .ok ws) ↔
      ∀ i ∈ includesInItems items, Provided load base i := by
  match items with
  | [] => exact ⟨fun _ i hi => (by cases hi), fun _ => ⟨_, rfl⟩⟩
  | v :: vs =>
    rw [includesInItems, List.forall_mem_append, ← exists_expand_iff v, ← exists_expandItems_iff vs]
    simp only [expandItems_eq_ok_iff, List.forall₂_cons_left_iff]
    exact ⟨fun ⟨_, w, ws, hw, hws, _⟩ => ⟨⟨w, hw⟩, ws, hws⟩,
      fun ⟨⟨w, hw⟩, ws, hws⟩ => ⟨_, w, ws, hw, hws, rfl⟩⟩

theorem exists_expandFields_iff (fields : List (String × Json)) :
    (∃ own, expandFields load base fields = .ok own) ↔
      ∀ i ∈ includesInFields fields, Provided load base i := by
  match fields with
  | [] => exact ⟨fun _ i hi => (by cases hi), fun _ => ⟨_, rfl⟩⟩
  | (k, v) :: rest =>
    by_cases hk : k = includeKey
    · rw [includesInFields, expandFields, if_pos hk, if_pos hk]
      exact exists_expandFields_iff rest
    · rw [includesInFields, if_neg hk, List.forall_mem_append, ← exists_expand_iff v,
        ← exists_expandFields_iff rest]
      simp only [expandFields_cons_of_ne hk]
      exact ⟨fun ⟨_, w, hw, others, hothers, _⟩ => ⟨⟨w, hw⟩, others, hothers⟩,
        fun ⟨⟨w, hw⟩, others, hothers⟩ => ⟨_, w, hw, others, hothers, rfl⟩⟩
end

mutual
/-- Expanding fails by a bad include or with the failure of a name that is in an include. -/
theorem includes_of_expand_error (v : Json) {e : AppConfigError} (h : expand load base v = .error e) :
    (∃ path fault, e = .badInclude path fault) ∨
      ∃ i ∈ includesIn v, ∃ name ∈ namesIn i, load (base.join ⟨name⟩) = .error e := by
  match v with
  | .null | .bool _ | .integer _ | .float _ | .string _ => cases h
  | .array items => exact includes_of_expandItems_error items (map_eq_error_iff.mp h)
  | .object fields =>
    rw [expand] at h
    rcases bind_eq_error_iff.mp h with h | ⟨own, _, h⟩
    · refine (includes_of_expandFields_error fields h).imp_right fun ⟨i, hi, hname⟩ => ?_
      exact ⟨i, List.mem_append_right _ hi, hname⟩
    · rcases bind_eq_error_iff.mp h with h | ⟨names, hnames, h⟩
      · exact .inl ⟨base, includeNames_eq_error h⟩
      · refine (includeAll_eq_error (map_eq_error_iff.mp h)).imp_right fun ⟨name, hname, hload⟩ => ?_
        rw [(includeNames_eq_ok_iff.mp hnames).2] at hname
        obtain ⟨i, hi, hname⟩ := mem_elim_namesIn_iff.mp hname
        exact ⟨i, List.mem_append_left _ (Option.mem_toList.mpr hi), name, hname, hload⟩

theorem includes_of_expandItems_error (items : List Json) {e : AppConfigError}
    (h : expandItems load base items = .error e) :
    (∃ path fault, e = .badInclude path fault) ∨
      ∃ i ∈ includesInItems items, ∃ name ∈ namesIn i, load (base.join ⟨name⟩) = .error e := by
  match items with
  | [] => cases h
  | v :: vs =>
    rw [expandItems] at h
    rcases bind_eq_error_iff.mp h with h | ⟨w, _, h⟩
    · exact (includes_of_expand_error v h).imp_right fun ⟨i, hi, hname⟩ =>
        ⟨i, List.mem_append_left _ hi, hname⟩
    · rcases bind_eq_error_iff.mp h with h | ⟨ws, _, h⟩
      · exact (includes_of_expandItems_error vs h).imp_right fun ⟨i, hi, hname⟩ =>
          ⟨i, List.mem_append_right _ hi, hname⟩
      · cases h

theorem includes_of_expandFields_error (fields : List (String × Json)) {e : AppConfigError}
    (h : expandFields load base fields = .error e) :
    (∃ path fault, e = .badInclude path fault) ∨
      ∃ i ∈ includesInFields fields, ∃ name ∈ namesIn i, load (base.join ⟨name⟩) = .error e := by
  match fields with
  | [] => cases h
  | (k, v) :: rest =>
    rw [expandFields] at h
    rw [includesInFields]
    split at h
    · rename_i hk
      rw [if_pos hk]
      exact includes_of_expandFields_error rest h
    · rename_i hk
      rw [if_neg hk]
      rcases bind_eq_error_iff.mp h with h | ⟨w, _, h⟩
      · exact (includes_of_expand_error v h).imp_right fun ⟨i, hi, hname⟩ =>
          ⟨i, List.mem_append_left _ hi, hname⟩
      · rcases bind_eq_error_iff.mp h with h | ⟨ws, _, h⟩
        · exact (includes_of_expandFields_error rest h).imp_right fun ⟨i, hi, hname⟩ =>
            ⟨i, List.mem_append_right _ hi, hname⟩
        · cases h
end

mutual
/-- A loader that gives at least the same objects gives at least the same expansions. -/
theorem expand_mono (h : ∀ name fields, Loads load base name fields → Loads load' base name fields)
    (v : Json) {w : Json} (hv : expand load base v = .ok w) : expand load' base v = .ok w := by
  match v with
  | .null | .bool _ | .integer _ | .float _ | .string _ => exact hv
  | .array items =>
    obtain ⟨ws, hws, rfl⟩ := map_eq_ok_iff.mp hv
    exact map_eq_ok_iff.mpr ⟨ws, expandItems_mono h items hws, rfl⟩
  | .object fields =>
    obtain ⟨own, objects, hown, hinclude, hobjects, rfl⟩ := expand_object_eq_ok_iff.mp hv
    exact expand_object_eq_ok_iff.mpr
      ⟨own, objects, expandFields_mono h fields hown, hinclude, hobjects.imp h, rfl⟩

theorem expandItems_mono
    (h : ∀ name fields, Loads load base name fields → Loads load' base name fields)
    (items : List Json) {ws : List Json} (hws : expandItems load base items = .ok ws) :
    expandItems load' base items = .ok ws := by
  match items with
  | [] => exact hws
  | v :: vs =>
    rw [expandItems_eq_ok_iff] at hws ⊢
    cases hws with
    | cons hv hvs =>
      exact .cons (expand_mono h v hv)
        (expandItems_eq_ok_iff.mp (expandItems_mono h vs (expandItems_eq_ok_iff.mpr hvs)))

theorem expandFields_mono
    (h : ∀ name fields, Loads load base name fields → Loads load' base name fields)
    (fields : List (String × Json)) {own : List (String × Json)}
    (hown : expandFields load base fields = .ok own) : expandFields load' base fields = .ok own := by
  match fields with
  | [] => exact hown
  | (k, v) :: rest =>
    by_cases hk : k = includeKey
    · rw [expandFields, if_pos hk] at hown ⊢
      exact expandFields_mono h rest hown
    · obtain ⟨w, hw, others, hothers, rfl⟩ := (expandFields_cons_of_ne hk).mp hown
      exact (expandFields_cons_of_ne hk).mpr
        ⟨w, expand_mono h v hw, others, expandFields_mono h rest hothers, rfl⟩
end

end AssetCompiler.AppConfig
