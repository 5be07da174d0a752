import AssetCompiler.Proofs.Fields
import AssetCompiler.Toml.Basic

/-! # Values laid over values

What a merged value holds at a path of keys is said by what its two sides hold there: the upper side
wins, two tables are merged, and the lower side shows where the upper side has nothing. Tables are
maps: their keys ascend strictly, and so do those of every table that keys lead to.
-/
namespace AssetCompiler.Toml

variable {v w base overlay : Toml} {entries upper : Fields Toml} {k : String} {path : List String}

def IsTable : Toml → Prop
  | table _ => True
  | _ => False

instance : DecidablePred IsTable := fun v =>
  match v with
  | table _ => isTrue trivial
  | string _ | integer _ | float _ | boolean _ | datetime _ | array _ => isFalse id

theorem IsTable.exists_entries (h : v.IsTable) : ∃ entries, v = table entries := by
  cases v with
  | table entries => exact ⟨entries, rfl⟩
  | string _ | integer _ | float _ | boolean _ | datetime _ | array _ => cases h

/-- What a path of keys leads to. -/
def at? : List String → Toml → Option Toml
  | [], v => some v
  | k :: path, v => (v.entry? k).bind (at? path)

/-- Whether a path leads on below something that is no table. -/
def HidesBelow (v : Toml) (path : List String) : Prop :=
  ∃ front back w, back ≠ [] ∧ path = front ++ back ∧ at? front v = some w ∧ ¬w.IsTable

mutual
/-- Whether the entries of a table, and of all tables that keys lead to, ascend strictly by key. -/
def IsOrdered : Toml → Prop
  | table entries => Fields.Sorted entries ∧ AreOrdered entries
  | _ => True

def AreOrdered : List (String × Toml) → Prop
  | [] => True
  | (_, v) :: rest => IsOrdered v ∧ AreOrdered rest
end

theorem areOrdered_iff : AreOrdered entries ↔ ∀ kv ∈ entries, IsOrdered kv.2 := by
  induction entries with
  | nil => simp [AreOrdered]
  | cons kv rest ih => simp [AreOrdered, ih]

theorem IsOrdered.of_get? (h : IsOrdered (table entries)) (hk : Fields.get? entries k = some v) :
    IsOrdered v :=
  areOrdered_iff.mp h.2 _ (Fields.mem_of_get?_eq_some hk)

/-- What holds of everything but tables, and of a table when it holds of its entries, holds of all
values. -/
theorem induction_tables {P : Toml → Prop} (leaf : ∀ v, ¬v.IsTable → P v)
    (table : ∀ entries, (∀ kv ∈ entries, P kv.2) → P (table entries)) (v : Toml) : P v := by
  induction h : sizeOf v using Nat.strongRecOn generalizing v with
  | _ n ih =>
    cases v with
    | table entries =>
      refine table entries fun kv hkv => ih _ ?_ kv.2 rfl
      obtain ⟨k, v⟩ := kv
      have hlt := List.sizeOf_lt_of_mem hkv
      simp only [Prod.mk.sizeOf_spec] at hlt
      show sizeOf v < n
      rw [← h, Toml.table.sizeOf_spec]
      omega
    | string _ | integer _ | float _ | boolean _ | datetime _ | array _ => exact leaf _ id

/-! ### Merging -/

/-- A value laid over what there is, if anything. -/
def laidOver (base : Option Toml) (v : Toml) : Toml :=
  match base with
  | some b => merge b v
  | none => v

@[simp] theorem laidOver_none : laidOver none = id := rfl

@[simp] theorem laidOver_some (b v : Toml) : laidOver (some b) v = merge b v := rfl

theorem merge_of_not_isTable (h : ¬overlay.IsTable) : merge base overlay = overlay := by
  cases overlay with
  | table upper => exact absurd trivial h
  | string _ | integer _ | float _ | boolean _ | datetime _ | array _ => simp [merge]

theorem merge_of_not_isTable_base (h : ¬base.IsTable) : merge base overlay = overlay := by
  cases overlay with
  | table upper =>
    cases base with
    | table entries => exact absurd trivial h
    | string _ | integer _ | float _ | boolean _ | datetime _ | array _ => simp [merge]
  | string _ | integer _ | float _ | boolean _ | datetime _ | array _ => simp [merge]

theorem merge_tables (entries upper : Fields Toml) :
    merge (table entries) (table upper) = table (mergeEntries entries upper) := by
  simp [merge]

theorem laidOver_eq_of_not_isTable {b : Option Toml} (h : ¬v.IsTable) : laidOver b v = v := by
  cases b with
  | none => rfl
  | some b => exact merge_of_not_isTable h

/-- An entry of merged tables is that of the upper one, laid over that of the lower one. -/
theorem get?_mergeEntries (h : Fields.Sorted upper) (k : String) :
    Fields.get? (mergeEntries entries upper) k =
      ((Fields.get? upper k).map (laidOver (Fields.get? entries k))).or (Fields.get? entries k) := by
  induction upper generalizing entries with
  | nil => simp [mergeEntries]
  | cons kv rest ih =>
    obtain ⟨key, v⟩ := kv
    obtain ⟨hfirst, hrest⟩ := List.pairwise_cons.mp h
    have hmerged : mergeEntries entries ((key, v) :: rest) =
        mergeEntries (Fields.insert key (laidOver (Fields.get? entries key) v) entries) rest := by
      rw [mergeEntries]
      rfl
    rw [hmerged, ih hrest, Fields.get?_insert, Fields.get?_cons]
    by_cases hk : k = key
    · have hnone : Fields.get? rest k = none := by
        apply Fields.get?_eq_none_iff.mpr
        intro hmem
        obtain ⟨kv, hkv, rfl⟩ := List.mem_map.mp hmem
        exact absurd hk (hfirst kv hkv).ne'
      simp [hk, hk ▸ hnone]
    · simp [hk]

theorem sorted_mergeEntries (h : Fields.Sorted entries) : Fields.Sorted (mergeEntries entries upper) := by
  induction upper generalizing entries with
  | nil => simpa [mergeEntries] using h
  | cons kv rest ih =>
    rw [mergeEntries]
    exact ih (Fields.sorted_insert h)

/-- Merged tables are maps again. -/
theorem IsOrdered.merge (hb : base.IsOrdered) (ho : overlay.IsOrdered) : (merge base overlay).IsOrdered := by
  induction overlay using induction_tables generalizing base with
  | leaf v h => rwa [merge_of_not_isTable h]
  | table upper ih =>
    by_cases hbt : base.IsTable
    · obtain ⟨entries, rfl⟩ := hbt.exists_entries
      rw [merge_tables]
      have hsorted : Fields.Sorted (mergeEntries entries upper) := sorted_mergeEntries hb.1
      refine ⟨hsorted, areOrdered_iff.mpr ?_⟩
      rintro ⟨k, v⟩ hmem
      have hget := (Fields.get?_eq_some_iff hsorted).mpr hmem
      rw [get?_mergeEntries ho.1] at hget
      cases hu : Fields.get? upper k with
      | none =>
        rw [hu] at hget
        exact hb.of_get? hget
      | some w =>
        rw [hu] at hget
        cases hget
        cases he : Fields.get? entries k with
        | none => exact ho.of_get? hu
        | some b => exact ih _ (Fields.mem_of_get?_eq_some hu) (hb.of_get? he) (ho.of_get? hu)
    · rwa [merge_of_not_isTable_base hbt]

/-! ### What a path leads to -/

@[simp] theorem at?_nil (v : Toml) : at? [] v = some v := rfl

@[simp] theorem at?_cons_table (entries : Fields Toml) (k : String) (path : List String) :
    at? (k :: path) (table entries) = (Fields.get? entries k).bind (at? path) := rfl

theorem at?_cons_of_not_isTable (h : ¬v.IsTable) (k : String) (path : List String) :
    at? (k :: path) v = none := by
  cases v with
  | table entries => exact absurd trivial h
  | string _ | integer _ | float _ | boolean _ | datetime _ | array _ => rfl

theorem not_hidesBelow_nil (v : Toml) : ¬v.HidesBelow [] := by
  rintro ⟨front, back, w, hback, hpath, _⟩
  exact hback (List.append_eq_nil_iff.mp hpath.symm).2

theorem hidesBelow_cons_iff : (table entries).HidesBelow (k :: path) ↔
    ∃ v, Fields.get? entries k = some v ∧ v.HidesBelow path := by
  constructor
  · rintro ⟨front, back, w, hback, hpath, hw, hleaf⟩
    cases front with
    | nil =>
      cases hw
      exact absurd trivial hleaf
    | cons key front =>
      obtain ⟨rfl, rfl⟩ := List.cons.inj (hpath.trans (List.cons_append ..))
      obtain ⟨v, hv, hw⟩ := Option.bind_eq_some_iff.mp hw
      exact ⟨v, hv, front, back, w, hback, rfl, hw, hleaf⟩
  · rintro ⟨v, hv, front, back, w, hback, rfl, hw, hleaf⟩
    exact ⟨k :: front, back, w, hback, rfl, by simp [hv, hw], hleaf⟩

/-- Nothing stands below what is no table. -/
theorem HidesBelow.at?_eq_none (h : v.HidesBelow path) : at? path v = none := by
  induction path generalizing v with
  | nil => exact absurd h (not_hidesBelow_nil v)
  | cons k path ih =>
    cases v with
    | table entries =>
      obtain ⟨v, hv, hbelow⟩ := hidesBelow_cons_iff.mp h
      rw [at?_cons_table, hv, Option.bind_some, ih hbelow]
    | string _ | integer _ | float _ | boolean _ | datetime _ | array _ => rfl

/-- Along a path a merged value holds what the upper side holds, laid over what the lower side holds,
and what the lower side holds where the upper side has nothing and hides nothing. -/
theorem at?_merge (base : Toml) (h : overlay.IsOrdered) (path : List String) :
    (overlay.HidesBelow path → at? path (merge base overlay) = none) ∧
      (¬overlay.HidesBelow path → at? path (merge base overlay) =
        ((at? path overlay).map (laidOver (at? path base))).or (at? path base)) := by
  induction path generalizing base overlay with
  | nil =>
    exact ⟨fun hbelow => absurd hbelow (not_hidesBelow_nil overlay), fun _ => rfl⟩
  | cons k path ih =>
    by_cases ho : overlay.IsTable
    · obtain ⟨upper, rfl⟩ := ho.exists_entries
      by_cases hb : base.IsTable
      · obtain ⟨entries, rfl⟩ := hb.exists_entries
        rw [merge_tables, hidesBelow_cons_iff, at?_cons_table, at?_cons_table, at?_cons_table,
          get?_mergeEntries h.1]
        cases hu : Fields.get? upper k with
        | none => simp
        | some v =>
          cases he : Fields.get? entries k with
          | none =>
            refine ⟨?_, fun _ => ?_⟩
            · rintro ⟨w, hw, hbelow⟩
              cases hw
              simpa using hbelow.at?_eq_none
            · simp
          | some b => simpa using ih b (h.of_get? hu)
      · rw [merge_of_not_isTable_base hb, at?_cons_of_not_isTable hb]
        exact ⟨HidesBelow.at?_eq_none, fun _ => by simp⟩
    · rw [merge_of_not_isTable ho, at?_cons_of_not_isTable ho]
      refine ⟨fun _ => rfl, fun hnot => absurd ?_ hnot⟩
      exact ⟨[], k :: path, overlay, List.cons_ne_nil k path, rfl, rfl, ho⟩

/-! ### Laws -/

theorem merge_empty (h : base.IsTable) : merge base (table []) = base := by
  obtain ⟨entries, rfl⟩ := h.exists_entries
  rw [merge_tables, mergeEntries]

theorem empty_merge (h : overlay.IsTable) (ho : overlay.IsOrdered) : merge (table []) overlay = overlay := by
  obtain ⟨upper, rfl⟩ := h.exists_entries
  rw [merge_tables]
  congr 1
  apply Fields.eq_of_get?_eq (sorted_mergeEntries List.Pairwise.nil) ho.1
  intro k
  rw [get?_mergeEntries ho.1]
  simp

theorem merge_self (h : v.IsOrdered) : merge v v = v := by
  induction v using induction_tables with
  | leaf v hleaf => exact merge_of_not_isTable hleaf
  | table entries ih =>
    rw [merge_tables]
    congr 1
    apply Fields.eq_of_get?_eq (sorted_mergeEntries h.1) h.1
    intro k
    rw [get?_mergeEntries h.1]
    cases hk : Fields.get? entries k with
    | none => rfl
    | some v => simpa using ih _ (Fields.mem_of_get?_eq_some hk) (h.of_get? hk)

/-- Whether a path leads to tables in two values, and to something else in a value between them. -/
def ComesBetween (first base second : Toml) : Prop :=
  ∃ path b v w, at? path base = some b ∧ b.IsTable ∧ at? path second = some w ∧ w.IsTable ∧
    at? path first = some v ∧ ¬v.IsTable

theorem comesBetween_tables {between : Fields Toml} :
    (table between).ComesBetween (table entries) (table upper) ↔
      ∃ k b v w, Fields.get? entries k = some b ∧ Fields.get? between k = some v ∧
        Fields.get? upper k = some w ∧ v.ComesBetween b w := by
  constructor
  · rintro ⟨path, b, v, w, hb, hbt, hw, hwt, hv, hleaf⟩
    cases path with
    | nil =>
      cases hv
      exact absurd trivial hleaf
    | cons k path =>
      obtain ⟨b', hb', hb⟩ := Option.bind_eq_some_iff.mp hb
      obtain ⟨v', hv', hv⟩ := Option.bind_eq_some_iff.mp hv
      obtain ⟨w', hw', hw⟩ := Option.bind_eq_some_iff.mp hw
      exact ⟨k, b', v', w', hb', hv', hw', path, b, v, w, hb, hbt, hw, hwt, hv, hleaf⟩
  · rintro ⟨k, b, v, w, hb, hv, hw, path, b', v', w', hb', hbt, hw', hwt, hv', hleaf⟩
    exact ⟨k :: path, b', v', w', by simp [hb, hb'], hbt, by simp [hw, hw'], hwt, by simp [hv, hv'], hleaf⟩

/-- Laying one value and then another over a base is laying both of them merged over it, unless the
first has something else where the base and the second have tables: by itself it would hide the
base's table, and merged with the second it does not. -/
theorem merge_assoc {first second : Toml} (hb : base.IsOrdered) (hf : first.IsOrdered)
    (hs : second.IsOrdered) (h : ¬first.ComesBetween base second) :
    merge (merge base first) second = merge base (merge first second) := by
  induction second using induction_tables generalizing base first with
  | leaf v hleaf => rw [merge_of_not_isTable hleaf, merge_of_not_isTable hleaf, merge_of_not_isTable hleaf]
  | table upper ih =>
    by_cases hbt : base.IsTable
    · by_cases hft : first.IsTable
      · obtain ⟨entries, rfl⟩ := hbt.exists_entries
        obtain ⟨between, rfl⟩ := hft.exists_entries
        simp only [merge_tables]
        congr 1
        apply Fields.eq_of_get?_eq (sorted_mergeEntries (sorted_mergeEntries hb.1)) (sorted_mergeEntries hb.1)
        intro k
        rw [get?_mergeEntries hs.1, get?_mergeEntries hf.1, get?_mergeEntries (sorted_mergeEntries hf.1),
          get?_mergeEntries hs.1]
        cases hw : Fields.get? upper k with
        | none => simp
        | some w =>
          cases hv : Fields.get? between k with
          | none => simp
          | some v =>
            cases he : Fields.get? entries k with
            | none => simp
            | some b =>
              have hmem := Fields.mem_of_get?_eq_some hw
              simpa using ih _ hmem (hb.of_get? he) (hf.of_get? hv) (hs.of_get? hw) fun hbetween =>
                h (comesBetween_tables.mpr ⟨k, b, v, w, he, hv, hw, hbetween⟩)
      · exact absurd ⟨[], base, first, _, rfl, hbt, rfl, trivial, rfl, hft⟩ h
    · rw [merge_of_not_isTable_base hbt, merge_of_not_isTable_base hbt]

theorem not_comesBetween_self (v base : Toml) : ¬v.ComesBetween base v := by
  rintro ⟨path, b, w, w', _, _, hw', hwt, hw, hleaf⟩
  exact hleaf (Option.some.inj (hw'.symm.trans hw) ▸ hwt)

/-- What a merged table holds at each path of keys, and the laws that follow. -/
theorem merge_exact :
    (∀ base overlay, base.IsTable → overlay.IsTable → base.IsOrdered → overlay.IsOrdered →
      (merge base overlay).IsTable ∧ (merge base overlay).IsOrdered ∧ ∀ path,
      (∀ v, at? path overlay = some v → ¬v.IsTable → at? path (merge base overlay) = some v) ∧
      (∀ b v, at? path base = some b → b.IsTable → at? path overlay = some v → v.IsTable →
        at? path (merge base overlay) = some (merge b v)) ∧
      (∀ v, at? path overlay = some v → v.IsTable → (∀ b, at? path base = some b → ¬b.IsTable) →
        at? path (merge base overlay) = some v) ∧
      (at? path overlay = none → ¬overlay.HidesBelow path →
        at? path (merge base overlay) = at? path base) ∧
      (overlay.HidesBelow path → at? path (merge base overlay) = none)) ∧
    (∀ v, v.IsTable → v.IsOrdered → merge (table []) v = v ∧ merge v (table []) = v) ∧
    (∀ base overlay, base.IsTable → overlay.IsTable → base.IsOrdered → overlay.IsOrdered →
      merge (merge base overlay) overlay = merge base overlay) ∧
    ∀ base first second, base.IsTable → first.IsTable → second.IsTable → base.IsOrdered →
      first.IsOrdered → second.IsOrdered → ¬first.ComesBetween base second →
      merge (merge base first) second = merge base (merge first second) := by
  refine ⟨?_, fun v hv ho => ⟨empty_merge hv ho, merge_empty hv⟩, ?_,
    fun base first second _ _ _ => merge_assoc⟩
  · intro base overlay hbt hot hb ho
    refine ⟨?_, hb.merge ho, ?_⟩
    · obtain ⟨entries, rfl⟩ := hbt.exists_entries
      obtain ⟨upper, rfl⟩ := hot.exists_entries
      rw [merge_tables]
      exact trivial
    · intro path
      obtain ⟨hhidden, hshown⟩ := at?_merge base ho path
      -- What the upper side holds is not hidden by it.
      have hheld {v : Toml} (hv : at? path overlay = some v) :
          at? path (merge base overlay) = some (laidOver (at? path base) v) := by
        rw [hshown fun hbelow => by simp [hbelow.at?_eq_none] at hv, hv]
        rfl
      refine ⟨?_, ?_, ?_, ?_, hhidden⟩
      · intro v hv hleaf
        rw [hheld hv, laidOver_eq_of_not_isTable hleaf]
      · intro b v hb _ hv _
        rw [hheld hv, hb, laidOver_some]
      · intro v hv _ hleaf
        rw [hheld hv]
        cases hb : at? path base with
        | none => rfl
        | some b => rw [laidOver_some, merge_of_not_isTable_base (hleaf b hb)]
      · intro hnone hnot
        rw [hshown hnot, hnone]
        rfl
  · intro base overlay _ _ hb ho
    rw [merge_assoc hb ho ho (not_comesBetween_self overlay base), merge_self ho]

/-- The settings of an address and of a directory, one after the other over those that they replace. -/
def servedLayers : Toml × Toml × Toml :=
  (table [("cdn", table [("path", string "public"), ("url", string "/")]), ("minify", boolean true)],
    table [("cdn", table [("url", string "https://cdn.example/")])],
    table [("cdn", table [("path", string "site")]), ("minify", boolean false)])

theorem merge_exact_served :
    servedLayers.1.IsTable ∧ servedLayers.2.1.IsTable ∧ servedLayers.2.2.IsTable ∧
      servedLayers.1.IsOrdered ∧ servedLayers.2.1.IsOrdered ∧ servedLayers.2.2.IsOrdered ∧
      ¬servedLayers.2.1.ComesBetween servedLayers.1 servedLayers.2.2 ∧
      at? ["cdn", "url"] (merge servedLayers.1 servedLayers.2.1) = some (string "https://cdn.example/") ∧
      at? ["cdn", "path"] (merge servedLayers.1 servedLayers.2.1) = some (string "public") ∧
      merge (merge servedLayers.1 servedLayers.2.1) servedLayers.2.2 =
        merge servedLayers.1 (merge servedLayers.2.1 servedLayers.2.2) := by
  have hsorted : Fields.Sorted [("cdn", table [("path", string "public"), ("url", string "/")]),
      ("minify", boolean true)] ∧ Fields.Sorted [("path", string "public"), ("url", string "/")] ∧
      Fields.Sorted [("cdn", table [("path", string "site")]), ("minify", boolean false)] := by
    unfold Fields.Sorted
    decide
  have hbase : servedLayers.1.IsOrdered :=
    ⟨hsorted.1, ⟨hsorted.2.1, trivial, trivial, trivial⟩, trivial, trivial⟩
  have hone (k : String) (v : Toml) : Fields.Sorted [(k, v)] := List.pairwise_singleton _ _
  have hfirst : servedLayers.2.1.IsOrdered := ⟨hone _ _, ⟨hone _ _, trivial, trivial⟩, trivial⟩
  have hsecond : servedLayers.2.2.IsOrdered :=
    ⟨hsorted.2.2, ⟨hone _ _, trivial, trivial⟩, trivial, trivial⟩
  have hapart : ¬servedLayers.2.1.ComesBetween servedLayers.1 servedLayers.2.2 := by
    intro h
    obtain ⟨k, b, v, w, hb, hv, hw, h⟩ := comesBetween_tables.mp h
    cases List.mem_singleton.mp (Fields.mem_of_get?_eq_some hv)
    cases hb
    cases hw
    obtain ⟨k, b, v, w, -, hv, hw, -⟩ := comesBetween_tables.mp h
    cases List.mem_singleton.mp (Fields.mem_of_get?_eq_some hv)
    cases hw
  obtain ⟨_, _, hpath⟩ := merge_exact.1 servedLayers.1 servedLayers.2.1 trivial trivial hbase hfirst
  refine ⟨trivial, trivial, trivial, hbase, hfirst, hsecond, hapart, ?_, ?_, ?_⟩
  · exact (hpath ["cdn", "url"]).1 _ rfl id
  · apply (hpath ["cdn", "path"]).2.2.2.1 rfl
    intro hbelow
    obtain ⟨v, hv, hbelow⟩ := hidesBelow_cons_iff.mp hbelow
    cases hv
    obtain ⟨w, hw, _⟩ := hidesBelow_cons_iff.mp hbelow
    cases hw
  · exact merge_exact.2.2.2 _ _ _ trivial trivial trivial hbase hfirst hsecond hapart

end AssetCompiler.Toml
