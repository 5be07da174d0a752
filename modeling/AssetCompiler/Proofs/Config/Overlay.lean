import AssetCompiler.Proofs.Config.Schema
import AssetCompiler.Proofs.Config.Valid

/-! # Configurations over the stock

A setting is what the overlay gives for it, or what is in stock. That is said once for a field of merged
tables, and then for each record field by field: for those inside a configuration and for the configuration.
-/
namespace AssetCompiler.Config

open Toml (laidOver mergeEntries)

/-- What a setting comes to: what the given value stands for, or else what is in stock. -/
def Sets {α : Type} (Means : Toml → α → Prop) (stock : α) (given : Option Toml) (x : α) : Prop :=
  match given with
  | some v => Means v x
  | none => x = stock

structure SetsSection (stock : Section) (v : Toml) (x : Section) : Prop extends HasKeys sectionFields v where
  source : Sets IsPath stock.source (v.entry? "source") x.source
  target : Sets IsPath stock.target (v.entry? "target") x.target
  languages : Sets AreTexts stock.languages (v.entry? "languages") x.languages

structure SetsDelivery (stock : Delivery) (v : Toml) (x : Delivery) : Prop extends HasKeys deliveryFields v where
  path : Sets IsPath stock.path (v.entry? "path") x.path
  url : Sets IsText stock.url (v.entry? "url") x.url

structure SetsCommands (stock : Commands) (v : Toml) (x : Commands) : Prop extends HasKeys commandFields v where
  transpileScript : Sets AreTexts stock.transpileScript (v.entry? "transpile_script") x.transpileScript
  minifyStylesheet : Sets AreTexts stock.minifyStylesheet (v.entry? "minify_stylesheet") x.minifyStylesheet
  minifyScript : Sets AreTexts stock.minifyScript (v.entry? "minify_script") x.minifyScript
  minifyMarkup : Sets AreTexts stock.minifyMarkup (v.entry? "minify_markup") x.minifyMarkup

/-- A configuration is what an overlay makes of another one. -/
structure IsOverlaid (stock : Config) (v : Toml) (x : Config) : Prop extends HasKeys configFields v where
  cache : Sets IsPath stock.cache (v.entry? "cache") x.cache
  force : Sets IsFlag stock.force (v.entry? "force") x.force
  minify : Sets IsFlag stock.minify (v.entry? "minify") x.minify
  onProcessorError : Sets IsPolicy stock.onProcessorError (v.entry? "on_processor_error") x.onProcessorError
  appConfig : Sets IsSomePath stock.appConfig (v.entry? "appconf") x.appConfig
  catalog : Sets IsSomePath stock.catalog (v.entry? "i18n") x.catalog
  delivery : Sets (SetsDelivery stock.delivery) stock.delivery (v.entry? "cdn") x.delivery
  markup : Sets (SetsSection stock.markup) stock.markup (v.entry? "html") x.markup
  stylesheets : Sets (SetsSection stock.stylesheets) stock.stylesheets (v.entry? "stylesheets") x.stylesheets
  scripts : Sets (SetsSection stock.scripts) stock.scripts (v.entry? "scripts") x.scripts
  images : Sets (SetsSection stock.images) stock.images (v.entry? "images") x.images
  resources : Sets AreResources stock.resources (v.entry? "resources") x.resources
  commands : Sets (SetsCommands stock.commands) stock.commands (v.entry? "processors") x.commands

/-! ### One field -/

section
variable {α : Type} {given : Option Toml} {Means : Toml → α → Prop}

/-- There is something for a setting to come to when what is given for it has the form that it takes. -/
theorem exists_sets_iff (stock : α) {takes : Toml → Prop} (h : ∀ v, (∃ x, Means v x) ↔ takes v) :
    (∃ x, Sets Means stock given x) ↔ ∀ v, given = some v → takes v := by
  cases given with
  | none => exact iff_of_true ⟨stock, rfl⟩ (by simp)
  | some v => simp [Sets, h]

end

section
variable {α : Type} {entries upper : List (String × Toml)} {name : String} {b : Toml}
  {read : Toml → Option α} {default stock : α} {Means : Toml → α → Prop}
variable (hnodup : (entries.map Prod.fst).Nodup) (hupper : (Toml.table upper).IsOrdered)
include hnodup hupper

/-- Over what a record writes for a field, if it writes anything. -/
theorem field_over_written (hb : Fields.get? entries name = some b) (hstock : read b = some stock)
    (hread : ∀ v, Fields.get? upper name = some v → ∀ x, read (b.merge v) = some x ↔ Means v x) (x : α) :
    field (mergeEntries (Fields.sort entries) upper) name read default = some x ↔
      Sets Means stock (Fields.get? upper name) x := by
  have hget : Fields.get? (Fields.sort entries) name = some b := (Fields.get?_sort hnodup name).trans hb
  rw [field, Toml.get?_mergeEntries hupper.1, hget]
  cases hgiven : Fields.get? upper name with
  | none =>
    change read b = some x ↔ x = stock
    rw [hstock, Option.some_inj]
    exact eq_comm
  | some v => exact hread v hgiven x

theorem field_over_unwritten (hb : Fields.get? entries name = none)
    (hread : ∀ v x, read v = some x ↔ Means v x) (x : α) :
    field (mergeEntries (Fields.sort entries) upper) name read default = some x ↔
      Sets Means default (Fields.get? upper name) x := by
  have hget : Fields.get? (Fields.sort entries) name = none := (Fields.get?_sort hnodup name).trans hb
  rw [field, Toml.get?_mergeEntries hupper.1, hget]
  cases Fields.get? upper name with
  | none =>
    change some default = some x ↔ x = default
    rw [Option.some_inj]
    exact eq_comm
  | some v => exact hread v x

/-- Over anything but a table, what is given is read by itself. -/
theorem field_over_leaf (hb : Fields.get? entries name = some b) (hstock : read b = some stock)
    (hleaf : ¬b.IsTable) (hread : ∀ v x, read v = some x ↔ Means v x) (x : α) :
    field (mergeEntries (Fields.sort entries) upper) name read default = some x ↔
      Sets Means stock (Fields.get? upper name) x := by
  refine field_over_written hnodup hupper hb hstock (fun v _ y => ?_) x
  rw [Toml.merge_of_not_isTable_base hleaf]
  exact hread v y

/-- Over a table, what is given is a table and laid over it. -/
theorem field_over_table (hgiven : ∀ v, Fields.get? upper name = some v → v.IsTable)
    (hb : Fields.get? entries name = some b) (hbase : b.IsTable) (hstock : Means (.table []) stock)
    (hread : ∀ sub, (Toml.table sub).IsOrdered →
      ∀ x, read (b.merge (.table sub)) = some x ↔ Means (.table sub) x)
    (x : α) : field (mergeEntries (Fields.sort entries) upper) name read default = some x ↔
      Sets Means stock (Fields.get? upper name) x := by
  refine field_over_written hnodup hupper hb ?_ (fun v hv y => ?_) x
  · have hempty := (hread [] ⟨List.Pairwise.nil, trivial⟩ stock).mpr hstock
    rwa [Toml.merge_empty hbase] at hempty
  · have hordered := hupper.of_get? hv
    obtain ⟨sub, rfl⟩ := (hgiven v hv).exists_entries
    exact hread sub hordered y

theorem path_over_written {p default : Path} (hp : Fields.get? entries name = some (ofPath p)) (x : Path) :
    field (mergeEntries (Fields.sort entries) upper) name readPath default = some x ↔
      Sets IsPath p (Fields.get? upper name) x :=
  have hstock : readPath (ofPath p) = some p := readPath_eq_some_iff.mpr (.string p.text)
  field_over_leaf hnodup hupper hp hstock id (fun _ _ => readPath_eq_some_iff) x

theorem flag_over_written {flag default : Bool}
    (hb : Fields.get? entries name = some (.boolean flag)) (x : Bool) :
    field (mergeEntries (Fields.sort entries) upper) name readFlag default = some x ↔
      Sets IsFlag flag (Fields.get? upper name) x :=
  have hstock : readFlag (.boolean flag) = some flag := readFlag_eq_some_iff.mpr (.boolean flag)
  field_over_leaf hnodup hupper hb hstock id (fun _ _ => readFlag_eq_some_iff) x

theorem somePath_over_unwritten {default : Option Path} (hb : Fields.get? entries name = none)
    (x : Option Path) :
    field (mergeEntries (Fields.sort entries) upper) name readOptionalPath default = some x ↔
      Sets IsSomePath default (Fields.get? upper name) x :=
  field_over_unwritten hnodup hupper hb (fun _ _ => readOptionalPath_eq_some_iff) x

theorem texts_over_written {texts default : List String}
    (ht : Fields.get? entries name = some (ofStrings texts))
    (x : List String) : field (mergeEntries (Fields.sort entries) upper) name readStrings default = some x ↔
      Sets AreTexts texts (Fields.get? upper name) x := by
  have hstock : readStrings (ofStrings texts) = some texts := by
    refine readStrings_eq_some_iff.mpr ⟨_, rfl, ?_⟩
    rw [List.forall₂_map_left_iff]
    exact List.forall₂_same.mpr fun s _ => .string s
  exact field_over_leaf hnodup hupper ht hstock id (fun _ _ => readStrings_eq_some_iff) x

theorem policy_over_written {policy default : ErrorPolicy}
    (hgiven : ∀ v, Fields.get? upper name = some v → ¬v.IsTable)
    (hb : Fields.get? entries name = some (.string (policyName policy))) (x : ErrorPolicy) :
    field (mergeEntries (Fields.sort entries) upper) name readPolicy default = some x ↔
      Sets IsPolicy policy (Fields.get? upper name) x := by
  have hstock : readPolicy (.string (policyName policy)) = some policy := by cases policy <;> rfl
  refine field_over_written hnodup hupper hb hstock (fun v hv y => ?_) x
  rw [Toml.merge_of_not_isTable (hgiven v hv)]
  exact readPolicy_eq_some_iff (hgiven v hv)

/-- Fields laid over those that a record writes are fields of the record when their keys are known. -/
theorem givenFields?_over_written {names : List String} {given : List (String × Toml)}
    (hnames : entries.map Prod.fst ⊆ names) :
    givenFields? names (.table (mergeEntries (Fields.sort entries) upper)) = some given ↔
      given = mergeEntries (Fields.sort entries) upper ∧ HasKeys names (.table upper) := by
  have hmem (k : String) : k ∈ (mergeEntries (Fields.sort entries) upper).map Prod.fst ↔
      k ∈ upper.map Prod.fst ∨ k ∈ entries.map Prod.fst := by
    rw [← not_iff_not, not_or]
    rw [← Fields.get?_eq_none_iff, ← Fields.get?_eq_none_iff, ← Fields.get?_eq_none_iff,
      Toml.get?_mergeEntries hupper.1, Fields.get?_sort hnodup, Option.or_eq_none_iff, Option.map_eq_none_iff]
  have hkeys : (mergeEntries (Fields.sort entries) upper).all (fun e => names.contains e.1) = true ↔
      HasKeys names (.table upper) := by
    rw [List.all_eq_true]
    constructor
    · refine fun h => ⟨trivial, fun k hk => ?_⟩
      obtain ⟨e, he, rfl⟩ := List.mem_map.mp ((hmem k).mpr (.inl hk))
      exact List.contains_iff_mem.mp (h e he)
    · intro h e he
      apply List.contains_iff_mem.mpr
      rcases (hmem e.1).mp (List.mem_map_of_mem he) with hk | hk
      · exact h.known hk
      · exact hnames hk
  rw [givenFields?, ← hkeys]
  split_ifs with hall
  · exact ⟨fun h => ⟨(Option.some.inj h).symm, hall⟩, fun h => congrArg some h.1.symm⟩
  · exact ⟨fun h => (by cases h), fun h => absurd h.2 hall⟩

end

/-! ### Records -/

/-- The fields that a section writes. -/
def sectionEntries (s : Section) : List (String × Toml) :=
  [("source", ofPath s.source), ("target", ofPath s.target), ("languages", ofStrings s.languages)]

def deliveryEntries (d : Delivery) : List (String × Toml) := [("path", ofPath d.path), ("url", .string d.url)]

def commandEntries (c : Commands) : List (String × Toml) :=
  [("transpile_script", ofStrings c.transpileScript), ("minify_stylesheet", ofStrings c.minifyStylesheet),
    ("minify_script", ofStrings c.minifyScript), ("minify_markup", ofStrings c.minifyMarkup)]

/-- The fields that a configuration without optional paths writes. -/
def configEntries (c : Config) : List (String × Toml) :=
  [("cache", ofPath c.cache), ("force", .boolean c.force), ("minify", .boolean c.minify),
    ("on_processor_error", .string (policyName c.onProcessorError)), ("cdn", ofDelivery c.delivery),
    ("html", ofSection c.markup), ("stylesheets", ofSection c.stylesheets), ("scripts", ofSection c.scripts),
    ("images", ofSection c.images),
    ("resources", .table (Fields.sort (c.resources.map fun (k, v) => (k, .string v)))),
    ("processors", ofCommands c.commands)]

section
variable {sub : List (String × Toml)}

theorem readSection_over (hsub : (Toml.table sub).IsOrdered) (stock x : Section) :
    readSection ((ofSection stock).merge (.table sub)) = some x ↔ SetsSection stock (.table sub) x := by
  have hnodup : ((sectionEntries stock).map Prod.fst).Nodup := (by decide : sectionFields.Nodup)
  have hmerged : (ofSection stock).merge (.table sub) =
      .table (mergeEntries (Fields.sort (sectionEntries stock)) sub) := Toml.merge_tables _ _
  rw [hmerged]
  constructor
  · intro hx
    obtain ⟨_, hgiven, hx⟩ := Option.bind_eq_some_iff.mp hx
    obtain ⟨rfl, hkeys⟩ := (givenFields?_over_written hnodup hsub (List.Subset.refl sectionFields)).mp hgiven
    obtain ⟨source, hsource, hx⟩ := Option.bind_eq_some_iff.mp hx
    obtain ⟨target, htarget, hx⟩ := Option.bind_eq_some_iff.mp hx
    obtain ⟨languages, hlanguages, hx⟩ := Option.bind_eq_some_iff.mp hx
    obtain rfl := Option.some.inj hx
    exact {
      hkeys with
      source := (path_over_written hnodup hsub rfl source).mp hsource
      target := (path_over_written hnodup hsub rfl target).mp htarget
      languages := (texts_over_written hnodup hsub rfl languages).mp hlanguages }
  · intro h
    have hgiven :=
      (givenFields?_over_written hnodup hsub (List.Subset.refl sectionFields)).mpr ⟨rfl, h.toHasKeys⟩
    refine Option.bind_eq_some_iff.mpr ⟨_, hgiven, ?_⟩
    refine Option.bind_eq_some_iff.mpr ⟨_, (path_over_written hnodup hsub rfl _).mpr h.source, ?_⟩
    refine Option.bind_eq_some_iff.mpr ⟨_, (path_over_written hnodup hsub rfl _).mpr h.target, ?_⟩
    refine Option.bind_eq_some_iff.mpr ⟨_, (texts_over_written hnodup hsub rfl _).mpr h.languages, ?_⟩
    rfl

theorem readDelivery_over (hsub : (Toml.table sub).IsOrdered) (stock x : Delivery) :
    readDelivery ((ofDelivery stock).merge (.table sub)) = some x ↔ SetsDelivery stock (.table sub) x := by
  have hnodup : ((deliveryEntries stock).map Prod.fst).Nodup := (by decide : deliveryFields.Nodup)
  have hmerged : (ofDelivery stock).merge (.table sub) =
      .table (mergeEntries (Fields.sort (deliveryEntries stock)) sub) := Toml.merge_tables _ _
  have hurl (x : String) :
      field (mergeEntries (Fields.sort (deliveryEntries stock)) sub) "url" readString "/" = some x ↔
        Sets IsText stock.url (Fields.get? sub "url") x :=
    field_over_leaf hnodup hsub rfl (readString_eq_some_iff.mpr (.string stock.url)) id
      (fun _ _ => readString_eq_some_iff) x
  rw [hmerged]
  constructor
  · intro hx
    obtain ⟨_, hgiven, hx⟩ := Option.bind_eq_some_iff.mp hx
    obtain ⟨rfl, hkeys⟩ := (givenFields?_over_written hnodup hsub (List.Subset.refl deliveryFields)).mp hgiven
    obtain ⟨path, hpath, hx⟩ := Option.bind_eq_some_iff.mp hx
    obtain ⟨url, haddress, hx⟩ := Option.bind_eq_some_iff.mp hx
    obtain rfl := Option.some.inj hx
    exact {
      hkeys with
      path := (path_over_written hnodup hsub rfl path).mp hpath
      url := (hurl url).mp haddress }
  · intro h
    have hgiven :=
      (givenFields?_over_written hnodup hsub (List.Subset.refl deliveryFields)).mpr ⟨rfl, h.toHasKeys⟩
    refine Option.bind_eq_some_iff.mpr ⟨_, hgiven, ?_⟩
    refine Option.bind_eq_some_iff.mpr ⟨_, (path_over_written hnodup hsub rfl _).mpr h.path, ?_⟩
    refine Option.bind_eq_some_iff.mpr ⟨_, (hurl _).mpr h.url, ?_⟩
    rfl

theorem readCommands_over (hsub : (Toml.table sub).IsOrdered) (stock x : Commands) :
    readCommands ((ofCommands stock).merge (.table sub)) = some x ↔ SetsCommands stock (.table sub) x := by
  have hnodup : ((commandEntries stock).map Prod.fst).Nodup := (by decide : commandFields.Nodup)
  have hmerged : (ofCommands stock).merge (.table sub) =
      .table (mergeEntries (Fields.sort (commandEntries stock)) sub) := Toml.merge_tables _ _
  rw [hmerged]
  constructor
  · intro hx
    obtain ⟨_, hgiven, hx⟩ := Option.bind_eq_some_iff.mp hx
    obtain ⟨rfl, hkeys⟩ := (givenFields?_over_written hnodup hsub (List.Subset.refl commandFields)).mp hgiven
    obtain ⟨_, htranspile, hx⟩ := Option.bind_eq_some_iff.mp hx
    obtain ⟨_, hstylesheet, hx⟩ := Option.bind_eq_some_iff.mp hx
    obtain ⟨_, hscript, hx⟩ := Option.bind_eq_some_iff.mp hx
    obtain ⟨_, hmarkup, hx⟩ := Option.bind_eq_some_iff.mp hx
    obtain rfl := Option.some.inj hx
    exact {
      hkeys with
      transpileScript := (texts_over_written hnodup hsub rfl _).mp htranspile
      minifyStylesheet := (texts_over_written hnodup hsub rfl _).mp hstylesheet
      minifyScript := (texts_over_written hnodup hsub rfl _).mp hscript
      minifyMarkup := (texts_over_written hnodup hsub rfl _).mp hmarkup }
  · intro h
    have hgiven :=
      (givenFields?_over_written hnodup hsub (List.Subset.refl commandFields)).mpr ⟨rfl, h.toHasKeys⟩
    refine Option.bind_eq_some_iff.mpr ⟨_, hgiven, ?_⟩
    refine Option.bind_eq_some_iff.mpr ⟨_, (texts_over_written hnodup hsub rfl _).mpr h.transpileScript, ?_⟩
    refine Option.bind_eq_some_iff.mpr ⟨_, (texts_over_written hnodup hsub rfl _).mpr h.minifyStylesheet, ?_⟩
    refine Option.bind_eq_some_iff.mpr ⟨_, (texts_over_written hnodup hsub rfl _).mpr h.minifyScript, ?_⟩
    refine Option.bind_eq_some_iff.mpr ⟨_, (texts_over_written hnodup hsub rfl _).mpr h.minifyMarkup, ?_⟩
    rfl

end

section
variable {entries upper : List (String × Toml)} {name : String}
variable (hnodup : (entries.map Prod.fst).Nodup) (hupper : (Toml.table upper).IsOrdered)
  (hgiven : ∀ v, Fields.get? upper name = some v → v.IsTable)
include hnodup hupper hgiven

theorem section_over_written {stock default : Section}
    (hb : Fields.get? entries name = some (ofSection stock)) (x : Section) :
    field (mergeEntries (Fields.sort entries) upper) name readSection default = some x ↔
      Sets (SetsSection stock) stock (Fields.get? upper name) x := by
  have hempty : SetsSection stock (.table []) stock := ⟨⟨trivial, List.nil_subset _⟩, rfl, rfl, rfl⟩
  exact field_over_table hnodup hupper hgiven hb trivial hempty (fun _ hsub => readSection_over hsub stock) x

theorem delivery_over_written {stock default : Delivery}
    (hb : Fields.get? entries name = some (ofDelivery stock)) (x : Delivery) :
    field (mergeEntries (Fields.sort entries) upper) name readDelivery default = some x ↔
      Sets (SetsDelivery stock) stock (Fields.get? upper name) x := by
  have hempty : SetsDelivery stock (.table []) stock := ⟨⟨trivial, List.nil_subset _⟩, rfl, rfl⟩
  exact field_over_table hnodup hupper hgiven hb trivial hempty (fun _ hsub => readDelivery_over hsub stock) x

theorem commands_over_written {stock default : Commands}
    (hb : Fields.get? entries name = some (ofCommands stock)) (x : Commands) :
    field (mergeEntries (Fields.sort entries) upper) name readCommands default = some x ↔
      Sets (SetsCommands stock) stock (Fields.get? upper name) x := by
  have hempty : SetsCommands stock (.table []) stock := ⟨⟨trivial, List.nil_subset _⟩, rfl, rfl, rfl, rfl⟩
  exact field_over_table hnodup hupper hgiven hb trivial hempty (fun _ hsub => readCommands_over hsub stock) x

/-- Over an empty table of resources, those that are given are all there are. -/
theorem resources_over_written {default : List (String × String)}
    (hb : Fields.get? entries name = some (.table [])) (x : List (String × String)) :
    field (mergeEntries (Fields.sort entries) upper) name readResources default = some x ↔
      Sets AreResources [] (Fields.get? upper name) x := by
  refine field_over_table hnodup hupper hgiven hb trivial ⟨[], rfl, .nil⟩ (fun sub hsub y => ?_) x
  have hempty : (Toml.table []).merge (.table sub) = .table sub := Toml.empty_merge trivial hsub
  rw [hempty]
  exact readResources_eq_some_iff

end

/-- The keys whose values are tables. -/
def tableFields : List String := ["cdn", "html", "stylesheets", "scripts", "images", "resources", "processors"]

theorem nodup_configEntries (c : Config) : ((configEntries c).map Prod.fst).Nodup := by
  have hkeys : (configEntries c).map Prod.fst = (configEntries {}).map Prod.fst := rfl
  rw [hkeys]
  decide

theorem stock_merge_eq (upper : List (String × Toml)) :
    stock.merge (.table upper) = .table (mergeEntries (Fields.sort (configEntries {})) upper) :=
  Toml.merge_tables _ _

section
variable {upper : List (String × Toml)} {x : Config} (hupper : (Toml.table upper).IsOrdered)
  (htables : ∀ k ∈ tableFields, ∀ v, Fields.get? upper k = some v → v.IsTable)
  (hpolicy : ∀ v, Fields.get? upper "on_processor_error" = some v → ¬v.IsTable)
include hupper htables hpolicy

/-- An overlay whose records are tables is read, over the stock, field by field. -/
theorem isOverlaid_of_ofToml? (hx : ofToml? (stock.merge (.table upper)) = some x) :
    IsOverlaid {} (.table upper) x := by
  have hnodup := nodup_configEntries {}
  have hnames : (configEntries {}).map Prod.fst ⊆ configFields := by decide
  rw [stock_merge_eq] at hx
  obtain ⟨_, hgiven, hx⟩ := Option.bind_eq_some_iff.mp hx
  obtain ⟨rfl, hkeys⟩ := (givenFields?_over_written hnodup hupper hnames).mp hgiven
  obtain ⟨_, hcache, hx⟩ := Option.bind_eq_some_iff.mp hx
  obtain ⟨_, hforce, hx⟩ := Option.bind_eq_some_iff.mp hx
  obtain ⟨_, hminify, hx⟩ := Option.bind_eq_some_iff.mp hx
  obtain ⟨_, honError, hx⟩ := Option.bind_eq_some_iff.mp hx
  obtain ⟨_, hindex, hx⟩ := Option.bind_eq_some_iff.mp hx
  obtain ⟨_, hcatalog, hx⟩ := Option.bind_eq_some_iff.mp hx
  obtain ⟨_, hcdn, hx⟩ := Option.bind_eq_some_iff.mp hx
  obtain ⟨_, hhtml, hx⟩ := Option.bind_eq_some_iff.mp hx
  obtain ⟨_, hstylesheets, hx⟩ := Option.bind_eq_some_iff.mp hx
  obtain ⟨_, hscripts, hx⟩ := Option.bind_eq_some_iff.mp hx
  obtain ⟨_, himages, hx⟩ := Option.bind_eq_some_iff.mp hx
  obtain ⟨_, hnamed, hx⟩ := Option.bind_eq_some_iff.mp hx
  obtain ⟨_, hprocessors, hx⟩ := Option.bind_eq_some_iff.mp hx
  obtain rfl := Option.some.inj hx
  exact {
    hkeys with
    cache := (path_over_written hnodup hupper rfl _).mp hcache
    force := (flag_over_written hnodup hupper rfl _).mp hforce
    minify := (flag_over_written hnodup hupper rfl _).mp hminify
    onProcessorError := (policy_over_written hnodup hupper hpolicy rfl _).mp honError
    appConfig := (somePath_over_unwritten hnodup hupper rfl _).mp hindex
    catalog := (somePath_over_unwritten hnodup hupper rfl _).mp hcatalog
    delivery := (delivery_over_written hnodup hupper (htables "cdn" (by decide)) rfl _).mp hcdn
    markup := (section_over_written hnodup hupper (htables "html" (by decide)) rfl _).mp hhtml
    stylesheets := (section_over_written hnodup hupper (htables "stylesheets" (by decide)) rfl _).mp hstylesheets
    scripts := (section_over_written hnodup hupper (htables "scripts" (by decide)) rfl _).mp hscripts
    images := (section_over_written hnodup hupper (htables "images" (by decide)) rfl _).mp himages
    resources := (resources_over_written hnodup hupper (htables "resources" (by decide)) rfl _).mp hnamed
    commands := (commands_over_written hnodup hupper (htables "processors" (by decide)) rfl _).mp hprocessors }

theorem ofToml?_of_isOverlaid (h : IsOverlaid {} (.table upper) x) :
    ofToml? (stock.merge (.table upper)) = some x := by
  have hnodup := nodup_configEntries {}
  have hnames : (configEntries {}).map Prod.fst ⊆ configFields := by decide
  rw [stock_merge_eq]
  have hgiven := (givenFields?_over_written hnodup hupper hnames).mpr ⟨rfl, h.toHasKeys⟩
  refine Option.bind_eq_some_iff.mpr ⟨_, hgiven, ?_⟩
  refine Option.bind_eq_some_iff.mpr ⟨_, (path_over_written hnodup hupper rfl _).mpr h.cache, ?_⟩
  refine Option.bind_eq_some_iff.mpr ⟨_, (flag_over_written hnodup hupper rfl _).mpr h.force, ?_⟩
  refine Option.bind_eq_some_iff.mpr ⟨_, (flag_over_written hnodup hupper rfl _).mpr h.minify, ?_⟩
  refine Option.bind_eq_some_iff.mpr ⟨_,
    (policy_over_written hnodup hupper hpolicy rfl _).mpr h.onProcessorError, ?_⟩
  refine Option.bind_eq_some_iff.mpr ⟨_, (somePath_over_unwritten hnodup hupper rfl _).mpr h.appConfig, ?_⟩
  refine Option.bind_eq_some_iff.mpr ⟨_, (somePath_over_unwritten hnodup hupper rfl _).mpr h.catalog, ?_⟩
  refine Option.bind_eq_some_iff.mpr
    ⟨_, (delivery_over_written hnodup hupper (htables "cdn" (by decide)) rfl _).mpr h.delivery, ?_⟩
  refine Option.bind_eq_some_iff.mpr
    ⟨_, (section_over_written hnodup hupper (htables "html" (by decide)) rfl _).mpr h.markup, ?_⟩
  refine Option.bind_eq_some_iff.mpr
    ⟨_, (section_over_written hnodup hupper (htables "stylesheets" (by decide)) rfl _).mpr h.stylesheets, ?_⟩
  refine Option.bind_eq_some_iff.mpr
    ⟨_, (section_over_written hnodup hupper (htables "scripts" (by decide)) rfl _).mpr h.scripts, ?_⟩
  refine Option.bind_eq_some_iff.mpr
    ⟨_, (section_over_written hnodup hupper (htables "images" (by decide)) rfl _).mpr h.images, ?_⟩
  refine Option.bind_eq_some_iff.mpr
    ⟨_, (resources_over_written hnodup hupper (htables "resources" (by decide)) rfl _).mpr h.resources, ?_⟩
  refine Option.bind_eq_some_iff.mpr
    ⟨_, (commands_over_written hnodup hupper (htables "processors" (by decide)) rfl _).mpr h.commands, ?_⟩
  rfl

end

/-! ### What an overlay may hold -/

theorem exists_setsSection_iff (stock : Section) (v : Toml) :
    (∃ x, SetsSection stock v x) ↔ IsRecord (sectionSlots HasText) v := by
  rw [isRecord_iff]
  constructor
  · rintro ⟨x, h⟩
    exact ⟨h.toHasKeys, (exists_sets_iff _ exists_isPath_iff).mp ⟨_, h.source⟩,
      (exists_sets_iff _ exists_isPath_iff).mp ⟨_, h.target⟩,
      (exists_sets_iff _ exists_areTexts_iff).mp ⟨_, h.languages⟩⟩
  · rintro ⟨hkeys, hsource, htarget, hlanguages⟩
    obtain ⟨_, hsource⟩ := (exists_sets_iff stock.source exists_isPath_iff).mpr hsource
    obtain ⟨_, htarget⟩ := (exists_sets_iff stock.target exists_isPath_iff).mpr htarget
    obtain ⟨_, hlanguages⟩ := (exists_sets_iff stock.languages exists_areTexts_iff).mpr hlanguages
    exact ⟨⟨_, _, _⟩, hkeys, hsource, htarget, hlanguages⟩

theorem exists_setsDelivery_iff (stock : Delivery) (v : Toml) :
    (∃ x, SetsDelivery stock v x) ↔ IsRecord (deliverySlots HasText) v := by
  rw [isRecord_iff]
  constructor
  · rintro ⟨x, h⟩
    exact ⟨h.toHasKeys, (exists_sets_iff _ exists_isPath_iff).mp ⟨_, h.path⟩,
      (exists_sets_iff _ fun _ => Iff.rfl).mp ⟨_, h.url⟩⟩
  · rintro ⟨hkeys, hpath, hurl⟩
    obtain ⟨_, hpath⟩ := (exists_sets_iff stock.path exists_isPath_iff).mpr hpath
    obtain ⟨_, hurl⟩ := (exists_sets_iff stock.url (fun _ => Iff.rfl)).mpr hurl
    exact ⟨⟨_, _⟩, hkeys, hpath, hurl⟩

theorem exists_setsCommands_iff (stock : Commands) (v : Toml) :
    (∃ x, SetsCommands stock v x) ↔ IsRecord (commandSlots HasText) v := by
  rw [isRecord_iff]
  constructor
  · rintro ⟨x, h⟩
    exact ⟨h.toHasKeys, (exists_sets_iff _ exists_areTexts_iff).mp ⟨_, h.transpileScript⟩,
      (exists_sets_iff _ exists_areTexts_iff).mp ⟨_, h.minifyStylesheet⟩,
      (exists_sets_iff _ exists_areTexts_iff).mp ⟨_, h.minifyScript⟩,
      (exists_sets_iff _ exists_areTexts_iff).mp ⟨_, h.minifyMarkup⟩⟩
  · rintro ⟨hkeys, htranspile, hstylesheet, hscript, hmarkup⟩
    obtain ⟨_, htranspile⟩ := (exists_sets_iff stock.transpileScript exists_areTexts_iff).mpr htranspile
    obtain ⟨_, hstylesheet⟩ := (exists_sets_iff stock.minifyStylesheet exists_areTexts_iff).mpr hstylesheet
    obtain ⟨_, hscript⟩ := (exists_sets_iff stock.minifyScript exists_areTexts_iff).mpr hscript
    obtain ⟨_, hmarkup⟩ := (exists_sets_iff stock.minifyMarkup exists_areTexts_iff).mpr hmarkup
    exact ⟨⟨_, _, _, _⟩, hkeys, htranspile, hstylesheet, hscript, hmarkup⟩

/-- An overlay can be laid over a configuration when it has the form of one. -/
theorem exists_isOverlaid_iff (stock : Config) (v : Toml) : (∃ c, IsOverlaid stock v c) ↔ Conforms v := by
  rw [Conforms, isRecord_iff]
  constructor
  · rintro ⟨c, h⟩
    exact ⟨h.toHasKeys, (exists_sets_iff _ exists_isPath_iff).mp ⟨_, h.cache⟩,
      (exists_sets_iff _ fun _ => Iff.rfl).mp ⟨_, h.force⟩,
      (exists_sets_iff _ fun _ => Iff.rfl).mp ⟨_, h.minify⟩,
      (exists_sets_iff _ fun _ => Iff.rfl).mp ⟨_, h.onProcessorError⟩,
      (exists_sets_iff _ exists_isSomePath_iff).mp ⟨_, h.appConfig⟩,
      (exists_sets_iff _ exists_isSomePath_iff).mp ⟨_, h.catalog⟩,
      (exists_sets_iff _ (exists_setsDelivery_iff _)).mp ⟨_, h.delivery⟩,
      (exists_sets_iff _ (exists_setsSection_iff _)).mp ⟨_, h.markup⟩,
      (exists_sets_iff _ (exists_setsSection_iff _)).mp ⟨_, h.stylesheets⟩,
      (exists_sets_iff _ (exists_setsSection_iff _)).mp ⟨_, h.scripts⟩,
      (exists_sets_iff _ (exists_setsSection_iff _)).mp ⟨_, h.images⟩,
      (exists_sets_iff _ exists_areResources_iff).mp ⟨_, h.resources⟩,
      (exists_sets_iff _ (exists_setsCommands_iff _)).mp ⟨_, h.commands⟩⟩
  · rintro ⟨hkeys, hcache, hforce, hminify, hpolicy, happ, hcatalog, hcdn, hhtml, hstylesheets, hscripts,
      himages, hresources, hprocessors⟩
    obtain ⟨_, hcache⟩ := (exists_sets_iff stock.cache exists_isPath_iff).mpr hcache
    obtain ⟨_, hforce⟩ := (exists_sets_iff stock.force (fun _ => Iff.rfl)).mpr hforce
    obtain ⟨_, hminify⟩ := (exists_sets_iff stock.minify (fun _ => Iff.rfl)).mpr hminify
    obtain ⟨_, hpolicy⟩ := (exists_sets_iff stock.onProcessorError (fun _ => Iff.rfl)).mpr hpolicy
    obtain ⟨_, happ⟩ := (exists_sets_iff stock.appConfig exists_isSomePath_iff).mpr happ
    obtain ⟨_, hcatalog⟩ := (exists_sets_iff stock.catalog exists_isSomePath_iff).mpr hcatalog
    obtain ⟨_, hcdn⟩ := (exists_sets_iff stock.delivery (exists_setsDelivery_iff stock.delivery)).mpr hcdn
    obtain ⟨_, hhtml⟩ := (exists_sets_iff stock.markup (exists_setsSection_iff stock.markup)).mpr hhtml
    obtain ⟨_, hstylesheets⟩ :=
      (exists_sets_iff stock.stylesheets (exists_setsSection_iff stock.stylesheets)).mpr hstylesheets
    obtain ⟨_, hscripts⟩ :=
      (exists_sets_iff stock.scripts (exists_setsSection_iff stock.scripts)).mpr hscripts
    obtain ⟨_, himages⟩ := (exists_sets_iff stock.images (exists_setsSection_iff stock.images)).mpr himages
    obtain ⟨_, hresources⟩ := (exists_sets_iff stock.resources exists_areResources_iff).mpr hresources
    obtain ⟨_, hprocessors⟩ :=
      (exists_sets_iff stock.commands (exists_setsCommands_iff stock.commands)).mpr hprocessors
    exact ⟨⟨_, _, _, _, _, _, _, _, _, _, _, _, _⟩, hkeys, hcache, hforce, hminify, hpolicy, happ,
      hcatalog, hcdn, hhtml, hstylesheets, hscripts, himages, hresources, hprocessors⟩

section
variable {overlay : Toml} {c : Config} (htable : overlay.IsTable) (hordered : overlay.IsOrdered)
  (htables : ∀ k ∈ tableFields, ∀ v, overlay.entry? k = some v → v.IsTable)
  (hpolicy : ∀ v, overlay.entry? "on_processor_error" = some v → ¬v.IsTable)
include htable hordered htables hpolicy

theorem ofToml?_stock_merge_iff : ofToml? (stock.merge overlay) = some c ↔ IsOverlaid {} overlay c := by
  obtain ⟨upper, rfl⟩ := htable.exists_entries
  exact ⟨isOverlaid_of_ofToml? hordered htables hpolicy, ofToml?_of_isOverlaid hordered htables hpolicy⟩

theorem resolve_eq_ok_iff : resolve stock overlay = .ok c ↔ IsOverlaid {} overlay c ∧ c.IsValid := by
  rw [← ofToml?_stock_merge_iff htable hordered htables hpolicy, resolve]
  cases hread : ofToml? (stock.merge overlay) with
  | none => simp
  | some d =>
    change d.validate = .ok c ↔ _
    rw [validate_eq_ok_iff, Option.some_inj]
    constructor
    · rintro ⟨hvalid, rfl⟩
      exact ⟨rfl, hvalid⟩
    · rintro ⟨rfl, hvalid⟩
      exact ⟨hvalid, rfl⟩

/-- What has not the form of a configuration is refused for that, whatever else is wrong with it. -/
theorem resolve_eq_malformed_iff : resolve stock overlay = .error .malformed ↔ ¬Conforms overlay := by
  have hmerged (c : Config) := ofToml?_stock_merge_iff (c := c) htable hordered htables hpolicy
  rw [← exists_isOverlaid_iff {}, resolve]
  cases hread : ofToml? (stock.merge overlay) with
  | none =>
    refine iff_of_true rfl ?_
    rintro ⟨c, hc⟩
    rw [(hmerged c).mpr hc] at hread
    cases hread
  | some c =>
    refine iff_of_false ?_ fun hnot => hnot ⟨c, (hmerged c).mp hread⟩
    change c.validate ≠ .error .malformed
    intro h
    unfold validate at h
    split at h <;> cases h

end

/-- An overlay of the form of a configuration is resolved to its settings over the stock, when these are
valid. One of another form is refused as malformed, whatever its settings are. -/
theorem resolve_exact (overlay : Toml) (htable : overlay.IsTable) (hordered : overlay.IsOrdered)
    (htables : ∀ k ∈ tableFields, ∀ v, overlay.entry? k = some v → v.IsTable)
    (hpolicy : ∀ v, overlay.entry? "on_processor_error" = some v → ¬v.IsTable) :
    (∀ c, resolve stock overlay = .ok c ↔ Conforms overlay ∧ IsOverlaid {} overlay c ∧ c.IsValid) ∧
    (Conforms overlay → ∃ c, IsOverlaid {} overlay c) ∧
    (resolve stock overlay = .error .malformed ↔ ¬Conforms overlay) := by
  refine ⟨fun c => ?_, (exists_isOverlaid_iff {} overlay).mpr, ?_⟩
  · rw [resolve_eq_ok_iff htable hordered htables hpolicy]
    constructor
    · rintro ⟨hoverlaid, hvalid⟩
      exact ⟨(exists_isOverlaid_iff {} overlay).mp ⟨c, hoverlaid⟩, hoverlaid, hvalid⟩
    · exact fun h => h.2
  · exact resolve_eq_malformed_iff htable hordered htables hpolicy

namespace Sample

/-- Pages in two languages, and the address of a picture. -/
def localized : Toml :=
  .table [("cache", .string "out"),
    ("html", .table [("languages", .array [.string "de", .string "en"])]),
    ("resources", .table [("logo", .string "/logo.svg")])]

def localizedConfig : Config where
  cache := ⟨"out"⟩
  markup := ⟨⟨"html"⟩, ⟨"public/html"⟩, ["de", "en"]⟩
  resources := [("logo", "/logo.svg")]

/-- A key that no configuration has, beside an address that none may have. -/
def colored : Toml := .table [("cdn", .table [("url", .string "")]), ("colour", .string "red")]

def dated : Toml := .table [("cache", .datetime "1979-05-27")]

end Sample

open AssetCompiler.Config.Sample in
theorem resolve_exact_localized :
    resolve stock localized = .ok localizedConfig ∧ resolve stock colored = .error .malformed := by
  have hone (k : String) (v : Toml) : Fields.Sorted [(k, v)] := List.pairwise_singleton _ _
  constructor
  · have hordered : localized.IsOrdered := by
      refine ⟨?_, trivial, ⟨hone _ _, trivial, trivial⟩, ⟨hone _ _, trivial, trivial⟩, trivial⟩
      unfold Fields.Sorted
      decide
    have htables : ∀ k ∈ tableFields, ∀ v, localized.entry? k = some v → v.IsTable := by
      intro k hk v hv
      have hmem := Fields.mem_of_get?_eq_some hv
      simp only [List.mem_cons, Prod.mk.injEq, List.not_mem_nil, or_false] at hmem
      rcases hmem with ⟨rfl, rfl⟩ | ⟨rfl, rfl⟩ | ⟨rfl, rfl⟩
      · exact absurd hk (by decide)
      · exact trivial
      · exact trivial
    have hmarkup : SetsSection ⟨⟨"html"⟩, ⟨"public/html"⟩, []⟩
        (.table [("languages", .array [.string "de", .string "en"])]) localizedConfig.markup :=
      ⟨⟨trivial, by decide⟩, rfl, rfl, _, rfl, .cons (.string _) (.cons (.string _) .nil)⟩
    have hresources : AreResources (.table [("logo", .string "/logo.svg")]) localizedConfig.resources :=
      ⟨_, rfl, .cons ⟨rfl, .string _⟩ .nil⟩
    have hoverlaid : IsOverlaid {} localized localizedConfig :=
      ⟨⟨trivial, by decide⟩, .string "out", rfl, rfl, rfl, rfl, rfl, rfl, hmarkup, rfl, rfl, rfl, hresources,
        rfl⟩
    have hvalid : localizedConfig.IsValid := by
      refine ⟨by decide, fun k hk => ?_, by decide, by decide⟩
      cases k with
      | markup => exact absurd rfl hk
      | stylesheet | script | image => rfl
    obtain ⟨hok, _, _⟩ := resolve_exact localized trivial hordered htables fun v hv => by cases hv
    exact (hok localizedConfig).mpr
      ⟨(exists_isOverlaid_iff {} localized).mp ⟨localizedConfig, hoverlaid⟩, hoverlaid, hvalid⟩
  · have hordered : colored.IsOrdered := by
      refine ⟨?_, ⟨hone _ _, trivial, trivial⟩, trivial, trivial⟩
      unfold Fields.Sorted
      decide
    have htables : ∀ k ∈ tableFields, ∀ v, colored.entry? k = some v → v.IsTable := by
      intro k hk v hv
      have hmem := Fields.mem_of_get?_eq_some hv
      simp only [List.mem_cons, Prod.mk.injEq, List.not_mem_nil, or_false] at hmem
      rcases hmem with ⟨rfl, rfl⟩ | ⟨rfl, rfl⟩
      · exact trivial
      · exact absurd hk (by decide)
    obtain ⟨_, _, hmalformed⟩ := resolve_exact colored trivial hordered htables fun v hv => by cases hv
    refine hmalformed.mpr fun h => ?_
    exact absurd (h.known (show "colour" ∈ colored.keys by decide)) (by decide)

open AssetCompiler.Config.Sample in
/-- A date stands where a path is wanted, though it is no string. -/
theorem resolve_date :
    dated.IsTable ∧ dated.IsOrdered ∧ (∀ k ∈ tableFields, ∀ v, dated.entry? k = some v → v.IsTable) ∧
      (∀ v, dated.entry? "on_processor_error" = some v → ¬v.IsTable) ∧
      ¬IsRecord (configSlots fun v => ∃ s, v = .string s) dated ∧
      resolve stock dated = .ok { cache := ⟨"1979-05-27"⟩ } := by
  refine ⟨trivial, ⟨List.pairwise_singleton _ _, trivial, trivial⟩, ?_, fun v hv => (by cases hv), ?_, ?_⟩
  · intro k hk v hv
    obtain ⟨rfl, _⟩ := Prod.mk.inj (List.mem_singleton.mp (Fields.mem_of_get?_eq_some hv))
    exact absurd hk (by decide)
  · intro h
    obtain ⟨s, hs⟩ := h.takes ("cache", _) List.mem_cons_self (.datetime "1979-05-27") rfl
    cases hs
  · decide +kernel

end AssetCompiler.Config
