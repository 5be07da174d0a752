import AssetCompiler.Build.Produce
import AssetCompiler.Proofs.Asset.Target
import AssetCompiler.Proofs.Directive.Agree

/-! # What the content of a target depends on

A content comes from the asset's text, the targets of the assets that the text refers to and the
texts of those that it includes. All else that answers look at stays from build to build: most of
the configuration, the settings and the message tables. Which tables a catalog has read so far and
what stands in the log show in no answer.
-/
namespace AssetCompiler

/-- A configuration without what may differ from build to build. -/
def Config.lasting (c : Config) : Config := { c with force := false, onProcessorError := .abort }

def Directive.isEmbed : Directive → Bool
  | embed .. => true
  | _ => false

/-- A processor that gives every step on every input one output, if it does not fail. -/
def Processor.Follows (p : Processor) (out : Step → ByteArray → ByteArray) : Prop :=
  ∀ calls step input disk output, (p calls step input disk).1 = .ok output → output = out step input

namespace Catalog

variable {tables : String → MessageTable} {directory? : Option Path} {files : Tree} {t : Catalog}

/-- A catalog with tables that may have been read. -/
structure Holding (mayRead : String → MessageTable → Prop) (directory? : Option Path) (t : Catalog) :
    Prop where
  directory : t.directory? = directory?
  tables : ∀ language table, t.tables.lookup language = some table → mayRead language table

/-- A catalog that has read no other tables than the given ones. -/
structure Holds (tables : String → MessageTable) (directory? : Option Path) (t : Catalog) : Prop where
  directory : t.directory? = directory?
  tables : ∀ language table, t.tables.lookup language = some table → table = tables language

def textOf (table : MessageTable) (key : String) : String := (Fields.get? table key).getD key

def textIn (tables : String → MessageTable) (key : String) : Option String → String
  | none => key
  | some language => (Fields.get? (tables language) key).getD key

theorem holding_empty (mayRead : String → MessageTable → Prop) (directory? : Option Path) :
    Holding mayRead directory? { directory? } :=
  ⟨rfl, fun _ _ h => by cases h⟩

theorem holds_empty (tables : String → MessageTable) (directory? : Option Path) :
    Holds tables directory? { directory? } :=
  ⟨rfl, fun _ _ h => by cases h⟩

theorem holds_iff_holding :
    Holds tables directory? t ↔ Holding (fun language table => table = tables language) directory? t :=
  ⟨fun h => ⟨h.directory, h.tables⟩, fun h => ⟨h.directory, h.tables⟩⟩

theorem Holding.table {mayRead : String → MessageTable → Prop} (h : Holding mayRead directory? t)
    (hread : ∀ language, mayRead language (readTable files directory? language).1) (language : String) :
    mayRead language (t.table files language).1 ∧
      Holding mayRead directory? (t.table files language).2.1 := by
  unfold Catalog.table
  rw [h.directory]
  cases hl : t.tables.lookup language with
  | some table => exact ⟨h.tables language table hl, h⟩
  | none =>
    refine ⟨hread language, rfl, ?_⟩
    intro other table hother
    dsimp only at hother
    rw [List.lookup_cons] at hother
    split at hother
    · rename_i he
      rw [eq_of_beq he, ← Option.some.inj hother]
      exact hread language
    · exact h.tables other table hother

theorem Holding.message {mayRead : String → MessageTable → Prop} (h : Holding mayRead directory? t)
    (hread : ∀ language, mayRead language (readTable files directory? language).1) (key : String)
    (language : String) :
    ∃ table, mayRead language table ∧ (t.message files key (some language)).1 = textOf table key := by
  obtain ⟨htable, _⟩ := h.table hread language
  refine ⟨_, htable, ?_⟩
  unfold Catalog.message textOf
  dsimp only
  cases Fields.get? (t.table files language).1 key <;> rfl

theorem Holding.next {mayRead : String → MessageTable → Prop} (h : Holding mayRead directory? t)
    (hread : ∀ language, mayRead language (readTable files directory? language).1) (key : String)
    (language? : Option String) : Holding mayRead directory? (t.message files key language?).2.1 := by
  cases language? with
  | none => exact h
  | some language =>
    obtain ⟨_, hnext⟩ := h.table hread language
    unfold Catalog.message
    dsimp only
    cases Fields.get? (t.table files language).1 key <;> exact hnext

theorem Holds.table (h : Holds tables directory? t)
    (hread : ∀ language, (readTable files directory? language).1 = tables language) (language : String) :
    (t.table files language).1 = tables language ∧ Holds tables directory? (t.table files language).2.1 := by
  obtain ⟨htable, hnext⟩ := (holds_iff_holding.mp h).table hread language
  exact ⟨htable, holds_iff_holding.mpr hnext⟩

theorem Holds.message (h : Holds tables directory? t)
    (hread : ∀ language, (readTable files directory? language).1 = tables language) (key : String)
    (language? : Option String) :
    (t.message files key language?).1 = textIn tables key language? ∧
      Holds tables directory? (t.message files key language?).2.1 := by
  have hholding := holds_iff_holding.mp h
  refine ⟨?_, holds_iff_holding.mpr (hholding.next hread key language?)⟩
  cases language? with
  | none => rfl
  | some language =>
    obtain ⟨_, rfl, htext⟩ := hholding.message hread key language
    exact htext

end Catalog

namespace Produce

variable {tables tables' : String → MessageTable} {directory? directory?' : Option Path}

/-- Two states of answering, each with a catalog of its own tables. -/
def Level (tables tables' : String → MessageTable) (directory? directory?' : Option Path)
    (t t' : Answering) : Prop :=
  t.catalog.Holds tables directory? ∧ t'.catalog.Holds tables' directory?'

theorem answering_content (s : Scene) (catalog : Catalog) (w : Workspace) :
    (content s catalog w).2.1 = (s.expand { catalog }).2 := by
  unfold content
  cases s.expand { catalog } with
  | mk result t => cases result <;> rfl

namespace Scene

variable {s s' : Scene} {o o' : Occurrence} {t t' : Answering}

def reached? (s : Scene) (o : Occurrence) : Option (Path × Bool) :=
  o.dependency?.bind fun i =>
    (s.assets.get i).target.map fun target => (target, (s.assets.get i).isPartial)

theorem withTarget_of_none (h : s.reached? o = none) (t : Answering)
    (answer : Asset → Path → String × Answering) :
    (s.withTarget o t answer).1 = "" ∧ (s.withTarget o t answer).2.catalog = t.catalog := by
  unfold reached? at h
  unfold withTarget
  cases hd : o.dependency? with
  | none => exact ⟨rfl, rfl⟩
  | some i =>
    rw [hd, Option.bind_some, Option.map_eq_none_iff] at h
    dsimp only
    rw [h]
    exact ⟨rfl, rfl⟩

theorem withTarget_of_some {target : Path} {isPartial : Bool} (h : s.reached? o = some (target, isPartial)) :
    ∃ d : Asset, d.isPartial = isPartial ∧
      ∀ (t : Answering) (answer : Asset → Path → String × Answering),
        s.withTarget o t answer = answer d target := by
  obtain ⟨i, hi, hr⟩ := Option.bind_eq_some_iff.mp h
  obtain ⟨target', htarget, he⟩ := Option.map_eq_some_iff.mp hr
  obtain ⟨rfl, hpartial⟩ := Prod.mk.inj he
  refine ⟨s.assets.get i, hpartial, fun t answer => ?_⟩
  unfold withTarget
  rw [hi]
  dsimp only
  rw [htarget]

/-- Two occurrences of one directive that reach the same target, with the same text if the directive
takes it in. -/
structure Meets (s s' : Scene) (o o' : Occurrence) : Prop where
  span : o'.span = o.span
  directive : o'.directive = o.directive
  reached : s'.reached? o' = s.reached? o
  text : o.directive.isEmbed = true → ∀ r ∈ s.reached? o, s'.files.readText r.1 = s.files.readText r.1

structure Alike (s s' : Scene) : Prop where
  config : s'.context.config.lasting = s.context.config.lasting
  settings : s'.context.settings = s.context.settings
  identity : s'.asset.identity = s.asset.identity
  content : s'.asset.content = s.asset.content
  read : s'.files.read s'.asset.source = s.files.read s.asset.source
  occurrences : List.Forall₂ (Meets s s') s.asset.occurrences s'.asset.occurrences

/-- What answers take from the context of a scene and from the place of its asset. -/
structure Kin (s s' : Scene) : Prop where
  delivery : s'.context.config.delivery = s.context.config.delivery
  resources : s'.context.config.resources = s.context.config.resources
  settings : s'.context.settings = s.context.settings
  directory : s'.asset.targetDir s'.context.config = s.asset.targetDir s.context.config

/-- Two scenes in which an asset comes to the same, as far as its messages do. -/
structure Akin (s s' : Scene) : Prop extends Kin s s' where
  steps : steps s'.context.config s'.asset = steps s.context.config s.asset
  content : s'.asset.content = s.asset.content
  read : s'.files.read s'.asset.source = s.files.read s.asset.source
  occurrences : List.Forall₂ (Meets s s') s.asset.occurrences s'.asset.occurrences

/-- Answers from targets that are the same are the same. -/
theorem Meets.withTarget (h : Meets s s' o o') (t t' : Answering)
    {answer answer' : Asset → Path → String × Answering}
    (ha : ∀ d d' target, s.reached? o = some (target, d.isPartial) → d'.isPartial = d.isPartial →
      (answer' d' target).1 = (answer d target).1) :
    (s'.withTarget o' t' answer').1 = (s.withTarget o t answer).1 := by
  cases hr : s.reached? o with
  | none =>
    rw [(withTarget_of_none hr t answer).1, (withTarget_of_none (h.reached.trans hr) t' answer').1]
  | some r =>
    obtain ⟨target, isPartial⟩ := r
    obtain ⟨d, rfl, hd⟩ := withTarget_of_some hr
    obtain ⟨d', hpartial, hd'⟩ := withTarget_of_some (h.reached.trans hr)
    rw [hd, hd']
    exact ha d d' target hr hpartial

theorem catalog_withTarget {answer : Asset → Path → String × Answering}
    (h : ∀ d target, (answer d target).2.catalog = t.catalog) :
    (s.withTarget o t answer).2.catalog = t.catalog := by
  unfold Scene.withTarget
  cases o.dependency? with
  | none => rfl
  | some i =>
    dsimp only
    cases (s.assets.get i).target with
    | none => rfl
    | some target => exact h _ target

/-- In kindred scenes answers are the same where messages are. -/
theorem Meets.answer_eq (h : Meets s s' o o') (hs : Kin s s')
    (hm : ∀ key, o.directive = .localize key → (s'.message key t').1 = (s.message key t).1) :
    (s'.answer o' t').1 = (s.answer o t).1 := by
  have haddress : (s'.address o' t').1 = (s.address o t).1 := by
    refine h.withTarget t t' fun d d' target _ hpartial => ?_
    rw [hpartial, hs.delivery]
    split
    · rfl
    · cases publicUrl? s.context.config.delivery target <;> rfl
  have htext := h.text
  unfold Scene.answer
  rw [h.directive]
  cases hd : o.directive with
  | embed path escaped =>
    refine h.withTarget t t' fun d d' target hreached _ => ?_
    have hsame := htext (by rw [hd]; rfl) _ hreached
    dsimp only at hsame ⊢
    rw [hsame]
    cases s.files.readText target <;> rfl
  | stylesheetUrl path | scriptUrl path | imageUrl path => exact haddress
  | imagePath path =>
    refine h.withTarget t t' fun d d' target _ _ => ?_
    dsimp only
    rw [hs.directory]
  | resourceUrl key =>
    dsimp only
    unfold Scene.resource
    rw [hs.resources]
    cases Fields.get? s.context.config.resources key <;> rfl
  | setting key filter =>
    dsimp only
    unfold Scene.setting
    rw [hs.settings]
  | localize key => exact hm key hd
  | declare name value | display name | openBlock guard | elseBranch | closeBlock => rfl

/-- Only messages have tables read. -/
theorem catalog_answer (s : Scene) (o : Occurrence) (t : Answering) :
    (s.answer o t).2.catalog = t.catalog ∨
      ∃ key, o.directive = .localize key ∧ (s.answer o t).2.catalog = (s.message key t).2.catalog := by
  have haddress : (s.address o t).2.catalog = t.catalog := by
    refine catalog_withTarget fun d target => ?_
    split
    · rfl
    · cases publicUrl? s.context.config.delivery target <;> rfl
  unfold Scene.answer
  cases hd : o.directive with
  | embed path escaped =>
    refine .inl (catalog_withTarget fun d target => ?_)
    cases s.files.readText target <;> rfl
  | stylesheetUrl path | scriptUrl path | imageUrl path => exact .inl haddress
  | imagePath path => exact .inl (catalog_withTarget fun _ _ => rfl)
  | resourceUrl key =>
    dsimp only
    unfold Scene.resource
    cases Fields.get? s.context.config.resources key <;> exact .inl rfl
  | localize key => exact .inr ⟨key, rfl, rfl⟩
  | setting key filter | declare name value | display name | openBlock guard | elseBranch | closeBlock =>
    exact .inl rfl

theorem message_of_holds (key : String)
    (hread : ∀ language, (Catalog.readTable s.files directory? language).1 = tables language)
    (h : t.catalog.Holds tables directory?) :
    (s.message key t).1 = Catalog.textIn tables key s.asset.language ∧
      (s.message key t).2.catalog.Holds tables directory? :=
  h.message hread key s.asset.language

theorem holding_answer {mayRead : String → MessageTable → Prop} (o : Occurrence)
    (hread : ∀ language, mayRead language (Catalog.readTable s.files directory? language).1)
    (h : t.catalog.Holding mayRead directory?) : (s.answer o t).2.catalog.Holding mayRead directory? := by
  rcases s.catalog_answer o t with he | ⟨key, _, he⟩ <;> rw [he]
  · exact h
  · exact h.next hread key s.asset.language

theorem holds_answer (o : Occurrence)
    (hread : ∀ language, (Catalog.readTable s.files directory? language).1 = tables language)
    (h : t.catalog.Holds tables directory?) : (s.answer o t).2.catalog.Holds tables directory? :=
  Catalog.holds_iff_holding.mpr (holding_answer o hread (Catalog.holds_iff_holding.mp h))

/-- In kindred scenes a text comes to the same where messages do. -/
theorem Kin.render {R : Answering → Answering → Prop} {os os' : List Occurrence} (h : Kin s s')
    (hos : List.Forall₂ (Meets s s') os os')
    (hmessage : ∀ key u u', R u u' → (s'.message key u').1 = (s.message key u).1)
    (hnext : ∀ o o' u u', R u u' → R (s.answer o u).2 (s'.answer o' u').2)
    (hwarn : ∀ text u u', R u u' → R (u.warn text) (u'.warn text)) (ht : R t t') (text : String) :
    (AssetCompiler.render s'.lookup text os' t').1 = (AssetCompiler.render s.lookup text os t).1 ∧
      R (AssetCompiler.render s.lookup text os t).2 (AssetCompiler.render s'.lookup text os' t').2 := by
  have hagree : List.Forall₂ (s.lookup.Agree s'.lookup R) os os' :=
    hos.imp fun o o' ho => ⟨ho.span, ho.directive, fun u u' hu =>
      ⟨ho.answer_eq h fun key _ => hmessage key u u' hu, hnext o o' u u' hu⟩⟩
  exact Lookup.Agree.render hagree hwarn ht text

/-- In scenes that are akin, an asset's text comes to the same where the texts for its keys are the
same. -/
theorem Akin.expand (h : Akin s s')
    (hread : ∀ language, (Catalog.readTable s.files directory? language).1 = tables language)
    (hread' : ∀ language, (Catalog.readTable s'.files directory?' language).1 = tables' language)
    (htexts : ∀ key, Catalog.textIn tables' key s'.asset.language =
      Catalog.textIn tables key s.asset.language)
    (ht : Level tables tables' directory? directory?' t t') :
    (s'.expand t').1 = (s.expand t).1 ∧
      Level tables tables' directory? directory?' (s.expand t).2 (s'.expand t').2 := by
  unfold Scene.expand
  rw [h.content]
  cases s.asset.content with
  | none => exact ⟨h.read, ht⟩
  | some text =>
    have hrender := h.toKin.render (R := Level tables tables' directory? directory?') h.occurrences
      (fun key u u' hu => by
        rw [(message_of_holds key hread hu.1).1, (message_of_holds key hread' hu.2).1, htexts])
      (fun o o' u u' hu => ⟨holds_answer o hread hu.1, holds_answer o' hread' hu.2⟩)
      (fun _ _ _ hu => hu) ht text
    exact ⟨congrArg (fun out : String => Except.ok out.toUTF8) hrender.1, hrender.2⟩

theorem targetDir_lasting (a : Asset) (c : Config) : a.targetDir c.lasting = a.targetDir c := by
  unfold Asset.targetDir Asset.targetRoot Asset.relativeSource
  cases a.kind <;> rfl

theorem targetDir_congr {a b : Asset} {c c' : Config} (h : b.identity = a.identity)
    (hc : c'.lasting = c.lasting) : b.targetDir c' = a.targetDir c := by
  obtain ⟨hkind, hsource, _⟩ := Asset.identity_eq_iff.mp h
  rw [← targetDir_lasting b, ← targetDir_lasting a, hc]
  unfold Asset.targetDir Asset.targetRoot Asset.relativeSource Asset.isPartial
  rw [hkind, hsource]

theorem steps_congr {a b : Asset} {c c' : Config} (h : b.identity = a.identity)
    (hminify : c'.minify = c.minify) : Produce.steps c' b = Produce.steps c a := by
  obtain ⟨hkind, hsource, _⟩ := Asset.identity_eq_iff.mp h
  unfold Produce.steps Asset.needsTranspile Asset.isPartial
  rw [hkind, hsource, hminify]

theorem Alike.akin (h : Alike s s') : Akin s s' where
  delivery := (congrArg Config.delivery h.config :)
  resources := (congrArg Config.resources h.config :)
  settings := h.settings
  directory := targetDir_congr h.identity h.config
  steps := steps_congr h.identity (congrArg Config.minify h.config :)
  content := h.content
  read := h.read
  occurrences := h.occurrences

/-- In scenes that look alike to an asset, its text comes to the same. -/
theorem Alike.expand (h : Alike s s')
    (hread : ∀ language, (Catalog.readTable s.files directory? language).1 = tables language)
    (hread' : ∀ language, (Catalog.readTable s'.files directory? language).1 = tables language)
    (ht : Level tables tables directory? directory? t t') :
    (s'.expand t').1 = (s.expand t).1 ∧
      Level tables tables directory? directory? (s.expand t).2 (s'.expand t').2 :=
  h.akin.expand hread hread' (fun _ => by rw [(Asset.identity_eq_iff.mp h.identity).2.2]) ht

theorem holding_expand {mayRead : String → MessageTable → Prop}
    (hread : ∀ language, mayRead language (Catalog.readTable s.files directory? language).1)
    (h : t.catalog.Holding mayRead directory?) : (s.expand t).2.catalog.Holding mayRead directory? := by
  have hagree : List.Forall₂ (s.lookup.Agree s.lookup fun u u' : Answering =>
      u' = u ∧ u.catalog.Holding mayRead directory?) s.asset.occurrences s.asset.occurrences := by
    refine List.forall₂_same.mpr fun o _ => ⟨rfl, rfl, ?_⟩
    rintro u _ ⟨rfl, hu⟩
    exact ⟨rfl, rfl, holding_answer o hread hu⟩
  unfold Scene.expand
  cases s.asset.content with
  | none => exact h
  | some text =>
    refine (Lookup.Agree.render hagree ?_ ⟨rfl, h⟩ text).2.2
    rintro message u _ ⟨rfl, hu⟩
    exact ⟨rfl, hu⟩

theorem holding_content {mayRead : String → MessageTable → Prop} (catalog : Catalog) (w : Workspace)
    (hread : ∀ language, mayRead language (Catalog.readTable s.files directory? language).1)
    (h : catalog.Holding mayRead directory?) :
    (content s catalog w).2.1.catalog.Holding mayRead directory? := by
  have ht : ({ catalog } : Answering).catalog.Holding mayRead directory? := h
  rw [answering_content]
  exact holding_expand hread ht

theorem holds_content (catalog : Catalog) (w : Workspace)
    (hread : ∀ language, (Catalog.readTable s.files directory? language).1 = tables language)
    (h : catalog.Holds tables directory?) :
    (content s catalog w).2.1.catalog.Holds tables directory? :=
  Catalog.holds_iff_holding.mpr (holding_content catalog w hread (Catalog.holds_iff_holding.mp h))

/-- What an asset's content is when no step on the way to it fails. -/
def output (out : Step → ByteArray → ByteArray) (s : Scene) (t : Answering) : Except Fault ByteArray :=
  (s.expand t).1.map fun bytes =>
    (steps s.context.config s.asset).foldl (fun bytes step => out step bytes) bytes

theorem Akin.output (h : Akin s s')
    (hread : ∀ language, (Catalog.readTable s.files directory? language).1 = tables language)
    (hread' : ∀ language, (Catalog.readTable s'.files directory?' language).1 = tables' language)
    (htexts : ∀ key, Catalog.textIn tables' key s'.asset.language =
      Catalog.textIn tables key s.asset.language)
    (ht : Level tables tables' directory? directory?' t t') (out : Step → ByteArray → ByteArray) :
    s'.output out t' = s.output out t := by
  unfold Scene.output
  rw [(h.expand hread hread' htexts ht).1, h.steps]

theorem Alike.output (h : Alike s s')
    (hread : ∀ language, (Catalog.readTable s.files directory? language).1 = tables language)
    (hread' : ∀ language, (Catalog.readTable s'.files directory? language).1 = tables language)
    (ht : Level tables tables directory? directory? t t') (out : Step → ByteArray → ByteArray) :
    s'.output out t' = s.output out t :=
  h.akin.output hread hread' (fun _ => by rw [(Asset.identity_eq_iff.mp h.identity).2.2]) ht out

end Scene

variable {p : Processor} {out : Step → ByteArray → ByteArray}

theorem runSteps_follows (h : p.Follows out) (w : Workspace) (input bytes : ByteArray)
    (steps : List Step) (hok : (runSteps p w input steps).1 = .ok bytes) :
    bytes = steps.foldl (fun bytes step => out step bytes) input := by
  induction steps generalizing w input with
  | nil => exact (Except.ok.inj hok).symm
  | cons step rest ih =>
    unfold runSteps at hok
    have hout := h w.calls step input w.toDisk
    cases hp : p w.calls step input w.toDisk with
    | mk result disk =>
      rw [hp] at hok hout
      cases result with
      | error e => cases hok
      | ok output =>
        rw [List.foldl_cons, ← hout output rfl]
        exact ih _ _ hok

theorem runSteps_ofFunction (w : Workspace) (input : ByteArray) (steps : List Step) :
    (runSteps (.ofFunction fun _ step input => .ok (out step input)) w input steps).1 =
      .ok (steps.foldl (fun bytes step => out step bytes) input) := by
  induction steps generalizing w input with
  | nil => rfl
  | cons step rest ih => exact ih ..

/-- A content that is produced is what it is when no step fails. -/
theorem output_of_content {s : Scene} {catalog : Catalog} {w : Workspace} {bytes : ByteArray}
    (h : s.context.processor.Follows out) (hok : (content s catalog w).1 = .ok bytes) :
    s.output out { catalog } = .ok bytes := by
  unfold content at hok
  unfold Scene.output
  cases he : s.expand { catalog } with
  | mk result t =>
    rw [he] at hok
    cases result with
    | error fault => cases hok
    | ok expanded =>
      dsimp only at hok ⊢
      cases hr : (runSteps s.context.processor w expanded (steps s.context.config s.asset)).1 with
      | error e =>
        rw [hr] at hok
        cases hok
      | ok bytes' =>
        rw [hr] at hok
        rw [← Except.ok.inj hok, runSteps_follows h w expanded bytes' _ hr]
        rfl

theorem content_of_output {s : Scene} {catalog : Catalog} {bytes : ByteArray} (w : Workspace)
    (hp : s.context.processor = .ofFunction fun _ step input => .ok (out step input))
    (hok : s.output out { catalog } = .ok bytes) : (content s catalog w).1 = .ok bytes := by
  unfold Scene.output at hok
  unfold content
  cases he : s.expand { catalog } with
  | mk result t =>
    rw [he] at hok
    cases result with
    | error fault => cases hok
    | ok expanded =>
      dsimp only
      rw [hp, runSteps_ofFunction]
      exact congrArg Except.ok (Except.ok.inj hok)

end Produce

end AssetCompiler
