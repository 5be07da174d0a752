import AssetCompiler.Proofs.Build.Covered
import AssetCompiler.Proofs.Walk

/-! # Rows and outputs account for each other

Every row is of an asset that is planned whenever its source is there, since the walk that has found
the source finds it again. So after a build in which no asset failed there is one row for each
planned asset, and its target is there; and after any build every file at an output is the target
of a row.
-/
namespace AssetCompiler

open Cache (Kept Exclusive savedRows)
open Collection (variants)
open Discovery (Listed)

section knows

variable {c c' : Config} {files : Tree} {p : Plan} {a : Asset} {r : Row}

/-- Whether a row is of a source that the walk comes to, in a language of its section. -/
def Config.Knows (c : Config) (r : Row) : Prop :=
  ∃ kind names, Listed c kind names r.source ∧ r.language ∈ variants (c.sectionOf kind)

theorem Discovery.Listed.of_roots {kind : Kind} {names : List String} {q : Path}
    (hr : c.roots = c'.roots) (h : Listed c kind names q) : Listed c' kind names q := by
  have hsection := Config.sectionOf_eq_of_roots hr kind
  refine ⟨hsection ▸ h.root_ne, h.ne_nil, h.isNames, ?_⟩
  rw [← hsection, ← Config.cache_eq_of_roots hr]
  exact h.source

theorem Config.Knows.of_roots (hr : c.roots = c'.roots) (h : c.Knows r) : c'.Knows r := by
  obtain ⟨kind, names, hlisted, hlanguage⟩ := h
  exact ⟨kind, names, hlisted.of_roots hr, Config.sectionOf_eq_of_roots hr kind ▸ hlanguage⟩

namespace Plan.Made

theorem knows (h : Made c files p) (hw : files.WellFormed) (ha : a ∈ p.assets) (hr : r.Of c a) :
    c.Knows r := by
  have hid : a.identity ∈ p.assets.map Asset.identity := List.mem_map_of_mem ha
  rw [h.identities] at hid
  obtain ⟨b, hb, he⟩ := List.mem_map.mp hid
  obtain ⟨_, hsource, hlanguage⟩ := Asset.identity_eq_iff.mp he
  obtain ⟨q, hq, k, l, hk, hl, rfl⟩ := Collection.exists_of_mem_ofFiles hb
  obtain ⟨kind, names, _, hlisted, _⟩ := Discovery.exists_listed_of_mem_sources hw hq
  obtain rfl : kind = k := Option.some.inj (hlisted.ofPath?.symm.trans hk)
  rw [Config.Knows, hr.source, hr.language, ← hsource, ← hlanguage]
  exact ⟨kind, names, hlisted, hl⟩

/-- A row whose source is there is of a planned asset. -/
theorem exists_of_knows (h : Made c files p) (hw : files.WellFormed) (hr : c.Knows r)
    (hf : files.isFile r.source = true) :
    ∃ a ∈ p.assets, r.hasKey a.source a.language = true := by
  obtain ⟨kind, names, hlisted, hlanguage⟩ := hr
  obtain ⟨b, hb, hidentity⟩ := Collection.exists_mem_ofFiles
    (Discovery.mem_sources_of_listed hw hlisted hf) hlisted.ofPath? hlanguage
  have hid : b.identity ∈ p.assets.map Asset.identity := by
    rw [h.identities]
    exact List.mem_map_of_mem hb
  obtain ⟨a, ha, he⟩ := List.mem_map.mp hid
  obtain ⟨_, hsource, hlang⟩ := Asset.identity_eq_iff.mp he
  obtain ⟨hbeq, hl⟩ := Asset.hasIdentity_iff.mp hidentity
  rw [← hsource] at hbeq
  exact ⟨a, ha, Row.hasKey_iff.mpr ⟨Path.beq_symm hbeq, hl.symm.trans hlang.symm⟩⟩

end Plan.Made

end knows

namespace Build

open Session

variable {c : Config} {x : Context} {w w' w1 : Workspace} {cache : Cache} {o : Outset}
  {report : BuildReport}

section run

variable (h : Fit x w) (ho : Cache.Opened x.config.cache w cache w1) (hs : SetsOut x cache w1 o)
  (hknows : ∀ r ∈ savedRows w.files x.config.cache, x.config.Knows r)
include h ho hs hknows

theorem exists_of_mem_rows_outset : ∀ r ∈ o.session.cache.rows,
    ∃ a ∈ o.session.assets, r.hasKey a.source a.language = true := by
  intro r hr
  have hmem := hr
  rw [hs.rows, ho.rows] at hmem
  exact hs.made.exists_of_knows ((h.able.keeps_outset ho hs).wellFormed h.wellFormed)
    (hknows r (List.mem_of_mem_filter hmem)) (isFile_sources_outset h ho hs r hr)

/-- All through a run there are rows of planned assets only. -/
theorem exists_of_mem_rows_run : ∀ r ∈ (compileAll x o.session o.order).2.cache.rows,
    ∃ a ∈ o.session.assets, r.Of x.config a := by
  have hready := ready_of_setsOut h ho hs
  obtain ⟨hpres, hrows⟩ := (compileAll_invariant (P := fun t => Preserves x o.session t ∧
    ∀ r ∈ t.cache.rows, ∃ a ∈ o.session.assets, r.hasKey a.source a.language = true)
    ⟨.start hready, exists_of_mem_rows_outset h ho hs hknows⟩ (by
      rintro ⟨t, i⟩ hv ⟨hp, hrows⟩
      have hi := hready.lt i (mem_order_of_mem_visits hv)
      have hc := compiles_compileOne hready.processor t i
      refine ⟨preserves_step hready hi hp hc, fun r hr => ?_⟩
      rcases hc.cache with hcache | ⟨target, bytes, hw⟩
      · exact hrows r (hcache ▸ hr)
      · obtain ⟨f, _, hcache⟩ := hw.record
        rw [hcache] at hr
        rcases Cache.mem_put hr with rfl | hr
        · obtain ⟨_, hsource, hlanguage⟩ := Asset.identity_eq_iff.mp (hp.identity_eq i)
          refine ⟨_, Collection.mem_get hi, ?_⟩
          rw [← hsource, ← hlanguage]
          exact Row.hasKey_self _
        · exact hrows r hr)).2
  intro r hr
  obtain ⟨a, ha, hkey⟩ := hrows r hr
  obtain ⟨i, hi, rfl⟩ := Collection.exists_get_of_mem ha
  obtain ⟨b, hb⟩ := (hpres.kept.formed r hr).of
  exact ⟨_, ha, hb.of_hasKey (hready.placed i hi) hkey⟩

end run

theorem knows_build (h : Fit x w) (hknows : ∀ r ∈ savedRows w.files x.config.cache, x.config.Knows r) :
    ∀ r ∈ savedRows (build x w).2.files x.config.cache, x.config.Knows r := by
  rcases h.able.savedRows_build with hrows | ⟨o, ho, hrows⟩
  · rw [hrows]
    exact hknows
  · obtain ⟨cache, w1, hopened, hsets, _⟩ := build_of_outset ho
    rw [hrows]
    intro r hr
    obtain ⟨a, ha, hof⟩ := exists_of_mem_rows_run h hopened hsets hknows r hr
    exact hsets.made.knows ((h.able.keeps_outset hopened hsets).wellFormed h.wellFormed) ha hof

/-- Rows that are those of the planned assets, one each, with their targets there. -/
structure Accounts (t : Tree) (as : Collection) (rows : List Row) : Prop where
  perm : (rows.map fun r => (r.source, r.language)).Perm (as.map fun a => (a.source, a.language))
  nodup : (rows.map fun r => (r.source, r.language)).Nodup
  targets : ∀ r ∈ rows, t.isFile r.target = true

theorem nodup_keys {rows : List Row} (h : Cache.Keyed rows) :
    (rows.map fun r => (r.source, r.language)).Nodup := by
  refine List.pairwise_map.mpr (h.imp ?_)
  intro r q hkey he
  obtain ⟨hsource, hlanguage⟩ := Prod.mk.inj he
  rw [Row.hasKey_iff.mpr ⟨hsource ▸ Path.beq_refl _, hlanguage⟩] at hkey
  cases hkey

theorem nodup_identities {as : Collection} (h : as.Distinct) :
    (as.map fun a => (a.source, a.language)).Nodup := by
  refine List.pairwise_map.mpr (h.imp ?_)
  intro a b hid he
  obtain ⟨hsource, hlanguage⟩ := Prod.mk.inj he
  rw [Asset.hasIdentity_iff.mpr ⟨hsource ▸ Path.beq_refl _, hlanguage⟩] at hid
  cases hid

/-- A build in which no asset failed leaves the rows of the planned assets. -/
theorem accounts_of_build (h : Fit x w)
    (hexcl : ∀ o, outset? x w = some o → ∀ v ∈ visits x o.session o.order,
      Exclusive x.config v.1.cache.rows)
    (hknows : ∀ r ∈ savedRows w.files x.config.cache, x.config.Knows r)
    (hb : build x w = (.ok report, w')) (hok : report.hasFailures = false) :
    ∃ o, outset? x w = some o ∧
      Accounts w'.files o.session.assets (savedRows w'.files x.config.cache) := by
  obtain ⟨o, hout, hcomplete⟩ := complete_of_build h hexcl hb hok
  obtain ⟨_, _, _, s, hopened, hsets, hout', hsucceeds⟩ := succeeds_of_build h hb
  obtain rfl := Option.some.inj (hout'.symm.trans hout)
  have hkept := h.able.kept_build
  have hplanned := exists_of_mem_rows_run h hopened hsets hknows
  rw [hb] at hkept
  rw [hsucceeds.run, ← hsucceeds.rows] at hplanned
  have hsettled {i : Nat} (hi : i < _) := hcomplete.settled (hsets.made.mem_order.mpr hi)
  have hnodup := nodup_keys hkept.keyed
  refine ⟨_, hout, (List.perm_ext_iff_of_nodup hnodup (nodup_identities hsets.made.distinct)).mpr ?_,
    hnodup, fun r hr => ?_⟩
  · rintro ⟨source, language⟩
    simp only [List.mem_map, Prod.mk.injEq]
    constructor
    · rintro ⟨r, hr, rfl, rfl⟩
      obtain ⟨a, ha, hof⟩ := hplanned r hr
      exact ⟨a, ha, hof.source.symm, hof.language.symm⟩
    · rintro ⟨a, ha, rfl, rfl⟩
      obtain ⟨i, hi, rfl⟩ := Collection.exists_get_of_mem ha
      obtain ⟨r, hr⟩ := hsettled hi
      have hfound := (hr (.onDisk w'.files x.config.cache) rfl).found
      obtain ⟨hmem, hkey⟩ := Cache.find?_eq_some hfound
      obtain ⟨b, hb⟩ := (hkept.formed r hmem).of
      have hof := hb.of_hasKey ((ready_of_setsOut h hopened hsets).placed i hi) hkey
      exact ⟨r, hmem, hof.source, hof.language⟩
  · obtain ⟨a, ha, hof⟩ := hplanned r hr
    obtain ⟨i, hi, rfl⟩ := Collection.exists_get_of_mem ha
    obtain ⟨q, hq⟩ := hsettled hi
    have hsettled := hq (.onDisk w'.files x.config.cache) rfl
    have hfound : (Cache.onDisk w'.files x.config.cache).find? _ _ = some r :=
      Cache.find?_of_mem hkept.keyed hr hof.hasKey
    obtain rfl := Option.some.inj (hfound.symm.trans hsettled.found)
    exact hsettled.target

/-- A site in which nothing has been built. -/
structure Unbuilt (c : Config) (w : Workspace) : Prop where
  wellFormed : w.files.WellFormed
  separate : Separate w.files.home c
  rows : savedRows w.files c.cache = []
  outputs : ∀ l, OutputAt w.files.home c l → w.files.fileAt? l = none

/-- An edit of sources that leaves the ways to targets as they are. -/
structure Revises (c : Config) (w w' : Workspace) : Prop extends EditsSources c w w' where
  ways : ∀ p, c.HasTarget p → ∀ l, w.files.locate p = .ok l → w'.files.locate p = .ok l

theorem Revises.of_grows (he : EditsSources c w w') (hg : w.files.Grows w'.files) : Revises c w w' :=
  ⟨he, fun _ _ _ => hg.locate⟩

/-- Deleting a source is a revision. -/
theorem revises_erase {l : Location} {f : File} (hw : w.files.WellFormed)
    (hf : w.files.fileAt? l = some f) (hl : InSources w.files.home c l) :
    Revises c w { w with files := w.files.erase l } := by
  have hndir : ¬w.files.IsDir l := by
    intro hd
    rw [Tree.fileAt?_eq_none_of_isDir hd] at hf
    cases hf
  refine .of_grows ⟨rfl, hw.erase hndir, fun m hm => Tree.fileAt?_erase_of_ne ?_⟩
    ⟨rfl, fun m hm => (Tree.isDir_erase hndir m).mpr hm⟩
  rintro rfl
  exact hm hl

/-- What is asked of a build: it is one of the site, no fingerprint repeats, and no file operation
fails. -/
structure Sparing (c : Config) (x : Context) (w : Workspace) : Prop where
  suits : Suits c x
  fresh : Fresh x w
  operations : ∀ fault, (build x w).1 ≠ .error (.file fault) ∧
    (build x w).1 ≠ .error (.cache (.file fault))

/-- What is known of every state of a site. -/
structure Accounted (c : Config) (w : Workspace) : Prop where
  standing : Standing c w
  separate : Separate w.files.home c
  exclusive : Exclusive c (savedRows w.files c.cache)
  covered : Covered c w.files (savedRows w.files c.cache)
  knows : ∀ r ∈ savedRows w.files c.cache, c.Knows r

namespace Accounted

theorem of_unbuilt (h : Unbuilt c w) : Accounted c w := by
  refine ⟨⟨h.wellFormed, h.separate.toLayout, h.rows ▸ .nil _⟩, h.separate, ?_, fun l f hout hf => ?_, ?_⟩
  · rw [h.rows]
    exact fun r hr => (by cases hr)
  · rw [h.outputs l hout] at hf
    cases hf
  · rw [h.rows]
    exact fun r hr => (by cases hr)

theorem revises (h : Accounted c w) (he : Revises c w w') : Accounted c w' := by
  have hrows := he.savedRows_eq h.standing.layout
  refine ⟨h.standing.disturbs (he.disturbs h.standing), he.home ▸ h.separate, hrows ▸ h.exclusive, ?_,
    hrows ▸ h.knows⟩
  rw [hrows]
  refine h.covered.of_lost he.home (fun r hr => ?_) fun l hout =>
    Or.inr (he.files l (hout.not_inSources h.standing.layout))
  obtain ⟨a, ha⟩ := (h.standing.kept.formed r hr).of
  exact he.ways r.target ha.hasTarget

theorem of_roots {c' : Config} (hr : c.roots = c'.roots) (h : Accounted c w) : Accounted c' w := by
  refine ⟨h.standing.of_roots hr, h.separate.of_roots hr, ?_, ?_, ?_⟩ <;>
    rw [← Config.cache_eq_of_roots hr]
  · exact h.exclusive.of_roots hr
  · exact h.covered.of_roots hr
  · exact fun r hrow => (h.knows r hrow).of_roots hr

theorem build (h : Accounted c w) (hx : Sparing c x w) : Accounted c (build x w).2 := by
  have hroots := hx.suits.roots
  have hfit := h.standing.fit hx.suits
  have h := h.of_roots hroots
  have hhome := (hfit.able.keeps_build).grows.home
  refine .of_roots hroots.symm ⟨h.standing.build ⟨rfl, hx.suits.processor, hx.suits.flat⟩,
    hhome ▸ h.separate, exclusive_build hfit hx.fresh h.exclusive,
    covered_build hfit h.separate hx.operations h.covered, knows_build hfit h.knows⟩

end Accounted

theorem Leads.accounted (h : Leads (Unbuilt c) (Revises c) (Sparing c) w) : Accounted c w := by
  induction h with
  | start w unbuilt => exact .of_unbuilt unbuilt
  | edit w w' _ edited ih => exact ih.revises edited
  | build x w _ run ih => exact ih.build run

theorem separate_default : Separate [] {} where
  toLayout := Sample.layout
  outputs k := by cases k <;> decide +kernel

/-- A site with nothing below the usual directories of outputs. -/
theorem outputs_none {t : Tree} (htargets : ∀ k, ["public"] <+: (c.sectionOf k).target.resolve t.home)
    (hpartials : ["build"] <+: c.partialsDir.resolve t.home)
    (hkeys : ∀ m ∈ t.keys, ¬["public"] <+: m ∧ ¬["build"] <+: m) :
    ∀ l, OutputAt t.home c l → t.fileAt? l = none := by
  intro l hout
  refine Option.eq_none_iff_forall_ne_some.mpr fun f hf => ?_
  obtain ⟨hpublic, hbuild⟩ := hkeys l (Tree.mem_of_get?_file (Tree.fileAt?_eq_some_iff.mp hf))
  rcases hout with ⟨k, hk⟩ | hk
  · exact hpublic ((htargets k).trans hk)
  · exact hbuild (hpartials.trans hk)

theorem unbuilt_page : Unbuilt {} Sample.page := by
  refine ⟨by decide +kernel, separate_default, by decide +kernel, outputs_none (fun k => ?_)
    (by decide +kernel) (by decide)⟩
  cases k <;> decide +kernel

theorem fresh_changedStyle : Fresh (Sample.context {}) (changedStyle Sample.page) := by
  obtain ⟨o, ho, hfresh⟩ := changedStyleRun.exists_outset holds_changedStyle
  intro o' ho'
  obtain rfl := Option.some.inj (ho.symm.trans ho')
  exact hfresh

/-- A language that leads the targets of all pages to one of the sources. -/
def crossing : Config := { markup := ⟨⟨"html"⟩, ⟨"public"⟩, ["x/../../html/y"]⟩ }

example : crossing.validate = .ok crossing := by decide +kernel

def twoPages : Workspace := Sample.site [
  (["html"], .directory 0),
  (["html", "page.html"], Sample.source "hi"),
  (["html", "y.html"], Sample.source "ho")]

def withoutPage (w : Workspace) : Workspace :=
  { w with files := w.files.erase ["html", "page.html"] }

/-- A build that draws no fingerprint, and gets to its report, spares the site. -/
theorem Rehearsed.sparing {rows : List Row} {P : Outset → Prop} (r : Rehearsed rows x w P) (hx : Suits c x)
    (h : Cache.Holds w.files x.config.cache rows) (ho : outset? x w = some o)
    (hplain : ∀ i ∈ o.order, (o.session.assets.get i).isFingerprinted = false) :
    Sparing c x w := by
  obtain ⟨report, hb, _⟩ := exists_of_told r.evaluated.1
  refine ⟨hx, fun o' ho' => ?_, fun fault => ?_⟩
  · obtain rfl := Option.some.inj (ho.symm.trans ho')
    exact drawsFresh_of_plain hx.processor hplain
  · rw [r.build_eq h, hb]
    exact ⟨nofun, nofun⟩

set_option maxRecDepth 100000 in
theorem evaluated_twoPages : told (rehearsal [] (Sample.context crossing) twoPages).1 =
      .ok [(.created, ⟨"html/page.html"⟩, some "x/../../html/y",
          some ⟨"public/page-x/../../html/y.html"⟩),
        (.created, ⟨"html/y.html"⟩, some "x/../../html/y", some ⟨"public/y-x/../../html/y.html"⟩)] ∧
    (rehearsedRows? [] (Sample.context crossing) twoPages).isSome = true ∧
    ∃ o ∈ preview? [] (Sample.context crossing) twoPages,
      ∀ i ∈ o.order, (o.session.assets.get i).isFingerprinted = false := by
  decide +kernel

def twoPagesRun : Rehearsed [] (Sample.context crossing) twoPages fun o =>
    ∀ i ∈ o.order, (o.session.assets.get i).isFingerprinted = false :=
  ⟨_, evaluated_twoPages⟩

/-- The site of two pages, built, without the first of them. -/
def onePage : Workspace := withoutPage (rehearsal [] (Sample.context crossing) twoPages).2

def crossingRows : List Row := rehearsedRows [] (Sample.context crossing) twoPages

set_option maxRecDepth 100000 in
theorem evaluated_onePage : told (rehearsal crossingRows (Sample.context crossing) onePage).1 = .ok [] ∧
    (rehearsedRows? crossingRows (Sample.context crossing) onePage).isSome = true ∧
    ∃ o ∈ preview? crossingRows (Sample.context crossing) onePage,
      o.session.assets.length = 0 ∧ o.order = [] := by
  decide +kernel

def onePageRun : Rehearsed crossingRows (Sample.context crossing) onePage fun o =>
    o.session.assets.length = 0 ∧ o.order = [] :=
  ⟨_, evaluated_onePage⟩

set_option maxRecDepth 100000 in
theorem files_twoPages :
    twoPages.files.fileAt? (Cache.manifestAt [] crossing.cache) = none ∧
    (rehearsal [] (Sample.context crossing) twoPages).2.files.home = [] ∧
    (rehearsal [] (Sample.context crossing) twoPages).2.files.WellFormed ∧
    ((rehearsal [] (Sample.context crossing) twoPages).2.files.fileAt? ["html", "page.html"]).isSome =
      true ∧
    (rehearsedRows crossingRows (Sample.context crossing) onePage).length = 1 := by
  decide +kernel

theorem holds_twoPages : Cache.Holds twoPages.files crossing.cache [] :=
  Cache.holds_nil files_twoPages.1

theorem holds_withoutPage {directory : Path} {rows : List Row} (h : Cache.Holds w.files directory rows) :
    Cache.Holds (withoutPage w).files directory rows :=
  h.congr rfl (Tree.fileAt?_erase_of_ne (Cache.manifestAt_ne _ _ (by decide)))

theorem holds_onePage : Cache.Holds onePage.files crossing.cache crossingRows :=
  holds_withoutPage (twoPagesRun.holds (Sample.suits crossing).processor holds_twoPages)

theorem revises_onePage :
    Revises crossing (rehearsal [] (Sample.context crossing) twoPages).2 onePage := by
  obtain ⟨_, hhome, hwellFormed, hpage, _⟩ := files_twoPages
  obtain ⟨f, hf⟩ := Option.isSome_iff_exists.mp hpage
  exact revises_erase (c := crossing) hwellFormed hf ⟨.markup, by rw [hhome]; decide +kernel⟩

end Build

end AssetCompiler
