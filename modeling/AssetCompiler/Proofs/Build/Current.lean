import AssetCompiler.Proofs.Build.Cascade
import AssetCompiler.Proofs.Build.Sound

/-! # Outputs are never stale

After any history of edits and builds, a build in which no asset failed leaves each target with the
content that producing it anew would give, from the source as it is now.
-/
namespace AssetCompiler

open Cache (Exclusive Settled savedRows)
open Collection (parse)
open Plan (unread)

def Context.unfailing (x : Context) (out : Step → ByteArray → ByteArray) : Context :=
  { x with processor := .ofFunction fun _ step input => .ok (out step input) }

namespace Build

open Session

variable {tables : String → MessageTable} {owner : Owner} {out : Step → ByteArray → ByteArray}
  {x₀ x : Context} {s : Session} {i : Nat} {w w' : Workspace} {report : BuildReport}

/-- A reported asset whose target has the content that producing it now gives. -/
structure Current (out : Step → ByteArray → ByteArray) (x : Context) (w : Workspace) (as : Collection)
    (i : Nat) (e : AssetReport) : Prop where
  report : e = assetReport (as.get i) e.outcome none
  read : ∃ log, parse w.files x.config as (unread (as.get i)) = .ok ((as.get i).bare, log)
  content : ∃ target f, e.target = some target ∧ w.files.file target = .ok f ∧
    (Produce.content ⟨x.unfailing out, w.files, as, as.get i⟩ { directory? := x.config.catalog } w).1 =
      .ok f.bytes

theorem Coherent.readable (h : Coherent tables owner x s i) {bytes : ByteArray}
    (hread : s.work.files.read (s.assets.get i).source = .ok bytes)
    (hsettled : ∀ d ∈ (s.assets.get i).dependencies, ∀ r, s.row? d = some r →
      s.work.files.isFile r.target = true) : Readable x s i := by
  intro o ho _ r hr
  rw [h.occurrences_eq hread] at ho
  obtain ⟨p, hp, rfl⟩ := List.mem_map.mp ho
  rw [h.reached?_linked hread hp] at hr
  obtain ⟨d, hm, hrow⟩ := Option.bind_eq_some_iff.mp hr
  obtain ⟨q, hq, rfl⟩ := Option.map_eq_some_iff.mp hrow
  exact hsettled d ((h.mem_dependencies hread).mpr ⟨p, hp, hm⟩) q hq

/-- A settled asset of a sound site is current. -/
theorem content_of_settled (hx : x₀.Continues x) (hinj : Function.Injective x₀.digest)
    (hsound : Sound out tables owner x₀ s.work.files s.cache.rows)
    (hcoherent : Coherent tables owner x s i) (hi : i < s.assets.length) {r : Row}
    (hs : Settled x.digest s.work.files s.cache s.assets (s.assets.get i) r)
    (hdeps : ∀ d ∈ (s.assets.get i).dependencies, ∀ q, s.row? d = some q →
      s.work.files.isFile q.target = true) :
    ∃ f, s.work.files.file r.target = .ok f ∧
      (Produce.content ⟨x.unfailing out, s.work.files, s.assets, s.assets.get i⟩ s.catalog s.work).1 =
        .ok f.bytes := by
  obtain ⟨hmem, hkey⟩ := Cache.find?_eq_some hs.found
  obtain ⟨g, hg, _, hchecksum⟩ := hs.source
  have hread : s.work.files.read (s.assets.get i).source = .ok g.bytes :=
    Tree.read_eq_ok_iff.mpr ⟨g, hg, rfl⟩
  have happlies : Applies tables owner x s i r :=
    ⟨hcoherent, hi, hkey, ⟨_, hread, hchecksum⟩, hs.stamps, hcoherent.readable hread hdeps⟩
  obtain ⟨bytes, hout⟩ :=
    Coherent.exists_output out x hread { catalog := s.catalog }
  obtain ⟨f, hf⟩ := Tree.isFile_iff.mp hs.target
  have hstored := hsound.stored r hmem f (Tree.fileAt?_of_file hf)
  have hbytes : f.bytes = bytes :=
    hinj (hstored.trans (hsound.faithful r hmem x s i bytes hx happlies hout).symm)
  refine ⟨f, hf, ?_⟩
  rw [hbytes]
  exact Produce.content_of_output s.work rfl hout

/-- The session that a run ends in, on the disk as the build leaves it and with no table read. -/
def closing (x : Context) (s : Session) (w' : Workspace) : Session :=
  { s with work := w', catalog := { directory? := x.config.catalog } }

/-- The end of an orderly build in which no asset failed. -/
structure Ends (out : Step → ByteArray → ByteArray) (tables : String → MessageTable) (owner : Owner)
    (x₀ x : Context) (o : Outset) (s : Session) (w' : Workspace) : Prop where
  made : Plan.Made x.config o.session.work.files ⟨o.session.assets, o.order⟩
  wellFormed : o.session.work.files.WellFormed
  bare : s.assets.bare = o.session.assets.bare
  sound : Sound out tables owner x₀ w'.files s.cache.rows
  coherent : ∀ i ∈ o.order, Coherent tables owner x (closing x s w') i
  settled : ∀ i ∈ o.order, ∃ r, (s.assets.get i).target = some r.target ∧ r.Of x.config (s.assets.get i) ∧
    Settled x.digest w'.files s.cache s.assets (s.assets.get i) r

theorem ends_of_orderly
    (hw : Reached x₀.config (EditsSources x₀.config) (Orderly out tables owner x₀) w)
    (hinj : Function.Injective x₀.digest) (horderly : Orderly out tables owner x₀ x w)
    (hb : build x w = (.ok report, w')) (hok : report.hasFailures = false) :
    ∃ o s, outset? x w = some o ∧ compileAll x o.session o.order = (.ok report.assets, s) ∧
      Ends out tables owner x₀ x o s w' ∧
      List.Forall₂ (fun i e => e = assetReport (s.assets.get i) e.outcome none) o.order report.assets := by
  obtain ⟨hstanding, hsound⟩ := hw.sound hinj
  have hfit := hstanding.fit horderly.suits
  rw [Config.cache_eq_of_roots horderly.suits.roots] at hsound
  have hexcl : ∀ o, outset? x w = some o → ∀ v ∈ visits x o.session o.order,
      Exclusive x.config v.1.cache.rows := by
    intro o hout v hv
    exact ((owned_visits hfit horderly.owns hsound.owned hout).1 v hv).exclusive x.config
  obtain ⟨o, hout, hcomplete⟩ := complete_of_build hfit hexcl hb hok
  obtain ⟨_, _, o', s, hopened, hsets, hout', hsucceeds⟩ := succeeds_of_build hfit hb
  obtain rfl : o = o' := Option.some.inj (hout.symm.trans hout')
  have hready := ready_of_setsOut hfit hopened hsets
  have hrunning := (running_run hready (hexcl o hout)).2 _ _ hsucceeds.run
  have hpres := hrunning.preserves
  have hsound' := sound_build hfit horderly hinj hsound
  have hmessages := horderly.messagesAfter
  rw [hb] at hsound' hmessages
  rw [hsucceeds.rows] at hsound'
  have hplanned : Planned x o.session.work.files o.session.assets (closing x s w') := by
    refine (planned_of_preserves hfit hopened hsets hpres).of_keeps rfl hsucceeds.keeps fun l hl => ?_
    rw [hpres.keeps.grows.home, (hfit.able.keeps_outset hopened hsets).grows.home]
    exact ChangedAt.not_inSources hfit.layout (Or.inr hl)
  have htarget {i : Nat} (hi : i ∈ o.order) :
      (s.assets.get i).target = (s.row? i).map Row.target := by
    obtain ⟨_, _, hentry⟩ := hrunning.exists_entry hi
    exact hentry.target
  refine ⟨o, s, hout, hsucceeds.run, ⟨hsets.made,
    hsets.keeps.wellFormed (hopened.keeps.wellFormed hfit.wellFormed), hpres.bare, hsound', ?_, ?_⟩,
    List.forall₂_iff_zip.mpr ⟨hrunning.entries.length_eq, fun {i e} hmem => ?_⟩⟩
  · intro i hi
    refine coherent_of_made hsets.made hplanned (hready.lt i hi) (fun d hd => htarget ?_) hpres.kept
      horderly.continues hsound' hmessages (Catalog.holds_empty _ _)
    have hd' : d ∈ (o.session.assets.get i).dependencies := hpres.dependencies_eq i ▸ hd
    exact hsets.made.mem_order.mpr
      (hsets.made.dependency_lt (Collection.mem_get (hready.lt i hi)) hd')
  · intro i hi
    obtain ⟨r, hr⟩ := hcomplete.settled hi
    have hs := settled_of_bare hpres.bare (hr s.cache hsucceeds.rows.symm)
    refine ⟨r, (htarget hi).trans (congrArg (Option.map Row.target) hs.found), ?_, hs⟩
    exact hpres.kept.of_find? (hpres.placed hready (hready.lt i hi)) hs.found
  · have hentry := (List.forall₂_iff_zip.mp hrunning.entries).2 hmem
    have hfailed := BuildReport.hasFailures_eq_false_iff.mp hok e (List.of_mem_zip hmem).2
    have hreport := hentry.report
    rwa [(hentry.settled hfailed).1] at hreport

theorem Ends.content {o : Outset} (h : Ends out tables owner x₀ x o s w') (hx : x₀.Continues x)
    (hinj : Function.Injective x₀.digest) (hi : i ∈ o.order) :
    ∃ (r : Row) (f : File), (s.assets.get i).target = some r.target ∧ r.Of x.config (s.assets.get i) ∧
      w'.files.file r.target = .ok f ∧
      (Produce.content ⟨x.unfailing out, w'.files, s.assets, s.assets.get i⟩
        { directory? := x.config.catalog } w').1 = .ok f.bytes := by
  obtain ⟨r, hget, hof, hs⟩ := h.settled i hi
  have hlt : i < o.session.assets.length := h.made.mem_order.mp hi
  have hdeps {d : Nat} (hd : d ∈ (s.assets.get i).dependencies) : d ∈ o.order := by
    have hsame := congrArg Asset.dependencies (Collection.bare_get_congr h.bare i)
    change (s.assets.get i).dependencies = (o.session.assets.get i).dependencies at hsame
    rw [hsame] at hd
    exact h.made.mem_order.mpr (h.made.dependency_lt (Collection.mem_get hlt) hd)
  obtain ⟨f, hf, hcontent⟩ := content_of_settled hx hinj h.sound (h.coherent i hi)
    ((Collection.length_congr h.bare).symm ▸ hlt) hs fun d hd q hq => by
      obtain ⟨q', _, _, hs'⟩ := h.settled d (hdeps hd)
      obtain rfl : q' = q := Option.some.inj (hs'.found.symm.trans hq)
      exact hs'.target
  exact ⟨r, f, hget, hof, hf, hcontent⟩

theorem readable_of_isPlain (h : Fit x w) (hplain : isPlain x w = true) {o : Outset}
    (hout : outset? x w = some o) : ∀ v ∈ visits x o.session o.order, Readable x v.1 v.2 := by
  obtain ⟨_, _, hopened, hsets, _⟩ := build_of_outset hout
  have hready := ready_of_setsOut h hopened hsets
  rw [isPlain, hout] at hplain
  intro v hv p hp
  have hpres := (preserves_run hready).1 v hv
  have hmem := Collection.mem_get (hready.lt v.2 (mem_order_of_mem_visits hv))
  have hnone := List.isEmpty_iff.mp (List.all_eq_true.mp hplain _ hmem)
  have hsame := congrArg Asset.occurrences (Collection.bare_get_congr hpres.bare v.2)
  change (v.1.assets.get v.2).occurrences = (o.session.assets.get v.2).occurrences at hsame
  rw [hsame, hnone] at hp
  cases hp

/-- In a site without message tables, a build that succeeds is orderly if its targets are its own and
what it takes in is there. -/
theorem orderly_of_build {c : Config} (hcatalog : c.catalog = none)
    (hb : build (Sample.context c) w = (.ok report, w')) (howns : WritesOwn owner (Sample.context c) w)
    (hincluded : ∀ o ∈ outset? (Sample.context c) w,
      ∀ v ∈ visits (Sample.context c) o.session o.order, Readable (Sample.context c) v.1 v.2) :
    Orderly (fun _ input => input) (fun _ => []) owner (Sample.context c) (Sample.context c) w := by
  have htable (t : Tree) (language : String) :
      (Catalog.readTable t (Sample.context c).config.catalog language).1 = [] := by
    show (Catalog.readTable t c.catalog language).1 = []
    rw [hcatalog]
    rfl
  refine ⟨⟨rfl, rfl, rfl⟩, (Sample.suits c).processor, ?_, (Sample.suits c).flat, howns,
    fun _ _ _ _ => htable _, htable _, fun fault => ?_, fun o hout v hv _ => hincluded o hout v hv⟩
  · exact fun _ _ _ _ _ hok => (Except.ok.inj hok).symm
  · rw [hb]
    exact ⟨fun he => (by cases he), fun he => (by cases he)⟩

theorem orderly_of_pageResult {outcome : Outcome} (h : Fit (Sample.context {}) w)
    (hb : build (Sample.context {}) w = (.ok report, w'))
    (hresults : (report.assets.map fun e => (e.outcome, e.source, e.language, e.target)) =
      pageResult outcome) (hplain : isPlain (Sample.context {}) w = true) :
    Orderly (fun _ input => input) (fun _ => []) (fun _ => (⟨"html/page.html"⟩, none))
      (Sample.context {}) (Sample.context {}) w :=
  orderly_of_build rfl hb (writesOwn_of_pageResult h hb hresults) fun _ => readable_of_isPlain h hplain

/-- A configuration with a language that leads out of the directory of targets. -/
def straying : Config :=
  { markup := ⟨⟨"html"⟩, ⟨"public"⟩, ["x/../../html/page"]⟩ }

/-- A page whose text comes to another directive. -/
def unfoldingPage : Workspace := Sample.site [
  (["html"], .directory 0),
  (["html", "page.html"], Sample.source "[% set x = \"[% end %]\" %][%= x %]")]

/-- What a build leaves at the target of its first asset, and what producing the asset from its source
as it is then gives. -/
def leftAndProduced? (out : Step → ByteArray → ByteArray) (x : Context) (w : Workspace) :
    Option (ByteArray × ByteArray) :=
  match outset? x w, build x w with
  | some o, (.ok report, w') => do
    let as := (compileAll x o.session o.order).2.assets
    let e ← report.assets.head?
    let target ← e.target
    let f ← (w'.files.file target).toOption
    let (a, _) ← (parse w'.files x.config as (unread (as.get 0))).toOption
    let (result, _) := Produce.content ⟨x.unfailing out, w'.files, as, a⟩ { directory? := x.config.catalog } w'
    result.toOption.map fun bytes => (f.bytes, bytes)
  | _, _ => none

def unfoldingOwner : Owner := fun _ => (⟨"html/page.html"⟩, some "x/../../html/page")

set_option maxRecDepth 100000 in
def unfoldingPageRun : Rehearsed [] (Sample.context straying) unfoldingPage fun o =>
    WritesOwned unfoldingOwner (Sample.context straying) o.session o.order ∧
      ∀ v ∈ visits (Sample.context straying) o.session o.order,
        Readable (Sample.context straying) v.1 v.2 where
  results := [(.created, ⟨"html/page.html"⟩, some "x/../../html/page",
    some ⟨"public/page-x/../../html/page.html"⟩)]
  evaluated := by decide +kernel

theorem holds_unfoldingPage : Cache.Holds unfoldingPage.files straying.cache [] :=
  Cache.holds_nil (by decide +kernel)

theorem build_unfoldingPage : ∃ report w',
    build (Sample.context straying) unfoldingPage = (.ok report, w') ∧ report.hasFailures = false := by
  obtain ⟨report, w', hb, hok, _⟩ := Sample.exists_of_results _
    (unfoldingPageRun.results?_eq holds_unfoldingPage) (by decide)
  exact ⟨report, w', hb, hok⟩

theorem orderly_unfoldingPage : Orderly (fun _ input => input) (fun _ => []) unfoldingOwner
    (Sample.context straying) (Sample.context straying) unfoldingPage := by
  obtain ⟨report, w', hb, _⟩ := build_unfoldingPage
  obtain ⟨o, ho, howns, hreadable⟩ := unfoldingPageRun.exists_outset holds_unfoldingPage
  refine orderly_of_build rfl hb (fun o' ho' => ?_) fun o' ho' => ?_ <;>
  · obtain rfl := Option.some.inj (ho.symm.trans ho')
    assumption

end Build

end AssetCompiler
