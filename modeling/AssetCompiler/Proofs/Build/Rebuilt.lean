import AssetCompiler.Proofs.Build.Contents
import AssetCompiler.Proofs.Build.Template

/-! # Sites built again

Builds of one site without rows and without command lines differ in the fingerprints that they draw, and
in times. They make the same directories, so they find the same tables, and every asset is laid out the
same: in each build its target has the links of that build in the same holes.
-/
namespace AssetCompiler

open AssetCompiler.Tree (Keeps SameDirs SameContents)

namespace Produce

variable {f : List Call → Step → ByteArray → Except ProcessorError ByteArray}

/-- Without command lines, producing a content changes no file. -/
theorem files_content {s : Scene} (hp : s.context.processor = ({} : Commands).processor) (catalog : Catalog)
    (w : Workspace) : (content s catalog w).2.2.files = w.files := by
  refine content_relates (R := fun w w' => w'.files = w.files) (fun _ => rfl)
    (fun _ _ _ h h' => h'.trans h) (fun w step input => ?_) catalog w
  rw [hp, Commands.processor_empty]
  rfl

/-- Where every step passes its input on, a source without a text is copied. -/
theorem read_of_content {s : Scene} {catalog : Catalog} {w : Workspace} {bytes : ByteArray}
    (hp : s.context.processor.Follows fun _ input => input)
    (hok : (content s catalog w).1 = .ok bytes) (hnone : s.asset.content = none) :
    s.files.read s.asset.source = .ok bytes := by
  have hout := output_of_content hp hok
  unfold Scene.output Scene.expand at hout
  rw [hnone] at hout
  cases hr : s.files.read s.asset.source with
  | error fault =>
    rw [hr] at hout
    cases hout
  | ok source =>
    rw [hr] at hout
    simp only [Except.map, Except.ok.injEq] at hout
    rw [← hout]
    exact congrArg _ (List.foldl_fixed _).symm

end Produce

namespace Build

open Session
open Produce (Scene)

/-! ### The middle of a run -/

/-- What the middle of a run knows of the assets that it has compiled. -/
structure Told (c : Config) (s : Session) (front : List Nat) (reports : List AssetReport) (t : Session) :
    Prop extends Underway s front t where
  path : ∀ j ∈ front, ∀ p, (t.assets.get j).target = some p → ∃ fp?,
    p = (s.assets.get j).targetPath c fp? ∧ fp?.isSome = (s.assets.get j).isFingerprinted ∧
      Asset.FlatFingerprint fp?
  ends : ∀ j ∈ front, ∀ p, (t.assets.get j).target = some p →
    EndsIn (s.assets.get j).kind (p.resolve s.work.files.home)
  named : ∀ j ∈ front, (s.assets.get j).kind ≠ .markup → ∀ p, (t.assets.get j).target = some p →
    ∀ h : Hole, h.kind = (s.assets.get j).kind → h.source = (s.assets.get j).source →
      h.target? reports = some p
  source : ∀ j < s.assets.length, ∀ bytes, t.work.files.read (s.assets.get j).source = .ok bytes →
    ∃ f, s.work.files.fileAt? ((s.assets.get j).source.resolve s.work.files.home) = some f ∧ f.bytes = bytes

section told

variable {x : Context} {s : Session} {order front back : List Nat} {reports : List AssetReport} {j : Nat}

/-- What is reported of an asset that is no markup is found by its source. -/
theorem Clean.target?_eq (h : Clean x s order reports) (hvalid : x.config.validate = .ok x.config)
    (hj : j ∈ order) (hk : (s.assets.get j).kind ≠ .markup) {hole : Hole}
    (hkind : hole.kind = (s.assets.get j).kind) (hsource : hole.source = (s.assets.get j).source) :
    hole.target? reports = ((after x s order).assets.get j).target := by
  have hunder := h.underway order [] (by simp)
  have hsame {k : Nat} {e : AssetReport}
      (he : e = assetReport ((after x s order).assets.get k) e.outcome e.error) :
      e.kind = (s.assets.get k).kind ∧ e.source = (s.assets.get k).source ∧
        e.target = ((after x s order).assets.get k).target := by
    obtain ⟨hk, hs, _⟩ := Asset.identity_eq_iff.mp (hunder.identity_eq k)
    rw [he]
    exact ⟨hk, hs, rfl⟩
  obtain ⟨e, hmem, he⟩ := h.exists_report hj
  obtain ⟨hek, hes, _⟩ := hsame he
  unfold Hole.target?
  cases hf : reports.find? fun e => decide (e.kind = hole.kind ∧ e.source = hole.source) with
  | none =>
    have hnot := List.find?_eq_none.mp hf e hmem
    rw [decide_eq_true_eq, hkind, hsource] at hnot
    exact absurd ⟨hek, hes⟩ hnot
  | some e' =>
    have hfound := List.find?_some hf
    rw [decide_eq_true_eq, hkind, hsource] at hfound
    obtain ⟨n, hn, he'⟩ := List.getElem_of_mem (List.mem_of_find?_eq_some hf)
    have hn' : n < order.length := h.forall₂_report.length_eq ▸ hn
    have hreport := (List.forall₂_iff_get.mp h.forall₂_report).2 n hn' hn
    rw [List.get_eq_getElem, List.get_eq_getElem, he'] at hreport
    obtain ⟨hek', hes', htarget⟩ := hsame hreport
    have hlt := h.lt hj
    have hlt' := h.lt (List.getElem_mem hn')
    have hnone := h.made.language_eq_none hvalid hlt hk
    have hnone' := h.made.language_eq_none hvalid hlt' (by rw [← hek', hfound.1]; exact hk)
    -- Without languages a source tells an asset from the others.
    obtain rfl : order[n] = j := by
      refine h.made.distinct.eq_of_hasIdentity hlt' hlt (Asset.hasIdentity_self _) ?_
      rw [← hes', hfound.2, hnone', ← hnone]
      exact Asset.hasIdentity_self _
    exact htarget

theorem Clean.told (h : Clean x s order reports) (hvalid : x.config.validate = .ok x.config)
    (he : order = front ++ back) : Told x.config s front reports (after x s front) where
  toUnderway := h.underway front back he
  path _ hj _ hp := h.exists_targetPath he hj hp
  ends _ hj _ hp := h.endsIn_target he hj hp _
  named j hj hk p hp hole hkind hsource := by
    rw [h.target?_eq hvalid (by simp [he, hj]) hk hkind hsource, ← h.get_of_mem_front he hj, hp]
  source _ hj _ hr := h.read_source he hj (.refl _ _) hr

end told

/-! ### Runs side by side -/

variable {ι : Type}

/-- Runs of one site through one order, which may differ in fingerprints and in times. -/
structure Reruns (c : Config) (settings : AppConfig) (as : Collection) (order : List Nat)
    (x : ι → Context) (s : ι → Session) (reports : ι → List AssetReport) : Prop where
  valid : c.validate = .ok c
  served : ∀ k, ¬(c.sectionOf k).target.Below c.delivery.path
  clean : ∀ r, Clean (x r) (s r) order (reports r)
  config : ∀ r, (x r).config = c
  settings : ∀ r, (x r).settings = settings
  processor : ∀ r, (x r).processor = ({} : Commands).processor
  assets : ∀ r, (s r).assets = as
  contents : ∀ r r', SameContents (s r).work.files (s r').work.files
  catalog : ∀ r r', (s r').catalog = (s r).catalog

/-- What the runs have in common when each has compiled the first assets of the order. -/
structure Level (c : Config) (as : Collection) (front : List Nat) (reports : ι → List AssetReport)
    (t : ι → Session) : Prop where
  dirs : ∀ r r', SameDirs (t r).work.files (t r').work.files
  catalog : ∀ r r', (t r').catalog = (t r).catalog
  laidOut : ∀ j ∈ front, ∃ m : Template, (∀ h ∈ m.holes, HoleOf c as j h) ∧
    ∀ r p, ((t r).assets.get j).target = some p →
      ∃ bytes, (t r).work.files.read p = .ok bytes ∧ m.fill? c.delivery (reports r) = some bytes

section answers

variable {c : Config} {settings : AppConfig} {as : Collection} {order front back : List Nat} {i d : Nat}
  {x : ι → Context} {s t : ι → Session} {reports : ι → List AssetReport} {o : Occurrence}
  {st : ι → Answering}

theorem Reruns.placed [Nonempty ι] (h : Reruns c settings as order x s reports) (hd : d ∈ order)
    (hk : (as.get d).kind ≠ .markup) : (as.get d).Placed c := by
  obtain ⟨r⟩ := ‹Nonempty ι›
  have hclean := h.clean r
  have hplaced := hclean.made.placed_of_valid (by rw [h.config r]; exact h.valid) hclean.wellFormed
    (hclean.lt hd) (by rw [h.assets r]; exact hk)
  rwa [h.assets r, h.config r] at hplaced

/-- What an asset refers to has been compiled before it. -/
theorem Reruns.mem_front [Nonempty ι] (h : Reruns c settings as order x s reports)
    (he : order = front ++ i :: back) (ho : o ∈ (as.get i).occurrences) (hd : o.dependency? = some d) :
    d ∈ front := by
  obtain ⟨r⟩ := ‹Nonempty ι›
  have hclean := h.clean r
  rw [← h.assets r] at ho
  exact hclean.made.dependency_mem_front he
    (hclean.made.meant_of_occurrence (hclean.lt (by simp [he])) ho hd).1

theorem Reruns.targetDir_eq (h : Reruns c settings as order x s reports)
    (ht : ∀ r, Told c (s r) front (reports r) (t r)) (i : Nat) (r : ι) :
    ((t r).assets.get i).targetDir (x r).config = (as.get i).targetDir c := by
  have hid := (ht r).identity_eq i
  rw [h.assets r] at hid
  rw [h.config r]
  exact Produce.Scene.targetDir_congr hid rfl

variable (h : Reruns c settings as order x s reports) (hl : Level c as front reports t)
  (ht : ∀ r, Told c (s r) front (reports r) (t r))

include h ht

theorem Reruns.identity_eq (r : ι) (j : Nat) : ((t r).assets.get j).identity = (as.get j).identity := by
  rw [(ht r).identity_eq j, h.assets r]

/-- No target lies where a table is looked for. -/
theorem Reruns.readTable_eq (hdirs : ∀ r r', SameDirs (t r).work.files (t r').work.files)
    (r r' : ι) (directory? : Option Path) (language : String) :
    (Catalog.readTable (t r').work.files directory? language).1 =
      (Catalog.readTable (t r).work.files directory? language).1 := by
  have hkept (r : ι) (l : Location) (hl : ∀ kind, ¬EndsIn kind l) :
      (t r).work.files.fileAt? l = (s r).work.files.fileAt? l := by
    refine (ht r).keeps.files l ?_
    rintro ⟨j, hj, p, hp, rfl⟩
    exact hl _ ((ht r).ends j hj p hp)
  refine Catalog.readTable_congr (hdirs r r') fun dir _ => ?_
  have hends := fun kind => Catalog.tablePath_not_endsIn dir language (t r).work.files.home kind
  rw [hkept r _ hends, hkept r' _ hends]
  exact (h.contents r r').bytes _

omit h in
/-- Answers from compiled dependencies are laid out the same when they are for each dependency. -/
theorem spells_withTarget (hdep : ∀ d, o.dependency? = some d → d ∈ front)
    {answer : ι → Asset → Path → String × Answering}
    (hanswer : ∀ d, o.dependency? = some d → ∀ p : ι → Path,
      (∀ r, ((t r).assets.get d).target = some (p r)) →
        Spells c as reports i fun r => (answer r ((t r).assets.get d) (p r)).1.toList) :
    Spells c as reports i fun r => (((t r).scene (x r) i).withTarget o (st r) (answer r)).1.toList := by
  cases hd : o.dependency? with
  | none =>
    simp only [Scene.withTarget, hd]
    exact Spells.composable.const _
  | some d =>
    choose p f hp _ using fun r => (ht r).stored d (hdep d hd)
    simp only [Scene.withTarget, scene, hd, hp]
    exact hanswer d hd p hp

omit h in
include hl in
/-- What is taken in is laid out as the target that it comes from. -/
theorem spells_embed {path : String} {escaped : Bool} (ho : o ∈ (as.get i).occurrences)
    (hdirective : o.directive = .embed path escaped) (hdep : ∀ d, o.dependency? = some d → d ∈ front) :
    Spells c as reports i fun r => (((t r).scene (x r) i).embed o escaped (st r)).1.toList := by
  unfold Scene.embed
  refine spells_withTarget ht hdep fun d hd p hp => ?_
  obtain ⟨m, hholes, hm⟩ := hl.laidOut d (hdep d hd)
  choose bytes hread hfill using fun r => hm r (p r) (hp r)
  cases m with
  | copied source =>
    -- A copy is taken in as text or not at all.
    have hsame (r : ι) : bytes r = source := (Option.some.inj (hfill r)).symm
    simp only [scene, Tree.readText, hread, hsame, bind, Except.bind]
    cases String.fromUTF8? source with
    | none => exact Spells.composable.const []
    | some text => exact Spells.composable.const (if escaped then Produce.escape text else text).toList
  | written ps =>
    choose cs hcs hbytes using fun r => Option.map_eq_some_iff.mp (hfill r)
    have hholes' : ∀ h, .hole h ∈ ps → HoleOf c as d h := fun h hh =>
      hholes h (Template.mem_holes_written.mpr hh)
    refine (Spells.included ho hdirective hd hholes' hcs).congr fun r => ?_
    simp only [scene, Tree.readText, hread, ← hbytes, bind, Except.bind, Cache.fromUTF8?_toUTF8]
    cases escaped <;> simp [Produce.escape]

/-- Where a dependency has its target. -/
theorem exists_target {p : ι → Path} (hd : d ∈ front)
    (hp : ∀ r, ((t r).assets.get d).target = some (p r)) (r : ι) : ∃ fp?,
      p r = (as.get d).targetPath c fp? ∧ fp?.isSome = (as.get d).isFingerprinted ∧
        Asset.FlatFingerprint fp? := by
  have hpath := (ht r).path d hd (p r) (hp r)
  rwa [h.assets r] at hpath

/-- The target of a page is in the same place in all runs. -/
theorem target_eq_of_markup {p : ι → Path} (hd : d ∈ front)
    (hp : ∀ r, ((t r).assets.get d).target = some (p r)) (hk : (as.get d).kind = .markup) (r : ι) :
    p r = (as.get d).targetPath c none := by
  obtain ⟨fp?, htarget, hsome, _⟩ := exists_target h ht hd hp r
  have hnone : fp?.isSome = false := by
    rw [hsome, Asset.isFingerprinted, hk]
    simp
  rw [htarget, Option.isSome_eq_false_iff.mp hnone |> Option.isNone_iff_eq_none.mp]

/-- The target of any other dependency is what a hole for it is filled with. -/
theorem target?_of_hole {p : ι → Path} (hd : d ∈ front)
    (hp : ∀ r, ((t r).assets.get d).target = some (p r)) (hk : (as.get d).kind ≠ .markup) (from? : Option Path)
    (r : ι) : (Hole.mk (as.get d).kind (as.get d).source from? 0).target? (reports r) = some (p r) := by
  refine (ht r).named d hd (by rwa [h.assets r]) (p r) (hp r) _ ?_ ?_ <;> rw [h.assets r]

/-- All runs have an address for a dependency or none has. -/
theorem spells_address [Nonempty ι] (ho : o ∈ (as.get i).occurrences)
    (hdirective : o.directive.isAddress = true) (hdep : ∀ d, o.dependency? = some d → d ∈ front)
    (hmem : ∀ d ∈ front, d ∈ order) :
    Spells c as reports i fun r => (((t r).scene (x r) i).address o (st r)).1.toList := by
  unfold Scene.address
  refine spells_withTarget ht hdep fun d hd p hp => ?_
  have hfront := hdep d hd
  have hpartial (r : ι) : ((t r).assets.get d).isPartial = (as.get d).isPartial := by
    unfold Asset.isPartial
    rw [(Asset.identity_eq_iff.mp (h.identity_eq ht r d)).2.1]
  simp only [scene, hpartial, h.config]
  cases hplain : (as.get d).isPartial with
  | true => exact Spells.composable.const []
  | false =>
    simp only [Bool.false_eq_true, if_false]
    by_cases hk : (as.get d).kind = .markup
    · simp only [target_eq_of_markup h ht hfront hp hk]
      cases publicUrl? c.delivery ((as.get d).targetPath c none) with
      | none => exact Spells.composable.const []
      | some url => exact Spells.composable.const url.toList
    have hsame (r r' : ι) : (publicUrl? c.delivery (p r)).isSome = (publicUrl? c.delivery (p r')).isSome := by
      obtain ⟨fp?, htarget, _, hflat⟩ := exists_target h ht hfront hp r
      obtain ⟨fp?', htarget', _, hflat'⟩ := exists_target h ht hfront hp r'
      rw [htarget, htarget']
      refine Asset.isSome_publicUrl?_targetPath (h.placed (hmem d hfront) hk) ?_ hflat hflat'
      rw [Asset.targetRoot, hplain]
      exact h.served _
    obtain ⟨r₀⟩ := ‹Nonempty ι›
    cases hurl : (publicUrl? c.delivery (p r₀)).isSome with
    | false =>
      have hnone (r : ι) : publicUrl? c.delivery (p r) = none :=
        Option.isNone_iff_eq_none.mp (Option.isSome_eq_false_iff.mp ((hsame r r₀).trans hurl))
      simp only [hnone]
      exact Spells.composable.const []
    | true =>
      choose url hurl using fun r => Option.isSome_iff_exists.mp ((hsame r r₀).trans hurl)
      simp only [hurl]
      refine Spells.of_hole ⟨hk, .address i d o ho hdirective hd⟩ fun r => ?_
      rw [Hole.fill?, target?_of_hole h ht hfront hp hk none r, Option.bind_some, Hole.link?, hurl]
      rfl

theorem spells_link {path : String} (ho : o ∈ (as.get i).occurrences)
    (hdirective : o.directive = .imagePath path) (hdep : ∀ d, o.dependency? = some d → d ∈ front) :
    Spells c as reports i fun r => (((t r).scene (x r) i).link o (st r)).1.toList := by
  unfold Scene.link
  refine spells_withTarget ht hdep fun d hd p hp => ?_
  simp only [scene, h.targetDir_eq ht]
  by_cases hk : (as.get d).kind = .markup
  · simp only [target_eq_of_markup h ht (hdep d hd) hp hk]
    exact Spells.composable.const _
  · refine Spells.of_hole ⟨hk, .relative i d o path ho hdirective hd⟩ fun r => ?_
    rw [Hole.fill?, target?_of_hole h ht (hdep d hd) hp hk _ r]
    rfl

/-- Messages are the same in all runs that have read the same tables. -/
theorem Reruns.message_eq (hdirs : ∀ r r', SameDirs (t r).work.files (t r').work.files)
    (hst : ∀ r r', (st r').catalog = (st r).catalog) (key : String) (r r' : ι) :
    (((t r').scene (x r') i).message key (st r')).1 = (((t r).scene (x r) i).message key (st r)).1 ∧
      (((t r').scene (x r') i).message key (st r')).2.catalog =
        (((t r).scene (x r) i).message key (st r)).2.catalog := by
  have hlanguage (r : ι) : ((t r).assets.get i).language = (as.get i).language :=
    (Asset.identity_eq_iff.mp (h.identity_eq ht r i)).2.2
  unfold Scene.message
  dsimp only [scene, Answering.note]
  rw [hlanguage r, hlanguage r', hst r r']
  exact Catalog.message_congr (fun language => h.readTable_eq ht hdirs r r' _ language) key _

include hl

/-- What each answer of the family adds to the texts and to the states of the runs. -/
theorem Reruns.answers [Nonempty ι] (he : order = front ++ i :: back) (ho : o ∈ (as.get i).occurrences) :
    Lookup.Answers (fun r => ((t r).scene (x r) i).lookup) (fun st => ∀ r r', (st r').catalog = (st r).catalog)
      (Spells c as reports i) o where
  text st hst := by
    have hdep (d : Nat) (hd : o.dependency? = some d) : d ∈ front := h.mem_front he ho hd
    have hmem (d : Nat) (hd : d ∈ front) : d ∈ order := by simp [he, hd]
    dsimp only [Scene.lookup]
    unfold Scene.answer
    cases hdirective : o.directive with
    | embed path escaped => exact spells_embed hl ht ho hdirective hdep
    | stylesheetUrl path | scriptUrl path | imageUrl path =>
      exact spells_address h ht ho (by rw [hdirective]; rfl) hdep hmem
    | imagePath path => exact spells_link h ht ho hdirective hdep
    | resourceUrl key =>
      simp only [Scene.resource, scene, h.config]
      cases Fields.get? c.resources key with
      | none => exact Spells.composable.const []
      | some url => exact Spells.composable.const url.toList
    | setting key filter =>
      simp only [Scene.setting, scene, h.settings]
      exact Spells.composable.const _
    | localize key =>
      refine Spells.composable.of_eq fun r r' => ?_
      dsimp only
      rw [(h.message_eq ht hl.dirs hst key r r').1]
    | declare name value | display name | openBlock guard | elseBranch | closeBlock =>
      exact Spells.composable.const []
  state st hst r r' := by
    dsimp only [Scene.lookup]
    by_cases hlocalize : ∃ key, o.directive = .localize key
    · obtain ⟨key, hkey⟩ := hlocalize
      unfold Scene.answer
      rw [hkey]
      exact (h.message_eq ht hl.dirs hst key r r').2
    · have hkept (r : ι) : (((t r).scene (x r) i).answer o (st r)).2.catalog = (st r).catalog := by
        refine (Scene.catalog_answer _ o (st r)).resolve_right ?_
        rintro ⟨key, hkey, _⟩
        exact hlocalize ⟨key, hkey⟩
      rw [hkept, hkept, hst r r']

end answers

section step

variable {c : Config} {settings : AppConfig} {as : Collection} {order front back : List Nat} {i : Nat}
  {x : ι → Context} {s t t' : ι → Session} {reports : ι → List AssetReport} {target : ι → Path}
  {bytes : ι → ByteArray} (h : Reruns c settings as order x s reports)
  (he : order = front ++ i :: back) (hl : Level c as front reports t)
  (ht : ∀ r, Told c (s r) front (reports r) (t r))
  (ha : ∀ r, Adds (x r) (s r) front (t r) i (target r) (bytes r) (t' r))

include h

theorem Reruns.follows (r : ι) : (x r).processor.Follows fun _ input => input :=
  h.processor r ▸ Commands.follows_processor_empty

include he ht ha

/-- The targets of an asset lie in one directory. -/
theorem Reruns.parent?_eq [Nonempty ι] (r r' : ι) : (target r').parent? = (target r).parent? := by
  have hpath (r : ι) : ∃ fp?, target r = (as.get i).targetPath c fp? ∧
      fp?.isSome = (as.get i).isFingerprinted ∧ Asset.FlatFingerprint fp? := by
    obtain ⟨fp?, htarget, hsome, hflat⟩ := (ha r).written.isTarget.flat (h.clean r).flat
    have hid := h.identity_eq ht r i
    rw [Asset.isFingerprinted_congr hid] at hsome
    rw [h.config, Asset.targetPath_congr hid] at htarget
    exact ⟨fp?, htarget, hsome, hflat⟩
  obtain ⟨fp?, htarget, hsome, hflat⟩ := hpath r
  obtain ⟨fp?', htarget', hsome', hflat'⟩ := hpath r'
  rw [htarget, htarget']
  by_cases hk : (as.get i).kind = .markup
  · have hnone : (as.get i).isFingerprinted = false := by
      rw [Asset.isFingerprinted, hk]
      simp
    rw [hnone] at hsome hsome'
    rw [Option.isNone_iff_eq_none.mp (Option.isSome_eq_false_iff.mp hsome),
      Option.isNone_iff_eq_none.mp (Option.isSome_eq_false_iff.mp hsome')]
  · exact Asset.parent?_targetPath (h.placed (by simp [he]) hk) hflat' hflat

include hl

theorem Reruns.dirs_step [Nonempty ι] (r r' : ι) : SameDirs (t' r).work.files (t' r').work.files := by
  obtain ⟨w, v, hw, hv, hthere, hback⟩ := (ha r).lays.parent
  obtain ⟨w', v', hw', hv', hthere', hback'⟩ := (ha r').lays.parent
  rw [Produce.files_content (h.processor _)] at hw hw'
  have hstart : SameDirs w.files w'.files := by
    rw [hw, hw']
    exact hl.dirs r r'
  have hmade := sameDirs_makeParent hstart (h.parent?_eq he ht ha r r') hv hv'
  exact (SameDirs.mk hback hthere).trans (hmade.trans ⟨hthere', hback'⟩)

/-- What an asset comes to in all runs. -/
theorem Reruns.exists_template [Nonempty ι] : (∀ r r', (t' r').catalog = (t' r).catalog) ∧
    ∃ m : Template, (∀ h ∈ m.holes, HoleOf c as i h) ∧
      ∀ r, m.fill? c.delivery (reports r) = some (bytes r) := by
  have hid (r : ι) := Asset.identity_eq_iff.mp (h.identity_eq ht r i)
  have hoccurrences (r : ι) : ((t r).assets.get i).occurrences = (as.get i).occurrences := by
    rw [(ht r).occurrences_eq, h.assets]
  have hcontent (r : ι) : ((t r).assets.get i).content = (as.get i).content := by
    rw [(ht r).content_eq, h.assets]
  have hcatalog (r : ι) : (t' r).catalog =
      (((t r).scene (x r) i).expand { catalog := (t r).catalog }).2.catalog := by
    rw [(ha r).written.catalog, Produce.answering_content]
  cases hc : (as.get i).content with
  | some text =>
    have hrender := render_family (L := fun r => ((t r).scene (x r) i).lookup)
      (R := fun st => ∀ r r', (st r').catalog = (st r).catalog) (Q := Spells c as reports i)
      (s := fun r => { catalog := (t r).catalog }) Spells.composable (fun _ _ hst => hst)
      (fun o ho => h.answers hl ht he ho) hl.catalog text
    obtain ⟨⟨ps, hholes, hps⟩, hstate⟩ := hrender
    refine ⟨fun r r' => ?_, .written ps, fun h hh => hholes h (Template.mem_holes_written.mp hh), fun r => ?_⟩
    · have hsame := hstate r r'
      rw [hcatalog, hcatalog]
      unfold Scene.expand
      dsimp only [scene] at hsame ⊢
      rw [hcontent, hcontent, hoccurrences, hoccurrences, hc]
      exact hsame
    · have hbytes := Produce.bytes_of_content (h.follows r) (ha r).written.content ((hcontent r).trans hc)
      rw [hbytes, Template.fill?, hps r, Option.map_some, String.ofList_toList]
      dsimp only [scene]
      rw [hoccurrences]
  | none =>
    have hsource (r : ι) : ((s r).work.files.fileAt?
        ((as.get i).source.resolve (s r).work.files.home)).map File.bytes = some (bytes r) := by
      have hread := Produce.read_of_content (h.follows r) (ha r).written.content ((hcontent r).trans hc)
      dsimp only [scene] at hread
      rw [(hid r).2.1, ← h.assets r] at hread
      obtain ⟨f, hf, hbytes⟩ := (ht r).source i ((h.clean r).lt (by simp [he])) _ hread
      rw [← h.assets r, hf, Option.map_some, hbytes]
    have hsame (r r' : ι) : bytes r' = bytes r := by
      have hfile := hsource r'
      rw [(h.contents r r').there.home, (h.contents r r').bytes, hsource r] at hfile
      exact (Option.some.inj hfile).symm
    obtain ⟨r₀⟩ := ‹Nonempty ι›
    refine ⟨fun r r' => ?_, .copied (bytes r₀), fun h hh => (by cases hh), fun r => ?_⟩
    · rw [hcatalog, hcatalog]
      unfold Scene.expand
      dsimp only [scene]
      rw [hcontent, hcontent, hc]
      exact hl.catalog r r'
    · rw [Template.fill?, hsame r r₀]

theorem Reruns.level_step [Nonempty ι] : Level c as (front ++ [i]) reports t' := by
  obtain ⟨hcatalog, m, hholes, hfill⟩ := h.exists_template he hl ht ha
  refine ⟨h.dirs_step he hl ht ha, hcatalog, fun j hj => ?_⟩
  rcases List.mem_append.mp hj with hj | hj
  · obtain ⟨m, hholes, hm⟩ := hl.laidOut j hj
    refine ⟨m, hholes, fun r p hp => ?_⟩
    have hne : j ≠ i := fun heq => (h.clean r).not_mem_front he (heq ▸ hj)
    rw [(ha r).other j hne] at hp
    obtain ⟨bytes, hread, hbytes⟩ := hm r p hp
    obtain ⟨f, hf, rfl⟩ := Tree.read_eq_ok_iff.mp hread
    exact ⟨_, Tree.read_eq_ok_iff.mpr ⟨f, (ha r).file (ht r).home hj hp hf, rfl⟩, hbytes⟩
  · obtain rfl := List.mem_singleton.mp hj
    refine ⟨m, hholes, fun r p hp => ⟨bytes r, ?_, hfill r⟩⟩
    rw [(ha r).self] at hp
    obtain rfl : target r = p := Option.some.inj hp
    exact Tree.read_eq_ok_iff.mpr (ha r).written.file

end step

section runs

variable {c : Config} {settings : AppConfig} {as : Collection} {order : List Nat} {x : ι → Context}
  {s : ι → Session} {reports : ι → List AssetReport}

theorem Reruns.told (h : Reruns c settings as order x s reports) {front back : List Nat}
    (he : order = front ++ back) (r : ι) : Told c (s r) front (reports r) (after (x r) (s r) front) := by
  have htold := (h.clean r).told (by rw [h.config r]; exact h.valid) he
  rwa [h.config r] at htold

theorem Reruns.level [Nonempty ι] (h : Reruns c settings as order x s reports) : ∀ front back,
    order = front ++ back → Level c as front reports fun r => after (x r) (s r) front := by
  refine prefix_induction ⟨fun r r' => (h.contents r r').toSameDirs, h.catalog, fun _ hj => by cases hj⟩ ?_
  intro front i back he hl
  choose target bytes ha using fun r => (h.clean r).adds_of_append he
  exact h.level_step he hl (h.told he) ha

end runs

/-! ### Builds side by side -/

/-- A build of a site without command lines that gets to its report without a failed asset. Its targets
are files of their own, away from the sources. Its fingerprints may be any, and so may its times. -/
structure Rebuild (c : Config) (settings : AppConfig) (files : Tree) (x : Context) (w : Workspace)
    (report : BuildReport) (w' : Workspace) : Prop extends BuildsApart x w report w' where
  config : x.config = c
  settings : x.settings = settings
  processor : x.processor = ({} : Commands).processor
  flat : x.FlatFingerprints
  files : w.files = files

/-- The report of an asset whose target is laid out in a given way. -/
structure LaidOut (d : Delivery) (reports : List AssetReport) (files : Tree) (a : Asset) (m : Template)
    (e : AssetReport) : Prop where
  kind : e.kind = a.kind
  source : e.source = a.source
  language : e.language = a.language
  isPartial : e.isPartial = a.isPartial
  content : ∃ target bytes, e.target = some target ∧ files.read target = .ok bytes ∧
    m.fill? d reports = some bytes

section builds

variable {c : Config} {settings : AppConfig} {files : Tree} {x : Context} {w w' : Workspace}
  {report : BuildReport} {o : Outset}

theorem Rebuild.exists_cleanBuild (h : Rebuild c settings files x w report w') (hw : files.WellFormed)
    (hrows : Cache.savedRows files c.cache = []) : ∃ o, CleanBuild x w report w' o := by
  have hkeeps : x.processor.KeepsFiles := by
    rw [h.processor, Commands.processor_empty]
    exact Processor.keepsFiles_ofFunction _
  refine h.toBuildsApart.exists_cleanBuild hkeeps h.flat ?_ ?_
  · rw [h.files]
    exact hw
  · rw [h.files, h.config]
    exact hrows

/-- What a run has laid out is so in the targets that a build reports. -/
theorem CleanBuild.forall₂_laidOut {d : Delivery} {layout : Nat → Template} (hb : CleanBuild x w report w' o)
    (h : ∀ j ∈ o.order, ∀ p, ((after x o.session o.order).assets.get j).target = some p →
      ∃ bytes, (after x o.session o.order).work.files.read p = .ok bytes ∧
        (layout j).fill? d report.assets = some bytes) :
    List.Forall₂ (fun j e => LaidOut d report.assets w'.files (o.session.assets.get j) (layout j) e)
      o.order report.assets := by
  have hunder := hb.clean.underway o.order [] (by simp)
  have hreports := hb.clean.forall₂_report
  refine List.forall₂_iff_get.mpr ⟨hreports.length_eq, fun n hn hn' => ?_⟩
  have he := (List.forall₂_iff_get.mp hreports).2 n hn hn'
  generalize report.assets.get ⟨n, hn'⟩ = e at he
  have hj : o.order.get ⟨n, hn⟩ ∈ o.order := List.get_mem _ _
  generalize o.order.get ⟨n, hn⟩ = j at he hj ⊢
  obtain ⟨hkind, hsource, hlanguage⟩ := Asset.identity_eq_iff.mp (hunder.identity_eq j)
  obtain ⟨p, f, hp, hf, hend⟩ := hb.exists_file hj
  obtain ⟨bytes, hread, hfill⟩ := h j hj p hp
  rw [Tree.read_eq_ok_iff] at hread
  obtain ⟨f', hf', rfl⟩ := hread
  obtain rfl : f' = f := Except.ok.inj (hf'.symm.trans hf)
  rw [he]
  exact ⟨hkind, hsource, hlanguage, by simp only [assetReport, Asset.isPartial, hsource], p, f'.bytes, hp,
    Tree.read_eq_ok_iff.mpr ⟨f', hend, rfl⟩, hfill⟩

/-- Builds in a family have one layout. -/
theorem exists_layout {ι : Type} [Nonempty ι] {x : ι → Context} {w w' : ι → Workspace}
    {report : ι → BuildReport} (hvalid : c.validate = .ok c)
    (hserved : ∀ k, ¬(c.sectionOf k).target.Below c.delivery.path) (hw : files.WellFormed)
    (hrows : Cache.savedRows files c.cache = [])
    (h : ∀ r, Rebuild c settings files (x r) (w r) (report r) (w' r)) :
    ∃ (plan : Plan) (layout : Nat → Template),
      (∀ i ∈ plan.order, ∀ h ∈ (layout i).holes, HoleOf c plan.assets i h) ∧
      ∀ r, (∃ o, outset? (x r) (w r) = some o ∧ o.session.assets = plan.assets ∧ o.order = plan.order) ∧
        List.Forall₂ (fun i e =>
          LaidOut c.delivery (report r).assets (w' r).files (plan.assets.get i) (layout i) e)
          plan.order (report r).assets := by
  choose o ho using fun r => (h r).exists_cleanBuild hw hrows
  have hsame (r r' : ι) : (o r').session.assets = (o r).session.assets ∧ (o r').order = (o r).order ∧
      SameContents (o r).session.work.files (o r').session.work.files := by
    refine outset_of_files ?_ ?_ ((h r').files.trans (h r).files.symm) ((h r').config.trans (h r).config.symm)
      (ho r).outset (ho r').outset
    · rw [(h r).files]
      exact hw
    · rw [(h r).files, (h r).config]
      exact hrows
  obtain ⟨r₀⟩ := id ‹Nonempty ι›
  have hreruns : Reruns c settings (o r₀).session.assets (o r₀).order x (fun r => (o r).session)
      (fun r => (report r).assets) := by
    refine ⟨hvalid, hserved, fun r => ?_, fun r => (h r).config, fun r => (h r).settings,
      fun r => (h r).processor, fun r => (hsame r₀ r).1, fun r r' => (hsame r r').2.2, fun r r' => ?_⟩
    · rw [← (hsame r₀ r).2.1]
      exact (ho r).clean
    · rw [(ho r).catalog, (ho r').catalog, (h r).config, (h r').config]
  have hlevel := hreruns.level (o r₀).order [] (by simp)
  choose! layout hholes hlaid using hlevel.laidOut
  refine ⟨⟨(o r₀).session.assets, (o r₀).order⟩, layout, hholes, fun r => ?_⟩
  obtain ⟨hassets, horder, _⟩ := hsame r₀ r
  refine ⟨⟨o r, (ho r).outset, hassets, horder⟩, ?_⟩
  have hforall := (ho r).forall₂_laidOut fun j hj p hp => by
    rw [horder] at hj hp ⊢
    exact hlaid j hj r p hp
  rwa [hassets, horder] at hforall

/-- All builds of a site from an empty cache report the same assets in the same order. Each asset has
one layout, whose holes are for links that its text asks for, or that come with the texts that it takes
in: in every build its target is that layout with the holes filled by the links to the targets of that
build. The served directory may not lie below a root of targets. -/
theorem rebuilt_up_to_fingerprints (hvalid : c.validate = .ok c)
    (hserved : ∀ k, ¬(c.sectionOf k).target.Below c.delivery.path) (hw : files.WellFormed)
    (hrows : Cache.savedRows files c.cache = []) :
    ∃ (plan : Plan) (layout : Nat → Template),
      (∀ i ∈ plan.order, ∀ h ∈ (layout i).holes, HoleOf c plan.assets i h) ∧
      ∀ x w report w', Rebuild c settings files x w report w' →
        (∃ o, outset? x w = some o ∧ o.session.assets = plan.assets ∧ o.order = plan.order) ∧
        List.Forall₂ (fun i e => LaidOut c.delivery report.assets w'.files (plan.assets.get i) (layout i) e)
          plan.order report.assets := by
  by_cases hsome : Nonempty { q : Context × Workspace × BuildReport × Workspace //
      Rebuild c settings files q.1 q.2.1 q.2.2.1 q.2.2.2 }
  · obtain ⟨plan, layout, hholes, hlaid⟩ := exists_layout hvalid hserved hw hrows
      fun r : { q : Context × Workspace × BuildReport × Workspace //
        Rebuild c settings files q.1 q.2.1 q.2.2.1 q.2.2.2 } => r.2
    exact ⟨plan, layout, hholes, fun x w report w' h => hlaid ⟨(x, w, report, w'), h⟩⟩
  · exact ⟨default, fun _ => default, fun i hi => (by cases hi), fun x w report w' h =>
      absurd ⟨⟨(x, w, report, w'), h⟩⟩ hsome⟩

end builds

end Build

/-! ### A page built again -/

namespace Sample

/-- A build with another fingerprint than that of other builds. -/
def otherContext : Context := { context {} with fingerprint := fun _ _ => "9876543210" }

def laterPage : Workspace := { page with clock := 20 }

/-- What a build of the page reports, under one fingerprint. -/
def pageResults (fingerprint : String) : List (Outcome × Path × Option String × Option Path) := [
  (.created, ⟨"stylesheets/site.css"⟩, none, some ⟨"public/stylesheets/site-" ++ fingerprint ++ ".css"⟩),
  (.created, ⟨"html/page.html"⟩, none, some ⟨"public/html/page.html"⟩)]

end Sample

namespace Build

open Sample

/-- A run that leaves a link to a stylesheet in a page. -/
def LeavesLink (fingerprint : String) (x : Context) (o : Outset) : Prop :=
  ((finish x o.session.cache o).2.files.read ⟨"public/html/page.html"⟩).toOption =
    some ("/stylesheets/site-" ++ fingerprint ++ ".css").toUTF8

instance (fingerprint : String) (x : Context) : DecidablePred (LeavesLink fingerprint x) :=
  fun _ => decEq _ _

set_option maxRecDepth 100000 in
def pageRun : Rehearsed [] (context {}) page (LeavesLink "0123456789" (context {})) where
  results := pageResults "0123456789"
  evaluated := by decide +kernel

set_option maxRecDepth 100000 in
def laterPageRun : Rehearsed [] otherContext laterPage (LeavesLink "9876543210" otherContext) where
  results := pageResults "9876543210"
  evaluated := by decide +kernel

theorem holds_page : Cache.Holds page.files ⟨"build"⟩ [] := Cache.holds_nil (by decide +kernel)

/-- A rehearsed build of the page is one of its builds, under the fingerprint that it draws. -/
theorem exists_rebuild_page {x : Context} {w : Workspace} {fingerprint : String}
    (r : Rehearsed [] x w (LeavesLink fingerprint x)) (hresults : r.results = pageResults fingerprint)
    (hconfig : x.config = {}) (hsettings : x.settings = {})
    (hprocessor : x.processor = ({} : Commands).processor) (hflat : x.FlatFingerprints)
    (hfiles : w.files = page.files)
    (hdistinct : (pageResults fingerprint).Pairwise fun e e' =>
      ∀ p ∈ e.2.2.2, ∀ q ∈ e'.2.2.2, p.resolve [] ≠ q.resolve [])
    (houtside : ∀ k ∈ Kind.all, ∀ e ∈ pageResults fingerprint, ∀ p ∈ e.2.2.2,
      ¬(({} : Config).sectionOf k).source.resolve [] <+: p.resolve []) :
    ∃ report w', Rebuild {} {} page.files x w report w' ∧
      w'.files.read ⟨"public/html/page.html"⟩ = .ok ("/stylesheets/site-" ++ fingerprint ++ ".css").toUTF8 := by
  have hcreated : ∀ e ∈ r.results, e.1 ≠ .failed := by
    rw [hresults]
    unfold pageResults
    simp
  have hempty : Cache.Holds w.files x.config.cache [] := by
    rw [hfiles, hconfig]
    exact holds_page
  obtain ⟨report, w', hb, hok, hreports, hread⟩ := r.exists_build hempty hcreated fun _ ho => ho
  rw [hresults] at hreports
  refine ⟨report, w', ⟨⟨hb, hok, ?_, ?_⟩, hconfig, hsettings, hprocessor, hflat, hfiles⟩, hread⟩
  · rw [hfiles]
    exact targetsDistinct_of_results hreports hdistinct
  · rw [hfiles, hconfig]
    exact targetsOutside_of_results hreports houtside

theorem rebuilt_up_to_fingerprints_page :
    ({} : Config).validate = .ok {} ∧ (∀ k, ¬(({} : Config).sectionOf k).target.Below ⟨"public"⟩) ∧
    page.files.WellFormed ∧ Cache.savedRows page.files ⟨"build"⟩ = [] ∧
    ∃ report report' w w', Rebuild {} {} page.files (context {}) page report w ∧
      Rebuild {} {} page.files otherContext laterPage report' w' ∧
      w.files.read ⟨"public/html/page.html"⟩ = .ok "/stylesheets/site-0123456789.css".toUTF8 ∧
      w'.files.read ⟨"public/html/page.html"⟩ = .ok "/stylesheets/site-9876543210.css".toUTF8 ∧
      ∃ (plan : Plan) (layout : Nat → Template),
        (∀ i ∈ plan.order, ∀ h ∈ (layout i).holes, HoleOf {} plan.assets i h) ∧
        List.Forall₂ (fun i e => LaidOut {} report.assets w.files (plan.assets.get i) (layout i) e)
          plan.order report.assets ∧
        List.Forall₂ (fun i e => LaidOut {} report'.assets w'.files (plan.assets.get i) (layout i) e)
          plan.order report'.assets := by
  have hvalid : ({} : Config).validate = .ok {} := by decide +kernel
  have hserved (k : Kind) : ¬(({} : Config).sectionOf k).target.Below ⟨"public"⟩ := by
    rintro ⟨names, _, _, hcomponents⟩
    have hlength := congrArg List.length hcomponents
    have hroot : (({} : Config).sectionOf k).target.components.length = 2 := by cases k <;> decide +kernel
    have hpublic : (⟨"public"⟩ : Path).components.length = 1 := by decide +kernel
    rw [List.length_append] at hlength
    omega
  have hw : page.files.WellFormed := by decide +kernel
  have hrows : Cache.savedRows page.files ⟨"build"⟩ = [] := by decide +kernel
  obtain ⟨report, w, h, hread⟩ := exists_rebuild_page pageRun rfl rfl rfl Commands.processor_empty.symm
    (suits {}).flat rfl (by decide +kernel) (by decide +kernel)
  have hflat : otherContext.FlatFingerprints := fun _ _ => by
    show '/' ∉ "9876543210".toList
    decide
  obtain ⟨report', w', h', hread'⟩ := exists_rebuild_page laterPageRun rfl rfl rfl
    Commands.processor_empty.symm hflat rfl (by decide +kernel) (by decide +kernel)
  obtain ⟨plan, layout, hholes, hlaid⟩ :=
    @rebuilt_up_to_fingerprints {} {} page.files hvalid hserved hw hrows
  exact ⟨hvalid, hserved, hw, hrows, report, report', w, w', h, h', hread, hread', plan, layout, hholes,
    (hlaid _ _ _ _ h).2, (hlaid _ _ _ _ h').2⟩

end Build

end AssetCompiler
