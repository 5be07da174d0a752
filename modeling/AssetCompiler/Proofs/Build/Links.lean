import AssetCompiler.Proofs.Build.Drawn
import AssetCompiler.Proofs.Build.Preview
import AssetCompiler.Proofs.Directive.Outline

/-! # Links in stylesheets

A link to an image is made while the stylesheet is rendered that asks for it, from the directory of
that stylesheet's own target. Includes carry it on as it is. So wherever it ends up, it leads to the
image from the directory of the target that it was made for.
-/
namespace AssetCompiler

open Produce (Scene)
open Cache (savedRows)

namespace Produce.Scene

/-- The portions of an asset's text. -/
def portions (s : Scene) : List Portion :=
  match s.asset.content with
  | some text => AssetCompiler.portions s.lookup text s.asset.occurrences s.start
  | none => []

variable {s : Scene} {text : String} {o : Occurrence} {cs : List Char} {front back : List Portion}

theorem exists_content_of_portions (h : s.portions = front ++ ⟨some o, cs⟩ :: back) :
    ∃ text, s.asset.content = some text := by
  unfold portions at h
  split at h
  · rename_i text htext
    exact ⟨text, htext⟩
  · simp at h

theorem written_portions (h : s.asset.content = some text) :
    Portion.written s.portions = (s.drawing text).toList := by
  rw [portions, h]
  exact AssetCompiler.written_portions ..

theorem drawing_of_portions (hc : s.asset.content = some text)
    (h : s.portions = front ++ ⟨some o, cs⟩ :: back) :
    (s.drawing text).toList = Portion.written front ++ cs ++ Portion.written back := by
  rw [← written_portions hc, h, Portion.written_split]

/-- A portion that stands for a lookup is an answer. -/
theorem answer_of_portions (h : s.portions = front ++ ⟨some o, cs⟩ :: back) :
    o ∈ s.asset.occurrences ∧
      (o.directive.isLookup = true → ∃ t, cs = (s.answer o t).1.toList) := by
  obtain ⟨text, htext⟩ := exists_content_of_portions h
  have hmem : (⟨some o, cs⟩ : Portion) ∈ s.portions := by
    rw [h]
    exact List.mem_append_right _ List.mem_cons_self
  rw [portions, htext] at hmem
  exact Progress.answer_of_mem_portionsFrom hmem

end Produce.Scene

namespace Build

open Session

/-- How the output of a directive of one stylesheet gets into the target of another: it stands there
in the text's own place, or it comes with the text of a stylesheet that is included. It has the given
characters before and behind it. -/
inductive Carries (x : Context) (files : Tree) (as : Collection) :
    Nat → Nat → Occurrence → List Char → List Char → Prop
  | written (i : Nat) (o : Occurrence) (front back : List Portion) (cs : List Char)
      (portions : (Scene.mk x files as (as.get i)).portions = front ++ ⟨some o, cs⟩ :: back) :
      Carries x files as i i o (Portion.written front) (Portion.written back)
  | included (i k j : Nat) (e o : Occurrence) (path : String) (front back : List Portion)
      (cs before behind : List Char)
      (portions : (Scene.mk x files as (as.get i)).portions = front ++ ⟨some e, cs⟩ :: back)
      (directive : e.directive = .embed path false) (dependency : e.dependency? = some k)
      (inner : Carries x files as k j o before behind) :
      Carries x files as i j o (Portion.written front ++ before) (behind ++ Portion.written back)

variable {x : Context} {files : Tree} {as : Collection} {i j : Nat} {o : Occurrence}
  {before behind : List Char}

/-- What a stylesheet refers to are assets, and what it includes are stylesheets. -/
def Refers (as : Collection) : Prop :=
  ∀ i < as.length, (as.get i).kind = .stylesheet → ∀ o ∈ (as.get i).occurrences, ∀ d,
    o.dependency? = some d → d < as.length ∧
      ∃ r, o.directive.reference? .stylesheet = some r ∧ (as.get d).kind = r.kind

theorem Drawn.text (h : Drawn x files as i) (hk : (as.get i).kind = .stylesheet) {text : String}
    (htext : (as.get i).content = some text) : ∃ target, (as.get i).target = some target ∧
      files.readText target = .ok ((Scene.mk x files as (as.get i)).drawing text) := by
  obtain ⟨fp?, _, htarget⟩ := h.target
  obtain ⟨f, hf, hbytes⟩ := h.stored hk _ htarget
  refine ⟨_, htarget, ?_⟩
  have hread := Tree.read_eq_ok_iff.mpr ⟨f, hf, rfl⟩
  simp only [Tree.readText, hread, bind, Except.bind, hbytes text htext, Cache.fromUTF8?_toUTF8]

theorem lt_of_content {text : String} (h : (as.get i).content = some text) : i < as.length := by
  by_contra hi
  have hget : as.get i = default := by
    simp [Collection.get, List.getElem?_eq_none (Nat.le_of_not_lt hi)]
  rw [hget] at h
  cases h

theorem Carries.lt (h : Carries x files as i j o before behind) : i < as.length := by
  cases h with
  | written i o front back cs hportions =>
    obtain ⟨_, htext⟩ := Scene.exists_content_of_portions hportions
    exact lt_of_content htext
  | included i k j e o path front back cs before behind hportions =>
    obtain ⟨_, htext⟩ := Scene.exists_content_of_portions hportions
    exact lt_of_content htext

/-- What is carried into a target stands in its text as it was answered. -/
theorem Carries.exists_text (h : Carries x files as i j o before behind)
    (hdrawn : ∀ i < as.length, Drawn x files as i) (hrefers : Refers as)
    (hk : (as.get i).kind = .stylesheet) (hlookup : o.directive.isLookup = true) :
    ∃ target text t, (as.get i).target = some target ∧ files.readText target = .ok text ∧
      j < as.length ∧ (as.get j).kind = .stylesheet ∧ o ∈ (as.get j).occurrences ∧
      text.toList = before ++ ((Scene.mk x files as (as.get j)).answer o t).1.toList ++ behind := by
  induction h with
  | written i o front back cs hportions =>
    obtain ⟨text, htext⟩ := Scene.exists_content_of_portions hportions
    have hi := lt_of_content htext
    obtain ⟨target, htarget, hread⟩ := (hdrawn i hi).text hk htext
    obtain ⟨hmem, hanswer⟩ := Scene.answer_of_portions hportions
    obtain ⟨t, rfl⟩ := hanswer hlookup
    exact ⟨target, _, t, htarget, hread, hi, hk, hmem, Scene.drawing_of_portions htext hportions⟩
  | included i k j e o path front back cs before behind hportions hdirective hdependency _ ih =>
    obtain ⟨text, htext⟩ := Scene.exists_content_of_portions hportions
    have hi := lt_of_content htext
    obtain ⟨target, htarget, hread⟩ := (hdrawn i hi).text hk htext
    obtain ⟨hmem, hanswer⟩ := Scene.answer_of_portions hportions
    obtain ⟨t', hcs⟩ := hanswer (by rw [hdirective]; rfl)
    obtain ⟨_, r, hr, hkind⟩ := hrefers i hi hk e hmem k hdependency
    rw [hdirective] at hr
    obtain rfl := Option.some.inj hr
    obtain ⟨inner, text', t, hinner, hread', hj, hkj, hmem', htext'⟩ := ih hkind hlookup
    -- The included text takes the place of the directive.
    have hincluded : cs = text'.toList := by
      rw [hcs]
      unfold Scene.answer
      rw [hdirective]
      dsimp only
      unfold Scene.embed Scene.withTarget
      rw [hdependency]
      dsimp only
      rw [hinner]
      dsimp only
      rw [hread']
      rfl
    refine ⟨target, _, t, htarget, hread, hj, hkj, hmem', ?_⟩
    rw [Scene.drawing_of_portions htext hportions, hincluded, htext']
    simp only [List.append_assoc]

/-! ### What targets are made of -/

variable {w w' : Workspace} {report : BuildReport} {s s' : Session} {order : List Nat}
  {reports : List AssetReport}

/-- An asset after a build, with what its target is made of. -/
structure Outline where
  kind : Kind
  isPartial : Bool
  target : Option Path
  text : Option String
  portions : List Portion
  deriving DecidableEq

def outline (x : Context) (files : Tree) (as : Collection) (i : Nat) : Outline where
  kind := (as.get i).kind
  isPartial := (as.get i).isPartial
  target := (as.get i).target
  text := (as.get i).target.bind fun target => (files.readText target).toOption
  portions := (Scene.mk x files as (as.get i)).portions

/-- The assets of a build without rows in which none fails. -/
def outlines? (x : Context) (w : Workspace) : Option (List Outline) := do
  let o ← preview? [] x w
  match finish x o.session.cache o with
  | (.error _, _) => none
  | (.ok report, w') =>
    if report.hasFailures = false then
      let as := (compileAll x o.session o.order).2.assets
      some ((List.range as.length).map (outline x w'.files as))
    else none

theorem build_of_outlines {os : List Outline} (hrows : Cache.Holds w.files x.config.cache [])
    (h : outlines? x w = some os) :
    ∃ report w' o, build x w = (.ok report, w') ∧ report.hasFailures = false ∧ outset? x w = some o ∧
      ∀ i p, os[i]? = some p → p = outline x w'.files (compileAll x o.session o.order).2.assets i := by
  obtain ⟨o, hpreview, h⟩ := Option.bind_eq_some_iff.mp h
  have hout := outset?_of_preview hrows hpreview
  have hbuild := build_eq_finish hout
  dsimp only at h
  cases hfinish : finish x o.session.cache o with
  | mk result w' =>
    rw [hfinish] at h hbuild
    cases result with
    | error e => cases h
    | ok report =>
      dsimp only at h
      split at h
      · rename_i hok
        cases h
        refine ⟨report, w', o, hbuild, hok, hout, fun i p hi => ?_⟩
        rw [List.getElem?_map] at hi
        obtain ⟨n, hn, rfl⟩ := Option.map_eq_some_iff.mp hi
        obtain ⟨_, rfl⟩ := List.getElem?_eq_some_iff.mp hn
        rw [List.getElem_range]
      · cases h

/-! ### Links of a build -/

/-- What a build can start from: a site without rows, or a site that edits and builds have led to. -/
inductive Startable (x : Context) (w : Workspace) : Prop
  | fresh (wellFormed : w.files.WellFormed) (rows : savedRows w.files x.config.cache = [])
      (fingerprints : ∀ draw bytes, IsFingerprint (x.fingerprint draw bytes))
  | continued (tables : String → MessageTable) (owner : Owner) (x₀ : Context)
      (reached : Reached x₀.config (EditsSources x₀.config)
        (Orderly (fun _ input => input) tables owner x₀) w)
      (digest : Function.Injective x₀.digest)
      (orderly : Orderly (fun _ input => input) tables owner x₀ x w)

section draws

variable {o : Outset} (h : DrawsAll x w report w' o s)
include h

theorem DrawsAll.length_eq : s.assets.length = o.session.assets.length := Collection.length_congr h.bare

theorem DrawsAll.mem_order (hi : i < s.assets.length) : i ∈ o.order :=
  h.made.mem_order.mpr (h.length_eq ▸ hi)

theorem DrawsAll.refers : Refers s.assets := by
  intro i hi hk m hm d hd
  obtain ⟨_, hlt, hr⟩ := h.made.dependency_of_bare h.bare (h.length_eq ▸ hi) hk hm hd
  exact ⟨h.length_eq ▸ hlt, hr⟩

theorem DrawsAll.placed (hvalid : x.config.validate = .ok x.config) (hi : i < s.assets.length)
    (hk : (s.assets.get i).kind ≠ .markup) : (s.assets.get i).Placed x.config := by
  have hid := Asset.identity_eq_of_bare (Collection.bare_get_congr h.bare i)
  refine Asset.placed_congr hid.symm (h.made.placed_of_valid hvalid h.wellFormed (h.length_eq ▸ hi) ?_)
  rwa [← (Asset.identity_eq_iff.mp hid).1]

end draws

/-- An answer for a link is the relative link to the target of the image. -/
theorem answer_imagePath {scene : Scene} {m : Occurrence} {path : String} {d : Nat} {image : Path}
    (hm : m.directive = .imagePath path) (hd : m.dependency? = some d)
    (himage : (scene.assets.get d).target = some image) (t : Answering) :
    (scene.answer m t).1 = Naming.relativeLink image (scene.asset.targetDir scene.context.config) := by
  unfold Scene.answer
  rw [hm]
  dsimp only
  unfold Scene.link Scene.withTarget
  rw [hd]
  dsimp only
  rw [himage]

/-- After a build in which no asset failed, a link to an image leads to the image's target from the
directory of the target of the stylesheet that asks for it, and stands in this form in the target of
every stylesheet that includes that one, through any number of others. -/
theorem link_of_build (hvalid : x.config.validate = .ok x.config) (hanchored : x.config.Anchored)
    (hprocessor : x.processor = ({} : Commands).processor) (hstartable : Startable x w)
    (hb : build x w = (.ok report, w')) (hok : report.hasFailures = false) :
    ∃ o s, outset? x w = some o ∧ compileAll x o.session o.order = (.ok report.assets, s) ∧
      List.Forall₂ (fun i e => e = assetReport (s.assets.get i) e.outcome e.error) o.order
        report.assets ∧
      ∀ i j m path d before behind, (s.assets.get i).kind = .stylesheet →
        Carries x w'.files s.assets i j m before behind →
        m.directive = .imagePath path → m.dependency? = some d →
        i ∈ o.order ∧ j ∈ o.order ∧ d ∈ o.order ∧ (s.assets.get d).kind = .image ∧
        ∃ target own image text link, (s.assets.get i).target = some target ∧
          (s.assets.get j).target = some own ∧ (s.assets.get d).target = some image ∧
          w'.files.readText target = .ok text ∧ text.toList = before ++ String.toList link ++ behind ∧
          (⟨link⟩ : Path).resolve (own.resolve w'.files.home).dropLast = image.resolve w'.files.home := by
  have hdraws : ∃ o s, DrawsAll x w report w' o s := by
    cases hstartable with
    | fresh wellFormed rows fingerprints =>
      exact drawn_of_blank hvalid hprocessor fingerprints wellFormed rows hb hok
    | continued tables owner x₀ reached digest orderly =>
      exact drawn_of_orderly reached digest orderly hb hok
  obtain ⟨o, s, hdraws⟩ := hdraws
  have hkeeps : x.processor.KeepsFiles := by
    rw [hprocessor, Commands.processor_empty]
    exact Processor.keepsFiles_ofFunction _
  refine ⟨o, s, hdraws.outset, hdraws.run, forall₂_report hkeeps hdraws.made.nodup hdraws.run,
    fun i j m path d before behind hk hcarries hdirective hdependency => ?_⟩
  obtain ⟨target, text, t, htarget, hread, hj, hkj, hm, htext⟩ := hcarries.exists_text
    (fun k hk => hdraws.drawn k (hdraws.mem_order hk)) hdraws.refers hk (by rw [hdirective]; rfl)
  obtain ⟨hd, r, hr, hkd⟩ := hdraws.refers j hj hkj m hm d hdependency
  rw [hdirective] at hr
  obtain rfl := Option.some.inj hr
  obtain ⟨fp?, hflat, hown⟩ := (hdraws.drawn j (hdraws.mem_order hj)).target
  obtain ⟨fp?', hflat', himage⟩ := (hdraws.drawn d (hdraws.mem_order hd)).target
  refine ⟨hdraws.mem_order hcarries.lt, hdraws.mem_order hj, hdraws.mem_order hd, hkd, target, _, _, text,
    _, htarget, hown, himage, hread, htext, ?_⟩
  rw [answer_imagePath hdirective hdependency himage t]
  exact Asset.resolve_link (hdraws.placed hvalid hj (by rw [hkj]; nofun))
    (hdraws.placed hvalid hd (by rw [hkd]; nofun)) hanchored hkj hkd hflat hflat'

/-! ### A link that is carried away -/

/-- Roots that lie side by side, with the cache beside them. -/
def rooted : Config where
  stylesheets := ⟨⟨"stylesheets"⟩, ⟨"/site/out/stylesheets"⟩, []⟩
  images := ⟨⟨"images"⟩, ⟨"/site/out/images"⟩, []⟩
  cache := ⟨"/site/build"⟩

/-- A stylesheet that includes a partial, which asks for a link. -/
def linkedSheets : Workspace where
  files := {
    home := ["site"]
    entries := [
      (["site"], .directory 0),
      (["site", "images"], .directory 0),
      (["site", "images", "a.png"], Sample.source ""),
      (["site", "stylesheets"], .directory 0),
      (["site", "stylesheets", "_part.css"], Sample.source "[%= image_path \"a.png\" %]"),
      (["site", "stylesheets", "site.css"], Sample.source "b/*= include part.css */")] }
  clock := 10

/-- The portions that a text of one directive comes to, with the text before it. -/
def around (before : String) (o : Occurrence) (output : String) : List Portion :=
  [⟨none, before.toList⟩, ⟨some o, output.toList⟩, ⟨none, []⟩]

def linkOccurrence : Occurrence := ⟨⟨0, 25⟩, .imagePath "a.png", some 2⟩

def partOccurrence : Occurrence := ⟨⟨1, 24⟩, .embed "part.css" false, some 0⟩

set_option maxRecDepth 100000 in
theorem outlines_linkedSheets : outlines? (Sample.context rooted) linkedSheets = some [
    ⟨.stylesheet, true, some ⟨"/site/build/partials/stylesheets/_part.css"⟩,
      some "../../../out/images/a-0123456789.png",
      around "" linkOccurrence "../../../out/images/a-0123456789.png"⟩,
    ⟨.stylesheet, false, some ⟨"/site/out/stylesheets/site-0123456789.css"⟩,
      some "b../../../out/images/a-0123456789.png",
      around "b" partOccurrence "../../../out/images/a-0123456789.png"⟩,
    ⟨.image, false, some ⟨"/site/out/images/a-0123456789.png"⟩, some "", []⟩] := by
  decide +kernel

theorem rooted_valid : rooted.validate = .ok rooted := by decide +kernel

theorem rooted_anchored : rooted.Anchored :=
  ⟨by decide +kernel, by decide +kernel, by decide +kernel⟩

theorem startable_linkedSheets : Startable (Sample.context rooted) linkedSheets := by
  have hform : IsFingerprint "0123456789" := by decide
  exact .fresh (by decide +kernel) (by decide +kernel) fun _ _ => hform

/-- The link of the partial is carried into the target of the stylesheet that includes it. -/
theorem exists_carried_linkedSheets : ∃ report w' o,
    build (Sample.context rooted) linkedSheets = (.ok report, w') ∧ report.hasFailures = false ∧
    outset? (Sample.context rooted) linkedSheets = some o ∧
    let as := (compileAll (Sample.context rooted) o.session o.order).2.assets
    (as.get 1).kind = .stylesheet ∧ (as.get 1).isPartial = false ∧
      (as.get 1).target = some ⟨"/site/out/stylesheets/site-0123456789.css"⟩ ∧
      (as.get 2).target = some ⟨"/site/out/images/a-0123456789.png"⟩ ∧
      w'.files.readText ⟨"/site/out/stylesheets/site-0123456789.css"⟩ =
        .ok "b../../../out/images/a-0123456789.png" ∧
      Carries (Sample.context rooted) w'.files as 1 0 linkOccurrence ['b'] [] := by
  have hrows : Cache.Holds linkedSheets.files rooted.cache [] := Cache.holds_nil (by decide +kernel)
  obtain ⟨report, w', o, hb, hok, hout, hall⟩ :=
    build_of_outlines (x := Sample.context rooted) hrows outlines_linkedSheets
  refine ⟨report, w', o, hb, hok, hout, ?_⟩
  have hpart := hall 0 _ rfl
  have hsite := hall 1 _ rfl
  have himage := hall 2 _ rfl
  have htarget := (congrArg Outline.target hsite).symm
  have htext := (congrArg Outline.text hsite).symm
  dsimp only [outline] at htarget htext
  rw [htarget, Option.bind_some] at htext
  have hread : w'.files.readText ⟨"/site/out/stylesheets/site-0123456789.css"⟩ =
      .ok "b../../../out/images/a-0123456789.png" := by
    revert htext
    cases w'.files.readText ⟨"/site/out/stylesheets/site-0123456789.css"⟩ <;> simp [Except.toOption]
  refine ⟨(congrArg Outline.kind hsite).symm, (congrArg Outline.isPartial hsite).symm, htarget,
    (congrArg Outline.target himage).symm, hread, ?_⟩
  have hinner := Carries.written 0 linkOccurrence [⟨none, []⟩] [⟨none, []⟩] _
    (congrArg Outline.portions hpart).symm
  exact .included 1 0 0 partOccurrence linkOccurrence _ [⟨none, ['b']⟩] [⟨none, []⟩] _ _ _
    (congrArg Outline.portions hsite).symm rfl rfl hinner

/-- A link that is carried away does not lead to the image from where it ends up. -/
theorem exists_misled_link :
    rooted.validate = .ok rooted ∧ rooted.Anchored ∧
    (Sample.context rooted).processor = ({} : Commands).processor ∧
    Startable (Sample.context rooted) linkedSheets ∧
    ∃ report w' o, build (Sample.context rooted) linkedSheets = (.ok report, w') ∧
      report.hasFailures = false ∧ outset? (Sample.context rooted) linkedSheets = some o ∧
      let as := (compileAll (Sample.context rooted) o.session o.order).2.assets
      let link := "../../../out/images/a-0123456789.png"
      ∃ target image, (as.get 1).kind = .stylesheet ∧ (as.get 1).isPartial = false ∧
        (as.get 1).target = some target ∧ (as.get 2).target = some image ∧
        linkOccurrence.directive = .imagePath "a.png" ∧ linkOccurrence.dependency? = some 2 ∧
        Carries (Sample.context rooted) w'.files as 1 0 linkOccurrence ['b'] [] ∧
        w'.files.readText target = .ok ("b" ++ link) ∧
        (⟨link⟩ : Path).resolve (target.resolve w'.files.home).dropLast ≠ image.resolve w'.files.home := by
  obtain ⟨report, w', o, hb, hok, hout, hk, hpartial, htarget, himage, htext, hcarries⟩ :=
    exists_carried_linkedSheets
  refine ⟨rooted_valid, rooted_anchored, Commands.processor_empty.symm, startable_linkedSheets,
    report, w', o, hb, hok, hout, _, _, hk, hpartial, htarget, himage, rfl, rfl, hcarries, htext, ?_⟩
  have hsite (home : Location) :
      (⟨"/site/out/stylesheets/site-0123456789.css"⟩ : Path).resolve home =
        ["site", "out", "stylesheets", "site-0123456789.css"] := rfl
  have hsource (home : Location) : (⟨"/site/out/images/a-0123456789.png"⟩ : Path).resolve home =
      ["site", "out", "images", "a-0123456789.png"] := rfl
  rw [hsite, hsource]
  decide +kernel

/-- The link of the partial leads to the image from the directory of the partial's own target. -/
theorem link_of_build_included : ∃ report w' o s,
    build (Sample.context rooted) linkedSheets = (.ok report, w') ∧
    outset? (Sample.context rooted) linkedSheets = some o ∧
    compileAll (Sample.context rooted) o.session o.order = (.ok report.assets, s) ∧
    Carries (Sample.context rooted) w'.files s.assets 1 0 linkOccurrence ['b'] [] ∧
    ∃ target own image text link, (s.assets.get 1).target = some target ∧
      (s.assets.get 0).target = some own ∧ (s.assets.get 2).target = some image ∧
      w'.files.readText target = .ok text ∧ text.toList = ['b'] ++ String.toList link ++ [] ∧
      (⟨link⟩ : Path).resolve (own.resolve w'.files.home).dropLast = image.resolve w'.files.home := by
  obtain ⟨report, w', o, hb, hok, hout, hk, _, _, _, _, hcarries⟩ := exists_carried_linkedSheets
  obtain ⟨o', s, hout', hrun, _, hlinks⟩ := link_of_build rooted_valid rooted_anchored
    Commands.processor_empty.symm startable_linkedSheets hb hok
  obtain rfl : o = o' := Option.some.inj (hout.symm.trans hout')
  rw [hrun] at hk hcarries
  obtain ⟨_, _, _, _, hleads⟩ := hlinks _ _ _ _ _ _ _ hk hcarries rfl rfl
  exact ⟨report, w', o, s, hb, hout, hrun, hcarries, hleads⟩

end Build

end AssetCompiler
