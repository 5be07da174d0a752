import AssetCompiler.Proofs.Build.Current
import AssetCompiler.Proofs.Build.Linked

/-! # Stylesheets as they are drawn

A stylesheet has no language, so its text comes to the same as long as the targets that it refers to
and the texts of those that it includes are the same. In a run that starts without rows every asset
is written, and nothing that is written later changes the target of a stylesheet. So at the end of
such a run every stylesheet is drawn as it would be drawn then.
-/
namespace AssetCompiler

open AssetCompiler.Tree (Keeps)
open Plan (unread)
open Asset (FlatFingerprint)

namespace Produce.Scene

variable {s s' : Scene} {o : Occurrence} {os : List Occurrence}

/-- Without a language no answer depends on the tables that were read before. -/
theorem render_eq (hconfig : s'.context.config = s.context.config)
    (hsettings : s'.context.settings = s.context.settings)
    (hid : s'.asset.identity = s.asset.identity) (hlanguage : s.asset.language = none)
    (h : ∀ o ∈ os, Meets s s' o o) (text : String) (t t' : Answering) :
    (render s'.lookup text os t').1 = (render s.lookup text os t).1 := by
  have hkin : Kin s s' := ⟨by rw [hconfig], by rw [hconfig], hsettings,
    targetDir_congr hid (congrArg Config.lasting hconfig)⟩
  have hmessage (key : String) (t t' : Answering) : (s'.message key t').1 = (s.message key t).1 := by
    unfold Scene.message
    rw [hlanguage, (Asset.identity_eq_iff.mp hid).2.2, hlanguage]
    rfl
  have hmeets : List.Forall₂ (Meets s s') os os := List.forall₂_same.mpr h
  exact (hkin.render (R := fun _ _ => True) hmeets (fun key u u' _ => hmessage key u u')
    (fun _ _ _ _ _ => trivial) (fun _ _ _ _ => trivial) trivial text).1

/-- The state of answering in front of a text, with no table read. -/
def start (s : Scene) : Answering := { catalog := { directory? := s.context.config.catalog } }

def drawing (s : Scene) (text : String) : String :=
  (render s.lookup text s.asset.occurrences s.start).1

end Produce.Scene

/-- Without command lines, every step passes its input on. -/
theorem Commands.processor_empty :
    ({} : Commands).processor = .ofFunction fun _ _ input => .ok input := by
  funext calls step input disk
  cases step <;> rfl

theorem Commands.follows_processor_empty : ({} : Commands).processor.Follows fun _ input => input := by
  rw [processor_empty]
  exact fun _ _ _ _ _ h => (Except.ok.inj h).symm

namespace Produce

/-- Where every step passes its input on, the content of a target is the text that its asset's source
comes to. -/
theorem bytes_of_content {s : Scene} {catalog : Catalog} {w : Workspace} {bytes : ByteArray} {text : String}
    (hp : s.context.processor.Follows fun _ input => input)
    (hok : (content s catalog w).1 = .ok bytes) (htext : s.asset.content = some text) :
    bytes = (render s.lookup text s.asset.occurrences { catalog }).1.toUTF8 := by
  have hout := output_of_content hp hok
  unfold Scene.output Scene.expand at hout
  rw [htext] at hout
  simp only [Except.map, Except.ok.injEq] at hout
  rw [← hout]
  exact List.foldl_fixed _

end Produce

namespace Plan.Made

variable {c : Config} {files : Tree} {p : Plan} {i j : Nat} {fp? fp?' : Option String}

theorem language_eq_none (h : Made c files p) (hvalid : c.validate = .ok c) (hi : i < p.assets.length)
    (hk : (p.assets.get i).kind ≠ .markup) : (p.assets.get i).language = none := by
  obtain ⟨b, hb, hid⟩ := Collection.exists_mem_ofFiles_of_identities h.identities hi
  obtain ⟨hkind, _, hlanguage⟩ := Asset.identity_eq_iff.mp hid
  rw [← hlanguage]
  exact Collection.language_eq_none_of_mem_ofFiles hvalid hb (hkind ▸ hk)

theorem placed_of_valid (h : Made c files p) (hvalid : c.validate = .ok c) (hw : files.WellFormed)
    (hi : i < p.assets.length) (hk : (p.assets.get i).kind ≠ .markup) : (p.assets.get i).Placed c := by
  have hplaced := h.exists_placedAt hw (Collection.mem_get hi)
  rwa [← h.language_eq_none hvalid hi hk] at hplaced

/-- No other asset has the target of a stylesheet. -/
theorem resolve_target_ne (h : Made c files p) (hvalid : c.validate = .ok c) (hw : files.WellFormed)
    (hi : i < p.assets.length) (hj : j < p.assets.length) (hij : i ≠ j)
    (hk : (p.assets.get j).kind = .stylesheet) (hfp : (p.assets.get i).Takes fp?)
    (hfp' : (p.assets.get j).Takes fp?') (home : Location) :
    ((p.assets.get j).targetPath c fp?').resolve home ≠
      ((p.assets.get i).targetPath c fp?).resolve home := by
  intro he
  obtain ⟨_, _, _, hplaced⟩ := h.exists_placedAt hw (Collection.mem_get hi)
  obtain ⟨_, _, _, hplaced'⟩ := h.exists_placedAt hw (Collection.mem_get hj)
  have hends := Asset.endsIn_target hplaced hfp.flat home
  have hends' := Asset.endsIn_target hplaced' hfp'.flat home
  rw [he] at hends'
  have hkind := hends.kind_eq hends'
  have hmarkup : (p.assets.get j).kind ≠ .markup := by
    rw [hk]
    decide
  have hnone := h.language_eq_none hvalid hj hmarkup
  have hnone' := h.language_eq_none hvalid hi (hkind ▸ hmarkup)
  have hsource := Asset.source_eq_of_resolve (h.placed_of_valid hvalid hw hj hmarkup)
    (h.placed_of_valid hvalid hw hi (hkind ▸ hmarkup)) hk hnone hnone' hfp' hfp he
  refine hij (h.distinct.eq_of_hasIdentity hi hj (Asset.hasIdentity_self _) ?_)
  rw [← hsource, hnone', ← hnone]
  exact Asset.hasIdentity_self _

end Plan.Made

namespace Build

open Session
open Produce (Scene)

variable {x : Context} {files files' : Tree} {as as' : Collection} {j : Nat}

/-- An asset with its target. The target of a stylesheet holds what its text comes to, from the
targets that there are. -/
structure Drawn (x : Context) (files : Tree) (as : Collection) (j : Nat) : Prop where
  target : ∃ fp?, FlatFingerprint fp? ∧ (as.get j).target = some ((as.get j).targetPath x.config fp?)
  stored : (as.get j).kind = .stylesheet → ∀ target, (as.get j).target = some target →
    ∃ f, files.file target = .ok f ∧ ∀ text, (as.get j).content = some text →
      f.bytes = ((Scene.mk x files as (as.get j)).drawing text).toUTF8

theorem meets_of_same {a a' : Asset} {o : Occurrence}
    (h : ∀ d, o.dependency? = some d → as'.get d = as.get d ∧ (o.directive.isEmbed = true →
      ∀ target, (as.get d).target = some target → files'.readText target = files.readText target)) :
    Scene.Meets ⟨x, files, as, a⟩ ⟨x, files', as', a'⟩ o o := by
  have hreached : (Scene.mk x files' as' a').reached? o = (Scene.mk x files as a).reached? o := by
    unfold Scene.reached?
    cases hd : o.dependency? with
    | none => rfl
    | some d => simp only [Option.bind_some, (h d hd).1]
  refine ⟨rfl, rfl, hreached, fun hembed r hr => ?_⟩
  obtain ⟨d, hd, hr⟩ := Option.bind_eq_some_iff.mp hr
  obtain ⟨target, htarget, rfl⟩ := Option.map_eq_some_iff.mp hr
  exact (h d hd).2 hembed target htarget

/-- An asset stays drawn as long as its target stays, and those of the stylesheets that it includes. -/
theorem Drawn.congr (h : Drawn x files as j) (hget : as'.get j = as.get j)
    (hlanguage : (as.get j).kind = .stylesheet → (as.get j).language = none)
    (hfile : (as.get j).kind = .stylesheet → ∀ target, (as.get j).target = some target →
      ∃ f, files.file target = .ok f ∧ files'.file target = .ok f)
    (hdeps : (as.get j).kind = .stylesheet → ∀ o ∈ (as.get j).occurrences, ∀ d, o.dependency? = some d →
      as'.get d = as.get d ∧ (o.directive.isEmbed = true → ∀ target, (as.get d).target = some target →
        files'.readText target = files.readText target)) : Drawn x files' as' j := by
  refine ⟨hget ▸ h.target, fun hk target htarget => ?_⟩
  rw [hget] at hk htarget ⊢
  obtain ⟨f, hf, hbytes⟩ := h.stored hk target htarget
  obtain ⟨g, hg, hf'⟩ := hfile hk target htarget
  obtain rfl : f = g := Except.ok.inj (hf.symm.trans hg)
  refine ⟨f, hf', fun text htext => ?_⟩
  rw [hbytes text htext]
  refine congrArg String.toUTF8 (Eq.symm ?_)
  unfold Scene.drawing
  refine Scene.render_eq ?_ ?_ ?_ ?_ (fun o ho => ?_) text _ _
  · rfl
  · rfl
  · rfl
  · exact hlanguage hk
  exact meets_of_same (hdeps hk o ho)

/-- What is drawn stays so where no target of a stylesheet changes. -/
theorem drawn_of_keeps {order : List Nat} {changed : Location → Prop} (hd : ∀ j ∈ order, Drawn x files as j)
    (hk : Keeps changed files files')
    (hsheets : ∀ j ∈ order, (as.get j).kind = .stylesheet → (as.get j).language = none ∧
      ∀ target, (as.get j).target = some target → ¬changed (target.resolve files.home))
    (hdeps : ∀ j ∈ order, (as.get j).kind = .stylesheet → ∀ o ∈ (as.get j).occurrences,
      ∀ d, o.dependency? = some d → o.directive.isEmbed = true →
        d ∈ order ∧ (as.get d).kind = .stylesheet) :
    ∀ j ∈ order, Drawn x files' as j := by
  have hfile {j : Nat} (hj : j ∈ order) (hkind : (as.get j).kind = .stylesheet) :
      ∀ target, (as.get j).target = some target →
        ∃ f, files.file target = .ok f ∧ files'.file target = .ok f := by
    intro target htarget
    obtain ⟨f, hf, _⟩ := (hd j hj).stored hkind target htarget
    exact ⟨f, hf, hk.file hf ((hsheets j hj hkind).2 target htarget)⟩
  intro j hj
  refine (hd j hj).congr rfl (fun hkind => (hsheets j hj hkind).1) (hfile hj) fun hkind o ho d hod =>
    ⟨rfl, fun hembed target htarget => ?_⟩
  obtain ⟨hdo, hdk⟩ := hdeps j hj hkind o ho d hod hembed
  obtain ⟨f, hf, hf'⟩ := hfile hdo hdk target htarget
  refine Tree.readText_congr ?_
  rw [Tree.read_eq_ok_iff.mpr ⟨f, hf, rfl⟩, Tree.read_eq_ok_iff.mpr ⟨f, hf', rfl⟩]

/-! ### Runs without rows -/

/-- A session without rows, about to compile what is planned, in a valid configuration without
command lines. -/
structure Anew (x : Context) (s : Session) (order : List Nat) : Prop where
  valid : x.config.validate = .ok x.config
  processor : x.processor = ({} : Commands).processor
  fingerprints : ∀ draw bytes, IsFingerprint (x.fingerprint draw bytes)
  wellFormed : s.work.files.WellFormed
  made : Plan.Made x.config s.work.files ⟨s.assets, order⟩
  rows : s.cache.rows = []

/-- What is known in the middle of a run that started without rows. -/
structure Drafting (x : Context) (s₀ : Session) (done : List Nat) (s : Session) : Prop where
  bare : s.assets.bare = s₀.assets.bare
  home : s.work.files.home = s₀.work.files.home
  directory : s.cache.directory = s₀.cache.directory
  rows : ∀ j < s₀.assets.length, j ∉ done → s.row? j = none
  takes : ∀ j ∈ done, ∀ target, (s.assets.get j).target = some target →
    ∃ fp?, (s₀.assets.get j).Takes fp? ∧ target = (s₀.assets.get j).targetPath x.config fp?
  drawn : ∀ j ∈ done, Drawn x s.work.files s.assets j

section anew

variable {s₀ s s' : Session} {order front back : List Nat} {i : Nat} {report : AssetReport}

theorem Anew.not_mem_front (h : Anew x s₀ order) (he : order = front ++ i :: back) : i ∉ front := by
  have hnodup := h.made.nodup
  rw [he] at hnodup
  exact fun hf => (List.nodup_append.mp hnodup).2.2 i hf i List.mem_cons_self rfl

theorem Anew.start (h : Anew x s₀ order) : Drafting x s₀ [] s₀ where
  bare := rfl
  home := rfl
  directory := rfl
  rows j _ _ := by rw [row?, Cache.find?, h.rows]; rfl
  takes _ hj := by cases hj
  drawn _ hj := by cases hj

/-- A compile of a run that started without rows writes its asset. -/
theorem Drafting.exists_written (h : Drafting x s₀ front s) (hi : i < s₀.assets.length) (hfront : i ∉ front)
    (hc : Compiles x s i (.ok report) s') (hok : report.outcome ≠ .failed) :
    ∃ target bytes, Written x s i target bytes s' ∧
      Keeps (· = target.resolve s₀.work.files.home) s.work.files s'.work.files := by
  have hnone := h.rows i hi hfront
  cases hc with
  | cached r lines found => rw [hnone] at found; cases found
  | failed e s' => exact absurd rfl hok
  | written target bytes s' w =>
    refine ⟨target, bytes, w, w.keeps.mono ?_⟩
    rintro l (rfl | ⟨r, hr, _⟩)
    · rw [h.home]
    · rw [hnone] at hr
      cases hr

theorem Drafting.identity_eq (h : Drafting x s₀ front s) (j : Nat) :
    (s.assets.get j).identity = (s₀.assets.get j).identity :=
  Asset.identity_eq_of_bare (Collection.bare_get_congr h.bare j)

theorem Anew.takes (h : Anew x s₀ order) (hd : Drafting x s₀ front s) {target : Path}
    (ht : IsTarget x (s.assets.get i) target) :
    ∃ fp?, (s₀.assets.get i).Takes fp? ∧ target = (s₀.assets.get i).targetPath x.config fp? := by
  obtain ⟨fp?, htarget, hsome, hdraw⟩ := ht
  rw [Asset.isFingerprinted_congr (hd.identity_eq i)] at hsome
  rw [Asset.targetPath_congr (hd.identity_eq i)] at htarget
  refine ⟨fp?, ⟨hsome, fun f hf => ?_⟩, htarget⟩
  obtain ⟨draw, bytes, rfl⟩ := hdraw f hf
  exact h.fingerprints draw bytes

theorem Anew.language_eq_none (h : Anew x s₀ order) (hd : Drafting x s₀ front s)
    (hj : j < s₀.assets.length) (hk : (s.assets.get j).kind = .stylesheet) :
    (s.assets.get j).language = none := by
  obtain ⟨hkind, _, hlanguage⟩ := Asset.identity_eq_iff.mp (hd.identity_eq j)
  rw [hlanguage]
  exact h.made.language_eq_none h.valid hj (by rw [← hkind, hk]; decide)

section written

variable (h : Anew x s₀ order) (he : order = front ++ i :: back) (hd : Drafting x s₀ front s)
  {target : Path} {bytes : ByteArray} (w : Written x s i target bytes s')
  (hkeeps : Keeps (· = target.resolve s₀.work.files.home) s.work.files s'.work.files)
include h he hd w hkeeps

/-- The target of a stylesheet stays when another asset is written. -/
theorem file_of_written (hj : j ∈ front) (hk : (s.assets.get j).kind = .stylesheet) {sheet : Path}
    (hsheet : (s.assets.get j).target = some sheet) :
    ∃ f, s.work.files.file sheet = .ok f ∧ s'.work.files.file sheet = .ok f := by
  have hmem {k : Nat} (hk : k ∈ order) : k < s₀.assets.length := h.made.mem_order.mp hk
  obtain ⟨f, hf, _⟩ := (hd.drawn j hj).stored hk sheet hsheet
  obtain ⟨fp?, hfp, rfl⟩ := hd.takes j hj sheet hsheet
  obtain ⟨fp?', hfp', htarget⟩ := h.takes hd w.isTarget
  have hij : i ≠ j := fun heq => h.not_mem_front he (heq ▸ hj)
  have hkind : (s₀.assets.get j).kind = .stylesheet :=
    (Asset.identity_eq_iff.mp (hd.identity_eq j)).1 ▸ hk
  refine ⟨f, hf, hkeeps.file hf ?_⟩
  rw [hd.home, htarget]
  exact h.made.resolve_target_ne h.valid h.wellFormed (hmem (by simp [he])) (hmem (by simp [he, hj]))
    hij hkind hfp' hfp _

/-- Writing an asset changes nothing that a stylesheet refers to whose dependencies come before. -/
theorem same_of_written (hj : j < s₀.assets.length) (hk : (s.assets.get j).kind = .stylesheet)
    (hdeps : ∀ d ∈ (s₀.assets.get j).dependencies, d ∈ front) :
    ∀ o ∈ (s.assets.get j).occurrences, ∀ d, o.dependency? = some d →
      s'.assets.get d = s.assets.get d ∧ (o.directive.isEmbed = true →
        ∀ sheet, (s.assets.get d).target = some sheet →
          s'.work.files.readText sheet = s.work.files.readText sheet) := by
  intro o ho d hod
  obtain ⟨hmem, _, r, hr, hrkind⟩ := h.made.dependency_of_bare hd.bare hj hk ho hod
  have hfront := hdeps d hmem
  refine ⟨?_, fun hembed sheet hsheet => ?_⟩
  · rw [w.assets]
    exact Collection.get_update_of_ne (fun hsame : i = d => h.not_mem_front he (hsame ▸ hfront)) _
  · have hsheetKind : (s.assets.get d).kind = .stylesheet := by
      obtain ⟨path, hpath⟩ := Directive.reference?_of_isEmbed hembed .stylesheet
      rw [hpath] at hr
      rw [hrkind, ← Option.some.inj hr]
    obtain ⟨f, hf, hf'⟩ := file_of_written h he hd w hkeeps hfront hsheetKind hsheet
    refine Tree.readText_congr ?_
    rw [Tree.read_eq_ok_iff.mpr ⟨f, hf, rfl⟩, Tree.read_eq_ok_iff.mpr ⟨f, hf', rfl⟩]

/-- An asset that was written just now is drawn. -/
theorem drawn_of_written (hi : i < s.assets.length) : Drawn x s'.work.files s'.assets i := by
  have hget := w.get_self hi
  have hid : (s'.assets.get i).identity = (s.assets.get i).identity := by
    rw [hget]
    rfl
  have hi₀ : i < s₀.assets.length := h.made.mem_order.mp (by simp [he])
  obtain ⟨fp?, hfp, htarget⟩ := h.takes hd w.isTarget
  rw [← Asset.targetPath_congr (hd.identity_eq i), ← Asset.targetPath_congr hid] at htarget
  refine ⟨⟨fp?, hfp.flat, by rw [← htarget, hget]⟩, fun hk sheet hsheet => ?_⟩
  obtain rfl : target = sheet := by
    rw [hget] at hsheet
    exact Option.some.inj hsheet
  obtain ⟨f, hf, rfl⟩ := w.file
  refine ⟨f, hf, fun text htext => ?_⟩
  have hprocessor : (s.scene x i).context.processor.Follows fun _ input => input :=
    h.processor ▸ Commands.follows_processor_empty
  have hcontent : (s.scene x i).asset.content = some text := by
    rw [hget] at htext
    exact htext
  rw [Produce.bytes_of_content hprocessor w.content hcontent]
  have hkind : (s.assets.get i).kind = .stylesheet := (Asset.identity_eq_iff.mp hid).1 ▸ hk
  have hsame := same_of_written h he hd w hkeeps hi₀ hkind fun d hdep =>
    h.made.dependency_mem_front he hdep
  have hoccurrences : (s'.assets.get i).occurrences = (s.assets.get i).occurrences := by rw [hget]
  unfold Scene.drawing
  refine congrArg String.toUTF8 (Eq.symm ?_)
  rw [hoccurrences]
  refine Scene.render_eq ?_ ?_ hid (h.language_eq_none hd hi₀ hkind)
    (fun o ho => meets_of_same (hsame o ho)) text _ _
  · rfl
  · rfl

end written

/-- One compile more in a run that started without rows. -/
theorem drafting_step (h : Anew x s₀ order) (he : order = front ++ i :: back)
    (hd : Drafting x s₀ front s) (hc : Compiles x s i (.ok report) s')
    (hok : report.outcome ≠ .failed) : Drafting x s₀ (front ++ [i]) s' := by
  have hlt {j : Nat} (hj : j ∈ order) : j < s₀.assets.length := h.made.mem_order.mp hj
  have hi : i < s₀.assets.length := hlt (by simp [he])
  have hlength : s.assets.length = s₀.assets.length := Collection.length_congr hd.bare
  have hfront := h.not_mem_front he
  have hother {j : Nat} (hj : j ∈ front) : s'.assets.get j = s.assets.get j :=
    hc.get_of_ne fun heq => hfront (heq ▸ hj)
  obtain ⟨target, bytes, w, hkeeps⟩ := hd.exists_written hi hfront hc hok
  have hget := w.get_self (hlength ▸ hi)
  obtain ⟨fp?, hfp, htarget⟩ := h.takes hd w.isTarget
  refine ⟨hc.bare.trans hd.bare, hkeeps.grows.home.trans hd.home, ?_, fun j hj hjd => ?_,
    fun j hj => ?_, fun j hj => ?_⟩
  · obtain ⟨_, _, hcache⟩ := w.record
    rw [hcache]
    exact hd.directory
  · rw [List.mem_append, List.mem_singleton, not_or] at hjd
    have hdistinct : s.assets.Distinct :=
      Collection.distinct_congr (Collection.identities_of_bare hd.bare).symm h.made.distinct
    rw [hc.row?_of_ne hdistinct (hlength ▸ hi) (hlength ▸ hj) (Ne.symm hjd.2)]
    exact hd.rows j hj hjd.1
  · rcases List.mem_append.mp hj with hj | hj
    · rw [hother hj]
      exact hd.takes j hj
    · obtain rfl := List.mem_singleton.mp hj
      rw [hget]
      intro sheet hsheet
      rw [← Option.some.inj hsheet]
      exact ⟨fp?, hfp, htarget⟩
  · rcases List.mem_append.mp hj with hj | hj
    · have hjo : j ∈ order := by simp [he, hj]
      refine (hd.drawn j hj).congr (hother hj) (h.language_eq_none hd (hlt hjo)) (fun hk sheet hsheet => ?_)
        fun hk => ?_
      · exact file_of_written h he hd w hkeeps hj hk hsheet
      · refine same_of_written h he hd w hkeeps (hlt hjo) hk fun d hdep => ?_
        obtain ⟨before, after, rfl⟩ := List.append_of_mem hj
        have hplace : order = before ++ j :: (after ++ i :: back) := by simp [he]
        exact List.mem_append_left _ (h.made.dependency_mem_front hplace hdep)
    · rw [List.mem_singleton.mp hj]
      exact drawn_of_written h he hd w hkeeps (hlength ▸ hi)

theorem drafting_run (h : Anew x s₀ order) {reports : List AssetReport}
    (hrun : compileAll x s₀ order = (.ok reports, s)) (hok : ∀ e ∈ reports, e.outcome ≠ .failed) :
    Drafting x s₀ order s := by
  have hprocessor : x.processor.KeepsFiles := by
    rw [h.processor, Commands.processor_empty]
    exact Processor.keepsFiles_ofFunction _
  refine (run_induction (P := fun done reports t => (∀ e ∈ reports, e.outcome ≠ .failed) →
    Drafting x s₀ done t) (fun _ => h.start) ?_).2 _ _ hrun hok
  intro front i back before report t t' he _ hbefore hone hall
  have hc := compiles_compileOne hprocessor t i
  rw [hone] at hc
  exact drafting_step h he (hbefore fun e hmem => hall e (List.mem_append_left _ hmem)) hc
    (hall report (by simp))

end anew

/-! ### Builds without rows -/

variable {w w' w1 : Workspace} {cache : Cache} {o : Outset} {report : BuildReport} {s : Session}

/-- A build that leaves every asset drawn. -/
structure DrawsAll (x : Context) (w : Workspace) (report : BuildReport) (w' : Workspace) (o : Outset)
    (s : Session) : Prop where
  outset : outset? x w = some o
  run : compileAll x o.session o.order = (.ok report.assets, s)
  made : Plan.Made x.config o.session.work.files ⟨o.session.assets, o.order⟩
  wellFormed : o.session.work.files.WellFormed
  bare : s.assets.bare = o.session.assets.bare
  drawn : ∀ j ∈ o.order, Drawn x w'.files s.assets j

/-- After a build that started without rows and in which no asset failed, every asset is drawn. -/
theorem drawn_of_blank (hvalid : x.config.validate = .ok x.config)
    (hprocessor : x.processor = ({} : Commands).processor)
    (hfingerprints : ∀ draw bytes, IsFingerprint (x.fingerprint draw bytes))
    (hw : w.files.WellFormed) (hrows : Cache.savedRows w.files x.config.cache = [])
    (hb : build x w = (.ok report, w')) (hok : report.hasFailures = false) :
    ∃ o s, DrawsAll x w report w' o s := by
  obtain ⟨o, ho⟩ := exists_outset_of_ok (congrArg Prod.fst hb)
  obtain ⟨cache, w1, hopened, hsets, hbuild⟩ := build_of_outset ho
  rw [hb] at hbuild
  obtain ⟨s, hrun, _⟩ := run_of_finish (congrArg Prod.fst hbuild.symm)
  have hwellFormed := hsets.keeps.wellFormed (hopened.keeps.wellFormed hw)
  have hempty : o.session.cache.rows = [] := by
    rw [hsets.rows, hopened.rows, hrows]
    rfl
  have hanew : Anew x o.session o.order :=
    ⟨hvalid, hprocessor, hfingerprints, hwellFormed, hsets.made, hempty⟩
  have hdrafting := drafting_run hanew hrun (BuildReport.hasFailures_eq_false_iff.mp hok)
  have hkeeps := keeps_finish hrun
    (hdrafting.directory.trans (hsets.directory.trans hopened.directory_eq)) hopened.directory_eq
  rw [← hbuild] at hkeeps
  refine ⟨o, s, ho, hrun, hsets.made, hwellFormed, hdrafting.bare,
    drawn_of_keeps hdrafting.drawn hkeeps (fun j hj hk => ?_) fun j hj hk o ho d hod hembed => ?_⟩
  · obtain ⟨hkind, _, hlanguage⟩ := Asset.identity_eq_iff.mp (hdrafting.identity_eq j)
    have hlt : j < o.session.assets.length := hsets.made.mem_order.mp hj
    have hmarkup : (o.session.assets.get j).kind ≠ .markup := by
      rw [← hkind, hk]
      decide
    have hplaced := Asset.placed_congr (hdrafting.identity_eq j).symm
      (hsets.made.placed_of_valid hvalid hwellFormed hlt hmarkup)
    refine ⟨hlanguage.trans (hsets.made.language_eq_none hvalid hlt hmarkup), fun target htarget => ?_⟩
    obtain ⟨fp?, hflat, hpath⟩ := (hdrafting.drawn j hj).target
    obtain rfl : target = _ := Option.some.inj (htarget.symm.trans hpath)
    rintro (hl | hl)
    · exact Asset.target_ne_lock hplaced hflat hl
    · exact Asset.target_ne_manifest hplaced hflat hl
  · obtain ⟨_, hd, r, hr, hkind⟩ := hsets.made.dependency_of_bare hdrafting.bare
      (hsets.made.mem_order.mp hj) hk ho hod
    obtain ⟨path, hpath⟩ := Directive.reference?_of_isEmbed hembed .stylesheet
    rw [hpath] at hr
    exact ⟨hsets.made.mem_order.mpr hd, by rw [hkind, ← Option.some.inj hr]⟩

/-! ### Builds in a history -/

section history

variable {tables : String → MessageTable} {owner : Owner} {out : Step → ByteArray → ByteArray}
  {x₀ : Context} {i : Nat}

theorem Ends.drawn {o : Outset} (h : Ends (fun _ input => input) tables owner x₀ x o s w')
    (hx : x₀.Continues x) (hinj : Function.Injective x₀.digest) (hi : i ∈ o.order) :
    Drawn x w'.files s.assets i := by
  obtain ⟨r, f, hget, hof, hf, hcontent⟩ := h.content hx hinj hi
  obtain ⟨fp?, hflat, _, hpath⟩ := hof.target
  refine ⟨⟨fp?, hflat, hpath ▸ hget⟩, fun _ target ht => ?_⟩
  obtain rfl : r.target = target := Option.some.inj (hget.symm.trans ht)
  have hfollows : (x.unfailing fun _ input => input).processor.Follows fun _ input => input :=
    fun _ _ _ _ _ h => (Except.ok.inj h).symm
  exact ⟨f, hf, fun text htext => (Produce.bytes_of_content hfollows hcontent htext :)⟩

/-- After an orderly build in which no asset failed, every asset is drawn, whatever builds and edits
came before. -/
theorem drawn_of_orderly
    (hw : Reached x₀.config (EditsSources x₀.config) (Orderly (fun _ input => input) tables owner x₀) w)
    (hinj : Function.Injective x₀.digest)
    (horderly : Orderly (fun _ input => input) tables owner x₀ x w)
    (hb : build x w = (.ok report, w')) (hok : report.hasFailures = false) :
    ∃ o s, DrawsAll x w report w' o s := by
  obtain ⟨o, s, hout, hrun, hends, _⟩ := ends_of_orderly hw hinj horderly hb hok
  exact ⟨o, s, hout, hrun, hends.made, hends.wellFormed, hends.bare,
    fun _ hj => hends.drawn horderly.continues hinj hj⟩

end history

end Build

end AssetCompiler
