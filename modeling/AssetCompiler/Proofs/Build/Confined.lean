import AssetCompiler.Proofs.Build.Untouched
import AssetCompiler.Proofs.Build.Performed

/-! # Writes are confined

Every file that a build writes or deletes lies below a root of targets, or is the lock or the
manifest. What a build deletes it has read from rows, so the rows have to be of that form too,
in every state that edits and builds lead to. Processors may use files of their own.
-/
namespace AssetCompiler

open AssetCompiler.Tree (Keeps Performs)
open Cache (Bound savedRows manifestAt lockPath manifestPath)

/-- Names lead from one path down to another. -/
def Path.Below (root p : Path) : Prop :=
  ∃ names, names ≠ [] ∧ (∀ n ∈ names, IsName n) ∧ p.components = root.components ++ names.map .name

namespace Config

/-- A path below the partials of a kind, or below the target root of its section. -/
def Holds (c : Config) (p : Path) : Prop :=
  ∃ k : Kind, (c.partialsDir.join ⟨k.dirName⟩).Below p ∨ (c.sectionOf k).target.Below p

/-- Where builds may write and delete. -/
def Allows (c : Config) (p : Path) : Prop :=
  c.Holds p ∨ p = lockPath c.cache ∨ p = manifestPath c.cache

/-- A path that a target of the configuration can have. -/
def Places (c : Config) (p : Path) : Prop :=
  ∃ (a : Asset) (fp? : Option String), a.Placed c ∧ Asset.FlatFingerprint fp? ∧ p = a.targetPath c fp?

variable {c : Config} {p : Path}

theorem Places.holds (h : c.Places p) : c.Holds p := by
  obtain ⟨a, fp?, ⟨dir, stem, extension, ha⟩, hf, rfl⟩ := h
  refine ⟨a.kind, ?_⟩
  have hbelow : (a.targetRoot c).Below (a.targetPath c fp?) :=
    ⟨_, by simp, ha.isNames_target hf, ha.components_target hf⟩
  unfold Asset.targetRoot at hbelow
  split at hbelow
  · exact .inl hbelow
  · exact .inr hbelow

theorem Places.targetAt (h : c.Places p) (home : Location) : TargetAt home c (p.resolve home) := by
  obtain ⟨a, fp?, ha, hf, rfl⟩ := h
  exact ⟨a, fp?, ha, hf, rfl⟩

theorem Allows.of_roots {c' : Config} (hr : c.roots = c'.roots) (h : c.Allows p) : c'.Allows p := by
  unfold Allows Holds partialsDir at h ⊢
  rw [← cache_eq_of_roots hr]
  simp only [← sectionOf_eq_of_roots hr]
  exact h

end Config

namespace Cache.Bound

variable {c c' : Config} {rows : List Row} {r : Row}

theorem places (h : Bound c.Places rows) (hr : r ∈ rows) : c.Places r.target := (h r hr).1

theorem of_roots (hr : c.roots = c'.roots) (h : Bound c.Places rows) : Bound c'.Places rows := by
  refine fun r hmem => ⟨?_, (h r hmem).2⟩
  obtain ⟨a, fp?, ha, hf, htarget⟩ := (h r hmem).1
  rw [← Asset.placed_roots, hr, Asset.placed_roots] at ha
  rw [← Asset.targetPath_roots, hr, Asset.targetPath_roots] at htarget
  exact ⟨a, fp?, ha, hf, htarget⟩

end Cache.Bound

namespace Build

open Session

/-- What keeps the writes of a build confined: the files of its processor lie apart from the manifest,
and the rows that it finds are such as builds record. -/
structure Tame (own : Location → Prop) (x : Context) (w : Workspace) : Prop where
  uses : Uses x.config own x w
  languages : ∀ k, ∀ l ∈ (x.config.sectionOf k).languages, '/' ∉ l.toList
  wellFormed : w.files.WellFormed
  kept : Bound x.config.Places (savedRows w.files x.config.cache)

variable {c : Config} {own : Location → Prop} {x : Context} {w : Workspace}

namespace Tame

/-- Targets of planned assets are placed, since no language has a separator in it. -/
theorem bounds (h : Tame own x w) : Bounds own x.config.Places x w where
  uses := h.uses
  targets files p hmade hw a ha target ht := by
    obtain ⟨fp?, rfl, _, hflat⟩ := ht.flat h.uses.flat
    exact ⟨a, fp?, hmade.placed_of_flat hw h.languages ha, hflat, rfl⟩
  apart p hp := (hp.targetAt w.files.home).ne_manifest
  wellFormed := h.wellFormed
  rows := h.kept

theorem performs_build (h : Tame own x w) :
    Performs x.processor x.config.Allows w.files (build x w).2.files ∧
      Bound x.config.Places (savedRows (build x w).2.files x.config.cache) := by
  obtain ⟨hperforms, hkept⟩ := h.bounds.performs_build
  exact ⟨hperforms.mono fun p hp => hp.imp_left Config.Places.holds, hkept⟩

end Tame

/-- Whatever the builds of a history come to, the rows keep their form. -/
theorem tame_of_leads (hl : ∀ k, ∀ l ∈ (c.sectionOf k).languages, '/' ∉ l.toList)
    (h : Leads (Blank c) (Disturbs c) (Uses c own) w) (hx : Uses c own x w) : Tame own x w := by
  have htame {x : Context} {w : Workspace} (hx : Uses c own x w)
      (h : w.files.WellFormed ∧ Bound c.Places (savedRows w.files c.cache)) : Tame own x w := by
    have hcache := Config.cache_eq_of_roots hx.roots
    refine ⟨⟨rfl, hx.processor, hx.flat, hcache ▸ hx.manifest⟩, fun k => ?_, h.1, ?_⟩
    · rw [← Config.sectionOf_eq_of_roots hx.roots]
      exact hl k
    · rw [← hcache]
      exact h.2.of_roots hx.roots
  refine htame hx ?_
  clear hx
  induction h with
  | start w blank => exact ⟨blank.wellFormed, blank.rows ▸ .nil⟩
  | edit w w' _ edited ih =>
    refine ⟨edited.wellFormed, ?_⟩
    rcases edited.rows with hrows | hrows <;> rw [hrows]
    · exact ih.2
    · exact .nil
  | build x' w _ run ih =>
    obtain ⟨hperforms, hkept⟩ := (htame run ih).performs_build
    refine ⟨(hperforms.keeps run.processor).wellFormed ih.1, ?_⟩
    rw [Config.cache_eq_of_roots run.roots]
    exact hkept.of_roots run.roots.symm

/-- Every file that a build writes or deletes, whatever it comes to, lies below a root of targets, or
is the lock or the manifest. So do the targets of all rows, before it and after. -/
theorem writes_confined (hl : ∀ k, ∀ l ∈ (c.sectionOf k).languages, '/' ∉ l.toList)
    (h : Leads (Blank c) (Disturbs c) (Uses c own) w) (hx : Uses c own x w) :
    Performs x.processor c.Allows w.files (build x w).2.files ∧
      (∀ l, ¬own l → (∀ p, c.Allows p → l ≠ p.resolve w.files.home) →
        (build x w).2.files.fileAt? l = w.files.fileAt? l) ∧
      (∀ r ∈ savedRows w.files c.cache, c.Holds r.target) ∧
      ∀ r ∈ savedRows (build x w).2.files c.cache, c.Holds r.target := by
  have htame := tame_of_leads hl h hx
  obtain ⟨hperforms, hkept⟩ := htame.performs_build
  have hconfined := hperforms.mono fun p hp => Config.Allows.of_roots hx.roots.symm hp
  have hcache := Config.cache_eq_of_roots hx.roots
  refine ⟨hconfined, fun l hown hl => ?_, fun r hr => ?_, fun r hr => ?_⟩
  · refine (hconfined.keeps hx.processor).files l ?_
    rintro (hown' | ⟨p, hp, he⟩)
    · exact hown hown'
    · exact hl p hp he
  · rw [hcache] at hr
    exact ((htame.kept.of_roots hx.roots.symm).places hr).holds
  · rw [hcache] at hr
    exact ((hkept.of_roots hx.roots.symm).places hr).holds

end Build

namespace Sample

/-- A page that was built, and its source then deleted. -/
def abandonedPage : Workspace :=
  let w := (build (context {}) lonePage).2
  (w.remove ⟨"html/page.html"⟩).toOption.getD w

end Sample

namespace Build

open Sample in
theorem leads_abandonedPage :
    Leads (Blank {}) (Disturbs {}) (Uses {} fun _ => False) abandonedPage := by
  have hblank : Blank {} lonePage := ⟨by decide +kernel, by decide +kernel⟩
  have hleads : Leads (Blank {}) (Disturbs {}) (Uses {} fun _ => False)
      (build (context {}) lonePage).2 :=
    .build (context {}) lonePage (.start lonePage hblank) (uses_context {} lonePage)
  have hhome : (build (context {}) lonePage).2.files.home = [] := by decide +kernel
  unfold abandonedPage
  dsimp only
  cases hw : (build (context {}) lonePage).2.remove ⟨"html/page.html"⟩ with
  | error fault => exact hleads
  | ok w =>
    obtain ⟨l, hl, _, hkeeps, _⟩ := Tree.remove_eq_ok (Workspace.change_eq_ok hw).1
    refine .edit _ w hleads ⟨hkeeps.grows.home, hkeeps.wellFormed (by decide +kernel), .inl ?_⟩
    refine Cache.savedRows_of_keeps hkeeps _ fun he => ?_
    obtain ⟨rfl, _⟩ := Tree.locate_eq_ok hl
    rw [hhome] at he
    exact absurd he (by decide +kernel)

open Sample in
theorem writes_confined_abandoned :
    (∀ k, ∀ l ∈ (({} : Config).sectionOf k).languages, '/' ∉ l.toList) ∧
      Leads (Blank {}) (Disturbs {}) (Uses {} fun _ => False) abandonedPage ∧
      Uses {} (fun _ => False) (context {}) abandonedPage ∧
      (abandonedPage.files.fileAt? ["public", "html", "page.html"]).isSome = true ∧
      Performs (context {}).processor (Config.Allows {}) abandonedPage.files
        (build (context {}) abandonedPage).2.files ∧
      ∀ r ∈ savedRows abandonedPage.files ({} : Config).cache, Config.Holds {} r.target := by
  have hl : ∀ k, ∀ l ∈ (({} : Config).sectionOf k).languages, '/' ∉ l.toList := by
    intro k
    cases k <;> simp [Config.sectionOf]
  have huses := uses_context {} abandonedPage
  obtain ⟨hperforms, _, hbefore, _⟩ := writes_confined hl leads_abandonedPage huses
  exact ⟨hl, leads_abandonedPage, huses, by decide +kernel, hperforms, hbefore⟩

end Build

end AssetCompiler
