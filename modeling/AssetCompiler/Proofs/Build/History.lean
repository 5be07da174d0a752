import AssetCompiler.Proofs.Build.Roots

/-! # Histories of a site

A site begins without rows and gets from one state to the next by edits and builds, in any order.
Whatever the edits do besides leaving the rows alone or losing them, the rows keep the form that
builds record.
-/
namespace AssetCompiler

theorem BuildReport.hasFailures_eq_false_iff {r : BuildReport} :
    r.hasFailures = false ↔ ∀ e ∈ r.assets, e.outcome ≠ .failed := by
  simp [hasFailures, count]

namespace Build

open AssetCompiler.Tree (Keeps)
open Cache (Kept Exclusive savedRows)

/-- The states that a site without rows gets to by edits and builds. -/
inductive Reached (c : Config) (edits : Workspace → Workspace → Prop)
    (runs : Context → Workspace → Prop) : Workspace → Prop
  | start (w : Workspace) (wellFormed : w.files.WellFormed) (layout : Layout w.files.home c)
      (rows : savedRows w.files c.cache = []) : Reached c edits runs w
  | edit (w w' : Workspace) (before : Reached c edits runs w) (edited : edits w w') :
      Reached c edits runs w'
  | build (x : Context) (w : Workspace) (before : Reached c edits runs w) (run : runs x w) :
      Reached c edits runs (AssetCompiler.build x w).2

/-- The states that edits and builds lead to, in any order, from a given start. -/
inductive Leads (starts : Workspace → Prop) (edits : Workspace → Workspace → Prop)
    (runs : Context → Workspace → Prop) : Workspace → Prop
  | start (w : Workspace) (starting : starts w) : Leads starts edits runs w
  | edit (w w' : Workspace) (before : Leads starts edits runs w) (edited : edits w w') :
      Leads starts edits runs w'
  | build (x : Context) (w : Workspace) (before : Leads starts edits runs w) (run : runs x w) :
      Leads starts edits runs (AssetCompiler.build x w).2

/-- A context for builds of a site with the given roots. -/
structure Suits (c : Config) (x : Context) : Prop where
  roots : c.roots = x.config.roots
  processor : x.processor.KeepsFiles
  flat : x.FlatFingerprints

/-- A change of a site that keeps the rows of the manifest or loses them all. -/
structure Disturbs (c : Config) (w w' : Workspace) : Prop where
  home : w'.files.home = w.files.home
  wellFormed : w'.files.WellFormed
  rows : savedRows w'.files c.cache = savedRows w.files c.cache ∨ savedRows w'.files c.cache = []

structure Standing (c : Config) (w : Workspace) : Prop where
  wellFormed : w.files.WellFormed
  layout : Layout w.files.home c
  kept : Kept c (savedRows w.files c.cache)

variable {c : Config} {x : Context} {w w' : Workspace} {edits : Workspace → Workspace → Prop}
  {runs : Context → Workspace → Prop}

namespace Standing

theorem of_roots {c' : Config} (hr : c.roots = c'.roots) (h : Standing c w) : Standing c' w where
  wellFormed := h.wellFormed
  layout := h.layout.of_roots hr
  kept := by
    rw [← Config.cache_eq_of_roots hr]
    exact h.kept.of_roots hr

theorem fit (h : Standing c w) (hx : Suits c x) : Fit x w where
  processor := hx.processor
  flat := hx.flat
  layout := (h.of_roots hx.roots).layout
  wellFormed := h.wellFormed
  kept := (h.of_roots hx.roots).kept

theorem disturbs (h : Standing c w) (hd : Disturbs c w w') : Standing c w' where
  wellFormed := hd.wellFormed
  layout := hd.home ▸ h.layout
  kept := by
    rcases hd.rows with hr | hr <;> rw [hr]
    · exact h.kept
    · exact .nil c

theorem build (h : Standing c w) (hx : Suits c x) : Standing c (build x w).2 := by
  have hfit := h.fit hx
  have hkeeps := hfit.able.keeps_build
  refine ⟨hkeeps.wellFormed h.wellFormed, hkeeps.grows.home ▸ h.layout, ?_⟩
  rw [Config.cache_eq_of_roots hx.roots]
  exact (hfit.able.kept_build).of_roots hx.roots.symm

end Standing

theorem Reached.standing (h : Reached c edits runs w) (he : ∀ w w', edits w w' → Disturbs c w w')
    (hr : ∀ x w, runs x w → Suits c x) : Standing c w := by
  induction h with
  | start w wellFormed layout rows => exact ⟨wellFormed, layout, rows ▸ .nil c⟩
  | edit w w' _ edited ih => exact ih.disturbs (he w w' edited)
  | build x w _ run ih => exact ih.build (hr x w run)

/-- Where every build draws fresh fingerprints, targets are exclusive in every state. -/
theorem Reached.exclusive (h : Reached c edits runs w) (he : ∀ w w', edits w w' → Disturbs c w w')
    (hr : ∀ x w, runs x w → Suits c x ∧ Fresh x w) : Exclusive c (savedRows w.files c.cache) := by
  induction h with
  | start w _ _ rows =>
    rw [rows]
    exact fun r hm => by cases hm
  | edit w w' _ edited ih =>
    rcases (he w w' edited).rows with hrows | hrows <;> rw [hrows]
    · exact ih
    · exact fun r hm => by cases hm
  | build x w before run ih =>
    obtain ⟨hx, hfresh⟩ := hr x w run
    have hfit := (before.standing he fun x w hrun => (hr x w hrun).1).fit hx
    rw [Config.cache_eq_of_roots hx.roots] at ih ⊢
    exact (exclusive_build hfit hfresh (ih.of_roots hx.roots)).of_roots hx.roots.symm

end Build

/-! ### Small sites -/

namespace Sample

/-- A digest that tells contents apart: one character for each octet. -/
def digest (bytes : ByteArray) : String :=
  String.ofList (bytes.data.toList.map fun octet => Char.ofNat (65 + octet.toNat))

theorem digest_injective : Function.Injective digest := by
  intro a b h
  have hchars := String.ofList_injective h
  have hoctet : Function.Injective fun octet : UInt8 => Char.ofNat (65 + octet.toNat) := by
    have hback : ∀ n : Fin 256, (Char.ofNat (65 + n.val)).toNat = 65 + n.val := by decide +kernel
    intro m n he
    have hnat := congrArg Char.toNat he
    rw [hback ⟨m.toNat, m.toNat_lt⟩, hback ⟨n.toNat, n.toNat_lt⟩] at hnat
    exact UInt8.toNat_inj.mp (Nat.add_left_cancel hnat)
  exact ByteArray.ext (Array.toList_inj.mp (List.map_injective_iff.mpr hoctet hchars))

def source (text : String) : Entry := .file { bytes := text.toUTF8, modified := 5 }

def site (entries : List (Location × Entry)) : Workspace := { files := { entries }, clock := 10 }

/-- Builds with a processor that passes its input on and one fingerprint for all. -/
def context (config : Config) : Context where
  config
  processor := .ofFunction fun _ _ input => .ok input
  digest
  fingerprint _ _ := "0123456789"

theorem suits (c : Config) : Build.Suits c (context c) := by
  refine ⟨rfl, Processor.keepsFiles_ofFunction _, fun _ _ => ?_⟩
  show '/' ∉ "0123456789".toList
  decide

theorem layout : Layout [] {} where
  targets k k' := by cases k <;> cases k' <;> decide +kernel
  cache k := by cases k <;> decide +kernel
  languages k := by cases k <;> simp [Config.sectionOf]

def page : Workspace := site [
  (["html"], .directory 0),
  (["html", "page.html"], source "[%= stylesheet_url site.css %]"),
  (["stylesheets"], .directory 0),
  (["stylesheets", "site.css"], source "b\x7b\x7d")]

def lonePage : Workspace := site [
  (["html"], .directory 0),
  (["html", "page.html"], source "hi")]

def results? (x : Context) (w : Workspace) :
    Option (List (Outcome × Path × Option String × Option Path)) :=
  match (build x w).1 with
  | .ok report => some (report.assets.map fun e => (e.outcome, e.source, e.language, e.target))
  | .error _ => none

theorem exists_of_results {x : Context} {w : Workspace}
    (rs : List (Outcome × Path × Option String × Option Path)) (h : results? x w = some rs)
    (hok : ∀ r ∈ rs, r.1 ≠ .failed) : ∃ report w', build x w = (.ok report, w') ∧
      report.hasFailures = false ∧
      (report.assets.map fun e => (e.outcome, e.source, e.language, e.target)) = rs := by
  unfold results? at h
  cases hb : build x w with
  | mk result w' =>
    rw [hb] at h
    cases result with
    | error e => cases h
    | ok report =>
      cases h
      refine ⟨report, w', rfl, BuildReport.hasFailures_eq_false_iff.mpr fun e he => ?_, rfl⟩
      exact hok (e.outcome, e.source, e.language, e.target) (List.mem_map.mpr ⟨e, he, rfl⟩)

/-- A configuration whose source root for markup leads out of a directory that builds make. -/
def unsteady : Config := { markup := ⟨⟨"public/../html"⟩, ⟨"public/html"⟩, []⟩ }

theorem layout_unsteady : Layout [] unsteady where
  targets k k' := by cases k <;> cases k' <;> decide +kernel
  cache k := by cases k <;> decide +kernel
  languages k := by cases k <;> simp [Config.sectionOf, unsteady]

end Sample

end AssetCompiler
