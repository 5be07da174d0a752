import AssetCompiler.Proofs.Build.History
import AssetCompiler.Proofs.Walk

/-! # Sources stay as they are

A target has the extension of its kind, so it can be a source of no other kind. Where the targets
of each kind lie apart from its own sources, or below them where discovery does not look, no build
changes a source, and none makes one.
-/
namespace AssetCompiler

open Naming (named IsNamed)
open Discovery (Listed isReached sources)
open Cache (Kept savedRows)
open AssetCompiler.Tree (Keeps)

namespace Discovery

variable {c : Config} {kind : Kind} {root cache p : Path} {names : List String}

theorem isReached_of_append {rest : List String} (h : isReached root cache (names ++ rest) = true) :
    isReached root cache names = true := by
  induction names generalizing root with
  | nil => rfl
  | cons n ns ih =>
    obtain ⟨hn, hns⟩ := Bool.and_eq_true_iff.mp h
    exact Bool.and_eq_true_iff.mpr ⟨hn, ih hns⟩

/-- The last name of a source tells its kind. -/
theorem Listed.exists_named (h : Listed c kind names p) : ∃ dir stem extension,
    names = dir ++ [named stem extension] ∧ IsNamed stem extension ∧
      Kind.ofExtension? (String.ofList extension) = some kind := by
  obtain ⟨dir, n, rfl⟩ := (List.eq_nil_or_concat' names).resolve_left h.ne_nil
  have hk := h.ofPath?
  rw [h.eq_join, ofPath?_join_ofNames h.isNames] at hk
  obtain ⟨stem, extension, rfl, hn, hext⟩ := Kind.exists_named_of_ofPath? h.isNames hk
  exact ⟨dir, stem, extension, rfl, hn, hext⟩

theorem Listed.ne_concat (h : Listed c kind names p) {home l : Location} (stem extension : List Char)
    (hn : IsNamed stem extension) (hk : Kind.ofExtension? (String.ofList extension) ≠ some kind) :
    p.resolve home ≠ l ++ [named stem extension] := by
  obtain ⟨dir, stem', extension', rfl, hn', hext⟩ := h.exists_named
  intro he
  rw [h.resolve_eq, ← List.append_assoc] at he
  have hlast := congrArg List.getLast? he
  rw [List.getLast?_concat, List.getLast?_concat] at hlast
  have hsplit := hn'.splitName
  rw [Option.some.inj hlast, hn.splitName] at hsplit
  simp only [Prod.mk.injEq, Option.some.injEq] at hsplit
  exact hk (hsplit.2 ▸ hext)

theorem sources_of_roots {c c' : Config} (hr : c.roots = c'.roots) (files : Tree) :
    sources files c = sources files c' := by
  rw [← sources_roots, hr, sources_roots]

end Discovery

/-- Nothing below the location is among the sources of the kind: it lies apart from their root, or
below it where discovery does not look. -/
def Clear (home : Location) (c : Config) (kind : Kind) (l : Location) : Prop :=
  Apart ((c.sectionOf kind).source.resolve home) l ∨
    ∃ names, l = (c.sectionOf kind).source.resolve home ++ names ∧
      isReached (c.sectionOf kind).source c.cache names = false

/-- Neither pages nor partials of a kind are placed among the sources of the kind. -/
structure Secluded (home : Location) (c : Config) : Prop where
  targets : ∀ k, Clear home c k ((c.sectionOf k).target.resolve home)
  partials : ∀ k, Clear home c k ((c.partialsDir.join ⟨k.dirName⟩).resolve home)
  languages : ∀ k, ∀ l ∈ (c.sectionOf k).languages, '/' ∉ l.toList

section clear

variable {home l : Location} {c c' : Config} {kind : Kind} {p : Path} {names : List String}

theorem Clear.resolve_ne (h : Clear home c kind l) (hp : Listed c kind names p) (rest : Location) :
    p.resolve home ≠ l ++ rest := by
  rw [hp.resolve_eq]
  intro he
  rcases h with h | ⟨ns, rfl, hns⟩
  · exact h.not_prefix_append rest (he ▸ List.prefix_append _ names)
  · rw [List.append_assoc] at he
    have hreached := hp.isReached
    rw [List.append_cancel_left he] at hreached
    rw [Discovery.isReached_of_append hreached] at hns
    cases hns

theorem Secluded.of_roots (hr : c.roots = c'.roots) (h : Secluded home c) : Secluded home c' := by
  have hclear {k : Kind} {m : Location} (hc : Clear home c k m) : Clear home c' k m := by
    unfold Clear
    rw [← Config.sectionOf_eq_of_roots hr, ← Config.cache_eq_of_roots hr]
    exact hc
  refine ⟨fun k => ?_, fun k => ?_, fun k => ?_⟩
  · rw [← Config.sectionOf_eq_of_roots hr]
    exact hclear (h.targets k)
  · have hdir : c'.partialsDir = c.partialsDir := by
      rw [Config.partialsDir, ← Config.cache_eq_of_roots hr, Config.partialsDir]
    rw [hdir]
    exact hclear (h.partials k)
  · rw [← Config.sectionOf_eq_of_roots hr]
    exact h.languages k

/-- A target has the extension of its kind, so the sources of other kinds need no care. -/
theorem TargetAt.resolve_ne (hs : Secluded home c) (h : TargetAt home c l) (hp : Listed c kind names p) :
    p.resolve home ≠ l := by
  obtain ⟨a, fp?, ⟨dir, stem, extension, ha⟩, hf, rfl⟩ := h
  rw [ha.resolve_target hf]
  by_cases hk : a.kind = kind
  · subst hk
    have hclear : Clear home c a.kind ((a.targetRoot c).resolve home) := by
      unfold Asset.targetRoot
      split
      · exact hs.partials a.kind
      · exact hs.targets a.kind
    exact hclear.resolve_ne hp _
  · rw [← List.append_assoc]
    refine hp.ne_concat _ _ (ha.isNamed.decorated (ha.isFlat hf)) ?_
    rw [ha.kind_decorated fp?]
    exact fun he => hk (Option.some.inj he)

/-- No build changes a file where discovery looks for sources. -/
theorem Build.ChangedAt.resolve_ne (hs : Secluded home c) (h : ChangedAt home c l)
    (hp : Listed c kind names p) : p.resolve home ≠ l := by
  rcases h with ht | rfl | rfl
  · exact ht.resolve_ne hs hp
  · rw [Cache.lockAt_eq]
    exact hp.ne_concat "cache".toList "lock".toList
      ⟨by decide, by decide, by decide, by decide, by decide⟩ (by cases kind <;> decide)
  · rw [Cache.manifestAt_eq]
    exact hp.ne_concat "cache".toList "json".toList
      ⟨by decide, by decide, by decide, by decide, by decide⟩ (by cases kind <;> decide)

end clear

namespace Build

/-- A site without rows. -/
structure Blank (c : Config) (w : Workspace) : Prop where
  wellFormed : w.files.WellFormed
  rows : savedRows w.files c.cache = []

variable {c : Config} {x : Context} {w : Workspace} {p : Path}

/-- Wherever the roots lie, the rows keep their form through every history. -/
theorem able_of_leads (hl : ∀ k, ∀ l ∈ (c.sectionOf k).languages, '/' ∉ l.toList)
    (h : Leads (Blank c) (Disturbs c) (fun x _ => Suits c x) w) (hx : Suits c x) : Able x w := by
  have hlanguages {x : Context} (hx : Suits c x) :
      ∀ k, ∀ l ∈ (x.config.sectionOf k).languages, '/' ∉ l.toList := fun k => by
    rw [← Config.sectionOf_eq_of_roots hx.roots]
    exact hl k
  have hable {x : Context} (hx : Suits c x) {w : Workspace}
      (h : w.files.WellFormed ∧ Kept c (savedRows w.files c.cache)) : Able x w := by
    refine ⟨hx.processor, hx.flat, hlanguages hx, h.1, ?_⟩
    rw [← Config.cache_eq_of_roots hx.roots]
    exact h.2.of_roots hx.roots
  refine hable hx ?_
  induction h with
  | start w blank => exact ⟨blank.wellFormed, blank.rows ▸ .nil c⟩
  | edit w w' _ edited ih =>
    refine ⟨edited.wellFormed, ?_⟩
    rcases edited.rows with hrows | hrows <;> rw [hrows]
    · exact ih.2
    · exact .nil c
  | build x' w _ run ih =>
    have h := hable run ih
    refine ⟨h.keeps_build.wellFormed ih.1, ?_⟩
    rw [Config.cache_eq_of_roots run.roots]
    exact h.kept_build.of_roots run.roots.symm

/-- A source, or what would be one after the build, is the same file before it and after. -/
theorem source_untouched (hl : Leads (Blank c) (Disturbs c) (fun x _ => Suits c x) w)
    (hs : Secluded w.files.home c) (hx : Suits c x)
    (hp : p ∈ sources w.files c ∨ p ∈ sources (build x w).2.files c) :
    ∃ f, w.files.fileAt? (p.resolve w.files.home) = some f ∧
      (build x w).2.files.fileAt? (p.resolve w.files.home) = some f := by
  have h := able_of_leads hs.languages hl hx
  have hkeeps := h.keeps_build
  have hs := hs.of_roots hx.roots
  rw [Discovery.sources_of_roots hx.roots, Discovery.sources_of_roots hx.roots] at hp
  have hsame {kind : Kind} {names : List String} (hlisted : Listed x.config kind names p) :
      (build x w).2.files.fileAt? (p.resolve w.files.home) =
        w.files.fileAt? (p.resolve w.files.home) :=
    hkeeps.files _ fun hchanged => hchanged.resolve_ne hs hlisted rfl
  rcases hp with hp | hp
  · obtain ⟨kind, names, f, hlisted, hf⟩ := Discovery.exists_listed_of_mem_sources h.wellFormed hp
    have hat := Tree.fileAt?_of_file hf
    exact ⟨f, hat, (hsame hlisted).trans hat⟩
  · obtain ⟨kind, names, f, hlisted, hf⟩ :=
      Discovery.exists_listed_of_mem_sources (hkeeps.wellFormed h.wellFormed) hp
    have hat := Tree.fileAt?_of_file hf
    rw [hkeeps.grows.home] at hat
    exact ⟨f, (hsame hlisted) ▸ hat, hat⟩

end Build

/-! ### Overlapping roots -/

namespace Sample

/-- A configuration whose pages are everywhere below the home, their targets behind a hidden name
there and the partials in the cache. -/
def nested : Config := { cache := ⟨"./build"⟩, markup := ⟨⟨"."⟩, ⟨".public"⟩, []⟩ }

theorem secluded_nested : Secluded [] nested where
  targets k := by
    cases k
    · exact .inr ⟨[".public"], by decide +kernel, by decide +kernel⟩
    all_goals exact .inl (by decide +kernel)
  partials k := by
    cases k
    · exact .inr ⟨["build", "partials", "html"], by decide +kernel, by decide +kernel⟩
    all_goals exact .inl (by decide +kernel)
  languages k := by cases k <;> simp [Config.sectionOf, nested]

def loosePage : Workspace := site [(["page.html"], source "[% end %]x")]

/-- Sources and targets below one root, as a command line can name them. -/
def overlaid : Config := .ofRoots none ⟨"site"⟩ ⟨"site"⟩

def overlaidPage : Workspace := site [
  (["site"], .directory 0),
  (["site", "html"], .directory 0),
  (["site", "html", "page.html"], source "[% end %]x")]

/-- Separate roots, and a language that leads from the targets back to a source. -/
def wandering : Config := { markup := ⟨⟨"html"⟩, ⟨"public/html"⟩, ["x/../../../html/page"]⟩ }

def wanderingPage : Workspace := site [
  (["html"], .directory 0),
  (["html", "page.html"], source "[% end %]x")]

def text? (w : Workspace) (p : Path) : Option ByteArray := (w.files.read p).toOption

end Sample

namespace Build

open Sample in
theorem source_untouched_nested :
    Leads (Blank nested) (Disturbs nested) (fun x _ => Suits nested x)
        (build (context nested) loosePage).2 ∧
      Secluded (build (context nested) loosePage).2.files.home nested ∧ Suits nested (context nested) ∧
      ⟨"./page.html"⟩ ∈ sources (build (context nested) loosePage).2.files nested ∧
      ∃ f, (build (context nested) loosePage).2.files.fileAt? ["page.html"] = some f ∧
        (build (context nested) (build (context nested) loosePage).2).2.files.fileAt? ["page.html"] =
          some f := by
  have hblank : Blank nested loosePage := ⟨by decide +kernel, by decide +kernel⟩
  have hleads : Leads (Blank nested) (Disturbs nested) (fun x _ => Suits nested x)
      (build (context nested) loosePage).2 :=
    .build (context nested) loosePage (.start loosePage hblank) (suits nested)
  have hhome : (build (context nested) loosePage).2.files.home = [] := by decide +kernel
  have hsecluded : Secluded (build (context nested) loosePage).2.files.home nested := by
    rw [hhome]
    exact secluded_nested
  have hsources : sources (build (context nested) loosePage).2.files nested = [⟨"./page.html"⟩] := by
    decide +kernel
  have hmem : (⟨"./page.html"⟩ : Path) ∈ sources (build (context nested) loosePage).2.files nested :=
    hsources ▸ List.mem_singleton_self _
  obtain ⟨f, hbefore, hafter⟩ := source_untouched hleads hsecluded (suits nested) (.inl hmem)
  have hlocation : (⟨"./page.html"⟩ : Path).resolve [] = ["page.html"] := by decide +kernel
  rw [hhome, hlocation] at hbefore hafter
  exact ⟨hleads, hsecluded, suits nested, hmem, f, hbefore, hafter⟩

open Sample in
/-- Nothing compares targets with sources. So a page can be placed over its own source where the
roots are one, and also where they lie apart and a language leads from one to the other. -/
theorem exists_rewritten_source :
    (overlaid.validate = .ok overlaid ∧ Blank overlaid overlaidPage ∧ Suits overlaid (context overlaid) ∧
      (⟨"site/html/page.html"⟩ : Path) ∈ sources overlaidPage.files overlaid ∧
      text? overlaidPage ⟨"site/html/page.html"⟩ = some "[% end %]x".toUTF8 ∧
      text? (build (context overlaid) overlaidPage).2 ⟨"site/html/page.html"⟩ = some "x".toUTF8) ∧
    (wandering.validate = .ok wandering ∧ Blank wandering wanderingPage ∧
      Suits wandering (context wandering) ∧
      (∀ k, Apart ((wandering.sectionOf k).source.resolve []) ((wandering.sectionOf k).target.resolve []) ∧
        Apart ((wandering.sectionOf k).source.resolve []) (wandering.cache.resolve [])) ∧
      (⟨"html/page.html"⟩ : Path) ∈ sources wanderingPage.files wandering ∧
      text? wanderingPage ⟨"html/page.html"⟩ = some "[% end %]x".toUTF8 ∧
      text? (build (context wandering) wanderingPage).2 ⟨"html/page.html"⟩ = some "x".toUTF8) := by
  have hoverlaid : sources overlaidPage.files overlaid = [⟨"site/html/page.html"⟩] := by decide +kernel
  have hwandering : sources wanderingPage.files wandering = [⟨"html/page.html"⟩] := by decide +kernel
  refine ⟨⟨by decide +kernel, ⟨by decide +kernel, by decide +kernel⟩, suits overlaid,
    hoverlaid ▸ List.mem_singleton_self _, by decide +kernel, by decide +kernel⟩,
    ⟨by decide +kernel, ⟨by decide +kernel, by decide +kernel⟩, suits wandering, fun k => ?_,
    hwandering ▸ List.mem_singleton_self _, by decide +kernel, by decide +kernel⟩⟩
  cases k <;> decide +kernel

end Build

end AssetCompiler
