import AssetCompiler.Proofs.Build.Stored

/-! # What depends on the roots of a configuration

Where sources, targets and the cache lie is decided by a few fields of a configuration. So are the
plan of a site and the form of its rows, which therefore stay from one build to the next when the
other fields differ.
-/
namespace AssetCompiler

open Cache (Kept Formed Exclusive)

/-- A configuration as far as it says where files lie. -/
def Config.roots (c : Config) : Config where
  cache := c.cache
  markup := c.markup
  stylesheets := c.stylesheets
  scripts := c.scripts
  images := c.images

namespace Config

variable {c c' : Config}

theorem cache_eq_of_roots (h : c.roots = c'.roots) : c.cache = c'.cache := by
  have hc := congrArg Config.cache h
  exact hc

theorem sectionOf_eq_of_roots (h : c.roots = c'.roots) (k : Kind) : c.sectionOf k = c'.sectionOf k := by
  have hk : c.roots.sectionOf k = c'.roots.sectionOf k := by rw [h]
  cases k <;> exact hk

end Config

section roots

variable {c c' : Config} {a : Asset} {r : Row} {home l : Location} {rows : List Row}

theorem Asset.targetPath_roots (fp? : Option String) : a.targetPath c.roots fp? = a.targetPath c fp? := by
  unfold Asset.targetPath Asset.targetRoot Asset.relativeSource
  cases a.kind <;> rfl

theorem Asset.targetPath_of_roots (hr : c.roots = c'.roots) (fp? : Option String) :
    a.targetPath c fp? = a.targetPath c' fp? := by
  rw [← targetPath_roots, hr, targetPath_roots]

theorem Asset.targetDir_of_roots (hr : c.roots = c'.roots) : a.targetDir c = a.targetDir c' := by
  have hroots (c : Config) : a.targetDir c.roots = a.targetDir c := by
    unfold Asset.targetDir Asset.targetRoot Asset.relativeSource
    cases a.kind <;> rfl
  rw [← hroots, hr, hroots]

theorem Asset.placed_roots : a.Placed c.roots ↔ a.Placed c := by
  have hk : c.roots.sectionOf a.kind = c.sectionOf a.kind := by cases a.kind <;> rfl
  constructor
  · rintro ⟨dir, stem, extension, h1, h2, h3, h4, h5, h6⟩
    exact ⟨dir, stem, extension, hk ▸ h1, h2, h3, by rw [← hk]; exact h4, h5, h6⟩
  · rintro ⟨dir, stem, extension, h1, h2, h3, h4, h5, h6⟩
    exact ⟨dir, stem, extension, hk ▸ h1, h2, h3, by rw [hk]; exact h4, h5, h6⟩

theorem Row.of_roots : r.Of c.roots a ↔ r.Of c a := by
  constructor
  · rintro ⟨h1, h2, h3, fp?, h4, h5, h6⟩
    exact ⟨Asset.placed_roots.mp h1, h2, h3, fp?, h4, h5, by rw [h6, Asset.targetPath_roots]⟩
  · rintro ⟨h1, h2, h3, fp?, h4, h5, h6⟩
    exact ⟨Asset.placed_roots.mpr h1, h2, h3, fp?, h4, h5, by rw [h6, Asset.targetPath_roots]⟩

theorem Cache.formed_roots : Formed c.roots r ↔ Formed c r :=
  ⟨fun h => ⟨h.of.imp fun _ => Row.of_roots.mp, h.fits⟩,
    fun h => ⟨h.of.imp fun _ => Row.of_roots.mpr, h.fits⟩⟩

theorem Cache.Kept.of_roots (hr : c.roots = c'.roots) (h : Kept c rows) : Kept c' rows :=
  ⟨h.keyed, fun r hrow => formed_roots.mp (hr ▸ formed_roots.mpr (h.formed r hrow))⟩

theorem Cache.Exclusive.of_roots (hr : c.roots = c'.roots) (h : Exclusive c rows) :
    Exclusive c' rows := fun r hrow q hq a ha =>
  h r hrow q hq a (Row.of_roots.mp (hr ▸ Row.of_roots.mpr ha))

theorem Layout.of_roots (hr : c.roots = c'.roots) (h : Layout home c) : Layout home c' where
  targets k k' := by
    rw [← Config.sectionOf_eq_of_roots hr, ← Config.sectionOf_eq_of_roots hr]
    exact h.targets k k'
  cache k := by
    rw [← Config.sectionOf_eq_of_roots hr, ← Config.cache_eq_of_roots hr]
    exact h.cache k
  languages k := by
    rw [← Config.sectionOf_eq_of_roots hr]
    exact h.languages k

theorem inSources_of_roots (hr : c.roots = c'.roots) (h : InSources home c' l) :
    InSources home c l := by
  obtain ⟨k, hk⟩ := h
  rw [← Config.sectionOf_eq_of_roots hr] at hk
  exact ⟨k, hk⟩

end roots

namespace Collection

variable {c : Config} {w : Workspace}

theorem referencePath_roots (r : Reference) : referencePath c.roots r = referencePath c r := by
  unfold referencePath
  cases r.kind <;> rfl

theorem parse_roots (files : Tree) (as : Collection) (a : Asset) :
    parse files c.roots as a = parse files c as a := by
  have hlink : link c.roots as a = link c as a := by
    funext ls o
    unfold link
    simp only [referencePath_roots]
  unfold parse withText
  rw [hlink]

theorem parseFrom_roots (i n : Nat) (as : Collection) (w : Workspace) :
    parseFrom c.roots i n as w = parseFrom c i n as w := by
  induction n generalizing i as w with
  | zero => rfl
  | succ n ih =>
    unfold parseFrom
    rw [parse_roots]
    cases parse w.files c as (as.get i) with
    | error e => rfl
    | ok r => exact ih ..

theorem ofFiles_roots (files : List Path) : ofFiles c.roots files = ofFiles c files := by
  have hfile : ofFile c.roots = ofFile c := by
    funext p
    unfold ofFile
    cases Kind.ofPath? p with
    | none => rfl
    | some k => cases k <;> rfl
  unfold ofFiles
  rw [hfile]

end Collection

theorem Discovery.sources_roots (files : Tree) (c : Config) : sources files c.roots = sources files c := rfl

theorem Plan.make_roots (c : Config) (w : Workspace) : make c.roots w = make c w := by
  unfold make Collection.parseAll
  simp only [Discovery.sources_roots, Collection.ofFiles_roots, Collection.parseFrom_roots]

/-- The plan of a site depends on the roots. -/
theorem Plan.make_of_roots {c c' : Config} (hr : c.roots = c'.roots) (w : Workspace) :
    make c w = make c' w := by
  rw [← make_roots, hr, make_roots]

end AssetCompiler
