import AssetCompiler.Proofs.Asset.Sharing
import AssetCompiler.Proofs.Build.History

/-! # Compiles leave other outputs alone

A compile writes the next target of its asset and deletes the one that its row names. Both lie
apart from every target of another asset.
-/
namespace AssetCompiler

open AssetCompiler.Tree (Keeps)

namespace Session

variable {x : Context} {s : Session} {a : Asset} {i : Nat}

/-- Whether a path is a target that the next compile of an asset can write. -/
def IsNext (x : Context) (s : Session) (a : Asset) (target : Path) : Prop :=
  ∃ fp?, target = a.targetPath x.config fp? ∧ fp?.isSome = a.isFingerprinted ∧
    ∀ fp, fp? = some fp → ∃ bytes, fp = x.fingerprint s.work.drawn bytes

theorem Aims.isNext {s' : Session} {target : Path} (h : Aims x s a (.ok target) s') :
    IsNext x s a target := by
  cases h with
  | drawn bytes fingerprinted _ =>
    refine ⟨_, rfl, fingerprinted.symm, ?_⟩
    rintro fp he
    cases he
    exact ⟨bytes, rfl⟩
  | plain plain => exact ⟨none, rfl, plain.symm, fun _ h => by cases h⟩

theorem IsNext.of_drawn {s' : Session} {target : Path} (h : IsNext x s' a target)
    (hdrawn : s'.work.drawn = s.work.drawn) : IsNext x s a target := by
  unfold IsNext at h ⊢
  rwa [hdrawn] at h

theorem keeps_recompile (hp : x.processor.KeepsFiles) {result : Except CompileError Outcome}
    {s' : Session} (h : s.recompile x i (s.row? i) = (result, s')) :
    Keeps (fun l => ∃ target, IsNext x s (s.assets.get i) target ∧
      Touched s.work.files (s.row? i) target l) s.work.files s'.work.files := by
  cases recompiles_of_recompile h with
  | unproduced _ produces => exact (produces.keeps hp).mono fun _ hl => hl.elim
  | unaimed _ produces aims =>
    have hkeeps := produces.keeps hp
    rw [← aims.files] at hkeeps
    exact hkeeps.mono fun _ hl => hl.elim
  | uninstalled _ produces aims installs =>
    exact (keeps_installed hp produces aims installs).mono fun l hl =>
      ⟨_, aims.isNext.of_drawn produces.drawn, hl⟩
  | installed _ produces aims installs =>
    have hkeeps := keeps_installed hp produces aims installs
    exact hkeeps.mono fun l hl => ⟨_, aims.isNext.of_drawn produces.drawn, hl⟩

/-- Where compiling an asset may change a file, whatever it comes to. -/
theorem keeps_compile (hp : x.processor.KeepsFiles) (s : Session) (i : Nat) :
    Keeps (fun l => ∃ target, IsNext x s (s.assets.get i) target ∧
      Touched s.work.files (s.row? i) target l) s.work.files (s.compile x i).2.work.files := by
  have hproceeds := proceeds_of_compile (Prod.eta (s.compile x i)).symm
  generalize (s.compile x i).1 = result, (s.compile x i).2 = s' at hproceeds ⊢
  cases hproceeds with
  | unjudged => exact .refl _ _
  | kept => exact .refl _ _
  | recompiled _ recompiled => exact keeps_recompile hp recompiled

end Session

namespace Build

open Session

theorem keeps_compileOne {x : Context} (hp : x.processor.KeepsFiles) (s : Session) (i : Nat) :
    Keeps (fun l => ∃ target, IsNext x s (s.assets.get i) target ∧
      Touched s.work.files (s.row? i) target l) s.work.files (compileOne x s i).2.work.files := by
  rw [files_compileOne]
  exact keeps_compile hp s i

/-- Different assets have different targets, and compiling one of them again keeps the output of the
other as it is. -/
theorem target_apart {t : Tree} {c : Config} {a b : Asset} {fp? fp?' : Option String}
    (hvalid : c.validate = .ok c) (hlanguages : c.Unambiguous) (hw : t.WellFormed)
    (ha : a ∈ Collection.ofFiles c (Discovery.sources t c))
    (hb : b ∈ Collection.ofFiles c (Discovery.sources t c))
    (hab : ¬(a.source = b.source ∧ a.language = b.language)) (htwins : ¬Asset.Twins c a b)
    (hfp : a.Takes fp?) (hfp' : b.Takes fp?') (hdistinct : ∀ f, fp? = some f → fp?' ≠ some f) :
    (a.targetPath c fp? == b.targetPath c fp?') = false ∧
      (∀ home, (a.targetPath c fp?).resolve home ≠ (b.targetPath c fp?').resolve home) ∧
      ∀ (x : Context) (s : Session) (i : Nat) (f : File), x.config = c → x.processor.KeepsFiles →
        (s.assets.get i).identity = a.identity →
        (∀ r, s.row? i = some r → r.target = a.targetPath c fp?) →
        (∀ bytes, IsFingerprint (x.fingerprint s.work.drawn bytes) ∧
          fp?' ≠ some (x.fingerprint s.work.drawn bytes)) →
        s.work.files.file (b.targetPath c fp?') = .ok f →
        (compileOne x s i).2.work.files.file (b.targetPath c fp?') = .ok f := by
  have hapart {fp? : Option String} (hfp : a.Takes fp?) (hdistinct : ∀ f, fp? = some f → fp?' ≠ some f) :=
    Asset.resolve_targetPath_ne hvalid hlanguages hw ha hb hab htwins hfp hfp' hdistinct
  refine ⟨?_, hapart hfp hdistinct, ?_⟩
  · have hflat := hlanguages.languages_flat hvalid
    cases hbeq : a.targetPath c fp? == b.targetPath c fp?' with
    | false => rfl
    | true =>
      have he := Asset.targetPath_eq_of_beq (Collection.placed_of_flat_languages hw hflat ha)
        (Collection.placed_of_flat_languages hw hflat hb) hfp.flat hfp'.flat hbeq
      exact absurd (congrArg (Path.resolve []) he) (hapart hfp hdistinct [])
  · intro x s i f hx hp hid hrow hdraw hf
    subst hx
    refine (keeps_compileOne hp s i).file hf ?_
    -- A compile touches the target that it writes and the one that its row names.
    rintro ⟨target, ⟨old?, rfl, hsome, hdrawn⟩, hplace | ⟨r, hr, _, hplace⟩⟩
    · rw [Asset.isFingerprinted_congr hid] at hsome
      rw [Asset.targetPath_congr hid] at hplace
      refine hapart ⟨hsome, fun g hg => ?_⟩ (fun g hg => ?_) _ hplace.symm
      · obtain ⟨bytes, rfl⟩ := hdrawn g hg
        exact (hdraw bytes).1
      · obtain ⟨bytes, rfl⟩ := hdrawn g hg
        exact (hdraw bytes).2
    · rw [hrow r hr] at hplace
      exact hapart hfp hdistinct _ hplace.symm

def bilingual : Config := { markup := ⟨⟨"html"⟩, ⟨"public"⟩, ["de", "en"]⟩ }

def bilingualSession : Session where
  work := Sample.site [
    (["html"], .directory 0),
    (["html", "page.html"], Sample.source "hi"),
    (["public"], .directory 0),
    (["public", "page-de.html"], Sample.source "hallo"),
    (["public", "page-en.html"], Sample.source "hello")]
  cache := {
    directory := ⟨"build"⟩
    rows := [{
      source := ⟨"html/page.html"⟩
      target := ⟨"public/page-de.html"⟩
      language := some "de"
      modified := 0
      checksum := ""
      outputChecksum := ""
      dependencies := [] }] }
  assets := Collection.ofFiles bilingual (Discovery.sources Sample.lonePage.files bilingual)
  catalog := {}

theorem target_apart_bilingual :
    let page := bilingualSession.assets.get
    ((page 0).targetPath bilingual none == (page 1).targetPath bilingual none) = false ∧
      (compileOne (Sample.context bilingual) bilingualSession 0).2.work.files.file
        ⟨"public/page-en.html"⟩ = .ok ⟨"hello".toUTF8, 5, none⟩ := by
  intro page
  obtain ⟨hpaths, _, hkeeps⟩ := @target_apart Sample.lonePage.files bilingual (page 0) (page 1) none
    none (by decide +kernel)
    ⟨by decide +kernel, by decide +kernel⟩ (by decide +kernel)
    (Collection.mem_get (by decide +kernel)) (Collection.mem_get (by decide +kernel))
    (by decide +kernel) (fun h => absurd h.1 (by decide +kernel))
    ⟨by decide +kernel, fun _ h => by cases h⟩ ⟨by decide +kernel, fun _ h => by cases h⟩
    (fun _ h => by cases h)
  refine ⟨hpaths, ?_⟩
  have htarget : (page 1).targetPath bilingual none = ⟨"public/page-en.html"⟩ := by decide +kernel
  rw [htarget] at hkeeps
  refine hkeeps (Sample.context bilingual) bilingualSession 0 _ rfl
    (Processor.keepsFiles_ofFunction _) rfl ?_ ?_ ?_
  · intro r hr
    have hrow : (bilingualSession.row? 0).map Row.target = some ((page 0).targetPath bilingual none) := by
      decide +kernel
    rw [hr, Option.map_some] at hrow
    exact Option.some.inj hrow
  · intro bytes
    have hform : IsFingerprint "0123456789" := by decide
    exact ⟨hform, fun h => by cases h⟩
  · decide +kernel

/-- The sources of a kind in the order in which they are found. -/
def found (t : Tree) (c : Config) (kind : Kind) : List Path :=
  match t.find (c.sectionOf kind).source with
  | .ok (l, .directory _) => Discovery.sourcesBelow t (c.sectionOf kind).source c.cache kind l
  | _ => []

theorem sources_of_pairwise {t : Tree} {c : Config}
    (h : ∀ kind ∈ Kind.all, (found t c kind).Pairwise fun p q => p.le q = true) :
    Discovery.sources t c = Kind.all.flatMap (found t c) := by
  unfold Discovery.sources
  refine List.flatMap_congr fun kind hkind => ?_
  have hsorted := h kind hkind
  unfold found at hsorted ⊢
  unfold Discovery.ofKind
  dsimp only
  cases hf : t.find (c.sectionOf kind).source with
  | error fault => rfl
  | ok r =>
    obtain ⟨l, e⟩ := r
    cases e with
    | file f => rfl
    | directory time =>
      rw [hf] at hsorted
      exact List.mergeSort_of_pairwise hsorted

/-- The targets of a site's assets, if none of them gets a fingerprint. -/
def plainTargets (c : Config) (t : Tree) : List (String × Option String × String) :=
  (Collection.ofFiles c (Discovery.sources t c)).map fun a =>
    (a.source.text, a.language, (a.targetPath c none).text)

/-- A language that ends like another one, a separator in a language, and the extension that
transpiling changes make two assets share a target. -/
theorem exists_shared_target :
    let pages : Tree := { entries := [(["html"], .directory 0),
      (["html", "a-pt.html"], Sample.source "b"), (["html", "a.html"], Sample.source "a")] }
    let scripts : Tree := { entries := [(["scripts"], .directory 0),
      (["scripts", "_a.coffee"], Sample.source "a"), (["scripts", "_a.js"], Sample.source "b")] }
    let regional : Config := { markup := ⟨⟨"html"⟩, ⟨"public"⟩, ["br", "pt-br"]⟩ }
    let nested : Config := { markup := ⟨⟨"html"⟩, ⟨"public"⟩, ["x/y", "x//y"]⟩ }
    regional.validate = .ok regional ∧ nested.validate = .ok nested ∧
      Config.validate {} = .ok {} ∧ pages.WellFormed ∧ scripts.WellFormed ∧
      plainTargets regional pages = [
        ("html/a-pt.html", some "br", "public/a-pt-br.html"),
        ("html/a-pt.html", some "pt-br", "public/a-pt-pt-br.html"),
        ("html/a.html", some "br", "public/a-br.html"),
        ("html/a.html", some "pt-br", "public/a-pt-br.html")] ∧
      plainTargets {} scripts = [
        ("scripts/_a.coffee", none, "build/partials/scripts/_a.js"),
        ("scripts/_a.js", none, "build/partials/scripts/_a.js")] ∧
      plainTargets nested pages = [
        ("html/a-pt.html", some "x/y", "public/a-pt-x/y.html"),
        ("html/a-pt.html", some "x//y", "public/a-pt-x//y.html"),
        ("html/a.html", some "x/y", "public/a-x/y.html"),
        ("html/a.html", some "x//y", "public/a-x//y.html")] ∧
      ((⟨"public/a-x/y.html"⟩ : Path) == ⟨"public/a-x//y.html"⟩) = true := by
  intro pages scripts regional nested
  have hregional := sources_of_pairwise (t := pages) (c := regional) (by decide +kernel)
  have hscripts := sources_of_pairwise (t := scripts) (c := {}) (by decide +kernel)
  have hnested := sources_of_pairwise (t := pages) (c := nested) (by decide +kernel)
  refine ⟨?_, ?_, ?_, ?_, ?_, ?_, ?_, ?_, ?_⟩
  · decide +kernel
  · decide +kernel
  · decide +kernel
  · decide +kernel
  · decide +kernel
  · rw [plainTargets, hregional]
    decide +kernel
  · rw [plainTargets, hscripts]
    decide +kernel
  · rw [plainTargets, hnested]
    decide +kernel
  · decide +kernel

end Build

end AssetCompiler
