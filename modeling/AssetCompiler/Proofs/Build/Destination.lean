import AssetCompiler.Proofs.Build.History
import AssetCompiler.Proofs.Path.Relative
import AssetCompiler.Proofs.Path.Siblings

/-! # Where stylesheets are written

A stylesheet is written into the directory that its links are made for, whichever fingerprint its
name is given. The links made for a directory lead from there to their targets and climb no more
than they have to.
-/
namespace AssetCompiler

open Naming (relativeLink)

/-- A path that leads to a file ends in a name. -/
theorem Tree.exists_fileName?_of_file {t : Tree} {p : Path} {f : File} (hw : t.WellFormed)
    (h : t.file p = .ok f) :
    ∃ n, p.fileName? = some n := by
  obtain ⟨l, hl, hat⟩ := file_eq_ok_iff.mp h
  have hnot : ¬t.IsDir l := fun hd => by
    rw [fileAt?_eq_none_of_isDir hd] at hat
    cases hat
  obtain ⟨front, piece, hparts⟩ := (List.eq_nil_or_concat' p.parts).resolve_left p.parts_ne_nil
  unfold locate at hl
  split_ifs at hl
  rw [← Path.parts, hparts, List.foldlM_append] at hl
  cases hfront : front.foldlM t.step (t.start p) with
  | error e =>
    rw [hfront] at hl
    cases hl
  | ok k =>
    rw [hfront] at hl
    have hstep : [piece].foldlM t.step k = .ok l := hl
    rw [List.foldlM_cons] at hstep
    simp only [List.foldlM_nil, bind_pure] at hstep
    -- Any other piece leads from a directory to a directory.
    obtain ⟨hk, rfl⟩ := step_eq_ok_iff.mp hstep
    unfold Path.follow at hnot
    split_ifs at hnot with hfiller hup
    · exact absurd hk hnot
    · exact absurd (hw.isDir_of_prefix (List.dropLast_prefix k) hk) hnot
    · have hflat : '/' ∉ piece := Text.not_mem_of_mem_pieces (show piece ∈ p.parts by simp [hparts])
      have hn := Path.isName_ofList hflat (Bool.eq_false_iff.mpr hfiller) hup
      exact ⟨String.ofList piece, Path.fileName?_of_getLast? hn (by simp [hparts])⟩

namespace Asset

/-- Whether the source lies below the source root of its kind. -/
def IsBelowRoot (a : Asset) (c : Config) : Prop :=
  ∃ more, more ≠ [] ∧ a.source.components = (c.sectionOf a.kind).source.components ++ more

variable {a : Asset} {c : Config}

/-- The name under which a target is written stands where the name of the source stood. -/
theorem parent?_targetPath_of_isBelowRoot {n : String} {fp? : Option String} (hbelow : a.IsBelowRoot c)
    (hn : a.source.fileName? = some n) (hkind : a.kind ≠ .script)
    (hlanguage : ∀ l, a.language = some l → '/' ∉ l.toList) (hflat : FlatFingerprint fp?) :
    (a.targetPath c fp?).parent? = some (a.targetDir c) := by
  obtain ⟨more, hne, hmore⟩ := hbelow
  obtain ⟨q, front, hstrip, hparts⟩ := Path.exists_parts_stripPrefix? hn hne hmore
  have hrelative : a.relativeSource c = q := by rw [relativeSource, hstrip, Option.getD_some]
  have hextension : (a.decoration fp?).extension = none := by
    have hnot : a.needsTranspile = false := by simp [needsTranspile, hkind]
    simp [decoration, hnot]
  have hdecoration : Naming.IsFlat (a.decoration fp?) :=
    ⟨hflat, hlanguage, fun e he => by rw [hextension] at he; cases he⟩
  obtain ⟨dir, htarget, hsource⟩ := Naming.exists_parent?_join_decorate hdecoration hextension
    (Path.isName_of_fileName? hn) hparts (a.targetRoot c)
  rw [targetPath, targetDir, hrelative, htarget, hsource, Option.getD_some]

end Asset

namespace Session

variable {x : Context} {s : Session} {a : Asset} {target : Path}

theorem exists_fileName?_of_newTarget (hw : s.work.files.WellFormed) (hkind : a.kind ≠ .markup)
    (h : (s.newTarget x a).1 = .ok target) : ∃ n, a.source.fileName? = some n := by
  have haims := aims_of_newTarget (Prod.eta (s.newTarget x a)).symm
  rw [h] at haims
  generalize (s.newTarget x a).2 = s' at haims
  cases haims with
  | drawn bytes _ hread =>
    obtain ⟨f, hf, _⟩ := Tree.read_eq_ok_iff.mp hread
    exact Tree.exists_fileName?_of_file hw hf
  | plain hplain =>
    have hpartial : Naming.isPartial a.source = true := by
      simpa [Asset.isFingerprinted, Asset.isPartial, hkind] using hplain
    unfold Naming.isPartial at hpartial
    split at hpartial
    · rename_i n hn
      exact ⟨n, hn⟩
    · cases hpartial

/-- A session with a stylesheet two directories below the home. -/
def themed : Session where
  work := Sample.site [
    (["stylesheets"], .directory 0),
    (["stylesheets", "themes"], .directory 0),
    (["stylesheets", "themes", "dark.css"], Sample.source "")]
  cache := { directory := ⟨"build"⟩, rows := [] }
  assets := []
  catalog := {}

end Session

end AssetCompiler
