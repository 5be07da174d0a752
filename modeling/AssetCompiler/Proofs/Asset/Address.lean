import AssetCompiler.Proofs.Asset.References
import AssetCompiler.Proofs.Asset.Sharing
import AssetCompiler.Proofs.Directive.Tokens
import AssetCompiler.Proofs.Path.Partial

/-! # Addresses of public files

A file is discovered by its extension, the path in a directive is read by its characters and its
extension, and the file it refers to is looked up by its path. The three agree on every file whose
path needs no other characters and whose extension is in lower case.
-/
namespace AssetCompiler

open Naming (named IsNamed)
open Text (size)

/-- The directive that asks for the address of a file, and its text. Markup has no address. -/
def Kind.address? (path : String) : Kind → Option (Directive × String)
  | .markup => none
  | .stylesheet => some (.stylesheetUrl path, "[%= stylesheet_url " ++ path ++ " %]")
  | .script => some (.scriptUrl path, "[%= script_url " ++ path ++ " %]")
  | .image => some (.imageUrl path, "[%= image_url " ++ path ++ " %]")

/-- The characters of paths that directives can write, a backslash apart. -/
def IsPlain (s : String) : Prop :=
  ∀ c ∈ s.toList, c.isAlphanum = true ∨ c ∈ ['_', '-', '.', '/']

-- By way of the characters of the text, not of all that there are.
instance (s : String) : Decidable (IsPlain s) := List.decidableBAll _ _

theorem IsPlain.isPathChar {s : String} (h : IsPlain s) : ∀ c ∈ s.toList, Form.isPathChar c = true := by
  intro c hc
  have hcases := h c hc
  simp only [List.mem_cons, List.not_mem_nil, or_false] at hcases
  rcases hcases with hc | rfl | rfl | rfl | rfl
  · simp [Form.isPathChar, Form.isWordChar, hc]
  all_goals decide

theorem IsPlain.forwardSlashes {s : String} (h : IsPlain s) : Naming.forwardSlashes s = s :=
  Naming.forwardSlashes_eq_self fun hc => absurd (h _ hc) (by decide)

namespace Asset.PlacedAt

variable {c : Config} {a : Asset} {dir : List String} {stem extension : List Char}

/-- The path from the source root has the file's extension behind a stem. -/
theorem hasExtension (h : PlacedAt c a dir stem extension)
    (hplain : IsPlain (a.relativeSource c).text)
    (hlower : ∀ e, a.source.extension? = some e → Kind.lowerAscii e = e) :
    HasExtension a.kind.extensions (a.relativeSource c).text.toList := by
  have hmem := Kind.ofExtension?_eq_some_iff.mp h.kind_eq
  rw [hlower _ h.extension?_source] at hmem
  obtain ⟨front, hfront⟩ : ∃ front : List Char,
      (a.relativeSource c).text.toList = front ++ stem ++ '.' :: extension := by
    rw [h.relativeSource_eq]
    by_cases hdir : dir = []
    · exact ⟨[], by simp [hdir, named]⟩
    · rw [Path.text_ofNames_concat hdir]
      exact ⟨(Path.ofNames dir).text.toList ++ ['/'], by simp [named]⟩
  refine ⟨front ++ stem, _, hmem, ⟨?_, ?_⟩, by rw [hfront, String.toList_ofList]⟩
  · simp [h.isNamed.stem_ne]
  · intro c hc
    exact hplain.isPathChar c (hfront ▸ List.mem_append_left _ hc)

end Asset.PlacedAt

namespace Collection

variable {c : Config} {as : Collection} {a m : Asset} {i : Nat} {files : Tree}

theorem ofPath?_source_of_mem_ofFiles {ps : List Path} (h : a ∈ ofFiles c ps) :
    Kind.ofPath? a.source = some a.kind := by
  obtain ⟨p, _, k, l, hk, _, rfl⟩ := exists_of_mem_ofFiles h
  exact hk

/-- What is not markup is in no language in a valid configuration. -/
theorem language_eq_none_of_mem_ofFiles (hvalid : c.validate = .ok c) {ps : List Path}
    (h : a ∈ ofFiles c ps) (hk : a.kind ≠ .markup) : a.language = none := by
  have hvariant := language_mem_variants h
  rwa [variants, if_pos (Config.languages_eq_nil hvalid hk), List.mem_singleton] at hvariant

theorem exists_placedAt_of_mem_ofFiles (hvalid : c.validate = .ok c) (hw : files.WellFormed)
    (h : a ∈ ofFiles c (Discovery.sources files c)) (hk : a.kind ≠ .markup) :
    ∃ dir stem extension, a.PlacedAt c dir stem extension := by
  have hlanguage := language_eq_none_of_mem_ofFiles hvalid h hk
  obtain ⟨p, hp, k, l, hpath, _, rfl⟩ := exists_of_mem_ofFiles h
  obtain ⟨kind, dir, stem, extension, hne, hd, hn, hsource, hext, hkind⟩ :=
    Discovery.exists_names_of_mem_sources hw hp
  obtain rfl : kind = k := Option.some.inj (hkind.symm.trans hpath)
  refine ⟨dir, stem, extension, hne, hd, hn, hsource, hext, fun l' hl' => ?_⟩
  rw [hlanguage] at hl'
  cases hl'

section Stages

-- Reading assets one after another changes what is known of them, but never which they are.
variable {ps : List Path} (has : as.map Asset.identity = (ofFiles c ps).map Asset.identity)
include has

theorem exists_mem_ofFiles_of_identities (hi : i < as.length) :
    ∃ b ∈ ofFiles c ps, b.identity = (as.get i).identity :=
  ⟨_, mem_get (length_eq_of_identities has ▸ hi), (identity_get_congr has i).symm⟩

/-- The path of a file that is not markup means its asset, whatever language asks for it. -/
theorem findFor?_of_identities (hvalid : c.validate = .ok c) (hi : i < as.length)
    (hk : (as.get i).kind ≠ .markup) (language : Option String) :
    as.findFor? (as.get i).source language = some i := by
  have hdistinct : as.Distinct := distinct_congr has.symm (distinct_ofFiles c ps)
  obtain ⟨b, hb, hid⟩ := exists_mem_ofFiles_of_identities has hi
  obtain ⟨hkind, hsource, hlanguage⟩ := Asset.identity_eq_iff.mp hid
  have hnone : (as.get i).language = none :=
    hlanguage ▸ language_eq_none_of_mem_ofFiles hvalid hb (hkind ▸ hk)
  have hself : as.indexOf? (as.get i).source none = some i :=
    hdistinct.indexOf?_of_hasIdentity hi (hnone ▸ (as.get i).hasIdentity_self)
  have hother (l : String) : as.indexOf? (as.get i).source (some l) = none := by
    by_contra hne
    obtain ⟨j, hj⟩ := Option.ne_none_iff_exists'.mp hne
    obtain ⟨hlt, hidentity⟩ := indexOf?_eq_some hj
    obtain ⟨hbeq, hl⟩ := Asset.hasIdentity_iff.mp hidentity
    obtain ⟨b', hb', hid'⟩ := exists_mem_ofFiles_of_identities has hlt
    obtain ⟨-, hsource', hlanguage'⟩ := Asset.identity_eq_iff.mp hid'
    have hsame : b'.kind = b.kind := by
      have hpath := Kind.ofPath?_congr hbeq
      rw [← hsource, ← hsource', ofPath?_source_of_mem_ofFiles hb,
        ofPath?_source_of_mem_ofFiles hb'] at hpath
      exact Option.some.inj hpath
    have hnone' := language_eq_none_of_mem_ofFiles hvalid hb' (hsame ▸ hkind ▸ hk)
    rw [hlanguage', hl] at hnone'
    cases hnone'
  unfold findFor?
  cases language with
  | none => exact hself
  | some l => simp only [Option.bind_some, hother, hself]

end Stages

/-- A path from the source root leads a reference to the source. -/
theorem referencePath_relativeSource {dir : List String} {stem extension : List Char}
    (h : a.PlacedAt c dir stem extension) (hplain : IsPlain (a.relativeSource c).text) :
    referencePath c ⟨a.kind, (a.relativeSource c).text, false⟩ = a.source := by
  rw [h.relativeSource_eq] at hplain ⊢
  simp only [referencePath, Bool.false_eq_true, if_false, hplain.forwardSlashes]
  exact h.source_eq.symm

/-- A text of one directive that refers to an asset has one occurrence, which depends on it. -/
theorem withText_of_single {text : String} {o : Occurrence} {r : Reference}
    (hone : occurrences m.kind text = [o]) (hr : o.directive.reference? m.kind = some r)
    (hfind : as.findFor? (referencePath c r) m.language = some i) :
    withText c as m text =
      ({ m with
          content := some text
          occurrences := [{ o with dependency? := some i }]
          dependencies := [i]
          unresolved := [] }, []) := by
  simp [withText, hone, link, hr, hfind, addNew]

/-- The text that asks for the address of a file of a plain path is one directive. -/
theorem occurrences_address {kind : Kind} {path text : String} {d : Directive}
    (h : kind.address? path = some (d, text))
    (hextension : HasExtension kind.extensions path.toList) :
    occurrences .markup text = [⟨⟨0, size text.toList⟩, d, none⟩] ∧
      d.reference? .markup = some ⟨kind, path, false⟩ := by
  have hone {f : Form} {d : Directive} {u : List Char} (hf : f ∈ Form.ofKind .markup)
      (hu : f.Spelled d u) (htext : text.toList = u) :
      occurrences .markup text = [⟨⟨0, size text.toList⟩, d, none⟩] := by
    have hoccurrences := occurrences_of_spelled hf hu
    rwa [← htext, String.ofList_toList] at hoccurrences
  cases kind with
  | markup => cases h
  | stylesheet =>
    cases h
    have hspelled := Form.Spelled.stylesheetUrl path.toList hextension
    rw [String.ofList_toList] at hspelled
    exact ⟨hone (by decide) hspelled (by simp only [String.toList_append]), rfl⟩
  | script =>
    cases h
    have hspelled := Form.Spelled.scriptUrl path.toList hextension
    rw [String.ofList_toList] at hspelled
    exact ⟨hone (by decide) hspelled (by simp only [String.toList_append]), rfl⟩
  | image =>
    cases h
    have hspelled := Form.Spelled.imageUrl path.toList hextension
    rw [String.ofList_toList] at hspelled
    exact ⟨hone (by decide) hspelled (by simp only [String.toList_append]), rfl⟩

/-- A page that asks for the address of a discovered file that is not markup, by a plain path and
an extension in lower case, is read as one directive that depends on the file's asset, and nothing
is left unresolved. -/
theorem parse_address (hvalid : c.validate = .ok c) (hw : files.WellFormed)
    (has : as.map Asset.identity = (ofFiles c (Discovery.sources files c)).map Asset.identity)
    (hi : i < as.length) (hplain : IsPlain ((as.get i).relativeSource c).text)
    (hlower : ∀ e, (as.get i).source.extension? = some e → Kind.lowerAscii e = e)
    {d : Directive} {text : String}
    (haddress : (as.get i).kind.address? ((as.get i).relativeSource c).text = some (d, text))
    {bytes : ByteArray} (hm : m.kind = .markup) (hread : files.read m.source = .ok bytes)
    (htext : String.fromUTF8? bytes = some text) :
    ∃ page, parse files c as m = .ok (page, []) ∧
      page.occurrences = [⟨⟨0, size text.toList⟩, d, some i⟩] ∧
      page.dependencies = [i] ∧ page.unresolved = [] := by
  have hk : (as.get i).kind ≠ .markup := by
    intro hmarkup
    rw [hmarkup] at haddress
    cases haddress
  obtain ⟨b, hb, hid⟩ := exists_mem_ofFiles_of_identities has hi
  have hkind := (Asset.identity_eq_iff.mp hid).1
  obtain ⟨dir, stem, extension, hplaced⟩ :=
    Asset.placed_congr hid (exists_placedAt_of_mem_ofFiles hvalid hw hb (hkind ▸ hk))
  obtain ⟨hone, hreference⟩ := occurrences_address haddress (hplaced.hasExtension hplain hlower)
  have hfind := findFor?_of_identities has hvalid hi hk m.language
  rw [← referencePath_relativeSource hplaced hplain] at hfind
  have hparse : parse files c as m = .ok (withText c as m text) := by
    simp [parse, hm, hread, htext]
  rw [← hm] at hone hreference
  rw [hparse, withText_of_single hone hreference hfind]
  exact ⟨_, rfl, rfl, rfl, rfl⟩

end Collection

namespace Sample

/-- A site of a page with the given text and an image of the given name. -/
def illustrated (text name : String) : Tree where
  entries := [
    (["html"], .directory 0),
    (["html", "page.html"], .file { bytes := text.toUTF8, modified := 5 }),
    (["images"], .directory 0),
    (["images", "icons"], .directory 0),
    (["images", "icons", name], .file { bytes := "x".toUTF8, modified := 5 })]

def illustratedAssets (text name : String) : Collection :=
  Collection.ofFiles {} (Discovery.sources (illustrated text name) {})

end Sample

namespace Collection

open Sample in
theorem parse_address_nested :
    let text := "[%= image_url icons/logo-2.png %]"
    let as := illustratedAssets text "logo-2.png"
    (as.get 1).source = ⟨"images/icons/logo-2.png"⟩ ∧
      ∃ page, parse (illustrated text "logo-2.png") {} as (as.get 0) = .ok (page, []) ∧
        page.occurrences = [⟨⟨0, size text.toList⟩, .imageUrl "icons/logo-2.png", some 1⟩] ∧
        page.dependencies = [1] ∧ page.unresolved = [] := by
  intro text as
  have hlength : 1 < as.length := by decide +kernel
  have hsource : (as.get 1).source = ⟨"images/icons/logo-2.png"⟩ := by decide +kernel
  have hrelative : ((as.get 1).relativeSource {}).text = "icons/logo-2.png" := by decide +kernel
  have hkind : (as.get 1).kind = .image := by decide +kernel
  have hplain : IsPlain ((as.get 1).relativeSource {}).text := by
    rw [hrelative]
    decide +kernel
  have hlower : ∀ e, (as.get 1).source.extension? = some e → Kind.lowerAscii e = e := by
    rw [hsource]
    decide +kernel
  have haddress : (as.get 1).kind.address? ((as.get 1).relativeSource {}).text =
      some (.imageUrl "icons/logo-2.png", text) := by
    rw [hkind, hrelative]
    rfl
  have hmarkup : (as.get 0).kind = .markup := by decide +kernel
  have hread : (illustrated text "logo-2.png").read (as.get 0).source = .ok text.toUTF8 := by
    have hpage : (as.get 0).source = ⟨"html/page.html"⟩ := by decide +kernel
    rw [hpage]
    decide +kernel
  exact ⟨hsource, parse_address (by decide +kernel) (by decide +kernel) rfl hlength hplain hlower
    haddress hmarkup hread (by decide +kernel)⟩

open Sample in
/-- An image is discovered whatever the case of its extension, but its path is no path of an image
in a directive when the extension is not in lower case: the page keeps the text as it is. -/
theorem exists_unaddressed :
    let text := "[%= image_url icons/logo-2.PNG %]"
    let as := illustratedAssets text "logo-2.PNG"
    ((as.get 1).kind = .image ∧ (as.get 1).isPartial = false ∧
      ((as.get 1).relativeSource {}).text = "icons/logo-2.PNG" ∧ IsPlain "icons/logo-2.PNG") ∧
      (parse (illustrated text "logo-2.PNG") {} as (as.get 0)).toOption.map
        (fun read => (read.1.kind, read.1.occurrences.length, read.1.dependencies)) =
          some (.markup, 0, []) := by
  intro text as
  exact ⟨⟨by decide +kernel, by decide +kernel, by decide +kernel, by decide +kernel⟩, by decide +kernel⟩

end Collection

end AssetCompiler
