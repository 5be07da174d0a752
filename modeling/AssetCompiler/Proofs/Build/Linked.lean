import AssetCompiler.Proofs.Asset.Anchored
import AssetCompiler.Proofs.Build.Coherent
import AssetCompiler.Proofs.Directive.Tokens

/-! # What stylesheets refer to

The path in a directive of a stylesheet ends in an extension that the directive asks for. So what an
include means is a stylesheet, and what a link means is an image.
-/
namespace AssetCompiler

open Collection (referencePath linked meant? written)
open Plan (unread)

/-- A path whose last piece has the given extension. -/
def Path.EndsWith (p : Path) (extension : List Char) : Prop :=
  ∃ front, p.parts.getLast? = some (front ++ '.' :: extension)

/-- An extension of stylesheets or images, as directives spell it. -/
structure IsSuffix (extension : List Char) : Prop where
  ne_nil : extension ≠ []
  no_dot : '.' ∉ extension
  flat : '/' ∉ extension
  forward : '\\' ∉ extension

namespace Path

variable {p q : Path} {extension : List Char}

theorem EndsWith.join (h : q.EndsWith extension) (p : Path) : (p.join q).EndsWith extension := by
  obtain ⟨front, hfront⟩ := h
  exact ⟨front, (getLast?_parts_join p q).trans hfront⟩

theorem EndsWith.fileName? (h : p.EndsWith extension) (he : IsSuffix extension) :
    ∃ front, p.fileName? = some (String.ofList (front ++ '.' :: extension)) ∧
      '/' ∉ front ++ '.' :: extension := by
  obtain ⟨front, hlast⟩ := h
  have hflat := Text.not_mem_of_mem_pieces (List.mem_of_getLast? hlast)
  refine ⟨front, fileName?_of_getLast? (isName_extended he.ne_nil he.no_dot hflat) ?_, hflat⟩
  rw [hlast, String.toList_ofList]

/-- A path to a file of a kind ends in an extension of the kind. -/
theorem EndsWith.kind_eq {kind : Kind} (h : p.EndsWith extension) (he : IsSuffix extension)
    (hkind : Kind.ofPath? p = some kind) :
    Kind.ofExtension? (String.ofList extension) = some kind := by
  obtain ⟨front, hname, _⟩ := h.fileName? he
  rw [Kind.ofPath?, extension?, hname, Option.bind_some, String.toList_ofList] at hkind
  cases front with
  | nil =>
    have hsplit : splitName ('.' :: extension) = ('.' :: extension, none) :=
      Splits.splitName_eq (.whole he.no_dot)
    rw [List.nil_append, hsplit] at hkind
    cases hkind
  | cons c cs =>
    rwa [splitName_append_dot (List.cons_ne_nil c cs) he.no_dot] at hkind

theorem endsWith_name {front : List Char} (hflat : '/' ∉ front ++ '.' :: extension) :
    EndsWith ⟨String.ofList (front ++ '.' :: extension)⟩ extension :=
  ⟨front, by rw [parts_of_text, Text.pieces_eq_singleton hflat]; rfl⟩

end Path

namespace Naming

variable {path : String} {stem extension : List Char}

theorem endsWith_forwardSlashes (h : path.toList = stem ++ '.' :: extension) (he : IsSuffix extension) :
    Path.EndsWith ⟨forwardSlashes path⟩ extension := by
  have hkept : extension.map (fun c => if c = '\\' then '/' else c) = extension := by
    refine (List.map_congr_left fun c hc => if_neg ?_).trans (List.map_id _)
    exact fun hback => he.forward (hback ▸ hc)
  have hback : '/' ∉ '.' :: extension := by simp [he.flat]
  obtain ⟨ps, front, hpieces⟩ :=
    Text.exists_pieces_append hback (stem.map fun c => if c = '\\' then '/' else c)
  refine ⟨front, ?_⟩
  rw [forwardSlashes, Path.parts_of_text, h, List.map_append, List.map_cons, hkept, if_neg (by decide),
    hpieces, List.getLast?_concat]

/-- The partial that a reference names has the extension of the reference. -/
theorem endsWith_partialReference (h : path.toList = stem ++ '.' :: extension) (he : IsSuffix extension) :
    (partialReference path none).EndsWith extension := by
  obtain ⟨front, hname, hflat⟩ := (endsWith_forwardSlashes h he).fileName? he
  have hmarked : Path.EndsWith ⟨markName (String.ofList (front ++ '.' :: extension))⟩ extension := by
    unfold markName
    split
    · exact Path.endsWith_name hflat
    · rw [String.toList_ofList, ← List.cons_append]
      refine Path.endsWith_name ?_
      rw [List.cons_append, List.mem_cons, not_or]
      exact ⟨by decide, hflat⟩
  have hpath : Path.ofString (forwardSlashes path) = ⟨forwardSlashes path⟩ := rfl
  unfold partialReference
  dsimp only
  rw [hpath, hname, Option.getD_some, completeName]
  split
  · split
    · exact hmarked
    · exact hmarked.join _
  · exact hmarked

end Naming

instance (extension : List Char) : Decidable (IsSuffix extension) :=
  decidable_of_iff (extension ≠ [] ∧ '.' ∉ extension ∧ '/' ∉ extension ∧ '\\' ∉ extension)
    ⟨fun ⟨h1, h2, h3, h4⟩ => ⟨h1, h2, h3, h4⟩, fun h => ⟨h.1, h.2, h.3, h.4⟩⟩

/-- A reference by a path with an extension of the kind that it asks for. -/
def Reference.IsTyped (r : Reference) : Prop :=
  ∃ stem extension, r.path.toList = stem ++ '.' :: extension ∧ IsSuffix extension ∧
    Kind.ofExtension? (String.ofList extension) = some r.kind

theorem Reference.IsTyped.of_hasExtension {kind : Kind} {path : List Char} (isInclude : Bool)
    (h : HasExtension kind.extensions path) : IsTyped ⟨kind, String.ofList path, isInclude⟩ := by
  obtain ⟨stem, e, he, _, rfl⟩ := h
  have hall : ∀ k : Kind, ∀ e ∈ k.extensions,
      IsSuffix e.toList ∧ Kind.ofExtension? (String.ofList e.toList) = some k := by
    intro k
    cases k <;> decide
  obtain ⟨hsuffix, hkind⟩ := hall kind e he
  exact ⟨stem, e.toList, String.toList_ofList, hsuffix, hkind⟩

theorem Directive.reference?_of_isEmbed {d : Directive} (h : d.isEmbed = true) (owner : Kind) :
    ∃ path, d.reference? owner = some ⟨owner, path, true⟩ := by
  cases d with
  | embed path escaped => exact ⟨path, rfl⟩
  | _ => cases h

/-- What a directive of a stylesheet refers to, it refers to by an extension of its kind. -/
theorem isTyped_of_mem_occurrences {text : String} {o : Occurrence} {r : Reference}
    (h : o ∈ occurrences .stylesheet text) (hr : o.directive.reference? .stylesheet = some r) :
    r.kind ≠ .markup ∧ r.IsTyped := by
  obtain ⟨_, f, _, u, _, _, hf, hspelled, _⟩ := stands_of_mem_scanFrom [] text.toList h
  generalize o.directive = d at hspelled hr
  cases hspelled with
  | stylesheetInclude path hpath =>
    cases hr
    exact ⟨Kind.noConfusion, .of_hasExtension true hpath⟩
  | imageUrl path hpath | imagePath path hpath =>
    cases hr
    exact ⟨Kind.noConfusion, .of_hasExtension false hpath⟩
  | markupInclude | escapedInclude | scriptInclude | stylesheetUrl | scriptUrl =>
    exact absurd hf (by decide)
  | _ => cases hr

namespace Collection

variable {c : Config} {as : Collection} {a : Asset} {d : Nat}

/-- A typed reference means an asset of the kind that it asks for. -/
theorem kind_of_meant {o : Occurrence} {r : Reference}
    (hknown : ∀ i < as.length, Kind.ofPath? (as.get i).source = some (as.get i).kind)
    (hr : o.directive.reference? a.kind = some r) (hk : r.kind ≠ .markup) (htyped : r.IsTyped)
    (h : meant? c as a o = some d) : d < as.length ∧ (as.get d).kind = r.kind := by
  obtain ⟨stem, extension, hpath, hsuffix, hkind⟩ := htyped
  rw [meant?, hr, Option.bind_some] at h
  obtain ⟨hd, hsame, _⟩ := findFor?_eq_some h
  have hends : (referencePath c r).EndsWith extension := by
    unfold referencePath
    rw [if_neg hk]
    dsimp only
    split
    · exact (Naming.endsWith_partialReference hpath hsuffix).join _
    · exact (Naming.endsWith_forwardSlashes hpath hsuffix).join _
  have hmeant := hends.kind_eq hsuffix ((Kind.ofPath?_congr hsame).symm.trans (hknown d hd))
  rw [hkind] at hmeant
  exact ⟨hd, (Option.some.inj hmeant).symm⟩

end Collection

namespace Plan.Made

variable {c : Config} {files : Tree} {p : Plan} {i d : Nat}

theorem ofPath?_source (h : Made c files p) (hi : i < p.assets.length) :
    Kind.ofPath? (p.assets.get i).source = some (p.assets.get i).kind := by
  obtain ⟨b, hb, hid⟩ := Collection.exists_mem_ofFiles_of_identities h.identities hi
  obtain ⟨hkind, hsource, _⟩ := Asset.identity_eq_iff.mp hid
  rw [← hkind, ← hsource]
  exact Collection.ofPath?_source_of_mem_ofFiles hb

/-- An occurrence with a dependency stands in the text and means the dependency. -/
theorem meant_of_occurrence (h : Made c files p) (hi : i < p.assets.length) {o : Occurrence}
    (ho : o ∈ (p.assets.get i).occurrences) (hd : o.dependency? = some d) :
    d ∈ (p.assets.get i).dependencies ∧ ∃ m text, m ∈ occurrences (p.assets.get i).kind text ∧
      m.directive = o.directive ∧ meant? c p.assets (unread (p.assets.get i)) m = some d := by
  obtain ⟨log, hparse⟩ := h.read _ (Collection.mem_get hi)
  by_cases hk : (p.assets.get i).kind = .image
  · have hk' : (unread (p.assets.get i)).kind = .image := hk
    rw [Collection.parse_image hk'] at hparse
    rw [← (Prod.mk.inj (Except.ok.inj hparse)).1] at ho
    cases ho
  · obtain ⟨hread, hcontent⟩ := Collection.parse_eq_ok hparse
    obtain ⟨bytes, hbytes⟩ := hread hk
    obtain ⟨_, hoccurrences, hdependencies⟩ := Collection.readAs_unread c p.assets (p.assets.get i) bytes
    rw [← hcontent bytes hbytes] at hoccurrences hdependencies
    rw [hoccurrences] at ho
    obtain ⟨m, hwritten, rfl⟩ := List.mem_map.mp ho
    have hmeant : meant? c p.assets (unread (p.assets.get i)) m = some d := by
      rwa [Collection.dependency?_linked (Collection.dependency?_of_mem_written hwritten)] at hd
    refine ⟨(hdependencies d).mpr ⟨m, hwritten, hmeant⟩, m, ?_⟩
    unfold Collection.written at hwritten
    split at hwritten
    · rename_i text _
      exact ⟨text, hwritten, (Collection.directive_linked ..).symm, hmeant⟩
    · cases hwritten

/-- A directive of a planned stylesheet means a dependency, of the kind that it asks for. -/
theorem dependency_of_occurrence (h : Made c files p) (hi : i < p.assets.length)
    (hk : (p.assets.get i).kind = .stylesheet) {o : Occurrence}
    (ho : o ∈ (p.assets.get i).occurrences) (hd : o.dependency? = some d) :
    d ∈ (p.assets.get i).dependencies ∧ d < p.assets.length ∧
      ∃ r, o.directive.reference? .stylesheet = some r ∧ (p.assets.get d).kind = r.kind := by
  obtain ⟨hmem, m, text, hm, hdirective, hmeant⟩ := h.meant_of_occurrence hi ho hd
  have hunread : (unread (p.assets.get i)).kind = .stylesheet := hk
  rw [hk] at hm
  obtain ⟨r, hr, _⟩ := Option.bind_eq_some_iff.mp hmeant
  have hr' := hr
  rw [hunread] at hr'
  obtain ⟨hmarkup, htyped⟩ := isTyped_of_mem_occurrences hm hr'
  obtain ⟨hlt, hkind⟩ := Collection.kind_of_meant (fun j hj => h.ofPath?_source hj) hr hmarkup htyped hmeant
  exact ⟨hmem, hlt, r, hdirective ▸ hr', hkind⟩

/-- It means the same when targets are known. -/
theorem dependency_of_bare (h : Made c files p) {as : Collection} (hbare : as.bare = p.assets.bare)
    (hi : i < p.assets.length) (hk : (as.get i).kind = .stylesheet) {o : Occurrence}
    (ho : o ∈ (as.get i).occurrences) (hd : o.dependency? = some d) :
    d ∈ (p.assets.get i).dependencies ∧ d < p.assets.length ∧
      ∃ r, o.directive.reference? .stylesheet = some r ∧ (as.get d).kind = r.kind := by
  have hsame (j : Nat) := Collection.bare_get_congr hbare j
  have hkind := congrArg Asset.kind (hsame i)
  have hoccurrences := congrArg Asset.occurrences (hsame i)
  have hdependency := congrArg Asset.kind (hsame d)
  change (as.get i).kind = (p.assets.get i).kind at hkind
  change (as.get i).occurrences = (p.assets.get i).occurrences at hoccurrences
  change (as.get d).kind = (p.assets.get d).kind at hdependency
  rw [hdependency]
  exact h.dependency_of_occurrence hi (hkind ▸ hk) (hoccurrences ▸ ho) hd

end Plan.Made

end AssetCompiler
