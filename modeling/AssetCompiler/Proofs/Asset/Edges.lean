import AssetCompiler.Proofs.Asset.References
import AssetCompiler.Proofs.Directive.Spans
import AssetCompiler.Proofs.Path.Partial

/-! # The edges between assets

Reading a collection ties each directive that refers to a file to the asset that the file means for
its owner. What an asset depends on is read off its occurrences: the assets they are tied to, each
once and in order of first occurrence, and beside them the paths that mean no asset.
-/
namespace AssetCompiler

/-- Whether a directive includes a file or asks for an address of one. -/
def Directive.namesFile : Directive → Bool
  | embed .. | stylesheetUrl _ | scriptUrl _ | imageUrl _ | imagePath _ => true
  | _ => false

theorem Directive.isSome_reference? (owner : Kind) (d : Directive) :
    (d.reference? owner).isSome = d.namesFile := by
  cases d <;> rfl

/-- An occurrence as it is written. -/
def Occurrence.untied (o : Occurrence) : Occurrence := { o with dependency? := none }

namespace Asset

structure IsUntied (a : Asset) : Prop where
  occurrences : a.occurrences = []
  dependencies : a.dependencies = []
  unresolved : a.unresolved = []

/-- An asset has no edges until a text of it is read, and an image has none ever. -/
structure IsGrounded (a : Asset) : Prop where
  content : a.kind = .image → a.content = none
  untied : a.content = none → a.IsUntied

theorem isGrounded_ofSource (kind : Kind) (source : Path) (language : Option String) :
    (ofSource kind source language).IsGrounded where
  content _ := rfl
  untied _ := ⟨rfl, rfl, rfl⟩

end Asset

namespace Collection

variable {c : Config} {as bs : Collection} {a b : Asset} {i : Nat} {files : Tree}
  {w w' : Workspace} {log : List LogLine} {path : Path} {language : Option String}

section meaning

/-- The asset that a path means in a language: the one of that language or, where there is none,
the one of no language. -/
def Means (as : Collection) (path : Path) (language : Option String) (i : Nat) : Prop :=
  i < as.length ∧ ((as.get i).hasIdentity path language = true ∨
    (∀ a ∈ as, a.hasIdentity path language = false) ∧ (as.get i).hasIdentity path none = true)

theorem Means.source_beq (h : as.Means path language i) : ((as.get i).source == path) = true := by
  obtain ⟨_, hs | ⟨_, hs⟩⟩ := h
  · exact (Asset.hasIdentity_iff.mp hs).1
  · exact (Asset.hasIdentity_iff.mp hs).1

theorem findFor?_eq (as : Collection) (path : Path) (language : Option String) :
    as.findFor? path language = (as.indexOf? path language).or (as.indexOf? path none) := by
  unfold findFor?
  cases language with
  | none => cases as.indexOf? path none <;> rfl
  | some l =>
    rw [Option.bind_some]
    cases as.indexOf? path (some l) <;> rfl

theorem Distinct.findFor?_eq_some_iff (h : as.Distinct) :
    as.findFor? path language = some i ↔ as.Means path language i := by
  rw [findFor?_eq, Option.or_eq_some_iff, h.indexOf?_eq_some_iff, h.indexOf?_eq_some_iff,
    indexOf?_eq_none_iff, Means]
  tauto

end meaning

section reading

/-- The text that reading an asset comes to, if it comes to one. -/
def loaded? (files : Tree) (a : Asset) : Option String :=
  (files.read a.source).toOption.bind (textOf? a)

theorem loaded?_congr (h : a.identity = b.identity) : loaded? files a = loaded? files b := by
  obtain ⟨hkind, hsource, _⟩ := Asset.identity_eq_iff.mp h
  have htext : textOf? a = textOf? b := by
    funext bytes
    rw [textOf?, textOf?, hkind]
  rw [loaded?, loaded?, htext, hsource]

theorem parse_eq_loaded (h : parse files c as a = .ok (b, log)) :
    b = ((loaded? files a).map fun text => (withText c as a text).1).getD a := by
  obtain ⟨hread, hok⟩ := parse_eq_ok h
  unfold loaded?
  cases hr : files.read a.source with
  | error fault =>
    have hk : a.kind = .image := by
      by_contra hne
      obtain ⟨bytes, hbytes⟩ := hread hne
      rw [hr] at hbytes
      cases hbytes
    rw [parse_image hk] at h
    cases h
    rfl
  | ok bytes =>
    rw [hok bytes hr, readAs]
    dsimp only [Except.toOption, Option.bind_some]
    cases textOf? a bytes <;> rfl

theorem isGrounded_of_parse (ha : a.IsGrounded) (h : parse files c as a = .ok (b, log)) :
    b.IsGrounded := by
  rw [parse_eq_loaded h]
  cases hl : loaded? files a with
  | none => exact ha
  | some text =>
    refine ⟨fun hk => ?_, fun hnone => ?_⟩
    · have hk : a.kind = .image := hk
      have himage : textOf? a = fun _ => none := funext fun bytes => if_pos hk
      rw [loaded?, himage, Option.bind_fun_none] at hl
      cases hl
    · cases hnone

end reading

section assembling

/-- The collections that there are: assets of sources are added to the empty one, single assets are
read, whatever the files hold then, and are given targets. -/
inductive Assembled : Collection → Prop
  | empty : Assembled []
  | insert {as : Collection} (kind : Kind) (source : Path) (language : Option String) :
      Assembled as → Assembled (as.insert (.ofSource kind source language)).2
  | read {files : Tree} {c : Config} {as : Collection} {i : Nat} {b : Asset} {log : List LogLine} :
      Assembled as → parse files c as (as.get i) = .ok (b, log) → Assembled (as.update i fun _ => b)
  | compile {as : Collection} (i : Nat) (target : Option Path) (rebuilt : Bool) :
      Assembled as → Assembled (as.update i fun a => { a with target, rebuilt })

theorem assembled_ofFiles (c : Config) (paths : List Path) : Assembled (ofFiles c paths) := by
  have hsource : ∀ a ∈ paths.flatMap (ofFile c), ∃ k p l, a = .ofSource k p l := by
    intro a ha
    obtain ⟨p, _, ha⟩ := List.mem_flatMap.mp ha
    unfold ofFile at ha
    split at ha
    · obtain ⟨l, _, rfl⟩ := List.mem_map.mp ha
      exact ⟨_, p, l, rfl⟩
    · cases ha
  refine List.foldlRecOn _ _ Assembled.empty fun as has a ha => ?_
  obtain ⟨k, p, l, rfl⟩ := hsource a ha
  exact has.insert k p l

/-- Reading one asset after another leaves such a collection, also when it stops at one that cannot
be read. -/
theorem assembled_parseFrom (has : Assembled as) (i n : Nat) :
    Assembled (parseFrom c i n as w).2.1 := by
  induction n generalizing i as w with
  | zero => exact has
  | succ n ih =>
    unfold parseFrom
    cases hp : parse w.files c as (as.get i) with
    | error e => exact has
    | ok r => exact ih (has.read hp) (i + 1)

theorem forall_mem_update {P : Asset → Prop} {f : Asset → Asset} (has : ∀ a ∈ as, P a)
    (hf : i < as.length → P (f (as.get i))) : ∀ a ∈ as.update i f, P a := by
  intro a ha
  obtain ⟨j, hj, rfl⟩ := exists_get_of_mem ha
  rw [length_update] at hj
  by_cases he : i = j
  · subst he
    rw [get_update_self hj]
    exact hf hj
  · rw [get_update_of_ne he]
    exact has _ (mem_get hj)

theorem Assembled.distinct (h : Assembled as) : as.Distinct := by
  induction h with
  | empty => exact List.Pairwise.nil
  | insert kind source language _ ih => exact distinct_insert ih _
  | read _ hp ih => exact distinct_congr (identities_update (identity_of_parse hp)).symm ih
  | compile i target rebuilt _ ih =>
    refine distinct_congr (identities_of_bare (bare_update fun a => ?_)).symm ih
    rfl

theorem Assembled.isGrounded (h : Assembled as) : ∀ a ∈ as, a.IsGrounded := by
  induction h with
  | empty => exact fun _ ha => absurd ha List.not_mem_nil
  | insert kind source language _ ih =>
    intro a ha
    rcases mem_insert ha with rfl | ha
    · exact Asset.isGrounded_ofSource kind source language
    · exact ih a ha
  | read _ hp ih => exact forall_mem_update ih fun hi => isGrounded_of_parse (ih _ (mem_get hi)) hp
  | compile i target rebuilt _ ih =>
    refine forall_mem_update ih fun hi => ?_
    obtain ⟨hcontent, huntied⟩ := ih _ (mem_get hi)
    refine ⟨hcontent, fun hnone => ?_⟩
    obtain ⟨ho, hd, hu⟩ := huntied hnone
    exact ⟨ho, hd, hu⟩

end assembling

section linking

/-- Adding elements one after another, each unless it is there, leaves each where it came first. -/
theorem foldl_addNew {α : Type} [BEq α] (xs : List α) :
    xs.foldl (fun ys x => addNew x ys) [] = xs.eraseDups := by
  have hloop (seen : List α) : xs.foldl (fun ys x => addNew x ys) seen =
      List.eraseDupsBy.loop (· == ·) xs seen.reverse := by
    induction xs generalizing seen with
    | nil => simp [List.eraseDupsBy.loop]
    | cons x xs ih =>
      rw [List.foldl_cons, ih, addNew, List.eraseDupsBy.loop, List.any_reverse,
        ← List.contains_eq_any_beq]
      cases seen.contains x <;> simp
  exact hloop []

theorem pairwise_eraseDups {α : Type} [BEq α] (xs : List α) :
    xs.eraseDups.Pairwise fun x y => (y == x) = false := by
  rw [← foldl_addNew]
  refine List.foldlRecOn _ _ List.Pairwise.nil fun ys hys x _ => ?_
  unfold addNew
  split
  · exact hys
  · rename_i hx
    refine List.pairwise_append.mpr ⟨hys, List.pairwise_singleton _ _, fun y hy z hz => ?_⟩
    rw [List.mem_singleton.mp hz]
    rw [List.contains_eq_any_beq, List.any_eq_true] at hx
    exact Bool.eq_false_iff.mpr fun hbeq => hx ⟨y, hy, hbeq⟩

theorem contains_eraseDups {α : Type} [BEq α] [ReflBEq α] {x : α} (xs : List α) :
    x ∈ xs → xs.eraseDups.contains x = true := by
  cases xs with
  | nil => exact fun h => absurd h List.not_mem_nil
  | cons y xs =>
    intro h
    rw [List.eraseDups_cons, List.contains_cons]
    cases hxy : x == y with
    | true => rfl
    | false =>
      rcases List.mem_cons.mp h with rfl | h
      · rw [ReflBEq.rfl] at hxy
        cases hxy
      · exact contains_eraseDups _ (List.mem_filter.mpr ⟨h, by rw [hxy]; rfl⟩)
termination_by xs.length
decreasing_by exact Nat.lt_succ_of_le (List.length_filter_le _ _)

theorem untied_linked {o : Occurrence} (ho : o.dependency? = none) : (linked c as a o).untied = o := by
  have huntied : o.untied = o := by
    unfold Occurrence.untied
    rw [← ho]
  refine Eq.trans ?_ huntied
  unfold Occurrence.untied
  rw [span_linked, directive_linked]

/-- The path that an occurrence refers to, unless it is tied to an asset. -/
def loose? (c : Config) (kind : Kind) (o : Occurrence) : Option Path :=
  match o.dependency? with
  | some _ => none
  | none => (o.directive.reference? kind).map (referencePath c)

theorem link_lists {o : Occurrence} (ho : o.dependency? = none) (ls : Links) :
    (link c as a ls o).dependencies =
        ([linked c as a o].filterMap Occurrence.dependency?).foldl (fun ys x => addNew x ys)
          ls.dependencies ∧
      (link c as a ls o).unresolved =
        ([linked c as a o].filterMap (loose? c a.kind)).foldl (fun ys x => addNew x ys)
          ls.unresolved := by
  simp only [List.filterMap_cons, List.filterMap_nil, loose?, dependency?_linked ho, directive_linked]
  unfold link meant?
  cases o.directive.reference? a.kind with
  | none => exact ⟨rfl, rfl⟩
  | some r =>
    dsimp only [Option.bind_some]
    cases as.findFor? (referencePath c r) a.language <;> exact ⟨rfl, rfl⟩

theorem foldl_link_lists (os : List Occurrence) (hnew : ∀ o ∈ os, o.dependency? = none) (ls : Links) :
    (os.foldl (link c as a) ls).dependencies =
        ((os.map (linked c as a)).filterMap Occurrence.dependency?).foldl
          (fun ys x => addNew x ys) ls.dependencies ∧
      (os.foldl (link c as a) ls).unresolved =
        ((os.map (linked c as a)).filterMap (loose? c a.kind)).foldl
          (fun ys x => addNew x ys) ls.unresolved := by
  induction os generalizing ls with
  | nil => exact ⟨rfl, rfl⟩
  | cons o os ih =>
    obtain ⟨ho, hos⟩ := List.forall_mem_cons.mp hnew
    obtain ⟨h1, h2⟩ := ih hos (link c as a ls o)
    obtain ⟨h3, h4⟩ := @link_lists c as a o ho ls
    have hcons {β : Type} (f : Occurrence → Option β) : ((o :: os).map (linked c as a)).filterMap f =
        [linked c as a o].filterMap f ++ (os.map (linked c as a)).filterMap f := by
      rw [← List.filterMap_append, List.map_cons, List.singleton_append]
    rw [List.foldl_cons, h1, h2, h3, h4, hcons, hcons, List.foldl_append, List.foldl_append]
    exact ⟨rfl, rfl⟩

end linking

section edges

/-- The edges of an asset among the assets of a collection. -/
structure HasEdges (c : Config) (as : Collection) (a : Asset) : Prop where
  /-- Only an occurrence that names a file is tied. -/
  names : ∀ o ∈ a.occurrences, o.dependency?.isSome = true → o.directive.namesFile = true
  /-- It is tied to the asset that the file means for the owner. -/
  tied : ∀ o ∈ a.occurrences, ∀ r, o.directive.reference? a.kind = some r → ∀ i,
    o.dependency? = some i ↔ as.Means (referencePath c r) a.language i
  /-- Where there is none, it is untied and its path is kept. -/
  loose : ∀ o ∈ a.occurrences, ∀ r, o.directive.reference? a.kind = some r →
    (∀ i, ¬ as.Means (referencePath c r) a.language i) →
      o.dependency? = none ∧ a.unresolved.contains (referencePath c r) = true
  /-- The dependencies are the assets that occurrences are tied to, in order of first occurrence. -/
  dependencies : a.dependencies = (a.occurrences.filterMap Occurrence.dependency?).eraseDups
  once : a.dependencies.Nodup
  /-- The unresolved paths are those of untied occurrences, in order of first occurrence. -/
  unresolved : a.unresolved = (a.occurrences.filterMap (loose? c a.kind)).eraseDups
  unresolved_once : a.unresolved.Pairwise fun p q => (q == p) = false
  inside : ∀ i ∈ a.dependencies, i < as.length
  /-- What is included is a partial. -/
  partials : ∀ o ∈ a.occurrences, ∀ r, o.directive.reference? a.kind = some r → r.isInclude = true →
    ∀ i, o.dependency? = some i → (as.get i).isPartial = true

theorem Means.isPartial {r : Reference} (h : as.Means (referencePath c r) language i)
    (hr : r.isInclude = true) : (as.get i).isPartial = true := by
  have hflat : ∀ e ∈ (if r.kind = .markup then some "html" else none), '/' ∉ e.toList := by
    intro e he
    split at he
    · obtain rfl : "html" = e := Option.some.inj he
      decide
    · cases he
  rw [Asset.isPartial, Naming.isPartial_congr h.source_beq, referencePath, if_pos hr]
  exact Naming.isPartial_join_partialReference _ r.path hflat

theorem occurrences_withText (c : Config) (as : Collection) (a : Asset) (text : String) :
    (withText c as a text).1.occurrences = (occurrences a.kind text).map (linked c as a) :=
  (foldl_link (occurrences a.kind text) {}).1

/-- What an occurrence of a text is tied to is what its directive means. -/
theorem dependency?_of_mem_withText {text : String} {o : Occurrence}
    (ho : o ∈ (withText c as a text).1.occurrences) : o.dependency? = meant? c as a o := by
  rw [occurrences_withText] at ho
  obtain ⟨o, hmem, rfl⟩ := List.mem_map.mp ho
  rw [dependency?_linked (dependency?_of_mem_occurrences hmem), meant?, meant?, directive_linked]

theorem dependency?_eq_some_iff {text : String} {o : Occurrence} (hd : as.Distinct)
    (ho : o ∈ (withText c as a text).1.occurrences) : o.dependency? = some i ↔
      ∃ r, o.directive.reference? a.kind = some r ∧ as.Means (referencePath c r) a.language i := by
  rw [dependency?_of_mem_withText ho, meant?, Option.bind_eq_some_iff]
  simp only [hd.findFor?_eq_some_iff]

theorem lists_withText (c : Config) (as : Collection) (a : Asset) (text : String) :
    let b := (withText c as a text).1
    b.dependencies = (b.occurrences.filterMap Occurrence.dependency?).eraseDups ∧
      b.unresolved = (b.occurrences.filterMap (loose? c a.kind)).eraseDups := by
  intro b
  rw [occurrences_withText, ← foldl_addNew, ← foldl_addNew]
  exact foldl_link_lists _ (fun _ => dependency?_of_mem_occurrences) {}

theorem hasEdges_withText (hd : as.Distinct) (a : Asset) (text : String) :
    HasEdges c as (withText c as a text).1 := by
  have hreflexive : ReflBEq Path := ⟨Path.beq_refl _⟩
  obtain ⟨hdependencies, hunresolved⟩ := lists_withText c as a text
  have htied : ∀ o ∈ (withText c as a text).1.occurrences, ∀ r, o.directive.reference? a.kind = some r →
      ∀ i, o.dependency? = some i ↔ as.Means (referencePath c r) a.language i := by
    intro o ho r hr i
    rw [dependency?_eq_some_iff hd ho]
    refine ⟨?_, fun h => ⟨r, hr, h⟩⟩
    rintro ⟨r', hr', h⟩
    obtain rfl : r' = r := Option.some.inj (hr'.symm.trans hr)
    exact h
  refine
    { names := fun o ho hsome => ?_
      tied := htied
      loose := fun o ho r hr hnone => ?_
      dependencies := hdependencies
      once := ?_
      unresolved := hunresolved
      unresolved_once := hunresolved ▸ pairwise_eraseDups _
      inside := fun i hi => ?_
      partials := fun o ho r hr hinclude i hi => ((htied o ho r hr i).mp hi).isPartial hinclude }
  · obtain ⟨i, hi⟩ := Option.isSome_iff_exists.mp hsome
    obtain ⟨r, hr, _⟩ := (dependency?_eq_some_iff hd ho).mp hi
    rw [← o.directive.isSome_reference? a.kind, hr, Option.isSome_some]
  · have hloose : o.dependency? = none :=
      Option.eq_none_iff_forall_ne_some.mpr fun i hi => hnone i ((htied o ho r hr i).mp hi)
    refine ⟨hloose, ?_⟩
    rw [hunresolved]
    refine contains_eraseDups _ (List.mem_filterMap.mpr ⟨o, ho, ?_⟩)
    rw [loose?, hloose]
    exact congrArg (Option.map (referencePath c)) hr
  · rw [hdependencies]
    exact (pairwise_eraseDups _).imp fun hne he => by simp [he] at hne
  · rw [hdependencies, List.mem_eraseDups] at hi
    obtain ⟨o, ho, hi⟩ := List.mem_filterMap.mp hi
    obtain ⟨_, _, hinside, _⟩ := (dependency?_eq_some_iff hd ho).mp hi
    exact hinside

end edges

/-- After a collection is read, each asset that was read as a text has that text, its occurrences
and its edges; any other asset is as it was. An image and an asset of which no text was ever read
have no edges. -/
theorem edges_of_parseAll (has : Assembled as) (h : parseAll c as w = (.ok (), bs, w')) :
    bs.map Asset.identity = as.map Asset.identity ∧ ∀ i < bs.length,
      (∀ text, loaded? w.files (bs.get i) = some text →
        (bs.get i).content = some text ∧
          (bs.get i).occurrences.map Occurrence.untied = occurrences (bs.get i).kind text ∧
          HasEdges c bs (bs.get i)) ∧
        (loaded? w.files (bs.get i) = none → bs.get i = as.get i) ∧
        ((bs.get i).kind = .image ∨ (bs.get i).content = none → (bs.get i).IsUntied) := by
  obtain ⟨hidentities, _, hread⟩ := parseFrom_ok h (Nat.zero_add _).symm
  refine ⟨hidentities, fun i hi => ?_⟩
  have hi' : i < as.length := length_eq_of_identities hidentities ▸ hi
  obtain ⟨log, hparse⟩ := hread i i.zero_le hi'
  have hloaded : loaded? w.files (bs.get i) = loaded? w.files (as.get i) :=
    loaded?_congr (identity_get_congr hidentities i)
  have hbs : Assembled bs := by
    have hassembled : Assembled (parseAll c as w).2.1 := assembled_parseFrom has 0 as.length
    rwa [h] at hassembled
  rw [hloaded]
  refine ⟨fun text htext => ?_, fun hnone => ?_, fun hor => ?_⟩
  · have hget : bs.get i = (withText c bs (as.get i) text).1 := by
      rw [withText_congr hidentities, parse_eq_loaded hparse, htext]
      rfl
    rw [hget]
    refine ⟨rfl, ?_, hasEdges_withText hbs.distinct _ text⟩
    rw [occurrences_withText, List.map_map]
    refine (List.map_congr_left fun o ho => ?_).trans (List.map_id _)
    exact untied_linked (dependency?_of_mem_occurrences ho)
  · rw [parse_eq_loaded hparse, hnone]
    rfl
  · have hgrounded := hbs.isGrounded _ (mem_get hi)
    exact hgrounded.untied (hor.elim hgrounded.content id)

end Collection

namespace Sample

def localized : Config where
  markup := ⟨⟨"html"⟩, ⟨"public/html"⟩, ["en"]⟩

/-- A site of a page, a partial, an image and a stylesheet that is not UTF-8. -/
def included (text : String) : Tree where
  entries := [
    (["html"], .directory 0),
    (["html", "page.html"], .file { bytes := text.toUTF8, modified := 5 }),
    (["html", "_footer.html"], .file { bytes := "end".toUTF8, modified := 5 }),
    (["images"], .directory 0),
    (["images", "logo.png"], .file { bytes := "x".toUTF8, modified := 5 }),
    (["stylesheets"], .directory 0),
    (["stylesheets", "latin1.css"], .file { bytes := ⟨#[0xE9]⟩, modified := 5 })]

def includedAssets : Collection :=
  Collection.ofFiles localized [⟨"html/page.html"⟩, ⟨"html/_footer.html"⟩, ⟨"images/logo.png"⟩,
    ⟨"stylesheets/latin1.css"⟩]

end Sample

namespace Collection

open Sample in
/-- A page includes the partial in its own language and links an image, which is in none. -/
theorem edges_of_parseAll_localized :
    let text := "[%= image_url gone.png %][%= include footer %][%= image_url logo.png %]"
    let read := parseAll localized includedAssets { files := included text }
    (Assembled includedAssets ∧ read.1 = .ok () ∧
        loaded? (included text) (read.2.1.get 0) = some text) ∧
      (HasEdges localized read.2.1 (read.2.1.get 0) ∧ (read.2.1.get 0).dependencies = [1, 2] ∧
        (read.2.1.get 0).unresolved = [⟨"images/gone.png"⟩]) ∧
      (read.2.1.get 3).IsUntied := by
  intro text read
  have has : Assembled includedAssets := assembled_ofFiles localized _
  obtain ⟨hok, hlength, hloaded, hdependencies, hunresolved, hcontent⟩ :
      read.1 = .ok () ∧ read.2.1.length = 4 ∧ loaded? (included text) (read.2.1.get 0) = some text ∧
        (read.2.1.get 0).dependencies = [1, 2] ∧
        (read.2.1.get 0).unresolved = [⟨"images/gone.png"⟩] ∧
        (read.2.1.get 3).content = none := by
    decide +kernel
  obtain ⟨_, hedges⟩ := edges_of_parseAll has (Prod.ext hok rfl : read = (.ok (), read.2.1, read.2.2))
  obtain ⟨hpage, _⟩ := hedges 0 (by omega)
  obtain ⟨_, _, hstyle⟩ := hedges 3 (by omega)
  exact ⟨⟨has, hok, hloaded⟩, ⟨(hpage text hloaded).2.2, hdependencies, hunresolved⟩,
    hstyle (Or.inr hcontent)⟩

end Collection

end AssetCompiler
