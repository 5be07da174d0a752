import AssetCompiler.Proofs.Build.Answers
import AssetCompiler.Proofs.Build.Owned
import AssetCompiler.Proofs.Directive.Spans

/-! # What a reference comes to

Between two compiles of an asset, the assets that it refers to may have come and gone. Yet a stamp
names a target, a target belongs to one asset, and files at targets are what their rows say. So an
asset whose stamps are the same refers to the same targets with the same contents, and its own
content is the same as long as its source is.
-/
namespace AssetCompiler

open Collection (parse meant? linked textOf? readAs variants)
open Cache (Kept Owned)
open Plan (unread)

theorem Config.roots_eq_of_lasting {c c' : Config} (h : c.lasting = c'.lasting) : c.roots = c'.roots := by
  have hroots := congrArg Config.roots h
  exact hroots

theorem unread_congr {a b : Asset} (h : b.identity = a.identity) : unread b = unread a := by
  obtain ⟨h1, h2, h3⟩ := Asset.identity_eq_iff.mp h
  rw [unread, h1, h2, h3, unread]

theorem Tree.readText_congr {t t' : Tree} {p : Path} (h : t'.read p = t.read p) :
    t'.readText p = t.readText p := by
  unfold readText
  rw [h]

namespace Stamp

theorem exists_same_of_sameAll {as bs cs : List Stamp} (h : sameAll as cs = true)
    (h' : sameAll bs cs = true) : ∀ a ∈ as, ∃ b ∈ bs, a.same b = true := by
  intro a ha
  obtain ⟨c, hc, hac⟩ := (exists_same_of_mem h).1 a ha
  obtain ⟨b, hb, hbc⟩ := (exists_same_of_mem h').2 c hc
  obtain ⟨htarget, hchecksum⟩ := Bool.and_eq_true_iff.mp hac
  obtain ⟨htarget', hchecksum'⟩ := Bool.and_eq_true_iff.mp hbc
  refine ⟨b, hb, Bool.and_eq_true_iff.mpr ⟨Path.beq_trans htarget (Path.beq_symm htarget'), ?_⟩⟩
  rw [eq_of_beq hchecksum, eq_of_beq hchecksum']
  exact beq_self_eq_true _

end Stamp

namespace Collection

variable {c : Config} {as bs : Collection} {a b : Asset} {o : Occurrence} {d e : Nat}

def written (a : Asset) (bytes : ByteArray) : List Occurrence :=
  match textOf? a bytes with
  | some text => occurrences a.kind text
  | none => []

theorem readAs_unread (c : Config) (as : Collection) (b : Asset) (bytes : ByteArray) :
    (readAs c as (unread b) bytes).content = textOf? (unread b) bytes ∧
      (readAs c as (unread b) bytes).occurrences =
        (written (unread b) bytes).map (linked c as (unread b)) ∧
      ∀ d, d ∈ (readAs c as (unread b) bytes).dependencies ↔
        ∃ o ∈ written (unread b) bytes, meant? c as (unread b) o = some d := by
  unfold written
  cases ht : textOf? (unread b) bytes with
  | none =>
    rw [readAs_of_none ht]
    exact ⟨rfl, rfl, fun d => ⟨fun h => (by cases h), fun ⟨_, h, _⟩ => (by cases h)⟩⟩
  | some text => exact readAs_of_text ht

theorem dependency?_of_mem_written {bytes : ByteArray} (h : o ∈ written a bytes) :
    o.dependency? = none := by
  unfold written at h
  split at h
  · exact dependency?_of_mem_occurrences h
  · cases h

theorem some_not_mem_variants {s : Section} (h : none ∈ variants s) (l : String) : some l ∉ variants s := by
  unfold variants at h ⊢
  split
  · simp
  · rename_i hne
    rw [if_neg hne] at h
    simp at h

/-- A reference means the same asset wherever that asset is: in one section either all assets have
a language or none has. -/
theorem findFor?_of_identity {source : Path} {language : Option String} (hd : bs.Distinct)
    (hplaced : ∀ j < bs.length, (bs.get j).Placed c)
    (hlanguage : ∀ j < bs.length, (bs.get j).language ∈ variants (c.sectionOf (bs.get j).kind))
    (h : as.findFor? source language = some d) (he : e < bs.length)
    (hid : (bs.get e).identity = (as.get d).identity) : bs.findFor? source language = some e := by
  obtain ⟨_, hsource, hlang⟩ := Asset.identity_eq_iff.mp hid
  have hsame {l : Option String} (hl : (as.get d).hasIdentity source l = true) :
      bs.indexOf? source l = some e := by
    refine hd.indexOf?_of_hasIdentity he ?_
    rw [Asset.hasIdentity, hsource, hlang]
    exact hl
  unfold findFor? at h ⊢
  cases hfound : language.bind fun l => as.indexOf? source (some l) with
  | some i =>
    rw [hfound] at h
    cases h
    obtain ⟨l, rfl, hl⟩ := Option.bind_eq_some_iff.mp hfound
    rw [Option.bind_some, hsame (indexOf?_eq_some hl).2]
  | none =>
    rw [hfound] at h
    have hnone := (indexOf?_eq_some h).2
    cases hother : language.bind fun l => bs.indexOf? source (some l) with
    | none => exact hsame hnone
    | some j =>
      -- An asset of the same source in a language cannot stand beside one in none.
      exfalso
      obtain ⟨l, rfl, hl⟩ := Option.bind_eq_some_iff.mp hother
      obtain ⟨hj, hidentity⟩ := indexOf?_eq_some hl
      obtain ⟨hbeq, hlj⟩ := Asset.hasIdentity_iff.mp hidentity
      obtain ⟨hbeq', hld⟩ := Asset.hasIdentity_iff.mp hnone
      have hpath : ((bs.get j).source == (bs.get e).source) = true := by
        rw [hsource]
        exact Path.beq_trans hbeq (Path.beq_symm hbeq')
      obtain ⟨_, hkind⟩ := Asset.source_eq_of_beq (hplaced j hj) (hplaced e he) hpath
      have hvariant := hlanguage j hj
      have hvariant' := hlanguage e he
      rw [hlang, hld] at hvariant'
      rw [hlj, hkind] at hvariant
      exact some_not_mem_variants hvariant' l hvariant

end Collection

structure Context.Continues (x x' : Context) : Prop where
  config : x'.config.lasting = x.config.lasting
  settings : x'.settings = x.settings
  digest : x'.digest = x.digest

theorem Context.Continues.symm {x x' : Context} (h : x.Continues x') : x'.Continues x :=
  ⟨h.config.symm, h.settings.symm, h.digest.symm⟩

theorem Context.Continues.trans {x x' x'' : Context} (h : x.Continues x') (h' : x'.Continues x'') :
    x.Continues x'' :=
  ⟨h'.config.trans h.config, h'.settings.trans h.settings, h'.digest.trans h.digest⟩

namespace Build

open Session
open Produce (Level)

variable {tables : String → MessageTable} {owner : Owner} {x x' : Context} {s s' : Session} {i i' d : Nat}

/-- A session in which an asset is as its source says, the assets it refers to have the targets of
their rows, and the files at targets are what rows say. -/
structure Coherent (tables : String → MessageTable) (owner : Owner) (x : Context) (s : Session)
    (i : Nat) : Prop where
  distinct : s.assets.Distinct
  placed : ∀ j < s.assets.length, (s.assets.get j).Placed x.config
  languages : ∀ j < s.assets.length,
    (s.assets.get j).language ∈ variants (x.config.sectionOf (s.assets.get j).kind)
  read : ∃ log, parse s.work.files x.config s.assets (unread (s.assets.get i)) =
    .ok ((s.assets.get i).bare, log)
  targets : ∀ d ∈ (s.assets.get i).dependencies, (s.assets.get d).target = (s.row? d).map Row.target
  kept : Kept x.config s.cache.rows
  owned : Owned owner s.cache.rows
  stored : ∀ r ∈ s.cache.rows, ∀ f,
    s.work.files.fileAt? (r.target.resolve s.work.files.home) = some f → x.digest f.bytes = r.outputChecksum
  messages : ∀ language, (Catalog.readTable s.work.files x.config.catalog language).1 = tables language
  catalog : s.catalog.Holds tables x.config.catalog

/-- Whether the texts that an asset takes in are there. -/
def Readable (x : Context) (s : Session) (i : Nat) : Prop :=
  ∀ o ∈ (s.assets.get i).occurrences, o.directive.isEmbed = true →
    ∀ r ∈ (s.scene x i).reached? o, s.work.files.isFile r.1 = true

instance : Decidable (Readable x s i) :=
  inferInstanceAs (Decidable (∀ o ∈ (s.assets.get i).occurrences, o.directive.isEmbed = true →
    ∀ r ∈ (s.scene x i).reached? o, s.work.files.isFile r.1 = true))

namespace Coherent

theorem continues (h : Coherent tables owner x s i) (hx : x.Continues x') :
    Coherent tables owner x' s i := by
  have hroots := Config.roots_eq_of_lasting hx.config.symm
  have hcatalog := congrArg Config.catalog hx.config
  change x'.config.catalog = x.config.catalog at hcatalog
  refine ⟨h.distinct, fun j hj => ?_, fun j hj => ?_, ?_, h.targets, h.kept.of_roots hroots, h.owned, ?_,
    hcatalog ▸ h.messages, hcatalog ▸ h.catalog⟩
  · exact Asset.placed_roots.mp (hroots ▸ Asset.placed_roots.mpr (h.placed j hj))
  · rw [← Config.sectionOf_eq_of_roots hroots]
    exact h.languages j hj
  · rw [← Collection.parse_roots, ← hroots, Collection.parse_roots]
    exact h.read
  · rw [hx.digest]
    exact h.stored

theorem bare_eq (h : Coherent tables owner x s i) {bytes : ByteArray}
    (hread : s.work.files.read (s.assets.get i).source = .ok bytes) :
    (s.assets.get i).bare = readAs x.config s.assets (unread (s.assets.get i)) bytes := by
  obtain ⟨log, hparse⟩ := h.read
  exact (Collection.parse_eq_ok hparse).2 bytes hread

section read

variable {bytes : ByteArray}

theorem content_eq (h : Coherent tables owner x s i)
    (hread : s.work.files.read (s.assets.get i).source = .ok bytes) :
    (s.assets.get i).content = textOf? (unread (s.assets.get i)) bytes := by
  have hcontent := (Collection.readAs_unread x.config s.assets (s.assets.get i) bytes).1
  rw [← h.bare_eq hread] at hcontent
  exact hcontent

theorem occurrences_eq (h : Coherent tables owner x s i)
    (hread : s.work.files.read (s.assets.get i).source = .ok bytes) :
    (s.assets.get i).occurrences = (Collection.written (unread (s.assets.get i)) bytes).map
      (linked x.config s.assets (unread (s.assets.get i))) := by
  have hoccurrences := (Collection.readAs_unread x.config s.assets (s.assets.get i) bytes).2.1
  rw [← h.bare_eq hread] at hoccurrences
  exact hoccurrences

theorem mem_dependencies (h : Coherent tables owner x s i)
    (hread : s.work.files.read (s.assets.get i).source = .ok bytes) :
    d ∈ (s.assets.get i).dependencies ↔ ∃ o ∈ Collection.written (unread (s.assets.get i)) bytes,
      meant? x.config s.assets (unread (s.assets.get i)) o = some d := by
  have hdependencies := (Collection.readAs_unread x.config s.assets (s.assets.get i) bytes).2.2 d
  rw [← h.bare_eq hread] at hdependencies
  exact hdependencies

theorem lt_of_mem_dependencies (h : Coherent tables owner x s i)
    (hread : s.work.files.read (s.assets.get i).source = .ok bytes)
    (hd : d ∈ (s.assets.get i).dependencies) : d < s.assets.length := by
  obtain ⟨o, _, hm⟩ := (h.mem_dependencies hread).mp hd
  obtain ⟨r, _, hr⟩ := Option.bind_eq_some_iff.mp hm
  exact (Collection.findFor?_eq_some hr).1

theorem reached?_linked (h : Coherent tables owner x s i)
    (hread : s.work.files.read (s.assets.get i).source = .ok bytes) {o : Occurrence}
    (ho : o ∈ Collection.written (unread (s.assets.get i)) bytes) :
    (s.scene x i).reached? (linked x.config s.assets (unread (s.assets.get i)) o) =
      (meant? x.config s.assets (unread (s.assets.get i)) o).bind fun d =>
        (s.row? d).map fun q => (q.target, (s.assets.get d).isPartial) := by
  rw [Produce.Scene.reached?, Collection.dependency?_linked (Collection.dependency?_of_mem_written ho)]
  cases hm : meant? x.config s.assets (unread (s.assets.get i)) o with
  | none => rfl
  | some d =>
    have htarget := h.targets d ((h.mem_dependencies hread).mpr ⟨o, ho, hm⟩)
    show ((s.assets.get d).target.map _) = _
    rw [htarget, Option.map_map]
    rfl

end read

theorem of_row (h : Coherent tables owner x s i) (hd : d < s.assets.length) {q : Row}
    (hq : s.row? d = some q) : q ∈ s.cache.rows ∧ q.Of x.config (s.assets.get d) :=
  ⟨(Cache.find?_eq_some hq).1, h.kept.of_find? (h.placed d hd) hq⟩

/-- A dependency whose stamp is among the stamps of the asset elsewhere is a dependency there. -/
theorem exists_row_of_stamp (h : Coherent tables owner x s i) (h' : Coherent tables owner x s' i')
    {bytes bytes' : ByteArray} (hread : s.work.files.read (s.assets.get i).source = .ok bytes)
    (hread' : s'.work.files.read (s'.assets.get i').source = .ok bytes')
    (hstamps : ∀ a ∈ s.cache.stamps s.assets (s.assets.get i),
      ∃ b ∈ s'.cache.stamps s'.assets (s'.assets.get i'), a.same b = true)
    (hd : d ∈ (s.assets.get i).dependencies) {q : Row} (hq : s.row? d = some q) :
    ∃ d' q', d' < s'.assets.length ∧ s'.row? d' = some q' ∧ q'.target = q.target ∧
      q'.outputChecksum = q.outputChecksum ∧ (s'.assets.get d').identity = (s.assets.get d).identity := by
  have hstamp : q.stamp ∈ s.cache.stamps s.assets (s.assets.get i) := by
    refine List.mem_filterMap.mpr ⟨d, hd, ?_⟩
    rw [row?] at hq
    dsimp only
    rw [hq, Option.map_some]
  obtain ⟨b, hb, hsame⟩ := hstamps _ hstamp
  obtain ⟨d', hd', hrow⟩ := List.mem_filterMap.mp hb
  obtain ⟨q', hq', rfl⟩ := Option.map_eq_some_iff.mp hrow
  have hlt := h.lt_of_mem_dependencies hread hd
  have hlt' := h'.lt_of_mem_dependencies hread' hd'
  obtain ⟨hmem, hof⟩ := h.of_row hlt hq
  obtain ⟨hmem', hof'⟩ := h'.of_row hlt' hq'
  obtain ⟨htarget, hchecksum⟩ := Bool.and_eq_true_iff.mp hsame
  have htarget : q.target = q'.target := hof.target_eq_of_beq hof' htarget
  have howner := h.owned q hmem
  rw [htarget, h'.owned q' hmem', hof.source, hof.language, hof'.source, hof'.language] at howner
  obtain ⟨hsource, hlanguage⟩ := Prod.mk.inj howner
  have hkind := (Asset.source_eq_of_beq (h'.placed d' hlt') (h.placed d hlt)
    (hsource ▸ Path.beq_refl _)).2
  exact ⟨d', q', hlt', hq', htarget.symm, (eq_of_beq hchecksum).symm,
    Asset.identity_eq_iff.mpr ⟨hkind, hsource, hlanguage⟩⟩

theorem digest_of_row (h : Coherent tables owner x s i) {q : Row} (hq : s.row? d = some q) {f : File}
    (hf : s.work.files.file q.target = .ok f) : x.digest f.bytes = q.outputChecksum :=
  h.stored q (Cache.find?_eq_some hq).1 f (Tree.fileAt?_of_file hf)

/-- What a directive reaches, it reaches where its asset has the same stamps, with the same content. -/
theorem reached?_of_stamps (h : Coherent tables owner x s i) (h' : Coherent tables owner x s' i')
    (hid : (s'.assets.get i').identity = (s.assets.get i).identity) {bytes : ByteArray}
    (hread : s.work.files.read (s.assets.get i).source = .ok bytes)
    (hread' : s'.work.files.read (s'.assets.get i').source = .ok bytes)
    (hstamps : ∀ a ∈ s.cache.stamps s.assets (s.assets.get i),
      ∃ b ∈ s'.cache.stamps s'.assets (s'.assets.get i'), a.same b = true) {o : Occurrence}
    (ho : o ∈ Collection.written (unread (s.assets.get i)) bytes) {r : Path × Bool}
    (hr : (s.scene x i).reached? (linked x.config s.assets (unread (s.assets.get i)) o) = some r) :
    (s'.scene x i').reached? (linked x.config s'.assets (unread (s'.assets.get i')) o) = some r ∧
      ∀ f f', s.work.files.file r.1 = .ok f → s'.work.files.file r.1 = .ok f' →
        x.digest f'.bytes = x.digest f.bytes := by
  obtain ⟨hkind, _, hlanguage⟩ := Asset.identity_eq_iff.mp hid
  have ho' : o ∈ Collection.written (unread (s'.assets.get i')) bytes :=
    unread_congr hid ▸ ho
  rw [h.reached?_linked hread ho] at hr
  obtain ⟨d, hm, hrow⟩ := Option.bind_eq_some_iff.mp hr
  obtain ⟨q, hq, rfl⟩ := Option.map_eq_some_iff.mp hrow
  obtain ⟨d', q', hlt', hq', htarget, hchecksum, hidentity⟩ := h.exists_row_of_stamp h' hread hread'
    hstamps ((h.mem_dependencies hread).mpr ⟨o, ho, hm⟩) hq
  have hm' : meant? x.config s'.assets (unread (s'.assets.get i')) o = some d' := by
    obtain ⟨reference, href, hfind⟩ := Option.bind_eq_some_iff.mp hm
    refine Option.bind_eq_some_iff.mpr ⟨reference, ?_, ?_⟩
    · rw [unread_congr hid]
      exact href
    · rw [unread_congr hid]
      exact Collection.findFor?_of_identity h'.distinct h'.placed h'.languages hfind hlt' hidentity
  refine ⟨?_, fun f f' hf hf' => ?_⟩
  · have hsource := (Asset.identity_eq_iff.mp hidentity).2.1
    rw [h'.reached?_linked hread' ho', hm', Option.bind_some, hq', Option.map_some, htarget]
    rw [Asset.isPartial, hsource, Asset.isPartial]
  · rw [h.digest_of_row hq hf, ← hchecksum]
    exact h'.digest_of_row hq' (htarget ▸ hf')

theorem meets (h : Coherent tables owner x s i) (h' : Coherent tables owner x s' i')
    (hinj : Function.Injective x.digest)
    (hid : (s'.assets.get i').identity = (s.assets.get i).identity) {bytes : ByteArray}
    (hread : s.work.files.read (s.assets.get i).source = .ok bytes)
    (hread' : s'.work.files.read (s'.assets.get i').source = .ok bytes)
    (hto : ∀ a ∈ s.cache.stamps s.assets (s.assets.get i),
      ∃ b ∈ s'.cache.stamps s'.assets (s'.assets.get i'), a.same b = true)
    (hfrom : ∀ b ∈ s'.cache.stamps s'.assets (s'.assets.get i'),
      ∃ a ∈ s.cache.stamps s.assets (s.assets.get i), b.same a = true)
    (hreadable : Readable x s i) (hreadable' : Readable x s' i') {o : Occurrence}
    (ho : o ∈ Collection.written (unread (s.assets.get i)) bytes) :
    (s.scene x i).Meets (s'.scene x i') (linked x.config s.assets (unread (s.assets.get i)) o)
      (linked x.config s'.assets (unread (s'.assets.get i')) o) := by
  have ho' : o ∈ Collection.written (unread (s'.assets.get i')) bytes :=
    unread_congr hid ▸ ho
  refine ⟨?_, ?_, ?_, fun hembed r hr => ?_⟩
  · rw [Collection.span_linked, Collection.span_linked]
  · rw [Collection.directive_linked, Collection.directive_linked]
  · refine Option.ext fun r => ⟨fun hr => ?_, fun hr => ?_⟩
    · exact (h'.reached?_of_stamps h hid.symm hread' hread hfrom ho' hr).1
    · exact (h.reached?_of_stamps h' hid hread hread' hto ho hr).1
  · obtain ⟨hr', hdigest⟩ := h.reached?_of_stamps h' hid hread hread' hto ho hr
    have hmem : linked x.config s.assets (unread (s.assets.get i)) o ∈ (s.assets.get i).occurrences := by
      rw [h.occurrences_eq hread]
      exact List.mem_map_of_mem ho
    have hmem' : linked x.config s'.assets (unread (s'.assets.get i')) o ∈
        (s'.assets.get i').occurrences := by
      rw [h'.occurrences_eq hread']
      exact List.mem_map_of_mem ho'
    rw [Collection.directive_linked] at hembed
    obtain ⟨f, hf⟩ := Tree.isFile_iff.mp
      (hreadable _ hmem (by rwa [Collection.directive_linked]) r hr)
    obtain ⟨f', hf'⟩ := Tree.isFile_iff.mp
      (hreadable' _ hmem' (by rwa [Collection.directive_linked]) r hr')
    have hbytes := hinj (hdigest f f' hf hf')
    refine Tree.readText_congr ?_
    show s'.work.files.read r.1 = s.work.files.read r.1
    rw [Tree.read_eq_ok_iff.mpr ⟨f, hf, rfl⟩, Tree.read_eq_ok_iff.mpr ⟨f', hf', hbytes⟩]

/-- An asset with the same source and the same stamps has the same content. -/
theorem output_eq (h : Coherent tables owner x s i) (h' : Coherent tables owner x' s' i')
    (hx : x.Continues x') (hinj : Function.Injective x.digest)
    (hid : (s'.assets.get i').identity = (s.assets.get i).identity) {bytes : ByteArray}
    (hread : s.work.files.read (s.assets.get i).source = .ok bytes)
    (hread' : s'.work.files.read (s'.assets.get i').source = .ok bytes) {stamps : List Stamp}
    (hstamps : Stamp.sameAll (s.cache.stamps s.assets (s.assets.get i)) stamps = true)
    (hstamps' : Stamp.sameAll (s'.cache.stamps s'.assets (s'.assets.get i')) stamps = true)
    (hreadable : Readable x s i) (hreadable' : Readable x' s' i')
    (out : Step → ByteArray → ByteArray) :
    (s'.scene x' i').output out { catalog := s'.catalog } =
      (s.scene x i).output out { catalog := s.catalog } := by
  have h'' := h'.continues hx.symm
  have hto := Stamp.exists_same_of_sameAll hstamps hstamps'
  have hfrom := Stamp.exists_same_of_sameAll hstamps' hstamps
  have hcatalog := congrArg Config.catalog hx.config
  change x'.config.catalog = x.config.catalog at hcatalog
  have halike : (s.scene x i).Alike (s'.scene x' i') := by
    refine ⟨hx.config, hx.settings, hid, ?_, hread'.trans hread.symm, ?_⟩
    · show (s'.assets.get i').content = (s.assets.get i).content
      rw [h''.content_eq hread', h.content_eq hread, unread_congr hid]
    · show List.Forall₂ _ (s.assets.get i).occurrences (s'.assets.get i').occurrences
      have hsame : Collection.written (unread (s'.assets.get i')) bytes =
          Collection.written (unread (s.assets.get i)) bytes := by rw [unread_congr hid]
      rw [h.occurrences_eq hread, h''.occurrences_eq hread', hsame, List.forall₂_map_left_iff,
        List.forall₂_map_right_iff, List.forall₂_same]
      intro o ho
      obtain ⟨h1, h2, h3, h4⟩ := h.meets h'' hinj hid hread hread' hto hfrom hreadable hreadable' ho
      exact ⟨h1, h2, h3, h4⟩
  exact halike.output h.messages (hcatalog ▸ h'.messages) ⟨h.catalog, hcatalog ▸ h'.catalog⟩ out

end Coherent

end Build

end AssetCompiler
