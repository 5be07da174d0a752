import AssetCompiler.Proofs.Build.Clean
import AssetCompiler.Proofs.Build.Roots
import Mathlib.Logic.Relation

/-! # Languages stay apart

An asset refers to assets in its own language and to those in none, and answers read the texts of its own
language. So what a site comes to in one language does not depend on the texts of another: two builds
with stores that agree on a language write the same there. Fingerprints are drawn in the same order in
both, whatever the texts are.
-/
namespace AssetCompiler

open AssetCompiler.Tree (Keeps)
open Plan (unread)

/-- Whether an asset is in a language or in none. -/
def Asset.Speaks (a : Asset) (language : String) : Prop :=
  a.language = some language ∨ a.language = none

/-! ### References -/

namespace Collection

variable {c : Config} {files : Tree} {as bs : Collection} {a b : Asset} {o : Occurrence} {i d : Nat}
  {w w' : Workspace} {language : String}

theorem language_of_meant (h : meant? c as a o = some d) :
    (as.get d).language = a.language ∨ (as.get d).language = none := by
  obtain ⟨r, _, hr⟩ := Option.bind_eq_some_iff.mp h
  exact (findFor?_eq_some hr).2.2

theorem language_of_parse {log : List LogLine} (h : parse files c as a = .ok (b, log))
    (hnone : a.dependencies = []) (hd : d ∈ b.dependencies) :
    (as.get d).language = b.language ∨ (as.get d).language = none := by
  have hlanguage := (Asset.identity_eq_iff.mp (identity_of_parse h)).2.2
  obtain ⟨hread, hcontent⟩ := parse_eq_ok h
  by_cases hk : a.kind = .image
  · rw [parse_image hk] at h
    rw [← (Prod.mk.inj (Except.ok.inj h)).1, hnone] at hd
    cases hd
  · obtain ⟨bytes, hbytes⟩ := hread hk
    rw [hcontent bytes hbytes] at hd
    cases ht : textOf? a bytes with
    | none =>
      rw [readAs_of_none ht, hnone] at hd
      cases hd
    | some text =>
      obtain ⟨o, _, hmeant⟩ := ((readAs_of_text ht).2.2 d).mp hd
      rw [hlanguage]
      exact language_of_meant hmeant

/-- Once all assets are read, a dependency is in the language of the asset or in none. -/
theorem language_of_parseAll {paths : List Path}
    (h : (ofFiles c paths).parseAll c w = (.ok (), as, w')) (hd : d ∈ (as.get i).dependencies) :
    (as.get d).language = (as.get i).language ∨ (as.get d).language = none := by
  obtain ⟨hid, _, hread⟩ := parseFrom_ok h (Nat.zero_add _).symm
  have hlt : i < (ofFiles c paths).length := by
    by_contra hge
    rw [← length_eq_of_identities hid, not_lt] at hge
    rw [get, List.getD_eq_getElem?_getD, List.getElem?_eq_none hge] at hd
    cases hd
  obtain ⟨log, hparse⟩ := hread i (Nat.zero_le i) hlt
  obtain ⟨_, _, k, l, _, _, hsource⟩ := exists_of_mem_ofFiles (mem_get hlt)
  have hfound := language_of_parse hparse (by rw [hsource]; rfl) hd
  rwa [← (Asset.identity_eq_iff.mp (identity_get_congr hid d)).2.2] at hfound

/-- Chains of references from an asset in a language or in none lead to such assets. -/
theorem speaks_of_chain {paths : List Path}
    (h : (ofFiles c paths).parseAll c w = (.ok (), as, w')) (hi : (as.get i).Speaks language)
    (hchain : Relation.TransGen (fun i d => d ∈ (as.get i).dependencies) i d) :
    (as.get d).Speaks language := by
  have hstep {i d : Nat} (hi : (as.get i).Speaks language) (hd : d ∈ (as.get i).dependencies) :
      (as.get d).Speaks language := by
    rcases language_of_parseAll h hd with hl | hl
    · unfold Asset.Speaks
      rw [hl]
      exact hi
    · exact .inr hl
  induction hchain with
  | single hd => exact hstep hi hd
  | tail _ hd ih => exact hstep ih hd

end Collection

theorem Plan.Made.language_of_occurrence {c : Config} {files : Tree} {p : Plan} {i d : Nat}
    (h : Made c files p) (hi : i < p.assets.length) {o : Occurrence}
    (ho : o ∈ (p.assets.get i).occurrences) (hd : o.dependency? = some d) :
    (p.assets.get d).language = (p.assets.get i).language ∨ (p.assets.get d).language = none := by
  obtain ⟨_, _, _, _, _, hmeant⟩ := h.meant_of_occurrence hi ho hd
  exact Collection.language_of_meant hmeant

/-! ### Two stores -/

/-- The text that a store gives for a key in a language. -/
def Catalog.textAt (files : Tree) (directory? : Option Path) (language key : String) : String :=
  textOf (readTable files directory? language).1 key

theorem Processor.follows_ofFunction (f : Step → ByteArray → Except ProcessorError ByteArray) :
    (ofFunction fun _ => f).Follows fun step input => (f step input).toOption.getD .empty := by
  rintro calls step input disk output (hok : f step input = .ok output)
  change output = (f step input).toOption.getD .empty
  rw [hok]
  rfl

/-- The same build with another store of texts. -/
def Context.withCatalog (x : Context) (directory? : Option Path) : Context :=
  { x with config := { x.config with catalog := directory? } }

namespace Session

variable {x x' : Context} {files files' : Tree} {n m m' : Nat} {a b : Asset} {target target' : Path}

theorem Draws.of_identity (h : Draws x files n a target m) (hid : a.identity = b.identity) :
    Draws x files n b target m := by
  obtain ⟨_, hsource, _⟩ := Asset.identity_eq_iff.mp hid
  unfold Draws at h ⊢
  rw [← Asset.isFingerprinted_congr hid]
  simp only [← Asset.targetPath_congr hid, ← hsource]
  exact h

/-- What is drawn after as many draws from the same source is the same. -/
theorem Draws.eq (h : Draws x files n a target m) (h' : Draws x' files' n a target' m')
    (hroots : x'.config.roots = x.config.roots) (hfingerprint : x'.fingerprint = x.fingerprint)
    (hread : ∀ bytes bytes', files.read a.source = .ok bytes → files'.read a.source = .ok bytes' →
      bytes' = bytes) : target' = target ∧ m' = m := by
  unfold Draws at h h'
  simp only [Asset.targetPath_of_roots hroots, hfingerprint] at h'
  split at h
  · rename_i hf
    rw [if_pos hf] at h'
    obtain ⟨bytes, hb, htarget, hm⟩ := h
    obtain ⟨bytes', hb', htarget', hm'⟩ := h'
    rw [hread bytes bytes' hb hb', ← htarget] at htarget'
    exact ⟨htarget', hm'.trans hm.symm⟩
  · rename_i hf
    rw [if_neg hf] at h'
    exact ⟨h'.1.trans h.1.symm, h'.2.trans h.2.symm⟩

end Session

namespace Build

open Session
open Produce (Scene)
open Produce.Scene (Kin Meets)

/-- Whether two builds find the same texts in a language, whenever one of them may read it. -/
def AgreeOn (language : String) (x x' : Context) (w : Workspace) : Prop :=
  ∀ o o', outset? x w = some o → outset? x' w = some o' →
    ∀ v ∈ visits x o.session o.order, ∀ v' ∈ visits x' o'.session o'.order, ∀ key,
      Catalog.textAt v'.1.work.files x'.config.catalog language key =
        Catalog.textAt v.1.work.files x.config.catalog language key

variable {x : Context} {directory? : Option Path} {w : Workspace} {o : Outset}

theorem outset?_withCatalog (h : outset? x w = some o) : outset? (x.withCatalog directory?) w =
    some { o with session := { o.session with catalog := { directory? } } } :=
  outset?_of_roots (show (x.withCatalog directory?).config.roots = x.config.roots from rfl) h

/-! ### Two runs -/

/-- The tables that a run may read. -/
def MayRead (x : Context) (s : Session) (order : List Nat) (language : String) (table : MessageTable) :
    Prop :=
  ∃ v ∈ visits x s order, table = (Catalog.readTable v.1.work.files x.config.catalog language).1

section run

variable {s : Session} {order front back : List Nat} {reports : List AssetReport}

theorem Clean.holding (h : Clean x s order reports)
    (hcatalog : s.catalog = { directory? := x.config.catalog }) : ∀ front back, order = front ++ back →
      (after x s front).catalog.Holding (MayRead x s order) x.config.catalog := by
  refine prefix_induction ?_ fun front i back he hholding => ?_
  · change s.catalog.Holding _ _
    rw [hcatalog]
    exact Catalog.holding_empty _ _
  · obtain ⟨target, bytes, ha⟩ := h.adds_of_append he
    rw [ha.written.catalog]
    exact Scene.holding_content _ _ (fun language => ⟨_, h.mem_visits he, rfl⟩) hholding

end run

/-- Two runs in the middle of one order, with stores that agree on a language. -/
structure Beside (language : String) (as : Collection) (front : List Nat) (t t' : Session) : Prop where
  drawn : t'.work.drawn = t.work.drawn
  target : ∀ j ∈ front, (t'.assets.get j).target = (t.assets.get j).target
  read : ∀ j ∈ front, (as.get j).Speaks language → ∀ p ∈ (t.assets.get j).target,
    t'.work.files.read p = t.work.files.read p

/-- What comes before an asset and is in the language is the same to it in both runs. -/
theorem Beside.meets {language : String} {as : Collection} {t t' : Session} {x' : Context} {i : Nat}
    (h : Beside language as front t t')
    (hid : ∀ j, (t'.assets.get j).identity = (t.assets.get j).identity)
    (hoccurrences : (t'.assets.get i).occurrences = (t.assets.get i).occurrences)
    (hdep : ∀ o ∈ (t.assets.get i).occurrences, ∀ d, o.dependency? = some d →
      d ∈ front ∧ (as.get d).Speaks language) :
    List.Forall₂ (Meets (t.scene x i) (t'.scene x' i)) (t.assets.get i).occurrences
      (t'.assets.get i).occurrences := by
  rw [hoccurrences]
  refine List.forall₂_same.mpr fun o ho => ⟨rfl, rfl, ?_, fun _ r hr => ?_⟩
  · unfold Scene.reached?
    cases hd : o.dependency? with
    | none => rfl
    | some d =>
      have hsource := (Asset.identity_eq_iff.mp (hid d)).2.1
      dsimp only [scene, Option.bind_some, Asset.isPartial]
      rw [h.target d (hdep o ho d hd).1, hsource]
  · obtain ⟨d, hd, hr⟩ := Option.bind_eq_some_iff.mp hr
    obtain ⟨p, hp, rfl⟩ := Option.map_eq_some_iff.mp hr
    obtain ⟨hmem, hspeaks⟩ := hdep o ho d hd
    exact Tree.readText_congr (h.read d hmem hspeaks p hp)

/-- Two runs that differ in their stores of texts, which agree on a language. -/
structure Paired (language : String) (x x' : Context) (s s' : Session) (order : List Nat)
    (reports reports' : List AssetReport) : Prop where
  first : Clean x s order reports
  second : Clean x' s' order reports'
  assets : s'.assets = s.assets
  work : s'.work = s.work
  roots : x'.config.roots = x.config.roots
  delivery : x'.config.delivery = x.config.delivery
  resources : x'.config.resources = x.config.resources
  minify : x'.config.minify = x.config.minify
  settings : x'.settings = x.settings
  fingerprint : x'.fingerprint = x.fingerprint
  processor : ∃ out, x.processor.Follows out ∧ x'.processor.Follows out
  catalog : s.catalog = { directory? := x.config.catalog }
  catalog' : s'.catalog = { directory? := x'.config.catalog }
  agree : ∀ table table', MayRead x s order language table → MayRead x' s' order language table' →
    ∀ key, Catalog.textOf table' key = Catalog.textOf table key

namespace Paired

variable {x' : Context} {language : String} {s' t1 t1' : Session} {reports' : List AssetReport} {i : Nat}
  {target target' : Path} {bytes bytes' : ByteArray}

section step

variable (h : Paired language x x' s s' order reports reports') (he : order = front ++ i :: back)
include h he

theorem identity_eq (j : Nat) :
    ((after x' s' front).assets.get j).identity = ((after x s front).assets.get j).identity := by
  rw [(h.first.underway front _ he).identity_eq j, (h.second.underway front _ he).identity_eq j, h.assets]

theorem bytes_of_source {files files' : Tree}
    (hk : Keeps (fun _ => False) (after x s front).work.files files)
    (hk' : Keeps (fun _ => False) (after x' s' front).work.files files')
    (hr : files.read (s.assets.get i).source = .ok bytes)
    (hr' : files'.read (s.assets.get i).source = .ok bytes') : bytes' = bytes := by
  have hi := h.first.lt (j := i) (by simp [he])
  have hi' := h.second.lt (j := i) (by simp [he])
  rw [← h.assets] at hr'
  obtain ⟨f, hf, rfl⟩ := h.first.read_source he hi hk hr
  obtain ⟨g, hg, rfl⟩ := h.second.read_source he hi' hk' hr'
  rw [h.assets, h.work] at hg
  obtain rfl : g = f := Option.some.inj (hg.symm.trans hf)
  rfl

variable (hb : Beside language s.assets front (after x s front) (after x' s' front))
include hb

theorem target_eq (ha : Adds x s front (after x s front) i target bytes t1)
    (ha' : Adds x' s' front (after x' s' front) i target' bytes' t1') :
    target' = target ∧ t1'.work.drawn = t1.work.drawn := by
  obtain ⟨files, hk, hd⟩ := ha.lays.draws
  obtain ⟨files', hk', hd'⟩ := ha'.lays.draws
  have hid := (h.first.underway front _ he).identity_eq i
  rw [hb.drawn] at hd'
  exact (hd.of_identity hid).eq (hd'.of_identity ((h.identity_eq he i).trans hid)) h.roots h.fingerprint
    fun a b hr hr' => h.bytes_of_source he hk hk' hr hr'

omit hb in
theorem kin : Kin ((after x s front).scene x i) ((after x' s' front).scene x' i) where
  delivery := h.delivery
  resources := h.resources
  settings := h.settings
  directory := (Asset.targetDir_of_roots h.roots).trans
    (Produce.Scene.targetDir_congr (h.identity_eq he i) rfl)

/-- What an asset in the language refers to is the same in both runs. -/
theorem meets (hs : (s.assets.get i).Speaks language) : List.Forall₂
    (Meets ((after x s front).scene x i) ((after x' s' front).scene x' i))
    ((after x s front).assets.get i).occurrences ((after x' s' front).assets.get i).occurrences := by
  have hi := h.first.lt (j := i) (by simp [he])
  have hoccurrences := (h.first.underway front _ he).occurrences_eq i
  have hoccurrences' := (h.second.underway front _ he).occurrences_eq i
  rw [h.assets, ← hoccurrences] at hoccurrences'
  refine hb.meets (h.identity_eq he) hoccurrences' fun o ho d hd => ?_
  rw [hoccurrences] at ho
  refine ⟨h.first.made.dependency_mem_front he (h.first.made.meant_of_occurrence hi ho hd).1, ?_⟩
  rcases h.first.made.language_of_occurrence hi ho hd with hl | hl
  · unfold Asset.Speaks
    exact hl ▸ hs
  · exact .inr hl

omit hb in
/-- Messages are the same in both runs, whichever tables have been read. -/
theorem message_eq (hs : (s.assets.get i).Speaks language) {u u' : Answering}
    (hu : u.catalog.Holding (MayRead x s order) x.config.catalog)
    (hu' : u'.catalog.Holding (MayRead x' s' order) x'.config.catalog) (key : String) :
    (((after x' s' front).scene x' i).message key u').1 = (((after x s front).scene x i).message key u).1 := by
  have hlanguage := (Asset.identity_eq_iff.mp ((h.first.underway front _ he).identity_eq i)).2.2
  have hlanguage' := (Asset.identity_eq_iff.mp (h.identity_eq he i)).2.2
  unfold Scene.message
  dsimp only [scene]
  rw [hlanguage', hlanguage]
  rcases hs with hs | hs <;> rw [hs]
  · have hfiles (language : String) : MayRead x s order language
        (Catalog.readTable (after x s front).work.files x.config.catalog language).1 :=
      ⟨_, h.first.mem_visits he, rfl⟩
    have hfiles' (language : String) : MayRead x' s' order language
        (Catalog.readTable (after x' s' front).work.files x'.config.catalog language).1 :=
      ⟨_, h.second.mem_visits he, rfl⟩
    obtain ⟨table, hread, htext⟩ := hu.message hfiles key language
    obtain ⟨table', hread', htext'⟩ := hu'.message hfiles' key language
    rw [htext, htext']
    exact h.agree table table' hread hread' key
  · rfl

theorem rendered_eq (hs : (s.assets.get i).Speaks language) (text : String) :
    (render ((after x' s' front).scene x' i).lookup text ((after x' s' front).assets.get i).occurrences
        { catalog := (after x' s' front).catalog }).1 =
      (render ((after x s front).scene x i).lookup text ((after x s front).assets.get i).occurrences
        { catalog := (after x s front).catalog }).1 := by
  have hstart : (⟨(after x s front).catalog, []⟩ : Answering).catalog.Holding (MayRead x s order)
        x.config.catalog ∧ (⟨(after x' s' front).catalog, []⟩ : Answering).catalog.Holding
          (MayRead x' s' order) x'.config.catalog :=
    ⟨h.first.holding h.catalog front _ he, h.second.holding h.catalog' front _ he⟩
  exact ((h.kin he).render (R := fun u u' : Answering =>
      u.catalog.Holding (MayRead x s order) x.config.catalog ∧
        u'.catalog.Holding (MayRead x' s' order) x'.config.catalog) (h.meets he hb hs)
    (fun key u u' hu => h.message_eq he hs hu.1 hu.2 key)
    (fun o o' u u' hu => ⟨Scene.holding_answer o (fun _ => ⟨_, h.first.mem_visits he, rfl⟩) hu.1,
      Scene.holding_answer o' (fun _ => ⟨_, h.second.mem_visits he, rfl⟩) hu.2⟩)
    (fun _ _ _ hu => hu) hstart text).1

theorem expanded_eq (hs : (s.assets.get i).Speaks language) {source source' : ByteArray}
    (hok : (((after x s front).scene x i).expand { catalog := (after x s front).catalog }).1 = .ok source)
    (hok' : (((after x' s' front).scene x' i).expand { catalog := (after x' s' front).catalog }).1 =
      .ok source') : source' = source := by
  have hu := h.first.underway front _ he
  unfold Scene.expand at hok hok'
  dsimp only [scene] at hok hok'
  rw [hu.content_eq] at hok
  rw [(h.second.underway front _ he).content_eq, h.assets] at hok'
  cases hc : (s.assets.get i).content with
  | some text =>
    have hrendered := h.rendered_eq he hb hs text
    rw [hc] at hok hok'
    dsimp only [scene] at hrendered
    dsimp only at hok hok'
    rw [hrendered, hok] at hok'
    exact (Except.ok.inj hok').symm
  | none =>
    have hsource := (Asset.identity_eq_iff.mp (hu.identity_eq i)).2.1
    rw [hc] at hok hok'
    dsimp only at hok hok'
    rw [hsource] at hok
    rw [(Asset.identity_eq_iff.mp (h.identity_eq he i)).2.1, hsource] at hok'
    exact h.bytes_of_source he (.refl _ _) (.refl _ _) hok hok'

/-- An asset in the language comes to the same in both runs. -/
theorem bytes_eq (hs : (s.assets.get i).Speaks language)
    (ha : Adds x s front (after x s front) i target bytes t1)
    (ha' : Adds x' s' front (after x' s' front) i target' bytes' t1') : bytes' = bytes := by
  obtain ⟨out, hfollows, hfollows'⟩ := h.processor
  have hout := Produce.output_of_content (s := (after x s front).scene x i) hfollows ha.written.content
  have hout' := Produce.output_of_content (s := (after x' s' front).scene x' i) hfollows' ha'.written.content
  have hsteps := Produce.Scene.steps_congr (h.identity_eq he i) h.minify
  obtain ⟨source, hok, rfl⟩ := map_eq_ok_iff.mp hout
  obtain ⟨source', hok', rfl⟩ := map_eq_ok_iff.mp hout'
  obtain rfl := h.expanded_eq he hb hs hok hok'
  dsimp only [scene]
  rw [hsteps]

end step

/-- Both runs stay side by side. -/
theorem beside (h : Paired language x x' s s' order reports reports') : ∀ front back,
    order = front ++ back → Beside language s.assets front (after x s front) (after x' s' front) := by
  refine prefix_induction ⟨?_, fun _ hj => (by cases hj), fun _ hj => (by cases hj)⟩ ?_
  · change s'.work.drawn = s.work.drawn
    rw [h.work]
  intro front i back he hb
  obtain ⟨target, bytes, ha⟩ := h.first.adds_of_append he
  obtain ⟨target', bytes', ha'⟩ := h.second.adds_of_append he
  obtain ⟨rfl, hdrawn⟩ := h.target_eq he hb ha ha'
  have hu := h.first.underway front _ he
  have hu' := h.second.underway front _ he
  have hfront {j : Nat} (hj : j ∈ front) : j ≠ i := fun heq => h.first.not_mem_front he (heq ▸ hj)
  refine ⟨hdrawn, fun j hj => ?_, fun j hj hs p hp => ?_⟩
  · rcases List.mem_append.mp hj with hj | hj
    · rw [ha.other j (hfront hj), ha'.other j (hfront hj)]
      exact hb.target j hj
    · rw [List.mem_singleton.mp hj, ha.self, ha'.self]
  · rcases List.mem_append.mp hj with hj | hj
    · rw [ha.other j (hfront hj)] at hp
      obtain ⟨q, f, hq, hf⟩ := hu.stored j hj
      obtain ⟨q', f', hq', hf'⟩ := hu'.stored j hj
      obtain rfl : q = p := Option.some.inj (hq.symm.trans hp)
      have hp' := (hb.target j hj).trans hq
      obtain rfl : q' = q := Option.some.inj (hq'.symm.trans hp')
      have hsame := hb.read j hj hs _ hq
      rw [Tree.read, Tree.read, hf, hf'] at hsame
      rw [Tree.read, Tree.read, ha.file hu.home hj hq hf, ha'.file hu'.home hj hp' hf']
      exact hsame
    · obtain rfl := List.mem_singleton.mp hj
      obtain rfl := h.bytes_eq he hb hs ha ha'
      rw [ha.self] at hp
      obtain rfl : target' = p := Option.some.inj hp
      rw [Tree.read_eq_ok_iff.mpr ha.written.file, Tree.read_eq_ok_iff.mpr ha'.written.file]

end Paired

/-! ### Two builds -/

/-- Two reports of one asset under one target. In language `l`, and in none, the targets hold the same. -/
structure SameIn (l : String) (w w' : Workspace) (e e' : AssetReport) : Prop where
  kind : e'.kind = e.kind
  source : e'.source = e.source
  language : e'.language = e.language
  target : e'.target = e.target
  content : e.language = some l ∨ e.language = none → ∃ target bytes, e.target = some target ∧
    w.files.read target = .ok bytes ∧ w'.files.read target = .ok bytes

theorem Paired.sameIn {language : String} {x' : Context} {report report' : BuildReport}
    {w1 w1' : Workspace} {o' : Outset} (hb : CleanBuild x w report w1 o)
    (hb' : CleanBuild x' w report' w1' o') (horder : o'.order = o.order)
    (h : Paired language x x' o.session o'.session o.order report.assets report'.assets) :
    List.Forall₂ (SameIn language w1 w1') report.assets report'.assets := by
  have hbeside := h.beside o.order [] (by simp)
  have hreports := h.first.forall₂_report
  have hreports' := h.second.forall₂_report
  refine List.forall₂_iff_get.mpr ⟨hreports.length_eq.symm.trans hreports'.length_eq, fun n hn hn' => ?_⟩
  have hno : n < o.order.length := hreports.length_eq ▸ hn
  have he := (List.forall₂_iff_get.mp hreports).2 n hno hn
  have he' := (List.forall₂_iff_get.mp hreports').2 n hno hn'
  generalize report.assets.get ⟨n, hn⟩ = e at he
  generalize report'.assets.get ⟨n, hn'⟩ = e' at he'
  have hj : o.order.get ⟨n, hno⟩ ∈ o.order := List.get_mem _ _
  generalize o.order.get ⟨n, hno⟩ = j at he he' hj
  have hunder := h.first.underway o.order [] (by simp)
  have hunder' := h.second.underway o.order [] (by simp)
  have hid : ((after x' o'.session o.order).assets.get j).identity =
      ((after x o.session o.order).assets.get j).identity := by
    rw [hunder.identity_eq j, hunder'.identity_eq j, h.assets]
  obtain ⟨hkind, hsource, hlanguage⟩ := Asset.identity_eq_iff.mp hid
  obtain ⟨_, _, hlanguage₀⟩ := Asset.identity_eq_iff.mp (hunder.identity_eq j)
  have htarget := hbeside.target j hj
  rw [he, he']
  refine ⟨hkind, hsource, hlanguage, htarget, fun hl => ?_⟩
  obtain ⟨p, f, hp, hf, hend⟩ := hb.exists_file hj
  obtain ⟨p', f', hp', hf', hend'⟩ := hb'.exists_file (horder ▸ hj)
  rw [horder] at hp' hf'
  obtain rfl : p' = p := Option.some.inj (hp'.symm.trans (htarget.trans hp))
  have hspeaks : (o.session.assets.get j).Speaks language := by
    unfold Asset.Speaks
    rw [← hlanguage₀]
    exact hl
  have hsame := hbeside.read j hj hspeaks _ hp
  rw [Tree.read, Tree.read, hf, hf'] at hsame
  refine ⟨p', f.bytes, hp, Tree.read_eq_ok_iff.mpr ⟨f, hend, rfl⟩, Tree.read_eq_ok_iff.mpr ⟨f', hend', ?_⟩⟩
  exact Except.ok.inj hsame

/-- Once all assets are read, chains of references from an asset in a language lead to assets in that
language or in none. Two builds of one site from an empty cache, with stores that agree on the language,
give every asset the same target, and the same content in the language and in none. The processor does
the same to the same input, and targets are files of their own that lie away from the sources. -/
theorem languages_apart {c : Config} {language : String} :
    (∀ as w', (Collection.ofFiles c (Discovery.sources w.files c)).parseAll c w = (.ok (), as, w') →
      ∀ i d, (as.get i).language = some language →
        Relation.TransGen (fun i d => d ∈ (as.get i).dependencies) i d →
          (as.get d).language = some language ∨ (as.get d).language = none) ∧
    ∀ (x : Context) (directory? : Option Path) (f : Step → ByteArray → Except ProcessorError ByteArray)
      (report report' : BuildReport) (w1 w1' : Workspace), x.config = c →
      x.processor = .ofFunction (fun _ => f) → x.FlatFingerprints → w.files.WellFormed →
      Cache.savedRows w.files c.cache = [] → AgreeOn language x (x.withCatalog directory?) w →
      BuildsApart x w report w1 → BuildsApart (x.withCatalog directory?) w report' w1' →
      List.Forall₂ (SameIn language w1 w1') report.assets report'.assets := by
  refine ⟨fun as w' hparse i d hi hchain => Collection.speaks_of_chain hparse (.inl hi) hchain, ?_⟩
  rintro x directory? f report report' w1 w1' rfl hprocessor hflat hw hrows hagree hbuilt hbuilt'
  have hkeeps : x.processor.KeepsFiles := hprocessor ▸ Processor.keepsFiles_ofFunction _
  obtain ⟨o, hb⟩ := hbuilt.exists_cleanBuild hkeeps hflat hw hrows
  obtain ⟨o', hb'⟩ := hbuilt'.exists_cleanBuild hkeeps hflat hw hrows
  have hsecond : outset? (x.withCatalog directory?) w = _ := outset?_withCatalog hb.outset
  obtain rfl := Option.some.inj (hb'.outset.symm.trans hsecond)
  have hfollows := Processor.follows_ofFunction f
  rw [← hprocessor] at hfollows
  exact Paired.sameIn hb hb' rfl {
    first := hb.clean
    second := hb'.clean
    assets := rfl
    work := rfl
    roots := rfl
    delivery := rfl
    resources := rfl
    minify := rfl
    settings := rfl
    fingerprint := rfl
    processor := ⟨_, hfollows, hfollows⟩
    catalog := hb.catalog
    catalog' := hb'.catalog
    agree := fun table table' ⟨v, hv, ht⟩ ⟨v', hv', ht'⟩ key => by
      rw [ht, ht']
      exact hagree o _ hb.outset hb'.outset v hv v' hv' key }

end Build

/-! ### Sites in two languages -/

namespace Sample

/-- A directory of texts in two languages, with the place of the table of the first. -/
def texts (name : String) (place : Location) (text : String) : List (Location × Entry) := [
  ([name], .directory 0),
  ([name, "i18n"], .directory 0),
  ([name, "i18n", "en.json"], source "\x7b\"greeting\":\"Hello\"\x7d"),
  (name :: place, source ("\x7b\"greeting\":\"" ++ text ++ "\"\x7d"))]

def greeting : Workspace := site ([
  (["html"], .directory 0),
  (["html", "page.html"], source "[ greeting ]")] ++
  texts "first" ["i18n", "de.json"] "Hallo" ++ texts "second" ["i18n", "de.json"] "Moin")

def greetingConfig : Config :=
  { catalog := some ⟨"first/i18n"⟩, markup := ⟨⟨"html"⟩, ⟨"public/html"⟩, ["de", "en"]⟩ }

/-- A language that leads from the targets back to a source, and from its texts to elsewhere. -/
def strayed : Config :=
  { catalog := some ⟨"first/i18n"⟩, markup := ⟨⟨"html"⟩, ⟨"public"⟩, ["x/../../html/d/b", "en"]⟩ }

def strayedPages : Workspace := site ([
  (["html"], .directory 0),
  (["html", "a.html"], source "[ greeting ]"),
  (["html", "d"], .directory 0),
  (["html", "d", "b.html"], .file { bytes := ⟨#[255]⟩, modified := 5 })] ++
  ["first", "second"].flatMap (fun name => [
    ([name, "i18n", "x"], .directory 0),
    ([name, "html"], .directory 0),
    ([name, "html", "d"], .directory 0)]) ++
  texts "first" ["html", "d", "b.json"] "Hallo" ++ texts "second" ["html", "d", "b.json"] "Moin")

end Sample

namespace Build

open Sample
open BuildReport (TargetsDistinct TargetsOutside)

/-- A run that reads one table for a language in its whole course and leaves a text at a path. -/
structure Leaves (language : String) (table : MessageTable) (p : Path) (text : String) (x : Context)
    (o : Outset) : Prop where
  reads : ∀ v ∈ visits x o.session o.order,
    (Catalog.readTable v.1.work.files x.config.catalog language).1 = table
  leaves : ((finish x o.session.cache o).2.files.read p).toOption = some text.toUTF8

instance (language : String) (table : MessageTable) (p : Path) (text : String) (x : Context) :
    DecidablePred (Leaves language table p text x) :=
  fun o => decidable_of_iff ((∀ v ∈ visits x o.session o.order,
      (Catalog.readTable v.1.work.files x.config.catalog language).1 = table) ∧
    ((finish x o.session.cache o).2.files.read p).toOption = some text.toUTF8)
    ⟨fun h => ⟨h.1, h.2⟩, fun h => ⟨h.reads, h.leaves⟩⟩

section rehearsed

variable {language text : String} {table : MessageTable} {p : Path} {x : Context} {w : Workspace}
  (r : Rehearsed [] x w (Leaves language table p text x)) (h : Cache.Holds w.files x.config.cache [])

include r h

theorem Rehearsed.agreeOn {text' : String} {p' : Path} {x' : Context}
    (r' : Rehearsed [] x' w (Leaves language table p' text' x'))
    (h' : Cache.Holds w.files x'.config.cache []) : AgreeOn language x x' w := by
  obtain ⟨o, ho, hleaves⟩ := r.exists_outset h
  obtain ⟨o', ho', hleaves'⟩ := r'.exists_outset h'
  intro q q' hq hq' v hv v' hv' key
  rw [ho] at hq
  rw [ho'] at hq'
  cases hq
  cases hq'
  unfold Catalog.textAt
  rw [hleaves.reads v hv, hleaves'.reads v' hv']

end rehearsed

def english : MessageTable := [("greeting", "Hello")]

def secondTexts (x : Context) : Context := x.withCatalog (some ⟨"second/i18n"⟩)

def greetingResults : List (Outcome × Path × Option String × Option Path) := [
  (.created, ⟨"html/page.html"⟩, some "de", some ⟨"public/html/page-de.html"⟩),
  (.created, ⟨"html/page.html"⟩, some "en", some ⟨"public/html/page-en.html"⟩)]

set_option maxRecDepth 100000 in
def greetingRun : Rehearsed [] (context greetingConfig) greeting
    (Leaves "en" english ⟨"public/html/page-de.html"⟩ "Hallo" (context greetingConfig)) where
  results := greetingResults
  evaluated := by decide +kernel

set_option maxRecDepth 100000 in
def secondGreetingRun : Rehearsed [] (secondTexts (context greetingConfig)) greeting
    (Leaves "en" english ⟨"public/html/page-de.html"⟩ "Moin" (secondTexts (context greetingConfig))) where
  results := greetingResults
  evaluated := by decide +kernel

theorem holds_greeting : Cache.Holds greeting.files ⟨"build"⟩ [] :=
  Cache.holds_nil (by decide +kernel)

theorem languages_apart_greeting :
    AgreeOn "en" (context greetingConfig) (secondTexts (context greetingConfig)) greeting ∧
    ∃ report report' w w', BuildsApart (context greetingConfig) greeting report w ∧
      BuildsApart (secondTexts (context greetingConfig)) greeting report' w' ∧
      List.Forall₂ (SameIn "en" w w') report.assets report'.assets ∧
      w.files.read ⟨"public/html/page-de.html"⟩ = .ok "Hallo".toUTF8 ∧
      w'.files.read ⟨"public/html/page-de.html"⟩ = .ok "Moin".toUTF8 := by
  have hagree := greetingRun.agreeOn holds_greeting secondGreetingRun holds_greeting
  obtain ⟨report, w, hb, hok, hresults, hread⟩ :=
    greetingRun.exists_build holds_greeting (by decide) fun _ ho => ho.leaves
  obtain ⟨report', w', hb', hok', hresults', hread'⟩ :=
    secondGreetingRun.exists_build holds_greeting (by decide) fun _ ho => ho.leaves
  have hdistinct : greetingResults.Pairwise fun e e' =>
      ∀ p ∈ e.2.2.2, ∀ q ∈ e'.2.2.2, p.resolve [] ≠ q.resolve [] := by decide +kernel
  have houtside : ∀ k ∈ Kind.all, ∀ e ∈ greetingResults, ∀ p ∈ e.2.2.2,
      ¬(greetingConfig.sectionOf k).source.resolve [] <+: p.resolve [] := by decide +kernel
  have hapart : BuildsApart (context greetingConfig) greeting report w :=
    ⟨hb, hok, targetsDistinct_of_results hresults hdistinct, targetsOutside_of_results hresults houtside⟩
  have hapart' : BuildsApart (secondTexts (context greetingConfig)) greeting report' w' :=
    ⟨hb', hok', targetsDistinct_of_results hresults' hdistinct,
      targetsOutside_of_results hresults' houtside⟩
  exact ⟨hagree, report, report', w, w', hapart, hapart',
    languages_apart.2 (context greetingConfig) _ _ report report' w w' rfl rfl (suits _).flat
      (by decide +kernel) (by decide +kernel) hagree hapart hapart', hread, hread'⟩

def strayedResults : List (Outcome × Path × Option String × Option Path) := [
  (.created, ⟨"html/a.html"⟩, some "x/../../html/d/b", some ⟨"public/a-x/../../html/d/b.html"⟩),
  (.created, ⟨"html/a.html"⟩, some "en", some ⟨"public/a-en.html"⟩),
  (.created, ⟨"html/d/b.html"⟩, some "x/../../html/d/b", some ⟨"public/d/b-x/../../html/d/b.html"⟩),
  (.created, ⟨"html/d/b.html"⟩, some "en", some ⟨"public/d/b-en.html"⟩)]

set_option maxRecDepth 100000 in
def strayedRun : Rehearsed [] (context strayed) strayedPages
    (Leaves "en" english ⟨"public/d/b-en.html"⟩ "Hallo" (context strayed)) where
  results := strayedResults
  evaluated := by decide +kernel

set_option maxRecDepth 100000 in
def secondStrayedRun : Rehearsed [] (secondTexts (context strayed)) strayedPages
    (Leaves "en" english ⟨"public/d/b-en.html"⟩ "Moin" (secondTexts (context strayed))) where
  results := strayedResults
  evaluated := by decide +kernel

theorem holds_strayedPages : Cache.Holds strayedPages.files ⟨"build"⟩ [] :=
  Cache.holds_nil (by decide +kernel)

/-- A language can lead from the roots of targets to a source. A page that is no text is then copied
in English from what stands there in the other language. -/
theorem exists_language_leak :
    strayed.validate = .ok strayed ∧ strayed.markup.languages ≠ [] ∧
    (∀ k k', Apart ((strayed.sectionOf k).source.resolve []) ((strayed.sectionOf k').target.resolve []) ∧
      Apart ((strayed.sectionOf k).source.resolve []) (strayed.cache.resolve [])) ∧
    Suits strayed (context strayed) ∧ strayedPages.files.WellFormed ∧
    Cache.savedRows strayedPages.files strayed.cache = [] ∧
    AgreeOn "en" (context strayed) (secondTexts (context strayed)) strayedPages ∧
    ∃ report report' w w', build (context strayed) strayedPages = (.ok report, w) ∧
      build (secondTexts (context strayed)) strayedPages = (.ok report', w') ∧
      report.hasFailures = false ∧ report'.hasFailures = false ∧
      TargetsDistinct [] report.assets ∧ TargetsDistinct [] report'.assets ∧
      (∀ r ∈ [report, report'], ∃ e ∈ r.assets,
        e.source = ⟨"html/d/b.html"⟩ ∧ e.language = some "en" ∧ e.target = some ⟨"public/d/b-en.html"⟩) ∧
      w.files.read ⟨"public/d/b-en.html"⟩ = .ok "Hallo".toUTF8 ∧
      w'.files.read ⟨"public/d/b-en.html"⟩ = .ok "Moin".toUTF8 := by
  have hagree := strayedRun.agreeOn holds_strayedPages secondStrayedRun holds_strayedPages
  obtain ⟨report, w, hb, hok, hresults, hread⟩ :=
    strayedRun.exists_build holds_strayedPages (by decide) fun _ ho => ho.leaves
  obtain ⟨report', w', hb', hok', hresults', hread'⟩ :=
    secondStrayedRun.exists_build holds_strayedPages (by decide) fun _ ho => ho.leaves
  have hdistinct : strayedResults.Pairwise fun e e' =>
      ∀ p ∈ e.2.2.2, ∀ q ∈ e'.2.2.2, p.resolve [] ≠ q.resolve [] := by decide +kernel
  refine ⟨by decide +kernel, by decide, fun k k' => ?_, suits _, by decide +kernel, by decide +kernel,
    hagree, report, report', w, w', hb, hb', hok, hok', targetsDistinct_of_results hresults hdistinct,
    targetsDistinct_of_results hresults' hdistinct, fun r hr => ?_, hread, hread'⟩
  · cases k <;> cases k' <;> decide +kernel
  · have hmap : (r.assets.map fun e => (e.outcome, e.source, e.language, e.target)) = strayedResults := by
      rcases List.mem_pair.mp hr with rfl | rfl
      · exact hresults
      · exact hresults'
    have hmem : (Outcome.created, (⟨"html/d/b.html"⟩ : Path), some "en",
        some (⟨"public/d/b-en.html"⟩ : Path)) ∈ strayedResults := by simp [strayedResults]
    rw [← hmap] at hmem
    obtain ⟨e, he, heq⟩ := List.mem_map.mp hmem
    simp only [Prod.mk.injEq] at heq
    exact ⟨e, he, heq.2⟩

end Build

end AssetCompiler
