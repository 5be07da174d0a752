import AssetCompiler.Proofs.AppConfig.Includes
import AssetCompiler.Proofs.Files.View
import Mathlib.Data.Finset.Card
import Mathlib.Logic.Relation

/-! # When a configuration can be loaded

Files point to the files that their includes name. Loading succeeds just when all that is reached from
the index can be read, names what can be included and lies on no cycle; and what is reported as a
cycle is one. The files that are open inside one another are different ones.
-/
namespace AssetCompiler.AppConfig

open Relation (ReflTransGen TransGen)

variable {t : Tree} {opened : List Location} {l m : Location} {p q : Path} {v w : Json}

/-- The value that the file at a location holds. -/
def documentAt? (t : Tree) (l : Location) : Option Json :=
  (t.fileAt? l).bind fun f => (String.fromUTF8? f.bytes).bind Json.parse?

/-- A path that an include in the file at a location names. -/
def Names (t : Tree) (l : Location) (p : Path) : Prop :=
  ∃ v, documentAt? t l = some v ∧
    ∃ i ∈ includesIn v, ∃ name ∈ namesIn i, p = (Tree.pathOf l.dropLast).join ⟨name⟩

/-- One file points to another. -/
def Edge (t : Tree) (l m : Location) : Prop := ∃ p, Names t l p ∧ t.locate p = .ok m

/-- A file that can be read, with includes that name files with objects. -/
structure Expandable (t : Tree) (l : Location) : Prop where
  readable : ∃ v, documentAt? t l = some v
  includes : ∀ v, documentAt? t l = some v → ∀ i ∈ includesIn v, IsInclude i
  objects : ∀ p, Names t l p → ∃ m fields, t.locate p = .ok m ∧ documentAt? t m = some (.object fields)

def indexPath (dir : Path) : Path := dir.join ⟨indexName⟩

/-! ## Opening a file -/

/-- Where a file is and the value that it holds, unless it is open already. -/
def openFile (t : Tree) (opened : List Location) (p : Path) : Except AppConfigError (Location × Json) :=
  match t.locate p with
  | .error fault => .error (.file p fault)
  | .ok l =>
    match t.get? l with
    | none => .error (.file p .missing)
    | some (.directory _) => .error (.file (Tree.pathOf l) .isDirectory)
    | some (.file f) =>
      if opened.contains l then .error (.cycle (Tree.pathOf l))
      else match String.fromUTF8? f.bytes with
        | none => .error (.file (Tree.pathOf l) .notText)
        | some text => match Json.parse? text with
          | none => .error (.malformed (Tree.pathOf l))
          | some v => .ok (l, v)

/-- Loading is opening and then expanding, with the file open meanwhile. -/
theorem loadFile_eq (t : Tree) (opened : List Location) (p : Path) :
    loadFile t opened p = openFile t opened p >>= fun (l, v) =>
      expand (loadFile t (l :: opened)) (Tree.pathOf l.dropLast) v := by
  rw [loadFile]
  split
  · rename_i fault hl
    simp [openFile, hl, bind, Except.bind]
  · rename_i l hl
    split
    · rename_i hg
      simp [openFile, hl, hg, bind, Except.bind]
    · rename_i hg
      simp [openFile, hl, hg, bind, Except.bind]
    · rename_i f hg
      split
      · rename_i ho
        simp [openFile, hl, hg, ho, bind, Except.bind]
      · rename_i ho
        split
        · rename_i ht
          simp [openFile, hl, hg, ho, ht, bind, Except.bind]
        · rename_i text ht
          split
          · rename_i hp
            simp [openFile, hl, hg, ho, ht, hp, bind, Except.bind]
          · rename_i v hp
            simp [openFile, hl, hg, ho, ht, hp, bind, Except.bind]

theorem openFile_eq_ok_iff :
    openFile t opened p = .ok (l, v) ↔ t.locate p = .ok l ∧ l ∉ opened ∧ documentAt? t l = some v := by
  constructor
  · intro h
    unfold openFile at h
    split at h
    · cases h
    · rename_i k hl
      split at h
      · cases h
      · cases h
      · rename_i f hg
        split at h
        · cases h
        · rename_i ho
          split at h
          · cases h
          · rename_i text ht
            split at h
            · cases h
            · rename_i hp
              cases h
              refine ⟨hl, by simpa using ho, ?_⟩
              rw [documentAt?, Tree.fileAt?_eq_some_iff.mpr hg, Option.bind_some, ht, Option.bind_some, hp]
  · rintro ⟨hl, ho, hd⟩
    obtain ⟨f, hf, hd⟩ := Option.bind_eq_some_iff.mp hd
    obtain ⟨text, ht, hp⟩ := Option.bind_eq_some_iff.mp hd
    simp [openFile, hl, Tree.fileAt?_eq_some_iff.mp hf, ho, ht, hp]

/-- Only a file that is open already is taken for a cycle. -/
theorem openFile_eq_cycle (h : openFile t opened p = .error (.cycle q)) :
    ∃ l ∈ opened, t.locate p = .ok l ∧ q = Tree.pathOf l := by
  unfold openFile at h
  split at h
  · cases h
  · rename_i l hl
    split at h
    · cases h
    · cases h
    · split at h
      · rename_i ho
        cases h
        exact ⟨l, by simpa using ho, hl, rfl⟩
      · split at h
        · cases h
        · split at h <;> cases h

theorem loadFile_eq_ok_iff :
    loadFile t opened p = .ok w ↔ ∃ l v, t.locate p = .ok l ∧ l ∉ opened ∧ documentAt? t l = some v ∧
      expand (loadFile t (l :: opened)) (Tree.pathOf l.dropLast) v = .ok w := by
  rw [loadFile_eq, bind_eq_ok_iff]
  constructor
  · rintro ⟨⟨l, v⟩, ho, h⟩
    obtain ⟨hl, hnot, hd⟩ := openFile_eq_ok_iff.mp ho
    exact ⟨l, v, hl, hnot, hd, h⟩
  · rintro ⟨l, v, hl, hnot, hd, h⟩
    exact ⟨(l, v), openFile_eq_ok_iff.mpr ⟨hl, hnot, hd⟩, h⟩

/-- What holds while some files are open, if it holds with one more of them open, holds always. -/
theorem opened_induction (t : Tree) {motive : List Location → Prop}
    (step : ∀ opened, (∀ l v, l ∉ opened → documentAt? t l = some v → motive (l :: opened)) →
      motive opened) (opened : List Location) : motive opened := by
  refine step opened fun l v ho hd => ?_
  obtain ⟨f, hf, _⟩ := Option.bind_eq_some_iff.mp hd
  have := outside_cons_lt (Tree.mem_of_get?_file (Tree.fileAt?_eq_some_iff.mp hf)) ho
  exact opened_induction t step (l :: opened)
  termination_by outside t opened

/-- An object is loaded from a file that holds one. -/
theorem object_of_loadFile {fields : List (String × Json)}
    (h : loadFile t opened p = .ok (.object fields)) :
    ∃ l own, t.locate p = .ok l ∧ documentAt? t l = some (.object own) := by
  obtain ⟨l, v, hl, _, hd, hv⟩ := loadFile_eq_ok_iff.mp h
  cases v with
  | object own => exact ⟨l, own, hl, hd⟩
  | array items =>
    obtain ⟨ws, _, hw⟩ := map_eq_ok_iff.mp hv
    cases hw
  | _ => cases hv

/-! ## Success -/

/-- What is loaded reaches no file that is open, none that cannot be expanded and no cycle. -/
theorem reach_of_loadFile (opened : List Location) : ∀ p w, loadFile t opened p = .ok w →
    ∃ l, t.locate p = .ok l ∧ ∀ m, ReflTransGen (Edge t) l m →
      m ∉ opened ∧ Expandable t m ∧ ¬TransGen (Edge t) m m := by
  induction opened using opened_induction t with
  | step opened ih =>
    intro p w h
    obtain ⟨l, v, hl, ho, hd, hw⟩ := loadFile_eq_ok_iff.mp h
    have hprovided := (exists_expand_iff v).mp ⟨w, hw⟩
    have hnames : ∀ q, Names t l q →
        ∃ fields, loadFile t (l :: opened) q = .ok (.object fields) := by
      rintro q ⟨v', hd', i, hi, name, hname, rfl⟩
      obtain rfl : v = v' := Option.some.inj (hd.symm.trans hd')
      exact (hprovided i hi).2 name hname
    have hbelow : ∀ d, Edge t l d → ∀ m, ReflTransGen (Edge t) d m →
        m ∉ l :: opened ∧ Expandable t m ∧ ¬TransGen (Edge t) m m := by
      rintro d ⟨q, hq, hlocate⟩
      obtain ⟨fields, hload⟩ := hnames q hq
      obtain ⟨d', hd', hreach⟩ := ih l v ho hd q _ hload
      obtain rfl : d = d' := Except.ok.inj (hlocate.symm.trans hd')
      exact hreach
    refine ⟨l, hl, fun m hm => ?_⟩
    rcases hm.cases_head with rfl | ⟨d, hedge, hm⟩
    · refine ⟨ho, ⟨⟨v, hd⟩, ?_, ?_⟩, ?_⟩
      · intro v' hd' i hi
        obtain rfl : v = v' := Option.some.inj (hd.symm.trans hd')
        exact (hprovided i hi).1
      · intro q hq
        obtain ⟨fields, hload⟩ := hnames q hq
        exact object_of_loadFile hload
      · intro hcycle
        obtain ⟨d, hedge, hback⟩ := TransGen.head'_iff.mp hcycle
        exact (hbelow d hedge l hback).1 List.mem_cons_self
    · obtain ⟨hnot, hexpandable, hcycle⟩ := hbelow d hedge m hm
      exact ⟨fun hmem => hnot (List.mem_cons_of_mem _ hmem), hexpandable, hcycle⟩

/-- Where that is all there is, loading succeeds, and an object is loaded from an object. -/
theorem exists_loadFile (opened : List Location) : ∀ p l, t.locate p = .ok l →
    (∀ m, ReflTransGen (Edge t) l m → m ∉ opened ∧ Expandable t m ∧ ¬TransGen (Edge t) m m) →
    ∃ w, loadFile t opened p = .ok w ∧
      ∀ fields, documentAt? t l = some (.object fields) → ∃ out, w = .object out := by
  induction opened using opened_induction t with
  | step opened ih =>
    intro p l hl hreach
    obtain ⟨ho, hexpandable, hcycle⟩ := hreach l .refl
    obtain ⟨v, hd⟩ := hexpandable.readable
    have hprovided : ∀ i ∈ includesIn v,
        Provided (loadFile t (l :: opened)) (Tree.pathOf l.dropLast) i := by
      intro i hi
      refine ⟨hexpandable.includes v hd i hi, fun name hname => ?_⟩
      have hnamed : Names t l _ := ⟨v, hd, i, hi, name, hname, rfl⟩
      obtain ⟨m, fields, hm, hfields⟩ := hexpandable.objects _ hnamed
      have hedge : Edge t l m := ⟨_, hnamed, hm⟩
      obtain ⟨w, hw, hobject⟩ := ih l v ho hd _ m hm (by
        intro k hk
        obtain ⟨hnot, hrest⟩ := hreach k (.head hedge hk)
        refine ⟨fun hmem => ?_, hrest⟩
        rcases List.mem_cons.mp hmem with rfl | hmem
        · exact hcycle (.head' hedge hk)
        · exact hnot hmem)
      obtain ⟨out, rfl⟩ := hobject fields hfields
      exact ⟨out, hw⟩
    obtain ⟨w, hw⟩ := (exists_expand_iff v).mpr hprovided
    refine ⟨w, loadFile_eq_ok_iff.mpr ⟨l, v, hl, ho, hd, hw⟩, fun fields hfields => ?_⟩
    obtain rfl : v = .object fields := Option.some.inj (hd.symm.trans hfields)
    obtain ⟨own, objects, _, _, _, rfl⟩ := expand_object_eq_ok_iff.mp hw
    exact ⟨_, rfl⟩

/-! ## Cycles -/

/-- A file that is reported as a cycle is reached, and it is open or lies on a cycle. -/
theorem reach_of_cycle (opened : List Location) : ∀ p q, loadFile t opened p = .error (.cycle q) →
    ∃ l m, t.locate p = .ok l ∧ ReflTransGen (Edge t) l m ∧ q = Tree.pathOf m ∧
      (m ∈ opened ∨ TransGen (Edge t) m m) := by
  induction opened using opened_induction t with
  | step opened ih =>
    intro p q h
    rw [loadFile_eq] at h
    rcases bind_eq_error_iff.mp h with h | ⟨⟨l, v⟩, ho, h⟩
    · obtain ⟨l, hmem, hl, rfl⟩ := openFile_eq_cycle h
      exact ⟨l, l, hl, .refl, rfl, .inl hmem⟩
    · obtain ⟨hl, hnot, hd⟩ := openFile_eq_ok_iff.mp ho
      rcases includes_of_expand_error v h with ⟨_, _, he⟩ | ⟨i, hi, name, hname, hload⟩
      · cases he
      · obtain ⟨d, m, hd', hm, rfl, hend⟩ := ih l v hnot hd _ q hload
        have hedge : Edge t l d := ⟨_, ⟨v, hd, i, hi, name, hname, rfl⟩, hd'⟩
        refine ⟨l, m, hl, .head hedge hm, rfl, ?_⟩
        rcases hend with hmem | hcycle
        · rcases List.mem_cons.mp hmem with rfl | hmem
          · exact .inr (.head' hedge hm)
          · exact .inl hmem
        · exact .inr hcycle

/-! ## Nesting -/

/-- Loads a file with at most `n` further files open inside one another. What is nested deeper is
left to another loader. -/
def loadWithin (t : Tree) (beyond : Path → Except AppConfigError Json) :
    Nat → List Location → Path → Except AppConfigError Json
  | 0, opened, p => openFile t opened p >>= fun _ => beyond p
  | n + 1, opened, p => openFile t opened p >>= fun (l, v) =>
      expand (loadWithin t beyond n (l :: opened)) (Tree.pathOf l.dropLast) v

def fileLocations (t : Tree) : Finset Location :=
  (t.keys.filter fun l => (t.fileAt? l).isSome).toFinset

theorem mem_fileLocations (h : documentAt? t l = some v) : l ∈ fileLocations t := by
  obtain ⟨f, hf, _⟩ := Option.bind_eq_some_iff.mp h
  have hkey : l ∈ t.keys := Tree.mem_of_get?_file (Tree.fileAt?_eq_some_iff.mp hf)
  simp [fileLocations, hkey, hf]

/-- Files that are open inside one another are different files of the tree. -/
theorem fresh_of_openFile (h : openFile t opened p = .ok (l, v)) (hdistinct : opened.Nodup)
    (hfiles : ∀ k ∈ opened, k ∈ fileLocations t) :
    (l :: opened).Nodup ∧ ∀ k ∈ l :: opened, k ∈ fileLocations t := by
  obtain ⟨_, hnot, hd⟩ := openFile_eq_ok_iff.mp h
  exact ⟨List.nodup_cons.mpr ⟨hnot, hdistinct⟩, List.forall_mem_cons.mpr ⟨mem_fileLocations hd, hfiles⟩⟩

/-- With room for as many files as there are, nothing is nested deeper. -/
theorem loadWithin_eq (beyond : Path → Except AppConfigError Json) {n : Nat}
    (hdistinct : opened.Nodup) (hfiles : ∀ k ∈ opened, k ∈ fileLocations t)
    (hn : (fileLocations t).card ≤ opened.length + n) (p : Path) :
    loadWithin t beyond n opened p = loadFile t opened p := by
  induction n generalizing opened p with
  | zero =>
    rw [loadWithin, loadFile_eq]
    cases ho : openFile t opened p with
    | error e => rfl
    | ok lv =>
      obtain ⟨hnodup, hall⟩ := fresh_of_openFile ho hdistinct hfiles
      have hcard : (lv.1 :: opened).toFinset.card ≤ (fileLocations t).card :=
        Finset.card_le_card fun k hk => hall k (List.mem_toFinset.mp hk)
      rw [List.toFinset_card_of_nodup hnodup, List.length_cons] at hcard
      omega
  | succ n ih =>
    rw [loadWithin, loadFile_eq]
    cases ho : openFile t opened p with
    | error e => rfl
    | ok lv =>
      obtain ⟨hnodup, hall⟩ := fresh_of_openFile ho hdistinct hfiles
      have hroom : (fileLocations t).card ≤ (lv.1 :: opened).length + n := by
        rw [List.length_cons]
        omega
      have hnested : loadWithin t beyond n (lv.1 :: opened) = loadFile t (lv.1 :: opened) :=
        funext fun q => ih hnodup hall hroom q
      simp only [bind, Except.bind, hnested]

/-- Loading nests no deeper than there are files. It succeeds just when every file that is reached from
the index can be read, has only names or lists of names as includes, which name files with objects, and
lies on no cycle. What it reports as a cycle is a file that is reached and lies on one. -/
theorem load_exact (t : Tree) (dir : Path) :
    (∀ beyond, load t dir =
      (loadWithin t beyond (fileLocations t).card [] (indexPath dir)).map AppConfig.mk) ∧
    ((∃ c, load t dir = .ok c) ↔ ∃ l, t.locate (indexPath dir) = .ok l ∧
      ∀ m, ReflTransGen (Edge t) l m → Expandable t m ∧ ¬TransGen (Edge t) m m) ∧
    ∀ q, load t dir = .error (.cycle q) → ∃ l m, t.locate (indexPath dir) = .ok l ∧
      ReflTransGen (Edge t) l m ∧ TransGen (Edge t) m m ∧ q = Tree.pathOf m := by
  refine ⟨fun beyond => ?_, ⟨?_, ?_⟩, fun q h => ?_⟩
  · rw [loadWithin_eq beyond List.nodup_nil (fun k hk => by cases hk) (by simp)]
    rfl
  · rintro ⟨c, h⟩
    obtain ⟨w, hw, _⟩ := map_eq_ok_iff.mp h
    obtain ⟨l, hl, hreach⟩ := reach_of_loadFile [] _ w hw
    exact ⟨l, hl, fun m hm => (hreach m hm).2⟩
  · rintro ⟨l, hl, hreach⟩
    obtain ⟨w, hw, _⟩ := exists_loadFile [] _ l hl fun m hm => ⟨List.not_mem_nil, hreach m hm⟩
    exact ⟨⟨w⟩, map_eq_ok_iff.mpr ⟨w, hw, rfl⟩⟩
  · obtain ⟨l, m, hl, hm, rfl, hend⟩ := reach_of_cycle [] _ q (map_eq_error_iff.mp h)
    rcases hend with hmem | hcycle
    · cases hmem
    · exact ⟨l, m, hl, hm, hcycle, rfl⟩

end AssetCompiler.AppConfig
