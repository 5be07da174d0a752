import AssetCompiler.Proofs.AppConfig.Expansion
import AssetCompiler.Proofs.AppConfig.Loading

/-! # What files contribute

A file contributes one value, whichever files are open when it is loaded: its own value expanded with
what the files contribute that its includes name. Nothing of this is an include any more.
-/
namespace AssetCompiler

namespace AppConfig

open Json (EveryObject)

variable {t : Tree} {opened opened' : List Location} {l m : Location} {p : Path} {v v' w : Json}

/-- A value that the file at a location is loaded as. -/
def Contributes (t : Tree) (l : Location) (v : Json) : Prop :=
  ∃ opened p, t.locate p = .ok l ∧ loadFile t opened p = .ok v

/-- The objects that a name stands for in the file at a location. -/
def Included (t : Tree) (l : Location) (name : String) (fields : List (String × Json)) : Prop :=
  ∃ m, t.locate ((Tree.pathOf l.dropLast).join ⟨name⟩) = .ok m ∧ Contributes t m (.object fields)

theorem everyObject_of_documentAt? (h : documentAt? t l = some v) : EveryObject Fields.Sorted v := by
  obtain ⟨f, _, h⟩ := Option.bind_eq_some_iff.mp h
  obtain ⟨text, _, h⟩ := Option.bind_eq_some_iff.mp h
  exact Json.everyObject_of_parse? h

theorem everyObject_of_loadFile (opened : List Location) :
    ∀ p w, loadFile t opened p = .ok w → EveryObject Merged w := by
  induction opened using opened_induction t with
  | step opened ih =>
    intro p w h
    obtain ⟨l, v, _, ho, hd, hw⟩ := loadFile_eq_ok_iff.mp h
    exact everyObject_expand (fun name fields hload => ih l v ho hd _ _ hload) v
      (everyObject_of_documentAt? hd) hw

/-- What is loaded while some files are open is loaded while fewer are. -/
theorem loadFile_of_subset (opened : List Location) : ∀ opened' p w, opened' ⊆ opened →
    loadFile t opened p = .ok w → loadFile t opened' p = .ok w := by
  induction opened using opened_induction t with
  | step opened ih =>
    intro opened' p w hsub h
    obtain ⟨l, v, hl, ho, hd, hw⟩ := loadFile_eq_ok_iff.mp h
    refine loadFile_eq_ok_iff.mpr ⟨l, v, hl, fun hmem => ho (hsub hmem), hd, expand_mono ?_ v hw⟩
    intro name fields hload
    exact ih l v ho hd _ _ _ (List.cons_subset_cons l hsub) hload

/-- The same file is loaded as one value, under any name and whatever is open. -/
theorem Contributes.unique (h : Contributes t l v) (h' : Contributes t l v') : v = v' := by
  obtain ⟨opened, p, hp, hload⟩ := h
  obtain ⟨opened', p', hp', hload'⟩ := h'
  obtain ⟨k, d, hk, _, hd, hv⟩ := loadFile_eq_ok_iff.mp (loadFile_of_subset opened [] p v (by simp) hload)
  obtain ⟨k', d', hk', _, hd', hv'⟩ :=
    loadFile_eq_ok_iff.mp (loadFile_of_subset opened' [] p' v' (by simp) hload')
  obtain rfl : l = k := Except.ok.inj (hp.symm.trans hk)
  obtain rfl : l = k' := Except.ok.inj (hp'.symm.trans hk')
  obtain rfl : d = d' := Option.some.inj (hd.symm.trans hd')
  exact Except.ok.inj (hv.symm.trans hv')

/-- A file contributes its own value, expanded with what the files contribute that it names. -/
theorem Contributes.expansion (h : Contributes t l w) :
    ∃ v, documentAt? t l = some v ∧ Expansion (Included t l) v w := by
  obtain ⟨opened, p, hp, hload⟩ := h
  obtain ⟨k, v, hk, _, hd, hw⟩ := loadFile_eq_ok_iff.mp hload
  obtain rfl : l = k := Except.ok.inj (hp.symm.trans hk)
  refine ⟨v, hd, expansion_of_expand (fun name fields hname => ?_) v (everyObject_of_documentAt? hd) hw⟩
  obtain ⟨m, _, hm, _⟩ := loadFile_eq_ok_iff.mp hname
  exact ⟨⟨m, hm, _, _, hm, hname⟩, (everyObject_of_loadFile _ _ _ hname).1.1⟩

/-- A configuration that is loaded is what the index contributes, without includes at any depth. What a
file contributes is its own value expanded with what those files contribute that its includes name, in
the order of the names, and it is one value. -/
theorem root_contributes {dir : Path} {c : AppConfig} (h : load t dir = .ok c) :
    (∃ l, t.locate (indexPath dir) = .ok l ∧ Contributes t l c.root) ∧
      EveryObject (fun fields => includeKey ∉ fields.map Prod.fst) c.root ∧
      (∀ l w, Contributes t l w →
        ∃ v, documentAt? t l = some v ∧ Expansion (Included t l) v w) ∧
      ∀ l w w', Contributes t l w → Contributes t l w' → w = w' := by
  obtain ⟨w, hw, rfl⟩ := map_eq_ok_iff.mp h
  obtain ⟨l, _, hl, _⟩ := loadFile_eq_ok_iff.mp hw
  refine ⟨⟨l, hl, [], _, hl, hw⟩, ?_, fun l w h => h.expansion, fun l w w' h h' => h.unique h'⟩
  exact Json.EveryObject.imp (fun _ h => h.2) (everyObject_of_loadFile [] _ w hw)

end AppConfig

namespace Sample

/-- An index that includes a file, as does an object in a list of its, from another directory. -/
def settings : Tree where
  entries := [
    (["conf"], .directory 0),
    (["conf", "index.json"], .file {
      bytes := ("\x7b\"name\": \"base\", \"keep\": 1, \"__include\": [\"local.json\"], " ++
        "\"hosts\": [\x7b\"__include\": \"parts/host.json\", \"up\": true\x7d]\x7d").toUTF8
      modified := 5 }),
    (["conf", "local.json"], .file { bytes := "\x7b\"name\": \"local\"\x7d".toUTF8, modified := 5 }),
    (["conf", "parts"], .directory 0),
    (["conf", "parts", "host.json"], .file {
      bytes := "\x7b\"port\": 80, \"owner\": \x7b\"__include\": \"../local.json\"\x7d\x7d".toUTF8
      modified := 5 })]

end Sample

namespace AppConfig

open Sample in
theorem root_contributes_nested : ∃ c, load settings ⟨"conf"⟩ = .ok c ∧
    c.root.compact = "\x7b\"hosts\":[\x7b\"owner\":\x7b\"name\":\"local\"\x7d,\"port\":80,\"up\":true\x7d]," ++
      "\"keep\":1,\"name\":\"local\"\x7d" ∧
    (∃ l, settings.locate (indexPath ⟨"conf"⟩) = .ok l ∧ Contributes settings l c.root) ∧
    Json.EveryObject (fun fields => includeKey ∉ fields.map Prod.fst) c.root := by
  have htext : ((load settings ⟨"conf"⟩).toOption.map fun c => c.root.compact) =
      some ("\x7b\"hosts\":[\x7b\"owner\":\x7b\"name\":\"local\"\x7d,\"port\":80,\"up\":true\x7d]," ++
        "\"keep\":1,\"name\":\"local\"\x7d") := by decide +kernel
  cases h : load settings ⟨"conf"⟩ with
  | error e =>
    rw [h] at htext
    cases htext
  | ok c =>
    rw [h] at htext
    obtain ⟨hroot, hfree, _⟩ := root_contributes h
    exact ⟨c, rfl, Option.some.inj htext, hroot, hfree⟩

end AppConfig

end AssetCompiler
