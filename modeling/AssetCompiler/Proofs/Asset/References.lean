import AssetCompiler.Asset.References
import AssetCompiler.Proofs.Asset.Collection

/-! # References of assets

What reading a source comes to is a function of its content and of the identities that there
are. It links each directive that refers to an asset to it, and those are the dependencies.
Reading changes no identity and no file.
-/
namespace AssetCompiler

namespace Workspace

@[simp] theorem files_note (w : Workspace) (lines : List LogLine) : (w.note lines).files = w.files :=
  rfl

@[simp] theorem calls_note (w : Workspace) (lines : List LogLine) : (w.note lines).calls = w.calls :=
  rfl

@[simp] theorem note_note (w : Workspace) (lines lines' : List LogLine) :
    (w.note lines).note lines' = w.note (lines ++ lines') := by
  simp [note]

theorem note_nil (w : Workspace) : w.note [] = w := by simp [note]

end Workspace

namespace Collection

variable {c : Config} {as bs : Collection} {a b : Asset} {i : Nat} {files : Tree} {w : Workspace}

def meant? (c : Config) (as : Collection) (a : Asset) (o : Occurrence) : Option Nat :=
  (o.directive.reference? a.kind).bind fun r => as.findFor? (referencePath c r) a.language

def linked (c : Config) (as : Collection) (a : Asset) (o : Occurrence) : Occurrence :=
  match meant? c as a o with
  | some i => { o with dependency? := some i }
  | none => o

theorem span_linked (c : Config) (as : Collection) (a : Asset) (o : Occurrence) :
    (linked c as a o).span = o.span := by
  unfold linked
  split <;> rfl

theorem directive_linked (c : Config) (as : Collection) (a : Asset) (o : Occurrence) :
    (linked c as a o).directive = o.directive := by
  unfold linked
  split <;> rfl

theorem dependency?_linked {o : Occurrence} (ho : o.dependency? = none) :
    (linked c as a o).dependency? = meant? c as a o := by
  unfold linked
  cases meant? c as a o with
  | none => exact ho
  | some i => rfl

theorem link_eq (c : Config) (as : Collection) (a : Asset) (ls : Links) (o : Occurrence) :
    (link c as a ls o).occurrences = ls.occurrences ++ [linked c as a o] ∧
      (link c as a ls o).dependencies =
        ((meant? c as a o).map fun i => addNew i ls.dependencies).getD ls.dependencies := by
  unfold link linked meant?
  cases o.directive.reference? a.kind with
  | none => exact ⟨rfl, rfl⟩
  | some r =>
    dsimp only [Option.bind_some]
    cases as.findFor? (referencePath c r) a.language <;> exact ⟨rfl, rfl⟩

theorem mem_addNew {α : Type} [BEq α] [LawfulBEq α] {x y : α} {xs : List α} :
    y ∈ addNew x xs ↔ y = x ∨ y ∈ xs := by
  unfold addNew
  split
  · rename_i h
    exact ⟨Or.inr, fun hy => hy.elim (fun he => he ▸ List.contains_iff_mem.mp h) id⟩
  · rw [List.mem_append, List.mem_singleton, or_comm]

theorem foldl_link (os : List Occurrence) (ls : Links) :
    (os.foldl (link c as a) ls).occurrences = ls.occurrences ++ os.map (linked c as a) ∧
      ∀ i, i ∈ (os.foldl (link c as a) ls).dependencies ↔
        i ∈ ls.dependencies ∨ ∃ o ∈ os, meant? c as a o = some i := by
  induction os generalizing ls with
  | nil => simp
  | cons o os ih =>
    obtain ⟨h1, h2⟩ := ih (link c as a ls o)
    obtain ⟨h3, h4⟩ := link_eq c as a ls o
    rw [List.foldl_cons]
    refine ⟨by rw [h1, h3]; simp, fun i => ?_⟩
    rw [h2, h4]
    cases hm : meant? c as a o with
    | none => simp [hm]
    | some j =>
      simp only [Option.map_some, Option.getD_some, mem_addNew, List.exists_mem_cons_iff, hm,
        Option.some.injEq, eq_comm, or_assoc, or_left_comm]

/-- The text of a source with the given content; images have none. -/
def textOf? (a : Asset) (bytes : ByteArray) : Option String :=
  if a.kind = .image then none else String.fromUTF8? bytes

def readAs (c : Config) (as : Collection) (a : Asset) (bytes : ByteArray) : Asset :=
  match textOf? a bytes with
  | some text => (withText c as a text).1
  | none => a

/-- A text is kept with its occurrences, each linked to the asset that it refers to; those assets
are the dependencies. -/
theorem readAs_of_text {bytes : ByteArray} {text : String} (h : textOf? a bytes = some text) :
    (readAs c as a bytes).content = some text ∧
      (readAs c as a bytes).occurrences = (occurrences a.kind text).map (linked c as a) ∧
      ∀ i, i ∈ (readAs c as a bytes).dependencies ↔
        ∃ o ∈ occurrences a.kind text, meant? c as a o = some i := by
  obtain ⟨h1, h2⟩ := @foldl_link c as a (occurrences a.kind text) {}
  unfold readAs
  rw [h]
  exact ⟨rfl, h1, fun i => (h2 i).trans (by simp)⟩

theorem readAs_of_none {bytes : ByteArray} (h : textOf? a bytes = none) :
    readAs c as a bytes = a := by
  rw [readAs, h]

/-- A source that is read has a content, which decides what comes of it. -/
theorem parse_eq_ok {log : List LogLine} (h : parse files c as a = .ok (b, log)) :
    (a.kind ≠ .image → ∃ bytes, files.read a.source = .ok bytes) ∧
      ∀ bytes, files.read a.source = .ok bytes → b = readAs c as a bytes := by
  unfold parse at h
  unfold readAs textOf?
  split at h
  · rename_i hk
    cases h
    exact ⟨fun hne => absurd hk hne, fun bytes _ => by simp [hk]⟩
  · rename_i hk
    cases hr : files.read a.source with
    | error fault =>
      rw [hr] at h
      cases h
    | ok bytes =>
      rw [hr] at h
      refine ⟨fun _ => ⟨bytes, rfl⟩, ?_⟩
      rintro bytes' he
      cases he
      rw [if_neg hk]
      dsimp only at h
      cases ht : String.fromUTF8? bytes with
      | some text =>
        rw [ht] at h
        cases h
        rfl
      | none =>
        rw [ht] at h
        cases h
        rfl

theorem parse_image (hk : a.kind = .image) : parse files c as a = .ok (a, []) := by
  simp [parse, hk]

theorem parse_congr_files {files' : Tree}
    (h : a.kind ≠ .image → files'.read a.source = files.read a.source) :
    parse files' c as a = parse files c as a := by
  unfold parse
  split
  · rfl
  · rename_i hk
    rw [h hk]

theorem withText_congr (h : as.map Asset.identity = bs.map Asset.identity) (a : Asset)
    (text : String) : withText c as a text = withText c bs a text := by
  have hlink : link c as a = link c bs a := by
    funext ls o
    unfold link
    simp only [findFor?_congr h]
  unfold withText
  rw [hlink]

theorem parse_congr (h : as.map Asset.identity = bs.map Asset.identity) (a : Asset) :
    parse files c as a = parse files c bs a := by
  unfold parse
  simp only [withText_congr h]

theorem identity_of_parse {log : List LogLine} (h : parse files c as a = .ok (b, log)) :
    b.identity = a.identity := by
  unfold parse at h
  split at h
  · cases h
    rfl
  · split at h
    · cases h
    · split at h
      · cases h
        rfl
      · cases h
        rfl

theorem parseFrom_log (c : Config) (i n : Nat) (as : Collection) (w : Workspace) :
    ∃ lines, (parseFrom c i n as w).2.2 = w.note lines := by
  induction n generalizing i as w with
  | zero => exact ⟨[], w.note_nil.symm⟩
  | succ n ih =>
    unfold parseFrom
    cases parse w.files c as (as.get i) with
    | error e => exact ⟨[], w.note_nil.symm⟩
    | ok r =>
      obtain ⟨a, log⟩ := r
      obtain ⟨lines, h⟩ := ih (i + 1) (as.update i fun _ => a) (w.note log)
      exact ⟨log ++ lines, by rw [← Workspace.note_note]; exact h⟩

theorem identities_update (h : a.identity = (as.get i).identity) :
    (as.update i fun _ => a).map Asset.identity = as.map Asset.identity := by
  refine List.ext_getElem? fun j => ?_
  simp only [update, List.getElem?_map, List.getElem?_modify]
  by_cases hj : i = j
  · subst hj
    cases hg : as[i]? with
    | none => simp
    | some x =>
      have hx : as.get i = x := by simp [get, hg]
      simp [h, hx]
  · simp [hj]

/-- Reading assets from an index on keeps the identities, and what becomes of each is decided by
its own content. -/
theorem parseFrom_ok {i n : Nat} {as bs : Collection} {w w' : Workspace}
    (h : parseFrom c i n as w = (.ok (), bs, w')) (hlen : as.length = i + n) :
    bs.map Asset.identity = as.map Asset.identity ∧ (∀ j < i, bs.get j = as.get j) ∧
      ∀ j, i ≤ j → j < as.length → ∃ log, parse w.files c as (as.get j) = .ok (bs.get j, log) := by
  induction n generalizing i as w with
  | zero =>
    cases h
    exact ⟨rfl, fun _ _ => rfl, fun j h1 h2 => by omega⟩
  | succ n ih =>
    unfold parseFrom at h
    cases hp : parse w.files c as (as.get i) with
    | error e =>
      rw [hp] at h
      cases h
    | ok r =>
      obtain ⟨a, log⟩ := r
      rw [hp] at h
      dsimp only at h
      have hid : (as.update i fun _ => a).map Asset.identity = as.map Asset.identity :=
        identities_update (identity_of_parse hp)
      obtain ⟨h1, h2, h3⟩ := ih h (by rw [length_update]; omega)
      refine ⟨h1.trans hid, ?_, ?_⟩
      · intro j hj
        rw [h2 j (by omega), get_update_of_ne (by omega)]
      · intro j hij hj
        by_cases he : i = j
        · subst he
          refine ⟨log, ?_⟩
          rw [h2 i (by omega), get_update_self hj]
          exact hp
        · obtain ⟨log', h'⟩ := h3 j (by omega) (by rwa [length_update])
          refine ⟨log', ?_⟩
          rw [get_update_of_ne he] at h'
          rwa [parse_congr hid, Workspace.files_note] at h'

theorem parseFrom_congr {i n : Nat} {as : Collection} {w w' : Workspace} (hlen : as.length = i + n)
    (h : ∀ j, i ≤ j → j < as.length → (as.get j).kind ≠ .image →
      w'.files.read (as.get j).source = w.files.read (as.get j).source) :
    (parseFrom c i n as w').1 = (parseFrom c i n as w).1 ∧
      (parseFrom c i n as w').2.1 = (parseFrom c i n as w).2.1 := by
  induction n generalizing i as w w' with
  | zero => exact ⟨rfl, rfl⟩
  | succ n ih =>
    unfold parseFrom
    rw [parse_congr_files (h i le_rfl (by omega))]
    cases hp : parse w.files c as (as.get i) with
    | error e => exact ⟨rfl, rfl⟩
    | ok r =>
      obtain ⟨a, log⟩ := r
      dsimp only
      refine ih (by rw [length_update]; omega) fun j h1 h2 h3 => ?_
      rw [length_update] at h2
      rw [get_update_of_ne (by omega)] at h3 ⊢
      exact h j (by omega) h2 h3

end Collection

end AssetCompiler
