import AssetCompiler.Files.Tree
import AssetCompiler.Proofs.Except
import AssetCompiler.Proofs.Path.Names

/-! # Where paths lead

Without links a path leads to one location, whatever the tree holds; the tree only decides
whether the way there can be gone. Growing a tree keeps every way open.
-/
namespace AssetCompiler

namespace Path

/-- One step of the way of a path. -/
def follow (l : Location) (piece : List Char) : Location :=
  if isFiller piece then l
  else if piece = ['.', '.'] then l.dropLast
  else l ++ [String.ofList piece]

/-- The location that a path leads to from a working directory. -/
def resolve (home : Location) (p : Path) : Location :=
  p.parts.foldl follow (if p.isAbsolute then [] else home)

theorem follow_name {n : String} (h : IsName n) (l : Location) : follow l n.toList = l ++ [n] := by
  simp [follow, h.not_filler, h.not_up]

theorem foldl_follow_names {names : List String} (h : ∀ n ∈ names, IsName n) (l : Location) :
    (names.map String.toList).foldl follow l = l ++ names := by
  induction names generalizing l with
  | nil => simp
  | cons n ns ih =>
    have hn := follow_name (h n (by simp)) l
    have hns := ih (fun m hm => h m (List.mem_cons_of_mem _ hm)) (l ++ [n])
    simp only [List.map_cons, List.foldl_cons, hn, hns, List.append_assoc, List.singleton_append]

/-- The empty piece behind a separator at the end leads nowhere. -/
theorem foldl_follow_trail (p : Path) (l : Location) :
    p.trail.foldl follow l = p.parts.foldl follow l := by
  rcases parts_eq_trail p with h | h
  · rw [h]
  · rw [h, List.foldl_append]
    rfl

theorem resolve_join {home : Location} {p q : Path} (hq : q.isAbsolute = false) :
    (p.join q).resolve home = q.parts.foldl follow (p.resolve home) := by
  rw [resolve, isAbsolute_join hq, parts_join hq, List.foldl_append, foldl_follow_trail]
  rfl

theorem resolve_join_ofNames {home : Location} {p : Path} {names : List String} (hne : names ≠ [])
    (h : ∀ n ∈ names, IsName n) : (p.join (ofNames names)).resolve home = p.resolve home ++ names := by
  rw [resolve_join (isAbsolute_ofNames h), parts_ofNames hne h, foldl_follow_names h]

theorem resolve_join_name {home : Location} {p : Path} {n : String} (h : IsName n) :
    (p.join ⟨n⟩).resolve home = p.resolve home ++ [n] := by
  have hn : (p.join (ofNames [n])).resolve home = p.resolve home ++ [n] :=
    resolve_join_ofNames (by simp) (by simpa using h)
  simpa using hn

end Path

namespace Tree

def IsDir (t : Tree) (l : Location) : Prop := ∃ modified, t.get? l = some (.directory modified)

instance (t : Tree) (l : Location) : Decidable (t.IsDir l) :=
  match h : t.get? l with
  | some (.directory time) => isTrue ⟨time, h⟩
  | some (.file _) => isFalse fun ⟨_, hd⟩ => by rw [h] at hd; cases hd
  | none => isFalse fun ⟨_, hd⟩ => by rw [h] at hd; cases hd

theorem isDir_nil (t : Tree) : t.IsDir [] := ⟨0, by simp [get?]⟩

theorem step_eq_ok_iff {t : Tree} {l m : Location} {piece : List Char} :
    t.step l piece = .ok m ↔ t.IsDir l ∧ m = Path.follow l piece := by
  unfold step IsDir
  cases h : t.get? l with
  | none => simp
  | some e =>
    cases e with
    | file f => simp
    | directory modified =>
      have hf : (if Path.isFiller piece then Except.ok l
          else if piece = ['.', '.'] then .ok l.dropLast
          else .ok (l ++ [String.ofList piece]) : Except Fault Location) =
          .ok (Path.follow l piece) := by
        unfold Path.follow
        split
        · rfl
        · split <;> rfl
      simp only [Option.some.injEq, Entry.directory.injEq, exists_eq', true_and, hf,
        Except.ok.injEq]
      exact eq_comm

/-- A walk over pieces ends where they lead, and passes directories only. -/
theorem foldlM_step_eq_ok {t : Tree} {pieces : List (List Char)} {l m : Location}
    (h : pieces.foldlM t.step l = .ok m) : m = pieces.foldl Path.follow l := by
  induction pieces generalizing l with
  | nil => cases h; rfl
  | cons p ps ih =>
    rw [List.foldlM_cons] at h
    obtain ⟨k, hs, h⟩ := bind_eq_ok_iff.mp h
    obtain ⟨_, rfl⟩ := step_eq_ok_iff.mp hs
    exact ih h

theorem locate_eq_ok {t : Tree} {p : Path} {l : Location} (h : t.locate p = .ok l) :
    l = p.resolve t.home ∧ p.text ≠ "" := by
  unfold locate at h
  split at h
  · cases h
  · rename_i hne
    exact ⟨foldlM_step_eq_ok h, hne⟩

theorem locate_eq_foldlM {t : Tree} {p : Path} (h : p.text ≠ "") :
    t.locate p = p.parts.foldlM t.step (t.start p) := if_neg h

theorem find_eq_ok_iff {t : Tree} {p : Path} {l : Location} {e : Entry} :
    t.find p = .ok (l, e) ↔ t.locate p = .ok l ∧ t.get? l = some e := by
  unfold find
  rw [bind_eq_ok_iff]
  constructor
  · rintro ⟨m, hm, h⟩
    split at h
    · rename_i d hg
      cases h
      exact ⟨hm, hg⟩
    · cases h
  · rintro ⟨hl, hg⟩
    exact ⟨l, hl, by rw [hg]⟩

/-- A tree with all the directories of another, and the same working directory. -/
structure Grows (t t' : Tree) : Prop where
  home : t'.home = t.home
  dirs : ∀ l, t.IsDir l → t'.IsDir l

namespace Grows

variable {t t' t'' : Tree}

theorem refl (t : Tree) : Grows t t := ⟨rfl, fun _ h => h⟩

theorem trans (h : Grows t t') (h' : Grows t' t'') : Grows t t'' :=
  ⟨h'.home.trans h.home, fun l hl => h'.dirs l (h.dirs l hl)⟩

theorem step (h : Grows t t') {l m : Location} {piece : List Char} (hs : t.step l piece = .ok m) :
    t'.step l piece = .ok m := by
  obtain ⟨hd, hm⟩ := step_eq_ok_iff.mp hs
  exact step_eq_ok_iff.mpr ⟨h.dirs l hd, hm⟩

theorem foldlM_step (h : Grows t t') {pieces : List (List Char)} {l m : Location}
    (hs : pieces.foldlM t.step l = .ok m) : pieces.foldlM t'.step l = .ok m := by
  induction pieces generalizing l with
  | nil => exact hs
  | cons p ps ih =>
    rw [List.foldlM_cons] at hs ⊢
    obtain ⟨k, hk, hs⟩ := bind_eq_ok_iff.mp hs
    exact bind_eq_ok_iff.mpr ⟨k, h.step hk, ih hs⟩

theorem start (h : Grows t t') (p : Path) : t'.start p = t.start p := by
  simp [Tree.start, h.home]

theorem locate (h : Grows t t') {p : Path} {l : Location} (hl : t.locate p = .ok l) :
    t'.locate p = .ok l := by
  unfold Tree.locate at hl ⊢
  split at hl
  · cases hl
  · rename_i hne
    rw [if_neg hne, h.start]
    exact h.foldlM_step hl

theorem lastPiece (h : Grows t t') {p : Path} {r : Location × List Char}
    (hr : t.lastPiece p = .ok r) : t'.lastPiece p = .ok r := by
  unfold Tree.lastPiece at hr ⊢
  rw [h.start]
  dsimp only at hr ⊢
  split at hr
  · exact hr
  · rename_i piece hp
    obtain ⟨l, hl, hr⟩ := bind_eq_ok_iff.mp hr
    obtain ⟨m, hd, hr⟩ := bind_eq_ok_iff.mp hr
    exact bind_eq_ok_iff.mpr ⟨l, h.foldlM_step hl, bind_eq_ok_iff.mpr ⟨m, h.step hd, hr⟩⟩

theorem place (h : Grows t t') {p : Path} {l : Location} (hl : t.place p = .ok l) :
    t'.place p = .ok l := by
  obtain ⟨r, hr, hl⟩ := bind_eq_ok_iff.mp hl
  exact bind_eq_ok_iff.mpr ⟨r, h.lastPiece hr, hl⟩

end Grows

/-- The last piece of a path that is a name stands in a directory, to which the pieces in
front of it lead; behind it there are only separators. -/
theorem lastPiece_eq_ok {t : Tree} {p : Path} {l : Location} {piece : List Char}
    (h : t.lastPiece p = .ok (l, piece)) (hp : isDots piece = false) :
    ∃ front back, p.parts = front ++ [piece] ++ back ∧ (∀ x ∈ back, x = []) ∧ piece ≠ [] ∧
      front.foldlM t.step (t.start p) = .ok l ∧ t.IsDir l := by
  obtain ⟨back, hparts, hback, hlast⟩ := Text.dropEndWhile_spec (· == []) p.parts
  unfold lastPiece at h
  dsimp only at h
  rw [← Path.parts] at h
  split at h
  · split at h <;> cases h
    cases hp
  · rename_i last hl
    obtain ⟨m, hw, h⟩ := bind_eq_ok_iff.mp h
    obtain ⟨_, hd, h⟩ := bind_eq_ok_iff.mp h
    cases h
    refine ⟨_, back, ?_, ?_, ?_, hw, (step_eq_ok_iff.mp hd).1⟩
    · rw [List.dropLast_append_getLast? _ hl]
      exact hparts
    · intro x hx
      simpa using hback x hx
    · simpa using hlast _ hl

theorem text_ne_empty_of_mem_parts {p : Path} {piece : List Char} (h : piece ∈ p.parts)
    (hne : piece ≠ []) : p.text ≠ "" := by
  intro he
  have hone : p.parts = [[]] := by simp [Path.parts, he, Text.pieces]
  rw [hone] at h
  exact hne (List.mem_singleton.mp h)

theorem isName_of_mem_parts {p : Path} {piece : List Char} (h : piece ∈ p.parts) (hne : piece ≠ [])
    (hdots : isDots piece = false) : IsName (String.ofList piece) := by
  have hup : piece ≠ ['.', '.'] := by
    rintro rfl
    cases hdots
  have hdot : piece ≠ ['.'] := by
    rintro rfl
    cases hdots
  have hsep : '/' ∉ piece := Text.not_mem_of_mem_pieces h
  exact ⟨by simpa using hsep, by simp [Path.isFiller, hne, hdot], by simpa using hup⟩

theorem step_name {t : Tree} {l : Location} {n : String} (hd : t.IsDir l) (hn : IsName n) :
    t.step l n.toList = .ok (l ++ [n]) :=
  step_eq_ok_iff.mpr ⟨hd, (Path.follow_name hn l).symm⟩

theorem foldlM_step_fillers {t : Tree} {l : Location} {back : List (List Char)} (hd : t.IsDir l)
    (h : ∀ x ∈ back, x = []) : back.foldlM t.step l = .ok l := by
  induction back with
  | nil => rfl
  | cons x xs ih =>
    obtain rfl := h x (by simp)
    have hs : t.step l [] = .ok l := step_eq_ok_iff.mpr ⟨hd, rfl⟩
    rw [List.foldlM_cons, hs]
    exact ih (fun y hy => h y (List.mem_cons_of_mem _ hy))

theorem eq_of_foldlM_step_fillers {t : Tree} {l m : Location} {back : List (List Char)}
    (h : ∀ x ∈ back, x = []) (hm : back.foldlM t.step l = .ok m) : m = l := by
  induction back with
  | nil => exact (Except.ok.inj hm).symm
  | cons x xs ih =>
    obtain rfl := h x (by simp)
    rw [List.foldlM_cons] at hm
    obtain ⟨k, hs, hrest⟩ := bind_eq_ok_iff.mp hm
    obtain ⟨_, rfl⟩ := step_eq_ok_iff.mp hs
    exact ih (fun y hy => h y (List.mem_cons_of_mem _ hy)) hrest

theorem getLast?_parts_ne {p : Path} (hne : p.text ≠ "") (h : p.text.toList.getLast? ≠ some '/') :
    p.parts.getLast? ≠ some [] := by
  rcases List.eq_nil_or_concat' p.text.toList with hx | ⟨xs, c, hx⟩
  · exact absurd (String.toList_eq_nil_iff.mp hx) hne
  · have hc : c ≠ '/' := by
      rintro rfl
      exact h (by simp [hx])
    rw [Path.parts, hx]
    exact Path.getLast?_pieces_concat hc

theorem place_eq_ok {t : Tree} {p : Path} {l : Location} (h : t.place p = .ok l) :
    t.locate p = .ok l ∧ ∃ dir n, l = dir ++ [n] ∧ IsName n ∧ t.IsDir dir := by
  obtain ⟨⟨dir, piece⟩, hr, h⟩ := bind_eq_ok_iff.mp h
  dsimp only at h
  split at h
  · cases h
  · rename_i hend
    simp only [Bool.or_eq_true, decide_eq_true_eq, not_or] at hend
    cases h
    have hdots : isDots piece = false := by simpa using hend.1
    obtain ⟨front, back, hparts, hback, hne, hwalk, hdir⟩ := lastPiece_eq_ok hr hdots
    have hmem : piece ∈ p.parts := by simp [hparts]
    have hname := isName_of_mem_parts hmem hne hdots
    have hempty := text_ne_empty_of_mem_parts hmem hne
    have hback' : back = [] := by
      rcases List.eq_nil_or_concat' back with hb | ⟨bs, b, rfl⟩
      · exact hb
      · have hlast := getLast?_parts_ne hempty hend.2
        rw [hparts, ← List.append_assoc, List.getLast?_concat, hback b (by simp)] at hlast
        exact absurd rfl hlast
    subst hback'
    refine ⟨?_, dir, _, rfl, hname, hdir⟩
    have hstep := step_name hdir hname
    rw [String.toList_ofList] at hstep
    rw [locate_eq_foldlM hempty, hparts, List.append_nil, List.foldlM_append]
    refine bind_eq_ok_iff.mpr ⟨dir, hwalk, ?_⟩
    rw [List.foldlM_cons]
    exact bind_eq_ok_iff.mpr ⟨_, hstep, rfl⟩

end Tree

end AssetCompiler
