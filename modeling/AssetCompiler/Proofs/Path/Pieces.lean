import AssetCompiler.Path
import Mathlib.Data.List.Basic
import Mathlib.Data.List.Induction

/-! # The pieces of a path

A text between separators and its list of pieces determine each other as long as no piece
holds a separator. Joining paths puts their lists of pieces together, up to the empty piece
behind a separator at the end.
-/
namespace AssetCompiler

namespace Text

variable {sep : Char}

theorem pieces_append_sep (xs ys : List Char) :
    pieces sep (xs ++ sep :: ys) = pieces sep xs ++ pieces sep ys := by
  induction xs with
  | nil => simp [pieces]
  | cons c cs ih =>
    by_cases h : c = sep
    · simp [pieces, h, ih]
    · cases hp : pieces sep cs with
      | nil => exact absurd hp (pieces_ne_nil sep cs)
      | cons p ps => simp [pieces, h, ih, hp]

theorem pieces_eq_singleton {xs : List Char} (h : sep ∉ xs) : pieces sep xs = [xs] := by
  induction xs with
  | nil => rfl
  | cons c cs ih =>
    have hc : c ≠ sep := fun e => h (by simp [e])
    have hcs : sep ∉ cs := fun e => h (List.mem_cons_of_mem _ e)
    simp [pieces, hc, ih hcs]

theorem not_mem_of_mem_pieces {xs p : List Char} (h : p ∈ pieces sep xs) : sep ∉ p := by
  induction xs generalizing p with
  | nil => simp_all [pieces]
  | cons c cs ih =>
    by_cases hc : c = sep
    · rcases (by simpa [pieces, hc] using h : p = [] ∨ p ∈ pieces sep cs) with rfl | hp
      · simp
      · exact ih hp
    · cases hps : pieces sep cs with
      | nil => exact absurd hps (pieces_ne_nil sep cs)
      | cons q qs =>
        rcases (by simpa [pieces, hc, hps] using h : p = c :: q ∨ p ∈ qs) with rfl | hp
        · have hq := ih (p := q) (by simp [hps])
          simp [Ne.symm hc, hq]
        · exact ih (by simp [hps, hp])

theorem unite_cons_cons (p q : List Char) (ps : List (List Char)) :
    unite [sep] (p :: q :: ps) = p ++ sep :: unite [sep] (q :: ps) := by
  simp [unite]

theorem mem_unite {c : Char} {ps : List (List Char)} (h : c ∈ unite [sep] ps) :
    c = sep ∨ ∃ p ∈ ps, c ∈ p := by
  induction ps with
  | nil => cases h
  | cons p ps ih =>
    cases ps with
    | nil => exact .inr ⟨p, by simp, h⟩
    | cons q qs =>
      rw [unite_cons_cons] at h
      rcases List.mem_append.mp h with hp | hrest
      · exact .inr ⟨p, by simp, hp⟩
      · rcases List.mem_cons.mp hrest with rfl | hq
        · exact .inl rfl
        · exact (ih hq).imp_right fun ⟨r, hr, hc⟩ => ⟨r, List.mem_cons_of_mem _ hr, hc⟩

theorem mem_unite_of_mem {c : Char} {p : List Char} {ps : List (List Char)} (hp : p ∈ ps)
    (hc : c ∈ p) : c ∈ unite [sep] ps := by
  induction ps with
  | nil => cases hp
  | cons q ps ih =>
    cases ps with
    | nil => exact List.mem_singleton.mp hp ▸ hc
    | cons r rs =>
      rw [unite_cons_cons]
      rcases List.mem_cons.mp hp with rfl | hp
      · exact List.mem_append_left _ hc
      · exact List.mem_append_right _ (List.mem_cons_of_mem _ (ih hp))

theorem mem_of_mem_pieces {c : Char} {p xs : List Char} (hp : p ∈ pieces sep xs) (hc : c ∈ p) :
    c ∈ xs :=
  unite_pieces sep xs ▸ mem_unite_of_mem hp hc

theorem pieces_unite {ps : List (List Char)} (hne : ps ≠ []) (h : ∀ p ∈ ps, sep ∉ p) :
    pieces sep (unite [sep] ps) = ps := by
  induction ps with
  | nil => exact absurd rfl hne
  | cons p ps ih =>
    have hp := pieces_eq_singleton (h p (by simp))
    cases ps with
    | nil => simpa [unite] using hp
    | cons q qs =>
      have hq := ih (by simp) (fun r hr => h r (List.mem_cons_of_mem _ hr))
      rw [unite_cons_cons, pieces_append_sep, hp, hq]
      rfl

theorem unite_append {ps qs : List (List Char)} (hp : ps ≠ []) (hq : qs ≠ []) :
    unite [sep] (ps ++ qs) = unite [sep] ps ++ sep :: unite [sep] qs := by
  induction ps with
  | nil => exact absurd rfl hp
  | cons p ps ih =>
    cases ps with
    | nil =>
      cases qs with
      | nil => exact absurd rfl hq
      | cons q qs => simp [unite]
    | cons r rs =>
      have h := ih (by simp)
      simp only [List.cons_append] at h ⊢
      rw [unite_cons_cons, unite_cons_cons, h]
      simp

theorem dropEndWhile_append_of_neg {α : Type} {p : α → Bool} (xs : List α) {x : α} (h : p x = false) :
    dropEndWhile p (xs ++ [x]) = xs ++ [x] := by
  simp [dropEndWhile, h]

theorem dropEndWhile_append_of_pos {α : Type} {p : α → Bool} (xs : List α) {x : α} (h : p x = true) :
    dropEndWhile p (xs ++ [x]) = dropEndWhile p xs := by
  simp [dropEndWhile, h]

/-- What is dropped from the end satisfies the predicate, what becomes the last does not. -/
theorem dropEndWhile_spec {α : Type} (p : α → Bool) (xs : List α) :
    ∃ back, xs = dropEndWhile p xs ++ back ∧ (∀ x ∈ back, p x = true) ∧
      ∀ x, (dropEndWhile p xs).getLast? = some x → p x = false := by
  induction xs using List.reverseRecOn with
  | nil => exact ⟨[], rfl, by simp, by simp [dropEndWhile]⟩
  | append_singleton xs x ih =>
    cases hx : p x with
    | true =>
      obtain ⟨back, hxs, hback, hlast⟩ := ih
      rw [dropEndWhile_append_of_pos xs hx]
      refine ⟨back ++ [x], ?_, ?_, hlast⟩
      · rw [← List.append_assoc, ← hxs]
      · intro y hy
        rcases List.mem_append.mp hy with hy | hy
        · exact hback y hy
        · exact (List.mem_singleton.mp hy) ▸ hx
    | false =>
      rw [dropEndWhile_append_of_neg xs hx]
      refine ⟨[], by simp, by simp, ?_⟩
      intro y hy
      rw [List.getLast?_concat] at hy
      exact (Option.some.inj hy) ▸ hx

theorem dropEndWhile_of_getLast {α : Type} {p : α → Bool} {xs : List α}
    (h : ∀ x, xs.getLast? = some x → p x = false) : dropEndWhile p xs = xs := by
  rcases List.eq_nil_or_concat' xs with rfl | ⟨ys, y, rfl⟩
  · rfl
  · exact dropEndWhile_append_of_neg ys (h y (by simp))

end Text

namespace Path

def parts (p : Path) : List (List Char) := Text.pieces '/' p.text.toList

/-- The pieces without the empty one behind a separator at the end. -/
def trail (p : Path) : List (List Char) :=
  if p.parts.getLast? = some [] then p.parts.dropLast else p.parts

theorem parts_ne_nil (p : Path) : p.parts ≠ [] := Text.pieces_ne_nil _ _

theorem parts_eq_trail (p : Path) : p.parts = p.trail ∨ p.parts = p.trail ++ [[]] := by
  unfold trail
  split
  · rename_i h
    exact Or.inr (List.dropLast_append_getLast? [] h).symm
  · exact Or.inl rfl

theorem parts_of_text {t : List Char} : parts ⟨String.ofList t⟩ = Text.pieces '/' t := by
  simp [parts]

theorem isAbsolute_iff {p : Path} : p.isAbsolute = true ↔ ∃ cs, p.text.toList = '/' :: cs := by
  unfold isAbsolute
  cases h : p.text.toList with
  | nil => simp
  | cons c cs => simp

theorem getLast?_pieces_concat {xs : List Char} {c : Char} (h : c ≠ '/') :
    (Text.pieces '/' (xs ++ [c])).getLast? ≠ some [] := by
  induction xs with
  | nil => simp [Text.pieces, h]
  | cons d ds ih =>
    cases hp : Text.pieces '/' (ds ++ [c]) with
    | nil => exact absurd hp (Text.pieces_ne_nil _ _)
    | cons p ps =>
      rw [hp] at ih
      by_cases hd : d = '/'
      · simpa [Text.pieces, hd, hp] using ih
      · cases ps with
        | nil => simp [Text.pieces, hd, hp]
        | cons q qs => simpa [Text.pieces, hd, hp] using ih

theorem parts_join {p q : Path} (hq : q.isAbsolute = false) : (p.join q).parts = p.trail ++ q.parts := by
  by_cases h0 : p.text = ""
  · have hp : p.parts = [[]] := by simp [parts, h0, Text.pieces]
    simp [join, hq, h0, trail, hp]
  · have h0' : (p.text == "") = false := by simpa using h0
    have hne : p.text.toList ≠ [] := by simpa using h0
    obtain ⟨xs, c, hc⟩ : ∃ xs c, p.text.toList = xs ++ [c] := by
      rcases List.eq_nil_or_concat' p.text.toList with h | ⟨xs, c, h⟩
      · exact absurd h hne
      · exact ⟨xs, c, h⟩
    by_cases hs : c = '/'
    · subst hs
      have hp : p.parts = Text.pieces '/' xs ++ [[]] := by
        rw [parts, hc, Text.pieces_append_sep]
        rfl
      have ht : p.trail = Text.pieces '/' xs := by simp [trail, hp]
      rw [join, hq, h0', ht]
      simp only [Bool.false_or, Bool.false_eq_true, if_false, hc, List.getLast?_concat, if_true]
      simp only [parts, String.toList_append, hc, List.append_assoc]
      exact Text.pieces_append_sep xs q.text.toList
    · have ht : p.trail = p.parts := by
        have : (Text.pieces '/' (xs ++ [c])).getLast? ≠ some [] := getLast?_pieces_concat hs
        simp only [trail, parts, hc]
        exact if_neg this
      rw [join, hq, h0', ht]
      simp only [Bool.false_or, Bool.false_eq_true, if_false, hc, List.getLast?_concat,
        Option.some.injEq, hs]
      simp only [parts, String.toList_append, List.append_assoc]
      exact Text.pieces_append_sep p.text.toList q.text.toList

theorem getLast?_parts_join (p q : Path) : (p.join q).parts.getLast? = q.parts.getLast? := by
  cases hq : q.isAbsolute with
  | true => rw [join, hq, Bool.true_or, if_pos rfl]
  | false => rw [parts_join hq, List.getLast?_append_of_ne_nil _ (parts_ne_nil q)]

theorem isAbsolute_join {p q : Path} (hq : q.isAbsolute = false) :
    (p.join q).isAbsolute = p.isAbsolute := by
  by_cases h0 : p.text = ""
  · have hp : p.isAbsolute = false := by simp [isAbsolute, h0]
    simp [join, h0, hq, hp]
  · have h0' : (p.text == "") = false := by simpa using h0
    have hne : p.text.toList ≠ [] := by simpa using h0
    obtain ⟨c, cs, hc⟩ := List.exists_cons_of_ne_nil hne
    rw [join, hq, h0']
    simp only [Bool.false_or, Bool.false_eq_true, if_false]
    split <;> simp [isAbsolute, hc]

theorem text_join_ne_empty {p q : Path} (h : q.text ≠ "") : (p.join q).text ≠ "" := by
  unfold join
  split
  · exact h
  · split <;> simp [h]

end Path

end AssetCompiler
