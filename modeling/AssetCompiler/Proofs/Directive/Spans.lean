import AssetCompiler.Directive.Render
import AssetCompiler.Directive.Scan

/-! # Spans of scanned directives

A scan only moves forward, so the directives of a text stand one behind the other inside it.
Rendering skips no directive of such a list.
-/
namespace AssetCompiler

open Text (Span size slice)

/-- Occurrences that stand one behind the other between a position and a limit. -/
def InOrder (limit : Nat) : Nat → List Occurrence → Prop
  | _, [] => True
  | cursor, o :: os =>
    cursor ≤ o.span.start ∧ o.span.start ≤ o.span.stop ∧ o.span.stop ≤ limit ∧
      InOrder limit o.span.stop os

namespace InOrder

variable {limit a b : Nat} {os : List Occurrence}

theorem from_le (h : InOrder limit b os) (hab : a ≤ b) : InOrder limit a os := by
  cases os with
  | nil => trivial
  | cons o os =>
    obtain ⟨h1, h2⟩ := h
    exact ⟨Nat.le_trans hab h1, h2⟩

end InOrder

theorem Progress.fits_iff {text : List Char} {cursor : Nat} {span : Span} :
    Progress.fits text cursor span = true ↔ cursor ≤ span.start ∧ span.stop ≤ size text := by
  simp [Progress.fits]

/-- An occurrence that can be placed gives the text in front of it, its output, and the rest. -/
theorem Progress.renderFrom_of_fits {σ : Type} {lookup : Lookup σ} {text : List Char} {cursor : Nat}
    {o : Occurrence} (h : Progress.fits text cursor o.span = true) (p : Progress σ)
    (os : List Occurrence) :
    let next := (p.evaluate lookup o).2
    let rest := Progress.renderFrom lookup text o.span.stop next os
    Progress.renderFrom lookup text cursor p (o :: os) =
      (Progress.unlessElided p.flow (slice ⟨cursor, o.span.start⟩ text) ++
          Progress.unlessElided next.flow (Progress.shown text o.span (p.evaluate lookup o).1) ++ rest.1,
        rest.2) := by
  intro next rest
  rw [Progress.renderFrom, if_pos h]

theorem Text.size_le_of_suffix {xs ys : List Char} (h : xs <:+ ys) : size xs ≤ size ys := by
  obtain ⟨front, rfl⟩ := h
  rw [Text.size_append]
  omega

theorem Form.read?_suffix {f : Form} {cs rest : List Char} {d : Directive}
    (h : f.read? cs = some (d, rest)) : rest <:+ cs := by
  simp only [Form.read?, bind, Option.bind_eq_some_iff, Prod.exists, Option.some.injEq,
    Prod.mk.injEq] at h
  obtain ⟨a, h1, _, b, h2, c, h3, _, rfl⟩ := h
  exact (Form.strip?_suffix h3).trans ((Form.body_suffix h2).trans (Form.strip?_suffix h1))

theorem Form.readFirst?_suffix {forms : List Form} {cs rest : List Char} {d : Directive}
    (h : Form.readFirst? forms cs = some (d, rest)) : rest <:+ cs := by
  obtain ⟨f, _, hf⟩ := List.exists_of_findSome?_eq_some h
  exact Form.read?_suffix hf

/-- What a scan finds stands in order between its start and the end of its text. -/
theorem scanFrom_inOrder (forms : List Form) (position : Nat) (cs : List Char) :
    InOrder (position + size cs) position (scanFrom forms position cs) := by
  fun_induction scanFrom forms position cs with
  | case1 => trivial
  | case2 position c tail d rest h stop this ih =>
    have hs := Text.size_le_of_suffix (Form.readFirst?_suffix h)
    have hstop : stop + size rest = position + size (c :: tail) := by omega
    rw [hstop] at ih
    refine ⟨Nat.le_refl _, Nat.le_add_right _ _, ?_, ih⟩
    exact hstop ▸ Nat.le_add_right _ _
  | case3 position c tail h ih =>
    rw [Nat.add_assoc] at ih
    exact ih.from_le (by omega)

theorem occurrences_inOrder (kind : Kind) (text : String) :
    InOrder (size text.toList) 0 (occurrences kind text) := by
  have h := scanFrom_inOrder (Form.ofKind kind) 0 text.toList
  rwa [Nat.zero_add] at h

theorem dependency?_of_mem_occurrences {kind : Kind} {text : String} {o : Occurrence}
    (h : o ∈ occurrences kind text) : o.dependency? = none := by
  unfold occurrences at h
  generalize 0 = position at h
  generalize text.toList = cs at h
  fun_induction scanFrom (Form.ofKind kind) position cs with
  | case1 => cases h
  | case2 position c tail d rest hread stop this ih =>
    rcases List.mem_cons.mp h with rfl | h
    · rfl
    · exact ih h
  | case3 position c tail hread ih => exact ih h

end AssetCompiler
