import AssetCompiler.Directive.Grammar

/-! # Directives in a text

A text is scanned once from left to right. Where a form can be read its directive becomes an
occurrence and the scan goes on behind it; elsewhere the scan moves on by one character.
Every scanner leaves an end of its text, so what a form leaves is shorter than what it read.
-/
namespace AssetCompiler

open Text (strip? strip?_eq_some_iff size Span)

namespace Form

theorem strip?_suffix {lit cs rest : List Char} (h : strip? lit cs = some rest) : rest <:+ cs :=
  ⟨lit, (strip?_eq_some_iff.mp h).symm⟩

theorem run_suffix {α : Type} {p : Char → Bool} {make : List Char → Option α} {cs rest : List Char}
    {a : α} (h : run p make cs = some (a, rest)) : rest <:+ cs := by
  simp only [run, Option.map_eq_some_iff, Prod.mk.injEq] at h
  obtain ⟨_, _, _, rfl⟩ := h
  exact List.dropWhile_suffix p

theorem fraction_suffix (cs : List Char) : (fraction cs).2 <:+ cs := by
  unfold fraction
  split
  · dsimp only
    split
    · exact List.suffix_refl _
    · exact (List.dropWhile_suffix _).trans (List.suffix_cons _ _)
  · exact List.suffix_refl _

theorem unsigned_suffix {cs rest t : List Char} (h : unsigned cs = some (t, rest)) :
    rest <:+ cs := by
  unfold unsigned at h
  split at h
  · simp at h
  · simp only [Option.some.injEq, Prod.mk.injEq] at h
    exact h.2 ▸ (fraction_suffix _).trans (List.dropWhile_suffix _)

theorem quoted_suffix {cs rest t : List Char} (h : quoted cs = some (t, rest)) : rest <:+ cs := by
  unfold quoted at h
  split at h
  · rename_i r hr
    simp only [Option.some.injEq, Prod.mk.injEq] at h
    have : '"' :: r <:+ cs := hr ▸ List.dropWhile_suffix _
    exact h.2 ▸ (List.suffix_cons _ _).trans this
  · simp at h

theorem operandText_suffix {cs rest t : List Char} (h : operandText cs = some (t, rest)) :
    rest <:+ cs := by
  unfold operandText at h
  split at h
  · exact (quoted_suffix h).trans (List.suffix_cons _ _)
  · simp only [Option.map_eq_some_iff, Prod.exists, Prod.mk.injEq] at h
    obtain ⟨_, _, hu, _, rfl⟩ := h
    exact (unsigned_suffix hu).trans (List.suffix_cons _ _)
  · split at h
    · exact unsigned_suffix h
    · exact run_suffix h
  · simp at h

theorem operand_suffix {cs rest : List Char} {o : Operand} (h : operand cs = some (o, rest)) :
    rest <:+ cs := by
  simp only [operand, Option.map_eq_some_iff, Prod.exists, Prod.mk.injEq] at h
  obtain ⟨_, _, ht, _, rfl⟩ := h
  exact operandText_suffix ht

theorem declaration_suffix {cs rest : List Char} {d : Directive}
    (h : declaration cs = some (d, rest)) : rest <:+ cs := by
  simp only [declaration, bind, Option.bind_eq_some_iff, Prod.exists, Option.some.injEq,
    Prod.mk.injEq] at h
  obtain ⟨_, _, h1, _, h2, _, _, h3, _, rfl⟩ := h
  exact (operand_suffix h3).trans ((strip?_suffix h2).trans (run_suffix h1))

theorem guard_suffix {cs rest : List Char} {g : Guard} (h : guard cs = some (g, rest)) :
    rest <:+ cs := by
  simp only [guard, bind, Option.bind_eq_some_iff, Prod.exists] at h
  obtain ⟨_, _, h1, h⟩ := h
  split at h
  · simp only [Option.map_eq_some_iff, Prod.exists, Prod.mk.injEq] at h
    obtain ⟨_, _, h3, _, rfl⟩ := h
    exact (operand_suffix h3).trans ((strip?_suffix (by assumption)).trans (operand_suffix h1))
  · simp only [Option.map_eq_some_iff, Prod.exists, Prod.mk.injEq] at h
    obtain ⟨_, _, h3, _, rfl⟩ := h
    exact (operand_suffix h3).trans ((strip?_suffix (by assumption)).trans (operand_suffix h1))
  · simp only [Option.some.injEq, Prod.mk.injEq] at h
    exact h.2 ▸ operand_suffix h1

theorem settingBody_suffix {cs rest : List Char} {d : Directive}
    (h : settingBody cs = some (d, rest)) : rest <:+ cs := by
  simp only [settingBody, bind, Option.bind_eq_some_iff, Prod.exists, Option.some.injEq,
    Prod.mk.injEq] at h
  obtain ⟨_, _, h1, _, h2, _, _, h3, _, rfl⟩ := h
  exact (run_suffix h3).trans ((strip?_suffix h2).trans (run_suffix h1))

theorem body_suffix {f : Form} {cs rest : List Char} {d : Directive}
    (h : f.body cs = some (d, rest)) : rest <:+ cs := by
  cases f <;> simp only [body, single] at h
  case setting => exact settingBody_suffix h
  case declare => exact declaration_suffix h
  case openBlock =>
    simp only [Option.map_eq_some_iff, Prod.exists, Prod.mk.injEq] at h
    obtain ⟨_, _, hg, _, rfl⟩ := h
    exact guard_suffix hg
  case elseBranch =>
    simp only [Option.some.injEq, Prod.mk.injEq] at h
    exact h.2 ▸ List.suffix_refl _
  case closeBlock =>
    simp only [Option.some.injEq, Prod.mk.injEq] at h
    exact h.2 ▸ List.suffix_refl _
  all_goals exact run_suffix h

theorem opening_length_pos (f : Form) : 0 < f.opening.toList.length := by
  cases f <;> decide

theorem read?_length_lt {f : Form} {cs rest : List Char} {d : Directive}
    (h : f.read? cs = some (d, rest)) : rest.length < cs.length := by
  simp only [read?, bind, Option.bind_eq_some_iff, Prod.exists, Option.some.injEq,
    Prod.mk.injEq] at h
  obtain ⟨a, h1, _, b, h2, c, h3, _, rfl⟩ := h
  have hc := ((strip?_suffix h3).trans (body_suffix h2)).length_le
  have ho := opening_length_pos f
  rw [strip?_eq_some_iff.mp h1, List.length_append]
  omega

def readFirst? (forms : List Form) (cs : List Char) : Option (Directive × List Char) :=
  forms.findSome? fun f => f.read? cs

theorem readFirst?_length_lt {forms : List Form} {cs rest : List Char} {d : Directive}
    (h : readFirst? forms cs = some (d, rest)) : rest.length < cs.length := by
  obtain ⟨f, _, hf⟩ := List.exists_of_findSome?_eq_some h
  exact read?_length_lt hf

end Form

/-- The occurrences in a text that begins at a given position. -/
def scanFrom (forms : List Form) (position : Nat) (cs : List Char) : List Occurrence :=
  match cs with
  | [] => []
  | c :: tail =>
    match h : Form.readFirst? forms (c :: tail) with
    | some (d, rest) =>
      let stop := position + (size (c :: tail) - size rest)
      have := Form.readFirst?_length_lt h
      ⟨⟨position, stop⟩, d, none⟩ :: scanFrom forms stop rest
    | none => scanFrom forms (position + c.utf8Size) tail
  termination_by cs.length
  decreasing_by all_goals simp only [List.length_cons] at *; omega

/-- The directives of a text of some kind, in the order in which they stand. -/
def occurrences (kind : Kind) (text : String) : List Occurrence :=
  scanFrom (Form.ofKind kind) 0 text.toList

end AssetCompiler
