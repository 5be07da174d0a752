import AssetCompiler.Proofs.Directive.Finish

/-! # Where an output comes from

A rendered text is a row of portions. A portion is copied text, or what a directive that is not held back
comes to. So every visible directive has its place in the output.
-/
namespace AssetCompiler

open Text (slice dropOctets)

/-- A portion of an output: characters, with the occurrence that they stand for unless they are copied. -/
structure Portion where
  source? : Option Occurrence
  chars : List Char
  deriving DecidableEq

namespace Portion

def unlessElided (f : Flow) (portion : Portion) : List Portion :=
  if f.elide then [] else [portion]

def written (portions : List Portion) : List Char := portions.flatMap chars

@[simp] theorem written_append (portions more : List Portion) :
    written (portions ++ more) = written portions ++ written more :=
  List.flatMap_append

theorem written_split (front back : List Portion) (portion : Portion) :
    written (front ++ portion :: back) = written front ++ portion.chars ++ written back := by
  rw [written_append, List.append_assoc]
  rfl

theorem written_unlessElided (f : Flow) (portion : Portion) :
    written (unlessElided f portion) = Progress.unlessElided f portion.chars := by
  unfold unlessElided Progress.unlessElided
  split
  · rfl
  · exact List.flatMap_singleton _ _

end Portion

namespace Progress

variable {σ : Type} {lookup : Lookup σ} {text : List Char} {o : Occurrence}

/-- The portions of the output from a position on. -/
def portionsFrom (lookup : Lookup σ) (text : List Char) (cursor : Nat) (p : Progress σ) :
    List Occurrence → List Portion
  | [] => Portion.unlessElided p.flow ⟨none, dropOctets cursor text⟩
  | o :: os =>
    if fits text cursor o.span then
      let gap := Portion.unlessElided p.flow ⟨none, slice ⟨cursor, o.span.start⟩ text⟩
      let (output, next) := p.evaluate lookup o
      let here := Portion.unlessElided next.flow ⟨some o, shown text o.span output⟩
      gap ++ here ++ portionsFrom lookup text o.span.stop next os
    else
      portionsFrom lookup text cursor
        (p.warn lookup "skipping expression at " o.span ": overlaps previous output") os

/-- The portions make up the output. -/
theorem written_portionsFrom (lookup : Lookup σ) (text : List Char) (cursor : Nat) (p : Progress σ)
    (os : List Occurrence) :
    Portion.written (portionsFrom lookup text cursor p os) = (renderFrom lookup text cursor p os).1 := by
  induction os generalizing cursor p with
  | nil => exact Portion.written_unlessElided ..
  | cons o os ih =>
    unfold portionsFrom renderFrom
    split
    · dsimp only
      rw [Portion.written_append, Portion.written_append, Portion.written_unlessElided,
        Portion.written_unlessElided, ih]
    · exact ih ..

theorem evaluate_lookup (h : o.directive.isLookup = true) (p : Progress σ) :
    (p.evaluate lookup o).1 = .text (lookup.answer o p.state).1 := by
  unfold evaluate
  cases hd : o.directive <;> simp only [hd, Directive.isLookup, Bool.false_eq_true] at h <;> rfl

theorem mem_unlessElided {f : Flow} {portion chosen : Portion} (h : portion ∈ Portion.unlessElided f chosen) :
    portion = chosen := by
  unfold Portion.unlessElided at h
  split at h
  · cases h
  · exact List.mem_singleton.mp h

/-- A portion that stands for a lookup is what the lookup was answered. -/
theorem answer_of_mem_portionsFrom {cursor : Nat} {p : Progress σ} {os : List Occurrence} {cs : List Char}
    (h : ⟨some o, cs⟩ ∈ portionsFrom lookup text cursor p os) :
    o ∈ os ∧ (o.directive.isLookup = true → ∃ s, cs = (lookup.answer o s).1.toList) := by
  induction os generalizing cursor p with
  | nil => cases mem_unlessElided h
  | cons next os ih =>
    unfold portionsFrom at h
    split at h
    · dsimp only at h
      rcases List.mem_append.mp h with h | h
      · rcases List.mem_append.mp h with h | h
        · cases mem_unlessElided h
        · obtain ⟨hsource, rfl⟩ := Portion.mk.inj (mem_unlessElided h)
          obtain rfl := Option.some.inj hsource
          refine ⟨List.mem_cons_self, fun hlookup => ⟨p.state, ?_⟩⟩
          rw [evaluate_lookup hlookup]
          rfl
      · exact (ih h).imp_left (List.mem_cons_of_mem _)
    · exact (ih h).imp_left (List.mem_cons_of_mem _)

end Progress

/-- The portions that a rendered text is made of. -/
def portions {σ : Type} (lookup : Lookup σ) (text : String) (os : List Occurrence) (s : σ) : List Portion :=
  Progress.portionsFrom lookup text.toList 0 { state := s } os

theorem written_portions {σ : Type} (lookup : Lookup σ) (text : String) (os : List Occurrence) (s : σ) :
    Portion.written (portions lookup text os s) = (render lookup text os s).1.toList := by
  rw [portions, Progress.written_portionsFrom, render, String.toList_ofList]

end AssetCompiler
