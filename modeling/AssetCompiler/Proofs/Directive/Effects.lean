import AssetCompiler.Proofs.Directive.Spans

/-! # What evaluation leaves behind

Besides its output a directive leaves a binding behind, or a call of the collaborator. Neither depends
on the flags, and the marks that steer the flags leave nothing behind: a block guards output only.
-/
namespace AssetCompiler

open Text (size)

variable {σ : Type}

/-- The state of a collaborator, the calls that it has answered, and the warnings that it was given. -/
structure Journal (σ : Type) where
  state : σ
  calls : List (Occurrence × String) := []
  warnings : List String := []

/-- Answers lookups from a state, and takes down each call with its answer and each warning. -/
def journal (answer : Occurrence → σ → String × σ) : Lookup (Journal σ) where
  answer o j :=
    let (reply, state) := answer o j.state
    (reply, { j with state, calls := j.calls ++ [(o, reply)] })
  warn text j := { j with warnings := j.warnings ++ [text] }

/-- Whether the directive opens a block, starts another branch of it, or ends it. -/
def Directive.isMark : Directive → Bool
  | openBlock _ | elseBranch | closeBlock => true
  | _ => false

/-- What evaluation has left behind so far, output and warnings apart. -/
structure Effect (σ : Type) where
  bindings : Bindings
  state : σ
  calls : List (Occurrence × String)

def Progress.effect (p : Progress (Journal σ)) : Effect σ := ⟨p.bindings, p.state.state, p.state.calls⟩

theorem InOrder.sublist {limit cursor : Nat} {os os' : List Occurrence} (hs : os'.Sublist os)
    (h : InOrder limit cursor os) : InOrder limit cursor os' := by
  induction hs generalizing cursor with
  | slnil => trivial
  | cons o _ ih =>
    obtain ⟨hstart, hlen, -, hrest⟩ := h
    exact (ih hrest).from_le (Nat.le_trans hstart hlen)
  | cons_cons o _ ih =>
    obtain ⟨hstart, hlen, hstop, hrest⟩ := h
    exact ⟨hstart, hlen, hstop, ih hrest⟩

namespace Effect

variable (answer : Occurrence → σ → String × σ) (e : Effect σ) (o : Occurrence)

/-- What is left behind after one more directive. -/
def after : Effect σ :=
  match o.directive with
  | .declare name value => { e with bindings := e.bindings.declare name value }
  | .display _ | .openBlock _ | .elseBranch | .closeBlock => e
  | _ =>
    let (reply, state) := answer o e.state
    { e with state, calls := e.calls ++ [(o, reply)] }

variable {o} in
theorem after_of_isMark (h : o.directive.isMark = true) : e.after answer o = e := by
  unfold after
  generalize o.directive = d at h ⊢
  cases d with
  | openBlock guard | elseBranch | closeBlock => rfl
  | _ => cases h

variable {o} in
theorem calls_after_of_lookup (h : o.directive.isLookup = true) :
    (e.after answer o).calls = e.calls ++ [(o, (answer o e.state).1)] := by
  unfold after
  generalize o.directive = d at h ⊢
  cases d with
  | declare | display | openBlock | elseBranch | closeBlock => cases h
  | _ => rfl

variable {o} in
theorem calls_after_of_not_lookup (h : o.directive.isLookup = false) :
    (e.after answer o).calls = e.calls := by
  unfold after
  generalize o.directive = d at h ⊢
  cases d with
  | declare | display | openBlock | elseBranch | closeBlock => rfl
  | _ => cases h

theorem foldl_after_filter (os : List Occurrence) :
    (os.filter fun o => !o.directive.isMark).foldl (after answer) e = os.foldl (after answer) e := by
  rw [List.foldl_filter]
  congr
  funext e o
  cases h : o.directive.isMark with
  | true => exact (e.after_of_isMark answer h).symm
  | false => rfl

/-- The calls are those of the lookups, each once and in order. -/
theorem map_fst_calls_foldl_after (os : List Occurrence) : (os.foldl (after answer) e).calls.map Prod.fst =
    e.calls.map Prod.fst ++ os.filter fun o => o.directive.isLookup := by
  induction os generalizing e with
  | nil => simp
  | cons o os ih =>
    rw [List.foldl_cons, ih]
    cases h : o.directive.isLookup with
    | true => simp [calls_after_of_lookup answer e h, h]
    | false => simp [calls_after_of_not_lookup answer e h, h]

end Effect

namespace Progress

variable (answer : Occurrence → σ → String × σ) (p : Progress (Journal σ))

theorem effect_inBlock (word : String) (span : Text.Span) (next : Flow → Flow) :
    (p.inBlock (journal answer) word span next).2.effect = p.effect := by
  unfold inBlock
  split <;> rfl

/-- What a directive leaves behind has nothing to do with the flags. -/
theorem effect_evaluate (o : Occurrence) :
    (p.evaluate (journal answer) o).2.effect = p.effect.after answer o := by
  unfold evaluate Effect.after
  cases hd : o.directive with
  | display name => dsimp only; split <;> rfl
  | openBlock guard => dsimp only; split <;> rfl
  | elseBranch => exact effect_inBlock ..
  | closeBlock => exact effect_inBlock ..
  | _ => rfl

/-- Evaluates directives one after another, whatever their places in a text. -/
def evaluateAll (lookup : Lookup σ) (p : Progress σ) (os : List Occurrence) : Progress σ :=
  os.foldl (fun p o => (p.evaluate lookup o).2) p

theorem effect_evaluateAll (os : List Occurrence) :
    (p.evaluateAll (journal answer) os).effect = os.foldl (Effect.after answer) p.effect := by
  induction os generalizing p with
  | nil => rfl
  | cons o os ih =>
    rw [List.foldl_cons, ← effect_evaluate]
    exact ih _

/-- A rendering that skips nothing leaves behind what its directives do. -/
theorem effect_renderFrom {text : List Char} {cursor : Nat} {os : List Occurrence}
    (h : InOrder (size text) cursor os) :
    (renderFrom (journal answer) text cursor p os).2.effect = os.foldl (Effect.after answer) p.effect := by
  induction os generalizing cursor p with
  | nil => rfl
  | cons o os ih =>
    obtain ⟨hstart, -, hstop, hrest⟩ := h
    have hfits : fits text cursor o.span = true := fits_iff.mpr ⟨hstart, hstop⟩
    rw [renderFrom_of_fits hfits, List.foldl_cons, ← effect_evaluate]
    exact ih _ hrest

end Progress

/-- Blocks guard output only. After any number of directives of a text, the bindings, the calls with their
answers and the collaborator's state are what they are without the marks of blocks. Every lookup is
called once, in order. And from any two states of the flags, any directives leave the same behind. -/
theorem effects_unguarded (answer : Occurrence → σ → String × σ) (kind : Kind) (text : String) (s : σ) :
    let start : Progress (Journal σ) := { state := { state := s } }
    let os := occurrences kind text
    let effect (os : List Occurrence) :=
      (Progress.renderFrom (journal answer) text.toList 0 start os).2.effect
    (∀ n, effect (os.take n) = effect ((os.take n).filter fun o => !o.directive.isMark)) ∧
      (render (journal answer) text os start.state).2.calls.map Prod.fst =
        os.filter (fun o => o.directive.isLookup) ∧
      ∀ (any : List Occurrence) (b : Bindings) (f g : Flow),
        let under (flow : Flow) : Progress (Journal σ) := { start with flow, bindings := b }
        ((under f).evaluateAll (journal answer) any).effect =
          ((under g).evaluateAll (journal answer) any).effect := by
  intro start os effect
  have hrun (os' : List Occurrence) (hs : os'.Sublist os) :
      effect os' = os'.foldl (Effect.after answer) start.effect :=
    start.effect_renderFrom answer ((occurrences_inOrder kind text).sublist hs)
  refine ⟨fun n => ?_, ?_, fun any b f g => ?_⟩
  · have htake := List.take_sublist n os
    rw [hrun _ htake, hrun _ (List.filter_sublist.trans htake), Effect.foldl_after_filter]
  · have hcalls := Effect.map_fst_calls_foldl_after answer start.effect os
    rw [← hrun os (List.Sublist.refl os)] at hcalls
    exact hcalls
  · intro under
    rw [Progress.effect_evaluateAll, Progress.effect_evaluateAll]
    rfl

end AssetCompiler
