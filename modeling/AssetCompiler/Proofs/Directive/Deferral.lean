import AssetCompiler.Proofs.Directive.Preamble

/-! # Finishing deferred output

What a rendering cannot decide it keeps as written. A later rendering of the output, with the
missing variables declared in front, comes to what rendering the text with those declarations
comes to, as long as no directive that was kept asks for a variable that the text itself had
declared: such a declaration leaves nothing behind in the output.
-/
namespace AssetCompiler

open Text (Span size slice dropOctets)

def Operand.names : Operand → List String
  | name n => [n]
  | _ => []

def Guard.names : Guard → List String
  | holds o => o.names
  | equal l r => l.names ++ r.names
  | differ l r => l.names ++ r.names

namespace Directive

/-- The variables that a directive asks for. -/
def names : Directive → List String
  | display n => [n]
  | openBlock guard => guard.names
  | _ => []

/-- Whether the directive can stand there when blocks do not lie inside each other: one that opens
a block in front of none, else and end inside one. -/
def mayStand (isOpen : Bool) : Directive → Bool
  | openBlock _ => !isOpen
  | elseBranch => isOpen
  | closeBlock => isOpen
  | _ => true

def isOpenBehind (isOpen : Bool) : Directive → Bool
  | openBlock _ => true
  | closeBlock => false
  | _ => isOpen

end Directive

/-- Whether no block is opened inside another and every else and end stands in one. -/
def isUnnested (isOpen : Bool) : List Occurrence → Bool
  | [] => true
  | o :: os => o.directive.mayStand isOpen && isUnnested (o.directive.isOpenBehind isOpen) os

/-- A directive that was kept as written: where it stands in the output, and the bindings that it
was met under. -/
structure Deferral where
  occurrence : Occurrence
  bindings : Bindings

namespace Progress

variable {σ : Type} (lookup : Lookup σ)

def isKept (output : Output) (next : Flow) : Bool := output == .deferred && !next.elide

/-- What a rendering keeps as written from a position of the text on, where the output has reached
another position. -/
def deferralsFrom (text : List Char) (cursor reached : Nat) (p : Progress σ) :
    List Occurrence → List Deferral
  | [] => []
  | o :: os =>
    if fits text cursor o.span then
      let (output, next) := p.evaluate lookup o
      let start := reached + size (unlessElided p.flow (slice ⟨cursor, o.span.start⟩ text))
      let stop := start + size (unlessElided next.flow (shown text o.span output))
      (if isKept output next.flow then [⟨{ o with span := ⟨start, stop⟩ }, p.bindings⟩] else []) ++
        deferralsFrom text o.span.stop stop next os
    else
      let warned := p.warn lookup "skipping expression at " o.span ": overlaps previous output"
      deferralsFrom text cursor reached warned os

end Progress

/-- The directives that rendering a text keeps as written. -/
def deferrals {σ : Type} (lookup : Lookup σ) (text : String) (os : List Occurrence) (s : σ) :
    List Deferral :=
  Progress.deferralsFrom lookup text.toList 0 0 { state := s } os

/-- Bindings that hold those of a first pass over those of a second, which bind no name to a name. -/
structure Bindings.Layered (first direct second : Bindings) : Prop where
  bound : ∀ n, direct.bound? n = (first.bound? n).or (second.bound? n)
  literal : ∀ n other, second.bound? n ≠ some (.name other)

namespace Bindings.Layered

variable {first direct second : Bindings} {n : String} {v : Operand}

theorem follow_of_first (h : Layered first direct second) {hops : Nat} {o : Operand}
    (hf : first.follow hops o = some v) : direct.follow hops o = some v := by
  induction hops generalizing o with
  | zero => cases hf
  | succ hops ih =>
    cases o with
    | name next =>
      obtain ⟨w, hw, hv⟩ := Option.bind_eq_some_iff.mp hf
      have hbound : direct.bound? next = some w := by
        rw [h.bound, hw]
        rfl
      rw [follow, hbound]
      exact ih hv
    | _ => exact hf

/-- What the first pass knows is known. -/
theorem get?_of_first (h : Layered first direct second) (hf : first.get? n = some v) :
    direct.get? n = some v := by
  obtain ⟨w, hw, hv⟩ := Option.bind_eq_some_iff.mp hf
  have hbound : direct.bound? n = some w := by
    rw [h.bound, hw]
    rfl
  rw [get?, hbound]
  exact h.follow_of_first hv

/-- What the first pass has not declared is what the second declares. -/
theorem get?_of_unbound (h : Layered first direct second) (hf : first.bound? n = none) :
    direct.get? n = second.get? n := by
  have hbound : direct.bound? n = second.bound? n := by
    rw [h.bound, hf]
    rfl
  rw [get?, get?, hbound]
  cases hs : second.bound? n with
  | none => rfl
  | some w =>
    cases w with
    | name other => exact absurd hs (h.literal n other)
    | _ => rfl

theorem declare (h : Layered first direct second) (name : String) (value : Operand) :
    Layered (first.declare name value) (direct.declare name value) second := by
  refine ⟨fun n => ?_, h.literal⟩
  by_cases hn : n = name
  · rw [hn, bound?_declare_self, bound?_declare_self]
    rfl
  · rw [bound?_declare_ne _ _ hn, bound?_declare_ne _ _ hn]
    exact h.bound n

theorem resolve?_of_first (h : Layered first direct second) {o : Operand}
    (hf : first.resolve? o = some v) : direct.resolve? o = some v := by
  cases o with
  | name n => exact h.get?_of_first hf
  | _ => exact hf

theorem resolve?_of_unbound (h : Layered first direct second) {o : Operand}
    (hf : ∀ n ∈ o.names, first.bound? n = none) : direct.resolve? o = second.resolve? o := by
  cases o with
  | name n => exact h.get?_of_unbound (hf n List.mem_cons_self)
  | _ => rfl

theorem equals?_of_first (h : Layered first direct second) {l r : Operand} {b : Bool}
    (hf : first.equals? l r = some b) : direct.equals? l r = some b := by
  obtain ⟨v, hv, hb⟩ := Option.bind_eq_some_iff.mp hf
  obtain ⟨w, hw, rfl⟩ := Option.map_eq_some_iff.mp hb
  rw [equals?, h.resolve?_of_first hv, h.resolve?_of_first hw]
  rfl

theorem evaluate?_of_first (h : Layered first direct second) {guard : Guard} {b : Bool}
    (hf : guard.evaluate? first = some b) : guard.evaluate? direct = some b := by
  cases guard with
  | holds o =>
    obtain ⟨v, hv, hb⟩ := Option.bind_eq_some_iff.mp hf
    rw [Guard.evaluate?, truth?, h.resolve?_of_first hv]
    exact hb
  | equal l r => exact h.equals?_of_first hf
  | differ l r =>
    obtain ⟨e, he, rfl⟩ := Option.map_eq_some_iff.mp hf
    rw [Guard.evaluate?, h.equals?_of_first he]
    rfl

theorem evaluate?_of_unbound (h : Layered first direct second) {guard : Guard}
    (hf : ∀ n ∈ guard.names, first.bound? n = none) :
    guard.evaluate? direct = guard.evaluate? second := by
  cases guard with
  | holds o => rw [Guard.evaluate?, Guard.evaluate?, truth?, truth?, h.resolve?_of_unbound hf]
  | equal l r | differ l r =>
    have hl := h.resolve?_of_unbound fun n hn => hf n (List.mem_append_left _ hn)
    have hr := h.resolve?_of_unbound fun n hn => hf n (List.mem_append_right _ hn)
    rw [Guard.evaluate?, Guard.evaluate?, equals?, equals?, hl, hr]

end Bindings.Layered

end AssetCompiler
