import AssetCompiler.Directive.Basic

/-! # Rendering a text

Rendering copies the text between occurrences and puts the output of each directive in its
place. Lookups are answered by a collaborator that may keep a state of its own. A held-back
branch loses only its output: its directives are evaluated all the same. What cannot be
decided is kept as written, so that a later pass over the output can decide it.
-/

namespace AssetCompiler

/-! ## The state of the open block

While directives are evaluated in order, three flags tell whether a block is open, whether
its guard was undecided, and whether output is held back until the next branch or the end.
-/

structure Flow where
  /-- The guard of the open block was undecided, so its directives are kept as written. -/
  fallback : Bool := false
  /-- A block is open. -/
  isOpen : Bool := false
  /-- Output is held back. -/
  elide : Bool := false
  deriving DecidableEq, Inhabited, Repr

namespace Flow

def opened : Option Bool → Flow
  | some value => ⟨false, true, !value⟩
  | none => ⟨true, true, false⟩

/-- The state behind an else. An undecided block keeps both branches. -/
def otherwise (f : Flow) : Flow :=
  if f.fallback then f else { f with elide := !f.elide }

def closed (_ : Flow) : Flow := {}

end Flow

/-! ## Rendering -/

open Text (Span size slice dropOctets)

/-- Answers lookups and takes warnings, with a state that both may change. -/
structure Lookup (σ : Type) where
  answer : Occurrence → σ → String × σ
  warn : String → σ → σ

/-- What a directive comes to: a text, or its own written form. -/
inductive Output where
  | text (s : String)
  | deferred
  deriving DecidableEq, Repr

/-- What evaluation carries from one directive to the next. -/
structure Progress (σ : Type) where
  flow : Flow := {}
  bindings : Bindings := []
  state : σ

namespace Progress

variable {σ : Type}

/-- The output of a block's own directive: nothing, unless the block is undecided. -/
def blockOutput (f : Flow) : Output :=
  if f.fallback then .deferred else .text ""

def warn (lookup : Lookup σ) (p : Progress σ) (before : String) (span : Span) (after : String) :
    Progress σ :=
  { p with state := lookup.warn (before ++ toString span ++ after) p.state }

/-- Evaluates a block's inner directive, which has no effect outside a block. -/
def inBlock (lookup : Lookup σ) (p : Progress σ) (word : String) (span : Span)
    (next : Flow → Flow) : Output × Progress σ :=
  if p.flow.isOpen then (blockOutput p.flow, { p with flow := next p.flow })
  else (.text "", p.warn lookup ("`" ++ word ++ "` at ") span " outside a conditional block")

def evaluate (lookup : Lookup σ) (p : Progress σ) (o : Occurrence) : Output × Progress σ :=
  match o.directive with
  | .declare name value => (.text "", { p with bindings := p.bindings.declare name value })
  | .display name =>
    match p.bindings.get? name with
    | some value => (.text value.display, p)
    | none => (.deferred, p)
  | .openBlock guard =>
    let warned := if p.flow.isOpen then
      p.warn lookup "conditional at " o.span " opened inside an open block" else p
    let flow := Flow.opened (guard.evaluate? p.bindings)
    (blockOutput flow, { warned with flow })
  | .elseBranch => inBlock lookup p "else" o.span Flow.otherwise
  | .closeBlock => inBlock lookup p "end" o.span Flow.closed
  | _ =>
    let (s, state) := lookup.answer o p.state
    (.text s, { p with state })

/-- The characters that an output stands for at its place in the text. -/
def shown (text : List Char) (span : Span) : Output → List Char
  | .text s => s.toList
  | .deferred => slice span text

/-- A part of the output, unless it is held back. -/
def unlessElided (f : Flow) (cs : List Char) : List Char :=
  if f.elide then [] else cs

/-- An occurrence can be placed when it does not reach back over what is already copied nor
beyond the end of the text. -/
def fits (text : List Char) (cursor : Nat) (span : Span) : Bool :=
  cursor ≤ span.start && span.stop ≤ size text

/-- The output from a position on, and what evaluation has come to. The text before an
occurrence is guarded by the state in front of it, its output by the state behind it. -/
def renderFrom (lookup : Lookup σ) (text : List Char) (cursor : Nat) (p : Progress σ) :
    List Occurrence → List Char × Progress σ
  | [] => (unlessElided p.flow (dropOctets cursor text), p)
  | o :: os =>
    if fits text cursor o.span then
      let gap := unlessElided p.flow (slice ⟨cursor, o.span.start⟩ text)
      let (output, next) := p.evaluate lookup o
      let here := unlessElided next.flow (shown text o.span output)
      let (rest, final) := renderFrom lookup text o.span.stop next os
      (gap ++ here ++ rest, final)
    else
      let warned := p.warn lookup "skipping expression at " o.span ": overlaps previous output"
      renderFrom lookup text cursor warned os

end Progress

/-- Renders a text with the given occurrences, from a start state of the collaborator. -/
def render {σ : Type} (lookup : Lookup σ) (text : String) (os : List Occurrence) (s : σ) :
    String × σ :=
  let (out, final) := Progress.renderFrom lookup text.toList 0 { state := s } os
  (String.ofList out, final.state)

end AssetCompiler
