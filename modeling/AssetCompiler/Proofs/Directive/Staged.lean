import AssetCompiler.Proofs.Directive.Deferral

/-! # Two renderings in a row

A first pass leaves a text in which only the directives stand that it could not decide. Beside a
direct rendering of the whole text, a second pass over that output sees what the first pass copied
as text, and meets the directives that were kept in the state in which the direct rendering meets
them.
-/
namespace AssetCompiler

open Text (Span size slice dropOctets)

/-- The flags of a first pass over a text, of a direct rendering, and of a second pass over the
output of the first. A block that the first pass decides is gone in its output. One that it
keeps is all there, and the second pass finds in it what the direct rendering finds. -/
inductive Flows : Flow → Flow → Flow → Prop
  | outside : Flows {} {} {}
  | decided (elide : Bool) : Flows ⟨false, true, elide⟩ ⟨false, true, elide⟩ {}
  | kept (flow : Flow) (isOpen : flow.isOpen = true) : Flows ⟨true, true, false⟩ flow flow

/-- Renderings that have come as far as each other: a first pass, a direct rendering, and a second
pass. -/
structure Staged {σ : Type} (first direct second : Progress σ) : Prop where
  flows : Flows first.flow direct.flow second.flow
  layered : first.bindings.Layered direct.bindings second.bindings
  state : direct.state = second.state

theorem Progress.deferralsFrom_of_fits {σ : Type} {lookup : Lookup σ} {text : List Char}
    {cursor reached : Nat} {p : Progress σ} {o : Occurrence} {os : List Occurrence}
    (h : Progress.fits text cursor o.span = true) :
    let output := (p.evaluate lookup o).1
    let next := (p.evaluate lookup o).2
    let start := reached + size (unlessElided p.flow (slice ⟨cursor, o.span.start⟩ text))
    let stop := start + size (unlessElided next.flow (shown text o.span output))
    Progress.deferralsFrom lookup text cursor reached p (o :: os) =
      (if isKept output next.flow then [⟨{ o with span := ⟨start, stop⟩ }, p.bindings⟩] else []) ++
        deferralsFrom lookup text o.span.stop stop next os := by
  intro output next start stop
  rw [deferralsFrom, if_pos h]

namespace Staged

open Progress (unlessElided shown isKept)

variable {σ : Type} {lookup : Lookup σ} {p q r : Progress σ} {o o' : Occurrence}

/-- Text that the first pass copies is shown by the second where a direct rendering shows it. -/
theorem unlessElided_eq (h : Staged p q r) (cs : List Char) :
    unlessElided r.flow (unlessElided p.flow cs) = unlessElided q.flow cs := by
  have hf := h.flows
  generalize p.flow = f at hf ⊢
  generalize q.flow = g at hf ⊢
  generalize r.flow = k at hf ⊢
  cases hf with
  | outside => rfl
  | decided elide => cases elide <;> rfl
  | kept => rfl

theorem evaluate_isOpen (lookup : Lookup σ) (p : Progress σ) (o : Occurrence) :
    (p.evaluate lookup o).2.flow.isOpen = o.directive.isOpenBehind p.flow.isOpen := by
  obtain ⟨span, d, dep?⟩ := o
  cases d with
  | display name =>
    cases h : p.bindings.get? name <;> simp [Progress.evaluate, Directive.isOpenBehind, h]
  | openBlock guard =>
    cases h : guard.evaluate? p.bindings <;>
      simp [Progress.evaluate, Directive.isOpenBehind, Flow.opened, h]
  | elseBranch | closeBlock =>
    cases h : p.flow.isOpen <;> cases hf : p.flow.fallback <;>
      simp [Progress.evaluate, Progress.inBlock, Progress.warn, Directive.isOpenBehind,
        Flow.otherwise, Flow.closed, h, hf]
  | _ => rfl

theorem unlessElided_append (f : Flow) (cs ds : List Char) :
    unlessElided f (cs ++ ds) = unlessElided f cs ++ unlessElided f ds := by
  unfold unlessElided
  split <;> rfl

theorem deferred_of_isKept {output : Output} {flow : Flow} (h : isKept output flow = true) :
    output = .deferred ∧ flow.elide = false := by
  simpa [isKept] using h

/-- A directive that the first pass keeps comes in the second pass to what it comes to directly. -/
theorem evaluate_kept (h : Staged p q r) (hlookup : o.directive.isLookup = false)
    (hstands : o.directive.mayStand p.flow.isOpen = true)
    (hkept : isKept (p.evaluate lookup o).1 (p.evaluate lookup o).2.flow = true)
    (hfree : ∀ n ∈ o.directive.names, p.bindings.bound? n = none)
    (ho : o'.directive = o.directive) :
    Staged (p.evaluate lookup o).2 (q.evaluate lookup o).2 (r.evaluate lookup o').2 ∧
      (r.evaluate lookup o').1 = (q.evaluate lookup o).1 ∧
      (r.evaluate lookup o').2.flow.elide = (q.evaluate lookup o).2.flow.elide := by
  obtain ⟨span, d, dep?⟩ := o
  obtain ⟨span', d', dep?'⟩ := o'
  obtain ⟨f, b, s⟩ := p
  obtain ⟨g, c, t⟩ := q
  obtain ⟨k, e, u⟩ := r
  obtain ⟨hflows, hlayered, hstate⟩ := h
  dsimp only at ho hlookup hstands hfree hflows hlayered hstate
  subst ho hstate
  -- Where the flags are those of a decided block, marks are dropped and only a display can be kept.
  cases d' with
  | display name =>
    have hget := hlayered.get?_of_unbound (hfree name List.mem_cons_self)
    cases hb : b.get? name with
    | some v => simp [Progress.evaluate, hb, isKept] at hkept
    | none =>
      have hshown : f.elide = false := by simpa [Progress.evaluate, hb, isKept] using hkept
      have helide : k.elide = g.elide := by
        cases hflows with
        | decided elide => exact hshown.symm
        | _ => rfl
      cases he : e.get? name with
      | some v =>
        have hc := hget.trans he
        simp only [Progress.evaluate, hb, he, hc]
        exact ⟨⟨hflows, hlayered, rfl⟩, trivial, helide⟩
      | none =>
        have hc := hget.trans he
        simp only [Progress.evaluate, hb, he, hc]
        exact ⟨⟨hflows, hlayered, rfl⟩, trivial, helide⟩
  | openBlock guard =>
    have hguard := hlayered.evaluate?_of_unbound hfree
    cases hflows with
    | outside =>
      cases hb : guard.evaluate? b with
      | some v => simp [Progress.evaluate, hb, isKept, Progress.blockOutput, Flow.opened] at hkept
      | none =>
        have hopen : (Flow.opened (guard.evaluate? e)).isOpen = true := by
          cases guard.evaluate? e <;> rfl
        simp only [Progress.evaluate, hb, hguard]
        exact ⟨⟨.kept _ hopen, hlayered, rfl⟩, trivial, trivial⟩
    | decided elide => cases hstands
    | kept _ isOpen => cases hstands
  | elseBranch =>
    cases hflows with
    | outside => cases hstands
    | decided elide =>
      simp [Progress.evaluate, Progress.inBlock, isKept, Progress.blockOutput] at hkept
    | kept _ isOpen =>
      have hopen : g.otherwise.isOpen = true := by
        unfold Flow.otherwise
        split <;> exact isOpen
      simp only [Progress.evaluate, Progress.inBlock, isOpen, if_true]
      exact ⟨⟨.kept _ hopen, hlayered, rfl⟩, trivial, trivial⟩
  | closeBlock =>
    cases hflows with
    | outside => cases hstands
    | decided elide =>
      simp [Progress.evaluate, Progress.inBlock, isKept, Progress.blockOutput] at hkept
    | kept _ isOpen =>
      simp only [Progress.evaluate, Progress.inBlock, isOpen, if_true]
      exact ⟨⟨.outside, hlayered, rfl⟩, trivial, trivial⟩
  | declare name value => cases hkept
  | _ => cases hlookup

/-- What the first pass leaves of a directive that it does not keep is text, and shows in the second
pass where a direct rendering shows what the directive comes to. -/
theorem evaluate_dropped (h : Staged p q r) (hlookup : o.directive.isLookup = false)
    (hstands : o.directive.mayStand p.flow.isOpen = true)
    (hdropped : isKept (p.evaluate lookup o).1 (p.evaluate lookup o).2.flow = false)
    (text : List Char) :
    Staged (p.evaluate lookup o).2 (q.evaluate lookup o).2 r ∧
      unlessElided r.flow (unlessElided (p.evaluate lookup o).2.flow
          (shown text o.span (p.evaluate lookup o).1)) =
        unlessElided (q.evaluate lookup o).2.flow (shown text o.span (q.evaluate lookup o).1) := by
  obtain ⟨span, d, dep?⟩ := o
  obtain ⟨f, b, s⟩ := p
  obtain ⟨g, c, t⟩ := q
  obtain ⟨k, e, u⟩ := r
  have hshows := h.unlessElided_eq
  obtain ⟨hflows, hlayered, hstate⟩ := h
  dsimp only at hlookup hstands hdropped hshows hflows hlayered hstate
  subst hstate
  cases d with
  | display name =>
    cases hb : b.get? name with
    | some v =>
      have hc := hlayered.get?_of_first hb
      simp only [Progress.evaluate, hb, hc]
      exact ⟨⟨hflows, hlayered, rfl⟩, hshows _⟩
    | none =>
      have helided : f.elide = true := by simpa [Progress.evaluate, hb, isKept] using hdropped
      cases hflows with
      | decided elide =>
        dsimp only at helided
        subst helided
        cases hc : c.get? name with
        | some v =>
          simp only [Progress.evaluate, hb, hc]
          exact ⟨⟨.decided true, hlayered, rfl⟩, rfl⟩
        | none =>
          simp only [Progress.evaluate, hb, hc]
          exact ⟨⟨.decided true, hlayered, rfl⟩, rfl⟩
      | outside => cases helided
      | kept => cases helided
  | openBlock guard =>
    cases hflows with
    | outside =>
      cases hb : guard.evaluate? b with
      | some v =>
        have hc := hlayered.evaluate?_of_first hb
        simp only [Progress.evaluate, hb, hc]
        exact ⟨⟨.decided (!v), hlayered, rfl⟩, by cases v <;> rfl⟩
      | none => simp [Progress.evaluate, hb, isKept, Progress.blockOutput, Flow.opened] at hdropped
    | decided elide => cases hstands
    | kept _ isOpen => cases hstands
  | elseBranch =>
    cases hflows with
    | outside => cases hstands
    | decided elide => exact ⟨⟨.decided (!elide), hlayered, rfl⟩, by cases elide <;> rfl⟩
    | kept _ isOpen =>
      simp [Progress.evaluate, Progress.inBlock, isKept, Progress.blockOutput, Flow.otherwise] at hdropped
  | closeBlock =>
    cases hflows with
    | outside => cases hstands
    | decided elide => exact ⟨⟨.outside, hlayered, rfl⟩, rfl⟩
    | kept _ isOpen =>
      simp [Progress.evaluate, Progress.inBlock, isKept, Progress.blockOutput, Flow.closed] at hdropped
  | declare name value =>
    refine ⟨⟨hflows, hlayered.declare name value, rfl⟩, ?_⟩
    exact hshows _
  | _ => cases hlookup

theorem renderFrom_of_written (lookup : Lookup σ) (front rest : List Char) {passed here text : List Char}
    {o : Occurrence} {span : Span}
    (hspan : o.span = ⟨size (front ++ passed), size (front ++ passed ++ here)⟩)
    (hwritten : slice span text = here) (r : Progress σ) (os : List Occurrence) :
    let next := (r.evaluate lookup o).2
    let tail := Progress.renderFrom lookup (front ++ passed ++ here ++ rest)
      (size (front ++ passed ++ here)) next os
    Progress.renderFrom lookup (front ++ passed ++ here ++ rest) (size front) r (o :: os) =
      (unlessElided r.flow passed ++
          unlessElided next.flow (shown text span (r.evaluate lookup o).1) ++ tail.1, tail.2) := by
  intro next tail
  have hfits : Progress.fits (front ++ passed ++ here ++ rest) (size front) o.span = true := by
    simp only [Progress.fits, hspan, Text.size_append, Bool.and_eq_true, decide_eq_true_eq]
    omega
  have hgap := Text.slice_between front passed (here ++ rest)
  have hhere := Text.slice_between (front ++ passed) here rest
  have hshown (output : Output) :
      shown (front ++ passed ++ here ++ rest) o.span output = shown text span output := by
    cases output with
    | text s => rfl
    | deferred =>
      rw [shown, shown, hwritten, hspan, List.append_assoc (front ++ passed), hhere]
  rw [Progress.renderFrom_of_fits hfits, hshown]
  simp only [hspan, List.append_assoc] at hgap ⊢
  rw [hgap]
  simp only [next, tail, List.append_assoc]

theorem unlessElided_of_isKept {output : Output} {flow : Flow} (h : isKept output flow = true)
    (text : List Char) (span : Span) : unlessElided flow (shown text span output) = slice span text := by
  obtain ⟨hdeferred, hvisible⟩ := deferred_of_isKept h
  rw [hdeferred, unlessElided, hvisible]
  rfl

section pass

variable {text front pending : List Char} {cursor : Nat} {os : List Occurrence}

theorem deferralsFrom_of_isKept (h : Progress.fits text cursor o.span = true)
    (hkept : isKept (p.evaluate lookup o).1 (p.evaluate lookup o).2.flow = true) (front : List Char) :
    let gap := unlessElided p.flow (slice ⟨cursor, o.span.start⟩ text)
    let here := slice o.span text
    Progress.deferralsFrom lookup text cursor (size front) p (o :: os) =
      ⟨{ o with span := ⟨size (front ++ gap), size (front ++ gap ++ here)⟩ }, p.bindings⟩ ::
        Progress.deferralsFrom lookup text o.span.stop (size (front ++ gap ++ here))
          (p.evaluate lookup o).2 os := by
  intro gap here
  rw [Progress.deferralsFrom_of_fits h, if_pos hkept, unlessElided_of_isKept hkept]
  simp only [Text.size_append, List.singleton_append, gap, here]

theorem deferralsFrom_of_not_isKept (h : Progress.fits text cursor o.span = true)
    (hdropped : isKept (p.evaluate lookup o).1 (p.evaluate lookup o).2.flow = false) (front : List Char) :
    let gap := unlessElided p.flow (slice ⟨cursor, o.span.start⟩ text)
    let here := unlessElided (p.evaluate lookup o).2.flow (shown text o.span (p.evaluate lookup o).1)
    Progress.deferralsFrom lookup text cursor (size front) p (o :: os) =
      Progress.deferralsFrom lookup text o.span.stop (size (front ++ gap ++ here))
        (p.evaluate lookup o).2 os := by
  intro gap here
  rw [Progress.deferralsFrom_of_fits h, hdropped, if_neg Bool.false_ne_true, List.nil_append]
  simp only [Text.size_append, gap, here]

/-- A second pass shows what the first copied and not yet placed, and goes on as a direct rendering
of the rest of the text. -/
def Finishes (lookup : Lookup σ) (text front pending : List Char) (cursor : Nat) (p q r : Progress σ)
    (os : List Occurrence) : Prop :=
  let first := Progress.renderFrom lookup text cursor p os
  let direct := Progress.renderFrom lookup text cursor q os
  let second := Progress.renderFrom lookup (front ++ (pending ++ first.1)) (size front) r
    ((Progress.deferralsFrom lookup text cursor (size (front ++ pending)) p os).map Deferral.occurrence)
  second.1 = unlessElided r.flow pending ++ direct.1 ∧ second.2.state = direct.2.state

theorem finishes_nil (h : Staged p q r) : Finishes lookup text front pending cursor p q r [] := by
  refine ⟨?_, h.state.symm⟩
  have hdrop := Text.dropOctets_size_add front (pending ++ unlessElided p.flow (dropOctets cursor text)) 0
  rw [Nat.add_zero] at hdrop
  simp only [Progress.renderFrom, Progress.deferralsFrom, List.map_nil, hdrop, dropOctets]
  rw [unlessElided_append, h.unlessElided_eq]

/-- What the first pass keeps, the second meets as a directive, behind `pending` and the gap in front
of it. -/
theorem finishes_kept (h : Staged p q r) (hfits : Progress.fits text cursor o.span = true)
    (hlookup : o.directive.isLookup = false) (hstands : o.directive.mayStand p.flow.isOpen = true)
    (hkept : isKept (p.evaluate lookup o).1 (p.evaluate lookup o).2.flow = true)
    (hfree : ∀ n ∈ o.directive.names, p.bindings.bound? n = none)
    (hrest : ∀ r', Staged (p.evaluate lookup o).2 (q.evaluate lookup o).2 r' →
      Finishes lookup text (front ++ pending ++ unlessElided p.flow (slice ⟨cursor, o.span.start⟩ text) ++
        slice o.span text) [] o.span.stop (p.evaluate lookup o).2 (q.evaluate lookup o).2 r' os) :
    Finishes lookup text front pending cursor p q r (o :: os) := by
  have hgap := h.unlessElided_eq (slice ⟨cursor, o.span.start⟩ text)
  have hhere := unlessElided_of_isKept hkept text o.span
  unfold Finishes
  dsimp only
  rw [Progress.renderFrom_of_fits hfits p os, Progress.renderFrom_of_fits hfits q os,
    deferralsFrom_of_isKept hfits hkept]
  dsimp only
  rw [hhere, List.map_cons]
  generalize hwritten : slice o.span text = here at *
  generalize unlessElided p.flow (slice ⟨cursor, o.span.start⟩ text) = gap at *
  generalize ho' : ({ o with span := ⟨size (front ++ pending ++ gap),
    size (front ++ pending ++ gap ++ here)⟩ } : Occurrence) = o'
  have hspan : o'.span = ⟨size (front ++ (pending ++ gap)), size (front ++ (pending ++ gap) ++ here)⟩ := by
    rw [← ho', List.append_assoc front]
  have hdirective : o'.directive = o.directive := by rw [← ho']
  obtain ⟨hstep, hout, helide⟩ := h.evaluate_kept hlookup hstands hkept hfree hdirective
  obtain ⟨htail, hstate⟩ := hrest _ hstep
  have hplaced := renderFrom_of_written lookup front
    (Progress.renderFrom lookup text o.span.stop (p.evaluate lookup o).2 os).1 hspan hwritten r
  simp only [List.append_assoc, List.append_nil, List.nil_append] at htail hstate hplaced ⊢
  rw [hplaced, hout, htail, unlessElided_append, hgap]
  refine ⟨?_, hstate⟩
  simp only [unlessElided, helide, ite_self, List.append_assoc, List.nil_append]

/-- What the first pass does not keep becomes part of what is pending. -/
theorem finishes_dropped (h : Staged p q r) (hfits : Progress.fits text cursor o.span = true)
    (hlookup : o.directive.isLookup = false) (hstands : o.directive.mayStand p.flow.isOpen = true)
    (hdropped : isKept (p.evaluate lookup o).1 (p.evaluate lookup o).2.flow = false)
    (hrest : Staged (p.evaluate lookup o).2 (q.evaluate lookup o).2 r →
      Finishes lookup text front (pending ++ unlessElided p.flow (slice ⟨cursor, o.span.start⟩ text) ++
        unlessElided (p.evaluate lookup o).2.flow (shown text o.span (p.evaluate lookup o).1)) o.span.stop
        (p.evaluate lookup o).2 (q.evaluate lookup o).2 r os) :
    Finishes lookup text front pending cursor p q r (o :: os) := by
  have hgap := h.unlessElided_eq (slice ⟨cursor, o.span.start⟩ text)
  obtain ⟨hstep, hshown⟩ := h.evaluate_dropped hlookup hstands hdropped text
  obtain ⟨hout, hstate⟩ := hrest hstep
  unfold Finishes
  dsimp only
  rw [Progress.renderFrom_of_fits hfits p os, Progress.renderFrom_of_fits hfits q os,
    deferralsFrom_of_not_isKept hfits hdropped]
  dsimp only
  generalize unlessElided p.flow (slice ⟨cursor, o.span.start⟩ text) = gap at *
  generalize unlessElided (p.evaluate lookup o).2.flow
    (shown text o.span (p.evaluate lookup o).1) = here at *
  simp only [List.append_assoc, unlessElided_append, hgap, hshown] at hout hstate ⊢
  exact ⟨hout, hstate⟩

/-- The passes go along the text together; each directive is kept or dropped. -/
theorem renderFrom_deferralsFrom (h : Staged p q r) (lookup : Lookup σ)
    (text front pending : List Char) (cursor : Nat) (os : List Occurrence) (horder : InOrder (size text) cursor os)
    (hlookup : ∀ o ∈ os, o.directive.isLookup = false)
    (hunnested : isUnnested p.flow.isOpen os = true)
    (hfree : ∀ d ∈ Progress.deferralsFrom lookup text cursor (size (front ++ pending)) p os,
      ∀ n ∈ d.occurrence.directive.names, d.bindings.bound? n = none) :
    Finishes lookup text front pending cursor p q r os := by
  induction os generalizing cursor p q r front pending with
  | nil => exact h.finishes_nil
  | cons o os ih =>
    obtain ⟨hbehind, -, hinside, horder'⟩ := horder
    have hfits : Progress.fits text cursor o.span = true := Progress.fits_iff.mpr ⟨hbehind, hinside⟩
    obtain ⟨hstands, hunnested'⟩ := Bool.and_eq_true_iff.mp hunnested
    obtain ⟨hlook, hlookup'⟩ := List.forall_mem_cons.mp hlookup
    rw [← evaluate_isOpen lookup p o] at hunnested'
    cases hkept : isKept (p.evaluate lookup o).1 (p.evaluate lookup o).2.flow with
    | true =>
      rw [deferralsFrom_of_isKept hfits hkept, List.forall_mem_cons] at hfree
      refine h.finishes_kept hfits hlook hstands hkept hfree.1 fun r' hstep => ?_
      refine ih hstep _ [] o.span.stop horder' hlookup' hunnested' ?_
      rw [List.append_nil]
      exact hfree.2
    | false =>
      rw [deferralsFrom_of_not_isKept hfits hkept] at hfree
      refine h.finishes_dropped hfits hlook hstands hkept fun hstep => ?_
      refine ih hstep front _ o.span.stop horder' hlookup' hunnested' ?_
      rw [← List.append_assoc, ← List.append_assoc]
      exact hfree

end pass

end Staged

end AssetCompiler
