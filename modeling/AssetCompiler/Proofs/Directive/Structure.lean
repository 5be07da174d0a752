import AssetCompiler.Proofs.Directive.Document
import AssetCompiler.Proofs.Directive.Spans
import Mathlib.Data.List.TakeWhile

/-! # Rendering is the reading of the document

The renderer walks over the occurrences with three flags. Inside a block the flags are
determined by the value of the guard and the number of the branch, outside of blocks they are
all down; what it emits is then what the document's nodes come to, one after the other.
-/
namespace AssetCompiler

open Text (Span size slice dropOctets)

namespace Document

variable {σ : Type} (lookup : Lookup σ)

/-- What a renderer carries when its flags and its store are given. -/
def Store.under (r : Store σ) (flow : Flow) : Progress σ := ⟨flow, r.bindings, r.state⟩

/-- What a mark comes to in front of a state of the flags: its written form if the block is
undecided. -/
def keptMark (flow : Flow) (written : List Char) : List Char :=
  if flow.fallback then written else []

/-- One step of the renderer over a token. -/
def feed (flow : Flow) (r : Store σ) : Token → List Char × Progress σ
  | .leaf l => (Progress.unlessElided flow (l.read lookup r).1, (l.read lookup r).2.under flow)
  | .mark (.opening guard) written span =>
    let next := Flow.opened (guard.evaluate? r.bindings)
    let r' := if flow.isOpen then
      r.warn lookup "conditional at " span " opened inside an open block" else r
    (Progress.unlessElided next (keptMark next written), r'.under next)
  | .mark .otherwise written span =>
    if flow.isOpen then
      (Progress.unlessElided flow.otherwise (keptMark flow written), r.under flow.otherwise)
    else ([], (r.warn lookup ("`" ++ "else" ++ "` at ") span " outside a conditional block").under flow)
  | .mark .closing written span =>
    if flow.isOpen then (keptMark flow written, r.under {})
    else ([], (r.warn lookup ("`" ++ "end" ++ "` at ") span " outside a conditional block").under flow)

def feedAll (p : Progress σ) : List Token → List Char × Progress σ
  | [] => ([], p)
  | t :: ts =>
    let (out, next) := feed lookup p.flow ⟨p.bindings, p.state⟩ t
    let (rest, final) := feedAll next ts
    (out ++ rest, final)

theorem feedAll_cons (p : Progress σ) (t : Token) (ts : List Token) :
    feedAll lookup p (t :: ts) =
      ((feed lookup p.flow ⟨p.bindings, p.state⟩ t).1 ++
          (feedAll lookup (feed lookup p.flow ⟨p.bindings, p.state⟩ t).2 ts).1,
        (feedAll lookup (feed lookup p.flow ⟨p.bindings, p.state⟩ t).2 ts).2) := rfl

theorem feed_plain (p : Progress σ) (cs : List Char) :
    feed lookup p.flow ⟨p.bindings, p.state⟩ (.leaf (.plain cs)) =
      (Progress.unlessElided p.flow cs, p) := rfl

theorem feedAll_append (p : Progress σ) (ts us : List Token) :
    feedAll lookup p (ts ++ us) =
      ((feedAll lookup p ts).1 ++ (feedAll lookup (feedAll lookup p ts).2 us).1,
        (feedAll lookup (feedAll lookup p ts).2 us).2) := by
  induction ts generalizing p with
  | nil => rfl
  | cons t ts ih =>
    have h := ih (feed lookup p.flow ⟨p.bindings, p.state⟩ t).2
    simp only [List.cons_append, feedAll, h, List.append_assoc]

/-- Evaluating an occurrence and placing its output is one step over its token. -/
theorem feed_ofOccurrence (text : List Char) (o : Occurrence) (p : Progress σ) :
    feed lookup p.flow ⟨p.bindings, p.state⟩ (.ofOccurrence text o) =
      (Progress.unlessElided (p.evaluate lookup o).2.flow
        (Progress.shown text o.span (p.evaluate lookup o).1), (p.evaluate lookup o).2) := by
  obtain ⟨span, d, dep?⟩ := o
  obtain ⟨flow, bindings, state⟩ := p
  cases d
  case display name =>
    cases h : bindings.get? name <;>
      simp [Token.ofOccurrence, feed, Progress.evaluate, Leaf.read, Store.under, h, Progress.shown]
  case openBlock guard =>
    cases hf : (Flow.opened (guard.evaluate? bindings)).fallback <;> cases ho : flow.isOpen <;>
      simp [Token.ofOccurrence, feed, Progress.evaluate, Progress.blockOutput, Store.under, hf, ho,
        keptMark, Progress.shown, Store.warn, Progress.warn]
  case elseBranch =>
    cases ho : flow.isOpen <;> cases hf : flow.fallback <;>
      simp [Token.ofOccurrence, feed, Progress.evaluate, Progress.inBlock, Progress.blockOutput,
        Store.under, hf, ho, keptMark, Progress.shown, Store.warn, Progress.warn,
        Progress.unlessElided]
  case closeBlock =>
    cases ho : flow.isOpen <;> cases hf : flow.fallback <;>
      simp [Token.ofOccurrence, feed, Progress.evaluate, Progress.inBlock, Progress.blockOutput,
        Store.under, hf, ho, keptMark, Progress.shown, Store.warn, Progress.warn,
        Progress.unlessElided, Flow.closed]
  all_goals
    simp [Token.ofOccurrence, feed, Progress.evaluate, Leaf.read, Store.under, Progress.shown]

/-- Over occurrences in order the renderer skips nothing, so it walks over their tokens. -/
theorem renderFrom_eq_feedAll (text : List Char) (os : List Occurrence) (cursor : Nat)
    (p : Progress σ) (h : InOrder (size text) cursor os) :
    Progress.renderFrom lookup text cursor p os = feedAll lookup p (tokensFrom text cursor os) := by
  induction os generalizing cursor p with
  | nil => simp [Progress.renderFrom, tokensFrom, feedAll_cons, feed_plain, feedAll]
  | cons o os ih =>
    obtain ⟨h1, _, h2, h3⟩ := h
    have hfits : Progress.fits text cursor o.span = true := Progress.fits_iff.mpr ⟨h1, h2⟩
    have hstep := feed_ofOccurrence lookup text o p
    have hrest := ih o.span.stop (p.evaluate lookup o).2 h3
    simp only [Progress.renderFrom, hfits, if_true, hrest, tokensFrom]
    rw [feedAll_cons, feed_plain, feedAll_cons, hstep, List.append_assoc]

/-- The flags inside the branch of an index, under the value of the block's guard. -/
def branchFlow (value? : Option Bool) (i : Nat) : Flow :=
  match value? with
  | some _ => ⟨false, true, !emits value? i⟩
  | none => ⟨true, true, false⟩

theorem opened_eq (value? : Option Bool) : Flow.opened value? = branchFlow value? 0 := by
  cases value? with
  | none => rfl
  | some v => cases v <;> rfl

theorem otherwise_branchFlow (value? : Option Bool) (i : Nat) :
    (branchFlow value? i).otherwise = branchFlow value? (i + 1) := by
  cases value? with
  | none => rfl
  | some v =>
    have hi : decide ((i + 1) % 2 = 0) = !decide (i % 2 = 0) := by
      by_cases h : i % 2 = 0
      · have h' : ¬(i + 1) % 2 = 0 := by omega
        simp [h, h']
      · have h' : (i + 1) % 2 = 0 := by omega
        simp [h, h']
    cases v <;> simp [branchFlow, Flow.otherwise, emits, hi]

theorem isOpen_branchFlow (value? : Option Bool) (i : Nat) : (branchFlow value? i).isOpen = true := by
  cases value? <;> rfl

theorem unlessElided_branchFlow (value? : Option Bool) (i : Nat) (cs : List Char) :
    Progress.unlessElided (branchFlow value? i) cs = if emits value? i then cs else [] := by
  cases value? with
  | none => simp [branchFlow, Progress.unlessElided, emits]
  | some v => cases he : emits (some v) i <;> simp [branchFlow, Progress.unlessElided, he]

theorem keptMark_branchFlow (value? : Option Bool) (i : Nat) (written : List Char) :
    keptMark (branchFlow value? i) written = if value? = none then written else [] := by
  cases value? <;> rfl

theorem unlessElided_keptMark (value? : Option Bool) (i j : Nat) (written : List Char) :
    Progress.unlessElided (branchFlow value? i) (keptMark (branchFlow value? j) written) =
      if value? = none then written else [] := by
  cases value? with
  | none => rfl
  | some v => simp [branchFlow, keptMark, Progress.unlessElided]

theorem feed_leaf (value? : Option Bool) (i : Nat) (r : Store σ) (l : Leaf) :
    feed lookup (branchFlow value? i) r (.leaf l) =
      (if emits value? i then (l.read lookup r).1 else [],
        (l.read lookup r).2.under (branchFlow value? i)) := by
  rw [← unlessElided_branchFlow]
  rfl

theorem feed_otherwise (value? : Option Bool) (i : Nat) (r : Store σ) (written : List Char)
    (span : Span) :
    feed lookup (branchFlow value? i) r (.mark .otherwise written span) =
      (if value? = none then written else [], r.under (branchFlow value? (i + 1))) := by
  rw [feed, if_pos (isOpen_branchFlow value? i), otherwise_branchFlow, unlessElided_keptMark]

theorem feedAll_under (flow : Flow) (r : Store σ) (t : Token) (ts : List Token) :
    feedAll lookup (r.under flow) (t :: ts) =
      ((feed lookup flow r t).1 ++ (feedAll lookup (feed lookup flow r t).2 ts).1,
        (feedAll lookup (feed lookup flow r t).2 ts).2) := rfl

/-- What is read from the branch of an index on, whose body is given, and where the store is
then. -/
def readInside (value? : Option Bool) (i : Nat) (r : Store σ) (inside : List Leaf × List Branch) :
    List Char × Store σ :=
  let (body, r) := readAll (Leaf.read lookup) r inside.1
  let (rest, r) := readBranches lookup value? (i + 1) r inside.2
  ((if emits value? i then body else []) ++ rest, r)

/-- The renderer inside a block, from the branch of an index on. -/
theorem feedAll_inside (value? : Option Bool) (ts : List Token)
    (h : ∀ t ∈ ts, t.endsBlock = false) (i : Nat) (r : Store σ) :
    ∃ j, feedAll lookup (r.under (branchFlow value? i)) ts =
      ((readInside lookup value? i r (splitBranches ts)).1,
        (readInside lookup value? i r (splitBranches ts)).2.under (branchFlow value? j)) := by
  induction ts generalizing i r with
  | nil => exact ⟨i, by simp [feedAll, splitBranches, readInside, readAll, readBranches]⟩
  | cons t ts ih =>
    have hts : ∀ u ∈ ts, u.endsBlock = false := fun u hu => h u (List.mem_cons_of_mem _ hu)
    have ht := h t List.mem_cons_self
    rcases t with l | ⟨m, written, span⟩
    · obtain ⟨j, hj⟩ := ih hts i (l.read lookup r).2
      refine ⟨j, ?_⟩
      rw [feedAll_under, feed_leaf, hj]
      simp only [splitBranches, readInside, readAll]
      split <;> simp
    · cases m with
      | opening g => cases ht
      | closing => cases ht
      | otherwise =>
        obtain ⟨j, hj⟩ := ih hts (i + 1) r
        refine ⟨j, ?_⟩
        rw [feedAll_under, feed_otherwise, hj]
        simp only [splitBranches, readInside, readAll, readBranches]
        simp

theorem feedAll_takeEnd (value? : Option Bool) (j : Nat) (r : Store σ) (ts : List Token)
    (h : ∀ t ∈ ts.head?, t.endsBlock = true) :
    feedAll lookup (r.under (branchFlow value? j)) ts =
      let flow := if leavesOpen ts then branchFlow value? j else {}
      ((if value? = none then (takeEnd ts).1 else []) ++
          (feedAll lookup (r.under flow) (takeEnd ts).2).1,
        (feedAll lookup (r.under flow) (takeEnd ts).2).2) := by
  rcases ts with _ | ⟨t, ts⟩
  · simp [leavesOpen, takeEnd]
  · have ht := h t rfl
    rcases t with l | ⟨m, written, span⟩
    · cases ht
    · cases m with
      | opening g => simp [leavesOpen, takeEnd]
      | otherwise => cases ht
      | closing =>
        rw [feedAll_under, feed, if_pos (isOpen_branchFlow value? j), keptMark_branchFlow]
        rfl

/-- The flags in front of tokens: they are down, or a block is left open in front of a mark
that opens another. -/
def Ready (cuts : Bool) (flow : Flow) (ts : List Token) : Prop :=
  (cuts = false ∧ flow = {}) ∨ (cuts = true ∧ flow.isOpen = true ∧
    ∀ t ∈ ts.head?, ∃ guard written span, t = .mark (.opening guard) written span)

theorem Ready.isOpen_eq {cuts : Bool} {flow : Flow} {ts : List Token} (h : Ready cuts flow ts) :
    flow.isOpen = cuts := by
  rcases h with ⟨rfl, rfl⟩ | ⟨rfl, h, _⟩
  · rfl
  · exact h

theorem Ready.flow_eq {cuts : Bool} {flow : Flow} {t : Token} {ts : List Token}
    (h : Ready cuts flow (t :: ts)) (ht : ∀ guard written span, t ≠ .mark (.opening guard) written span) :
    flow = {} := by
  rcases h with ⟨_, h⟩ | ⟨_, _, h⟩
  · exact h
  · obtain ⟨guard, written, span, he⟩ := h t rfl
    exact absurd he (ht guard written span)

theorem ready_takeEnd (value? : Option Bool) (j : Nat) (ts : List Token)
    (h : ∀ t ∈ ts.head?, t.endsBlock = true) :
    Ready (leavesOpen ts) (if leavesOpen ts then branchFlow value? j else {}) (takeEnd ts).2 := by
  rcases ts with _ | ⟨t, ts⟩
  · exact Or.inr ⟨rfl, isOpen_branchFlow value? j, fun t ht => by cases ht⟩
  · have ht := h t rfl
    rcases t with l | ⟨m, written, span⟩
    · cases ht
    · cases m with
      | opening g =>
        refine Or.inr ⟨rfl, isOpen_branchFlow value? j, fun t ht => ?_⟩
        exact ⟨g, written, span, (Option.some.inj ht).symm⟩
      | otherwise => cases ht
      | closing => exact Or.inl ⟨rfl, rfl⟩

/-- The renderer over a block, from the mark that opens it on. -/
theorem feedAll_block (flow : Flow) (r : Store σ) (guard : Guard) (written : List Char) (span : Span)
    (ts : List Token) :
    let behind := ts.dropWhile fun t => !t.endsBlock
    let block : Block := ⟨guard, span, flow.isOpen,
      branchesOf written (ts.takeWhile fun t => !t.endsBlock), (takeEnd behind).1⟩
    ∃ next, Ready (leavesOpen behind) next (takeEnd behind).2 ∧
      feedAll lookup (r.under flow) (.mark (.opening guard) written span :: ts) =
        ((block.read lookup r).1 ++
            (feedAll lookup ((block.read lookup r).2.under next) (takeEnd behind).2).1,
          (feedAll lookup ((block.read lookup r).2.under next) (takeEnd behind).2).2) := by
  intro behind block
  have hin : ∀ t ∈ ts.takeWhile (fun t => !t.endsBlock), t.endsBlock = false := by
    intro t ht
    simpa using List.mem_takeWhile_imp ht
  have hbehind : ∀ t ∈ behind.head?, t.endsBlock = true := by
    intro t ht
    have hd := List.head?_dropWhile_not (fun t : Token => !t.endsBlock) ts
    rw [Option.mem_def.mp ht] at hd
    simpa using hd
  let value? := guard.evaluate? r.bindings
  let opened := if flow.isOpen then
    r.warn lookup "conditional at " span " opened inside an open block" else r
  -- A block is its opening mark, what stands inside it, and how it ends.
  obtain ⟨j, hj⟩ := feedAll_inside lookup value? _ hin 0 opened
  have hopen : feed lookup flow r (.mark (.opening guard) written span) =
      (if value? = none then written else [], opened.under (branchFlow value? 0)) := by
    rw [feed, opened_eq, unlessElided_keptMark]
  refine ⟨_, ready_takeEnd value? j behind hbehind, ?_⟩
  have hsplit := feedAll_append lookup (opened.under (branchFlow value? 0))
    (ts.takeWhile fun t => !t.endsBlock) (ts.dropWhile fun t => !t.endsBlock)
  rw [List.takeWhile_append_dropWhile] at hsplit
  rw [feedAll_under, hopen, hsplit, hj, feedAll_takeEnd lookup value? j _ behind hbehind]
  simp only [block, Block.read, branchesOf, readBranches, readInside, List.append_assoc]
  rfl

theorem feedAll_eq_readAll (cuts : Bool) (ts : List Token) (flow : Flow) (r : Store σ)
    (h : Ready cuts flow ts) :
    ∃ final, feedAll lookup (r.under flow) ts =
      ((readAll (Node.read lookup) r (ofTokens cuts ts)).1,
        (readAll (Node.read lookup) r (ofTokens cuts ts)).2.under final) := by
  fun_induction ofTokens cuts ts generalizing flow r with
  | case1 => exact ⟨flow, rfl⟩
  | case2 cuts l ts ih =>
    obtain rfl := h.flow_eq (fun _ _ _ he => by cases he)
    obtain ⟨final, hf⟩ := ih {} (l.read lookup r).2 (Or.inl ⟨rfl, rfl⟩)
    refine ⟨final, ?_⟩
    rw [feedAll_under, feed, hf]
    rfl
  | case3 cuts written span ts ih =>
    obtain rfl := h.flow_eq (fun _ _ _ he => by cases he)
    obtain ⟨final, hf⟩ := ih {} _ (Or.inl ⟨rfl, rfl⟩)
    exact ⟨final, hf⟩
  | case4 cuts written span ts ih =>
    obtain rfl := h.flow_eq (fun _ _ _ he => by cases he)
    obtain ⟨final, hf⟩ := ih {} _ (Or.inl ⟨rfl, rfl⟩)
    exact ⟨final, hf⟩
  | case5 cuts guard written span ts branches behind ih =>
    obtain ⟨next, hready, hb⟩ := feedAll_block lookup flow r guard written span ts
    obtain ⟨final, hf⟩ := ih next _ hready
    refine ⟨final, ?_⟩
    rw [hb, hf, h.isOpen_eq]
    rfl

theorem render_eq_read_of_inOrder (text : String) (os : List Occurrence) (s : σ)
    (h : InOrder (size text.toList) 0 os) : render lookup text os s = read lookup (ofText text os) s := by
  have hr := renderFrom_eq_feedAll lookup text.toList os 0 { state := s } h
  obtain ⟨final, hf⟩ := feedAll_eq_readAll lookup false (tokensFrom text.toList 0 os) {}
    { state := s } (Or.inl ⟨rfl, rfl⟩)
  simp only [render, hr, read, ofText]
  have hu : (Progress.mk {} [] s : Progress σ) = Store.under { state := s } {} := rfl
  rw [hu, hf]
  rfl

end Document

/-- Rendering a text of some kind is reading the document of its blocks: the same output, and
the same calls and warnings in the same order. -/
theorem render_occurrences_eq_read {σ : Type} (lookup : Lookup σ) (kind : Kind) (text : String)
    (s : σ) :
    render lookup text (occurrences kind text) s =
      Document.read lookup (Document.ofText text (occurrences kind text)) s :=
  Document.render_eq_read_of_inOrder lookup text _ s (occurrences_inOrder kind text)

end AssetCompiler
