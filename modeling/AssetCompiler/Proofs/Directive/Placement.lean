import AssetCompiler.Proofs.Directive.Agree
import AssetCompiler.Proofs.Directive.Effects
import AssetCompiler.Proofs.Directive.Tokens

/-! # Placing any occurrences

A rendering can be given occurrences that overlap, repeat or lie outside the text. It places those that
are chosen greedily from the left, and of the others it does nothing but warn. Every part of the text
that it cuts lies in the text and holds whole characters.
-/
namespace AssetCompiler

open Text (Span size slice dropOctets takeOctets)

namespace Text

variable {cs : List Char} {a b : Nat}

/-- A position between two characters of a text, or at one of its ends. -/
def IsBoundary (cs : List Char) (n : Nat) : Prop := ∃ front back, cs = front ++ back ∧ size front = n

theorem isBoundary_iff : IsBoundary cs a ↔ size (takeOctets a cs) = a := by
  constructor
  · rintro ⟨front, back, rfl, rfl⟩
    rw [takeOctets_size_append]
  · exact fun h => ⟨_, _, (takeOctets_append_dropOctets a cs).symm, h⟩

instance (cs : List Char) (n : Nat) : Decidable (IsBoundary cs n) := decidable_of_iff' _ isBoundary_iff

theorem isBoundary_zero (cs : List Char) : IsBoundary cs 0 := ⟨[], cs, rfl, rfl⟩

theorem isBoundary_size (cs : List Char) : IsBoundary cs (size cs) := ⟨cs, [], (List.append_nil cs).symm, rfl⟩

theorem isBoundary_append (front back : List Char) : IsBoundary (front ++ back) (size front) :=
  ⟨front, back, rfl, rfl⟩

theorem IsBoundary.le_size (h : IsBoundary cs a) : a ≤ size cs := by
  obtain ⟨front, back, rfl, rfl⟩ := h
  rw [size_append]
  exact Nat.le_add_right ..

/-- Two positions between characters cut a text in three. -/
theorem IsBoundary.exists_split (ha : IsBoundary cs a) (hb : IsBoundary cs b) (hab : a ≤ b) :
    ∃ front middle back, cs = front ++ (middle ++ back) ∧ size front = a ∧ size (front ++ middle) = b := by
  obtain ⟨front, behind, rfl, rfl⟩ := ha
  obtain ⟨front', back, hcs, rfl⟩ := hb
  rcases List.append_eq_append_iff.mp hcs with ⟨middle, rfl, rfl⟩ | ⟨extra, rfl, rfl⟩
  · exact ⟨front, middle, back, rfl, rfl, rfl⟩
  · have hextra : size extra = 0 := by
      rw [size_append] at hab
      omega
    refine ⟨front' ++ extra, [], behind, rfl, rfl, ?_⟩
    simp [size_append, hextra]

/-- The part of a text at a span, unless the span ends before it starts, leaves the text or cuts a
character. -/
def slice? (s : Span) (cs : List Char) : Option (List Char) :=
  if s.start ≤ s.stop ∧ IsBoundary cs s.start ∧ IsBoundary cs s.stop then some (slice s cs) else none

theorem slice?_of_isBoundary (ha : IsBoundary cs a) (hb : IsBoundary cs b) (hab : a ≤ b) :
    slice? ⟨a, b⟩ cs = some (slice ⟨a, b⟩ cs) :=
  if_pos ⟨hab, ha, hb⟩

theorem slice_to_size (h : IsBoundary cs a) : slice ⟨a, size cs⟩ cs = dropOctets a cs := by
  obtain ⟨front, back, rfl, rfl⟩ := h
  have hwidth : size (front ++ back) - size front = size back := by
    rw [size_append]
    omega
  have htake := takeOctets_size_append back []
  rw [List.append_nil] at htake
  rw [slice, hwidth, dropOctets_size_append, htake]

/-- The span of an occurrence as its maker has to choose it: it does not end before it starts, and an end
that lies in the text does not cut a character. -/
structure Span.IsFair (cs : List Char) (s : Span) : Prop where
  le : s.start ≤ s.stop
  start : s.start ≤ size cs → IsBoundary cs s.start
  stop : s.stop ≤ size cs → IsBoundary cs s.stop

instance (cs : List Char) (s : Span) : Decidable (s.IsFair cs) :=
  decidable_of_iff (s.start ≤ s.stop ∧ (s.start ≤ size cs → IsBoundary cs s.start) ∧
    (s.stop ≤ size cs → IsBoundary cs s.stop)) ⟨fun h => ⟨h.1, h.2.1, h.2.2⟩, fun h => ⟨h.1, h.2, h.3⟩⟩

end Text

/-- The occurrences that are chosen from the left: each starts at or behind the end of the last one that
was chosen, and ends in the text. -/
def chosenFrom (limit cursor : Nat) : List Occurrence → List Occurrence
  | [] => []
  | o :: os =>
    if cursor ≤ o.span.start ∧ o.span.stop ≤ limit then o :: chosenFrom limit o.span.stop os
    else chosenFrom limit cursor os

theorem InOrder.chosenFrom_eq {limit cursor : Nat} {os : List Occurrence} (h : InOrder limit cursor os) :
    chosenFrom limit cursor os = os := by
  induction os generalizing cursor with
  | nil => rfl
  | cons o os ih =>
    obtain ⟨hstart, -, hstop, hrest⟩ := h
    rw [chosenFrom, if_pos ⟨hstart, hstop⟩, ih hrest]

namespace Progress

variable {σ : Type}

/-- A part of the output that is cut from the text, unless it is held back. -/
def unlessElided? (f : Flow) (cut? : Option (List Char)) : Option (List Char) :=
  if f.elide then some [] else cut?

def shown? (text : List Char) (span : Span) : Output → Option (List Char)
  | .text s => some s.toList
  | .deferred => Text.slice? span text

/-- Renders as `renderFrom` does, but breaks off at a cut that is not sound. -/
def renderFrom? (lookup : Lookup σ) (text : List Char) (cursor : Nat) (p : Progress σ) :
    List Occurrence → Option (List Char × Progress σ)
  | [] => do
    let tail ← unlessElided? p.flow (Text.slice? ⟨cursor, size text⟩ text)
    some (tail, p)
  | o :: os =>
    if fits text cursor o.span then do
      let gap ← unlessElided? p.flow (Text.slice? ⟨cursor, o.span.start⟩ text)
      let (output, next) := p.evaluate lookup o
      let here ← unlessElided? next.flow (shown? text o.span output)
      let (rest, final) ← renderFrom? lookup text o.span.stop next os
      some (gap ++ here ++ rest, final)
    else
      let warned := p.warn lookup "skipping expression at " o.span ": overlaps previous output"
      renderFrom? lookup text cursor warned os

variable (lookup : Lookup σ) {text : List Char} {cursor : Nat} {p : Progress σ} {o : Occurrence}
  {os : List Occurrence}

theorem unlessElided?_some (f : Flow) (cs : List Char) :
    unlessElided? f (some cs) = some (unlessElided f cs) := by
  unfold unlessElided? unlessElided
  split <;> rfl

theorem renderFrom_of_not_fits (h : fits text cursor o.span = false) (p : Progress σ) (os : List Occurrence) :
    renderFrom lookup text cursor p (o :: os) = renderFrom lookup text cursor
      (p.warn lookup "skipping expression at " o.span ": overlaps previous output") os := by
  rw [renderFrom, h]
  rfl

theorem chosenFrom_of_fits (h : fits text cursor o.span = true) (os : List Occurrence) :
    chosenFrom (size text) cursor (o :: os) = o :: chosenFrom (size text) o.span.stop os :=
  if_pos (fits_iff.mp h)

theorem chosenFrom_of_not_fits (h : fits text cursor o.span = false) (os : List Occurrence) :
    chosenFrom (size text) cursor (o :: os) = chosenFrom (size text) cursor os :=
  if_neg fun hfits => Bool.eq_false_iff.mp h (fits_iff.mpr hfits)

/-- No cut of a rendering leaves the text or breaks a character. -/
theorem renderFrom?_eq_some (hcursor : Text.IsBoundary text cursor)
    (hfair : ∀ o ∈ os, o.span.IsFair text) (p : Progress σ) :
    renderFrom? lookup text cursor p os = some (renderFrom lookup text cursor p os) := by
  induction os generalizing cursor p with
  | nil =>
    have htail := Text.slice?_of_isBoundary hcursor (Text.isBoundary_size text) hcursor.le_size
    rw [renderFrom?, htail, unlessElided?_some, Text.slice_to_size hcursor]
    rfl
  | cons o os ih =>
    have hfair' := fun x hx => hfair x (List.mem_cons_of_mem o hx)
    obtain ⟨hle, hstart, hstop⟩ := hfair o List.mem_cons_self
    cases hfits : fits text cursor o.span with
    | false =>
      rw [renderFrom_of_not_fits lookup hfits, renderFrom?, hfits]
      exact ih hcursor hfair' _
    | true =>
      obtain ⟨hbehind, hinside⟩ := fits_iff.mp hfits
      have hto := hstart (Nat.le_trans hle hinside)
      have hend := hstop hinside
      have hgap := Text.slice?_of_isBoundary hcursor hto hbehind
      have hshown (output : Output) : shown? text o.span output = some (shown text o.span output) := by
        cases output with
        | text s => rfl
        | deferred => exact Text.slice?_of_isBoundary hto hend hle
      have hrest := ih hend hfair' (p.evaluate lookup o).2
      simp only [renderFrom?, hfits, if_true, hgap, hshown, unlessElided?_some, hrest,
        renderFrom_of_fits hfits]
      rfl

/-- An occurrence at the end that is not chosen adds one warning and changes nothing else. -/
theorem renderFrom_concat_of_skipped
    (h : chosenFrom (size text) cursor (os ++ [o]) = chosenFrom (size text) cursor os) (p : Progress σ) :
    renderFrom lookup text cursor p (os ++ [o]) = ((renderFrom lookup text cursor p os).1,
      (renderFrom lookup text cursor p os).2.warn lookup "skipping expression at " o.span
        ": overlaps previous output") := by
  induction os generalizing cursor p with
  | nil =>
    cases hfits : fits text cursor o.span with
    | true =>
      rw [List.nil_append, chosenFrom_of_fits hfits] at h
      cases h
    | false =>
      rw [List.nil_append, renderFrom_of_not_fits lookup hfits]
      rfl
  | cons x os ih =>
    rw [List.cons_append] at h ⊢
    cases hfits : fits text cursor x.span with
    | true =>
      rw [chosenFrom_of_fits hfits, chosenFrom_of_fits hfits] at h
      rw [renderFrom_of_fits hfits, renderFrom_of_fits hfits, ih (List.cons.inj h).2]
    | false =>
      rw [chosenFrom_of_not_fits hfits, chosenFrom_of_not_fits hfits] at h
      rw [renderFrom_of_not_fits lookup hfits, renderFrom_of_not_fits lookup hfits, ih h]

end Progress

namespace Journal

variable {σ : Type}

/-- States of a collaborator that differ in their warnings at most. -/
def Alike (j k : Journal σ) : Prop := j.state = k.state ∧ j.calls = k.calls

theorem Alike.agree (answer : Occurrence → σ → String × σ) (o : Occurrence) :
    (journal answer).Agree (journal answer) Alike o o where
  span := rfl
  directive := rfl
  answer := by
    rintro ⟨state, calls, _⟩ ⟨_, _, _⟩ ⟨rfl, rfl⟩
    exact ⟨rfl, rfl, rfl⟩

end Journal

namespace Progress

variable {σ : Type} (answer : Occurrence → σ → String × σ) {p q : Progress (Journal σ)}

theorem Beside.effect_eq (h : Beside Journal.Alike p q) : q.effect = p.effect := by
  unfold effect
  rw [h.bindings, h.state.1, h.state.2]

/-- What is chosen renders as the whole list does, warnings apart. -/
theorem Beside.renderFrom_chosenFrom (h : Beside Journal.Alike p q) (text : List Char) (cursor : Nat)
    (os : List Occurrence) :
    let run := Progress.renderFrom (journal answer) text cursor
    let chosen := chosenFrom (size text) cursor os
    (run q chosen).1 = (run p os).1 ∧ Beside Journal.Alike (run p os).2 (run q chosen).2 := by
  induction os generalizing cursor p q with
  | nil =>
    dsimp only [chosenFrom, Progress.renderFrom]
    rw [h.flow]
    exact ⟨rfl, h⟩
  | cons o os ih =>
    dsimp only at ih ⊢
    cases hfits : fits text cursor o.span with
    | true =>
      obtain ⟨hout, hnext⟩ := h.evaluate (fun _ _ _ hjk => hjk) (Journal.Alike.agree answer o)
      obtain ⟨hrest, hfinal⟩ := ih hnext o.span.stop
      rw [chosenFrom_of_fits hfits, renderFrom_of_fits hfits, renderFrom_of_fits hfits, hout, h.flow,
        hnext.flow, hrest]
      exact ⟨rfl, hfinal⟩
    | false =>
      have hwarned : Beside Journal.Alike (p.warn (journal answer) "skipping expression at " o.span
          ": overlaps previous output") q := ⟨h.flow, h.bindings, h.state⟩
      rw [chosenFrom_of_not_fits hfits, renderFrom_of_not_fits _ hfits]
      exact ih hwarned cursor

end Progress

/-- A directive of a text lies in it between two characters. -/
theorem isFair_of_mem_occurrences {kind : Kind} {text : String} {o : Occurrence}
    (h : o ∈ occurrences kind text) : o.span.IsFair text.toList := by
  obtain ⟨-, f, front, u, back, htext, -, -, hspan⟩ := stands_of_mem_scanFrom [] text.toList h
  rw [List.nil_append] at htext
  have hstop := Text.isBoundary_append (front ++ u) back
  rw [List.append_assoc, Text.size_append] at hstop
  rw [htext, hspan]
  exact ⟨Nat.le_add_right .., fun _ => Text.isBoundary_append front (u ++ back), fun _ => hstop⟩

/-- Rendering is safe and greedy. Of occurrences that may overlap, repeat or leave the text, a rendering
cuts the text soundly and does what it does with those chosen from the left: the same output, flags,
bindings and calls. An occurrence that is not chosen adds one warning and changes nothing else. All
directives of a text are chosen. -/
theorem render_eq_render_chosen {σ : Type} (answer : Occurrence → σ → String × σ) (text : String)
    (os : List Occurrence) (s : σ) (hfair : ∀ o ∈ os, o.span.IsFair text.toList) :
    let start : Progress (Journal σ) := { state := { state := s } }
    let run := Progress.renderFrom (journal answer) text.toList 0 start
    let chosen := chosenFrom (size text.toList) 0
    Progress.renderFrom? (journal answer) text.toList 0 start os = some (run os) ∧
      (render (journal answer) text os start.state).1 =
        (render (journal answer) text (chosen os) start.state).1 ∧
      (run os).2.flow = (run (chosen os)).2.flow ∧ (run os).2.effect = (run (chosen os)).2.effect ∧
      (∀ front o, chosen (front ++ [o]) = chosen front → run (front ++ [o]) = ((run front).1,
        (run front).2.warn (journal answer) "skipping expression at " o.span ": overlaps previous output")) ∧
      ∀ kind, chosen (occurrences kind text) = occurrences kind text := by
  intro start run chosen
  have hstart : Progress.Beside Journal.Alike start start := ⟨rfl, rfl, rfl, rfl⟩
  obtain ⟨hout, hfinal⟩ := hstart.renderFrom_chosenFrom answer text.toList 0 os
  refine ⟨?_, (congrArg String.ofList hout).symm, hfinal.flow.symm, hfinal.effect_eq.symm, ?_, ?_⟩
  · exact Progress.renderFrom?_eq_some _ (Text.isBoundary_zero _) hfair start
  · exact fun front o h => Progress.renderFrom_concat_of_skipped _ h start
  · exact fun kind => (occurrences_inOrder kind text).chosenFrom_eq

/-- A declaration is found a second time from its second character on, the display behind it twice, and
an include runs out of the text. -/
theorem render_eq_render_chosen_overlapping :
    let text := "ä[% set a = 1 %][%= a %]!"
    let declaration (start : Nat) (value : Operand) : Occurrence := ⟨⟨start, 17⟩, .declare "a" value, none⟩
    let shown : Occurrence := ⟨⟨17, 25⟩, .display "a", none⟩
    let os := [declaration 2 (.flag true), declaration 3 (.flag false), shown, shown,
      ⟨⟨25, 99⟩, .embed "x" false, none⟩]
    let answer (_ : Occurrence) (s : Unit) := ("no", s)
    (chosenFrom (size text.toList) 0 os).map Occurrence.span = [⟨2, 17⟩, ⟨17, 25⟩] ∧
      (∀ o ∈ os, o.span.IsFair text.toList) ∧
      (render (journal answer) text os { state := () }).1 = "ätrue!" := by
  intro text declaration shown os answer
  have hfair : ∀ o ∈ os, o.span.IsFair text.toList := by decide +kernel
  have hrendered := (render_eq_render_chosen answer text os () hfair).2.1
  exact ⟨by decide +kernel, hfair, hrendered.trans (by decide +kernel)⟩

end AssetCompiler
