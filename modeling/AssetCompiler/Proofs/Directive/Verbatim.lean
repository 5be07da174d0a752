import AssetCompiler.Proofs.Directive.Outline
import AssetCompiler.Proofs.Directive.Placement

/-! # Texts that decide nothing

Where a text declares no variable, all of its guards ask for one and every else and end stands in a
block, no directive of a block can be decided. All of them are kept where they stand, and between them
the text is copied: the rendering is the text with its lookups replaced.
-/
namespace AssetCompiler

open Text (Span size slice dropOctets takeOctets IsBoundary)

namespace Text

variable {cs : List Char} {a b c : Nat}

theorem takeOctets_size_add (front cs : List Char) (n : Nat) :
    takeOctets (size front + n) (front ++ cs) = front ++ takeOctets n cs := by
  have hall := takeOctets_append_dropOctets (size front + n) (front ++ cs)
  rw [dropOctets_size_add] at hall
  refine List.append_cancel_right (hall.trans ?_)
  rw [List.append_assoc, takeOctets_append_dropOctets]

theorem slice_append_dropOctets (ha : IsBoundary cs a) (hb : IsBoundary cs b) (hab : a ≤ b) :
    slice ⟨a, b⟩ cs ++ dropOctets b cs = dropOctets a cs := by
  obtain ⟨front, middle, back, rfl, rfl, rfl⟩ := ha.exists_split hb hab
  have hdrop := dropOctets_size_append (front ++ middle) back
  rw [List.append_assoc] at hdrop
  rw [slice_between, hdrop, dropOctets_size_append]

/-- Two parts of a text that meet between two characters are one. -/
theorem slice_append_slice (ha : IsBoundary cs a) (hb : IsBoundary cs b) (hab : a ≤ b) (hbc : b ≤ c) :
    slice ⟨a, b⟩ cs ++ slice ⟨b, c⟩ cs = slice ⟨a, c⟩ cs := by
  obtain ⟨front, middle, back, rfl, rfl, rfl⟩ := ha.exists_split hb hab
  have hdrop := dropOctets_size_append (front ++ middle) back
  rw [List.append_assoc] at hdrop
  have hwidth : c - size front = size middle + (c - size (front ++ middle)) := by
    rw [size_append] at hbc ⊢
    omega
  rw [slice_between, slice, slice, hdrop, dropOctets_size_append, hwidth, takeOctets_size_add]

end Text

/-- Whether the directive leaves everything open where nothing is declared: it declares nothing itself, a
guard asks for some variable, and an else or end stands in an open block. -/
def Directive.leavesUndecided (isOpen : Bool) : Directive → Bool
  | declare .. => false
  | openBlock guard => !guard.names.isEmpty
  | elseBranch | closeBlock => isOpen
  | _ => true

/-- Whether no directive decides anything. A block is open behind its opening, up to the next end. -/
def isUndecided (isOpen : Bool) : List Occurrence → Bool
  | [] => true
  | o :: os => o.directive.leavesUndecided isOpen && isUndecided (o.directive.isOpenBehind isOpen) os

/-- The text from a position on, where each call's answer stands in place of what it was called for. -/
def filledFrom (text : List Char) (cursor : Nat) : List (Occurrence × String) → List Char
  | [] => dropOctets cursor text
  | (o, reply) :: calls =>
    slice ⟨cursor, o.span.start⟩ text ++ reply.toList ++ filledFrom text o.span.stop calls

theorem Guard.evaluate?_nil {guard : Guard} (h : guard.names.isEmpty = false) :
    guard.evaluate? [] = none := by
  cases guard with
  | holds o => cases o <;> first | rfl | cases h
  | equal l r => cases l <;> cases r <;> first | rfl | cases h
  | differ l r => cases l <;> cases r <;> first | rfl | cases h

namespace Progress

variable {σ : Type}

/-- The flags in front of a directive and the bindings where nothing was decided. -/
structure Undecided (isOpen : Bool) (p : Progress σ) : Prop where
  flow : p.flow = ⟨isOpen, isOpen, false⟩
  bindings : p.bindings = []

variable {p : Progress σ} {o : Occurrence} {isOpen : Bool}

theorem Undecided.unlessElided_eq (h : Undecided isOpen p) (cs : List Char) :
    unlessElided p.flow cs = cs := by
  rw [h.flow]
  rfl

/-- Nothing is decided by one directive: it is kept, unless it is a lookup. -/
theorem Undecided.evaluate (h : Undecided isOpen p) (lookup : Lookup σ)
    (ho : o.directive.leavesUndecided isOpen = true) :
    Undecided (o.directive.isOpenBehind isOpen) (p.evaluate lookup o).2 ∧
      (o.directive.isLookup = false → (p.evaluate lookup o).1 = .deferred) := by
  obtain ⟨span, d, dep?⟩ := o
  obtain ⟨flow, bindings, state⟩ := p
  obtain ⟨rfl, rfl⟩ := h
  cases d with
  | declare name value => cases ho
  | display name => exact ⟨⟨rfl, rfl⟩, fun _ => rfl⟩
  | openBlock guard =>
    have hguard : guard.evaluate? [] = none := Guard.evaluate?_nil (Bool.not_eq_true' _ ▸ ho)
    simp only [Progress.evaluate, hguard]
    refine ⟨⟨rfl, ?_⟩, fun _ => rfl⟩
    split <;> rfl
  | elseBranch =>
    obtain rfl : isOpen = true := ho
    exact ⟨⟨rfl, rfl⟩, fun _ => rfl⟩
  | closeBlock =>
    obtain rfl : isOpen = true := ho
    exact ⟨⟨rfl, rfl⟩, fun _ => rfl⟩
  | _ =>
    refine ⟨⟨rfl, rfl⟩, fun hlookup => ?_⟩
    cases hlookup

end Progress

/-- Text up to a position in front of all calls is copied. -/
theorem slice_append_filledFrom {text : List Char} {a b : Nat} {calls : List (Occurrence × String)}
    (ha : IsBoundary text a) (hb : IsBoundary text b) (hab : a ≤ b)
    (horder : InOrder (size text) b (calls.map Prod.fst)) :
    slice ⟨a, b⟩ text ++ filledFrom text b calls = filledFrom text a calls := by
  cases calls with
  | nil => exact Text.slice_append_dropOctets ha hb hab
  | cons call calls =>
    have hpart := Text.slice_append_slice ha hb hab horder.1
    rw [filledFrom, filledFrom, ← hpart]
    simp only [List.append_assoc]

namespace Progress

variable {σ : Type} {text : List Char} {p : Progress (Journal σ)}

/-- Where nothing is decided the output is the text with its lookups replaced by their answers. -/
theorem Undecided.renderFrom (answer : Occurrence → σ → String × σ) {isOpen : Bool} {cursor : Nat}
    {os : List Occurrence} (h : Undecided isOpen p) (hcursor : IsBoundary text cursor)
    (horder : InOrder (size text) cursor os) (hfair : ∀ o ∈ os, o.span.IsFair text)
    (hos : isUndecided isOpen os = true) :
    ∃ calls, calls.map Prod.fst = os.filter (fun o => o.directive.isLookup) ∧
      (Progress.renderFrom (journal answer) text cursor p os).2.state.calls = p.state.calls ++ calls ∧
      (Progress.renderFrom (journal answer) text cursor p os).1 = filledFrom text cursor calls := by
  induction os generalizing isOpen cursor p with
  | nil => exact ⟨[], rfl, (List.append_nil _).symm, h.unlessElided_eq _⟩
  | cons o os ih =>
    obtain ⟨hbehind, hlen, hinside, horder'⟩ := horder
    obtain ⟨ho, hos'⟩ := Bool.and_eq_true_iff.mp hos
    obtain ⟨-, hstart, hstop⟩ := hfair o List.mem_cons_self
    have hto := hstart (Nat.le_trans hlen hinside)
    have hend := hstop hinside
    obtain ⟨hnext, hdeferred⟩ := h.evaluate (journal answer) ho
    obtain ⟨calls, hlookups, hcalls, hout⟩ := ih hnext hend horder'
      (fun x hx => hfair x (List.mem_cons_of_mem o hx)) hos'
    have hfits : fits text cursor o.span = true := fits_iff.mpr ⟨hbehind, hinside⟩
    have heffect := p.effect_evaluate answer o
    rw [renderFrom_of_fits hfits, h.unlessElided_eq, hnext.unlessElided_eq, hcalls, hout]
    cases hlookup : o.directive.isLookup with
    | true =>
      have hcall := Effect.calls_after_of_lookup answer p.effect hlookup
      rw [← heffect] at hcall
      refine ⟨(o, (answer o p.state.state).1) :: calls, ?_, ?_, ?_⟩
      · simp [hlookup, hlookups]
      · exact (congrArg (· ++ calls) hcall).trans (List.append_assoc ..)
      · rw [evaluate_lookup hlookup]
        rfl
    | false =>
      have hcall := Effect.calls_after_of_not_lookup answer p.effect hlookup
      rw [← heffect] at hcall
      have hrest : InOrder (size text) o.span.stop (calls.map Prod.fst) :=
        hlookups ▸ horder'.sublist List.filter_sublist
      refine ⟨calls, ?_, congrArg (· ++ calls) hcall, ?_⟩
      · simp [hlookup, hlookups]
      · rw [hdeferred hlookup, shown, Text.slice_append_slice hcursor hto hbehind hlen]
        exact slice_append_filledFrom hcursor hend (Nat.le_trans hbehind hlen) hrest

end Progress

/-- Full deferral loses nothing. Where a text decides nothing, each of its lookups is called once, and the
rendering is the text with the answers in place of the lookups. Without lookups it is the text itself,
and so is every later rendering. -/
theorem render_of_isUndecided {σ : Type} (answer : Occurrence → σ → String × σ) (kind : Kind) (text : String)
    (s : σ) (h : isUndecided false (occurrences kind text) = true) :
    let os := occurrences kind text
    let rendered := render (journal answer) text os { state := s }
    rendered.2.calls.map Prod.fst = os.filter (fun o => o.directive.isLookup) ∧
      rendered.1 = String.ofList (filledFrom text.toList 0 rendered.2.calls) ∧
      ((∀ o ∈ os, o.directive.isLookup = false) → rendered.1 = text ∧
        ∀ j, (render (journal answer) rendered.1 (occurrences kind rendered.1) j).1 = rendered.1) := by
  intro os rendered
  have hrun (j : Journal σ) := Progress.Undecided.renderFrom answer (p := { state := j }) ⟨rfl, rfl⟩
    (Text.isBoundary_zero _) (occurrences_inOrder kind text) (fun o ho => isFair_of_mem_occurrences ho) h
  obtain ⟨calls, hlookups, hcalls, hout⟩ := hrun { state := s }
  obtain rfl : rendered.2.calls = calls := hcalls
  refine ⟨hlookups, congrArg String.ofList hout, fun hnone => ?_⟩
  have hsame (j : Journal σ) : (render (journal answer) text os j).1 = text := by
    obtain ⟨calls, hlookups, -, hout⟩ := hrun j
    have hempty : os.filter (fun o => o.directive.isLookup) = [] := by simpa using hnone
    obtain rfl := List.map_eq_nil_iff.mp (hlookups.trans hempty)
    rw [filledFrom, dropOctets] at hout
    exact (congrArg String.ofList hout).trans String.ofList_toList
  have htext : rendered.1 = text := hsame _
  rw [htext]
  exact ⟨rfl, hsame⟩

/-- A block is opened in another, has two elses, and the last one is never closed. -/
theorem render_of_isUndecided_reopened :
    let text := "[% if a %]ä[%= image_url a.png %][% if \"x\" == b %][% else %][% else %][% end %][%= z %]" ++
      "[% if c %][ greeting ]!"
    let answer (_ : Occurrence) (s : String) := (s, s ++ "+")
    isUndecided false (occurrences .markup text) = true ∧
      (render (journal answer) text (occurrences .markup text) { state := "it" }).1 =
        "[% if a %]äit[% if \"x\" == b %][% else %][% else %][% end %][%= z %][% if c %]it+!" := by
  intro text answer
  have h : isUndecided false (occurrences .markup text) = true := by decide +kernel
  exact ⟨h, (render_of_isUndecided answer .markup text "it" h).2.1.trans (by decide +kernel)⟩

end AssetCompiler
