import AssetCompiler.Proofs.Directive.Staged

/-! # Finishing deferred output

Declarations in front of a text reach all of its directives, and declarations in front of its
rendering reach those that were kept. Both come to the same text if no directive was kept that asks
for a variable which the text declares in front of it: the rendering holds no trace of such a
declaration.
-/
namespace AssetCompiler

open Text (Span size slice)

namespace Progress

variable {σ : Type} (lookup : Lookup σ)

/-- Where a directive stands shows in nothing but warnings. -/
theorem evaluate_shift (k : Nat) (p : Progress σ) (o : Occurrence)
    (hlookup : o.directive.isLookup = false) (hstands : o.directive.mayStand p.flow.isOpen = true) :
    p.evaluate lookup (o.shift k) = p.evaluate lookup o := by
  obtain ⟨span, d, dep?⟩ := o
  obtain ⟨f, b, s⟩ := p
  dsimp only at hlookup hstands
  cases d with
  | openBlock guard =>
    have hopen : f.isOpen = false := by simpa [Directive.mayStand] using hstands
    simp [evaluate, Occurrence.shift, hopen]
  | elseBranch | closeBlock =>
    have hopen : f.isOpen = true := hstands
    simp [evaluate, inBlock, Occurrence.shift, hopen]
  | declare name value | display name => rfl
  | _ => cases hlookup

theorem renderFrom_shift (front text : List Char) (cursor : Nat) (p : Progress σ)
    (os : List Occurrence) (horder : InOrder (size text) cursor os)
    (hlookup : ∀ o ∈ os, o.directive.isLookup = false)
    (hunnested : isUnnested p.flow.isOpen os = true) :
    renderFrom lookup (front ++ text) (size front + cursor) p (os.map (.shift (size front))) =
      renderFrom lookup text cursor p os := by
  induction os generalizing cursor p with
  | nil => simp [renderFrom, Text.dropOctets_size_add]
  | cons o os ih =>
    obtain ⟨hbehind, -, hinside, horder'⟩ := horder
    obtain ⟨hstands, hunnested'⟩ := Bool.and_eq_true_iff.mp hunnested
    have hfits : fits text cursor o.span = true := fits_iff.mpr ⟨hbehind, hinside⟩
    have hfits' : fits (front ++ text) (size front + cursor) (o.shift (size front)).span = true := by
      simp [fits, Occurrence.shift, Text.size_append, hbehind, hinside]
    have heval := evaluate_shift lookup (size front) p o (hlookup o List.mem_cons_self) hstands
    have hshown (output : Output) : shown (front ++ text) (o.shift (size front)).span output =
        shown text o.span output := by
      cases output with
      | text s => rfl
      | deferred => exact Text.slice_size_add front text _ _
    rw [← Staged.evaluate_isOpen lookup p o] at hunnested'
    have hrest := ih o.span.stop (p.evaluate lookup o).2 horder'
      (fun x hx => hlookup x (List.mem_cons_of_mem o hx)) hunnested'
    have hgap := Text.slice_size_add front text cursor o.span.start
    rw [List.map_cons, renderFrom_of_fits hfits', renderFrom_of_fits hfits, heval, hshown]
    simp only [Occurrence.shift] at hrest ⊢
    rw [hrest, hgap]

theorem deferralsFrom_add (text : List Char) (k cursor reached : Nat) (p : Progress σ)
    (os : List Occurrence) :
    deferralsFrom lookup text cursor (k + reached) p os =
      (deferralsFrom lookup text cursor reached p os).map
        fun d => { d with occurrence := d.occurrence.shift k } := by
  induction os generalizing cursor reached p with
  | nil => rfl
  | cons o os ih =>
    unfold deferralsFrom
    split
    · dsimp only
      rw [Nat.add_assoc k, Nat.add_assoc k, ih, List.map_append]
      congr 1
      split <;> rfl
    · exact ih ..

end Progress

deriving instance DecidableEq for Operand, Guard, Directive, Occurrence

def Directive.declared? : Directive → Option String
  | declare name _ => some name
  | _ => none

/-- A directive was kept without a declaration in front of it for a variable that it asks for. -/
def Deferral.IsForeign (d : Deferral) : Prop :=
  ∀ n ∈ d.occurrence.directive.names, d.bindings.bound? n = none

instance (d : Deferral) : Decidable d.IsForeign :=
  inferInstanceAs (Decidable (∀ n ∈ d.occurrence.directive.names, d.bindings.bound? n = none))

variable {σ : Type}

/-- Rendering a text behind declarations is rendering its directives under what is declared. -/
theorem render_behind (lookup : Lookup σ) {kind : Kind} (hkind : kind ≠ .image)
    {declarations : String} {b : Bindings} (h : Preamble declarations.toList b) (text : String)
    (s : σ) :
    render lookup (declarations ++ text) (occurrences kind (declarations ++ text)) s =
      (Progress.renderFrom lookup (declarations.toList ++ text.toList) (size declarations.toList)
        { bindings := b, state := s }
        ((occurrences kind text).map (.shift (size declarations.toList)))).map
          String.ofList Progress.state := by
  have hpassed := h.renderFrom_eq lookup hkind [] text.toList { state := s }
  have hmoved := scanFrom_add (Form.ofKind kind) (size declarations.toList) 0 text.toList
  simp only [List.nil_append, Text.size, List.append_nil] at hpassed
  rw [Nat.add_zero] at hmoved
  rw [hmoved] at hpassed
  simp only [render, occurrences, String.toList_append, hpassed]
  rfl

theorem render_image (lookup : Lookup σ) (text : String) (s : σ) :
    render lookup text (occurrences .image text) s = (text, s) := by
  have hnone (position : Nat) (cs : List Char) : scanFrom [] position cs = [] := by
    fun_induction scanFrom [] position cs with
    | case1 => rfl
    | case2 position c tail d rest h => cases h
    | case3 position c tail h ih => exact ih
  rw [occurrences, Form.ofKind, hnone]
  simp [render, Progress.renderFrom, Progress.unlessElided, Text.dropOctets]

/-- Rendering a text and then its rendering behind some declarations comes to what rendering the
text behind the declarations comes to. -/
theorem render_render_eq (lookup : Lookup σ) (kind : Kind) (declarations text : String)
    (b : Bindings) (s : σ) (hdeclared : Preamble declarations.toList b)
    (hlookup : ∀ o ∈ occurrences kind text, o.directive.isLookup = false)
    (hunnested : isUnnested false (occurrences kind text) = true)
    (hforeign : ∀ d ∈ deferrals lookup text (occurrences kind text) s, d.IsForeign) :
    let pass (t : String) := render lookup t (occurrences kind t) s
    occurrences kind (pass text).1 =
        (deferrals lookup text (occurrences kind text) s).map Deferral.occurrence →
      pass (declarations ++ (pass text).1) = pass (declarations ++ text) := by
  intro pass honly
  by_cases hkind : kind = .image
  · subst hkind
    have hpass (t : String) : pass t = (t, s) := render_image lookup t s
    rw [hpass text]
  · have hdirect := render_behind lookup hkind hdeclared text s
    have hsecond := render_behind lookup hkind hdeclared (pass text).1 s
    -- Behind the declarations both sides are renderings of directives under what is declared.
    have hstaged : Staged { state := s } { bindings := b, state := s } { bindings := b, state := s } :=
      ⟨.outside, ⟨fun n => rfl, hdeclared.bound?_ne_name⟩, rfl⟩
    have horder := occurrences_inOrder kind text
    have hadd := Progress.deferralsFrom_add lookup text.toList (size declarations.toList)
      0 0 { state := s } (occurrences kind text)
    rw [Nat.add_zero] at hadd
    have hmoved := Progress.renderFrom_shift lookup declarations.toList text.toList 0
      { bindings := b, state := s } _ horder hlookup hunnested
    obtain ⟨hout, hstate⟩ := hstaged.renderFrom_deferralsFrom lookup text.toList
      declarations.toList [] 0 _ horder hlookup hunnested (by
        intro d hd
        rw [List.append_nil, hadd, List.mem_map] at hd
        obtain ⟨d', hd', rfl⟩ := hd
        exact hforeign d' hd')
    have hrendered : (pass text).1.toList = (Progress.renderFrom lookup text.toList 0 { state := s }
      (occurrences kind text)).1 := String.toList_ofList
    have hkept : (occurrences kind (pass text).1).map (.shift (size declarations.toList)) =
        (Progress.deferralsFrom lookup text.toList 0 (size declarations.toList) { state := s }
          (occurrences kind text)).map Deferral.occurrence := by
      rw [honly, hadd, List.map_map, List.map_map]
      rfl
    rw [hkept, hrendered] at hsecond
    simp only [List.append_nil, List.nil_append, Progress.unlessElided] at hout hstate
    rw [Nat.add_zero] at hmoved
    rw [hmoved] at hdirect
    refine (hsecond.trans ?_).trans hdirect.symm
    exact Prod.ext (congrArg String.ofList hout) hstate

/-- A guard over two run-time variables, and what one of them is. -/
theorem render_render_eq_undeclared :
    let lookup : Lookup Unit := ⟨fun _ s => ("", s), fun _ s => s⟩
    let pass (t : String) := render lookup t (occurrences .markup t) ()
    let text := "[% set x = 1 %][%= x %][% if y == true %]a[% else %]b[% end %][%= z %]"
    pass text = ("1[% if y == true %]a[% else %]b[% end %][%= z %]", ()) ∧
      pass ("[% set y = true %]" ++ text) = ("1a[%= z %]", ()) ∧
      pass ("[% set y = true %]" ++ (pass text).1) = ("1a[%= z %]", ()) := by
  intro lookup pass text
  have hdirect : pass ("[% set y = true %]" ++ text) = ("1a[%= z %]", ()) := by decide +kernel
  refine ⟨by decide +kernel, hdirect, ?_⟩
  have hdeclared : Preamble "[% set y = true %]".toList [("y", .flag true)] := by
    have h := Preamble.cons "[% set y = true %]".toList [] "y" (.flag true) [] (by decide +kernel)
      (fun _ => Operand.noConfusion) .nil
    rwa [List.append_nil] at h
  rw [← hdirect]
  exact render_render_eq lookup .markup "[% set y = true %]" text _ () hdeclared (by decide +kernel)
    (by decide +kernel) (by decide +kernel) (by decide +kernel)

/-- A guard over a variable that the text declares and a run-time variable is kept, and in what is
left of the text the first of them is unknown. -/
theorem render_render_ne :
    let lookup : Lookup Unit := ⟨fun _ s => ("", s), fun _ s => s⟩
    let pass (t : String) := render lookup t (occurrences .markup t) ()
    let text := "[% set y = true %][% if y == z %]a[% end %]"
    let declarations := "[% set z = true %]"
    Preamble declarations.toList [("z", .flag true)] ∧
      (∀ o ∈ occurrences .markup text, o.directive.declared? ≠ some "z") ∧
      (∀ o ∈ occurrences .markup text, o.directive.isLookup = false) ∧
      isUnnested false (occurrences .markup text) = true ∧
      occurrences .markup (pass text).1 =
        (deferrals lookup text (occurrences .markup text) ()).map Deferral.occurrence ∧
      pass (declarations ++ text) = ("a", ()) ∧
      pass (declarations ++ (pass text).1) = ("[% if y == z %]a[% end %]", ()) := by
  intro lookup pass text declarations
  refine ⟨?_, by decide +kernel, by decide +kernel, by decide +kernel, by decide +kernel,
    by decide +kernel, by decide +kernel⟩
  have h := Preamble.cons declarations.toList [] "z" (.flag true) [] (by decide +kernel)
    (fun _ => Operand.noConfusion) .nil
  rwa [List.append_nil] at h

end AssetCompiler
