import AssetCompiler.Directive.Render
import Mathlib.Data.List.Forall2

/-! # Renderings that agree

Two renderings of a text agree when their occurrences stand at the same places, hold the same
directives and are answered alike. The states of the two collaborators may differ in what no
answer shows. A family of renderings of one text differs in nothing but its answers: what holds of
the text and of all answers, and stays when texts are put together, holds of what is rendered.
-/
namespace AssetCompiler

variable {σ τ : Type} {L : Lookup σ} {M : Lookup τ} {R : σ → τ → Prop}

/-- Two occurrences of one directive that two collaborators answer alike. -/
structure Lookup.Agree (L : Lookup σ) (M : Lookup τ) (R : σ → τ → Prop) (o o' : Occurrence) : Prop where
  span : o'.span = o.span
  directive : o'.directive = o.directive
  answer : ∀ s t, R s t → (M.answer o' t).1 = (L.answer o s).1 ∧ R (L.answer o s).2 (M.answer o' t).2

namespace Progress

variable {p : Progress σ} {q : Progress τ} {o o' : Occurrence} {os os' : List Occurrence}

/-- Two renderings at one place of a text. -/
structure Beside (R : σ → τ → Prop) (p : Progress σ) (q : Progress τ) : Prop where
  flow : q.flow = p.flow
  bindings : q.bindings = p.bindings
  state : R p.state q.state

theorem Beside.warn (hwarn : ∀ text s t, R s t → R (L.warn text s) (M.warn text t))
    (h : Beside R p q) (before : String) (span : Text.Span) (after : String) :
    Beside R (p.warn L before span after) (q.warn M before span after) :=
  ⟨h.flow, h.bindings, hwarn _ _ _ h.state⟩

theorem Beside.inBlock (hwarn : ∀ text s t, R s t → R (L.warn text s) (M.warn text t))
    (h : Beside R p q) (word : String) (span : Text.Span) (next : Flow → Flow) :
    (q.inBlock M word span next).1 = (p.inBlock L word span next).1 ∧
      Beside R (p.inBlock L word span next).2 (q.inBlock M word span next).2 := by
  unfold Progress.inBlock
  rw [h.flow]
  split
  · exact ⟨rfl, rfl, h.bindings, h.state⟩
  · exact ⟨rfl, h.warn hwarn ..⟩

theorem Beside.evaluate (hwarn : ∀ text s t, R s t → R (L.warn text s) (M.warn text t))
    (h : Beside R p q) (ho : L.Agree M R o o') :
    (q.evaluate M o').1 = (p.evaluate L o).1 ∧ Beside R (p.evaluate L o).2 (q.evaluate M o').2 := by
  obtain ⟨hout, hstate⟩ := ho.answer p.state q.state h.state
  have hspan := ho.span
  unfold Progress.evaluate
  rw [ho.directive, hspan, h.bindings]
  cases o.directive with
  | declare name value => exact ⟨rfl, h.flow, rfl, h.state⟩
  | display name =>
    dsimp only
    cases p.bindings.get? name <;> exact ⟨rfl, h⟩
  | openBlock guard =>
    dsimp only
    rw [h.flow]
    refine ⟨rfl, rfl, ?_, ?_⟩ <;> split
    · exact h.bindings
    · exact h.bindings
    · exact (h.warn hwarn ..).state
    · exact h.state
  | elseBranch => exact h.inBlock hwarn ..
  | closeBlock => exact h.inBlock hwarn ..
  | _ => exact ⟨congrArg Output.text hout, h.flow, rfl, hstate⟩

theorem Beside.renderFrom (hwarn : ∀ text s t, R s t → R (L.warn text s) (M.warn text t))
    (h : Beside R p q) (text : List Char) (cursor : Nat) (hos : List.Forall₂ (L.Agree M R) os os') :
    (Progress.renderFrom M text cursor q os').1 = (Progress.renderFrom L text cursor p os).1 ∧
      Beside R (Progress.renderFrom L text cursor p os).2 (Progress.renderFrom M text cursor q os').2 := by
  induction hos generalizing cursor p q with
  | nil =>
    unfold Progress.renderFrom
    rw [h.flow]
    exact ⟨rfl, h⟩
  | @cons o o' os os' ho _ ih =>
    obtain ⟨hout, hnext⟩ := h.evaluate hwarn ho
    unfold Progress.renderFrom
    rw [ho.span]
    split
    · obtain ⟨hrest, hfinal⟩ := ih hnext o.span.stop
      dsimp only
      rw [hout, h.flow, hnext.flow, hrest]
      exact ⟨rfl, hfinal⟩
    · exact ih (h.warn hwarn ..) cursor

end Progress

/-- Texts whose directives are answered alike are rendered alike. -/
theorem Lookup.Agree.render {os os' : List Occurrence} {s : σ} {t : τ}
    (hos : List.Forall₂ (L.Agree M R) os os')
    (hwarn : ∀ text s t, R s t → R (L.warn text s) (M.warn text t)) (hst : R s t) (text : String) :
    (AssetCompiler.render M text os' t).1 = (AssetCompiler.render L text os s).1 ∧
      R (AssetCompiler.render L text os s).2 (AssetCompiler.render M text os' t).2 := by
  have hstart : Progress.Beside R { state := s } { state := t } := ⟨rfl, rfl, hst⟩
  obtain ⟨hout, hfinal⟩ := hstart.renderFrom hwarn text.toList 0 hos
  exact ⟨congrArg String.ofList hout, hfinal.state⟩

/-! ### Families of renderings -/

section family

variable {ι σ : Type}

/-- A property of families of texts that constant families have, and with two families the one in which
they stand one after the other. -/
structure Composable (Q : (ι → List Char) → Prop) : Prop where
  const : ∀ cs, Q fun _ => cs
  append : ∀ f g, Q f → Q g → Q fun r => f r ++ g r

theorem Composable.of_eq {Q : (ι → List Char) → Prop} {f : ι → List Char} (hQ : Composable Q)
    (h : ∀ r r', f r = f r') : Q f := by
  by_cases hι : Nonempty ι
  · obtain ⟨r₀⟩ := hι
    have hf : f = fun _ => f r₀ := funext fun r => h r r₀
    exact hf ▸ hQ.const (f r₀)
  · have hf : f = fun _ => [] := funext fun r => absurd ⟨r⟩ hι
    exact hf ▸ hQ.const []

variable {L : ι → Lookup σ} {R : (ι → σ) → Prop} {Q : (ι → List Char) → Prop} {o : Occurrence}
  {os : List Occurrence} {s : ι → σ}

/-- What is asked of the answers of a family of collaborators in states that are related. -/
structure Lookup.Answers (L : ι → Lookup σ) (R : (ι → σ) → Prop) (Q : (ι → List Char) → Prop)
    (o : Occurrence) : Prop where
  text : ∀ s, R s → Q fun r => ((L r).answer o (s r)).1.toList
  state : ∀ s, R s → R fun r => ((L r).answer o (s r)).2

namespace Progress

/-- A family of renderings at one place of a text: no more than the states may differ. -/
def among (flow : Flow) (bindings : Bindings) (s : ι → σ) (r : ι) : Progress σ := ⟨flow, bindings, s r⟩

/-- How one directive is evaluated in a family of renderings. -/
structure Evaluates (L : ι → Lookup σ) (R : (ι → σ) → Prop) (Q : (ι → List Char) → Prop)
    (text : List Char) (o : Occurrence) (p : ι → Progress σ) (flow : Flow) (bindings : Bindings)
    (s : ι → σ) : Prop where
  next : ∀ r, ((p r).evaluate (L r) o).2 = among flow bindings s r
  state : R s
  shown : Q fun r => shown text o.span ((p r).evaluate (L r) o).1

theorem Evaluates.of_same (hQ : Composable Q) (text : List Char) {p : ι → Progress σ} {flow : Flow}
    {bindings : Bindings} {out : Output} (hs : R s)
    (he : ∀ r, (p r).evaluate (L r) o = (out, among flow bindings s r)) :
    Evaluates L R Q text o p flow bindings s := by
  refine ⟨fun r => by rw [he], hs, ?_⟩
  simp only [he]
  exact hQ.const _

theorem exists_inBlock (hwarn : ∀ text s, R s → R fun r => (L r).warn text (s r)) (flow : Flow)
    (bindings : Bindings) (hs : R s) (word : String) (span : Text.Span) (change : Flow → Flow) :
    ∃ out flow' s', R s' ∧ ∀ r, (among flow bindings s r).inBlock (L r) word span change =
      (out, among flow' bindings s' r) := by
  cases hopen : flow.isOpen with
  | true =>
    refine ⟨blockOutput flow, change flow, s, hs, fun r => ?_⟩
    unfold inBlock among
    dsimp only
    rw [if_pos hopen]
  | false =>
    refine ⟨.text "", flow, _, hwarn ("`" ++ word ++ "` at " ++ toString span ++
      " outside a conditional block") s hs, fun r => ?_⟩
    unfold inBlock among
    dsimp only
    rw [hopen]
    rfl

/-- Only a lookup comes to different texts; every other directive takes all renderings alike. -/
theorem exists_evaluates (hQ : Composable Q) (hwarn : ∀ text s, R s → R fun r => (L r).warn text (s r))
    (ho : Lookup.Answers L R Q o) (text : List Char) (flow : Flow) (bindings : Bindings) (hs : R s) :
    ∃ flow' bindings' s', Evaluates L R Q text o (among flow bindings s) flow' bindings' s' := by
  have hblock {word : String} {change : Flow → Flow} (he : ∀ r, (among flow bindings s r).evaluate (L r) o =
      (among flow bindings s r).inBlock (L r) word o.span change) :
      ∃ flow' bindings' s', Evaluates L R Q text o (among flow bindings s) flow' bindings' s' := by
    obtain ⟨out, flow', s', hs', hinner⟩ := exists_inBlock hwarn flow bindings hs word o.span change
    exact ⟨flow', bindings, s', .of_same hQ text hs' fun r => (he r).trans (hinner r)⟩
  cases hd : o.directive with
  | declare name value =>
    have he (r : ι) : (among flow bindings s r).evaluate (L r) o =
        (.text "", among flow (bindings.declare name value) s r) := by
      unfold evaluate
      rw [hd]
      rfl
    exact ⟨_, _, s, .of_same hQ text hs he⟩
  | display name =>
    have he : ∃ out, ∀ r, (among flow bindings s r).evaluate (L r) o = (out, among flow bindings s r) := by
      unfold evaluate
      rw [hd]
      dsimp only [among]
      cases bindings.get? name with
      | some value => exact ⟨.text value.display, fun r => rfl⟩
      | none => exact ⟨.deferred, fun r => rfl⟩
    obtain ⟨out, he⟩ := he
    exact ⟨flow, bindings, s, .of_same hQ text hs he⟩
  | openBlock guard =>
    have he (r : ι) : (among flow bindings s r).evaluate (L r) o =
        (blockOutput (Flow.opened (guard.evaluate? bindings)),
          among (Flow.opened (guard.evaluate? bindings)) bindings (fun r =>
            if flow.isOpen then (L r).warn ("conditional at " ++ toString o.span ++
              " opened inside an open block") (s r) else s r) r) := by
      unfold evaluate
      rw [hd]
      unfold among
      dsimp only
      split <;> rfl
    refine ⟨_, _, _, .of_same hQ text ?_ he⟩
    split
    · exact hwarn _ _ hs
    · exact hs
  | elseBranch => exact hblock fun r => by unfold evaluate; rw [hd]
  | closeBlock => exact hblock fun r => by unfold evaluate; rw [hd]
  | _ =>
    have he (r : ι) : (among flow bindings s r).evaluate (L r) o =
        (.text ((L r).answer o (s r)).1, among flow bindings (fun r => ((L r).answer o (s r)).2) r) := by
      unfold evaluate
      rw [hd]
      rfl
    exact ⟨_, _, _, fun r => by rw [he], ho.state s hs, by simp only [he]; exact ho.text s hs⟩

theorem composable_unlessElided (hQ : Composable Q) (flow : Flow) {f : ι → List Char} (hf : Q f) :
    Q fun r => unlessElided flow (f r) := by
  unfold unlessElided
  split
  · exact hQ.const []
  · exact hf

/-- A rendering is put together from its text and its answers. -/
theorem renderFrom_family (hQ : Composable Q) (hwarn : ∀ text s, R s → R fun r => (L r).warn text (s r))
    (hos : ∀ o ∈ os, Lookup.Answers L R Q o) (text : List Char) (cursor : Nat) (flow : Flow)
    (bindings : Bindings) (hs : R s) :
    Q (fun r => (renderFrom (L r) text cursor (among flow bindings s r) os).1) ∧
      R (fun r => (renderFrom (L r) text cursor (among flow bindings s r) os).2.state) := by
  induction os generalizing cursor flow bindings s with
  | nil => exact ⟨hQ.const (unlessElided flow (Text.dropOctets cursor text)), hs⟩
  | cons o os ih =>
    have hrest := fun o' ho' => hos o' (List.mem_cons_of_mem o ho')
    unfold renderFrom
    split
    · obtain ⟨flow', bindings', s', he⟩ := exists_evaluates hQ hwarn (hos o List.mem_cons_self) text flow
        bindings hs
      obtain ⟨htail, hfinal⟩ := ih hrest o.span.stop flow' bindings' he.state
      have hgap : Q fun r => unlessElided (among flow bindings s r).flow
          (Text.slice ⟨cursor, o.span.start⟩ text) :=
        hQ.const (unlessElided flow (Text.slice ⟨cursor, o.span.start⟩ text))
      have hhere := composable_unlessElided hQ flow' he.shown
      simp only [he.next]
      exact ⟨hQ.append _ _ (hQ.append _ _ hgap hhere) htail, hfinal⟩
    · exact ih hrest cursor flow bindings (hwarn _ _ hs)

end Progress

/-- What is asked of the answers of a family of collaborators holds of the texts that they render. -/
theorem render_family (hQ : Composable Q) (hwarn : ∀ text s, R s → R fun r => (L r).warn text (s r))
    (hos : ∀ o ∈ os, Lookup.Answers L R Q o) (hs : R s) (text : String) :
    Q (fun r => (render (L r) text os (s r)).1.toList) ∧ R (fun r => (render (L r) text os (s r)).2) := by
  obtain ⟨hout, hstate⟩ := Progress.renderFrom_family hQ hwarn hos text.toList 0 {} [] hs
  refine ⟨?_, hstate⟩
  unfold render
  simp only [String.toList_ofList]
  exact hout

end family

end AssetCompiler
