import AssetCompiler.Proofs.Build.Compile

/-! # Runs through an order

A run compiles the assets of an order one after the other. What one compile preserves is
preserved by a run, and what each compile adds to a run that gets to its end adds up.
-/
namespace AssetCompiler.Build

variable {x : Context} {s s' s₁ : Session} {i : Nat} {order : List Nat} {e : BuildError}
  {report : AssetReport} {reports : List AssetReport}

/-- The sessions in which a run compiles assets, with the assets. -/
def visits (x : Context) (s : Session) : List Nat → List (Session × Nat)
  | [] => []
  | i :: order =>
    (s, i) :: match compileOne x s i with
      | (.error _, _) => []
      | (.ok _, s) => visits x s order

/-! ### The first compile of a run -/

theorem compileAll_cons_of_error (h : compileOne x s i = (.error e, s')) :
    compileAll x s (i :: order) = (.error e, s') := by
  rw [compileAll, h]

theorem compileAll_cons_of_ok (h : compileOne x s i = (.ok report, s₁)) :
    compileAll x s (i :: order) =
      ((compileAll x s₁ order).1.map (report :: ·), (compileAll x s₁ order).2) := by
  rw [compileAll, h]

theorem visits_cons_of_error (h : compileOne x s i = (.error e, s')) :
    visits x s (i :: order) = [(s, i)] := by
  rw [visits, h]

theorem visits_cons_of_ok (h : compileOne x s i = (.ok report, s₁)) :
    visits x s (i :: order) = (s, i) :: visits x s₁ order := by
  rw [visits, h]

/-- A run that gets to its end has got through its first compile. -/
theorem compileAll_cons_eq_ok (h : compileAll x s (i :: order) = (.ok reports, s')) :
    ∃ report s₁ rest, compileOne x s i = (.ok report, s₁) ∧
      compileAll x s₁ order = (.ok rest, s') ∧ reports = report :: rest := by
  cases hc : compileOne x s i with
  | mk result s₁ =>
    cases result with
    | error e =>
      rw [compileAll_cons_of_error hc] at h
      cases h
    | ok report =>
      rw [compileAll_cons_of_ok hc] at h
      cases hr : compileAll x s₁ order with
      | mk rest s₂ =>
        rw [hr] at h
        cases rest with
        | error e => cases h
        | ok rest =>
          cases h
          exact ⟨report, s₁, rest, rfl, hr, rfl⟩

theorem mem_order_of_mem_visits {v : Session × Nat} (h : v ∈ visits x s order) : v.2 ∈ order := by
  induction order generalizing s with
  | nil => cases h
  | cons i order ih =>
    unfold visits at h
    rcases List.mem_cons.mp h with rfl | h
    · exact List.mem_cons_self
    · split at h
      · cases h
      · exact List.mem_cons_of_mem _ (ih h)

/-! ### Inductions along a run -/

/-- What every compile preserves is there before each compile and after the run. -/
theorem compileAll_invariant {P : Session → Prop} (h : P s)
    (hstep : ∀ v ∈ visits x s order, P v.1 → P (compileOne x v.1 v.2).2) :
    (∀ v ∈ visits x s order, P v.1) ∧ P (compileAll x s order).2 := by
  induction order generalizing s with
  | nil => exact ⟨fun _ hv => (by cases hv), h⟩
  | cons i order ih =>
    have hnext := hstep (s, i) List.mem_cons_self h
    cases hc : compileOne x s i with
    | mk result s₁ =>
      rw [hc] at hnext
      cases result with
      | error e =>
        rw [visits_cons_of_error hc, compileAll_cons_of_error hc]
        refine ⟨fun v hv => ?_, hnext⟩
        rw [List.mem_singleton.mp hv]
        exact h
      | ok report =>
        rw [visits_cons_of_ok hc] at hstep ⊢
        rw [compileAll_cons_of_ok hc]
        obtain ⟨hvisits, hend⟩ := ih hnext fun v hv => hstep v (List.mem_cons_of_mem _ hv)
        refine ⟨fun v hv => ?_, hend⟩
        rcases List.mem_cons.mp hv with rfl | hv
        · exact h
        · exact hvisits v hv

/-- A run, compile by compile. What holds of the assets done so far, their reports and the session is
carried from each compile to the next, up to the end if the run gets there. -/
theorem run_induction_from {P : List Nat → List AssetReport → Session → Prop} {done : List Nat}
    {before : List AssetReport} (hp : P done before s)
    (hstep : ∀ front i back before report t t', done ++ order = front ++ i :: back →
      (t, i) ∈ visits x s order → P front before t → compileOne x t i = (.ok report, t') →
      P (front ++ [i]) (before ++ [report]) t') :
    (∀ v ∈ visits x s order, ∃ front back reports, done ++ order = front ++ v.2 :: back ∧
        P front reports v.1) ∧
      ∀ reports s', compileAll x s order = (.ok reports, s') → P (done ++ order) (before ++ reports) s' := by
  induction order generalizing s done before with
  | nil =>
    refine ⟨fun _ hv => (by cases hv), fun reports s' h => ?_⟩
    cases h
    simpa using hp
  | cons i order ih =>
    have hfirst : ∃ front back reports, done ++ i :: order = front ++ i :: back ∧ P front reports s :=
      ⟨done, order, before, rfl, hp⟩
    cases hc : compileOne x s i with
    | mk result s₁ =>
      cases result with
      | error e =>
        rw [visits_cons_of_error hc, compileAll_cons_of_error hc]
        refine ⟨fun v hv => ?_, fun reports s' h => (by cases h)⟩
        rw [List.mem_singleton.mp hv]
        exact hfirst
      | ok report =>
        rw [visits_cons_of_ok hc] at hstep ⊢
        -- The asset just compiled moves over to those that are done.
        have hassoc : (done ++ [i]) ++ order = done ++ i :: order := by simp
        have hnext := hstep done i order before report s s₁ rfl List.mem_cons_self hp hc
        obtain ⟨hvisits, hend⟩ := ih hnext fun front j back before report t t' he hv =>
          hstep front j back before report t t' (hassoc ▸ he) (List.mem_cons_of_mem _ hv)
        rw [hassoc] at hvisits hend
        refine ⟨fun v hv => ?_, fun reports s' h => ?_⟩
        · rcases List.mem_cons.mp hv with rfl | hv
          · exact hfirst
          · exact hvisits v hv
        · obtain ⟨_, _, rest, hc', hr, rfl⟩ := compileAll_cons_eq_ok h
          cases hc.symm.trans hc'
          simpa using hend rest s' hr

theorem run_induction {P : List Nat → List AssetReport → Session → Prop} (hp : P [] [] s)
    (hstep : ∀ front i back before report t t', order = front ++ i :: back →
      (t, i) ∈ visits x s order → P front before t → compileOne x t i = (.ok report, t') →
      P (front ++ [i]) (before ++ [report]) t') :
    (∀ v ∈ visits x s order, ∃ front back reports, order = front ++ v.2 :: back ∧ P front reports v.1) ∧
      ∀ reports s', compileAll x s order = (.ok reports, s') → P order reports s' :=
  run_induction_from hp hstep

/-! ### Runs that stop, and runs that go on -/

/-- A run stops at the first compile that ends it, with what that compile has left. -/
theorem compileAll_of_error {v : Session × Nat} (hv : v ∈ visits x s order)
    (he : compileOne x v.1 v.2 = (.error e, s')) : compileAll x s order = (.error e, s') := by
  induction order generalizing s with
  | nil => cases hv
  | cons i order ih =>
    cases hc : compileOne x s i with
    | mk result s₁ =>
      cases result with
      | error e' =>
        rw [visits_cons_of_error hc, List.mem_singleton] at hv
        subst hv
        exact compileAll_cons_of_error he
      | ok report =>
        rw [visits_cons_of_ok hc] at hv
        rcases List.mem_cons.mp hv with rfl | hv
        · exact compileAll_cons_of_error he
        · rw [compileAll_cons_of_ok hc, ih hv]
          rfl

theorem compileAll_error {v : Session × Nat} (hv : v ∈ visits x s order)
    (he : (compileOne x v.1 v.2).1 = .error e) : (compileAll x s order).1 = .error e := by
  rw [compileAll_of_error hv (Prod.ext he rfl)]

theorem exists_visit_of_error (h : (compileAll x s order).1 = .error e) :
    ∃ v ∈ visits x s order, (compileOne x v.1 v.2).1 = .error e := by
  induction order generalizing s with
  | nil => cases h
  | cons i order ih =>
    cases hc : compileOne x s i with
    | mk result s₁ =>
      cases result with
      | error e' =>
        rw [compileAll_cons_of_error hc] at h
        cases h
        rw [visits_cons_of_error hc]
        exact ⟨(s, i), List.mem_cons_self, congrArg Prod.fst hc⟩
      | ok report =>
        rw [compileAll_cons_of_ok hc] at h
        rw [visits_cons_of_ok hc]
        cases hr : (compileAll x s₁ order).1 with
        | error e' =>
          rw [hr] at h
          cases h
          obtain ⟨v, hv, he⟩ := ih hr
          exact ⟨v, List.mem_cons_of_mem _ hv, he⟩
        | ok rest =>
          rw [hr] at h
          cases h

theorem compileAll_concat {done : List Nat} {t t' : Session} (h : compileAll x s done = (.ok reports, t))
    (hi : compileOne x t i = (.ok report, t')) :
    compileAll x s (done ++ [i]) = (.ok (reports ++ [report]), t') := by
  induction done generalizing s reports with
  | nil =>
    cases h
    rw [List.nil_append, compileAll_cons_of_ok hi]
    rfl
  | cons j done ih =>
    obtain ⟨first, s₁, rest, hc, hr, rfl⟩ := compileAll_cons_eq_ok h
    rw [List.cons_append, compileAll_cons_of_ok hc, ih hr]
    rfl

/-- No asset is visited twice. -/
theorem eq_of_mem_visits (hnodup : order.Nodup) {v u : Session × Nat} (hv : v ∈ visits x s order)
    (hu : u ∈ visits x s order) (he : v.2 = u.2) : v = u := by
  induction order generalizing s with
  | nil => cases hv
  | cons i order ih =>
    obtain ⟨hi, hnodup⟩ := List.nodup_cons.mp hnodup
    have hlater {u : Session × Nat} {s₁ : Session} (hu : u ∈ visits x s₁ order) : u.2 ≠ i :=
      fun he => hi (he ▸ mem_order_of_mem_visits hu)
    cases hc : compileOne x s i with
    | mk result s₁ =>
      cases result with
      | error e =>
        rw [visits_cons_of_error hc] at hv hu
        exact (List.mem_singleton.mp hv).trans (List.mem_singleton.mp hu).symm
      | ok report =>
        rw [visits_cons_of_ok hc] at hv hu
        rcases List.mem_cons.mp hv with rfl | hv <;> rcases List.mem_cons.mp hu with rfl | hu
        · rfl
        · exact absurd he.symm (hlater hu)
        · exact absurd he (hlater hv)
        · exact ih hnodup hv hu

end AssetCompiler.Build
