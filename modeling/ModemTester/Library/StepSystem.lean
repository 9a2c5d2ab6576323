import Mathlib.Data.List.Basic

/-
  Deterministic labelled step systems.

  A system is a function `step` that, from a state and a
  label, gives the next state or refuses the label. A run is
  a list of labels. Conditions on a run come in two forms:
  a condition on every state visited (`Throughout`) and a
  condition on every step taken, stated on the state before
  the step and its label (`Along`).

  Key definitions include:
    * `run`
    * `Along`
    * `Throughout`
    * `Visits`
    * `Forever`
    * `countAlong`

  The rules used by clients are:
    * `run_invariant`
    * `run_invariant_along`
    * `run_invariant_history`
    * `forever_of_preserved`
    * `throughout_of_along`
    * `along_of_along`
    * `along_of_throughout`
    * `along_of_run`
    * `throughout_iff_along`
    * `along_iff_along`
    * `exists_run_of_decreasing`
    * `run_count`
    * `run_simulation`
    * `exists_run_of_run_view`
    * `run_simulation_rel`
    * `run_simulation_along`
-/

------------------------------------------------------------
-- Runs
------------------------------------------------------------

namespace StepSystem

variable {σ ι : Type}

/- Perform the labels of a run in order. -/
def run
    (step : σ → ι → Option σ) :
    σ → List ι → Option σ
  | s, [] => some s
  | s, label :: labels =>
      match step s label with
      | none => none
      | some s' => run step s' labels

/-
  Every step taken meets `ok`, a condition on the state
  before the step and its label.
-/
def Along
    (step : σ → ι → Option σ)
    (ok : σ → ι → Prop) :
    σ → List ι → Prop
  | _, [] => True
  | s, label :: labels =>
      match step s label with
      | none => True
      | some s' => ok s label ∧ Along step ok s' labels

/- Every state visited meets `P`, the first one included. -/
def Throughout
    (step : σ → ι → Option σ)
    (P : σ → Prop) :
    σ → List ι → Prop
  | s, [] => P s
  | s, label :: labels =>
      P s ∧
        match step s label with
        | none => True
        | some s' => Throughout step P s' labels

instance decidableAlong
    (step : σ → ι → Option σ)
    (ok : σ → ι → Prop)
    [∀ s label, Decidable (ok s label)] :
    (s : σ) → (labels : List ι) →
      Decidable (Along step ok s labels)
  | _, [] => .isTrue trivial
  | s, label :: labels => by
      unfold Along
      cases step s label with
      | none => exact .isTrue trivial
      | some s' =>
          have := decidableAlong step ok s' labels
          exact instDecidableAnd

instance decidableThroughout
    (step : σ → ι → Option σ)
    (P : σ → Prop)
    [DecidablePred P] :
    (s : σ) → (labels : List ι) →
      Decidable (Throughout step P s labels)
  | s, [] => inferInstanceAs (Decidable (P s))
  | s, label :: labels => by
      unfold Throughout
      cases step s label with
      | none => exact instDecidableAnd
      | some s' =>
          have := decidableThroughout step P s' labels
          exact instDecidableAnd

/- `P` holds wherever a run from the state may lead. -/
def Forever
    (step : σ → ι → Option σ)
    (P : σ → Prop)
    (s : σ) : Prop :=
  ∀ labels s', run step s labels = some s' → P s'

/- Some state visited meets `P`. -/
def Visits
    (step : σ → ι → Option σ)
    (P : σ → Prop)
    (s : σ)
    (labels : List ι) : Prop :=
  ∃ front back s', labels = front ++ back ∧
    run step s front = some s' ∧ P s'

/- The number of steps taken that meet `hit`. -/
def countAlong
    (step : σ → ι → Option σ)
    (hit : σ → ι → Bool) :
    σ → List ι → Nat
  | _, [] => 0
  | s, label :: labels =>
      match step s label with
      | none => 0
      | some s' =>
          (if hit s label then 1 else 0) +
            countAlong step hit s' labels

variable {step : σ → ι → Option σ}
variable {ok good : σ → ι → Prop}
variable {P : σ → Prop}
variable {s s' s'' : σ}
variable {label : ι}
variable {labels labels' : List ι}

@[simp] theorem run_nil :
    run step s [] = some s := rfl

theorem run_cons_of_step
    (hStep : step s label = some s') :
    run step s (label :: labels) =
      run step s' labels := by
  simp [run, hStep]

theorem run_of_step
    (hStep : step s label = some s') :
    run step s [label] = some s' := by
  rw [run_cons_of_step hStep, run_nil]

/- The first step of a completed run. -/
theorem exists_step_of_run_cons
    (hRun : run step s (label :: labels) = some s'') :
    ∃ s', step s label = some s' ∧
      run step s' labels = some s'' := by
  cases hStep : step s label with
  | none => simp [run, hStep] at hRun
  | some s' =>
      exact ⟨s', rfl, by simpa [run, hStep] using hRun⟩

/- Runs compose. -/
theorem run_append
    (hFirst : run step s labels = some s') :
    run step s (labels ++ labels') =
      run step s' labels' := by
  induction labels generalizing s with
  | nil =>
      simp only [run_nil, Option.some.injEq] at hFirst
      subst hFirst
      rfl
  | cons label labels ih =>
      rcases exists_step_of_run_cons hFirst with
        ⟨s₁, hStep, hRest⟩
      rw [List.cons_append, run_cons_of_step hStep]
      exact ih hRest

/- Every part of a completed run is completed. -/
theorem exists_run_of_run_append
    (hRun : run step s (labels ++ labels') = some s'') :
    ∃ s', run step s labels = some s' ∧
      run step s' labels' = some s'' := by
  induction labels generalizing s with
  | nil => exact ⟨s, rfl, hRun⟩
  | cons label labels ih =>
      rcases exists_step_of_run_cons hRun with
        ⟨s₁, hStep, hRest⟩
      rcases ih hRest with ⟨s', hFirst, hSecond⟩
      exact ⟨s', by rw [run_cons_of_step hStep, hFirst],
        hSecond⟩

/- A run that was refused does not go on. -/
theorem run_append_of_none
    (hFirst : run step s labels = none) :
    run step s (labels ++ labels') = none := by
  induction labels generalizing s with
  | nil => cases hFirst
  | cons label labels ih =>
      cases hStep : step s label with
      | none => simp [run, hStep]
      | some s₁ =>
          rw [run_cons_of_step hStep] at hFirst
          rw [List.cons_append, run_cons_of_step hStep]
          exact ih hFirst

@[simp] theorem along_nil :
    Along step ok s [] := trivial

theorem along_cons_of_step
    (hStep : step s label = some s') :
    Along step ok s (label :: labels) ↔
      ok s label ∧ Along step ok s' labels := by
  simp [Along, hStep]

theorem throughout_cons_of_step
    (hStep : step s label = some s') :
    Throughout step P s (label :: labels) ↔
      P s ∧ Throughout step P s' labels := by
  simp [Throughout, hStep]

/- A condition that all labels meet holds along the run. -/
theorem along_of_forall
    {Q : ι → Prop}
    (hAll : ∀ label ∈ labels, Q label) :
    Along step (fun _ label => Q label) s labels := by
  induction labels generalizing s with
  | nil => simp
  | cons label labels ih =>
      cases hStep : step s label with
      | none => simp [Along, hStep]
      | some s₁ =>
          rw [along_cons_of_step hStep]
          refine ⟨hAll label List.mem_cons_self, ih ?_⟩
          intro other hOther
          exact hAll other (List.mem_cons_of_mem _ hOther)

/- Conditions on runs split where runs compose. -/
theorem along_append
    (hRun : run step s labels = some s') :
    Along step ok s (labels ++ labels') ↔
      Along step ok s labels ∧
        Along step ok s' labels' := by
  induction labels generalizing s with
  | nil =>
      simp only [run_nil, Option.some.injEq] at hRun
      subst hRun
      simp
  | cons label labels ih =>
      rcases exists_step_of_run_cons hRun with
        ⟨s₁, hStep, hRest⟩
      rw [List.cons_append, along_cons_of_step hStep,
        along_cons_of_step hStep, ih hRest, and_assoc]

theorem throughout_append
    (hRun : run step s labels = some s') :
    Throughout step P s (labels ++ labels') ↔
      Throughout step P s labels ∧
        Throughout step P s' labels' := by
  induction labels generalizing s with
  | nil =>
      simp only [run_nil, Option.some.injEq] at hRun
      subst hRun
      constructor
      · intro hAll
        cases labels' with
        | nil => exact ⟨hAll, hAll⟩
        | cons label labels' => exact ⟨hAll.1, hAll⟩
      · exact fun hAll => hAll.2
  | cons label labels ih =>
      rcases exists_step_of_run_cons hRun with
        ⟨s₁, hStep, hRest⟩
      rw [List.cons_append, throughout_cons_of_step hStep,
        throughout_cons_of_step hStep, ih hRest, and_assoc]

/- At the end of every part of a run. -/
theorem exists_of_throughout_append
    (hRun : run step s (labels ++ labels') = some s'')
    (hAll : Throughout step P s (labels ++ labels')) :
    ∃ s', run step s labels = some s' ∧ P s' := by
  induction labels generalizing s with
  | nil =>
      refine ⟨s, rfl, ?_⟩
      cases labels' with
      | nil => exact hAll
      | cons label labels' => exact hAll.1
  | cons label labels ih =>
      rcases exists_step_of_run_cons hRun with
        ⟨s₁, hStep, hRest⟩
      rw [List.cons_append,
        throughout_cons_of_step hStep] at hAll
      rcases ih hRest hAll.2 with ⟨s', hFirst, hHolds⟩
      exact ⟨s', by rw [run_cons_of_step hStep, hFirst],
        hHolds⟩

theorem throughout_last
    (hRun : run step s labels = some s')
    (hAll : Throughout step P s labels) : P s' := by
  rw [← List.append_nil labels] at hRun hAll
  rcases exists_of_throughout_append hRun hAll with
    ⟨last, hLast, hHolds⟩
  rw [List.append_nil, hLast, Option.some.injEq] at hRun
  exact hRun ▸ hHolds

theorem throughout_head
    (hAll : Throughout step P s labels) : P s := by
  cases labels with
  | nil => exact hAll
  | cons label labels => exact hAll.1

theorem visits_last
    (hRun : run step s labels = some s')
    (hHolds : P s') : Visits step P s labels :=
  ⟨labels, [], s', (List.append_nil _).symm, hRun, hHolds⟩

theorem Visits.append
    (hVisits : Visits step P s labels)
    (labels' : List ι) :
    Visits step P s (labels ++ labels') := by
  rcases hVisits with ⟨front, back, s', rfl, hRun, hHolds⟩
  exact ⟨front, back ++ labels', s', List.append_assoc .., hRun,
    hHolds⟩

theorem Visits.mono
    {Q : σ → Prop}
    (hVisits : Visits step P s labels)
    (hImplies : ∀ s, P s → Q s) :
    Visits step Q s labels := by
  rcases hVisits with ⟨front, back, s', hLabels, hRun, hHolds⟩
  exact ⟨front, back, s', hLabels, hRun, hImplies s' hHolds⟩

end StepSystem

------------------------------------------------------------
-- Invariant Rules
------------------------------------------------------------

namespace StepSystem

variable {σ ι : Type}
variable {step : σ → ι → Option σ}
variable {ok good : σ → ι → Prop}
variable {P I : σ → Prop}
variable {s s' : σ}
variable {labels : List ι}

/-
  What holds at the start and is preserved by every step
  that meets `ok` holds wherever such a run ends.
-/
theorem run_invariant_along
    (hPreserved : ∀ s label s', I s → ok s label →
      step s label = some s' → I s')
    (hStart : I s)
    (hAlong : Along step ok s labels)
    (hRun : run step s labels = some s') :
    I s' := by
  induction labels generalizing s with
  | nil =>
      simp only [run_nil, Option.some.injEq] at hRun
      exact hRun ▸ hStart
  | cons label labels ih =>
      rcases exists_step_of_run_cons hRun with
        ⟨s₁, hStep, hRest⟩
      rw [along_cons_of_step hStep] at hAlong
      exact ih
        (hPreserved s label s₁ hStart hAlong.1 hStep)
        hAlong.2 hRest

/- The same at every state visited. -/
theorem throughout_of_along
    (hPreserved : ∀ s label s', I s → ok s label →
      step s label = some s' → I s')
    (hHolds : ∀ s, I s → P s)
    (hStart : I s)
    (hAlong : Along step ok s labels) :
    Throughout step P s labels := by
  induction labels generalizing s with
  | nil => exact hHolds s hStart
  | cons label labels ih =>
      cases hStep : step s label with
      | none => simp [Throughout, hStep, hHolds s hStart]
      | some s₁ =>
          rw [along_cons_of_step hStep] at hAlong
          rw [throughout_cons_of_step hStep]
          refine ⟨hHolds s hStart, ih ?_ hAlong.2⟩
          exact hPreserved s label s₁ hStart hAlong.1 hStep

theorem throughout_mono
    {Q : σ → Prop}
    (hImplies : ∀ s, P s → Q s)
    (hAll : Throughout step P s labels) :
    Throughout step Q s labels := by
  induction labels generalizing s with
  | nil => exact hImplies s hAll
  | cons label labels ih =>
      have hHead := hImplies s (throughout_head hAll)
      cases hStep : step s label with
      | none => simp [Throughout, hStep, hHead]
      | some s₁ =>
          rw [throughout_cons_of_step hStep] at hAll ⊢
          exact ⟨hHead, ih hAll.2⟩

/-
  A condition on steps that an invariant gives, in runs
  whose steps meet another.
-/
theorem along_of_along
    (hPreserved : ∀ s label s', I s → ok s label →
      step s label = some s' → I s')
    (hGood : ∀ s label s', I s → ok s label →
      step s label = some s' → good s label)
    (hStart : I s)
    (hAlong : Along step ok s labels) :
    Along step good s labels := by
  induction labels generalizing s with
  | nil => simp
  | cons label labels ih =>
      cases hStep : step s label with
      | none => simp [Along, hStep]
      | some s₁ =>
          rw [along_cons_of_step hStep] at hAlong ⊢
          refine ⟨hGood s label s₁ hStart hAlong.1 hStep, ?_⟩
          exact ih
            (hPreserved s label s₁ hStart hAlong.1 hStep)
            hAlong.2

/-
  The converse rule: if a step that misses `ok` leads to
  where a run whose states all meet `P` cannot leave, and
  the run has not ended there, all its steps meet `ok`.
-/
theorem along_of_throughout
    {D : σ → Prop}
    (hPreserved : ∀ s label s', I s → ok s label →
      step s label = some s' → I s')
    (hMisses : ∀ s label s', I s → ¬ ok s label →
      step s label = some s' → P s' → D s')
    (hStays : ∀ s label s', D s →
      step s label = some s' → P s' → D s')
    (hStart : I s)
    (hAll : Throughout step P s labels)
    (hRun : run step s labels = some s')
    (hEnd : ¬ D s') :
    Along step ok s labels := by
  have hDoomed : ∀ {s : σ} {labels : List ι}, D s →
      Throughout step P s labels →
      run step s labels = some s' → D s' := by
    intro s labels hD hAll hRun
    induction labels generalizing s with
    | nil =>
        simp only [run_nil, Option.some.injEq] at hRun
        exact hRun ▸ hD
    | cons label labels ih =>
        rcases exists_step_of_run_cons hRun with
          ⟨s₁, hStep, hRest⟩
        rw [throughout_cons_of_step hStep] at hAll
        exact ih
          (hStays s label s₁ hD hStep (throughout_head hAll.2))
          hAll.2 hRest
  induction labels generalizing s with
  | nil => simp
  | cons label labels ih =>
      rcases exists_step_of_run_cons hRun with
        ⟨s₁, hStep, hRest⟩
      rw [throughout_cons_of_step hStep] at hAll
      rw [along_cons_of_step hStep]
      have hOk : ok s label := by
        by_contra hNot
        have hD := hMisses s label s₁ hStart hNot hStep
          (throughout_head hAll.2)
        exact hEnd (hDoomed hD hAll.2 hRest)
      exact ⟨hOk, ih
        (hPreserved s label s₁ hStart hOk hStep) hAll.2 hRest⟩

/- The same without a condition on the states visited. -/
theorem along_of_run
    {D : σ → Prop}
    (hPreserved : ∀ s label s', I s → ok s label →
      step s label = some s' → I s')
    (hMisses : ∀ s label s', I s → ¬ ok s label →
      step s label = some s' → D s')
    (hStays : ∀ s label s', D s →
      step s label = some s' → D s')
    (hStart : I s)
    (hRun : run step s labels = some s')
    (hEnd : ¬ D s') :
    Along step ok s labels := by
  have hAll : Throughout step (fun _ => True) s labels :=
    throughout_of_along (I := fun _ => True)
      (fun _ _ _ _ _ _ => trivial) (fun _ _ => trivial) trivial
      (along_of_forall (Q := fun _ => True)
        fun _ _ => trivial)
  exact along_of_throughout hPreserved
    (fun s label s' hI hNot hStep _ =>
      hMisses s label s' hI hNot hStep)
    (fun s label s' hD hStep _ => hStays s label s' hD hStep)
    hStart hAll hRun hEnd

/- The rule for invariants that every step preserves. -/
theorem run_invariant
    (hPreserved : ∀ s label s', I s →
      step s label = some s' → I s')
    (hStart : I s)
    (hRun : run step s labels = some s') :
    I s' := by
  induction labels generalizing s with
  | nil =>
      simp only [run_nil, Option.some.injEq] at hRun
      exact hRun ▸ hStart
  | cons label labels ih =>
      rcases exists_step_of_run_cons hRun with
        ⟨s₁, hStep, hRest⟩
      exact ih (hPreserved s label s₁ hStart hStep) hRest

/-
  The invariant rule for what also speaks of the steps taken
  so far.
-/
theorem run_invariant_history
    {H : List ι → σ → Prop}
    {start : σ}
    (hPreserved : ∀ done label s s',
      run step start done = some s → H done s →
        step s label = some s' → H (done ++ [label]) s')
    (hStart : H [] start)
    (hRun : run step start labels = some s) :
    H labels s := by
  have hFrom : ∀ {labels : List ι} {done : List ι} {s₁ : σ},
      run step start done = some s₁ → H done s₁ →
        run step s₁ labels = some s →
          H (done ++ labels) s := by
    intro labels
    induction labels with
    | nil =>
        intro done s₁ _ hDone hRest
        simp only [run_nil, Option.some.injEq] at hRest
        rw [List.append_nil]
        exact hRest ▸ hDone
    | cons label labels ih =>
        intro done s₁ hBefore hDone hRest
        rcases exists_step_of_run_cons hRest with
          ⟨s₂, hStep, hLater⟩
        have hNext : run step start (done ++ [label]) =
            some s₂ := by
          rw [run_append hBefore, run_of_step hStep]
        have hEnd := ih hNext
          (hPreserved done label s₁ s₂ hBefore hDone hStep)
          hLater
        rwa [List.append_assoc, List.singleton_append] at hEnd
  have hAll := hFrom (run_nil ..) hStart hRun
  rwa [List.nil_append] at hAll

theorem forever_of_preserved
    (hPreserved : ∀ s label s', I s →
      step s label = some s' → I s')
    (hHolds : ∀ s, I s → P s)
    (hStart : I s) :
    Forever step P s := by
  intro labels s' hRun
  exact hHolds s' (run_invariant hPreserved hStart hRun)

/- What holds at every state holds before every step. -/
theorem along_and_of_throughout
    (hAll : Throughout step P s labels)
    (hAlong : Along step ok s labels) :
    Along step (fun s label => P s ∧ ok s label)
      s labels := by
  induction labels generalizing s with
  | nil => simp
  | cons label labels ih =>
      cases hStep : step s label with
      | none => simp [Along, hStep]
      | some s₁ =>
          have hP := throughout_head hAll
          rw [throughout_cons_of_step hStep] at hAll
          rw [along_cons_of_step hStep] at hAlong ⊢
          exact ⟨⟨hP, hAlong.1⟩, ih hAll.2 hAlong.2⟩

theorem along_and
    (hOk : Along step ok s labels)
    (hGood : Along step good s labels) :
    Along step (fun s label => ok s label ∧ good s label)
      s labels := by
  induction labels generalizing s with
  | nil => simp
  | cons label labels ih =>
      cases hStep : step s label with
      | none => simp [Along, hStep]
      | some s₁ =>
          rw [along_cons_of_step hStep] at hOk hGood ⊢
          exact ⟨⟨hOk.1, hGood.1⟩, ih hOk.2 hGood.2⟩

/-
  The exactness rule. Under an invariant `I`, suppose the
  property `P` survives a step exactly when the step meets
  `ok`. Then `P` holds at every state of a run exactly when
  every step of the run meets `ok`. Here the steps of the run
  are known to meet `good`.
-/
theorem throughout_iff_along_of_along
    (hInv : ∀ s label s', I s → good s label →
      step s label = some s' → I s')
    (hExact : ∀ s label s', I s → P s → good s label →
      step s label = some s' → (P s' ↔ ok s label))
    (hStart : I s)
    (hHolds : P s)
    (hGood : Along step good s labels) :
    Throughout step P s labels ↔
      Along step ok s labels := by
  induction labels generalizing s with
  | nil => simpa [Throughout, Along] using hHolds
  | cons label labels ih =>
      cases hStep : step s label with
      | none => simp [Throughout, Along, hStep, hHolds]
      | some s₁ =>
          rw [along_cons_of_step hStep] at hGood
          have hInv₁ := hInv s label s₁ hStart hGood.1 hStep
          have hIff :=
            hExact s label s₁ hStart hHolds hGood.1 hStep
          rw [throughout_cons_of_step hStep,
            along_cons_of_step hStep]
          constructor
          · rintro ⟨-, hRest⟩
            have hP₁ := throughout_head hRest
            exact ⟨hIff.mp hP₁,
              (ih hInv₁ hP₁ hGood.2).mp hRest⟩
          · rintro ⟨hOk, hRest⟩
            have hP₁ := hIff.mpr hOk
            exact ⟨hHolds, (ih hInv₁ hP₁ hGood.2).mpr hRest⟩

/- The exactness rule for all runs. -/
theorem throughout_iff_along
    (hInv : ∀ s label s', I s →
      step s label = some s' → I s')
    (hExact : ∀ s label s', I s → P s →
      step s label = some s' → (P s' ↔ ok s label))
    (hStart : I s)
    (hHolds : P s) :
    Throughout step P s labels ↔
      Along step ok s labels := by
  have hGood : Along step (fun _ _ => True) s labels :=
    along_of_forall fun _ _ => trivial
  exact throughout_iff_along_of_along
    (fun s label s' hI _ hStep => hInv s label s' hI hStep)
    (fun s label s' hI hP _ hStep =>
      hExact s label s' hI hP hStep)
    hStart hHolds hGood

/-
  The exactness rule for two conditions on steps, in runs
  whose states all meet `P`. Where the invariant `I` holds,
  a step is good exactly when it meets `ok`, and a good step
  preserves `I`.
-/
theorem along_iff_along
    (hPreserved : ∀ s label s', I s → P s → ok s label →
      step s label = some s' → I s')
    (hExact : ∀ s label s', I s → P s →
      step s label = some s' → (good s label ↔ ok s label))
    (hStart : I s)
    (hAll : Throughout step P s labels) :
    Along step good s labels ↔
      Along step ok s labels := by
  induction labels generalizing s with
  | nil => simp
  | cons label labels ih =>
      have hP := throughout_head hAll
      cases hStep : step s label with
      | none => simp [Along, hStep]
      | some s₁ =>
          have hIff := hExact s label s₁ hStart hP hStep
          rw [throughout_cons_of_step hStep] at hAll
          rw [along_cons_of_step hStep,
            along_cons_of_step hStep, hIff]
          constructor
          · rintro ⟨hOk, hRest⟩
            have hInv₁ :=
              hPreserved s label s₁ hStart hP hOk hStep
            exact ⟨hOk, (ih hInv₁ hAll.2).mp hRest⟩
          · rintro ⟨hOk, hRest⟩
            have hInv₁ :=
              hPreserved s label s₁ hStart hP hOk hStep
            exact ⟨hOk, (ih hInv₁ hAll.2).mpr hRest⟩

/-
  The progress rule: if wherever `P` does not hold yet some
  step that meets `ok` lowers the measure, a run of such
  steps leads to where it holds.
-/
theorem exists_run_of_decreasing
    (measure : σ → Nat)
    (hProgress : ∀ s, I s → ¬ P s →
      ∃ label s', ok s label ∧ step s label = some s' ∧
        I s' ∧ measure s' < measure s)
    (hStart : I s) :
    ∃ labels s', Along step ok s labels ∧
      run step s labels = some s' ∧ I s' ∧ P s' := by
  induction hMeasure : measure s using Nat.strongRecOn
    generalizing s with
  | ind n ih =>
    by_cases hDone : P s
    · exact ⟨[], s, trivial, rfl, hStart, hDone⟩
    · rcases hProgress s hStart hDone with
        ⟨label, s₁, hOk, hStep, hI, hLess⟩
      rcases ih (measure s₁) (hMeasure ▸ hLess) hI rfl with
        ⟨labels, s', hAlong, hRun, hI', hP⟩
      exact ⟨label :: labels, s',
        (along_cons_of_step hStep).mpr ⟨hOk, hAlong⟩,
        (run_cons_of_step hStep).trans hRun, hI', hP⟩

------------------------------------------------------------
-- Counting Steps
------------------------------------------------------------

variable {hit : σ → ι → Bool}
variable {labels' : List ι}

theorem countAlong_cons_of_step
    {label : ι}
    (hStep : step s label = some s') :
    countAlong step hit s (label :: labels) =
      (if hit s label then 1 else 0) +
        countAlong step hit s' labels := by
  simp [countAlong, hStep]

/- No step of a run hits exactly when all of them miss. -/
theorem countAlong_eq_zero_iff :
    countAlong step hit s labels = 0 ↔
      Along step (fun s label => hit s label = false)
        s labels := by
  induction labels generalizing s with
  | nil => simp [countAlong]
  | cons label labels ih =>
      cases hStep : step s label with
      | none => simp [countAlong, Along, hStep]
      | some s₁ =>
          rw [countAlong_cons_of_step hStep,
            along_cons_of_step hStep]
          cases hHit : hit s label with
          | false => simpa using ih
          | true => simp

theorem countAlong_append
    (hRun : run step s labels = some s') :
    countAlong step hit s (labels ++ labels') =
      countAlong step hit s labels +
        countAlong step hit s' labels' := by
  induction labels generalizing s with
  | nil =>
      simp only [run_nil, Option.some.injEq] at hRun
      subst hRun
      simp [countAlong]
  | cons label labels ih =>
      rcases exists_step_of_run_cons hRun with
        ⟨s₁, hStep, hRest⟩
      rw [List.cons_append, countAlong_cons_of_step hStep,
        countAlong_cons_of_step hStep, ih hRest]
      omega

/-
  The counting rule: a quantity that grows by one with each
  step that hits, and by nothing otherwise, counts the hits
  of a run.
-/
theorem run_count
    {measure : σ → Int}
    (hMeasure : ∀ s label s', step s label = some s' →
      measure s' =
        measure s + if hit s label then 1 else 0)
    (hRun : run step s labels = some s') :
    measure s' =
      measure s + countAlong step hit s labels := by
  induction labels generalizing s with
  | nil =>
      simp only [run_nil, Option.some.injEq] at hRun
      simp [hRun, countAlong]
  | cons label labels ih =>
      rcases exists_step_of_run_cons hRun with
        ⟨s₁, hStep, hRest⟩
      rw [ih hRest, hMeasure s label s₁ hStep,
        countAlong_cons_of_step hStep]
      push_cast
      split <;> omega

------------------------------------------------------------
-- Simulation
------------------------------------------------------------

/-
  The simulation rule: if every step is matched by a run of
  another system between the views of its ends, so is every
  run.
-/
theorem run_simulation
    {τ κ : Type}
    {step' : τ → κ → Option τ}
    (view : σ → τ)
    (hPreserved : ∀ s label s', I s →
      step s label = some s' → I s')
    (hMatched : ∀ s label s', I s →
      step s label = some s' →
        ∃ labels', run step' (view s) labels' =
          some (view s'))
    (hStart : I s)
    (hRun : run step s labels = some s') :
    ∃ labels', run step' (view s) labels' =
      some (view s') := by
  induction labels generalizing s with
  | nil =>
      simp only [run_nil, Option.some.injEq] at hRun
      exact ⟨[], by rw [hRun]; rfl⟩
  | cons label labels ih =>
      rcases exists_step_of_run_cons hRun with
        ⟨s₁, hStep, hRest⟩
      rcases hMatched s label s₁ hStart hStep with
        ⟨front, hFront⟩
      rcases ih (hPreserved s label s₁ hStart hStep) hRest with
        ⟨back, hBack⟩
      exact ⟨front ++ back, by rw [run_append hFront, hBack]⟩

/-
  The converse rule: if every step from a view is matched by
  a run to a state with that view, every run from a view is
  the view of a run.
-/
theorem exists_run_of_run_view
    {τ κ : Type}
    {step' : τ → κ → Option τ}
    {labels' : List κ}
    {t : τ}
    (view : σ → τ)
    (hPreserved : ∀ s label s', I s →
      step s label = some s' → I s')
    (hMatched : ∀ s label' t, I s →
      step' (view s) label' = some t →
        ∃ labels s', run step s labels = some s' ∧
          view s' = t)
    (hStart : I s)
    (hRun : run step' (view s) labels' = some t) :
    ∃ labels s', run step s labels = some s' ∧
      view s' = t := by
  induction labels' generalizing s with
  | nil =>
      simp only [run_nil, Option.some.injEq] at hRun
      exact ⟨[], s, rfl, hRun⟩
  | cons label' labels' ih =>
      rcases exists_step_of_run_cons hRun with
        ⟨t₁, hStep, hRest⟩
      rcases hMatched s label' t₁ hStart hStep with
        ⟨front, s₁, hFront, rfl⟩
      rcases ih (run_invariant hPreserved hStart hFront)
          hRest with
        ⟨back, s', hBack, hView⟩
      exact ⟨front ++ back, s',
        by rw [run_append hFront, hBack], hView⟩

/-
  The simulation rule for a relation between the states: in
  runs whose steps meet `ok`, each step keeps the related
  state or is matched by a step from it.
-/
theorem run_simulation_rel
    {τ κ : Type}
    {step' : τ → κ → Option τ}
    {R : σ → τ → Prop}
    {t : τ}
    (hMatched : ∀ s t label s', R s t → ok s label →
      step s label = some s' →
        R s' t ∨ ∃ label' t', step' t label' = some t' ∧
          R s' t')
    (hStart : R s t)
    (hAlong : Along step ok s labels)
    (hRun : run step s labels = some s') :
    ∃ labels' t', run step' t labels' = some t' ∧
      R s' t' := by
  induction labels generalizing s t with
  | nil =>
      simp only [run_nil, Option.some.injEq] at hRun
      exact ⟨[], t, rfl, hRun ▸ hStart⟩
  | cons label labels ih =>
      rcases exists_step_of_run_cons hRun with
        ⟨s₁, hStep, hRest⟩
      rw [along_cons_of_step hStep] at hAlong
      rcases hMatched s t label s₁ hStart hAlong.1 hStep with
        hSame | ⟨label', t₁, hStep', hRelated⟩
      · exact ih hSame hAlong.2 hRest
      · rcases ih hRelated hAlong.2 hRest with
          ⟨labels', t', hRun', hEnd⟩
        exact ⟨label' :: labels', t',
          (run_cons_of_step hStep').trans hRun', hEnd⟩

/-
  The simulation rule with conditions on the steps: those
  that the view does not show are left out, the others meet
  the condition of the other system. What holds of every
  view holds of every state of its run.
-/
theorem run_simulation_along
    {τ κ : Type}
    {step' : τ → κ → Option τ}
    {ok' : τ → κ → Prop}
    {P' : τ → Prop}
    (view : σ → τ)
    (hPreserved : ∀ s label s', I s → ok s label →
      step s label = some s' → I s')
    (hMatched : ∀ s label s', I s → ok s label →
      step s label = some s' →
        view s' = view s ∨
          ∃ label', ok' (view s) label' ∧
            step' (view s) label' = some (view s'))
    (hStart : I s)
    (hAlong : Along step ok s labels)
    (hAll : Throughout step (fun s => P' (view s)) s labels)
    (hRun : run step s labels = some s') :
    ∃ labels', run step' (view s) labels' =
        some (view s') ∧
      Along step' ok' (view s) labels' ∧
      Throughout step' P' (view s) labels' := by
  induction labels generalizing s with
  | nil =>
      simp only [run_nil, Option.some.injEq] at hRun
      exact ⟨[], by rw [hRun]; rfl, trivial, hAll⟩
  | cons label labels ih =>
      rcases exists_step_of_run_cons hRun with
        ⟨s₁, hStep, hRest⟩
      have hHere := throughout_head hAll
      rw [along_cons_of_step hStep] at hAlong
      rw [throughout_cons_of_step hStep] at hAll
      rcases ih
          (hPreserved s label s₁ hStart hAlong.1 hStep)
          hAlong.2 hAll.2 hRest with
        ⟨labels', hRun', hAlong', hAll'⟩
      rcases hMatched s label s₁ hStart hAlong.1 hStep with
        hSame | ⟨label', hOk, hStep'⟩
      · rw [hSame] at hRun' hAlong' hAll'
        exact ⟨labels', hRun', hAlong', hAll'⟩
      · refine ⟨label' :: labels', ?_, ?_, ?_⟩
        · rw [run_cons_of_step hStep', hRun']
        · exact (along_cons_of_step hStep').mpr
            ⟨hOk, hAlong'⟩
        · exact (throughout_cons_of_step hStep').mpr
            ⟨hHere, hAll'⟩

end StepSystem
