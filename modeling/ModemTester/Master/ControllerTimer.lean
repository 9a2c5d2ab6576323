import ModemTester.Master.MasterController

/-
  The timer of the availability controller.

  `start` and every call of `periodicAction` set the timer
  anew, which cancels the wait that is still pending, and
  wait for it. A cancelled wait runs its handler too, and
  `periodicAction` does not look at the error code: it acts
  and sets the timer as always. Started once, the controller
  keeps its periods. Started twice, each of its two waits
  cancels the other, and from then on a handler is always
  ready to run, whatever the clock says.

  The clock may stand still or advance between any two
  steps, and a handler may run late.

  Key definitions include:
    * `TimerWait`
    * `ControllerTimer`
    * `ControllerTimer.step`

  Main declarations:
    * `ControllerTimer.paced_of_started_once`
    * `ControllerTimer.spins_of_started_twice`
-/

------------------------------------------------------------
-- The Timer
------------------------------------------------------------

namespace ModemTester

/- A handler passed to `async_wait` that has not run. -/
inductive TimerWait where
  | waiting (expiry : Nat)
  /- Its error code is 125 when it was cancelled. -/
  | queued (ec : Nat)
  deriving DecidableEq, Repr

/- Setting the time of expiry cancels what is pending. -/
def TimerWait.cancel : TimerWait → TimerWait
  | .waiting _ => .queued 125
  | .queued ec => .queued ec

def TimerWait.IsQueued : TimerWait → Prop
  | .waiting _ => False
  | .queued _ => True

/- Seconds in ticks of the clock. -/
def seconds (n : Nat) : Nat := n * 1000000000

/- The delay that `periodicAction` sets. -/
def MasterController.period (c : MasterController) : Nat :=
  match c.current with
  | .availabilityMode =>
      if c.tryingAvalability then seconds 60 else seconds 1
  | _ => seconds 1

/- `waits` are in the order in which they were started. -/
structure ControllerTimer where
  controller : MasterController
  now : Nat
  waits : List TimerWait

inductive ControllerTimerLabel where
  /- `MasterController::start()`. -/
  | start
  | stop
  | passes (ticks : Nat)
  | expires (index : Nat)
  /- The io thread calls a handler that is queued. -/
  | periodicAction (index : Nat)
  /- The thread of a runnable dispatches its event. -/
  | execute (index : Nat)
  /- Somebody else dispatches. -/
  | dispatch (event : Event)
  | setRemoteReachability (reachable : Bool)
  deriving DecidableEq, Repr

namespace ControllerTimer

def initial : ControllerTimer where
  controller := MasterController.start
  now := 0
  waits := []

/- `expires_from_now(delay)`, and then `async_wait`. -/
def waitFor
    (s : ControllerTimer)
    (delay : Nat) : ControllerTimer :=
  { s with
    waits := s.waits.map TimerWait.cancel ++
      [.waiting (s.now + delay)] }

/- The steps of the controller that its timer has no part in. -/
def other
    (s : ControllerTimer)
    (label : ControllerLabel) : Option ControllerTimer :=
  (s.controller.step label).map fun controller =>
    { s with controller := controller }

def step (s : ControllerTimer) :
    ControllerTimerLabel → Option ControllerTimer
  | .start => some (s.waitFor (seconds 1))
  | .stop =>
      some
        { s with
          controller :=
            s.controller.addAndStartRunnable .endTest }
  | .passes ticks => some { s with now := s.now + ticks }
  | .expires index =>
      match s.waits[index]? with
      | some (.waiting expiry) =>
          if expiry ≤ s.now then
            some
              { s with waits := s.waits.set index (.queued 0) }
          else
            none
      | _ => none
  | .periodicAction index =>
      match s.waits[index]? with
      | some (.queued _) =>
          some
            ({ s with
              controller := s.controller.periodicAction
              waits := s.waits.eraseIdx index }.waitFor
                s.controller.period)
      | _ => none
  | .execute index => s.other (.execute index)
  | .dispatch event => s.other (.dispatch event)
  | .setRemoteReachability reachable =>
      s.other (.setRemoteReachability reachable)

variable {s s' : ControllerTimer}
variable {label : ControllerTimerLabel}
variable {labels : List ControllerTimerLabel}

/- What a step does to the clock and the waits. -/
inductive Moves (s : ControllerTimer) :
    ControllerTimerLabel → ControllerTimer → Prop where
  | start : Moves s .start (s.waitFor (seconds 1))
  | passes
      (ticks : Nat) :
      Moves s (.passes ticks) { s with now := s.now + ticks }
  | expires
      {index expiry : Nat}
      (hWait : s.waits[index]? = some (.waiting expiry))
      (hExpired : expiry ≤ s.now) :
      Moves s (.expires index)
        { s with waits := s.waits.set index (.queued 0) }
  | periodicAction
      {index ec : Nat}
      (hWait : s.waits[index]? = some (.queued ec)) :
      Moves s (.periodicAction index)
        ({ s with
          controller := s.controller.periodicAction
          waits := s.waits.eraseIdx index }.waitFor
            s.controller.period)
  | other
      {label : ControllerTimerLabel}
      {controller : MasterController}
      (hStart : label ≠ .start)
      (hAction : ∀ index, label ≠ .periodicAction index) :
      Moves s label { s with controller := controller }

theorem moves_of_step
    (hStep : step s label = some s') :
    Moves s label s' := by
  cases label with
  | start =>
      cases hStep
      exact .start
  | stop =>
      cases hStep
      exact .other (by simp) (by simp)
  | passes ticks =>
      cases hStep
      exact .passes ticks
  | expires index =>
      simp only [step] at hStep
      split at hStep
      · rename_i expiry hWait
        split at hStep
        · rename_i hExpired
          cases hStep
          exact .expires hWait hExpired
        · cases hStep
      · cases hStep
  | periodicAction index =>
      simp only [step] at hStep
      split at hStep
      · rename_i ec hWait
        cases hStep
        exact .periodicAction hWait
      · cases hStep
  | execute | dispatch | setRemoteReachability =>
      simp only [step, ControllerTimer.other,
        Option.map_eq_some_iff] at hStep
      rcases hStep with ⟨controller, -, rfl⟩
      exact .other (by simp) (by simp)

------------------------------------------------------------
-- One Wait For Each Start
------------------------------------------------------------

/- As many waits as starts, of which only the last pends. -/
structure Waits (s : ControllerTimer) (starts : Nat) :
    Prop where
  length : s.waits.length = starts
  queued : ∀ wait ∈ s.waits.dropLast, wait.IsQueued

theorem isQueued_cancel (wait : TimerWait) :
    wait.cancel.IsQueued := by
  cases wait <;> trivial

/- Waiting anew cancels all that came before. -/
theorem waits_waitFor
    (s : ControllerTimer)
    (delay : Nat) :
    Waits (s.waitFor delay) (s.waits.length + 1) where
  length := by simp [waitFor]
  queued := by
    intro wait hWait
    simp only [waitFor, List.dropLast_concat,
      List.mem_map] at hWait
    rcases hWait with ⟨before, -, rfl⟩
    exact isQueued_cancel before

theorem Waits.step
    {starts : Nat}
    (hWaits : Waits s starts)
    (hStep : ControllerTimer.step s label = some s') :
    Waits s' (starts + if label = .start then 1 else 0) := by
  cases moves_of_step hStep with
  | start =>
      rw [← hWaits.length]
      exact waits_waitFor s _
  | passes => exact ⟨hWaits.length, hWaits.queued⟩
  | other hStart =>
      rw [if_neg hStart]
      exact ⟨hWaits.length, hWaits.queued⟩
  | @expires index expiry hWait hExpired =>
      refine ⟨?_, ?_⟩
      · simpa using hWaits.length
      · intro wait hMem
        rw [List.dropLast_eq_take, List.length_set,
          List.take_set] at hMem
        rcases List.mem_or_eq_of_mem_set hMem with hOld | rfl
        · rw [← List.dropLast_eq_take] at hOld
          exact hWaits.queued wait hOld
        · trivial
  | @periodicAction index ec hWait =>
      have hIndex := (List.getElem?_eq_some_iff.mp hWait).1
      have hNext := waits_waitFor
        { s with
          controller := s.controller.periodicAction
          waits := s.waits.eraseIdx index }
        s.controller.period
      have hLength : (s.waits.eraseIdx index).length + 1 =
          starts := by
        rw [List.length_eraseIdx_of_lt hIndex,
          Nat.sub_add_cancel (Nat.one_le_of_lt hIndex),
          hWaits.length]
      simp only [hLength] at hNext
      exact hNext

theorem waits_of_run
    (hRun : StepSystem.run step initial labels = some s) :
    Waits s (labels.count .start) := by
  refine StepSystem.run_invariant_history
    (H := fun done s => Waits s (done.count .start)) ?_
    ⟨rfl, by simp [initial]⟩ hRun
  intro done label s s' _ hWaits hStep
  have hNext := hWaits.step hStep
  rw [List.count_append, List.count_singleton]
  simpa using hNext

------------------------------------------------------------
-- Started Once
------------------------------------------------------------

/- The one wait there is does not end before `date`. -/
def NotBefore (date : Nat) (s : ControllerTimer) : Prop :=
  s.waits.length ≤ 1 ∧
    (∀ expiry, .waiting expiry ∈ s.waits → date ≤ expiry) ∧
    ∀ ec, .queued ec ∈ s.waits → date ≤ s.now

theorem notBefore_waitFor
    {delay : Nat}
    (hNone : s.waits = []) :
    NotBefore (s.now + delay) (s.waitFor delay) := by
  simp [NotBefore, waitFor, hNone]

/- With one wait, the handler that runs leaves none. -/
theorem eraseIdx_eq_nil
    {index : Nat}
    {wait : TimerWait}
    (hOne : s.waits.length ≤ 1)
    (hWait : s.waits[index]? = some wait) :
    s.waits.eraseIdx index = [] := by
  have hIndex := (List.getElem?_eq_some_iff.mp hWait).1
  rw [← List.length_eq_zero_iff,
    List.length_eraseIdx_of_lt hIndex]
  omega

theorem NotBefore.step
    {date : Nat}
    (hNotBefore : NotBefore date s)
    (hStart : label ≠ .start)
    (hStep : ControllerTimer.step s label = some s') :
    NotBefore date s' := by
  rcases hNotBefore with ⟨hOne, hWaiting, hQueued⟩
  cases moves_of_step hStep with
  | start => exact absurd rfl hStart
  | other => exact ⟨hOne, hWaiting, hQueued⟩
  | passes ticks =>
      exact ⟨hOne, hWaiting, fun ec hMem =>
        Nat.le_add_right_of_le (hQueued ec hMem)⟩
  | @expires index expiry hWait hExpired =>
      have hDate := (hWaiting expiry
        (List.mem_of_getElem? hWait)).trans hExpired
      refine ⟨?_, ?_, fun _ _ => hDate⟩
      · rw [List.length_set]
        exact hOne
      · intro other hMem
        rcases List.mem_or_eq_of_mem_set hMem with hOld | hNew
        · exact hWaiting other hOld
        · cases hNew
  | @periodicAction index ec hWait =>
      have hDate := hQueued ec (List.mem_of_getElem? hWait)
      have hNext := @notBefore_waitFor
        { s with
          controller := s.controller.periodicAction
          waits := s.waits.eraseIdx index }
        s.controller.period (eraseIdx_eq_nil hOne hWait)
      rcases hNext with ⟨hLength, hExpiry, hNone⟩
      exact ⟨hLength, fun expiry hMem =>
          (Nat.le_add_right_of_le hDate).trans
            (hExpiry expiry hMem),
        fun _ _ => hDate⟩

/- The handler that runs sets the next date, -/
theorem notBefore_of_action
    {index : Nat}
    (hOne : s.waits.length ≤ 1)
    (hAction : step s (.periodicAction index) = some s') :
    NotBefore (s.now + s.controller.period) s' := by
  cases moves_of_step hAction with
  | other _ hOther => exact absurd rfl (hOther index)
  | periodicAction hWait =>
      exact @notBefore_waitFor
        { s with
          controller := s.controller.periodicAction
          waits := s.waits.eraseIdx index }
        s.controller.period (eraseIdx_eq_nil hOne hWait)

/- and the next one runs after it. -/
theorem NotBefore.le_now
    {date index : Nat}
    (hNotBefore : NotBefore date s)
    (hAction : ControllerTimer.step s (.periodicAction index) =
      some s') :
    date ≤ s.now := by
  cases moves_of_step hAction with
  | other _ hOther => exact absurd rfl (hOther index)
  | @periodicAction _ ec hWait =>
      exact hNotBefore.2.2 ec (List.mem_of_getElem? hWait)

/- No action without a start. -/
theorem Waits.started
    {starts index : Nat}
    (hWaits : Waits s starts)
    (hAction : ControllerTimer.step s (.periodicAction index) =
      some s') :
    0 < starts := by
  cases moves_of_step hAction with
  | other _ hOther => exact absurd rfl (hOther index)
  | periodicAction hWait =>
      have hIndex := (List.getElem?_eq_some_iff.mp hWait).1
      rw [hWaits.length] at hIndex
      exact Nat.zero_lt_of_lt hIndex

/-
  Started once, the controller acts again only after the
  delay that its action has set: a minute when it has just
  found the mode that it asked for, and a second otherwise.
-/
theorem paced_of_started_once
    {labels' : List ControllerTimerLabel}
    {index index' : Nat}
    {s₁ s₂ s₃ : ControllerTimer}
    (hOnce : (labels ++ labels').count .start ≤ 1)
    (hRun : StepSystem.run step initial labels = some s)
    (hAction : step s (.periodicAction index) = some s₁)
    (hRest : StepSystem.run step s₁ labels' = some s₂)
    (hNext : step s₂ (.periodicAction index') = some s₃) :
    s.now + s.controller.period ≤ s₂.now := by
  rw [List.count_append] at hOnce
  have hWaits := waits_of_run hRun
  -- the first action had a start, so none comes after it
  have hStarted := hWaits.started hAction
  have hOne : s.waits.length ≤ 1 := by
    rw [hWaits.length]
    omega
  have hNoStart : ControllerTimerLabel.start ∉ labels' := by
    rw [← List.count_eq_zero]
    omega
  have hAlong : StepSystem.Along step
      (fun _ label => label ≠ .start) s₁ labels' := by
    refine StepSystem.along_of_forall ?_
    rintro label hLabel rfl
    exact hNoStart hLabel
  have hAfter : NotBefore (s.now + s.controller.period) s₂ :=
    StepSystem.run_invariant_along
      (fun _ _ _ hHere hStart hStep => hHere.step hStart hStep)
      (notBefore_of_action hOne hAction) hAlong hRest
  exact hAfter.le_now hNext

/- A mode that is found, and ended a minute later. -/
def noticedLabels : List ControllerTimerLabel :=
  [.start, .passes (seconds 1), .expires 0,
    .periodicAction 0, .execute 0, .dispatch .remoteAck,
    .passes (seconds 1), .expires 0]

theorem paced_of_started_once_noticed :
    ∃ s s₁ s₂ s₃,
      StepSystem.run step initial noticedLabels = some s ∧
      step s (.periodicAction 0) = some s₁ ∧
      StepSystem.run step s₁
        [.passes (seconds 60), .expires 0] = some s₂ ∧
      step s₂ (.periodicAction 0) = some s₃ ∧
      s₃.controller.pending = [.endModeCommand] ∧
      s.now + seconds 60 ≤ s₂.now := by
  refine ⟨_, _, _, _, rfl, rfl, rfl, rfl, rfl, ?_⟩
  exact @paced_of_started_once _ noticedLabels
    [.passes (seconds 60), .expires 0] 0 0 _ _ _
    (by decide) rfl rfl rfl rfl

------------------------------------------------------------
-- Started Twice
------------------------------------------------------------

/- A handler is queued, and its action queues another one. -/
theorem Waits.exists_periodicAction
    {starts : Nat}
    (hWaits : Waits s starts)
    (hTwice : 2 ≤ starts) :
    ∃ s', ControllerTimer.step s (.periodicAction 0) =
        some s' ∧
      s'.now = s.now ∧ Waits s' starts := by
  have hLength := hWaits.length
  cases hFirst : s.waits with
  | nil =>
      rw [hFirst] at hLength
      simp at hLength
      omega
  | cons wait rest =>
      have hQueued : wait.IsQueued := by
        refine hWaits.queued wait ?_
        rw [hFirst, List.dropLast_cons_of_ne_nil]
        · exact List.mem_cons_self
        · rintro rfl
          rw [hFirst] at hLength
          simp at hLength
          omega
      cases wait with
      | waiting expiry => exact hQueued.elim
      | queued ec =>
          have hStep : ∃ s',
              ControllerTimer.step s (.periodicAction 0) =
                some s' ∧ s'.now = s.now := by
            simp [ControllerTimer.step, hFirst, waitFor]
          rcases hStep with ⟨s', hStep, hNow⟩
          exact ⟨s', hStep, hNow, hWaits.step hStep⟩

/-
  Started twice, the controller never waits again: from every
  state it can be called any number of times while the clock
  stands still.
-/
theorem spins_of_started_twice
    (hTwice : 2 ≤ labels.count .start)
    (hRun : StepSystem.run step initial labels = some s)
    (calls : Nat) :
    ∃ s', StepSystem.run step s
        (List.replicate calls (.periodicAction 0)) =
          some s' ∧
      s'.now = s.now := by
  have hWaits := waits_of_run hRun
  clear hRun
  induction calls generalizing s with
  | zero => exact ⟨s, rfl, rfl⟩
  | succ calls ih =>
      rcases hWaits.exists_periodicAction hTwice with
        ⟨s₁, hStep, hNow, hNext⟩
      rcases ih hNext with ⟨s', hRest, hNow'⟩
      refine ⟨s', ?_, hNow'.trans hNow⟩
      rw [List.replicate_succ,
        StepSystem.run_cons_of_step hStep, hRest]

/- The first wait of the two has been cancelled. -/
theorem spins_of_started_twice_at_once :
    ∃ s s', StepSystem.run step initial [.start, .start] =
        some s ∧
      s.waits = [.queued 125, .waiting (seconds 1)] ∧
      StepSystem.run step s
        (List.replicate 5 (.periodicAction 0)) = some s' ∧
      s'.now = s.now := by
  rcases @spins_of_started_twice _ [.start, .start]
    (by decide) rfl 5 with ⟨s', hCalls, hNow⟩
  exact ⟨_, s', rfl, rfl, hCalls, hNow⟩

end ControllerTimer

end ModemTester
