import ModemTester.Library.StepSystem
import ModemTester.Master.MasterFsm

/-
  The availability controller (`MasterController.cpp`) next
  to the master's machine.

  A tick hands commands to the runnable pool, whose threads
  dispatch them some time later. Everything else that
  dispatches on the machine may do so at any time: the link,
  timers, activities and scripts.

  `_tryingAvalability` is cleared only by a tick that finds
  the machine in `AvailabilityMode`. A mode that ends before
  such a tick leaves the flag set with nothing pending, and
  from then on every tick in `Idle` does nothing.

  Key definitions include:
    * `MasterController`
    * `MasterController.periodicAction`
    * `MasterController.AwaitsCommand`
    * `MasterController.Attended`

  Main declarations:
    * `MasterController.awaits_command_of_attended`
    * `MasterController.may_fail_of_not_attended`
    * `MasterController.idle_for_ever`
-/

------------------------------------------------------------
-- The Controller
------------------------------------------------------------

namespace ModemTester

/-
  `current` is `MasterFSM::current_state_ptr`, `pending` the
  events of the runnables that have not dispatched yet.
-/
structure MasterController where
  current : MasterState
  remoteReachable : Bool
  tryingAvalability : Bool
  pending : List Event
  deriving DecidableEq, Repr

inductive ControllerLabel where
  /- The timer calls `periodicAction`. -/
  | tick
  /- The thread of a runnable dispatches its event. -/
  | execute (index : Nat)
  /- Somebody else dispatches. -/
  | dispatch (event : Event)
  | setRemoteReachability (reachable : Bool)
  deriving DecidableEq, Repr

namespace MasterController

/- The constructor, and `MasterFSM::start()`. -/
def start : MasterController where
  current := masterFsm.initialState
  remoteReachable := false
  tryingAvalability := false
  pending := []

/- `addAndStartRunnable(new DispatchingRunnable<...>())`. -/
def addAndStartRunnable
    (c : MasterController)
    (event : Event) : MasterController :=
  { c with pending := c.pending ++ [event] }

/- Every branch also starts the timer of the next tick. -/
def periodicAction (c : MasterController) :
    MasterController :=
  match c.current with
  | .idle =>
      let c := { c with remoteReachable := false }
      if ¬ c.remoteReachable then
        if ¬ c.tryingAvalability then
          { c with tryingAvalability := true }
            |>.addAndStartRunnable .availabilityModeCommand
        else
          c
      else
        { c.addAndStartRunnable .throughputModeCommand with
          remoteReachable := false }
  | .availabilityMode =>
      if c.tryingAvalability then
        { c with tryingAvalability := false }
      else
        c.addAndStartRunnable .endModeCommand
  | _ => c

/- `MasterFSM::dispatch`; the process may exit. -/
def dispatch
    (c : MasterController)
    (event : Event) : Option MasterController :=
  match (masterFsm.dispatch c.current event).2 with
  | .stays => some c
  | .transits target => some { c with current := target }
  | .exits => none

def step
    (c : MasterController) :
    ControllerLabel → Option MasterController
  | .tick => some c.periodicAction
  | .execute index =>
      match c.pending[index]? with
      | some event =>
          dispatch
            { c with pending := c.pending.eraseIdx index }
            event
      | none => none
  | .dispatch event => c.dispatch event
  | .setRemoteReachability reachable =>
      some { c with remoteReachable := reachable }

------------------------------------------------------------
-- Waiting For A Command
------------------------------------------------------------

/- A command of the controller has not been dispatched yet. -/
def CommandPending (c : MasterController) : Prop :=
  Event.availabilityModeCommand ∈ c.pending

/-
  In `Idle` with the flag set, the command that the
  controller waits for is still to be dispatched.
-/
def AwaitsCommand (c : MasterController) : Prop :=
  c.current = .idle → c.tryingAvalability = true →
    c.CommandPending

/-
  Dispatching `event` does not end a mode that the
  controller has not noticed.
-/
def EndsAttended
    (c : MasterController)
    (event : Event) : Prop :=
  event = .endModeCommand → c.current.kind = .activity →
    c.tryingAvalability = true → c.CommandPending

/-
  Told from the state before the step: an `EndModeCommand`
  is dispatched in a mode only when the flag has been
  cleared or another command is pending, and the last
  pending command is not dispatched, and so lost, while the
  end of a mode is being acknowledged.
-/
def Attended (c : MasterController) : ControllerLabel → Prop
  | .execute index =>
      ∀ event, c.pending[index]? = some event →
        EndsAttended
            { c with pending := c.pending.eraseIdx index }
            event ∧
          (event = .availabilityModeCommand →
            c.current = .waitAckAfterEndMode →
              c.tryingAvalability = true →
                Event.availabilityModeCommand ∈
                  c.pending.eraseIdx index)
  | .dispatch event => c.EndsAttended event
  | _ => True

instance (c : MasterController) :
    Decidable c.CommandPending := by
  unfold CommandPending
  infer_instance

instance (c : MasterController) :
    Decidable c.AwaitsCommand := by
  unfold AwaitsCommand
  infer_instance

instance (c : MasterController) (event : Event) :
    Decidable (c.EndsAttended event) := by
  unfold EndsAttended
  infer_instance

instance (c : MasterController) (label : ControllerLabel) :
    Decidable (c.Attended label) :=
  match label with
  | .execute index =>
      match hEvent : c.pending[index]? with
      | none => .isTrue (by simp [Attended, hEvent])
      | some event =>
          decidable_of_iff
            (EndsAttended
                { c with
                  pending := c.pending.eraseIdx index }
                event ∧
              (event = .availabilityModeCommand →
                c.current = .waitAckAfterEndMode →
                  c.tryingAvalability = true →
                    Event.availabilityModeCommand ∈
                      c.pending.eraseIdx index))
            (by simp [Attended, hEvent])
  | .dispatch event =>
      inferInstanceAs (Decidable (c.EndsAttended event))
  | .tick => .isTrue trivial
  | .setRemoteReachability _ => .isTrue trivial

end MasterController

end ModemTester

------------------------------------------------------------
-- Attended Runs
------------------------------------------------------------

namespace ModemTester

namespace MasterController

/-
  The flag is not left behind: in `Idle`, and on the way
  there from a mode, its command is pending.
-/
def NotForgotten (c : MasterController) : Prop :=
  c.current = .idle ∨ c.current = .waitAckAfterEndMode →
    c.tryingAvalability = true → c.CommandPending

/- How the machine gets to `Idle` or to the state before. -/
theorem source_of_transits
    {state target : MasterState}
    {event : Event}
    (hDispatch : (masterFsm.dispatch state event).2 =
      .transits target)
    (hTarget : target = .idle ∨
      target = .waitAckAfterEndMode) :
    (state = .idle ∧ event = .remoteAck) ∨
      state = .waitAckAfterEndMode ∨
      (state.kind = .activity ∧ event = .endModeCommand) := by
  revert hDispatch hTarget
  cases state <;> cases event <;> cases target <;> decide

/- Dispatching leaves the controller's own fields alone. -/
theorem dispatch_fields
    {c c' : MasterController}
    {event : Event}
    (hDispatch : c.dispatch event = some c') :
    c'.tryingAvalability = c.tryingAvalability ∧
      c'.pending = c.pending := by
  unfold dispatch at hDispatch
  split at hDispatch
  · cases hDispatch
    exact ⟨rfl, rfl⟩
  · cases hDispatch
    exact ⟨rfl, rfl⟩
  · cases hDispatch

theorem NotForgotten.dispatch
    {c c' : MasterController}
    {event : Event}
    (hKept : c.NotForgotten)
    (hEnds : c.EndsAttended event)
    (hDispatch : c.dispatch event = some c') :
    c'.NotForgotten := by
  have hFields := dispatch_fields hDispatch
  unfold MasterController.dispatch at hDispatch
  split at hDispatch
  · cases hDispatch
    exact hKept
  · rename_i target hTransits
    cases hDispatch
    intro hTarget hTrying
    rcases source_of_transits hTransits hTarget with
      hIdle | hWait | hEnd
    · exact hKept (Or.inl hIdle.1) hTrying
    · exact hKept (Or.inr hWait) hTrying
    · exact hEnds hEnd.2 hEnd.1 hTrying
  · cases hDispatch

/- Another runnable leaves the command pending. -/
theorem mem_eraseIdx_of_ne
    {pending : List Event}
    {index : Nat}
    {event command : Event}
    (hMem : command ∈ pending)
    (hEvent : pending[index]? = some event)
    (hNe : event ≠ command) :
    command ∈ pending.eraseIdx index := by
  rcases List.mem_iff_getElem?.mp hMem with ⟨other, hOther⟩
  refine List.mem_eraseIdx_iff_getElem?.mpr
    ⟨other, ?_, hOther⟩
  intro hSame
  rw [hSame, hEvent] at hOther
  exact hNe (Option.some.inj hOther)

theorem NotForgotten.execute
    {c c' : MasterController}
    {index : Nat}
    {event : Event}
    (hKept : c.NotForgotten)
    (hAttended : c.Attended (.execute index))
    (hEvent : c.pending[index]? = some event)
    (hDispatch : MasterController.dispatch
      { c with pending := c.pending.eraseIdx index } event =
        some c') :
    c'.NotForgotten := by
  have hMet := hAttended event hEvent
  by_cases hCommand : event = .availabilityModeCommand
  · subst hCommand
    unfold MasterController.dispatch at hDispatch
    split at hDispatch
    · rename_i hStays
      cases hDispatch
      -- The command is lost, which `Idle` does not do.
      rintro (hIdle | hWait) hTrying
      · rw [hIdle] at hStays
        exact absurd hStays (by decide)
      · exact hMet.2 rfl hWait hTrying
    · rename_i target hTransits
      cases hDispatch
      intro hTarget hTrying
      rcases source_of_transits hTransits hTarget with
        hIdle | hWait | hEnd
      · exact absurd hIdle.2 (by decide)
      · exact hMet.2 rfl hWait hTrying
      · exact absurd hEnd.2 (by decide)
    · cases hDispatch
  · refine NotForgotten.dispatch ?_ hMet.1 hDispatch
    intro hNear hTrying
    exact mem_eraseIdx_of_ne (hKept hNear hTrying) hEvent
      hCommand

/- A tick that sets the flag hands over its command. -/
theorem NotForgotten.periodicAction
    {c : MasterController}
    (hKept : c.NotForgotten) :
    c.periodicAction.NotForgotten := by
  unfold MasterController.periodicAction
  split
  · rename_i hIdle
    cases hTrying : c.tryingAvalability with
    | false =>
        intro _ _
        simp [CommandPending, addAndStartRunnable]
    | true =>
        intro _ _
        simpa [CommandPending] using
          hKept (Or.inl hIdle) hTrying
  · rename_i hMode
    have hNear : ¬ (c.current = .idle ∨
        c.current = .waitAckAfterEndMode) := by
      simp [hMode]
    split
    · intro hTarget
      exact absurd hTarget hNear
    · intro hTarget
      exact absurd hTarget hNear
  · exact hKept

theorem NotForgotten.step
    {c c' : MasterController}
    {label : ControllerLabel}
    (hKept : c.NotForgotten)
    (hAttended : c.Attended label)
    (hStep : step c label = some c') :
    c'.NotForgotten := by
  cases label with
  | tick =>
      cases hStep
      exact hKept.periodicAction
  | execute index =>
      simp only [MasterController.step] at hStep
      split at hStep
      · rename_i event hEvent
        exact hKept.execute hAttended hEvent hStep
      · cases hStep
  | dispatch event => exact hKept.dispatch hAttended hStep
  | setRemoteReachability reachable =>
      cases hStep
      exact hKept

/-
  In every attended run, whenever the machine is in `Idle`
  with the flag set, the command that will take it out is
  pending.
-/
theorem awaits_command_of_attended
    (labels : List ControllerLabel)
    (hAlong : StepSystem.Along step Attended start labels) :
    StepSystem.Throughout step AwaitsCommand start labels :=
  StepSystem.throughout_of_along (I := NotForgotten)
    (fun _ _ _ hKept hAttended hStep =>
      hKept.step hAttended hStep)
    (fun _ hKept hIdle => hKept (Or.inl hIdle))
    (fun _ hTrying => absurd hTrying (by decide)) hAlong

/- A test that the controller notices, and its end. -/
theorem awaits_command_through_test :
    StepSystem.Throughout step AwaitsCommand start
      [.tick, .tick, .execute 0, .dispatch .remoteAck, .tick,
        .tick, .execute 0, .dispatch .remoteAck, .tick] :=
  awaits_command_of_attended _ (by decide)

/-
  A controller that awaits its command can start a test: one
  more tick, and the dispatch of what is pending.
-/
theorem can_start_test
    {c : MasterController}
    (hAwaits : c.AwaitsCommand)
    (hIdle : c.current = .idle) :
    ∃ index c', StepSystem.run step c
        [.tick, .execute index] = some c' ∧
      c'.current = .sentAvailableModeCommand := by
  have hPending :
      Event.availabilityModeCommand ∈
        c.periodicAction.pending := by
    unfold periodicAction
    simp only [hIdle]
    cases hTrying : c.tryingAvalability with
    | false => simp [addAndStartRunnable]
    | true =>
        simpa [CommandPending] using hAwaits hIdle hTrying
  have hCurrent : c.periodicAction.current = .idle := by
    unfold periodicAction
    simp only [hIdle]
    cases hTrying : c.tryingAvalability <;>
      simp [addAndStartRunnable]
  rcases List.mem_iff_getElem?.mp hPending with
    ⟨index, hIndex⟩
  refine ⟨index,
    { c.periodicAction with
      pending := c.periodicAction.pending.eraseIdx index
      current := .sentAvailableModeCommand }, ?_, rfl⟩
  simp only [StepSystem.run, step, hIndex, dispatch, hCurrent]
  rfl

------------------------------------------------------------
-- A Mode That Ends Unnoticed
------------------------------------------------------------

/- The flag is set and its command is gone. -/
def Forgotten (c : MasterController) : Prop :=
  c.tryingAvalability = true ∧ ¬ c.CommandPending

theorem endModeCommand_ends
    {state : MasterState}
    (hKind : state.kind = .activity) :
    (masterFsm.dispatch state .endModeCommand).2 =
      .transits .waitAckAfterEndMode := by
  revert hKind
  cases state <;> decide

/- An unattended step leaves the flag behind. -/
theorem forgotten_of_not_attended
    {c c' : MasterController}
    {label : ControllerLabel}
    (hNot : ¬ c.Attended label)
    (hStep : step c label = some c') :
    c'.current = .waitAckAfterEndMode ∧ c'.Forgotten := by
  -- Ending a mode without the command.
  have hEnded : ∀ {d : MasterController} {event : Event},
      ¬ d.EndsAttended event → d.dispatch event = some c' →
        c'.current = .waitAckAfterEndMode ∧
          c'.Forgotten := by
    intro d event hEnds hDispatch
    simp only [EndsAttended, Classical.not_imp] at hEnds
    rcases hEnds with ⟨hEvent, hKind, hTrying, hPending⟩
    simp only [dispatch, hEvent, endModeCommand_ends hKind,
      Option.some.injEq] at hDispatch
    rw [← hDispatch]
    exact ⟨rfl, hTrying, hPending⟩
  cases label with
  | tick | setRemoteReachability _ =>
      exact absurd trivial hNot
  | dispatch event => exact hEnded hNot hStep
  | execute index =>
      simp only [step] at hStep
      split at hStep
      · rename_i event hEvent
        simp only [Attended, hEvent, Option.some.injEq,
          forall_eq'] at hNot
        rcases not_and_or.mp hNot with hEnds | hLost
        · exact hEnded hEnds hStep
        · -- The command finds a state that ignores it.
          simp only [Classical.not_imp] at hLost
          rcases hLost with
            ⟨hCommand, hWait, hTrying, hPending⟩
          have hStays :
              (masterFsm.dispatch .waitAckAfterEndMode
                .availabilityModeCommand).2 = .stays := rfl
          simp only [dispatch, hCommand, hWait, hStays,
            Option.some.injEq] at hStep
          rw [← hStep]
          exact ⟨rfl, hTrying, hPending⟩
      · cases hStep

/-
  The condition is exact: after a step that breaks it, one
  acknowledgement brings the machine to `Idle` with the flag
  set and nothing pending.
-/
theorem may_fail_of_not_attended
    {c c' : MasterController}
    {label : ControllerLabel}
    (hNot : ¬ c.Attended label)
    (hStep : step c label = some c') :
    ∃ c'', step c' (.dispatch .remoteAck) = some c'' ∧
      ¬ c''.AwaitsCommand := by
  rcases forgotten_of_not_attended hNot hStep with
    ⟨hWait, hTrying, hPending⟩
  refine ⟨{ c' with current := .idle }, ?_, ?_⟩
  · simp only [step, dispatch, hWait]
    rfl
  · intro hAwaits
    exact hPending (hAwaits rfl hTrying)

/- From there on the controller ticks and does nothing. -/
theorem idle_for_ever
    {c c' : MasterController}
    {ticks : Nat}
    (hIdle : c.current = .idle)
    (hForgotten : c.Forgotten)
    (hRun : StepSystem.run step c
      (List.replicate ticks .tick) = some c') :
    c'.current = .idle ∧ c'.Forgotten := by
  induction ticks generalizing c with
  | zero =>
      cases hRun
      exact ⟨hIdle, hForgotten⟩
  | succ ticks ih =>
      have hTick : c.periodicAction =
          { c with remoteReachable := false } := by
        simp [periodicAction, hIdle, hForgotten.1]
      have hStep : step c .tick =
          some { c with remoteReachable := false } := by
        simp only [step, hTick]
      rw [List.replicate_succ,
        StepSystem.run_cons_of_step hStep] at hRun
      exact ih (c := { c with remoteReachable := false })
        hIdle hForgotten hRun

/-
  The test ends before the first tick in `AvailabilityMode`:
  an `EndModeCommand` comes over the link.
-/
theorem forgotten_after_early_end :
    ¬ StepSystem.Throughout step AwaitsCommand start
      [.tick, .execute 0, .dispatch .remoteAck,
        .dispatch .endModeCommand, .dispatch .remoteAck] := by
  decide

end MasterController

end ModemTester
