import ModemTester.Process

/-
  When a process keeps listening to its peer.

  Reads are armed by `entry` only. A byte that the current
  state does not react to by a transition therefore uses up
  the read, and a timer-based state recovers only because
  its timer re-enters it. `RemoteIdle` and `Idle` have no
  timer, and the late handler of a cancelled timer deletes
  the timer that its state has started since.

  Key definitions include:
    * `Process.Hears`
    * `Process.KeepsListening`

  Main declarations:
    * `Process.throughout_hears_iff`
    * `masterAndRemote_hear_iff`
    * `remoteIdle_deaf_after_masterAck`
-/

------------------------------------------------------------
-- Hearing And The Steps That Keep It
------------------------------------------------------------

namespace ModemTester

/- A wait whose handler will run with success. -/
def Wait.IsLive {S : Type} (wait : Wait S) : Prop :=
  wait.status ≠ .cancelled

instance {S : Type} (wait : Wait S) :
    Decidable wait.IsLive := by
  unfold Wait.IsLive
  infer_instance

namespace Process

variable {S : Type} [DecidableEq S]

/- A read is armed, or has its handler queued. -/
def outstandingReads (p : Process S) : Nat :=
  p.pendingReads + p.completedReads

/-
  The current state's timer is armed, or has expired and its
  handler is queued.
-/
def TimerArmed (p : Process S) : Prop :=
  ∃ wait ∈ p.waits, wait.owner = p.current ∧ wait.IsLive

instance (p : Process S) : Decidable p.TimerArmed := by
  unfold TimerArmed
  infer_instance

/-
  Unless an activity owns the stream, a read is outstanding
  or the current state is timer-based with its timer armed.
-/
def Hears (fsm : Fsm S) (p : Process S) : Prop :=
  fsm.kind p.current = .activity ∨
    0 < p.outstandingReads ∨
    (fsm.kind p.current = .timerBased ∧ p.TimerArmed)

instance (fsm : Fsm S) (p : Process S) :
    Decidable (Hears fsm p) := by
  unfold Hears
  infer_instance

/-
  The steps that do not lose the peer, told from the state
  before the step. A byte handled outside an activity is one
  that the state reacts to by a transition, unless another
  read is outstanding or the timer is armed. The late
  handler of a cancelled timer runs when its state is no
  longer current, or when a read is outstanding or another
  timer of the state has expired.
-/
def KeepsListening
    (fsm : Fsm S)
    (p : Process S) :
    ProcessLabel → Prop
  | .handleReadEvt byte =>
      fsm.kind p.current = .activity ∨
        1 < p.outstandingReads ∨
        (∃ event, readEvt byte = some event ∧
          fsm.Accepts p.current event) ∨
        (fsm.kind p.current = .timerBased ∧ p.TimerArmed)
  | .dispatchTimeout timer =>
      ∀ wait, p.queuedWait? timer = some wait →
        wait.status = .cancelled →
        wait.owner ≠ p.current ∨
          0 < p.outstandingReads ∨
          ∃ other ∈ p.waits,
            other.owner = p.current ∧
              other.status = .expired
  | _ => True

end Process

end ModemTester

------------------------------------------------------------
-- Waits
------------------------------------------------------------

namespace ModemTester

namespace Wait

variable {S : Type}

@[simp] theorem cancel_owner
    (timer : Nat)
    (wait : Wait S) :
    (wait.cancel timer).owner = wait.owner := by
  unfold cancel
  split <;> rfl

@[simp] theorem expire_owner
    (timer : Nat)
    (wait : Wait S) :
    (wait.expire timer).owner = wait.owner := by
  unfold expire
  split <;> rfl

/- A wait that waits after a cancellation is another's. -/
theorem cancel_waiting_iff
    (timer : Nat)
    (wait : Wait S) :
    (wait.cancel timer).status = .waiting ↔
      wait.status = .waiting ∧ wait.timer ≠ timer := by
  unfold cancel
  by_cases hWaiting : wait.status = .waiting
  · by_cases hTimer : wait.timer = timer
    · simp [hWaiting, hTimer]
    · simp [hWaiting, hTimer]
  · simp [hWaiting]

@[simp] theorem cancel_timer
    (timer : Nat)
    (wait : Wait S) :
    (wait.cancel timer).timer = wait.timer := by
  unfold cancel
  split <;> rfl

@[simp] theorem expire_timer
    (timer : Nat)
    (wait : Wait S) :
    (wait.expire timer).timer = wait.timer := by
  unfold expire
  split <;> rfl

theorem cancel_expired_iff
    (timer : Nat)
    (wait : Wait S) :
    (wait.cancel timer).status = .expired ↔
      wait.status = .expired := by
  unfold cancel
  split <;> simp_all

theorem expire_waiting
    {timer : Nat}
    {wait : Wait S}
    (hWaiting : (wait.expire timer).status = .waiting) :
    wait.status = .waiting ∧ wait.expire timer = wait := by
  unfold expire at *
  split <;> simp_all

theorem expire_isLive_iff
    (timer : Nat)
    (wait : Wait S) :
    (wait.expire timer).IsLive ↔ wait.IsLive := by
  unfold expire IsLive
  split <;> simp_all

end Wait

end ModemTester

------------------------------------------------------------
-- Timer Bookkeeping
------------------------------------------------------------

namespace ModemTester

namespace Process

variable {S : Type} [DecidableEq S]

/-
  Only the current state has a timer object, only
  timer-based states own timers, and a wait that still waits
  is the one of its owner's timer object.
-/
structure TimersOk (fsm : Fsm S) (p : Process S) : Prop where
  timer_current :
    ∀ state timer, p.timer state = some timer →
      state = p.current ∧ fsm.kind state = .timerBased
  waiting_timer :
    ∀ wait ∈ p.waits, wait.status = .waiting →
      p.timer wait.owner = some wait.timer
  owner_timerBased :
    ∀ wait ∈ p.waits, fsm.kind wait.owner = .timerBased

@[simp] theorem deleteTimer_current
    (p : Process S)
    (state : S) :
    (p.deleteTimer state).current = p.current := by
  unfold deleteTimer
  split <;> rfl

@[simp] theorem deleteTimer_outstandingReads
    (p : Process S)
    (state : S) :
    (p.deleteTimer state).outstandingReads =
      p.outstandingReads := by
  unfold deleteTimer
  split <;> rfl

@[simp] theorem deleteTimer_timer_self
    (p : Process S)
    (state : S) :
    (p.deleteTimer state).timer state = none := by
  unfold deleteTimer
  split <;> simp_all

/- Deleting another state's missing timer does nothing. -/
theorem deleteTimer_of_ne
    {fsm : Fsm S}
    {p : Process S}
    {state : S}
    (hTimers : TimersOk fsm p)
    (hNe : state ≠ p.current) :
    p.deleteTimer state = p := by
  unfold deleteTimer
  cases hTimer : p.timer state with
  | none => rfl
  | some timer =>
      exact absurd (hTimers.timer_current _ _ hTimer).1 hNe

/- Deleting a timer keeps the bookkeeping. -/
theorem TimersOk.deleteTimer
    {fsm : Fsm S}
    {p : Process S}
    (hTimers : TimersOk fsm p)
    (state : S) :
    TimersOk fsm (p.deleteTimer state) := by
  cases hTimer : p.timer state with
  | none =>
      have hSame : p.deleteTimer state = p := by
        simp [Process.deleteTimer, hTimer]
      rwa [hSame]
  | some timer =>
      have hEq : p.deleteTimer state =
          { p with
            timer := Function.update p.timer state none
            waits := p.waits.map (Wait.cancel timer) } := by
        simp [Process.deleteTimer, hTimer]
      rw [hEq]
      constructor
      · intro other id hOther
        by_cases hSame : other = state
        · subst hSame
          simp at hOther
        · simp only [Function.update_of_ne hSame] at hOther
          exact hTimers.timer_current other id hOther
      · intro wait hMem hWaiting
        rcases List.mem_map.mp hMem with ⟨old, hOld, rfl⟩
        rw [Wait.cancel_waiting_iff] at hWaiting
        have hOwn :=
          hTimers.waiting_timer old hOld hWaiting.1
        have hNe : old.owner ≠ state := by
          intro hSame
          rw [hSame, hTimer] at hOwn
          exact hWaiting.2 (Option.some.inj hOwn).symm
        simpa [Function.update_of_ne hNe] using hOwn
      · intro wait hMem
        rcases List.mem_map.mp hMem with ⟨old, hOld, rfl⟩
        simpa using hTimers.owner_timerBased old hOld

/- Starting the current state's timer keeps the bookkeeping. -/
theorem TimersOk.startTimer
    {fsm : Fsm S}
    {p : Process S}
    (hTimers : TimersOk fsm p)
    (hKind : fsm.kind p.current = .timerBased) :
    TimersOk fsm (p.startTimer p.current) := by
  cases hTimer : p.timer p.current with
  | some timer =>
      have hSame : p.startTimer p.current = p := by
        simp [Process.startTimer, hTimer]
      rwa [hSame]
  | none =>
      have hEq : p.startTimer p.current =
          { p with
            timer := Function.update p.timer p.current
              (some p.nextTimer)
            waits := p.waits ++
              [⟨p.nextTimer, p.current, .waiting⟩]
            nextTimer := p.nextTimer + 1 } := by
        simp [Process.startTimer, hTimer]
      rw [hEq]
      constructor
      · intro other id hOther
        by_cases hSame : other = p.current
        · subst hSame
          exact ⟨rfl, hKind⟩
        · simp only [Function.update_of_ne hSame] at hOther
          exact hTimers.timer_current other id hOther
      · intro wait hMem hWaiting
        rcases List.mem_append.mp hMem with hOld | hNew
        · have hOwn := hTimers.waiting_timer wait hOld hWaiting
          have hNe : wait.owner ≠ p.current := by
            intro hSame
            rw [hSame, hTimer] at hOwn
            cases hOwn
          simpa [Function.update_of_ne hNe] using hOwn
        · rw [List.mem_singleton.mp hNew]
          simp
      · intro wait hMem
        rcases List.mem_append.mp hMem with hOld | hNew
        · exact hTimers.owner_timerBased wait hOld
        · rw [List.mem_singleton.mp hNew]
          exact hKind

/- The bookkeeping does not look at reads. -/
omit [DecidableEq S] in
theorem TimersOk.of_reads
    {fsm : Fsm S}
    {p : Process S}
    (hTimers : TimersOk fsm p)
    (pending completed : Nat) :
    TimersOk fsm
      { p with
        pendingReads := pending
        completedReads := completed } :=
  ⟨hTimers.timer_current, hTimers.waiting_timer,
    hTimers.owner_timerBased⟩

/- A handler that has run leaves the list of waits. -/
theorem TimersOk.erase
    {fsm : Fsm S}
    {p : Process S}
    (hTimers : TimersOk fsm p)
    (wait : Wait S) :
    TimersOk fsm { p with waits := p.waits.erase wait } := by
  constructor
  · exact hTimers.timer_current
  · intro other hMem
    exact hTimers.waiting_timer other
      (List.mem_of_mem_erase hMem)
  · intro other hMem
    exact hTimers.owner_timerBased other
      (List.mem_of_mem_erase hMem)

omit [DecidableEq S] in
theorem TimersOk.expire
    {fsm : Fsm S}
    {p : Process S}
    (hTimers : TimersOk fsm p)
    (timer : Nat) :
    TimersOk fsm
      { p with waits := p.waits.map (Wait.expire timer) } := by
  constructor
  · exact hTimers.timer_current
  · intro wait hMem hWaiting
    rcases List.mem_map.mp hMem with ⟨old, hOld, rfl⟩
    rcases Wait.expire_waiting hWaiting with ⟨hOldWaiting, hEq⟩
    rw [hEq]
    exact hTimers.waiting_timer old hOld hOldWaiting
  · intro wait hMem
    rcases List.mem_map.mp hMem with ⟨old, hOld, rfl⟩
    simpa using hTimers.owner_timerBased old hOld

/- After `exit` no state has a timer object left. -/
theorem TimersOk.exit_timer
    {fsm : Fsm S}
    {p : Process S}
    (hTimers : TimersOk fsm p)
    (state : S) :
    (exit fsm p).timer state = none := by
  cases hTimer : (exit fsm p).timer state with
  | none => rfl
  | some timer =>
      cases hKind : fsm.kind p.current with
      | timerBased =>
          have hDeleted :
              (p.deleteTimer p.current).timer state =
                some timer := by
            simpa [exit, hKind, cancelReads] using hTimer
          have hCurrent :=
            ((hTimers.deleteTimer p.current).timer_current
              state timer hDeleted).1
          rw [deleteTimer_current] at hCurrent
          rw [hCurrent, deleteTimer_timer_self] at hDeleted
          cases hDeleted
      | base =>
          have hOld : p.timer state = some timer := by
            simpa [exit, hKind, cancelReads] using hTimer
          have hOwner := hTimers.timer_current state timer hOld
          rw [hOwner.1, hKind] at hOwner
          cases hOwner.2
      | activity =>
          have hOld : p.timer state = some timer := by
            simpa [exit, hKind, cancelReads] using hTimer
          have hOwner := hTimers.timer_current state timer hOld
          rw [hOwner.1, hKind] at hOwner
          cases hOwner.2

theorem TimersOk.exit
    {fsm : Fsm S}
    {p : Process S}
    (hTimers : TimersOk fsm p) :
    TimersOk fsm (exit fsm p) := by
  unfold Process.exit
  split
  · exact hTimers.of_reads _ _
  · exact (hTimers.deleteTimer p.current).of_reads _ _
  · exact hTimers.of_reads _ _

/- `entry` keeps the bookkeeping. -/
theorem TimersOk.entry
    {fsm : Fsm S}
    {p : Process S}
    (hTimers : TimersOk fsm p) :
    TimersOk fsm (entry fsm p) := by
  unfold Process.entry
  split
  · exact hTimers.of_reads _ _
  · rename_i hKind
    exact (hTimers.of_reads _ _).startTimer
      (p := p.armRead) hKind
  · exact hTimers.of_reads _ _

/-
  A transition keeps the bookkeeping: when the target
  becomes current, no state has a timer.
-/
theorem TimersOk.transit
    {fsm : Fsm S}
    {p : Process S}
    (hTimers : TimersOk fsm p)
    (target : S) :
    TimersOk fsm (transit fsm p target) := by
  apply TimersOk.entry
  constructor
  · intro state timer hTimer
    have hNone := hTimers.exit_timer state
    rw [hNone] at hTimer
    cases hTimer
  · exact hTimers.exit.waiting_timer
  · exact hTimers.exit.owner_timerBased

theorem TimersOk.dispatch
    {fsm : Fsm S}
    {p p' : Process S}
    {event : Event}
    (hTimers : TimersOk fsm p)
    (hDispatch : dispatch fsm p event = some p') :
    TimersOk fsm p' := by
  unfold Process.dispatch at hDispatch
  split at hDispatch
  · cases hDispatch
    exact hTimers
  · cases hDispatch
    exact hTimers.transit _
  · cases hDispatch

theorem TimersOk.step
    {fsm : Fsm S}
    {p p' : Process S}
    {label : ProcessLabel}
    (hTimers : TimersOk fsm p)
    (hStep : step fsm p label = some p') :
    TimersOk fsm p' := by
  cases label with
  | readCompletes =>
      simp only [Process.step] at hStep
      split at hStep
      · cases hStep
        exact hTimers.of_reads _ _
      · cases hStep
  | handleReadEvt byte =>
      simp only [Process.step, handleReadEvt] at hStep
      split at hStep
      · split at hStep
        · cases hStep
          exact hTimers.of_reads _ _
        · exact (hTimers.of_reads _ _).dispatch hStep
      · cases hStep
  | timerExpires timer =>
      cases hStep
      exact hTimers.expire timer
  | dispatchTimeout timer =>
      simp only [Process.step] at hStep
      split at hStep
      · cases hStep
      · simp only [Process.dispatchTimeout] at hStep
        split at hStep
        · exact ((hTimers.erase _).deleteTimer _).dispatch
            hStep
        · cases hStep
          exact (hTimers.erase _).deleteTimer _
  | dispatchEvent event => exact hTimers.dispatch hStep
  | activityCancels =>
      simp only [Process.step] at hStep
      split at hStep
      · cases hStep
        exact hTimers.of_reads _ _
      · cases hStep

theorem timersOk_start (fsm : Fsm S) :
    TimersOk fsm (start fsm) := by
  apply TimersOk.entry
  constructor <;> simp

------------------------------------------------------------
-- Steps That Lose The Peer
------------------------------------------------------------

/- Every `entry` arms a read. -/
theorem outstandingReads_entry
    (fsm : Fsm S)
    (p : Process S) :
    0 < (entry fsm p).outstandingReads := by
  unfold entry armRead startTimer outstandingReads
  split
  · simp only
    omega
  · split <;> simp only <;> omega
  · simp only
    omega

/- After a transition the process hears its peer. -/
theorem hears_transit
    (fsm : Fsm S)
    (p : Process S)
    (target : S) :
    Hears fsm (transit fsm p target) :=
  Or.inr (Or.inl (outstandingReads_entry fsm _))

/- A dispatch never takes the last read away. -/
theorem hears_dispatch
    {fsm : Fsm S}
    {p p' : Process S}
    {event : Event}
    (hDispatch : dispatch fsm p event = some p')
    (hHears : Hears fsm p) :
    Hears fsm p' := by
  unfold dispatch at hDispatch
  split at hDispatch
  · cases hDispatch
    exact hHears
  · cases hDispatch
    exact hears_transit fsm p _
  · cases hDispatch

/- A dispatched event that the state accepts is heard. -/
theorem hears_dispatch_of_accepts
    {fsm : Fsm S}
    {p p' : Process S}
    {event : Event}
    (hDispatch : dispatch fsm p event = some p')
    (hAccepts : fsm.Accepts p.current event) :
    Hears fsm p' := by
  unfold Fsm.Accepts Outcome.isTransit at hAccepts
  unfold dispatch at hDispatch
  split at hDispatch
  · simp_all
  · cases hDispatch
    exact hears_transit fsm p _
  · cases hDispatch

/- An event that is not accepted changes nothing. -/
theorem eq_of_dispatch_of_not_accepts
    {fsm : Fsm S}
    {p p' : Process S}
    {event : Event}
    (hDispatch : dispatch fsm p event = some p')
    (hAccepts : ¬ fsm.Accepts p.current event) :
    p' = p := by
  unfold Fsm.Accepts Outcome.isTransit at hAccepts
  unfold dispatch at hDispatch
  split at hDispatch
  · exact (Option.some.inj hDispatch).symm
  · simp_all
  · cases hDispatch

/- Handling a byte, told from the state before it. -/
theorem hears_handleReadEvt_iff
    {fsm : Fsm S}
    {p p' : Process S}
    {byte : Byte}
    (hCompleted : 0 < p.completedReads)
    (hRead : handleReadEvt fsm
      { p with completedReads := p.completedReads - 1 }
      byte = some p') :
    Hears fsm p' ↔
      KeepsListening fsm p (.handleReadEvt byte) := by
  have hFewer :
      Hears fsm
          { p with completedReads := p.completedReads - 1 } ↔
        fsm.kind p.current = .activity ∨
          1 < p.outstandingReads ∨
          (fsm.kind p.current = .timerBased ∧
            p.TimerArmed) := by
    have hCount :
        0 < p.pendingReads + (p.completedReads - 1) ↔
          1 < p.pendingReads + p.completedReads := by
      omega
    simp only [Hears, outstandingReads, hCount]
    rfl
  simp only [KeepsListening]
  unfold handleReadEvt at hRead
  split at hRead
  · rename_i hEvent
    cases hRead
    rw [hFewer, hEvent]
    simp
  · rename_i event hEvent
    by_cases hAccepts : fsm.Accepts p.current event
    · have hHears := hears_dispatch_of_accepts hRead hAccepts
      have hSome : ∃ event', readEvt byte = some event' ∧
          fsm.Accepts p.current event' :=
        ⟨event, hEvent, hAccepts⟩
      simp [hHears, hSome]
    · rw [eq_of_dispatch_of_not_accepts hRead hAccepts,
        hFewer, hEvent]
      simp [hAccepts]

/- The handler of an expired timer never loses the peer. -/
theorem hears_dispatchTimeout_of_expired
    {fsm : Fsm S}
    {p p' : Process S}
    {wait : Wait S}
    (hTimeout : ∀ state, fsm.kind state = .timerBased →
      fsm.Accepts state .timeout)
    (hHears : Hears fsm p)
    (hExpired : wait.status = .expired)
    (hHandler : dispatchTimeout fsm p wait = some p') :
    Hears fsm p' := by
  simp only [dispatchTimeout, hExpired, if_true] at hHandler
  have hCurrent :
      (deleteTimer { p with waits := p.waits.erase wait }
        wait.owner).current = p.current := by
    simp
  by_cases hAccepts : fsm.Accepts p.current .timeout
  · rw [← hCurrent] at hAccepts
    exact hears_dispatch_of_accepts hHandler hAccepts
  · have hKind : fsm.kind p.current ≠ .timerBased :=
      fun hKind => hAccepts (hTimeout _ hKind)
    rw [← hCurrent] at hAccepts
    rw [eq_of_dispatch_of_not_accepts hHandler hAccepts]
    rcases hHears with hActivity | hReads | hTimer
    · exact Or.inl (by rwa [hCurrent])
    · refine Or.inr (Or.inl ?_)
      rw [deleteTimer_outstandingReads]
      exact hReads
    · exact absurd hTimer.1 hKind

/-
  A late handler whose state is current again deletes the
  new timer, so only timers that have expired remain live.
-/
theorem timerArmed_deleteTimer_current_iff
    {fsm : Fsm S}
    {p : Process S}
    (hTimers : TimersOk fsm p) :
    (p.deleteTimer p.current).TimerArmed ↔
      ∃ other ∈ p.waits, other.owner = p.current ∧
        other.status = .expired := by
  have hAfter := hTimers.deleteTimer p.current
  have hExpiredOnly : ∀ wait ∈ (p.deleteTimer p.current).waits,
      wait.owner = p.current → wait.IsLive →
        wait.status = .expired := by
    intro wait hMem hOwner hLive
    cases hStatus : wait.status with
    | expired => rfl
    | cancelled => exact absurd hStatus hLive
    | waiting =>
        have hOwn := hAfter.waiting_timer wait hMem hStatus
        rw [hOwner, deleteTimer_timer_self] at hOwn
        cases hOwn
  have hSameExpired : ∀ wait : Wait S,
      wait.status = .expired →
        (wait ∈ (p.deleteTimer p.current).waits ↔
          wait ∈ p.waits) := by
    intro wait hExpired
    unfold deleteTimer
    split
    · rfl
    · rename_i timer hTimer
      constructor
      · intro hMem
        rcases List.mem_map.mp hMem with ⟨old, hOld, rfl⟩
        rw [Wait.cancel_expired_iff] at hExpired
        have hSame : old.cancel timer = old := by
          simp [Wait.cancel, hExpired]
        rwa [hSame]
      · intro hMem
        refine List.mem_map.mpr ⟨wait, hMem, ?_⟩
        simp [Wait.cancel, hExpired]
  unfold TimerArmed
  rw [deleteTimer_current]
  constructor
  · rintro ⟨wait, hMem, hOwner, hLive⟩
    have hExpired := hExpiredOnly wait hMem hOwner hLive
    exact ⟨wait, (hSameExpired wait hExpired).mp hMem,
      hOwner, hExpired⟩
  · rintro ⟨wait, hMem, hOwner, hExpired⟩
    refine ⟨wait, (hSameExpired wait hExpired).mpr hMem,
      hOwner, ?_⟩
    simp [Wait.IsLive, hExpired]

/- The late handler of a cancelled timer. -/
theorem hears_dispatchTimeout_of_cancelled_iff
    {fsm : Fsm S}
    {p p' : Process S}
    {wait : Wait S}
    (hTimers : TimersOk fsm p)
    (hHears : Hears fsm p)
    (hMem : wait ∈ p.waits)
    (hCancelled : wait.status = .cancelled)
    (hHandler : dispatchTimeout fsm p wait = some p') :
    Hears fsm p' ↔
      wait.owner ≠ p.current ∨
        0 < p.outstandingReads ∨
        ∃ other ∈ p.waits, other.owner = p.current ∧
          other.status = .expired := by
  have hErased := hTimers.erase wait
  simp only [dispatchTimeout, hCancelled, reduceCtorEq,
    if_false, Option.some.injEq] at hHandler
  subst hHandler
  have hSameReads : (deleteTimer
      { p with waits := p.waits.erase wait }
      wait.owner).outstandingReads = p.outstandingReads := by
    rw [deleteTimer_outstandingReads]
    rfl
  by_cases hReads : 0 < p.outstandingReads
  · have hAfter : Hears fsm (deleteTimer
        { p with waits := p.waits.erase wait }
        wait.owner) :=
      Or.inr (Or.inl (by rwa [hSameReads]))
    simp only [hAfter, hReads, true_or, or_true]
  · by_cases hOwner : wait.owner = p.current
    · have hKind : fsm.kind p.current = .timerBased := by
        rw [← hOwner]
        exact hTimers.owner_timerBased wait hMem
      have hArmed := timerArmed_deleteTimer_current_iff
        (p := { p with waits := p.waits.erase wait }) hErased
      have hErase : ∀ other : Wait S,
          other.status = .expired →
            (other ∈ p.waits.erase wait ↔
              other ∈ p.waits) := by
        intro other hExpired
        apply List.mem_erase_of_ne
        intro hSame
        rw [hSame, hCancelled] at hExpired
        cases hExpired
      simp only [Hears, hSameReads, hReads, false_or]
      rw [hOwner, deleteTimer_current, hKind, hArmed]
      simp only [ne_eq, not_true_eq_false, reduceCtorEq,
        false_or, true_and]
      constructor
      · rintro ⟨other, hOther, hOwn, hExpired⟩
        exact ⟨other, (hErase other hExpired).mp hOther,
          hOwn, hExpired⟩
      · rintro ⟨other, hOther, hOwn, hExpired⟩
        exact ⟨other, (hErase other hExpired).mpr hOther,
          hOwn, hExpired⟩
    · rw [deleteTimer_of_ne hErased hOwner]
      have hAfter : Hears fsm
          { p with waits := p.waits.erase wait } := by
        rcases hHears with hActivity | hRead | hTimer
        · exact Or.inl hActivity
        · exact absurd hRead hReads
        · refine Or.inr (Or.inr ⟨hTimer.1, ?_⟩)
          rcases hTimer.2 with ⟨live, hLive, hOwn, hIsLive⟩
          refine ⟨live, ?_, hOwn, hIsLive⟩
          refine (List.mem_erase_of_ne ?_).mpr hLive
          intro hSame
          exact hOwner (hSame ▸ hOwn)
      simp [hAfter, hOwner]

/-
  A step of a process that hears its peer loses it exactly
  when the step fails `KeepsListening`.
-/
theorem hears_step_iff
    {fsm : Fsm S}
    {p p' : Process S}
    {label : ProcessLabel}
    (hTimeout : ∀ state, fsm.kind state = .timerBased →
      fsm.Accepts state .timeout)
    (hTimers : TimersOk fsm p)
    (hHears : Hears fsm p)
    (hStep : step fsm p label = some p') :
    Hears fsm p' ↔ KeepsListening fsm p label := by
  cases label with
  | readCompletes =>
      simp only [step] at hStep
      split at hStep
      · rename_i hPending
        cases hStep
        simp only [KeepsListening, iff_true]
        refine Or.inr (Or.inl ?_)
        simp only [outstandingReads]
        omega
      · cases hStep
  | handleReadEvt byte =>
      simp only [step] at hStep
      split at hStep
      · rename_i hCompleted
        exact hears_handleReadEvt_iff hCompleted hStep
      · cases hStep
  | timerExpires timer =>
      cases hStep
      simp only [KeepsListening, iff_true]
      rcases hHears with hActivity | hReads | hTimer
      · exact Or.inl hActivity
      · exact Or.inr (Or.inl hReads)
      · refine Or.inr (Or.inr ⟨hTimer.1, ?_⟩)
        rcases hTimer.2 with ⟨wait, hMem, hOwner, hLive⟩
        refine ⟨wait.expire timer,
          List.mem_map.mpr ⟨wait, hMem, rfl⟩, ?_, ?_⟩
        · simpa using hOwner
        · exact (Wait.expire_isLive_iff timer wait).mpr hLive
  | dispatchTimeout timer =>
      simp only [step] at hStep
      split at hStep
      · cases hStep
      · rename_i wait hQueued
        have hMem := List.mem_of_find?_eq_some hQueued
        have hStatus := List.find?_some hQueued
        simp only [KeepsListening, hQueued]
        cases hCase : wait.status with
        | waiting => simp [hCase] at hStatus
        | expired =>
            have hAfter := hears_dispatchTimeout_of_expired
              hTimeout hHears hCase hStep
            simp [hAfter, hCase]
        | cancelled =>
            rw [hears_dispatchTimeout_of_cancelled_iff hTimers
              hHears hMem hCase hStep]
            simp [hCase]
  | dispatchEvent event =>
      have hAfter := hears_dispatch hStep hHears
      simp [KeepsListening, hAfter]
  | activityCancels =>
      simp only [step] at hStep
      split at hStep
      · rename_i hKind
        cases hStep
        simp only [KeepsListening, iff_true]
        exact Or.inl hKind
      · cases hStep

/-
  Along a whole run from `start`, the process hears its peer
  in every state exactly when every step is one that
  `KeepsListening` allows.
-/
theorem throughout_hears_iff
    (fsm : Fsm S)
    (hTimeout : ∀ state, fsm.kind state = .timerBased →
      fsm.Accepts state .timeout)
    (labels : List ProcessLabel) :
    StepSystem.Throughout (step fsm) (Hears fsm)
        (start fsm) labels ↔
      StepSystem.Along (step fsm) (KeepsListening fsm)
        (start fsm) labels := by
  apply StepSystem.throughout_iff_along (I := TimersOk fsm)
  · intro p label p' hTimers hStep
    exact hTimers.step hStep
  · intro p label p' hTimers hHears hStep
    exact hears_step_iff hTimeout hTimers hHears hStep
  · exact timersOk_start fsm
  · exact Or.inr (Or.inl (outstandingReads_entry fsm _))

end Process

end ModemTester

------------------------------------------------------------
-- The Two Machines
------------------------------------------------------------

namespace ModemTester

open Process

/- Every waiting state of the master re-enters itself. -/
theorem masterFsm_accepts_timeout
    (state : MasterState)
    (hKind : masterFsm.kind state = .timerBased) :
    masterFsm.Accepts state .timeout := by
  revert hKind
  cases state <;> decide

/- Every waiting state of the remote re-enters itself. -/
theorem remoteFsm_accepts_timeout
    (state : RemoteState)
    (hKind : remoteFsm.kind state = .timerBased) :
    remoteFsm.Accepts state .timeout := by
  revert hKind
  cases state <;> decide

/-
  Both machines hear their peer throughout a run exactly
  when the run never uses up the last read on a byte that
  the state ignores, and never lets a late handler delete
  the only armed timer.
-/
theorem masterAndRemote_hear_iff
    (labels : List ProcessLabel) :
    (StepSystem.Throughout (step masterFsm)
        (Hears masterFsm) (start masterFsm) labels ↔
      StepSystem.Along (step masterFsm)
        (KeepsListening masterFsm)
        (start masterFsm) labels) ∧
      (StepSystem.Throughout (step remoteFsm)
          (Hears remoteFsm) (start remoteFsm) labels ↔
        StepSystem.Along (step remoteFsm)
          (KeepsListening remoteFsm)
          (start remoteFsm) labels) :=
  ⟨throughout_hears_iff masterFsm masterFsm_accepts_timeout
      labels,
    throughout_hears_iff remoteFsm remoteFsm_accepts_timeout
      labels⟩

/-
  One late `MasterAck` in `RemoteIdle` uses up the only read
  and leaves the remote deaf for ever.
-/
theorem remoteIdle_deaf_after_masterAck :
    ¬ StepSystem.Throughout (step remoteFsm)
        (Hears remoteFsm) (start remoteFsm)
        [.readCompletes, .handleReadEvt masterAckId] := by
  decide

end ModemTester
