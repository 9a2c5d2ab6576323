import ModemTester.Listening
import Mathlib.Data.List.Nodup

/-
  The retransmission timers of the waiting states.

  A handler of a timer that its state no longer points to is
  late. `dispatchTimeout` does not know which timer it
  belongs to: a late handler deletes the timer that its
  state has started since, and one of an expired timer
  dispatches a `Timeout` on whatever state is current.

  Key definitions include:
    * `Process.armed`
    * `Process.OwnsTimer`
    * `Process.OwnTimeout`
    * `Process.Punctual`

  Main declarations:
    * `Process.owns_timer_of_punctual`
    * `Process.may_fail_of_not_punctual`
    * `masterAndRemote_own_timers`
    * `endModeReceived_without_timer`
-/

------------------------------------------------------------
-- Owning A Timer
------------------------------------------------------------

namespace ModemTester

namespace Process

variable {S : Type} [DecidableEq S]

/- The timer waited for has been deleted by its state. -/
def Late (p : Process S) (wait : Wait S) : Prop :=
  p.timer wait.owner ≠ some wait.timer

/-
  The waits on the timer of the current state that are not
  over: the timer runs, or has expired and its handler is
  queued.
-/
def armed (p : Process S) : List (Wait S) :=
  p.waits.filter fun wait =>
    wait.owner = p.current ∧ wait.IsLive ∧
      p.timer wait.owner = some wait.timer

/- The timer is the one that was started last. -/
def IsLatest (p : Process S) (wait : Wait S) : Prop :=
  wait.timer + 1 = p.nextTimer

/-
  A waiting state with no handler of a cancelled timer
  queued owns exactly one armed timer, the one started last:
  only `entry` starts timers, so its latest entry did.
-/
def OwnsTimer (fsm : Fsm S) (p : Process S) : Prop :=
  fsm.kind p.current = .timerBased →
    (∀ wait ∈ p.waits, wait.status ≠ .cancelled) →
      p.armed.map Wait.timer = [p.nextTimer - 1]

/-
  A `Timeout` comes from the handler of the timer that the
  latest entry of the current state has started.
-/
def OwnTimeout (p : Process S) : ProcessLabel → Prop
  | .dispatchTimeout timer =>
      ∀ wait, p.queuedWait? timer = some wait →
        wait.status = .expired →
          wait.owner = p.current ∧ p.IsLatest wait
  | .dispatchEvent event => event ≠ .timeout
  | .handleReadEvt byte => readEvt byte ≠ some .timeout
  | _ => True

/-
  Told from the state before the step: a late handler runs
  only with an error code, and when its state is not the
  current one; and no script dispatches a `Timeout`.
-/
def Punctual (p : Process S) : ProcessLabel → Prop
  | .dispatchTimeout timer =>
      ∀ wait, p.queuedWait? timer = some wait →
        p.Late wait →
          wait.status = .cancelled ∧ wait.owner ≠ p.current
  | .dispatchEvent event => event ≠ .timeout
  | _ => True

instance (fsm : Fsm S) (p : Process S) :
    Decidable (OwnsTimer fsm p) := by
  unfold OwnsTimer
  infer_instance

end Process

end ModemTester

------------------------------------------------------------
-- The Timer Started Last
------------------------------------------------------------

namespace ModemTester

namespace Process

variable {S : Type} [DecidableEq S]

/- Every timer has its own number. -/
structure TimersNumbered (p : Process S) : Prop where
  nodup : (p.waits.map Wait.timer).Nodup
  lt_next : ∀ wait ∈ p.waits, wait.timer < p.nextTimer

/- A waiting state points to the timer started last. -/
def PointsToLatest (fsm : Fsm S) (p : Process S) : Prop :=
  fsm.kind p.current = .timerBased →
    ∃ wait ∈ p.waits, wait.owner = p.current ∧
      p.IsLatest wait ∧ wait.IsLive ∧
        p.timer p.current = some wait.timer

/- What punctual runs keep. -/
structure TimersRight (fsm : Fsm S) (p : Process S) :
    Prop where
  timersOk : TimersOk fsm p
  numbered : TimersNumbered p
  latest : PointsToLatest fsm p

omit [DecidableEq S] in
theorem map_cancel_timer
    (timer : Nat)
    (waits : List (Wait S)) :
    (waits.map (Wait.cancel timer)).map Wait.timer =
      waits.map Wait.timer := by
  rw [List.map_map]
  apply List.map_congr_left
  intro wait _
  exact Wait.cancel_timer timer wait

omit [DecidableEq S] in
theorem map_expire_timer
    (timer : Nat)
    (waits : List (Wait S)) :
    (waits.map (Wait.expire timer)).map Wait.timer =
      waits.map Wait.timer := by
  rw [List.map_map]
  apply List.map_congr_left
  intro wait _
  exact Wait.expire_timer timer wait

/- Numbers depend on the timers waited for only. -/
omit [DecidableEq S] in
theorem TimersNumbered.of_waits
    {p q : Process S}
    (hNumbered : TimersNumbered p)
    (hWaits : List.Sublist (q.waits.map Wait.timer)
      (p.waits.map Wait.timer))
    (hNext : q.nextTimer = p.nextTimer) :
    TimersNumbered q := by
  constructor
  · exact hWaits.nodup hNumbered.nodup
  · intro wait hMem
    rw [hNext]
    have hOld :=
      hWaits.subset (List.mem_map_of_mem hMem)
    rcases List.mem_map.mp hOld with ⟨old, hOldMem, hEq⟩
    rw [← hEq]
    exact hNumbered.lt_next old hOldMem

theorem TimersNumbered.deleteTimer
    {p : Process S}
    (hNumbered : TimersNumbered p)
    (state : S) :
    TimersNumbered (p.deleteTimer state) := by
  unfold Process.deleteTimer
  split
  · exact hNumbered
  · refine hNumbered.of_waits ?_ rfl
    rw [map_cancel_timer]

theorem TimersNumbered.startTimer
    {p : Process S}
    (hNumbered : TimersNumbered p)
    (state : S) :
    TimersNumbered (p.startTimer state) := by
  unfold Process.startTimer
  split
  · exact hNumbered
  · constructor
    · rw [List.map_append, List.nodup_append]
      refine ⟨hNumbered.nodup, by simp, ?_⟩
      intro timer hMem other hOther
      rcases List.mem_map.mp hMem with ⟨wait, hWait, rfl⟩
      rw [List.map_singleton, List.mem_singleton] at hOther
      rw [hOther]
      exact Nat.ne_of_lt (hNumbered.lt_next wait hWait)
    · intro wait hMem
      rcases List.mem_append.mp hMem with hOld | hNew
      · exact Nat.lt_succ_of_lt (hNumbered.lt_next wait hOld)
      · rw [List.mem_singleton.mp hNew]
        exact Nat.lt_succ_self _

theorem TimersNumbered.erase
    {p : Process S}
    (hNumbered : TimersNumbered p)
    (wait : Wait S) :
    TimersNumbered { p with waits := p.waits.erase wait } :=
  hNumbered.of_waits
    ((List.erase_sublist (l := p.waits)).map _) rfl

omit [DecidableEq S] in
theorem TimersNumbered.of_reads
    {p : Process S}
    (hNumbered : TimersNumbered p)
    (pending completed : Nat) :
    TimersNumbered
      { p with
        pendingReads := pending
        completedReads := completed } :=
  ⟨hNumbered.nodup, hNumbered.lt_next⟩

theorem TimersNumbered.transit
    {p : Process S}
    (hNumbered : TimersNumbered p)
    (fsm : Fsm S)
    (target : S) :
    TimersNumbered (transit fsm p target) := by
  have hExit : TimersNumbered (exit fsm p) := by
    unfold Process.exit
    split
    · exact hNumbered.of_reads _ _
    · exact (hNumbered.deleteTimer p.current).of_reads _ _
    · exact hNumbered.of_reads _ _
  have hMoved : TimersNumbered
      { exit fsm p with current := target } :=
    ⟨hExit.nodup, hExit.lt_next⟩
  unfold Process.transit entry
  split
  · exact hMoved.of_reads _ _
  · exact (hMoved.of_reads _ _).startTimer
      (p := armRead { exit fsm p with current := target }) _
  · exact hMoved.of_reads _ _

/- The wait on a timer is the only one on it. -/
omit [DecidableEq S] in
theorem TimersNumbered.eq_of_timer
    {p : Process S}
    (hNumbered : TimersNumbered p)
    {wait other : Wait S}
    (hWait : wait ∈ p.waits)
    (hOther : other ∈ p.waits)
    (hTimer : wait.timer = other.timer) :
    wait = other :=
  List.inj_on_of_nodup_map hNumbered.nodup hWait hOther
    hTimer

/- Entering a waiting state starts a timer of its own. -/
theorem pointsToLatest_transit
    {fsm : Fsm S}
    {p : Process S}
    (hTimers : TimersOk fsm p)
    (target : S) :
    PointsToLatest fsm (transit fsm p target) := by
  have hNone := hTimers.exit_timer target
  intro hKind
  unfold Process.transit entry at hKind ⊢
  cases hTarget : fsm.kind target with
  | base => simp [hTarget, armRead] at hKind
  | activity => simp [hTarget, armRead] at hKind
  | timerBased =>
      refine ⟨⟨(exit fsm p).nextTimer, target, .waiting⟩, ?_⟩
      simp [armRead, startTimer, hNone, IsLatest, Wait.IsLive]

theorem TimersRight.transit
    {fsm : Fsm S}
    {p : Process S}
    (hRight : TimersRight fsm p)
    (target : S) :
    TimersRight fsm (transit fsm p target) :=
  ⟨hRight.timersOk.transit target,
    hRight.numbered.transit fsm target,
    pointsToLatest_transit hRight.timersOk target⟩

omit [DecidableEq S] in
theorem TimersRight.of_reads
    {fsm : Fsm S}
    {p : Process S}
    (hRight : TimersRight fsm p)
    (pending completed : Nat) :
    TimersRight fsm
      { p with
        pendingReads := pending
        completedReads := completed } :=
  ⟨hRight.timersOk.of_reads _ _,
    hRight.numbered.of_reads _ _, hRight.latest⟩

theorem TimersRight.dispatch
    {fsm : Fsm S}
    {p p' : Process S}
    {event : Event}
    (hRight : TimersRight fsm p)
    (hDispatch : dispatch fsm p event = some p') :
    TimersRight fsm p' := by
  unfold Process.dispatch at hDispatch
  split at hDispatch
  · cases hDispatch
    exact hRight
  · cases hDispatch
    exact hRight.transit _
  · cases hDispatch

/- A timer that its state points to is the current one's. -/
omit [DecidableEq S] in
theorem TimersRight.of_not_late
    {fsm : Fsm S}
    {p : Process S}
    {wait : Wait S}
    (hRight : TimersRight fsm p)
    (hMem : wait ∈ p.waits)
    (hLate : ¬ p.Late wait) :
    wait.owner = p.current ∧ p.IsLatest wait ∧
      wait.IsLive := by
  have hPoints : p.timer wait.owner = some wait.timer :=
    not_not.mp hLate
  have hOwner :=
    hRight.timersOk.timer_current _ _ hPoints
  have hKind : fsm.kind p.current = .timerBased := by
    rw [← hOwner.1]
    exact hOwner.2
  rcases hRight.latest hKind with
    ⟨own, hOwn, hOwnOwner, hLatest, hLive, hOwnPoints⟩
  rw [hOwner.1, hOwnPoints] at hPoints
  have hSame : own = wait :=
    hRight.numbered.eq_of_timer hOwn hMem
      (Option.some.inj hPoints)
  rw [← hSame]
  exact ⟨hOwnOwner, hLatest, hLive⟩

/- A late handler that is harmless leaves the timer alone. -/
theorem TimersRight.erase_of_ne
    {fsm : Fsm S}
    {p : Process S}
    {wait : Wait S}
    (hRight : TimersRight fsm p)
    (hNe : wait.owner ≠ p.current) :
    TimersRight fsm
      (deleteTimer { p with waits := p.waits.erase wait }
        wait.owner) := by
  have hErased := hRight.timersOk.erase wait
  rw [deleteTimer_of_ne hErased hNe]
  refine ⟨hErased, hRight.numbered.erase wait, ?_⟩
  intro hKind
  rcases hRight.latest hKind with
    ⟨own, hOwn, hOwner, hRest⟩
  refine ⟨own, (List.mem_erase_of_ne ?_).mpr hOwn,
    hOwner, hRest⟩
  intro hSame
  exact hNe (hSame ▸ hOwner)

omit [DecidableEq S] in
theorem TimersRight.expire
    {fsm : Fsm S}
    {p : Process S}
    (hRight : TimersRight fsm p)
    (timer : Nat) :
    TimersRight fsm
      { p with waits := p.waits.map (Wait.expire timer) } := by
  refine ⟨hRight.timersOk.expire timer,
    hRight.numbered.of_waits ?_ rfl, ?_⟩
  · rw [map_expire_timer]
  · intro hKind
    rcases hRight.latest hKind with
      ⟨own, hOwn, hOwner, hLatest, hLive, hPoints⟩
    refine ⟨own.expire timer, List.mem_map_of_mem hOwn,
      ?_, ?_, ?_, ?_⟩
    · simpa using hOwner
    · simpa [IsLatest] using hLatest
    · exact (Wait.expire_isLive_iff timer own).mpr hLive
    · simpa using hPoints

/- The wait whose handler is queued, found by its timer. -/
omit [DecidableEq S] in
theorem mem_of_queuedWait
    {p : Process S}
    {timer : Nat}
    {wait : Wait S}
    (hQueued : p.queuedWait? timer = some wait) :
    wait ∈ p.waits ∧ wait.timer = timer ∧
      wait.status ≠ .waiting := by
  have hFound := List.find?_some hQueued
  rw [decide_eq_true_eq] at hFound
  exact ⟨List.mem_of_find?_eq_some hQueued, hFound⟩

/- A punctual step keeps the timers right. -/
theorem TimersRight.step
    {fsm : Fsm S}
    {p p' : Process S}
    {label : ProcessLabel}
    (hTimeout : ∀ state, fsm.kind state = .timerBased →
      fsm.Accepts state .timeout)
    (hRight : TimersRight fsm p)
    (hPunctual : Punctual p label)
    (hStep : step fsm p label = some p') :
    TimersRight fsm p' := by
  cases label with
  | readCompletes =>
      simp only [Process.step] at hStep
      split at hStep
      · cases hStep
        exact hRight.of_reads _ _
      · cases hStep
  | handleReadEvt byte =>
      simp only [Process.step, handleReadEvt] at hStep
      split at hStep
      · split at hStep
        · cases hStep
          exact hRight.of_reads _ _
        · exact (hRight.of_reads _ _).dispatch hStep
      · cases hStep
  | timerExpires timer =>
      cases hStep
      exact hRight.expire timer
  | dispatchTimeout timer =>
      simp only [Process.step] at hStep
      split at hStep
      · cases hStep
      · rename_i wait hQueued
        rcases mem_of_queuedWait hQueued with
          ⟨hMem, -, hRan⟩
        simp only [Process.dispatchTimeout] at hStep
        by_cases hLate : p.Late wait
        · have hHarmless := hPunctual wait hQueued hLate
          simp only [hHarmless.1, reduceCtorEq, if_false,
            Option.some.injEq] at hStep
          rw [← hStep]
          exact hRight.erase_of_ne hHarmless.2
        · have hOwn := hRight.of_not_late hMem hLate
          have hExpired : wait.status = .expired := by
            have hLive := hOwn.2.2
            unfold Wait.IsLive at hLive
            cases hStatus : wait.status <;> simp_all
          have hKind :=
            hRight.timersOk.owner_timerBased wait hMem
          -- The state accepts the timeout and is left.
          have hAccepts := hTimeout wait.owner hKind
          rw [hOwn.1] at hAccepts
          simp only [hExpired, if_true] at hStep
          unfold Fsm.Accepts Outcome.isTransit at hAccepts
          unfold Process.dispatch at hStep
          rw [deleteTimer_current] at hStep
          split at hStep
          · simp_all
          · cases hStep
            refine ⟨?_, ?_, ?_⟩
            · exact ((hRight.timersOk.erase
                wait).deleteTimer _).transit _
            · exact ((hRight.numbered.erase
                wait).deleteTimer _).transit fsm _
            · exact pointsToLatest_transit
                ((hRight.timersOk.erase wait).deleteTimer _) _
          · cases hStep
  | dispatchEvent event => exact hRight.dispatch hStep
  | activityCancels =>
      simp only [Process.step] at hStep
      split at hStep
      · cases hStep
        exact hRight.of_reads _ _
      · cases hStep

theorem timersRight_start (fsm : Fsm S) :
    TimersRight fsm (start fsm) := by
  refine ⟨timersOk_start fsm, ?_, ?_⟩
  · unfold start entry
    split
    · constructor <;> simp [armRead]
    · constructor <;> simp [armRead, startTimer]
    · constructor <;> simp [armRead]
  · intro hKind
    unfold start entry at hKind ⊢
    cases hInitial : fsm.kind fsm.initialState with
    | base => simp [hInitial, armRead] at hKind
    | activity => simp [hInitial, armRead] at hKind
    | timerBased =>
        refine ⟨⟨0, fsm.initialState, .waiting⟩, ?_⟩
        simp [armRead, startTimer, IsLatest, Wait.IsLive]

------------------------------------------------------------
-- Punctual Runs
------------------------------------------------------------

/- Timers that are right are armed exactly once. -/
theorem TimersRight.ownsTimer
    {fsm : Fsm S}
    {p : Process S}
    (hRight : TimersRight fsm p) :
    OwnsTimer fsm p := by
  intro hKind _
  rcases hRight.latest hKind with
    ⟨own, hOwn, hOwner, hLatest, hLive, hPoints⟩
  have hMem : own ∈ p.armed := by
    refine List.mem_filter.mpr ⟨hOwn, ?_⟩
    rw [decide_eq_true_eq, hOwner]
    exact ⟨rfl, hLive, hPoints⟩
  have hNodup : (p.armed.map Wait.timer).Nodup :=
    (List.filter_sublist.map _).nodup
      hRight.numbered.nodup
  have hAll : ∀ timer ∈ p.armed.map Wait.timer,
      timer = p.nextTimer - 1 := by
    intro timer hTimer
    rcases List.mem_map.mp hTimer with ⟨wait, hWait, rfl⟩
    rcases List.mem_filter.mp hWait with ⟨hIn, hArmed⟩
    rw [decide_eq_true_eq] at hArmed
    have hNotLate : ¬ p.Late wait := not_not.mpr hArmed.2.2
    have hWaitLatest := (hRight.of_not_late hIn hNotLate).2.1
    unfold IsLatest at hWaitLatest
    omega
  have hReplicate := List.eq_replicate_of_mem hAll
  rw [hReplicate, List.nodup_replicate] at hNodup
  have hPositive : 0 < (p.armed.map Wait.timer).length :=
    List.length_pos_of_mem (List.mem_map_of_mem hMem)
  rw [hReplicate]
  have hOne : (p.armed.map Wait.timer).length = 1 := by omega
  rw [hOne]
  rfl

/- A byte on the wire is never a `Timeout`. -/
theorem readEvt_ne_timeout
    (byte : Byte) :
    readEvt byte ≠ some .timeout := by
  intro hRead
  have hVal := (readEvt_eq_some_iff byte .timeout).mp hRead
  simp only [Event.eventId] at hVal
  omega

omit [DecidableEq S] in
theorem TimersRight.ownTimeout
    {fsm : Fsm S}
    {p : Process S}
    {label : ProcessLabel}
    (hRight : TimersRight fsm p)
    (hPunctual : Punctual p label) :
    OwnTimeout p label := by
  cases label with
  | handleReadEvt byte => exact readEvt_ne_timeout byte
  | dispatchTimeout timer =>
      intro wait hQueued hExpired
      by_cases hLate : p.Late wait
      · have hHarmless := hPunctual wait hQueued hLate
        rw [hHarmless.1] at hExpired
        cases hExpired
      · have hOwn := hRight.of_not_late
          (mem_of_queuedWait hQueued).1 hLate
        exact ⟨hOwn.1, hOwn.2.1⟩
  | dispatchEvent event => exact hPunctual
  | readCompletes | timerExpires | activityCancels =>
      exact trivial

/-
  In a punctual run every waiting state owns its timer and
  every `Timeout` is the current state's own.
-/
theorem owns_timer_of_punctual
    (fsm : Fsm S)
    (hTimeout : ∀ state, fsm.kind state = .timerBased →
      fsm.Accepts state .timeout)
    (labels : List ProcessLabel)
    (hAlong : StepSystem.Along (step fsm) Punctual
      (start fsm) labels) :
    StepSystem.Throughout (step fsm) (OwnsTimer fsm)
        (start fsm) labels ∧
      StepSystem.Along (step fsm) OwnTimeout
        (start fsm) labels := by
  have hKept : ∀ p label p', TimersRight fsm p →
      Punctual p label → step fsm p label = some p' →
        TimersRight fsm p' :=
    fun _ _ _ hRight hPunctual hStep =>
      hRight.step hTimeout hPunctual hStep
  constructor
  · exact StepSystem.throughout_of_along hKept
      (fun _ hRight => hRight.ownsTimer)
      (timersRight_start fsm) hAlong
  · exact StepSystem.along_of_along hKept
      (fun _ _ _ hRight hPunctual _ =>
        hRight.ownTimeout hPunctual)
      (timersRight_start fsm) hAlong

------------------------------------------------------------
-- Steps That Are Not Punctual
------------------------------------------------------------

/- The queued handler of a wait is found by its timer. -/
omit [DecidableEq S] in
theorem queuedWait_of_mem
    {p : Process S}
    {wait : Wait S}
    (hNumbered : TimersNumbered p)
    (hMem : wait ∈ p.waits)
    (hRan : wait.status ≠ .waiting) :
    p.queuedWait? wait.timer = some wait := by
  cases hFound : p.queuedWait? wait.timer with
  | none =>
      have hMiss := List.find?_eq_none.mp hFound wait hMem
      simp [hRan] at hMiss
  | some other =>
      rcases mem_of_queuedWait hFound with ⟨hIn, hTimer, -⟩
      rw [hNumbered.eq_of_timer hIn hMem hTimer]

/-
  The handlers of the cancelled timers run out and change
  nothing else: without a timer they find nothing to delete.
-/
theorem exists_run_without_cancelled
    (fsm : Fsm S)
    (count : Nat)
    {p : Process S}
    (hCount : p.waits.length ≤ count)
    (hNumbered : TimersNumbered p)
    (hNone : ∀ state, p.timer state = none) :
    ∃ labels p', StepSystem.run (step fsm) p labels =
        some p' ∧
      p'.current = p.current ∧
      (∀ state, p'.timer state = none) ∧
      ∀ wait ∈ p'.waits, wait.status ≠ .cancelled := by
  induction count generalizing p with
  | zero =>
      have hEmpty : p.waits = [] :=
        List.length_eq_zero_iff.mp (Nat.le_zero.mp hCount)
      exact ⟨[], p, rfl, rfl, hNone, by simp [hEmpty]⟩
  | succ count ih =>
      by_cases hAll : ∀ wait ∈ p.waits,
          wait.status ≠ .cancelled
      · exact ⟨[], p, rfl, rfl, hNone, hAll⟩
      · push Not at hAll
        rcases hAll with ⟨wait, hMem, hCancelled⟩
        have hQueued := queuedWait_of_mem hNumbered hMem
          (by simp [hCancelled])
        have hStep : step fsm p (.dispatchTimeout wait.timer) =
            some { p with waits := p.waits.erase wait } := by
          simp [step, hQueued, dispatchTimeout, hCancelled,
            deleteTimer, hNone]
        have hShorter : (p.waits.erase wait).length ≤ count := by
          rw [List.length_erase_of_mem hMem]
          omega
        rcases ih (p := { p with
            waits := p.waits.erase wait }) hShorter
            (hNumbered.erase wait) hNone with
          ⟨labels, p', hRun, hCurrent, hNone', hAll'⟩
        refine ⟨.dispatchTimeout wait.timer :: labels, p', ?_,
          hCurrent, hNone', hAll'⟩
        rw [StepSystem.run_cons_of_step hStep, hRun]

/- Without a timer a waiting state owns none. -/
theorem not_ownsTimer_of_no_timer
    {fsm : Fsm S}
    {p : Process S}
    (hKind : fsm.kind p.current = .timerBased)
    (hNone : ∀ state, p.timer state = none)
    (hAll : ∀ wait ∈ p.waits, wait.status ≠ .cancelled) :
    ¬ OwnsTimer fsm p := by
  intro hOwns
  have hArmed : p.armed = [] := by
    apply List.filter_eq_nil_iff.mpr
    intro wait _
    simp [hNone]
  have hOne := hOwns hKind hAll
  rw [hArmed] at hOne
  cases hOne

/-
  The condition is exact: a step that is not punctual, in a
  run that was punctual so far, dispatches a `Timeout` that
  is not the current state's own, or a continuation leaves
  the current state without a timer.
-/
theorem may_fail_of_not_punctual
    (fsm : Fsm S)
    (hTimeout : ∀ state, fsm.kind state = .timerBased →
      fsm.Accepts state .timeout)
    {labels : List ProcessLabel}
    {label : ProcessLabel}
    {p p' : Process S}
    (hAlong : StepSystem.Along (step fsm) Punctual
      (start fsm) labels)
    (hRun : StepSystem.run (step fsm) (start fsm) labels =
      some p)
    (hStep : step fsm p label = some p')
    (hNot : ¬ Punctual p label) :
    ¬ OwnTimeout p label ∨
      ∃ more p'', StepSystem.run (step fsm) p' more =
          some p'' ∧
        ¬ OwnsTimer fsm p'' := by
  have hRight : TimersRight fsm p :=
    StepSystem.run_invariant_along
      (fun _ _ _ hRight hPunctual hStep =>
        hRight.step hTimeout hPunctual hStep)
      (timersRight_start fsm) hAlong hRun
  cases label with
  | dispatchEvent event => exact Or.inl hNot
  | readCompletes | handleReadEvt _ | timerExpires _
  | activityCancels => exact absurd trivial hNot
  | dispatchTimeout timer =>
      simp only [Punctual, not_forall] at hNot
      rcases hNot with ⟨wait, hQueued, hLate, hHarmful⟩
      rcases mem_of_queuedWait hQueued with ⟨hMem, -, hRan⟩
      have hKind :=
        hRight.timersOk.owner_timerBased wait hMem
      cases hStatus : wait.status with
      | waiting => exact absurd hStatus hRan
      | expired =>
          -- Were it the current state's own, it were not late.
          refine Or.inl ?_
          intro hOwn
          rcases hOwn wait hQueued hStatus with
            ⟨hOwner, hLatest⟩
          rw [hOwner] at hKind
          rcases hRight.latest hKind with
            ⟨own, -, -, hOwnLatest, -, hPoints⟩
          have hTimer : own.timer = wait.timer := by
            unfold IsLatest at hLatest hOwnLatest
            omega
          apply hLate
          rw [hOwner, hPoints, hTimer]
      | cancelled =>
          -- The handler deletes the current state's timer.
          have hOwner : wait.owner = p.current := by
            by_contra hNe
            exact hHarmful ⟨hStatus, hNe⟩
          have hErased := hRight.timersOk.erase wait
          have hAfter : p' = deleteTimer
              { p with waits := p.waits.erase wait }
              p.current := by
            simp only [step, hQueued, dispatchTimeout, hStatus,
              reduceCtorEq, if_false, Option.some.injEq]
              at hStep
            rw [← hStep, hOwner]
          have hNone : ∀ state, p'.timer state = none := by
            intro state
            cases hTimer : p'.timer state with
            | none => rfl
            | some id =>
                rw [hAfter] at hTimer
                have hCurrent := ((hErased.deleteTimer
                  p.current).timer_current state id hTimer).1
                rw [deleteTimer_current] at hCurrent
                rw [hCurrent, deleteTimer_timer_self] at hTimer
                cases hTimer
          have hNumbered : TimersNumbered p' := by
            rw [hAfter]
            exact (hRight.numbered.erase wait).deleteTimer _
          rcases exists_run_without_cancelled fsm
              p'.waits.length (le_refl _) hNumbered hNone with
            ⟨more, p'', hMore, hCurrent, hNone', hAll⟩
          refine Or.inr ⟨more, p'', hMore, ?_⟩
          refine not_ownsTimer_of_no_timer ?_ hNone' hAll
          rw [hCurrent, hAfter, deleteTimer_current, ← hOwner]
          exact hKind

end Process

end ModemTester

------------------------------------------------------------
-- The Two Machines
------------------------------------------------------------

namespace ModemTester

open Process

/-
  In every punctual run of either machine each waiting state
  owns exactly one armed timer, started by its latest entry,
  and every `Timeout` comes from that timer.
-/
theorem masterAndRemote_own_timers
    (labels : List ProcessLabel) :
    (StepSystem.Along (step masterFsm) Punctual
        (start masterFsm) labels →
      StepSystem.Throughout (step masterFsm)
          (OwnsTimer masterFsm) (start masterFsm) labels ∧
        StepSystem.Along (step masterFsm) OwnTimeout
          (start masterFsm) labels) ∧
      (StepSystem.Along (step remoteFsm) Punctual
          (start remoteFsm) labels →
        StepSystem.Throughout (step remoteFsm)
            (OwnsTimer remoteFsm) (start remoteFsm) labels ∧
          StepSystem.Along (step remoteFsm) OwnTimeout
            (start remoteFsm) labels) :=
  ⟨owns_timer_of_punctual masterFsm masterFsm_accepts_timeout
      labels,
    owns_timer_of_punctual remoteFsm remoteFsm_accepts_timeout
      labels⟩

instance (p : Process RemoteState) (label : ProcessLabel) :
    Decidable (Punctual p label) :=
  match label with
  | .dispatchTimeout timer =>
      match hQueued : p.queuedWait? timer with
      | none => .isTrue (by simp [Punctual, hQueued])
      | some wait =>
          decidable_of_iff
            (p.timer wait.owner ≠ some wait.timer →
              wait.status = .cancelled ∧
                wait.owner ≠ p.current)
            (by simp [Punctual, hQueued, Late])
  | .dispatchEvent event =>
      inferInstanceAs (Decidable (event ≠ .timeout))
  | .readCompletes | .handleReadEvt _ | .timerExpires _
  | .activityCancels => .isTrue trivial

/-
  A handshake: the handler of the timer that the
  acknowledgement cancels runs in the activity mode.
-/
theorem masterAndRemote_own_timers_in_handshake :
    StepSystem.Throughout (step remoteFsm)
        (OwnsTimer remoteFsm) (start remoteFsm)
        [.readCompletes,
          .handleReadEvt availabilityModeCommandId,
          .readCompletes, .handleReadEvt masterAckId,
          .dispatchTimeout 0] ∧
      StepSystem.Along (step remoteFsm) OwnTimeout
        (start remoteFsm)
        [.readCompletes,
          .handleReadEvt availabilityModeCommandId,
          .readCompletes, .handleReadEvt masterAckId,
          .dispatchTimeout 0] :=
  (masterAndRemote_own_timers _).2 (by decide)

/-
  A repeated `EndModeCommand` re-enters `EndModeReceived`,
  and the handler of the timer cancelled by it deletes the
  timer that the new entry has started.
-/
theorem endModeReceived_without_timer :
    ¬ StepSystem.Throughout (step remoteFsm)
        (OwnsTimer remoteFsm) (start remoteFsm)
        [.readCompletes,
          .handleReadEvt availabilityModeCommandId,
          .readCompletes, .handleReadEvt masterAckId,
          .dispatchTimeout 0, .activityCancels,
          .dispatchEvent .endModeCommand,
          .readCompletes, .handleReadEvt endModeCommandId,
          .dispatchTimeout 1, .dispatchTimeout 2] := by
  decide

end ModemTester
