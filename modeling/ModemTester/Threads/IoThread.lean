import ModemTester.Library.StepSystem
import ModemTester.Master.MasterThroughput
import ModemTester.StreamOwnership

/-
  The io thread and the thread of a `MasterThroughput`
  (`MasterThroughput.cpp`, `ReportingActivity.h`,
  `ActivityState::exit` of `BaseFSM.h`, `Runnable.cpp`), from
  the entry of `ThroughputMode` to the end of its `exit`.

  The io thread runs one handler at a time. A handler may
  wait: `exit` joins the thread of the activity, and the
  report handler runs `getResults`, which spins until
  `receiveResults` has been run. So does the activity before
  its thread ends, whether it was stopped or not, and only
  the io thread runs `receiveResults`.

  The lock of the pool, which the activity takes at its end,
  is left out here; so are the bytes that are written and
  the timer that sends `EndStandardCodes` again, which waits
  for nothing.

  Key definitions include:
    * `ThroughputRun`
    * `ThroughputRun.step`
    * `ThroughputRun.Stuck`
    * `ThroughputRun.Free`

  Main declarations:
    * `ThroughputRun.never_stuck_iff_free`
    * `ThroughputRun.stuck_on_late_ack`
-/

------------------------------------------------------------
-- Threads And Handlers
------------------------------------------------------------

namespace ModemTester

/- The next step of `getResults`. -/
inductive ResultsPoint where
  | clearing
  | cancelling
  | arming
  | spinning
  | resuming
  deriving DecidableEq, Repr

def ResultsPoint.next : ResultsPoint → Option ResultsPoint
  | .clearing => some .cancelling
  | .cancelling => some .arming
  | .arming => some .spinning
  | .spinning => some .resuming
  | .resuming => none

/- How far `MasterThroughput::operator()` is. -/
inductive WorkerPhase where
  | started
  | cancelled
  | armed
  | sending (it : Nat)
  | waiting
  | inResults (point : ResultsPoint)
  | dispatching
  | ended
  deriving DecidableEq, Repr

/- The results are no longer needed. -/
@[simp] def WorkerPhase.Past : WorkerPhase → Prop
  | .inResults .resuming => True
  | .dispatching => True
  | .ended => True
  | _ => False

instance : DecidablePred WorkerPhase.Past := by
  intro phase
  unfold WorkerPhase.Past
  split
  · infer_instance
  · infer_instance
  · infer_instance
  · infer_instance

/- The io thread is between handlers, or waits in one. -/
inductive IoPhase where
  | idle
  | joining (target : MasterState)
  | inResults (point : ResultsPoint)
  deriving DecidableEq, Repr

/- The bytes that the read of a handler waits for. -/
def ReadHandler.size : ReadHandler → Nat
  | .handleReadEvt => 1
  | .handleReceive => 1
  | .receiveResults => 8

inductive ReadResult where
  | aborted
  | failed
  | received (bytes : List Byte)
  deriving DecidableEq, Repr

/- A handler that is queued. -/
inductive IoHandler where
  | read (handler : ReadHandler) (result : ReadResult)
  | report
  | abortedReport
  deriving DecidableEq, Repr

/-
  `period` is `_pingStatusReportPeriod`, and `timerArmed`
  says that a wait on `_reportStatsTimer` is pending. `gone`
  says that the process has ended, or that the activity has
  been deleted.
-/
structure ThroughputRun where
  period : Nat
  entryArmed : Bool
  worker : WorkerPhase
  stopRequested : Bool
  resultsReady : Bool
  io : IoPhase
  pending : List ReadHandler
  ready : List IoHandler
  timerArmed : Bool
  gone : Bool
  deriving DecidableEq, Repr

------------------------------------------------------------
-- The Activity
------------------------------------------------------------

namespace ThroughputRun

/-
  `ActivityState::entry` has started the thread. Reads of
  the state before may be pending, and handlers of others
  may be queued with the byte each was given.
-/
def start
    (period armed : Nat)
    (queued : List Byte) : ThroughputRun where
  period := period
  entryArmed := false
  worker := .started
  stopRequested := false
  resultsReady := false
  io := .idle
  pending := List.replicate armed .handleReadEvt
  ready := queued.map fun byte =>
    .read .handleReadEvt (.received [byte])
  timerArmed := false
  gone := false

/- `_ioStream->cancel()`. -/
def cancelReads (s : ThroughputRun) : ThroughputRun :=
  { s with
    pending := []
    ready := s.ready ++
      s.pending.map fun handler => .read handler .aborted }

def armRead
    (handler : ReadHandler)
    (s : ThroughputRun) : ThroughputRun :=
  { s with pending := s.pending ++ [handler] }

def initReporting (s : ThroughputRun) : ThroughputRun :=
  if 0 < s.period then { s with timerArmed := true } else s

/- The cancel aborts the wait, if one is pending. -/
def endReporting (s : ThroughputRun) : ThroughputRun :=
  if s.timerArmed = true then
    { s with
      timerArmed := false
      ready := s.ready ++ [.abortedReport] }
  else
    s

/- The steps of `getResults`, on either thread. -/
def getResults
    (s : ThroughputRun) : ResultsPoint → Option ThroughputRun
  | .clearing => some { s with resultsReady := false }
  | .cancelling => some s.cancelReads
  | .arming => some (s.armRead .receiveResults)
  | .spinning => if s.resultsReady = true then some s else none
  | .resuming => some (s.armRead .handleReceive)

def setWorker
    (phase : WorkerPhase)
    (s : ThroughputRun) : ThroughputRun :=
  { s with worker := phase }

/- The next step of `operator()`, unless it has to wait. -/
def work (s : ThroughputRun) : Option ThroughputRun :=
  match s.worker with
  | .started => some (s.cancelReads.setWorker .cancelled)
  | .cancelled =>
      some ((s.armRead .handleReceive).setWorker .armed)
  | .armed => some (s.initReporting.setWorker (.sending 0))
  | .sending it =>
      if it < 10 ∧ s.stopRequested = false then
        some (s.setWorker (.sending (it + 1)))
      else
        some (s.setWorker .waiting)
  | .waiting =>
      some (s.endReporting.setWorker (.inResults .clearing))
  | .inResults point =>
      match s.getResults point, point.next with
      | some s', some next => some (s'.setWorker (.inResults next))
      | some s', none => some (s'.setWorker .dispatching)
      | none, _ => none
  | .dispatching => some (s.setWorker .ended)
  | .ended => none

------------------------------------------------------------
-- The Io Thread
------------------------------------------------------------

def setIo (phase : IoPhase) (s : ThroughputRun) : ThroughputRun :=
  { s with io := phase }

/-
  `MasterFSM::dispatch` on the io thread, up to the join of
  `Runnable::stop`.
-/
def dispatch (event : Event) (s : ThroughputRun) :
    ThroughputRun :=
  match (masterFsm.dispatch .throughputMode event).2 with
  | .stays => s
  | .transits target =>
      { s with stopRequested := true, io := .joining target }
  | .exits => { s with gone := true }

/- What a handler of bytes dispatches. -/
def eventOf
    (handler : ReadHandler)
    (bytes : List Byte) : Option Event :=
  match handler with
  | .handleReadEvt => bytes.findSome? readEvt
  | .handleReceive =>
      bytes.findSome? (MasterState.readByte .throughputMode)
  | .receiveResults => none

/- A read that failed stops the process with `EndTest`. -/
def runHandler (s : ThroughputRun) : IoHandler → ThroughputRun
  | .read _ .aborted => s
  | .read _ .failed => { s with gone := true }
  | .read .handleReadEvt (.received bytes) =>
      match eventOf .handleReadEvt bytes with
      | some event => s.dispatch event
      | none => s
  | .read .handleReceive (.received bytes) =>
      match eventOf .handleReceive bytes with
      | some event => s.dispatch event
      | none => s.armRead .handleReceive
  | .read .receiveResults (.received bytes) =>
      if bytes.length = 8 then
        { s with resultsReady := true }
      else
        s
  | .report => s.setIo (.inResults .clearing)
  | .abortedReport => s

/-
  The next step in a handler that waits. After the join the
  activity is deleted.
-/
def proceed (s : ThroughputRun) : Option ThroughputRun :=
  match s.io with
  | .idle => none
  | .joining _ =>
      if s.worker = .ended then
        some { s with io := .idle, gone := true }
      else none
  | .inResults point =>
      match s.getResults point, point.next with
      | some s', some next => some (s'.setIo (.inResults next))
      | some s', none =>
          some { s' with io := .idle, timerArmed := true }
      | none, _ => none

end ThroughputRun

------------------------------------------------------------
-- Steps
------------------------------------------------------------

inductive ThroughputLabel where
  /- `BaseFSM::entry` arms its read. -/
  | entry
  /- The thread of the activity makes a step. -/
  | work
  /- A pending read ends. -/
  | complete (handler : ReadHandler) (bytes : List Byte)
  | fail (handler : ReadHandler)
  /- The report timer expires. -/
  | expire
  /- The io thread runs the next handler, or goes on in it. -/
  | handle
  | proceed
  /- Another thread dispatches an event. -/
  | dispatch (event : Event)
  deriving DecidableEq, Repr

namespace ThroughputRun

/- A step while the activity is there. -/
def activeStep (s : ThroughputRun) :
    ThroughputLabel → Option ThroughputRun
  | .entry =>
      if s.entryArmed = false then
        some
          { s.armRead .handleReadEvt with entryArmed := true }
      else none
  | .work => s.work
  | .complete handler bytes =>
      if handler ∈ s.pending ∧ bytes.length = handler.size then
        some
          { s with
            pending := s.pending.erase handler
            ready := s.ready ++
              [.read handler (.received bytes)] }
      else none
  | .fail handler =>
      if handler ∈ s.pending then
        some
          { s with
            pending := s.pending.erase handler
            ready := s.ready ++ [.read handler .failed] }
      else none
  | .expire =>
      if s.timerArmed = true then
        some
          { s with
            timerArmed := false
            ready := s.ready ++ [.report] }
      else none
  | .handle =>
      match s.io, s.ready with
      | .idle, handler :: ready =>
          some (runHandler { s with ready := ready } handler)
      | _, _ => none
  | .proceed => s.proceed
  | .dispatch event =>
      match (masterFsm.dispatch .throughputMode event).2 with
      | .stays => some s
      | .transits _ => some { s with stopRequested := true }
      | .exits => some { s with gone := true }

def step (s : ThroughputRun) (label : ThroughputLabel) :
    Option ThroughputRun :=
  if s.gone = true then none else s.activeStep label

------------------------------------------------------------
-- Waiting
------------------------------------------------------------

open StepSystem

/- The io thread is in a handler that never returns. -/
def Stuck (s : ThroughputRun) : Prop :=
  s.gone = false ∧ Forever step (fun s' => s'.io ≠ .idle) s

/- The activity does not wait for results any more. -/
def HasResults (s : ThroughputRun) : Prop :=
  s.resultsReady = true ∨ s.worker.Past

instance (s : ThroughputRun) : Decidable s.HasResults := by
  unfold HasResults
  infer_instance

end ThroughputRun

namespace IoHandler

/- What the handler dispatches makes a transition. -/
def leaves : IoHandler → Bool
  | .read handler (.received bytes) =>
      match ThroughputRun.eventOf handler bytes with
      | some event =>
          (masterFsm.dispatch .throughputMode event).2.isTransit
      | none => false
  | _ => false

end IoHandler

namespace ThroughputRun

/-
  The handler that the io thread runs makes no report, and
  makes a transition only when the activity has its results.
-/
def Free (s : ThroughputRun) : ThroughputLabel → Prop
  | .handle =>
      ∀ handler ∈ s.ready.head?,
        handler ≠ .report ∧
          (handler.leaves = true → s.HasResults)
  | _ => True

end ThroughputRun

end ModemTester

------------------------------------------------------------
-- Steps Of The Activity
------------------------------------------------------------

namespace ModemTester

/- Before the read of the results has been armed. -/
@[simp] def WorkerPhase.Early : WorkerPhase → Prop
  | .inResults .spinning => False
  | phase => ¬ phase.Past

theorem not_early_of_past
    {phase : WorkerPhase}
    (hPast : phase.Past) : ¬ phase.Early := by
  unfold WorkerPhase.Early
  split
  · exact fun hFalse => hFalse
  · exact fun hNot => hNot hPast

theorem cases_of_not_early
    {phase : WorkerPhase}
    (hLate : ¬ phase.Early) :
    phase = .inResults .spinning ∨
      phase = .inResults .resuming ∨
      phase = .dispatching ∨ phase = .ended := by
  cases phase with
  | inResults point => cases point <;> simp_all
  | _ => simp_all

namespace ThroughputRun

variable {s s' t : ThroughputRun}
variable {phase : WorkerPhase}

/- No results have been read, and none will be. -/
structure NoResults (s : ThroughputRun) : Prop where
  unready : s.resultsReady = false
  unread : .receiveResults ∉ s.pending
  unqueued : ∀ bytes,
    .read .receiveResults (.received bytes) ∉ s.ready

theorem NoResults.cancelReads (hNo : s.NoResults) :
    s.cancelReads.NoResults := by
  refine ⟨hNo.unready, by simp [ThroughputRun.cancelReads], ?_⟩
  intro bytes hMem
  rcases List.mem_append.mp hMem with hOld | hNew
  · exact hNo.unqueued bytes hOld
  · simp at hNew

theorem NoResults.armRead
    {handler : ReadHandler}
    (hNo : s.NoResults)
    (hHandler : handler ≠ .receiveResults) :
    (s.armRead handler).NoResults := by
  refine ⟨hNo.unready, ?_, hNo.unqueued⟩
  intro hMem
  rcases List.mem_append.mp hMem with hOld | hNew
  · exact hNo.unread hOld
  · exact hHandler (List.mem_singleton.mp hNew).symm

theorem NoResults.initReporting (hNo : s.NoResults) :
    s.initReporting.NoResults := by
  unfold ThroughputRun.initReporting
  split
  · exact ⟨hNo.unready, hNo.unread, hNo.unqueued⟩
  · exact hNo

theorem NoResults.endReporting (hNo : s.NoResults) :
    s.endReporting.NoResults := by
  unfold ThroughputRun.endReporting
  split
  · refine ⟨hNo.unready, hNo.unread, ?_⟩
    intro bytes hMem
    rcases List.mem_append.mp hMem with hOld | hNew
    · exact hNo.unqueued bytes hOld
    · simp at hNew
  · exact hNo

/- The io thread and the flags are the same. -/
structure SameIo (s s' : ThroughputRun) : Prop where
  io : s'.io = s.io
  gone : s'.gone = s.gone
  ready : s'.resultsReady = s.resultsReady

theorem sameIo_initReporting : SameIo s s.initReporting := by
  unfold initReporting
  split
  · exact ⟨rfl, rfl, rfl⟩
  · exact ⟨rfl, rfl, rfl⟩

theorem sameIo_endReporting : SameIo s s.endReporting := by
  unfold endReporting
  split
  · exact ⟨rfl, rfl, rfl⟩
  · exact ⟨rfl, rfl, rfl⟩

/-
  What a step of the activity does. It gets past the wait
  for the results only when they are there, and loses them
  only before their read.
-/
structure Worked (s s' : ThroughputRun) : Prop where
  io : s'.io = s.io
  gone : s'.gone = s.gone
  lost : s'.resultsReady = s.resultsReady ∨
    s'.resultsReady = false
  kept : ¬ s.worker.Early → s'.HasResults
  past : s'.worker.Past →
    s.worker.Past ∨ s.resultsReady = true
  early : s'.worker.Early → s.worker.Early
  unread : s'.worker.Early → s.NoResults → s'.NoResults

/- A step before the read of the results is armed. -/
theorem worked_of_early
    (hEarly : s.worker.Early)
    (hNot : ¬ phase.Past)
    (hIo : t.io = s.io)
    (hGone : t.gone = s.gone)
    (hLost : t.resultsReady = s.resultsReady ∨
      t.resultsReady = false)
    (hUnread : phase.Early → s.NoResults → t.NoResults) :
    Worked s (t.setWorker phase) where
  io := hIo
  gone := hGone
  lost := hLost
  kept := fun hLate => absurd hEarly hLate
  past := fun hPast => absurd hPast hNot
  early := fun _ => hEarly
  unread := fun hPhase hNo =>
    have hNo' := hUnread hPhase hNo
    ⟨hNo'.unready, hNo'.unread, hNo'.unqueued⟩

/- A step once the results are there. -/
theorem worked_of_hasResults
    (hHas : s.worker.Past ∨ s.resultsReady = true)
    (hPast : phase.Past)
    (hNot : ¬ phase.Early)
    (hSame : SameIo s t) :
    Worked s (t.setWorker phase) where
  io := hSame.io
  gone := hSame.gone
  lost := .inl hSame.ready
  kept := fun _ => .inr hPast
  past := fun _ => hHas
  early := fun hEarly => absurd hEarly hNot
  unread := fun hEarly => absurd hEarly hNot

theorem worked_of_work (hWork : s.work = some s') :
    Worked s s' := by
  unfold work at hWork
  cases hPhase : s.worker with
  | started =>
      simp only [hPhase, Option.some.injEq] at hWork
      subst hWork
      exact worked_of_early (by simp [hPhase])
        (by simp) rfl rfl (.inl rfl)
        fun _ hNo => hNo.cancelReads
  | cancelled =>
      simp only [hPhase, Option.some.injEq] at hWork
      subst hWork
      exact worked_of_early (by simp [hPhase])
        (by simp) rfl rfl (.inl rfl)
        fun _ hNo => hNo.armRead (by decide)
  | armed =>
      simp only [hPhase, Option.some.injEq] at hWork
      subst hWork
      have hSame : SameIo s s.initReporting :=
        sameIo_initReporting
      exact worked_of_early (by simp [hPhase])
        (by simp) hSame.io hSame.gone (.inl hSame.ready)
        fun _ hNo => hNo.initReporting
  | sending it =>
      simp only [hPhase] at hWork
      have hEarly : s.worker.Early := by simp [hPhase]
      split at hWork
      · cases hWork
        exact worked_of_early hEarly (by simp) rfl rfl
          (.inl rfl) fun _ hNo => hNo
      · cases hWork
        exact worked_of_early hEarly (by simp) rfl rfl
          (.inl rfl) fun _ hNo => hNo
  | waiting =>
      simp only [hPhase, Option.some.injEq] at hWork
      subst hWork
      have hSame : SameIo s s.endReporting :=
        sameIo_endReporting
      exact worked_of_early (by simp [hPhase])
        (by simp) hSame.io hSame.gone (.inl hSame.ready)
        fun _ hNo => hNo.endReporting
  | inResults point =>
      simp only [hPhase] at hWork
      cases point with
      | clearing =>
          cases hWork
          exact worked_of_early (by simp [hPhase])
            (by simp) rfl rfl (.inr rfl)
            fun _ hNo => ⟨rfl, hNo.unread, hNo.unqueued⟩
      | cancelling =>
          cases hWork
          exact worked_of_early (by simp [hPhase])
            (by simp) rfl rfl (.inl rfl)
            fun _ hNo => hNo.cancelReads
      | arming =>
          cases hWork
          exact worked_of_early (by simp [hPhase])
            (by simp) rfl rfl (.inl rfl)
            fun hEarly => hEarly.elim
      | spinning =>
          by_cases hReady : s.resultsReady = true
          · simp only [getResults, hReady, if_true,
              ResultsPoint.next, Option.some.injEq] at hWork
            subst hWork
            exact worked_of_hasResults (.inr hReady) trivial
              (by simp) ⟨rfl, rfl, rfl⟩
          · simp [getResults, hReady] at hWork
      | resuming =>
          cases hWork
          exact worked_of_hasResults
            (.inl (by simp [hPhase])) trivial (by simp)
            ⟨rfl, rfl, rfl⟩
  | dispatching =>
      simp only [hPhase, Option.some.injEq] at hWork
      subst hWork
      exact worked_of_hasResults (.inl (by simp [hPhase]))
        trivial (by simp) ⟨rfl, rfl, rfl⟩
  | ended => simp [hPhase] at hWork

------------------------------------------------------------
-- Waiting For Ever
------------------------------------------------------------

open StepSystem

variable {label : ThroughputLabel}

/- The io thread waits for what only it can do. -/
def Waits (s : ThroughputRun) : Prop :=
  match s.io with
  | .idle => False
  | .joining _ => ¬ s.HasResults
  | .inResults point =>
      point = .clearing ∨
        point ≠ .resuming ∧ s.resultsReady = false

theorem Waits.not_idle (hWaits : s.Waits) : s.io ≠ .idle := by
  intro hIdle
  rw [Waits, hIdle] at hWaits
  exact hWaits

/- What does not concern the wait leaves it. -/
theorem Waits.of_same
    (hWaits : s.Waits)
    (hWorker : s'.worker = s.worker)
    (hIo : s'.io = s.io)
    (hReady : s'.resultsReady = s.resultsReady) :
    s'.Waits := by
  rw [Waits, hIo, HasResults, hWorker, hReady]
  exact hWaits

theorem Waits.work
    (hWaits : s.Waits)
    (hWork : s.work = some s') :
    s'.Waits := by
  have hWorked := worked_of_work hWork
  have hFalse : s.resultsReady = false →
      s'.resultsReady = false := by
    intro hNot
    rcases hWorked.lost with hSame | hLost
    · rw [hSame, hNot]
    · exact hLost
  unfold Waits at hWaits ⊢
  rw [hWorked.io]
  split at hWaits
  · exact hWaits
  · -- The activity waits at the latest in `getResults`.
    have hNot : s.resultsReady = false := by
      simpa using fun hReady => hWaits (.inl hReady)
    rintro (hReady | hPast)
    · rw [hFalse hNot] at hReady
      cases hReady
    · rcases hWorked.past hPast with hOld | hReady
      · exact hWaits (.inr hOld)
      · exact hWaits (.inl hReady)
  · rcases hWaits with hClearing | ⟨hPoint, hNot⟩
    · exact .inl hClearing
    · exact .inr ⟨hPoint, hFalse hNot⟩

theorem Waits.proceed
    (hWaits : s.Waits)
    (hProceed : s.proceed = some s') :
    s'.Waits := by
  unfold ThroughputRun.proceed at hProceed
  unfold Waits at hWaits
  split at hProceed
  · cases hProceed
  · rename_i hIo
    rw [hIo] at hWaits
    split at hProceed
    · rename_i hEnded
      exact absurd (.inr (by simp [hEnded])) hWaits
    · cases hProceed
  · rename_i point hIo
    rw [hIo] at hWaits
    cases point with
    | clearing =>
        cases hProceed
        exact .inr ⟨by decide, rfl⟩
    | cancelling | arming =>
        cases hProceed
        have hNot := (hWaits.resolve_left (by decide)).2
        exact .inr ⟨by decide, hNot⟩
    | spinning =>
        have hNot := (hWaits.resolve_left (by decide)).2
        simp [getResults, hNot] at hProceed
    | resuming => simp at hWaits

theorem Waits.step
    (hWaits : s.Waits)
    (hStep : ThroughputRun.step s label = some s') :
    s'.Waits := by
  unfold ThroughputRun.step at hStep
  split at hStep
  · cases hStep
  · cases label with
    | entry | complete handler bytes | fail handler | expire =>
        simp only [activeStep, Option.ite_none_right_eq_some,
          Option.some.injEq] at hStep
        rcases hStep with ⟨-, rfl⟩
        exact hWaits.of_same rfl rfl rfl
    | work => exact hWaits.work hStep
    | handle =>
        simp only [activeStep] at hStep
        split at hStep
        · rename_i hIdle _
          exact absurd hIdle hWaits.not_idle
        · cases hStep
    | proceed => exact hWaits.proceed hStep
    | dispatch event =>
        simp only [activeStep] at hStep
        split at hStep
        all_goals
          cases hStep
          exact hWaits.of_same rfl rfl rfl

theorem stuck_of_waits
    (hActive : s.gone = false)
    (hWaits : s.Waits) :
    s.Stuck :=
  ⟨hActive, forever_of_preserved
    (fun _ _ _ hWaits hStep => hWaits.step hStep)
    (fun _ hWaits => hWaits.not_idle) hWaits⟩

------------------------------------------------------------
-- Going On
------------------------------------------------------------

/- The io thread is idle, or waits for what will come. -/
structure Clear (s : ThroughputRun) : Prop where
  io : s.io = .idle ∨
    (∃ target, s.io = .joining target) ∧ s.HasResults
  unread : s.worker.Early → s.NoResults

theorem clear_start
    (period armed : Nat)
    (queued : List Byte) :
    (start period armed queued).Clear := by
  refine ⟨.inl rfl, fun _ => ⟨rfl, ?_, ?_⟩⟩
  · simp [start]
  · simp [start]

/- Some continuation brings the io thread to its handlers. -/
def Returns (s : ThroughputRun) : Prop :=
  ∃ labels s', run ThroughputRun.step s labels = some s' ∧
    s'.io = .idle

theorem Returns.not_stuck (hReturns : s.Returns) :
    ¬ s.Stuck := by
  rcases hReturns with ⟨labels, s', hRun, hIdle⟩
  rintro ⟨-, hForever⟩
  exact hForever labels s' hRun hIdle

theorem returns_of_step
    (hStep : ThroughputRun.step s label = some t)
    (hReturns : t.Returns) :
    s.Returns := by
  rcases hReturns with ⟨labels, s', hRun, hIdle⟩
  exact ⟨label :: labels, s',
    by rw [run_cons_of_step hStep, hRun], hIdle⟩

theorem returns_of_ended
    {target : MasterState}
    (hActive : s.gone = false)
    (hJoin : s.io = .joining target)
    (hWorker : s.worker = .ended) :
    s.Returns := by
  have hStep : ThroughputRun.step s .proceed =
      some { s with io := .idle, gone := true } := by
    simp [ThroughputRun.step, hActive, activeStep, proceed,
      hJoin, hWorker]
  exact returns_of_step hStep ⟨[], _, rfl, rfl⟩

theorem returns_of_dispatching
    {target : MasterState}
    (hActive : s.gone = false)
    (hJoin : s.io = .joining target)
    (hWorker : s.worker = .dispatching) :
    s.Returns := by
  have hStep : ThroughputRun.step s .work =
      some (s.setWorker .ended) := by
    simp [ThroughputRun.step, hActive, activeStep, work,
      hWorker]
  exact returns_of_step hStep
    (returns_of_ended hActive hJoin rfl)

theorem returns_of_resuming
    {target : MasterState}
    (hActive : s.gone = false)
    (hJoin : s.io = .joining target)
    (hWorker : s.worker = .inResults .resuming) :
    s.Returns := by
  have hStep : ThroughputRun.step s .work =
      some ((s.armRead .handleReceive).setWorker
        .dispatching) := by
    simp [ThroughputRun.step, hActive, activeStep, work,
      hWorker, getResults, ResultsPoint.next]
  exact returns_of_step hStep
    (returns_of_dispatching hActive hJoin rfl)

theorem returns_of_spinning
    {target : MasterState}
    (hActive : s.gone = false)
    (hJoin : s.io = .joining target)
    (hWorker : s.worker = .inResults .spinning)
    (hReady : s.resultsReady = true) :
    s.Returns := by
  have hStep : ThroughputRun.step s .work =
      some (s.setWorker (.inResults .resuming)) := by
    simp [ThroughputRun.step, hActive, activeStep, work,
      hWorker, getResults, hReady, ResultsPoint.next]
  exact returns_of_step hStep
    (returns_of_resuming hActive hJoin rfl)

theorem Clear.late
    (hClear : s.Clear)
    (hHas : s.HasResults) :
    ¬ s.worker.Early := by
  intro hEarly
  rcases hHas with hReady | hPast
  · rw [(hClear.unread hEarly).unready] at hReady
    cases hReady
  · exact not_early_of_past hPast hEarly

/- With its results the activity comes to its end. -/
theorem Clear.not_stuck (hClear : s.Clear) : ¬ s.Stuck := by
  intro hStuck
  have hActive := hStuck.1
  rcases hClear.io with hIdle | ⟨⟨target, hJoin⟩, hHas⟩
  · exact hStuck.2 [] s rfl hIdle
  · refine Returns.not_stuck ?_ hStuck
    rcases cases_of_not_early (hClear.late hHas) with
      hWorker | hWorker | hWorker | hWorker
    · have hReady : s.resultsReady = true :=
        hHas.resolve_right (by simp [hWorker])
      exact returns_of_spinning hActive hJoin hWorker hReady
    · exact returns_of_resuming hActive hJoin hWorker
    · exact returns_of_dispatching hActive hJoin hWorker
    · exact returns_of_ended hActive hJoin hWorker

------------------------------------------------------------
-- Steps Of A Free Run
------------------------------------------------------------

variable {event : Event}
variable {handler : IoHandler}

theorem NoResults.of_ready
    {ready : List IoHandler}
    (hNo : s.NoResults)
    (hReady : ∀ bytes,
      .read .receiveResults (.received bytes) ∉ ready) :
    ({ s with ready := ready }).NoResults :=
  ⟨hNo.unready, hNo.unread, hReady⟩

/- What does not concern the wait leaves it. -/
theorem Clear.of_same
    (hClear : s.Clear)
    (hWorker : s'.worker = s.worker)
    (hIo : s'.io = s.io)
    (hReady : s'.resultsReady = s.resultsReady)
    (hUnread : s.NoResults → s'.NoResults) :
    s'.Clear := by
  refine ⟨?_, ?_⟩
  · rw [hIo, HasResults, hWorker, hReady]
    exact hClear.io
  · rw [hWorker]
    exact fun hEarly => hUnread (hClear.unread hEarly)

theorem Clear.work
    (hClear : s.Clear)
    (hWork : s.work = some s') :
    s'.Clear := by
  have hWorked := worked_of_work hWork
  refine ⟨?_, fun hEarly => hWorked.unread hEarly
    (hClear.unread (hWorked.early hEarly))⟩
  rw [hWorked.io]
  rcases hClear.io with hIdle | ⟨hJoin, hHas⟩
  · exact .inl hIdle
  · exact .inr ⟨hJoin, hWorked.kept (hClear.late hHas)⟩

theorem Clear.dispatch
    (hClear : s.Clear)
    (hLeaves :
      (masterFsm.dispatch .throughputMode event).2.isTransit =
        true → s.HasResults) :
    (s.dispatch event).Clear := by
  unfold ThroughputRun.dispatch
  split
  · exact hClear
  · rename_i target hTransits
    rw [hTransits] at hLeaves
    refine ⟨.inr ⟨⟨target, rfl⟩, hLeaves rfl⟩, ?_⟩
    intro hEarly
    have hNo := hClear.unread hEarly
    exact ⟨hNo.unready, hNo.unread, hNo.unqueued⟩
  · exact hClear.of_same rfl rfl rfl
      fun hNo => ⟨hNo.unready, hNo.unread, hNo.unqueued⟩

theorem waits_dispatch
    (hNot : ¬ s.HasResults)
    (hLeaves :
      (masterFsm.dispatch .throughputMode event).2.isTransit =
        true) :
    (s.dispatch event).Waits ∧
      (s.dispatch event).gone = s.gone := by
  unfold ThroughputRun.dispatch
  split
  · rename_i hStays
    rw [hStays] at hLeaves
    cases hLeaves
  · exact ⟨hNot, rfl⟩
  · rename_i hExits
    rw [hExits] at hLeaves
    cases hLeaves

/- The results come only once their read has been armed. -/
theorem Clear.handle
    (hClear : s.Clear)
    (hResults : ∀ bytes,
      handler = .read .receiveResults (.received bytes) →
        ¬ s.worker.Early)
    (hReport : handler ≠ .report)
    (hLeaves : handler.leaves = true → s.HasResults) :
    (s.runHandler handler).Clear := by
  unfold runHandler
  split
  · exact hClear
  · exact hClear.of_same rfl rfl rfl
      fun hNo => ⟨hNo.unready, hNo.unread, hNo.unqueued⟩
  · rename_i bytes
    split
    · rename_i event hEvent
      exact hClear.dispatch
        (by simpa [IoHandler.leaves, hEvent] using hLeaves)
    · exact hClear
  · rename_i bytes
    split
    · rename_i event hEvent
      exact hClear.dispatch
        (by simpa [IoHandler.leaves, hEvent] using hLeaves)
    · exact hClear.of_same rfl rfl rfl
        fun hNo => hNo.armRead (by decide)
  · rename_i bytes
    split
    · refine ⟨?_, fun hEarly =>
        absurd hEarly (hResults bytes rfl)⟩
      rcases hClear.io with hIdle | ⟨hJoin, -⟩
      · exact .inl hIdle
      · exact .inr ⟨hJoin, .inl rfl⟩
    · exact hClear
  · exact absurd rfl hReport
  · exact hClear

/- A handler that is not free waits for ever. -/
theorem waits_handle
    (hNot : ¬ (handler ≠ .report ∧
      (handler.leaves = true → s.HasResults))) :
    (s.runHandler handler).Waits ∧
      (s.runHandler handler).gone = s.gone := by
  by_cases hReport : handler = .report
  · subst hReport
    exact ⟨.inl rfl, rfl⟩
  · have hLeaves : handler.leaves = true ∧ ¬ s.HasResults := by
      simpa [hReport] using hNot
    unfold IoHandler.leaves at hLeaves
    split at hLeaves
    · rename_i reader bytes
      split at hLeaves
      · rename_i event hEvent
        have hWaits := waits_dispatch hLeaves.2 hLeaves.1
        cases reader with
        | handleReadEvt | handleReceive =>
            simpa only [runHandler, hEvent] using hWaits
        | receiveResults => cases hEvent
      · cases hLeaves.1
    · cases hLeaves.1

theorem Clear.of_handle
    {ready : List IoHandler}
    (hClear : s.Clear)
    (hReady : s.ready = handler :: ready) :
    ({ s with ready := ready }).Clear := by
  refine hClear.of_same rfl rfl rfl fun hNo => ?_
  refine hNo.of_ready fun bytes hMem => ?_
  exact hNo.unqueued bytes
    (hReady ▸ List.mem_cons_of_mem _ hMem)

theorem Clear.complete
    {reader : ReadHandler}
    {result : ReadResult}
    (hClear : s.Clear)
    (hPending : reader ∈ s.pending) :
    ({ s with
      pending := s.pending.erase reader
      ready := s.ready ++
        [IoHandler.read reader result] } :
          ThroughputRun).Clear := by
  refine hClear.of_same rfl rfl rfl fun hNo => ?_
  have hReader : reader ≠ .receiveResults :=
    fun hSame => hNo.unread (hSame ▸ hPending)
  refine ⟨hNo.unready,
    fun hMem => hNo.unread (List.mem_of_mem_erase hMem), ?_⟩
  intro bytes hMem
  rcases List.mem_append.mp hMem with hOld | hNew
  · exact hNo.unqueued bytes hOld
  · have hSame := List.mem_singleton.mp hNew
    simp only [IoHandler.read.injEq] at hSame
    exact hReader hSame.1.symm

theorem Clear.step
    (hClear : s.Clear)
    (hFree : s.Free label)
    (hStep : ThroughputRun.step s label = some s') :
    s'.Clear := by
  unfold ThroughputRun.step at hStep
  split at hStep
  · cases hStep
  · cases label with
    | entry =>
        simp only [activeStep, Option.ite_none_right_eq_some,
          Option.some.injEq] at hStep
        rcases hStep with ⟨-, rfl⟩
        refine hClear.of_same rfl rfl rfl fun hNo => ?_
        have hNo' := hNo.armRead
          (show ReadHandler.handleReadEvt ≠ .receiveResults
            by decide)
        exact ⟨hNo'.unready, hNo'.unread, hNo'.unqueued⟩
    | work => exact hClear.work hStep
    | complete reader bytes =>
        simp only [activeStep, Option.ite_none_right_eq_some,
          Option.some.injEq] at hStep
        rcases hStep with ⟨hPending, rfl⟩
        exact hClear.complete hPending.1
    | fail reader =>
        simp only [activeStep, Option.ite_none_right_eq_some,
          Option.some.injEq] at hStep
        rcases hStep with ⟨hPending, rfl⟩
        exact hClear.complete hPending
    | expire =>
        simp only [activeStep, Option.ite_none_right_eq_some,
          Option.some.injEq] at hStep
        rcases hStep with ⟨-, rfl⟩
        refine hClear.of_same rfl rfl rfl fun hNo =>
          ⟨hNo.unready, hNo.unread, fun bytes hMem => ?_⟩
        rcases List.mem_append.mp hMem with hOld | hNew
        · exact hNo.unqueued bytes hOld
        · simp at hNew
    | handle =>
        simp only [activeStep] at hStep
        split at hStep
        · rename_i handler ready hIdle hReady
          cases hStep
          have hHandler := hFree handler (by simp [hReady])
          refine (hClear.of_handle hReady).handle ?_
            hHandler.1 hHandler.2
          intro bytes hResults hEarly
          exact (hClear.unread hEarly).unqueued bytes
            (by simp [hReady, hResults])
        · cases hStep
    | proceed =>
        simp only [activeStep, proceed] at hStep
        rcases hClear.io with hIdle | ⟨⟨target, hJoin⟩, -⟩
        · simp [hIdle] at hStep
        · simp only [hJoin, Option.ite_none_right_eq_some,
            Option.some.injEq] at hStep
          rcases hStep with ⟨hEnded, rfl⟩
          exact ⟨.inl rfl, by simp [hEnded]⟩
    | dispatch event =>
        simp only [activeStep] at hStep
        split at hStep
        all_goals
          cases hStep
          exact hClear.of_same rfl rfl rfl
            fun hNo => ⟨hNo.unready, hNo.unread, hNo.unqueued⟩

theorem Clear.waits_step
    (hFree : ¬ s.Free label)
    (hStep : ThroughputRun.step s label = some s') :
    s'.Waits ∧ s'.gone = false := by
  unfold ThroughputRun.step at hStep
  split at hStep
  · cases hStep
  · rename_i hActive
    cases label with
    | handle =>
        simp only [activeStep] at hStep
        split at hStep
        · rename_i handler ready hIdle hReady
          cases hStep
          have hNot : ¬ (handler ≠ .report ∧
              (handler.leaves = true →
                ({ s with ready := ready }).HasResults)) := by
            intro hHandler
            refine hFree fun other hOther => ?_
            simp only [hReady, List.head?_cons,
              Option.mem_some_iff] at hOther
            exact hOther ▸ hHandler
          have hWaits := waits_handle hNot
          exact ⟨hWaits.1,
            hWaits.2.trans (by simpa using hActive)⟩
        · cases hStep
    | _ => exact absurd trivial hFree

------------------------------------------------------------
-- The Io Thread Never Waits For Itself
------------------------------------------------------------

/-
  The io thread is in no handler for ever exactly in the
  runs in which no handler makes a report, and in which a
  handler makes a transition only when the activity has its
  results.
-/
theorem never_stuck_iff_free
    (period armed : Nat)
    (queued : List Byte)
    (labels : List ThroughputLabel) :
    Throughout ThroughputRun.step (fun s => ¬ s.Stuck)
        (start period armed queued) labels ↔
      Along ThroughputRun.step Free
        (start period armed queued) labels := by
  have hStart := clear_start period armed queued
  refine throughout_iff_along
    (I := fun s => s.Clear ∨ s.Waits) ?_ ?_ (.inl hStart)
    hStart.not_stuck
  · rintro s label s' (hClear | hWaits) hStep
    · by_cases hFree : s.Free label
      · exact .inl (hClear.step hFree hStep)
      · exact .inr (Clear.waits_step hFree hStep).1
    · exact .inr (hWaits.step hStep)
  · rintro s label s' hInv hNotStuck hStep
    have hActive : s.gone = false := by
      by_contra hGone
      simp [ThroughputRun.step, hGone] at hStep
    rcases hInv with hClear | hWaits
    · constructor
      · intro hNot
        by_contra hFree
        have hWaits := Clear.waits_step hFree hStep
        exact hNot (stuck_of_waits hWaits.2 hWaits.1)
      · intro hFree
        exact (hClear.step hFree hStep).not_stuck
    · exact absurd (stuck_of_waits hActive hWaits) hNotStuck

/-
  A `RemoteAck` that comes while codes are sent, and the
  report timer of a positive period.
-/
theorem stuck_on_late_ack :
    ¬ Throughout ThroughputRun.step (fun s => ¬ s.Stuck)
        (start 0 0 [])
        [.entry, .work, .work, .work, .handle,
          .complete .handleReceive [remoteAckId], .handle] ∧
      ¬ Throughout ThroughputRun.step (fun s => ¬ s.Stuck)
        (start 1 0 [])
        [.entry, .work, .work, .work, .handle, .expire,
          .handle] := by
  constructor
  · intro hAll
    refine throughout_last rfl hAll (stuck_of_waits rfl ?_)
    rintro (hReady | hPast)
    · cases hReady
    · exact hPast
  · intro hAll
    refine throughout_last rfl hAll (stuck_of_waits rfl ?_)
    left
    rfl

end ThroughputRun

end ModemTester
