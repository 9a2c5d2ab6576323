import ModemTester.Library.Ledger

/-
  The timers of an activity (`ReportingActivity.h`,
  `MasterThroughput.cpp`).

  The runnable's thread runs the activity: `initReporting`,
  `endReporting`, and in `MasterThroughput` `getResults`,
  which is also called from `handleTimerReportStats` on the
  io thread. The io thread runs the handlers of timers and
  of the read of the results. Timers are named by the order
  of their creation. What is done to them is written in a
  history, also where the pointer is to a timer that is gone.

  `endReporting` deletes the report timer and keeps the
  pointer, which the destructor deletes again; and
  `receiveResults` deletes the timer that a handler of
  `timeoutReceiveResults` may be about to use.

  Key definitions include:
    * `ActivityRun`
    * `ActivityRun.step`
    * `ActivityRun.TakenStep`
    * `ActivityRun.Punctual`

  Main declarations:
    * `ActivityRun.released_once_iff`
    * `ActivityRun.deleted_twice`
-/

------------------------------------------------------------
-- Activities
------------------------------------------------------------

namespace ModemTester

inductive ActivityKind where
  | masterPinger
  | masterThroughput
  deriving DecidableEq, Repr

/- How far the activity is: `makeReport` makes it finished. -/
inductive ActivityPhase where
  | constructed
  | reporting
  | ended
  | finished
  | destroyed
  deriving DecidableEq, Repr

/-
  Where a thread is in `getResults`: the read is started,
  the timer created, or the loop on `_resultsReady` entered.
-/
inductive ResultsPhase where
  | reading
  | created
  | waiting
  deriving DecidableEq, Repr

/- The handlers of timers. -/
inductive TimerHandler where
  | handleTimerReportStats
  | timeoutReceiveResults
  deriving DecidableEq, Repr

structure ActivityWait where
  timer : Nat
  handler : TimerHandler
  deriving DecidableEq, Repr

/- A handler that is queued. -/
inductive ActivityCompletion where
  | timer (handler : TimerHandler) (success : Bool)
  | receiveResults (success : Bool)
  deriving DecidableEq, Repr

/-
  `runnable` and `io` say where the two threads are in
  `getResults`; `reading` that the read of the results is
  pending. `timers` counts the timers created so far, and
  `waiting` holds the waits on them that are pending.
-/
structure ActivityRun where
  kind : ActivityKind
  reportPeriod : Int
  phase : ActivityPhase
  runnable : Option ResultsPhase
  io : Option ResultsPhase
  reportStatsTimer : Option Nat
  receiveResultsTimer : Option Nat
  resultsReady : Bool
  reading : Bool
  timers : Nat
  waiting : List ActivityWait
  ready : List ActivityCompletion
  history : List (LedgerOp Nat)
  deriving DecidableEq, Repr

------------------------------------------------------------
-- Operations On Timers
------------------------------------------------------------

namespace ActivityRun

/-
  The constructor. `_receiveResultsTimer` is left without a
  value by the source, and is taken as null.
-/
def construct
    (kind : ActivityKind)
    (reportPeriod : Int) : ActivityRun where
  kind := kind
  reportPeriod := reportPeriod
  phase := .constructed
  runnable := none
  io := none
  reportStatsTimer := none
  receiveResultsTimer := none
  resultsReady := false
  reading := false
  timers := 0
  waiting := []
  ready := []
  history := []

/- The waits on a timer are aborted. -/
def abortWaits (timer : Nat) (s : ActivityRun) : ActivityRun :=
  { s with
    waiting := s.waiting.filter fun wait => wait.timer ≠ timer
    ready := s.ready ++
      (s.waiting.filter fun wait => wait.timer = timer).map
        fun wait => .timer wait.handler false }

def record
    (op : LedgerOp Nat)
    (s : ActivityRun) : ActivityRun :=
  { s with history := s.history ++ [op] }

/- `async_wait`. -/
def asyncWait
    (timer : Nat)
    (handler : TimerHandler)
    (s : ActivityRun) : ActivityRun :=
  { s with
    waiting := s.waiting ++ [⟨timer, handler⟩]
    history := s.history ++ [.use timer] }

/- `expires_from_now` and `cancel`, which abort waits too. -/
def useTimer (timer : Nat) (s : ActivityRun) : ActivityRun :=
  (s.abortWaits timer).record (.use timer)

/- `delete`. -/
def deleteTimer
    (timer : Nat)
    (s : ActivityRun) : ActivityRun :=
  (s.abortWaits timer).record (.release timer)

/- A handler is armed again, through the pointer it has. -/
def rearm
    (pointer : Option Nat)
    (handler : TimerHandler)
    (s : ActivityRun) : ActivityRun :=
  match pointer with
  | some timer => (s.useTimer timer).asyncWait timer handler
  | none => s

------------------------------------------------------------
-- Reporting
------------------------------------------------------------

def initReporting (s : ActivityRun) : ActivityRun :=
  if s.reportPeriod > 0 then
    { s with
      phase := .reporting
      reportStatsTimer := some s.timers
      timers := s.timers + 1
      waiting := s.waiting ++
        [⟨s.timers, .handleTimerReportStats⟩]
      history := s.history ++
        [.acquire s.timers, .use s.timers] }
  else
    { s with phase := .reporting }

def endReporting (s : ActivityRun) : ActivityRun :=
  match s.reportStatsTimer with
  | some timer =>
      { (s.useTimer timer).deleteTimer timer with
        phase := .ended }
  | none => { s with phase := .ended }

/- The destructor. -/
def destroy (s : ActivityRun) : ActivityRun :=
  match s.reportStatsTimer with
  | some timer =>
      { s.deleteTimer timer with
        phase := .destroyed
        reportStatsTimer := none }
  | none => { s with phase := .destroyed }

------------------------------------------------------------
-- Results
------------------------------------------------------------

/- `getResults` cancels the reads and starts its own. -/
def startRead (s : ActivityRun) : ActivityRun :=
  { s with
    resultsReady := false
    reading := true
    ready := s.ready ++
      if s.reading then [.receiveResults false] else [] }

def createTimer (s : ActivityRun) : ActivityRun :=
  { s with
    receiveResultsTimer := some s.timers
    timers := s.timers + 1
    history := s.history ++ [.acquire s.timers] }

def armTimer (s : ActivityRun) : ActivityRun :=
  match s.receiveResultsTimer with
  | some timer => s.asyncWait timer .timeoutReceiveResults
  | none => s

/-
  The end of a handler of `handleTimerReportStats` and its
  beginning, which is all of it in `MasterPinger`.
-/
def rearmReport (s : ActivityRun) : ActivityRun :=
  s.rearm s.reportStatsTimer .handleTimerReportStats

def handleTimerReportStats (s : ActivityRun) : ActivityRun :=
  match s.kind with
  | .masterPinger => s.rearmReport
  | .masterThroughput =>
      { s.startRead with io := some .reading }

def timeoutReceiveResults (s : ActivityRun) : ActivityRun :=
  s.rearm s.receiveResultsTimer .timeoutReceiveResults

/- With a result of the size expected. -/
def receiveResults (s : ActivityRun) : ActivityRun :=
  match s.receiveResultsTimer with
  | some timer =>
      { s.deleteTimer timer with resultsReady := true }
  | none => { s with resultsReady := true }

------------------------------------------------------------
-- Steps
------------------------------------------------------------

/- Handlers do nothing to timers when there is an error. -/
def runHandler
    (s : ActivityRun) : ActivityCompletion → ActivityRun
  | .timer .handleTimerReportStats true =>
      s.handleTimerReportStats
  | .timer .timeoutReceiveResults true =>
      s.timeoutReceiveResults
  | .receiveResults true => s.receiveResults
  | _ => s

/- `makeReport` on the thread of the runnable. -/
def makeReport (s : ActivityRun) : ActivityRun :=
  match s.kind with
  | .masterPinger => { s with phase := .finished }
  | .masterThroughput =>
      { s.startRead with runnable := some .reading }

end ActivityRun

inductive ActivityThread where
  | runnable
  | io
  deriving DecidableEq, Repr

inductive ActivityLabel where
  | initReporting
  | endReporting
  | makeReport
  /- A thread goes on in `getResults`. -/
  | createTimer (thread : ActivityThread)
  | armTimer (thread : ActivityThread)
  | leaveLoop (thread : ActivityThread)
  | destroy
  /- A timer expires, the read of the results ends. -/
  | expire (timer : Nat)
  | endRead (success : Bool)
  /- The io thread runs the next handler. -/
  | handle
  deriving DecidableEq, Repr

namespace ActivityRun

def inResults
    (s : ActivityRun) : ActivityThread → Option ResultsPhase
  | .runnable => s.runnable
  | .io => s.io

def setResults
    (s : ActivityRun)
    (phase : Option ResultsPhase) :
    ActivityThread → ActivityRun
  | .runnable => { s with runnable := phase }
  | .io => { s with io := phase }

def step (s : ActivityRun) : ActivityLabel → Option ActivityRun
  | .initReporting =>
      if s.phase = .constructed then some s.initReporting
      else none
  | .endReporting =>
      if s.phase = .reporting then some s.endReporting
      else none
  | .makeReport =>
      if s.phase = .ended ∧ s.runnable = none then
        some s.makeReport
      else none
  | .createTimer thread =>
      if s.inResults thread = some .reading then
        some (s.createTimer.setResults (some .created) thread)
      else none
  | .armTimer thread =>
      if s.inResults thread = some .created then
        some (s.armTimer.setResults (some .waiting) thread)
      else none
  | .leaveLoop .runnable =>
      if s.runnable = some .waiting ∧ s.resultsReady = true then
        some { s with runnable := none, phase := .finished }
      else none
  | .leaveLoop .io =>
      if s.io = some .waiting ∧ s.resultsReady = true then
        some { s.rearmReport with io := none }
      else none
  | .destroy =>
      if s.phase = .finished then some s.destroy else none
  | .expire timer =>
      match s.waiting.find? fun wait => wait.timer = timer with
      | some wait =>
          some
            { s with
              waiting := s.waiting.erase wait
              ready := s.ready ++ [.timer wait.handler true] }
      | none => none
  | .endRead success =>
      if s.reading = true then
        some
          { s with
            reading := false
            ready := s.ready ++ [.receiveResults success] }
      else none
  | .handle =>
      match s.io, s.ready with
      | none, completion :: ready =>
          some (runHandler { s with ready := ready } completion)
      | _, _ => none

/-
  The results are handled while the runnable waits for them,
  and no handler of the timeout is queued.
-/
def Punctual (s : ActivityRun) : ActivityLabel → Prop
  | .handle =>
      s.ready.head? = some (.receiveResults true) →
        s.runnable = some .waiting ∧
          .timer .timeoutReceiveResults true ∉ s.ready
  | _ => True

instance (s : ActivityRun) : DecidablePred s.Punctual
  | .handle =>
      inferInstanceAs (Decidable (_ → _ ∧ _))
  | .initReporting => .isTrue trivial
  | .endReporting => .isTrue trivial
  | .makeReport => .isTrue trivial
  | .createTimer _ => .isTrue trivial
  | .armTimer _ => .isTrue trivial
  | .leaveLoop _ => .isTrue trivial
  | .destroy => .isTrue trivial
  | .expire _ => .isTrue trivial
  | .endRead _ => .isTrue trivial

end ActivityRun

end ModemTester

------------------------------------------------------------
-- What A Step Can Do
------------------------------------------------------------

namespace ModemTester

namespace ActivityRun

/- A step with its guard, one case for each thing done. -/
inductive TakenStep
    (s : ActivityRun) : ActivityLabel → ActivityRun → Prop where
  | initReporting
      (hPhase : s.phase = .constructed) :
      TakenStep s .initReporting s.initReporting
  | endReporting
      (hPhase : s.phase = .reporting) :
      TakenStep s .endReporting s.endReporting
  | makeReport
      (hPhase : s.phase = .ended)
      (hRunnable : s.runnable = none) :
      TakenStep s .makeReport s.makeReport
  | createTimer
      (thread : ActivityThread)
      (hResults : s.inResults thread = some .reading) :
      TakenStep s (.createTimer thread)
        (s.createTimer.setResults (some .created) thread)
  | armTimer
      (thread : ActivityThread)
      (hResults : s.inResults thread = some .created) :
      TakenStep s (.armTimer thread)
        (s.armTimer.setResults (some .waiting) thread)
  | leaveRunnable
      (hRunnable : s.runnable = some .waiting)
      (hReady : s.resultsReady = true) :
      TakenStep s (.leaveLoop .runnable)
        { s with runnable := none, phase := .finished }
  | leaveIo
      (hIo : s.io = some .waiting)
      (hReady : s.resultsReady = true) :
      TakenStep s (.leaveLoop .io)
        { s.rearmReport with io := none }
  | destroy
      (hPhase : s.phase = .finished) :
      TakenStep s .destroy s.destroy
  | expire
      (wait : ActivityWait)
      (hWait : wait ∈ s.waiting) :
      TakenStep s (.expire wait.timer)
        { s with
          waiting := s.waiting.erase wait
          ready := s.ready ++ [.timer wait.handler true] }
  | endRead
      (success : Bool)
      (hReading : s.reading = true) :
      TakenStep s (.endRead success)
        { s with
          reading := false
          ready := s.ready ++ [.receiveResults success] }
  | handle
      (completion : ActivityCompletion)
      (ready : List ActivityCompletion)
      (hIo : s.io = none)
      (hReady : s.ready = completion :: ready) :
      TakenStep s .handle
        (runHandler { s with ready := ready } completion)

theorem takenStep_of_step
    {s s' : ActivityRun}
    {label : ActivityLabel}
    (hStep : step s label = some s') :
    TakenStep s label s' := by
  cases label with
  | leaveLoop thread =>
      cases thread with
      | runnable =>
          simp only [step, Option.ite_none_right_eq_some,
            Option.some.injEq] at hStep
          rcases hStep with ⟨⟨hRunnable, hReady⟩, rfl⟩
          exact .leaveRunnable hRunnable hReady
      | io =>
          simp only [step, Option.ite_none_right_eq_some,
            Option.some.injEq] at hStep
          rcases hStep with ⟨⟨hIo, hReady⟩, rfl⟩
          exact .leaveIo hIo hReady
  | expire timer =>
      simp only [step] at hStep
      split at hStep
      · rename_i wait hFind
        have hWait := List.mem_of_find?_eq_some hFind
        have hTimer : wait.timer = timer := by
          simpa using List.find?_some hFind
        cases hStep
        rw [← hTimer]
        exact .expire wait hWait
      · cases hStep
  | handle =>
      simp only [step] at hStep
      split at hStep
      · rename_i completion ready hIo hReady
        cases hStep
        exact .handle completion ready hIo hReady
      · cases hStep
  | initReporting =>
      simp only [step, Option.ite_none_right_eq_some,
        Option.some.injEq] at hStep
      rcases hStep with ⟨hPhase, rfl⟩
      exact .initReporting hPhase
  | endReporting =>
      simp only [step, Option.ite_none_right_eq_some,
        Option.some.injEq] at hStep
      rcases hStep with ⟨hPhase, rfl⟩
      exact .endReporting hPhase
  | makeReport =>
      simp only [step, Option.ite_none_right_eq_some,
        Option.some.injEq] at hStep
      rcases hStep with ⟨⟨hPhase, hRunnable⟩, rfl⟩
      exact .makeReport hPhase hRunnable
  | createTimer thread =>
      simp only [step, Option.ite_none_right_eq_some,
        Option.some.injEq] at hStep
      rcases hStep with ⟨hResults, rfl⟩
      exact .createTimer thread hResults
  | armTimer thread =>
      simp only [step, Option.ite_none_right_eq_some,
        Option.some.injEq] at hStep
      rcases hStep with ⟨hResults, rfl⟩
      exact .armTimer thread hResults
  | destroy =>
      simp only [step, Option.ite_none_right_eq_some,
        Option.some.injEq] at hStep
      rcases hStep with ⟨hPhase, rfl⟩
      exact .destroy hPhase
  | endRead success =>
      simp only [step, Option.ite_none_right_eq_some,
        Option.some.injEq] at hStep
      rcases hStep with ⟨hReading, rfl⟩
      exact .endRead success hReading

end ActivityRun

end ModemTester

------------------------------------------------------------
-- Activities That Do Not Report
------------------------------------------------------------

namespace ModemTester

namespace ActivityRun

/- There is no report timer, and there will be none. -/
structure Plain (s : ActivityRun) : Prop where
  reportPeriod : s.reportPeriod ≤ 0
  reportStatsTimer : s.reportStatsTimer = none
  io : s.io = none
  waiting : ∀ wait ∈ s.waiting,
    wait.handler = .timeoutReceiveResults
  ready : ∀ success,
    .timer .handleTimerReportStats success ∉ s.ready

/- What a step of such an activity can do. -/
inductive PlainStep
    (s : ActivityRun) : ActivityLabel → ActivityRun → Prop where
  | initReporting
      (hPhase : s.phase = .constructed) :
      PlainStep s .initReporting { s with phase := .reporting }
  | endReporting
      (hPhase : s.phase = .reporting) :
      PlainStep s .endReporting { s with phase := .ended }
  | report
      (hPhase : s.phase = .ended)
      (hRunnable : s.runnable = none) :
      PlainStep s .makeReport { s with phase := .finished }
  | startRead
      (hPhase : s.phase = .ended)
      (hRunnable : s.runnable = none) :
      PlainStep s .makeReport
        { s.startRead with runnable := some .reading }
  | createTimer
      (hRunnable : s.runnable = some .reading) :
      PlainStep s (.createTimer .runnable)
        { s.createTimer with runnable := some .created }
  | armTimer
      (hRunnable : s.runnable = some .created) :
      PlainStep s (.armTimer .runnable)
        { s.armTimer with runnable := some .waiting }
  | leaveLoop
      (hRunnable : s.runnable = some .waiting)
      (hReady : s.resultsReady = true) :
      PlainStep s (.leaveLoop .runnable)
        { s with runnable := none, phase := .finished }
  | destroy
      (hPhase : s.phase = .finished) :
      PlainStep s .destroy { s with phase := .destroyed }
  | expire
      (wait : ActivityWait)
      (hWait : wait ∈ s.waiting) :
      PlainStep s (.expire wait.timer)
        { s with
          waiting := s.waiting.erase wait
          ready := s.ready ++
            [.timer .timeoutReceiveResults true] }
  | endRead
      (success : Bool)
      (hReading : s.reading = true) :
      PlainStep s (.endRead success)
        { s with
          reading := false
          ready := s.ready ++ [.receiveResults success] }
  | receiveResults
      (ready : List ActivityCompletion)
      (hReady : s.ready = .receiveResults true :: ready) :
      PlainStep s .handle
        (receiveResults { s with ready := ready })
  | timeoutReceiveResults
      (ready : List ActivityCompletion)
      (hReady : s.ready =
        .timer .timeoutReceiveResults true :: ready) :
      PlainStep s .handle
        (timeoutReceiveResults { s with ready := ready })
  | handleError
      (completion : ActivityCompletion)
      (ready : List ActivityCompletion)
      (hReady : s.ready = completion :: ready)
      (hResults : completion ≠ .receiveResults true)
      (hTimeout : completion ≠
        .timer .timeoutReceiveResults true) :
      PlainStep s .handle { s with ready := ready }

theorem Plain.step_cases
    {s s' : ActivityRun}
    {label : ActivityLabel}
    (hPlain : s.Plain)
    (hStep : step s label = some s') :
    PlainStep s label s' := by
  cases takenStep_of_step hStep with
  | initReporting hPhase =>
      have hPeriod : ¬ s.reportPeriod > 0 :=
        Int.not_lt.mpr hPlain.reportPeriod
      rw [ActivityRun.initReporting, if_neg hPeriod]
      exact .initReporting hPhase
  | endReporting hPhase =>
      unfold ActivityRun.endReporting
      split
      · rename_i timer hTimer
        rw [hPlain.reportStatsTimer] at hTimer
        cases hTimer
      · exact .endReporting hPhase
  | makeReport hPhase hRunnable =>
      unfold ActivityRun.makeReport
      split
      · exact .report hPhase hRunnable
      · exact .startRead hPhase hRunnable
  | createTimer thread hResults =>
      cases thread with
      | runnable => exact .createTimer hResults
      | io => simp [inResults, hPlain.io] at hResults
  | armTimer thread hResults =>
      cases thread with
      | runnable => exact .armTimer hResults
      | io => simp [inResults, hPlain.io] at hResults
  | leaveRunnable hRunnable hReady =>
      exact .leaveLoop hRunnable hReady
  | leaveIo hIo hReady => simp [hPlain.io] at hIo
  | destroy hPhase =>
      unfold ActivityRun.destroy
      split
      · rename_i timer hTimer
        rw [hPlain.reportStatsTimer] at hTimer
        cases hTimer
      · exact .destroy hPhase
  | expire wait hWait =>
      rw [hPlain.waiting wait hWait]
      exact .expire wait hWait
  | endRead success hReading =>
      exact .endRead success hReading
  | handle completion ready hIo hReady =>
      have hOther := hPlain.ready
      rw [hReady] at hOther
      unfold runHandler
      split
      · simp at hOther
      · exact .timeoutReceiveResults ready hReady
      · exact .receiveResults ready hReady
      · rename_i hTimer hTimeout hResults
        exact .handleError completion ready hReady
          hResults hTimeout

theorem plain_construct
    {kind : ActivityKind}
    {reportPeriod : Int}
    (hPeriod : reportPeriod ≤ 0) :
    Plain (construct kind reportPeriod) := by
  constructor
  · exact hPeriod
  · rfl
  · rfl
  · simp [construct]
  · simp [construct]

/- Waits are on timeouts only, also when some are aborted. -/
theorem Plain.abortWaits
    {s : ActivityRun}
    (hPlain : s.Plain)
    (timer : Nat) :
    (s.abortWaits timer).Plain := by
  refine ⟨hPlain.reportPeriod, hPlain.reportStatsTimer,
    hPlain.io, ?_, ?_⟩
  · intro wait hMem
    exact hPlain.waiting wait (List.mem_of_mem_filter hMem)
  · intro success hMem
    rcases List.mem_append.mp hMem with hOld | hAborted
    · exact hPlain.ready success hOld
    · rcases List.mem_map.mp hAborted with ⟨wait, hWait, hSame⟩
      rw [hPlain.waiting wait (List.mem_of_mem_filter hWait)]
        at hSame
      cases hSame

theorem Plain.asyncWait
    {s : ActivityRun}
    (hPlain : s.Plain)
    (timer : Nat) :
    (s.asyncWait timer .timeoutReceiveResults).Plain := by
  refine ⟨hPlain.reportPeriod, hPlain.reportStatsTimer,
    hPlain.io, ?_, hPlain.ready⟩
  intro wait hMem
  rcases List.mem_append.mp hMem with hOld | hNew
  · exact hPlain.waiting wait hOld
  · rw [List.mem_singleton.mp hNew]

/- A handler that is no report's may be queued. -/
theorem Plain.enqueue
    {s : ActivityRun}
    {completion : ActivityCompletion}
    (hPlain : s.Plain)
    (hOther : ∀ success,
      completion ≠ .timer .handleTimerReportStats success)
    (success : Bool) :
    .timer .handleTimerReportStats success ∉
      s.ready ++ [completion] := by
  intro hMem
  rcases List.mem_append.mp hMem with hOld | hNew
  · exact hPlain.ready success hOld
  · exact hOther success (List.mem_singleton.mp hNew).symm

theorem Plain.dequeue
    {s : ActivityRun}
    {completion : ActivityCompletion}
    {ready : List ActivityCompletion}
    (hPlain : s.Plain)
    (hReady : s.ready = completion :: ready) :
    Plain { s with ready := ready } := by
  refine ⟨hPlain.reportPeriod, hPlain.reportStatsTimer,
    hPlain.io, hPlain.waiting, ?_⟩
  intro success hMem
  apply hPlain.ready success
  rw [hReady]
  exact List.mem_cons_of_mem _ hMem

theorem Plain.step
    {s s' : ActivityRun}
    {label : ActivityLabel}
    (hPlain : s.Plain)
    (hStep : ActivityRun.step s label = some s') :
    s'.Plain := by
  have hSame : ∀ {s' : ActivityRun},
      s'.reportPeriod = s.reportPeriod →
      s'.reportStatsTimer = s.reportStatsTimer →
      s'.io = s.io → s'.waiting = s.waiting →
      s'.ready = s.ready → s'.Plain := by
    intro s' hPeriod hTimer hIo hWaiting hReady
    refine ⟨hPeriod ▸ hPlain.reportPeriod,
      hTimer ▸ hPlain.reportStatsTimer, hIo ▸ hPlain.io,
      hWaiting ▸ hPlain.waiting, hReady ▸ hPlain.ready⟩
  cases hPlain.step_cases hStep with
  | initReporting hPhase => exact hSame rfl rfl rfl rfl rfl
  | endReporting hPhase => exact hSame rfl rfl rfl rfl rfl
  | report hPhase hRunnable => exact hSame rfl rfl rfl rfl rfl
  | createTimer hRunnable => exact hSame rfl rfl rfl rfl rfl
  | leaveLoop hRunnable hReady =>
      exact hSame rfl rfl rfl rfl rfl
  | destroy hPhase => exact hSame rfl rfl rfl rfl rfl
  | startRead hPhase hRunnable =>
      refine ⟨hPlain.reportPeriod, hPlain.reportStatsTimer,
        hPlain.io, hPlain.waiting, ?_⟩
      intro success
      simp only [ActivityRun.startRead]
      split
      · exact hPlain.enqueue (by simp) success
      · rw [List.append_nil]
        exact hPlain.ready success
  | armTimer hRunnable =>
      unfold ActivityRun.armTimer
      split
      · rename_i timer hTimer
        have hArmed := hPlain.asyncWait timer
        exact ⟨hArmed.reportPeriod, hArmed.reportStatsTimer,
          hArmed.io, hArmed.waiting, hArmed.ready⟩
      · exact hSame rfl rfl rfl rfl rfl
  | expire wait hWait =>
      refine ⟨hPlain.reportPeriod, hPlain.reportStatsTimer,
        hPlain.io, ?_, hPlain.enqueue (by simp)⟩
      intro other hMem
      exact hPlain.waiting other (List.mem_of_mem_erase hMem)
  | endRead success hReading =>
      exact ⟨hPlain.reportPeriod, hPlain.reportStatsTimer,
        hPlain.io, hPlain.waiting, hPlain.enqueue (by simp)⟩
  | receiveResults ready hReady =>
      have hRest := hPlain.dequeue hReady
      unfold ActivityRun.receiveResults
      split
      · rename_i timer hTimer
        have hDeleted := hRest.abortWaits timer
        exact ⟨hDeleted.reportPeriod,
          hDeleted.reportStatsTimer, hDeleted.io,
          hDeleted.waiting, hDeleted.ready⟩
      · exact ⟨hRest.reportPeriod, hRest.reportStatsTimer,
          hRest.io, hRest.waiting, hRest.ready⟩
  | timeoutReceiveResults ready hReady =>
      have hRest := hPlain.dequeue hReady
      simp only [ActivityRun.timeoutReceiveResults, rearm]
      split
      · rename_i timer hTimer
        have hAborted := hRest.abortWaits timer
        refine Plain.asyncWait ?_ timer
        exact ⟨hAborted.reportPeriod,
          hAborted.reportStatsTimer, hAborted.io,
          hAborted.waiting, hAborted.ready⟩
      · exact hRest
  | handleError completion ready hReady hResults hTimeout =>
      exact hPlain.dequeue hReady

end ActivityRun

end ModemTester

------------------------------------------------------------
-- Punctual Runs
------------------------------------------------------------

namespace ModemTester

namespace ActivityRun

/- The results that are still to come, read or handled. -/
def results (s : ActivityRun) : Nat :=
  (if s.reading = true then 1 else 0) +
    s.ready.count (.receiveResults true)

/- No handler of the timeout runs, now or later. -/
def Hushed (s : ActivityRun) : Prop :=
  s.waiting = [] ∧
    .timer .timeoutReceiveResults true ∉ s.ready

/-
  Where an activity without a report timer is, and what it
  has done to the timer of the results.
-/
inductive Stage (s : ActivityRun) : Prop where
  | idle
      (hRunnable : s.runnable = none)
      (hHistory : s.history = [])
      (hReading : s.reading = false)
      (hWaiting : s.waiting = [])
      (hReady : s.ready = [])
  | reading
      (hPhase : s.phase = .ended)
      (hRunnable : s.runnable = some .reading)
      (hHistory : s.history = [])
      (hHushed : s.Hushed)
      (hResults : s.results ≤ 1)
      (hNotReady : s.resultsReady = false)
  | created
      (timer : Nat)
      (hPhase : s.phase = .ended)
      (hRunnable : s.runnable = some .created)
      (hTimer : s.receiveResultsTimer = some timer)
      (hAccount : Ledger.account s.history =
        some ⟨[timer], []⟩)
      (hHushed : s.Hushed)
      (hResults : s.results ≤ 1)
      (hNotReady : s.resultsReady = false)
  | waiting
      (timer : Nat)
      (hPhase : s.phase = .ended)
      (hRunnable : s.runnable = some .waiting)
      (hTimer : s.receiveResultsTimer = some timer)
      (hAccount : Ledger.account s.history =
        some ⟨[timer], []⟩)
      (hWaits : ∀ wait ∈ s.waiting, wait.timer = timer)
      (hResults : s.results ≤ 1)
      (hNotReady : s.resultsReady = false)
  | received
      (timer : Nat)
      (hDone : s.phase = .ended ∧ s.runnable = some .waiting ∨
        (s.phase = .finished ∨ s.phase = .destroyed) ∧
          s.runnable = none)
      (hAccount : Ledger.account s.history =
        some ⟨[], [timer]⟩)
      (hHushed : s.Hushed)
      (hResults : s.results = 0)

theorem results_dequeue_le
    {s : ActivityRun}
    {completion : ActivityCompletion}
    {ready : List ActivityCompletion}
    (hReady : s.ready = completion :: ready) :
    results { s with ready := ready } ≤ s.results := by
  simp only [results, hReady, List.count_cons]
  omega

/- The one result that comes is the last. -/
theorem results_dequeue_results
    {s : ActivityRun}
    {ready : List ActivityCompletion}
    (hReady : s.ready = .receiveResults true :: ready)
    (hResults : s.results ≤ 1) :
    results { s with ready := ready } = 0 := by
  simp only [results, hReady, List.count_cons_self] at hResults
  simp only [results]
  omega

theorem results_endRead_le
    {s : ActivityRun}
    (hReading : s.reading = true)
    (success : Bool) :
    results
      { s with
        reading := false
        ready := s.ready ++ [.receiveResults success] } ≤
      s.results := by
  have hOne : [ActivityCompletion.receiveResults success].count
      (.receiveResults true) ≤ 1 := List.count_le_length
  simp only [results, hReading, List.count_append, if_true,
    Bool.false_eq_true, if_false]
  omega

/- What is aborted brings no results and no timeouts. -/
theorem results_abortWaits
    (s : ActivityRun)
    (timer : Nat) :
    (s.abortWaits timer).results = s.results := by
  have hNone : ((s.waiting.filter fun wait =>
      wait.timer = timer).map fun wait =>
        ActivityCompletion.timer wait.handler false).count
          (.receiveResults true) = 0 := by
    apply List.count_eq_zero.mpr
    intro hMem
    rcases List.mem_map.mp hMem with ⟨wait, -, hSame⟩
    cases hSame
  unfold results abortWaits
  rw [List.count_append, hNone, Nat.add_zero]

theorem timeout_mem_abortWaits
    {s : ActivityRun}
    {timer : Nat}
    (hMem : .timer .timeoutReceiveResults true ∈
      (s.abortWaits timer).ready) :
    .timer .timeoutReceiveResults true ∈ s.ready := by
  rcases List.mem_append.mp hMem with hOld | hAborted
  · exact hOld
  · rcases List.mem_map.mp hAborted with ⟨wait, -, hSame⟩
    injection hSame with _ hSuccess
    cases hSuccess

theorem waiting_abortWaits_eq_nil
    {s : ActivityRun}
    {timer : Nat}
    (hWaits : ∀ wait ∈ s.waiting, wait.timer = timer) :
    (s.abortWaits timer).waiting = [] := by
  apply List.filter_eq_nil_iff.mpr
  intro wait hMem
  simp [hWaits wait hMem]

theorem Hushed.dequeue
    {s : ActivityRun}
    {completion : ActivityCompletion}
    {ready : List ActivityCompletion}
    (hHushed : s.Hushed)
    (hReady : s.ready = completion :: ready) :
    Hushed { s with ready := ready } := by
  refine ⟨hHushed.1, ?_⟩
  intro hMem
  apply hHushed.2
  rw [hReady]
  exact List.mem_cons_of_mem _ hMem

theorem Hushed.endRead
    {s : ActivityRun}
    (hHushed : s.Hushed)
    (success : Bool) :
    Hushed
      { s with
        reading := false
        ready := s.ready ++ [.receiveResults success] } := by
  refine ⟨hHushed.1, ?_⟩
  simp [hHushed.2]

variable {s s' : ActivityRun}
variable {label : ActivityLabel}

theorem receiveResults_of_some
    {timer : Nat}
    (hTimer : s.receiveResultsTimer = some timer) :
    s.receiveResults =
      { s.deleteTimer timer with resultsReady := true } := by
  simp only [receiveResults, hTimer]

theorem timeoutReceiveResults_of_some
    {timer : Nat}
    (hTimer : s.receiveResultsTimer = some timer) :
    s.timeoutReceiveResults =
      (s.useTimer timer).asyncWait timer
        .timeoutReceiveResults := by
  simp only [timeoutReceiveResults, rearm, hTimer]

theorem stage_of_idle
    (hRunnable : s.runnable = none)
    (hHistory : s.history = [])
    (hReading : s.reading = false)
    (hWaiting : s.waiting = [])
    (hReady : s.ready = [])
    (hStep : PlainStep s label s') :
    s'.Stage := by
  cases hStep with
  | initReporting hPhase =>
      exact .idle hRunnable hHistory hReading hWaiting hReady
  | endReporting hPhase =>
      exact .idle hRunnable hHistory hReading hWaiting hReady
  | report hPhase hNone =>
      exact .idle hRunnable hHistory hReading hWaiting hReady
  | destroy hPhase =>
      exact .idle hRunnable hHistory hReading hWaiting hReady
  | startRead hPhase hNone =>
      refine .reading hPhase rfl hHistory ⟨hWaiting, ?_⟩ ?_ rfl
      · simp [startRead, hReading, hReady]
      · simp [results, startRead, hReading, hReady]
  | expire wait hWait => simp [hWaiting] at hWait
  | _ => simp_all

theorem stage_of_reading
    (hPhase : s.phase = .ended)
    (hRunnable : s.runnable = some .reading)
    (hHistory : s.history = [])
    (hHushed : s.Hushed)
    (hResults : s.results ≤ 1)
    (hNotReady : s.resultsReady = false)
    (hPunctual : s.Punctual label)
    (hStep : PlainStep s label s') :
    s'.Stage := by
  cases hStep with
  | createTimer hAt =>
      refine .created s.timers hPhase rfl rfl ?_ hHushed
        hResults hNotReady
      simp only [createTimer, hHistory]
      simp [Ledger.account, StepSystem.run, Ledger.apply,
        Ledger.empty]
  | endRead success hReading =>
      exact .reading hPhase hRunnable hHistory
        (hHushed.endRead success)
        (Nat.le_trans (results_endRead_le hReading success)
          hResults)
        hNotReady
  | receiveResults ready hReady =>
      have hWaits := hPunctual (by simp [hReady])
      rw [hRunnable] at hWaits
      cases hWaits.1
  | timeoutReceiveResults ready hReady =>
      exact absurd (by simp [hReady]) hHushed.2
  | handleError completion ready hReady hNot hTimeout =>
      exact .reading hPhase hRunnable hHistory
        (hHushed.dequeue hReady)
        (Nat.le_trans (results_dequeue_le hReady) hResults)
        hNotReady
  | expire wait hWait =>
      rw [hHushed.1] at hWait
      cases hWait
  | _ => simp_all

theorem account_use
    {ops : List (LedgerOp Nat)}
    {l : Ledger Nat}
    {timer : Nat}
    (hAccount : Ledger.account ops = some l)
    (hLive : timer ∈ l.live) :
    Ledger.account (ops ++ [.use timer]) = some l := by
  rw [Ledger.account_append hAccount]
  simp [StepSystem.run, Ledger.apply, hLive]

theorem account_release
    {ops : List (LedgerOp Nat)}
    {timer : Nat}
    (hAccount : Ledger.account ops = some ⟨[timer], []⟩) :
    Ledger.account (ops ++ [.release timer]) =
      some ⟨[], [timer]⟩ := by
  rw [Ledger.account_append hAccount]
  simp [StepSystem.run, Ledger.apply]

theorem stage_of_created
    {timer : Nat}
    (hPhase : s.phase = .ended)
    (hRunnable : s.runnable = some .created)
    (hTimer : s.receiveResultsTimer = some timer)
    (hAccount : Ledger.account s.history = some ⟨[timer], []⟩)
    (hHushed : s.Hushed)
    (hResults : s.results ≤ 1)
    (hNotReady : s.resultsReady = false)
    (hPunctual : s.Punctual label)
    (hStep : PlainStep s label s') :
    s'.Stage := by
  cases hStep with
  | armTimer hAt =>
      simp only [armTimer, hTimer]
      refine .waiting timer hPhase rfl hTimer
        (account_use hAccount (by simp)) ?_ hResults hNotReady
      intro wait hMem
      rw [asyncWait, hHushed.1] at hMem
      rw [List.mem_singleton.mp hMem]
  | endRead success hReading =>
      exact .created timer hPhase hRunnable hTimer hAccount
        (hHushed.endRead success)
        (Nat.le_trans (results_endRead_le hReading success)
          hResults)
        hNotReady
  | receiveResults ready hReady =>
      have hWaits := hPunctual (by simp [hReady])
      rw [hRunnable] at hWaits
      cases hWaits.1
  | timeoutReceiveResults ready hReady =>
      exact absurd (by simp [hReady]) hHushed.2
  | handleError completion ready hReady hNot hTimeout =>
      exact .created timer hPhase hRunnable hTimer hAccount
        (hHushed.dequeue hReady)
        (Nat.le_trans (results_dequeue_le hReady) hResults)
        hNotReady
  | expire wait hWait =>
      rw [hHushed.1] at hWait
      cases hWait
  | _ => simp_all

theorem stage_of_waiting
    {timer : Nat}
    (hPhase : s.phase = .ended)
    (hRunnable : s.runnable = some .waiting)
    (hTimer : s.receiveResultsTimer = some timer)
    (hAccount : Ledger.account s.history = some ⟨[timer], []⟩)
    (hWaits : ∀ wait ∈ s.waiting, wait.timer = timer)
    (hResults : s.results ≤ 1)
    (hNotReady : s.resultsReady = false)
    (hPunctual : s.Punctual label)
    (hStep : PlainStep s label s') :
    s'.Stage := by
  cases hStep with
  | expire wait hWait =>
      refine .waiting timer hPhase hRunnable hTimer hAccount
        ?_ ?_ hNotReady
      · intro other hMem
        exact hWaits other (List.mem_of_mem_erase hMem)
      · simpa [results] using hResults
  | endRead success hReading =>
      exact .waiting timer hPhase hRunnable hTimer hAccount
        hWaits
        (Nat.le_trans (results_endRead_le hReading success)
          hResults)
        hNotReady
  | receiveResults ready hReady =>
      have hOn := hPunctual (by simp [hReady])
      rw [hReady] at hOn
      rw [receiveResults_of_some
        (s := { s with ready := ready }) hTimer]
      refine .received timer (.inl ⟨hPhase, hRunnable⟩)
        (account_release hAccount) ⟨?_, ?_⟩ ?_
      · exact waiting_abortWaits_eq_nil
          (s := { s with ready := ready }) hWaits
      · intro hMem
        have hOld := timeout_mem_abortWaits
          (s := { s with ready := ready }) hMem
        exact hOn.2 (List.mem_cons_of_mem _ hOld)
      · exact (results_abortWaits { s with ready := ready }
          timer).trans (results_dequeue_results hReady hResults)
  | timeoutReceiveResults ready hReady =>
      rw [timeoutReceiveResults_of_some
        (s := { s with ready := ready }) hTimer]
      refine .waiting timer hPhase hRunnable hTimer
        (account_use (account_use hAccount (by simp))
          (by simp)) ?_ ?_ hNotReady
      · intro wait hMem
        have hNone := waiting_abortWaits_eq_nil
          (s := { s with ready := ready }) hWaits
        rw [asyncWait, useTimer, record, hNone] at hMem
        rw [List.mem_singleton.mp hMem]
      · refine Nat.le_trans (Nat.le_of_eq
          (results_abortWaits { s with ready := ready } timer))
          (Nat.le_trans (results_dequeue_le hReady) hResults)
  | handleError completion ready hReady hNot hTimeout =>
      exact .waiting timer hPhase hRunnable hTimer hAccount
        hWaits
        (Nat.le_trans (results_dequeue_le hReady) hResults)
        hNotReady
  | _ => simp_all

theorem stage_of_received
    {timer : Nat}
    (hDone : s.phase = .ended ∧ s.runnable = some .waiting ∨
      (s.phase = .finished ∨ s.phase = .destroyed) ∧
        s.runnable = none)
    (hAccount : Ledger.account s.history = some ⟨[], [timer]⟩)
    (hHushed : s.Hushed)
    (hResults : s.results = 0)
    (hStep : PlainStep s label s') :
    s'.Stage := by
  cases hStep with
  | leaveLoop hRunnable hReady =>
      exact .received timer (.inr ⟨.inl rfl, rfl⟩) hAccount
        hHushed hResults
  | destroy hPhase =>
      refine .received timer (.inr ⟨.inr rfl, ?_⟩) hAccount
        hHushed hResults
      simpa [hPhase] using hDone
  | endRead success hReading => simp [results, hReading] at hResults
  | receiveResults ready hReady =>
      simp [results, hReady] at hResults
  | timeoutReceiveResults ready hReady =>
      exact absurd (by simp [hReady]) hHushed.2
  | handleError completion ready hReady hNot hTimeout =>
      exact .received timer hDone hAccount
        (hHushed.dequeue hReady)
        (Nat.le_zero.mp
          (hResults ▸ results_dequeue_le hReady))
  | expire wait hWait =>
      rw [hHushed.1] at hWait
      cases hWait
  | _ => simp_all

end ActivityRun

end ModemTester

------------------------------------------------------------
-- Runs That Are Not Punctual
------------------------------------------------------------

namespace ModemTester

namespace ActivityRun

variable {s s' : ActivityRun}
variable {label : ActivityLabel}

theorem exists_history_rearm
    (s : ActivityRun)
    (pointer : Option Nat)
    (handler : TimerHandler) :
    ∃ more, (s.rearm pointer handler).history =
      s.history ++ more := by
  unfold rearm
  split
  · exact ⟨_, List.append_assoc _ _ _⟩
  · exact ⟨[], (List.append_nil _).symm⟩

theorem exists_history_runHandler
    (s : ActivityRun)
    (completion : ActivityCompletion) :
    ∃ more, (runHandler s completion).history =
      s.history ++ more := by
  unfold runHandler
  split
  · unfold handleTimerReportStats
    split
    · exact exists_history_rearm s _ _
    · exact ⟨[], (List.append_nil _).symm⟩
  · exact exists_history_rearm s _ _
  · unfold receiveResults
    split
    · exact ⟨_, rfl⟩
    · exact ⟨[], (List.append_nil _).symm⟩
  · exact ⟨[], (List.append_nil _).symm⟩

/- A step only adds to the history. -/
theorem exists_history_of_step
    (hStep : step s label = some s') :
    ∃ more, s'.history = s.history ++ more := by
  have hSame : ∃ more, s.history = s.history ++ more :=
    ⟨[], (List.append_nil _).symm⟩
  cases takenStep_of_step hStep with
  | initReporting hPhase =>
      unfold initReporting
      split
      · exact ⟨_, rfl⟩
      · exact hSame
  | endReporting hPhase =>
      unfold endReporting
      split
      · exact ⟨_, List.append_assoc _ _ _⟩
      · exact hSame
  | makeReport hPhase hRunnable =>
      unfold makeReport
      split
      · exact hSame
      · exact hSame
  | createTimer thread hResults =>
      cases thread with
      | runnable => exact ⟨_, rfl⟩
      | io => exact ⟨_, rfl⟩
  | armTimer thread hResults =>
      have hArmed : ∃ more, s.armTimer.history =
          s.history ++ more := by
        unfold armTimer
        split
        · exact ⟨_, rfl⟩
        · exact hSame
      cases thread with
      | runnable => exact hArmed
      | io => exact hArmed
  | leaveRunnable hRunnable hReady => exact hSame
  | leaveIo hIo hReady => exact exists_history_rearm s _ _
  | destroy hPhase =>
      unfold destroy
      split
      · exact ⟨_, rfl⟩
      · exact hSame
  | expire wait hWait => exact hSame
  | endRead success hReading => exact hSame
  | handle completion ready hIo hReady =>
      exact exists_history_runHandler { s with ready := ready }
        completion

/- The runnable waits for the results, or has had them. -/
def PastTimer (s : ActivityRun) : Prop :=
  s.phase = .ended ∧ s.runnable = some .waiting ∨
    (s.phase = .finished ∨ s.phase = .destroyed) ∧
      s.runnable = none

/-
  Something is wrong with the timer of the results, or will
  be: it is never deleted, or used when it is.
-/
inductive Doomed (s : ActivityRun) : Prop where
  | illegal
      (hAccount : Ledger.account s.history = none)
  | unread
      (hPhase : s.phase = .ended)
      (hRunnable : s.runnable = some .reading)
      (hHistory : s.history = [])
      (hHushed : s.Hushed)
      (hResults : s.results = 0)
  | leaking
      (timer : Nat)
      (hDone : s.phase = .ended ∧ s.runnable = some .created ∨
        s.PastTimer)
      (hTimer : s.receiveResultsTimer = some timer)
      (hAccount : Ledger.account s.history =
        some ⟨[timer], []⟩)
      (hResults : s.results = 0)
  | dangling
      (timer : Nat)
      (hPhase : s.phase = .ended)
      (hRunnable : s.runnable = some .created)
      (hTimer : s.receiveResultsTimer = some timer)
      (hRelease : .release timer ∈ s.history)
  | queued
      (timer : Nat)
      (hDone : s.PastTimer)
      (hTimer : s.receiveResultsTimer = some timer)
      (hRelease : .release timer ∈ s.history)
      (hQueued : .timer .timeoutReceiveResults true ∈ s.ready)

/- What a run cannot end with when nothing is queued. -/
theorem Doomed.not_settled
    (hDoomed : s.Doomed)
    (hDestroyed : s.phase = .destroyed)
    (hReady : s.ready = [])
    (released : List Nat) :
    Ledger.account s.history ≠ some ⟨[], released⟩ := by
  cases hDoomed with
  | illegal hAccount => simp [hAccount]
  | unread hPhase hRunnable hHistory hHushed hResults =>
      rw [hDestroyed] at hPhase
      cases hPhase
  | leaking timer hDone hTimer hAccount hResults =>
      simp [hAccount]
  | dangling timer hPhase hRunnable hTimer hRelease =>
      rw [hDestroyed] at hPhase
      cases hPhase
  | queued timer hDone hTimer hRelease hQueued =>
      rw [hReady] at hQueued
      cases hQueued

/- The pointer is to a timer that is gone. -/
theorem account_timeoutReceiveResults
    {timer : Nat}
    (hTimer : s.receiveResultsTimer = some timer)
    (hRelease : .release timer ∈ s.history) :
    Ledger.account s.timeoutReceiveResults.history = none := by
  rw [timeoutReceiveResults_of_some hTimer]
  simp only [asyncWait, useTimer, record, abortWaits,
    List.append_assoc, List.singleton_append]
  exact Ledger.account_use_of_released hRelease

theorem account_receiveResults
    {timer : Nat}
    (hTimer : s.receiveResultsTimer = some timer)
    (hRelease : .release timer ∈ s.history) :
    Ledger.account s.receiveResults.history = none := by
  rw [receiveResults_of_some hTimer]
  exact Ledger.account_release_of_released hRelease

theorem PastTimer.leaveLoop :
    PastTimer { s with runnable := none, phase := .finished } :=
  .inr ⟨.inl rfl, rfl⟩

theorem PastTimer.destroy
    (hDone : s.PastTimer)
    (hPhase : s.phase = .finished) :
    PastTimer { s with phase := .destroyed } := by
  refine .inr ⟨.inr rfl, ?_⟩
  simpa [PastTimer, hPhase] using hDone

theorem doomed_of_unread
    (hPhase : s.phase = .ended)
    (hRunnable : s.runnable = some .reading)
    (hHistory : s.history = [])
    (hHushed : s.Hushed)
    (hResults : s.results = 0)
    (hStep : PlainStep s label s') :
    s'.Doomed := by
  cases hStep with
  | createTimer hAt =>
      refine .leaking s.timers (.inl ⟨hPhase, rfl⟩) rfl ?_
        hResults
      simp only [createTimer, hHistory]
      simp [Ledger.account, StepSystem.run, Ledger.apply,
        Ledger.empty]
  | endRead success hReading =>
      simp [results, hReading] at hResults
  | receiveResults ready hReady =>
      simp [results, hReady] at hResults
  | timeoutReceiveResults ready hReady =>
      exact absurd (by simp [hReady]) hHushed.2
  | handleError completion ready hReady hNot hTimeout =>
      exact .unread hPhase hRunnable hHistory
        (hHushed.dequeue hReady)
        (Nat.le_zero.mp (hResults ▸ results_dequeue_le hReady))
  | expire wait hWait =>
      rw [hHushed.1] at hWait
      cases hWait
  | _ => simp_all

theorem doomed_of_leaking
    {timer : Nat}
    (hDone : s.phase = .ended ∧ s.runnable = some .created ∨
      s.PastTimer)
    (hTimer : s.receiveResultsTimer = some timer)
    (hAccount : Ledger.account s.history = some ⟨[timer], []⟩)
    (hResults : s.results = 0)
    (hStep : PlainStep s label s') :
    s'.Doomed := by
  cases hStep with
  | armTimer hAt =>
      have hEnded : s.phase = .ended := by
        simpa [PastTimer, hAt] using hDone
      simp only [armTimer, hTimer]
      exact .leaking timer (.inr (.inl ⟨hEnded, rfl⟩)) hTimer
        (account_use hAccount (by simp)) hResults
  | leaveLoop hRunnable hReady =>
      exact .leaking timer (.inr .leaveLoop) hTimer hAccount
        hResults
  | destroy hPhase =>
      have hPast : s.PastTimer := by
        simpa [hPhase] using hDone
      exact .leaking timer (.inr (hPast.destroy hPhase)) hTimer
        hAccount hResults
  | expire wait hWait =>
      refine .leaking timer hDone hTimer hAccount ?_
      simpa [results] using hResults
  | endRead success hReading =>
      simp [results, hReading] at hResults
  | receiveResults ready hReady =>
      simp [results, hReady] at hResults
  | timeoutReceiveResults ready hReady =>
      rw [timeoutReceiveResults_of_some
        (s := { s with ready := ready }) hTimer]
      refine .leaking timer hDone hTimer
        (account_use (account_use hAccount (by simp))
          (by simp)) ?_
      refine (results_abortWaits { s with ready := ready }
        timer).trans ?_
      exact Nat.le_zero.mp
        (hResults ▸ results_dequeue_le hReady)
  | handleError completion ready hReady hNot hTimeout =>
      exact .leaking timer hDone hTimer hAccount
        (Nat.le_zero.mp (hResults ▸ results_dequeue_le hReady))
  | _ => simp_all [PastTimer]

theorem doomed_of_dangling
    {timer : Nat}
    (hPhase : s.phase = .ended)
    (hRunnable : s.runnable = some .created)
    (hTimer : s.receiveResultsTimer = some timer)
    (hRelease : .release timer ∈ s.history)
    (hStep : PlainStep s label s') :
    s'.Doomed := by
  cases hStep with
  | armTimer hAt =>
      simp only [armTimer, hTimer]
      exact .illegal (Ledger.account_use_of_released hRelease)
  | receiveResults ready hReady =>
      exact .illegal (account_receiveResults
        (s := { s with ready := ready }) hTimer hRelease)
  | timeoutReceiveResults ready hReady =>
      exact .illegal (account_timeoutReceiveResults
        (s := { s with ready := ready }) hTimer hRelease)
  | expire wait hWait =>
      exact .dangling timer hPhase hRunnable hTimer hRelease
  | endRead success hReading =>
      exact .dangling timer hPhase hRunnable hTimer hRelease
  | handleError completion ready hReady hNot hTimeout =>
      exact .dangling timer hPhase hRunnable hTimer hRelease
  | _ => simp_all

theorem doomed_of_queued
    {timer : Nat}
    (hDone : s.PastTimer)
    (hTimer : s.receiveResultsTimer = some timer)
    (hRelease : .release timer ∈ s.history)
    (hQueued : .timer .timeoutReceiveResults true ∈ s.ready)
    (hStep : PlainStep s label s') :
    s'.Doomed := by
  cases hStep with
  | leaveLoop hRunnable hReady =>
      exact .queued timer .leaveLoop hTimer hRelease hQueued
  | destroy hPhase =>
      exact .queued timer (hDone.destroy hPhase) hTimer hRelease
        hQueued
  | expire wait hWait =>
      exact .queued timer hDone hTimer hRelease
        (List.mem_append_left _ hQueued)
  | endRead success hReading =>
      exact .queued timer hDone hTimer hRelease
        (List.mem_append_left _ hQueued)
  | receiveResults ready hReady =>
      exact .illegal (account_receiveResults
        (s := { s with ready := ready }) hTimer hRelease)
  | timeoutReceiveResults ready hReady =>
      exact .illegal (account_timeoutReceiveResults
        (s := { s with ready := ready }) hTimer hRelease)
  | handleError completion ready hReady hNot hTimeout =>
      rw [hReady] at hQueued
      exact .queued timer hDone hTimer hRelease
        ((List.mem_cons.mp hQueued).resolve_left hTimeout.symm)
  | _ => simp_all [PastTimer]

theorem Doomed.step
    (hDoomed : s.Doomed)
    (hPlain : s.Plain)
    (hTaken : ActivityRun.step s label = some s') :
    s'.Doomed := by
  have hStep := hPlain.step_cases hTaken
  cases hDoomed with
  | illegal hAccount =>
      rcases exists_history_of_step hTaken with
        ⟨more, hHistory⟩
      refine .illegal ?_
      rw [hHistory]
      exact Ledger.account_append_of_none hAccount more
  | unread hPhase hRunnable hHistory hHushed hResults =>
      exact doomed_of_unread hPhase hRunnable hHistory hHushed
        hResults hStep
  | leaking timer hDone hTimer hAccount hResults =>
      exact doomed_of_leaking hDone hTimer hAccount hResults
        hStep
  | dangling timer hPhase hRunnable hTimer hRelease =>
      exact doomed_of_dangling hPhase hRunnable hTimer hRelease
        hStep
  | queued timer hDone hTimer hRelease hQueued =>
      exact doomed_of_queued hDone hTimer hRelease hQueued hStep

/- Results that are not punctual come at a bad moment. -/
theorem doomed_of_not_punctual
    (hStage : s.Stage)
    (hNot : ¬ s.Punctual label)
    (hStep : PlainStep s label s') :
    s'.Doomed := by
  cases hStep with
  | receiveResults ready hReady =>
      cases hStage with
      | idle hRunnable hHistory hReading hWaiting hEmpty =>
          rw [hReady] at hEmpty
          cases hEmpty
      | reading hPhase hRunnable hHistory hHushed hResults _ =>
          rcases Option.eq_none_or_eq_some
            s.receiveResultsTimer with hTimer | ⟨timer, hTimer⟩
          · simp only [receiveResults, hTimer]
            exact .unread hPhase hRunnable hHistory
              (hHushed.dequeue hReady)
              (results_dequeue_results hReady hResults)
          · refine .illegal ?_
            rw [receiveResults_of_some
              (s := { s with ready := ready }) hTimer]
            simp only [deleteTimer, record, abortWaits,
              hHistory]
            rfl
      | created timer hPhase hRunnable hTimer hAccount hHushed
          hResults _ =>
          rw [receiveResults_of_some
            (s := { s with ready := ready }) hTimer]
          exact .dangling timer hPhase hRunnable hTimer
            (by simp [deleteTimer, record])
      | waiting timer hPhase hRunnable hTimer hAccount hWaits
          hResults _ =>
          have hQueued : .timer .timeoutReceiveResults true ∈
              s.ready := by
            by_contra hNone
            exact hNot fun _ => ⟨hRunnable, hNone⟩
          rw [hReady] at hQueued
          have hRest := (List.mem_cons.mp hQueued).resolve_left
            (by simp)
          rw [receiveResults_of_some
            (s := { s with ready := ready }) hTimer]
          exact .queued timer (.inl ⟨hPhase, hRunnable⟩) hTimer
            (by simp [deleteTimer, record])
            (List.mem_append_left _ hRest)
      | received timer hDone hAccount hHushed hResults =>
          simp [results, hReady] at hResults
  | timeoutReceiveResults ready hReady =>
      exact absurd (fun hHead => by simp [hReady] at hHead) hNot
  | handleError completion ready hReady hOther hTimeout =>
      refine absurd (fun hHead => ?_) hNot
      rw [hReady, List.head?_cons, Option.some.injEq] at hHead
      exact absurd hHead hOther
  | _ => exact absurd trivial hNot

theorem Stage.step
    (hStage : s.Stage)
    (hPunctual : s.Punctual label)
    (hStep : PlainStep s label s') :
    s'.Stage := by
  cases hStage with
  | idle hRunnable hHistory hReading hWaiting hReady =>
      exact stage_of_idle hRunnable hHistory hReading hWaiting
        hReady hStep
  | reading hPhase hRunnable hHistory hHushed hResults hNot =>
      exact stage_of_reading hPhase hRunnable hHistory hHushed
        hResults hNot hPunctual hStep
  | created timer hPhase hRunnable hTimer hAccount hHushed
      hResults hNot =>
      exact stage_of_created hPhase hRunnable hTimer hAccount
        hHushed hResults hNot hPunctual hStep
  | waiting timer hPhase hRunnable hTimer hAccount hWaits
      hResults hNot =>
      exact stage_of_waiting hPhase hRunnable hTimer hAccount
        hWaits hResults hNot hPunctual hStep
  | received timer hDone hAccount hHushed hResults =>
      exact stage_of_received hDone hAccount hHushed hResults
        hStep

theorem stage_construct
    (kind : ActivityKind)
    (reportPeriod : Int) :
    Stage (construct kind reportPeriod) :=
  .idle rfl rfl rfl rfl rfl

/- When the activity is gone, so are its timers. -/
theorem Stage.settled
    (hStage : s.Stage)
    (hDestroyed : s.phase = .destroyed) :
    ∃ released,
      Ledger.account s.history = some ⟨[], released⟩ := by
  cases hStage with
  | idle hRunnable hHistory hReading hWaiting hReady =>
      exact ⟨[], by rw [hHistory]; rfl⟩
  | received timer hDone hAccount hHushed hResults =>
      exact ⟨_, hAccount⟩
  | _ => simp_all

end ActivityRun

end ModemTester

------------------------------------------------------------
-- Activities That Report
------------------------------------------------------------

namespace ModemTester

namespace ActivityRun

variable {s s' : ActivityRun}
variable {label : ActivityLabel}

/- What has become of the report timer in each phase. -/
def ReportTimer (s : ActivityRun) : Prop :=
  match s.phase with
  | .constructed => True
  | .reporting => ∃ timer, s.reportStatsTimer = some timer
  | .ended => ∃ timer, s.reportStatsTimer = some timer ∧
      .release timer ∈ s.history
  | .finished => ∃ timer, s.reportStatsTimer = some timer ∧
      .release timer ∈ s.history
  | .destroyed => Ledger.account s.history = none

structure Reporting (s : ActivityRun) : Prop where
  reportPeriod : s.reportPeriod > 0
  runnable : s.runnable ≠ none → s.phase = .ended
  timer : s.ReportTimer

theorem reporting_construct
    {kind : ActivityKind}
    {reportPeriod : Int}
    (hPeriod : reportPeriod > 0) :
    Reporting (construct kind reportPeriod) :=
  ⟨hPeriod, by simp [construct], trivial⟩

/- What most steps leave as it is. -/
structure SameReport (s s' : ActivityRun) : Prop where
  reportPeriod : s'.reportPeriod = s.reportPeriod
  phase : s'.phase = s.phase
  reportStatsTimer : s'.reportStatsTimer = s.reportStatsTimer
  history : ∃ more, s'.history = s.history ++ more

theorem SameReport.reportTimer
    (hSame : SameReport s s')
    (hTimer : s.ReportTimer) :
    s'.ReportTimer := by
  rcases hSame.history with ⟨more, hHistory⟩
  unfold ReportTimer at hTimer ⊢
  rw [hSame.phase]
  cases hPhase : s.phase with
  | constructed => trivial
  | reporting =>
      rw [hPhase] at hTimer
      simpa only [hSame.reportStatsTimer] using hTimer
  | ended =>
      rw [hPhase] at hTimer
      rcases hTimer with ⟨timer, hSome, hRelease⟩
      simp only [hSame.reportStatsTimer, hHistory]
      exact ⟨timer, hSome, List.mem_append_left _ hRelease⟩
  | finished =>
      rw [hPhase] at hTimer
      rcases hTimer with ⟨timer, hSome, hRelease⟩
      simp only [hSame.reportStatsTimer, hHistory]
      exact ⟨timer, hSome, List.mem_append_left _ hRelease⟩
  | destroyed =>
      rw [hPhase] at hTimer
      simp only [hHistory]
      exact Ledger.account_append_of_none hTimer more

theorem sameReport_rearm
    (s : ActivityRun)
    (pointer : Option Nat)
    (handler : TimerHandler) :
    SameReport s (s.rearm pointer handler) ∧
      (s.rearm pointer handler).runnable = s.runnable := by
  have hHistory := exists_history_rearm s pointer handler
  unfold rearm at hHistory ⊢
  split
  · exact ⟨⟨rfl, rfl, rfl, _, List.append_assoc _ _ _⟩, rfl⟩
  · exact ⟨⟨rfl, rfl, rfl, [], (List.append_nil _).symm⟩, rfl⟩

theorem sameReport_runHandler
    (s : ActivityRun)
    (completion : ActivityCompletion) :
    SameReport s (runHandler s completion) ∧
      (runHandler s completion).runnable = s.runnable := by
  have hNothing : ∃ more, s.history = s.history ++ more :=
    ⟨[], (List.append_nil _).symm⟩
  unfold runHandler
  split
  · unfold handleTimerReportStats
    split
    · exact sameReport_rearm s _ _
    · exact ⟨⟨rfl, rfl, rfl, hNothing⟩, rfl⟩
  · exact sameReport_rearm s _ _
  · unfold receiveResults
    split
    · exact ⟨⟨rfl, rfl, rfl, _, rfl⟩, rfl⟩
    · exact ⟨⟨rfl, rfl, rfl, hNothing⟩, rfl⟩
  · exact ⟨⟨rfl, rfl, rfl, hNothing⟩, rfl⟩

theorem Reporting.of_same
    (hReporting : s.Reporting)
    (hSame : SameReport s s')
    (hRunnable : s'.runnable ≠ none → s'.phase = .ended) :
    s'.Reporting :=
  ⟨hSame.reportPeriod ▸ hReporting.reportPeriod, hRunnable,
    hSame.reportTimer hReporting.timer⟩

/- A step that is not of the runnable's thread. -/
theorem Reporting.of_same_runnable
    (hReporting : s.Reporting)
    (hSame : SameReport s s')
    (hRunnable : s'.runnable = s.runnable) :
    s'.Reporting := by
  refine hReporting.of_same hSame fun hSome => ?_
  rw [hSame.phase]
  exact hReporting.runnable (hRunnable ▸ hSome)

/- A thread goes on in `getResults`. -/
theorem Reporting.setResults
    {t : ActivityRun}
    {thread : ActivityThread}
    {phase : ResultsPhase}
    (next : Option ResultsPhase)
    (hReporting : s.Reporting)
    (hResults : s.inResults thread = some phase)
    (hSame : SameReport s t)
    (hRunnable : t.runnable = s.runnable) :
    (t.setResults next thread).Reporting := by
  cases thread with
  | runnable =>
      have hSome : s.runnable ≠ none := by
        rw [show s.runnable = _ from hResults]
        exact Option.some_ne_none _
      refine hReporting.of_same ⟨hSame.reportPeriod,
        hSame.phase, hSame.reportStatsTimer, hSame.history⟩ ?_
      exact fun _ => hSame.phase.trans
        (hReporting.runnable hSome)
  | io =>
      exact hReporting.of_same_runnable ⟨hSame.reportPeriod,
        hSame.phase, hSame.reportStatsTimer, hSame.history⟩
        hRunnable

theorem sameReport_armTimer (s : ActivityRun) :
    SameReport s s.armTimer ∧
      s.armTimer.runnable = s.runnable := by
  unfold ActivityRun.armTimer
  split
  · exact ⟨⟨rfl, rfl, rfl, _, rfl⟩, rfl⟩
  · exact ⟨⟨rfl, rfl, rfl, [], (List.append_nil _).symm⟩, rfl⟩

/- The pointer that `endReporting` leaves is deleted again. -/
theorem Reporting.step
    (hReporting : s.Reporting)
    (hStep : ActivityRun.step s label = some s') :
    s'.Reporting := by
  have hHistory := exists_history_of_step hStep
  have hTimer := hReporting.timer
  have hRunnable := hReporting.runnable
  cases takenStep_of_step hStep with
  | initReporting hPhase =>
      rw [ActivityRun.initReporting,
        if_pos hReporting.reportPeriod]
      refine ⟨hReporting.reportPeriod, ?_, _, rfl⟩
      intro hSome
      have hOther := hRunnable hSome
      rw [hPhase] at hOther
      cases hOther
  | endReporting hPhase =>
      rw [ReportTimer, hPhase] at hTimer
      rcases hTimer with ⟨timer, hTimer⟩
      simp only [ActivityRun.endReporting, hTimer]
      refine ⟨hReporting.reportPeriod, fun _ => rfl, timer,
        hTimer, ?_⟩
      simp [deleteTimer, record]
  | makeReport hPhase hNone =>
      rw [ReportTimer, hPhase] at hTimer
      unfold ActivityRun.makeReport
      split
      · exact ⟨hReporting.reportPeriod,
          fun hSome => absurd hNone hSome, hTimer⟩
      · refine ⟨hReporting.reportPeriod, fun _ => hPhase, ?_⟩
        rw [ReportTimer, startRead, hPhase]
        exact hTimer
  | createTimer thread hResults =>
      have hSame : SameReport s s.createTimer :=
        ⟨rfl, rfl, rfl, _, rfl⟩
      exact hReporting.setResults _ hResults hSame rfl
  | armTimer thread hResults =>
      rcases sameReport_armTimer s with ⟨hSame, hRun⟩
      exact hReporting.setResults _ hResults hSame hRun
  | leaveRunnable hWaiting hReady =>
      have hPhase := hRunnable (by simp [hWaiting])
      rw [ReportTimer, hPhase] at hTimer
      exact ⟨hReporting.reportPeriod,
        fun hSome => absurd rfl hSome, hTimer⟩
  | leaveIo hIo hReady =>
      rcases sameReport_rearm s s.reportStatsTimer
        .handleTimerReportStats with ⟨hSame, hRun⟩
      exact hReporting.of_same_runnable
        ⟨hSame.reportPeriod, hSame.phase,
          hSame.reportStatsTimer, hSame.history⟩ hRun
  | destroy hPhase =>
      rw [ReportTimer, hPhase] at hTimer
      rcases hTimer with ⟨timer, hTimer, hRelease⟩
      simp only [ActivityRun.destroy, hTimer]
      refine ⟨hReporting.reportPeriod, ?_, ?_⟩
      · intro hSome
        have hOther := hRunnable hSome
        rw [hPhase] at hOther
        cases hOther
      · exact Ledger.account_release_of_released hRelease
  | expire wait hWait =>
      exact hReporting.of_same_runnable
        ⟨rfl, rfl, rfl, hHistory⟩ rfl
  | endRead success hReading =>
      exact hReporting.of_same_runnable
        ⟨rfl, rfl, rfl, hHistory⟩ rfl
  | handle completion ready hIo hReady =>
      rcases sameReport_runHandler { s with ready := ready }
        completion with ⟨hSame, hRun⟩
      exact hReporting.of_same_runnable
        ⟨hSame.reportPeriod, hSame.phase,
          hSame.reportStatsTimer, hSame.history⟩ hRun

end ActivityRun

end ModemTester

------------------------------------------------------------
-- Life Cycles
------------------------------------------------------------

namespace ModemTester

namespace ActivityRun

open StepSystem

variable {kind : ActivityKind}
variable {reportPeriod : Int}
variable {labels : List ActivityLabel}
variable {s : ActivityRun}

/- What holds before every step of a punctual run. -/
theorem stage_of_punctual
    (hPeriod : reportPeriod ≤ 0)
    (hPunctual : Along step Punctual
      (construct kind reportPeriod) labels)
    (hRun : run step (construct kind reportPeriod) labels =
      some s) :
    s.Stage := by
  have hInv : s.Plain ∧ s.Stage := by
    refine run_invariant_along
      (I := fun s => s.Plain ∧ s.Stage) ?_
      ⟨plain_construct hPeriod, stage_construct kind _⟩
      hPunctual hRun
    rintro s label s' ⟨hPlain, hStage⟩ hPunctual hStep
    exact ⟨hPlain.step hStep,
      hStage.step hPunctual (hPlain.step_cases hStep)⟩
  exact hInv.2

/- An activity that reports deletes its timer twice. -/
theorem illegal_of_reporting
    (hPeriod : reportPeriod > 0)
    (hRun : run step (construct kind reportPeriod) labels =
      some s)
    (hDestroyed : s.phase = .destroyed) :
    Ledger.account s.history = none := by
  have hReporting : s.Reporting :=
    run_invariant
      (fun _ _ _ hReporting hStep => hReporting.step hStep)
      (reporting_construct hPeriod) hRun
  have hTimer := hReporting.timer
  rwa [ReportTimer, hDestroyed] at hTimer

/-
  The life cycle of the timers of an activity. When it has
  been destroyed and no handler is left, every timer has
  been deleted once and nothing done to it after that,
  exactly if it does not report and the results were handled
  while the runnable waited for them, with no handler of the
  timeout queued.
-/
theorem released_once_iff
    (hRun : run step (construct kind reportPeriod) labels =
      some s)
    (hDestroyed : s.phase = .destroyed)
    (hReady : s.ready = []) :
    (Ledger.Legal s.history ∧
      ∀ timer, .acquire timer ∈ s.history →
        s.history.count (.release timer) = 1) ↔
      reportPeriod ≤ 0 ∧
        Along step Punctual (construct kind reportPeriod)
          labels := by
  rw [← Ledger.settled_iff]
  constructor
  · rintro ⟨released, hSettled⟩
    have hPeriod : reportPeriod ≤ 0 := by
      by_contra hPositive
      rw [illegal_of_reporting (Int.not_le.mp hPositive) hRun
        hDestroyed] at hSettled
      cases hSettled
    refine ⟨hPeriod, ?_⟩
    refine along_of_run
      (I := fun s => s.Plain ∧ s.Stage)
      (D := fun s => s.Plain ∧ s.Doomed) ?_ ?_ ?_
      ⟨plain_construct hPeriod, stage_construct kind _⟩ hRun ?_
    · rintro s label s' ⟨hPlain, hStage⟩ hPunctual hStep
      exact ⟨hPlain.step hStep,
        hStage.step hPunctual (hPlain.step_cases hStep)⟩
    · rintro s label s' ⟨hPlain, hStage⟩ hNot hStep
      exact ⟨hPlain.step hStep, doomed_of_not_punctual hStage
        hNot (hPlain.step_cases hStep)⟩
    · rintro s label s' ⟨hPlain, hDoomed⟩ hStep
      exact ⟨hPlain.step hStep, hDoomed.step hPlain hStep⟩
    · rintro ⟨-, hDoomed⟩
      exact hDoomed.not_settled hDestroyed hReady released
        hSettled
  · rintro ⟨hPeriod, hPunctual⟩
    exact (stage_of_punctual hPeriod hPunctual hRun).settled
      hDestroyed

/- A measurement of the throughput without reports. -/
theorem released_once_without_reports :
    ∃ s, run step (construct .masterThroughput 0)
        [.initReporting, .endReporting, .makeReport,
          .createTimer .runnable, .armTimer .runnable,
          .expire 0, .handle, .endRead true, .handle, .handle,
          .leaveLoop .runnable, .destroy] = some s ∧
      Ledger.Legal s.history ∧
      ∀ timer, .acquire timer ∈ s.history →
        s.history.count (.release timer) = 1 := by
  have hRun : run step (construct .masterThroughput 0)
      [.initReporting, .endReporting, .makeReport,
        .createTimer .runnable, .armTimer .runnable,
        .expire 0, .handle, .endRead true, .handle, .handle,
        .leaveLoop .runnable, .destroy] = some _ := rfl
  exact ⟨_, rfl,
    (released_once_iff hRun rfl rfl).mpr (by decide)⟩

/-
  With a report period the destructor deletes what
  `endReporting` has deleted. Without one, the timer of the
  results expires just before they come, and is used after
  they were handled.
-/
theorem deleted_twice :
    (∃ s, run step (construct .masterPinger 1)
        [.initReporting, .endReporting, .makeReport, .destroy,
          .handle] = some s ∧
      s.phase = .destroyed ∧ s.ready = [] ∧
      s.history.count (.release 0) = 2 ∧
      ¬ Ledger.Legal s.history) ∧
    ∃ s, run step (construct .masterThroughput 0)
        [.initReporting, .endReporting, .makeReport,
          .createTimer .runnable, .armTimer .runnable,
          .endRead true, .expire 0, .handle, .handle,
          .leaveLoop .runnable, .destroy] = some s ∧
      s.phase = .destroyed ∧ s.ready = [] ∧
      ¬ Ledger.Legal s.history := by
  refine ⟨⟨_, rfl, rfl, rfl, by decide, by decide⟩,
    _, rfl, rfl, rfl, by decide⟩

end ActivityRun

end ModemTester
