import ModemTester.Master.PingerCheck

/-
  The reports of the availability test.

  `makeReport` passes five arguments, evaluated one by one
  in any order, while the other thread goes on: the io
  thread reports when the timer expires, and the thread of
  the loop once after it has left it. The handler of
  received bytes runs on the io thread, so that a periodic
  report cannot have one in its middle: all its counters are
  those of one moment, the one at which `_sent` was read.
  The last report has no such moment. Its average may put
  the sum before an echo over the count after it, and its
  counters may be of different times, but never exceed what
  was sent.

  The timer may expire at any time. The average is given by
  the sum and the count that are divided.

  Key definitions include:
    * `Draft`
    * `PingerReports`
    * `PingerReports.step`
    * `PingReport.Snapshot`

  Main declarations:
    * `PingerReports.periodic_snapshots`
    * `PingerReports.reports_within_sent`
-/

------------------------------------------------------------
-- Reports
------------------------------------------------------------

namespace ModemTester

/- What the reporting function is called with. -/
structure PingReport where
  reachable : Bool
  sent : Nat
  lost : Nat
  received : Nat
  /- `_rtt` and `_received` in `getAverageRtt`. -/
  rtt : Int
  samples : Nat
  deriving DecidableEq, Repr

/- The arguments evaluated so far. -/
structure Draft where
  reachable : Option Bool
  sent : Option Nat
  lost : Option Nat
  received : Option Nat
  rtt : Option Int
  samples : Option Nat
  deriving DecidableEq, Repr

/- The variables that `makeReport` reads. -/
inductive Argument where
  | reachable
  | sent
  | lost
  | received
  | rtt
  | samples
  deriving DecidableEq, Repr

namespace Draft

def empty : Draft where
  reachable := none
  sent := none
  lost := none
  received := none
  rtt := none
  samples := none

/- Each variable is read once. -/
def read (d : Draft) (p : MasterPinger) :
    Argument → Option Draft
  | .reachable =>
      if d.reachable = none then
        some { d with reachable := some p.reachable }
      else
        none
  | .sent =>
      if d.sent = none then
        some { d with sent := some p.sent }
      else
        none
  | .lost =>
      if d.lost = none then
        some { d with lost := some p.lost }
      else
        none
  | .received =>
      if d.received = none then
        some { d with received := some p.received }
      else
        none
  | .rtt =>
      if d.rtt = none then
        some { d with rtt := some p.rtt }
      else
        none
  | .samples =>
      if d.samples = none then
        some { d with samples := some p.received }
      else
        none

/- The call, with all arguments evaluated. -/
def report? : Draft → Option PingReport
  | ⟨some reachable, some sent, some lost, some received,
      some rtt, some samples⟩ =>
      some ⟨reachable, sent, lost, received, rtt, samples⟩
  | _ => none

theorem eq_of_report?
    {d : Draft}
    {report : PingReport}
    (hReport : d.report? = some report) :
    d = ⟨some report.reachable, some report.sent,
      some report.lost, some report.received,
      some report.rtt, some report.samples⟩ := by
  unfold report? at hReport
  split at hReport
  · cases hReport
    rfl
  · cases hReport

end Draft

/- The thread that runs `operator()`. -/
inductive LoopThread where
  | looping
  /- It has left the loop, and makes its report. -/
  | reporting (draft : Draft)
  | reported (report : PingReport)
  deriving DecidableEq, Repr

/- `handler` is the report that the io thread is making. -/
structure PingerReports where
  loop : PingerLoop
  thread : LoopThread
  handler : Option Draft
  periodic : List PingReport

inductive ReportLabel where
  | loop (label : PingerLabel)
  /- `handleTimerReportStats` runs without an error. -/
  | timerExpires
  | readPeriodic (argument : Argument)
  | reportPeriodic
  /- The test of the loop finds the request to stop. -/
  | leaveLoop
  | readLast (argument : Argument)
  | reportLast
  deriving DecidableEq, Repr

namespace PingerReports

def start : PingerReports where
  loop := PingerLoop.start
  thread := .looping
  handler := none
  periodic := []

/-
  The io thread handles bytes between its reports, `stop()`
  comes from elsewhere, and the rest is done by the loop.
-/
def Allows (s : PingerReports) : PingerLabel → Prop
  | .receive _ _ _ => s.handler = none
  | .requestStop => True
  | _ => s.thread = .looping

instance (s : PingerReports) :
    DecidablePred s.Allows
  | .receive _ _ _ => inferInstanceAs (Decidable (_ = none))
  | .requestStop => .isTrue trivial
  | .write => inferInstanceAs (Decidable (_ = _))
  | .countSent => inferInstanceAs (Decidable (_ = _))
  | .record _ => inferInstanceAs (Decidable (_ = _))
  | .advance => inferInstanceAs (Decidable (_ = _))
  | .readReceived => inferInstanceAs (Decidable (_ = _))
  | .readLost => inferInstanceAs (Decidable (_ = _))
  | .check => inferInstanceAs (Decidable (_ = _))

def step (s : PingerReports) :
    ReportLabel → Option PingerReports
  | .loop label =>
      if s.Allows label then
        (s.loop.step label).map fun loop =>
          { s with loop := loop }
      else
        none
  | .timerExpires =>
      match s.handler with
      | none => some { s with handler := some Draft.empty }
      | some _ => none
  | .readPeriodic argument =>
      match s.handler with
      | none => none
      | some draft =>
          (draft.read s.loop.pinger argument).map fun draft =>
            { s with handler := some draft }
  | .reportPeriodic =>
      match s.handler with
      | none => none
      | some draft =>
          draft.report?.map fun report =>
            { s with
              handler := none
              periodic := s.periodic ++ [report] }
  | .leaveLoop =>
      if s.thread = .looping ∧ s.loop.point = .top ∧
          s.loop.pinger.stopRequested = true then
        some { s with thread := .reporting Draft.empty }
      else
        none
  | .readLast argument =>
      match s.thread with
      | .reporting draft =>
          (draft.read s.loop.pinger argument).map fun draft =>
            { s with thread := .reporting draft }
      | _ => none
  | .reportLast =>
      match s.thread with
      | .reporting draft =>
          draft.report?.map fun report =>
            { s with thread := .reported report }
      | _ => none

end PingerReports

------------------------------------------------------------
-- What A Draft Has Read
------------------------------------------------------------

/- The counters that only handlers move. -/
def MasterPinger.SameEchoes (p q : MasterPinger) : Prop :=
  p.lost = q.lost ∧ p.received = q.received ∧ p.rtt = q.rtt

/- The counters of the report are those of one state. -/
structure PingReport.Snapshot
    (report : PingReport)
    (p : MasterPinger) : Prop where
  sent : report.sent = p.sent
  lost : report.lost = p.lost
  received : report.received = p.received
  rtt : report.rtt = p.rtt
  samples : report.samples = p.received

/- No counter falls from one report to the other. -/
def PingReport.Before (report later : PingReport) : Prop :=
  report.sent ≤ later.sent ∧ report.lost ≤ later.lost ∧
    report.received ≤ later.received

namespace Draft

variable {d d' : Draft}
variable {p : MasterPinger}
variable {argument : Argument}

/- What was read of the echoes is what is there. -/
structure Agrees (d : Draft) (p : MasterPinger) : Prop where
  lost : ∀ n ∈ d.lost, n = p.lost
  received : ∀ n ∈ d.received, n = p.received
  rtt : ∀ n ∈ d.rtt, n = p.rtt
  samples : ∀ n ∈ d.samples, n = p.received

theorem agrees_empty (p : MasterPinger) :
    empty.Agrees p := by
  constructor <;> simp [empty]

theorem Agrees.of_same
    {q : MasterPinger}
    (hAgrees : d.Agrees p)
    (hSame : q.SameEchoes p) :
    d.Agrees q := by
  rcases hSame with ⟨hLost, hReceived, hRtt⟩
  refine ⟨?_, ?_, ?_, ?_⟩
  · rw [hLost]
    exact hAgrees.lost
  · rw [hReceived]
    exact hAgrees.received
  · rw [hRtt]
    exact hAgrees.rtt
  · rw [hReceived]
    exact hAgrees.samples

theorem Agrees.read
    (hAgrees : d.Agrees p)
    (hRead : d.read p argument = some d') :
    d'.Agrees p := by
  rcases hAgrees with ⟨hLost, hReceived, hRtt, hSamples⟩
  cases argument <;> simp only [Draft.read] at hRead <;>
    split at hRead <;> cases hRead
  all_goals constructor <;> simp_all

/- `_sent` is read as it is, or was read before. -/
theorem sent_of_read
    (hRead : d.read p argument = some d')
    {n : Nat}
    (hSent : n ∈ d'.sent) :
    n ∈ d.sent ∨ n = p.sent := by
  cases argument <;> simp only [read] at hRead <;>
    split at hRead <;> cases hRead
  case sent => exact .inr (Option.some.inj hSent).symm
  all_goals exact .inl hSent

end Draft

namespace PingerLoop

/- No counter ever falls. -/
theorem grows_of_step
    {l l' : PingerLoop}
    {label : PingerLabel}
    (hStep : l.step label = some l') :
    l.pinger.sent ≤ l'.pinger.sent ∧
      MasterPinger.CountersFrom l.pinger l'.pinger := by
  cases label with
  | receive ec now bytes =>
      cases hStep
      exact ⟨(MasterPinger.handleReceive_sent ..).ge,
        MasterPinger.countersFrom_handleReceive ..⟩
  | write | countSent | record | advance | readReceived
  | readLost =>
      simp only [step] at hStep
      split at hStep
      · cases hStep
        simp [MasterPinger.CountersFrom]
      · cases hStep
  | check =>
      simp only [step] at hStep
      split at hStep
      · cases hStep
        simp [setReachable, MasterPinger.CountersFrom]
      · cases hStep
        simp [setReachable, MasterPinger.CountersFrom]
      · cases hStep
  | requestStop =>
      cases hStep
      simp [MasterPinger.CountersFrom]

end PingerLoop

namespace PingerReports

variable {s s' : PingerReports}
variable {done labels : List ReportLabel}
variable {label : ReportLabel}

/- The steps, one constructor for each way to move. -/
inductive Moves (s : PingerReports) :
    ReportLabel → PingerReports → Prop where
  | loop
      {label : PingerLabel}
      {loop : PingerLoop}
      (hAllows : s.Allows label)
      (hStep : s.loop.step label = some loop) :
      Moves s (.loop label) { s with loop := loop }
  | timerExpires
      (hIdle : s.handler = none) :
      Moves s .timerExpires
        { s with handler := some Draft.empty }
  | readPeriodic
      {argument : Argument}
      {draft next : Draft}
      (hHandler : s.handler = some draft)
      (hRead : draft.read s.loop.pinger argument = some next) :
      Moves s (.readPeriodic argument)
        { s with handler := some next }
  | reportPeriodic
      {report : PingReport}
      (hHandler : s.handler =
        some ⟨some report.reachable, some report.sent,
          some report.lost, some report.received,
          some report.rtt, some report.samples⟩) :
      Moves s .reportPeriodic
        { s with
          handler := none
          periodic := s.periodic ++ [report] }
  | leaveLoop
      (hThread : s.thread = .looping) :
      Moves s .leaveLoop
        { s with thread := .reporting Draft.empty }
  | readLast
      {argument : Argument}
      {draft next : Draft}
      (hThread : s.thread = .reporting draft)
      (hRead : draft.read s.loop.pinger argument = some next) :
      Moves s (.readLast argument)
        { s with thread := .reporting next }
  | reportLast
      {report : PingReport}
      (hThread : s.thread = .reporting
        ⟨some report.reachable, some report.sent,
          some report.lost, some report.received,
          some report.rtt, some report.samples⟩) :
      Moves s .reportLast
        { s with thread := .reported report }

theorem moves_of_step
    (hStep : step s label = some s') :
    Moves s label s' := by
  cases label with
  | loop label =>
      simp only [step] at hStep
      split at hStep
      · rename_i hAllows
        rcases Option.map_eq_some_iff.mp hStep with
          ⟨loop, hTaken, rfl⟩
        exact .loop hAllows hTaken
      · cases hStep
  | timerExpires =>
      simp only [step] at hStep
      split at hStep
      · rename_i hIdle
        cases hStep
        exact .timerExpires hIdle
      · cases hStep
  | readPeriodic argument =>
      simp only [step] at hStep
      split at hStep
      · cases hStep
      · rename_i draft hHandler
        rcases Option.map_eq_some_iff.mp hStep with
          ⟨next, hRead, rfl⟩
        exact .readPeriodic hHandler hRead
  | reportPeriodic =>
      simp only [step] at hStep
      split at hStep
      · cases hStep
      · rename_i draft hHandler
        rcases Option.map_eq_some_iff.mp hStep with
          ⟨report, hReport, rfl⟩
        rw [Draft.eq_of_report? hReport] at hHandler
        exact .reportPeriodic hHandler
  | leaveLoop =>
      simp only [step] at hStep
      split at hStep
      · rename_i hLeaves
        cases hStep
        exact .leaveLoop hLeaves.1
      · cases hStep
  | readLast argument =>
      simp only [step] at hStep
      split at hStep
      · rename_i draft hThread
        rcases Option.map_eq_some_iff.mp hStep with
          ⟨next, hRead, rfl⟩
        exact .readLast hThread hRead
      · cases hStep
  | reportLast =>
      simp only [step] at hStep
      split at hStep
      · rename_i draft hThread
        rcases Option.map_eq_some_iff.mp hStep with
          ⟨report, hReport, rfl⟩
        rw [Draft.eq_of_report? hReport] at hThread
        exact .reportLast hThread
      · cases hStep

/- Reports change nothing in the loop. -/
theorem exists_run_loop
    (hRun : StepSystem.run step start labels = some s) :
    ∃ loopLabels, StepSystem.run PingerLoop.step
      PingerLoop.start loopLabels = some s.loop := by
  refine StepSystem.run_simulation (I := fun _ => True)
    PingerReports.loop (fun _ _ _ _ _ => trivial) ?_ trivial
    hRun
  intro s label s' _ hStep
  cases moves_of_step hStep with
  | loop hAllows hTaken =>
      exact ⟨_, StepSystem.run_of_step hTaken⟩
  | timerExpires | readPeriodic | reportPeriodic | leaveLoop
  | readLast | reportLast => exact ⟨[], rfl⟩

theorem booked_le_sent
    (hRun : StepSystem.run step start labels = some s) :
    s.loop.pinger.lost + s.loop.pinger.received ≤
      s.loop.pinger.sent := by
  rcases exists_run_loop hRun with ⟨loopLabels, hLoop⟩
  have hBooked := PingerLoop.booked_le_sent hLoop
  simp only [MasterPinger.booked] at hBooked
  omega

/- While a report is made on it, the io thread reads none. -/
theorem sameEchoes_of_allows
    {label : PingerLabel}
    {loop : PingerLoop}
    {draft : Draft}
    (hHandler : s.handler = some draft)
    (hAllows : s.Allows label)
    (hStep : s.loop.step label = some loop) :
    loop.pinger.SameEchoes s.loop.pinger := by
  have hReceive : ∀ ec now bytes,
      label ≠ .receive ec now bytes := by
    rintro ec now bytes rfl
    rw [Allows, hHandler] at hAllows
    cases hAllows
  rcases PingerLoop.counters_of_step hReceive hStep with
    ⟨hReceived, hLost, hRtt⟩
  exact ⟨hLost, hReceived, hRtt⟩

------------------------------------------------------------
-- Periodic Reports
------------------------------------------------------------

/-
  The counters of echoes are those at which `_sent` was
  read, as long as the report is made.
-/
structure Recorded
    (done : List ReportLabel)
    (s : PingerReports) : Prop where
  agrees : ∀ draft ∈ s.handler, draft.Agrees s.loop.pinger
  sent : ∀ draft ∈ s.handler, ∀ n ∈ draft.sent,
    StepSystem.Visits step
      (fun before => before.loop.pinger.sent = n ∧
        before.loop.pinger.SameEchoes s.loop.pinger)
      start done
  periodic : ∀ report ∈ s.periodic,
    StepSystem.Visits step
      (fun before => report.Snapshot before.loop.pinger)
      start done

theorem Recorded.step
    (hRun : StepSystem.run PingerReports.step start done =
      some s)
    (hRecorded : Recorded done s)
    (hStep : PingerReports.step s label = some s') :
    Recorded (done ++ [label]) s' := by
  have hPeriodic : ∀ report ∈ s.periodic,
      StepSystem.Visits PingerReports.step
        (fun before => report.Snapshot before.loop.pinger)
        start (done ++ [label]) :=
    fun report hReport =>
      (hRecorded.periodic report hReport).append _
  cases moves_of_step hStep with
  | loop hAllows hTaken =>
      refine ⟨?_, ?_, hPeriodic⟩
      · intro draft hDraft
        exact (hRecorded.agrees draft hDraft).of_same
          (sameEchoes_of_allows hDraft hAllows hTaken)
      · intro draft hDraft n hSent
        have hHandler : s.handler = some draft := hDraft
        have hSame := sameEchoes_of_allows hHandler hAllows
          hTaken
        refine ((hRecorded.sent draft hDraft n hSent).append
          _).mono ?_
        rintro before ⟨hBefore, hEchoes⟩
        exact ⟨hBefore, hEchoes.1.trans hSame.1.symm,
          hEchoes.2.1.trans hSame.2.1.symm,
          hEchoes.2.2.trans hSame.2.2.symm⟩
  | timerExpires hIdle =>
      refine ⟨?_, ?_, hPeriodic⟩
      · rintro draft ⟨⟩
        exact Draft.agrees_empty _
      · rintro draft ⟨⟩ n hSent
        cases hSent
  | @readPeriodic argument draft next hHandler hRead =>
      refine ⟨?_, ?_, hPeriodic⟩
      · rintro other ⟨⟩
        exact (hRecorded.agrees draft hHandler).read hRead
      · rintro other ⟨⟩ n hSent
        rcases Draft.sent_of_read hRead hSent with hOld | rfl
        · exact (hRecorded.sent draft hHandler n hOld).append _
        · exact (StepSystem.visits_last hRun
            ⟨rfl, rfl, rfl, rfl⟩).append _
  | @reportPeriodic report hHandler =>
      refine ⟨by simp, by simp, ?_⟩
      intro other hOther
      rcases List.mem_append.mp hOther with hOld | hNew
      · exact hPeriodic other hOld
      · rw [List.mem_singleton.mp hNew]
        have hAgrees := hRecorded.agrees _ hHandler
        refine ((hRecorded.sent _ hHandler report.sent
          rfl).append _).mono ?_
        rintro before ⟨hSent, hLost, hReceived, hRtt⟩
        exact ⟨hSent.symm,
          (hAgrees.lost _ rfl).trans hLost.symm,
          (hAgrees.received _ rfl).trans hReceived.symm,
          (hAgrees.rtt _ rfl).trans hRtt.symm,
          (hAgrees.samples _ rfl).trans hReceived.symm⟩
  | leaveLoop | readLast | reportLast =>
      refine ⟨hRecorded.agrees, ?_, hPeriodic⟩
      intro draft hDraft n hSent
      exact (hRecorded.sent draft hDraft n hSent).append _

theorem recorded_of_run
    (hRun : StepSystem.run step start labels = some s) :
    Recorded labels s :=
  StepSystem.run_invariant_history
    (fun _ _ _ _ hBefore hRecorded hStep =>
      hRecorded.step hBefore hStep)
    ⟨by simp [start], by simp [start], by simp [start]⟩
    hRun

/-
  What the periodic reports say so far, next to the counters
  and to the report that is being made.
-/
structure Ordered (s : PingerReports) : Prop where
  below : ∀ report ∈ s.periodic,
    report.sent ≤ s.loop.pinger.sent ∧
      report.lost ≤ s.loop.pinger.lost ∧
        report.received ≤ s.loop.pinger.received
  agrees : ∀ draft ∈ s.handler, draft.Agrees s.loop.pinger
  sent : ∀ draft ∈ s.handler, ∀ n ∈ draft.sent,
    n ≤ s.loop.pinger.sent ∧
      ∀ report ∈ s.periodic, report.sent ≤ n
  pairwise : s.periodic.Pairwise PingReport.Before

theorem Ordered.step
    (hOrdered : Ordered s)
    (hStep : PingerReports.step s label = some s') :
    Ordered s' := by
  have hBelow := hOrdered.below
  cases moves_of_step hStep with
  | loop hAllows hTaken =>
      rcases PingerLoop.grows_of_step hTaken with
        ⟨hSent, hReceived, hLost⟩
      refine ⟨?_, ?_, ?_, hOrdered.pairwise⟩
      · intro report hReport
        have hOld := hBelow report hReport
        exact ⟨hOld.1.trans hSent, hOld.2.1.trans hLost,
          hOld.2.2.trans hReceived⟩
      · intro draft hDraft
        exact (hOrdered.agrees draft hDraft).of_same
          (sameEchoes_of_allows hDraft hAllows hTaken)
      · intro draft hDraft n hRead
        have hOld := hOrdered.sent draft hDraft n hRead
        exact ⟨hOld.1.trans hSent, hOld.2⟩
  | timerExpires hIdle =>
      refine ⟨hBelow, ?_, ?_, hOrdered.pairwise⟩
      · rintro draft ⟨⟩
        exact Draft.agrees_empty _
      · rintro draft ⟨⟩ n hSent
        cases hSent
  | @readPeriodic argument draft next hHandler hRead =>
      refine ⟨hBelow, ?_, ?_, hOrdered.pairwise⟩
      · rintro other ⟨⟩
        exact (hOrdered.agrees draft hHandler).read hRead
      · rintro other ⟨⟩ n hSent
        rcases Draft.sent_of_read hRead hSent with hOld | rfl
        · exact hOrdered.sent draft hHandler n hOld
        · exact ⟨le_rfl, fun report hReport =>
            (hBelow report hReport).1⟩
  | @reportPeriodic report hHandler =>
      have hAgrees := hOrdered.agrees _ hHandler
      have hLost := hAgrees.lost _ rfl
      have hReceived := hAgrees.received _ rfl
      have hSent := hOrdered.sent _ hHandler report.sent rfl
      refine ⟨?_, by simp, by simp, ?_⟩
      · intro other hOther
        rcases List.mem_append.mp hOther with hOld | hNew
        · exact hBelow other hOld
        · rw [List.mem_singleton.mp hNew]
          exact ⟨hSent.1, hLost.le, hReceived.le⟩
      · rw [List.pairwise_append]
        refine ⟨hOrdered.pairwise,
          List.pairwise_singleton _ _, ?_⟩
        intro other hOther later hLater
        rw [List.mem_singleton.mp hLater]
        have hOld := hBelow other hOther
        exact ⟨hSent.2 other hOther, hLost ▸ hOld.2.1,
          hReceived ▸ hOld.2.2⟩
  | leaveLoop | readLast | reportLast =>
      exact ⟨hBelow, hOrdered.agrees, hOrdered.sent,
        hOrdered.pairwise⟩

theorem ordered_of_run
    (hRun : StepSystem.run step start labels = some s) :
    Ordered s :=
  StepSystem.run_invariant
    (fun _ _ _ hOrdered hStep => hOrdered.step hStep)
    ⟨by simp [start], by simp [start], by simp [start],
      by simp [start]⟩
    hRun

/-
  Every periodic report has the counters of one moment of the
  run, and no counter falls from one such report to the next.
-/
theorem periodic_snapshots
    (hRun : StepSystem.run step start labels = some s) :
    (∀ report ∈ s.periodic,
        StepSystem.Visits step
          (fun before => report.Snapshot before.loop.pinger)
          start labels) ∧
      s.periodic.Pairwise PingReport.Before :=
  ⟨(recorded_of_run hRun).periodic,
    (ordered_of_run hRun).pairwise⟩

/-
  A transmission is counted in the middle of the first
  report and echoed before the second.
-/
def twoReports : List ReportLabel :=
  [.loop .write, .timerExpires, .readPeriodic .received,
    .loop .countSent, .readPeriodic .sent,
    .loop (.record 0), .readPeriodic .lost,
    .readPeriodic .rtt, .loop .requestStop,
    .readPeriodic .reachable, .readPeriodic .samples,
    .reportPeriodic, .loop (.receive 0 7 [0]), .timerExpires,
    .loop .advance, .readPeriodic .samples,
    .readPeriodic .rtt, .loop .readLost,
    .readPeriodic .received, .readPeriodic .lost,
    .readPeriodic .sent, .loop .check,
    .readPeriodic .reachable, .reportPeriodic]

theorem periodic_snapshots_twoReports :
    ∃ s, StepSystem.run step start twoReports = some s ∧
      s.periodic = [⟨false, 1, 0, 0, 0, 0⟩,
        ⟨true, 1, 0, 1, 7, 1⟩] ∧
      (∀ report ∈ s.periodic,
        StepSystem.Visits step
          (fun before => report.Snapshot before.loop.pinger)
          start twoReports) ∧
      s.periodic.Pairwise PingReport.Before := by
  refine ⟨_, rfl, rfl, ?_⟩
  exact @periodic_snapshots _ twoReports rfl

------------------------------------------------------------
-- The Last Report
------------------------------------------------------------

/- After the loop `_sent` stays, and echoes are still booked. -/
def LastWithin (s : PingerReports) : Prop :=
  match s.thread with
  | .looping => True
  | .reporting draft =>
      (∀ n ∈ draft.sent, n = s.loop.pinger.sent) ∧
        (∀ n ∈ draft.lost, n ≤ s.loop.pinger.lost) ∧
        (∀ n ∈ draft.received, n ≤ s.loop.pinger.received)
  | .reported report =>
      report.sent = s.loop.pinger.sent ∧
        report.lost + report.received ≤ report.sent

theorem read_counters
    {draft next : Draft}
    {p : MasterPinger}
    {argument : Argument}
    (hRead : draft.read p argument = some next)
    (hSent : ∀ n ∈ draft.sent, n = p.sent)
    (hLost : ∀ n ∈ draft.lost, n ≤ p.lost)
    (hReceived : ∀ n ∈ draft.received, n ≤ p.received) :
    (∀ n ∈ next.sent, n = p.sent) ∧
      (∀ n ∈ next.lost, n ≤ p.lost) ∧
      (∀ n ∈ next.received, n ≤ p.received) := by
  cases argument <;> simp only [Draft.read] at hRead <;>
    split at hRead <;> cases hRead
  all_goals refine ⟨?_, ?_, ?_⟩ <;> simp_all

/- Out of the loop, only handlers and `stop()` go on. -/
theorem sent_of_allows
    {label : PingerLabel}
    {loop : PingerLoop}
    (hThread : s.thread ≠ .looping)
    (hAllows : s.Allows label)
    (hStep : s.loop.step label = some loop) :
    loop.pinger.sent = s.loop.pinger.sent := by
  cases label with
  | receive ec now bytes =>
      cases hStep
      exact MasterPinger.handleReceive_sent ..
  | requestStop =>
      cases hStep
      rfl
  | write | countSent | record | advance | readReceived
  | readLost | check => exact absurd hAllows hThread

theorem LastWithin.step
    (hRun : StepSystem.run PingerReports.step start done =
      some s)
    (hWithin : LastWithin s)
    (hStep : PingerReports.step s label = some s') :
    LastWithin s' := by
  unfold LastWithin at hWithin ⊢
  cases moves_of_step hStep with
  | loop hAllows hTaken =>
      rcases PingerLoop.grows_of_step hTaken with
        ⟨-, hReceived, hLost⟩
      cases hThread : s.thread with
      | looping => trivial
      | reporting draft =>
          rw [hThread] at hWithin
          have hSent := sent_of_allows (by simp [hThread])
            hAllows hTaken
          refine ⟨?_, ?_, ?_⟩
          · rw [hSent]
            exact hWithin.1
          · intro n hRead
            exact (hWithin.2.1 n hRead).trans hLost
          · intro n hRead
            exact (hWithin.2.2 n hRead).trans hReceived
      | reported report =>
          rw [hThread] at hWithin
          have hSent := sent_of_allows (by simp [hThread])
            hAllows hTaken
          exact ⟨hWithin.1.trans hSent.symm, hWithin.2⟩
  | timerExpires | readPeriodic | reportPeriodic =>
      exact hWithin
  | leaveLoop hThread => simp [Draft.empty]
  | @readLast argument draft next hThread hRead =>
      rw [hThread] at hWithin
      exact read_counters hRead hWithin.1 hWithin.2.1
        hWithin.2.2
  | @reportLast report hThread =>
      rw [hThread] at hWithin
      have hSent := hWithin.1 _ rfl
      have hLost := hWithin.2.1 _ rfl
      have hReceived := hWithin.2.2 _ rfl
      refine ⟨hSent, ?_⟩
      calc report.lost + report.received
          ≤ s.loop.pinger.lost + s.loop.pinger.received :=
          Nat.add_le_add hLost hReceived
        _ ≤ s.loop.pinger.sent := booked_le_sent hRun
        _ = report.sent := hSent.symm

/-
  No report, the last one included, counts more echoes and
  losses than transmissions, and the last one has them all.
-/
theorem reports_within_sent
    (hRun : StepSystem.run step start labels = some s) :
    (∀ report ∈ s.periodic,
        report.lost + report.received ≤ report.sent) ∧
      ∀ report, s.thread = .reported report →
        report.lost + report.received ≤ report.sent ∧
          ∀ earlier ∈ s.periodic,
            earlier.sent ≤ report.sent := by
  constructor
  · intro report hReport
    rcases (recorded_of_run hRun).periodic report hReport with
      ⟨front, back, before, -, hBefore, hSnapshot⟩
    rw [hSnapshot.sent, hSnapshot.lost, hSnapshot.received]
    exact booked_le_sent hBefore
  · intro report hThread
    have hWithin : LastWithin s :=
      StepSystem.run_invariant_history
        (H := fun _ s => LastWithin s)
        (fun _ _ _ _ hBefore hWithin hStep =>
          hWithin.step hBefore hStep)
        trivial hRun
    rw [LastWithin, hThread] at hWithin
    refine ⟨hWithin.2, ?_⟩
    intro earlier hEarlier
    rw [hWithin.1]
    exact ((ordered_of_run hRun).below earlier hEarlier).1

/- An echo is handled in the middle of the last report. -/
def lastReport : List ReportLabel :=
  twoReports.take 12 ++
    [.loop .advance, .loop .readLost, .loop .check,
      .leaveLoop, .readLast .rtt, .readLast .lost,
      .loop (.receive 0 7 [0]), .readLast .samples,
      .readLast .received, .readLast .sent,
      .readLast .reachable, .reportLast]

/- Its average is the sum before it over the count after. -/
theorem reports_within_sent_lastReport :
    ∃ s, StepSystem.run step start lastReport = some s ∧
      s.thread = .reported ⟨true, 1, 0, 1, 0, 1⟩ ∧
      s.loop.pinger.rtt = 7 ∧
      ∀ earlier ∈ s.periodic, earlier.sent ≤ 1 := by
  refine ⟨_, rfl, rfl, rfl, ?_⟩
  exact ((@reports_within_sent _ lastReport rfl).2 _ rfl).2

end PingerReports

end ModemTester
