import ModemTester.Script.EventsScript

/-
  What a script dispatches when nobody interferes.

  The waits whose handlers have still to run, queued or not,
  are always the rest of the current cycle. The events
  dispatched are therefore whole cycles and the part of the
  current one that has been handled, and a restart happens
  only when that part is everything.

  Key definitions include:
    * `Script.cycleEvents`
    * `ScriptRun.Playing`
    * `ScriptRun.Booked`

  Main declarations:
    * `ScriptRun.script_law`
-/

------------------------------------------------------------
-- One Cycle
------------------------------------------------------------

namespace ModemTester

/- What the handler of a wait dispatches. -/
def ScriptWait.events (wait : ScriptWait) : List Event :=
  match wait.handler with
  | .handleTimer id => (dispatchEventFromId id).toList
  | .restartScript => []

namespace Script

/- The entries whose events one cycle dispatches. -/
def playedEntries (script : Script) :
    List (Int × EventId) :=
  if script.cyclic then script.entries.dropLast
  else script.entries

def cycleEvents (script : Script) : List Event :=
  script.playedEntries.flatMap fun entry =>
    (dispatchEventFromId entry.2).toList

/- The wait of an entry whose event is dispatched. -/
def eventWait
    (cycle : Nat)
    (begin : Int)
    (entry : Int × EventId) : ScriptWait :=
  ⟨⟨cycle, begin + entry.1⟩, .handleTimer entry.2⟩

theorem waitsAt_of_not_cyclic
    {script : Script}
    (hCyclic : script.cyclic = false)
    (cycle : Nat)
    (begin : Int) :
    script.waitsAt cycle begin =
      script.playedEntries.map (eventWait cycle begin) := by
  simp [waitsAt, handlerAt, playedEntries, eventWait, hCyclic]

/- In a cyclic script the last wait restarts it. -/
theorem waitsAt_of_cyclic
    {script : Script}
    (hCyclic : script.cyclic = true)
    (hNonempty : script.entries ≠ [])
    (cycle : Nat)
    (begin : Int) :
    ∃ timer, script.waitsAt cycle begin =
      script.playedEntries.map (eventWait cycle begin) ++
        [⟨timer, .restartScript⟩] := by
  rcases List.eq_nil_or_concat script.entries with
    hNil | ⟨front, last, hEntries⟩
  · exact absurd hNil hNonempty
  · rw [List.concat_eq_append] at hEntries
    have hSorted := script.sorted
    rw [hEntries, List.pairwise_append] at hSorted
    have hLast : script.lastDate begin =
        some (begin + last.1) := by
      simp [lastDate, hEntries]
    refine ⟨⟨cycle, begin + last.1⟩, ?_⟩
    simp only [waitsAt, playedEntries, hCyclic, hEntries,
      if_true, List.map_append, List.map_singleton,
      List.dropLast_concat]
    congr 1
    · apply List.map_congr_left
      intro entry hEntry
      have hBefore : entry.1 < last.1 :=
        hSorted.2.2 entry hEntry last List.mem_cons_self
      have hDates : ¬ begin + last.1 = begin + entry.1 := by
        omega
      simp [handlerAt, eventWait, hLast, hDates]
    · simp [handlerAt, hCyclic, hLast]

theorem flatMap_eventWait
    (cycle : Nat)
    (begin : Int)
    (entries : List (Int × EventId)) :
    (entries.map (eventWait cycle begin)).flatMap
        ScriptWait.events =
      entries.flatMap fun entry =>
        (dispatchEventFromId entry.2).toList := by
  rw [List.flatMap_map]
  rfl

/- The waits of a cycle dispatch its events. -/
theorem flatMap_waitsAt
    (script : Script)
    (cycle : Nat)
    (begin : Int) :
    (script.waitsAt cycle begin).flatMap ScriptWait.events =
      script.cycleEvents := by
  cases hCyclic : script.cyclic with
  | false =>
      rw [waitsAt_of_not_cyclic hCyclic, flatMap_eventWait]
      rfl
  | true =>
      by_cases hEmpty : script.entries = []
      · simp [waitsAt, cycleEvents, playedEntries, hEmpty]
      · rcases waitsAt_of_cyclic hCyclic hEmpty cycle begin with
          ⟨timer, hWaits⟩
        rw [hWaits, List.flatMap_append, flatMap_eventWait]
        simp [cycleEvents, ScriptWait.events]

/- Only the last wait of a cyclic script restarts it. -/
theorem rest_of_restart
    {script : Script}
    {cycle : Nat}
    {begin : Int}
    {done rest : List ScriptWait}
    {wait : ScriptWait}
    (hWaits : done ++ wait :: rest =
      script.waitsAt cycle begin)
    (hRestart : wait.handler = .restartScript) :
    script.cyclic = true ∧ rest = [] := by
  have hNotEvent : ∀ entries : List (Int × EventId),
      wait ∉ entries.map (eventWait cycle begin) := by
    intro entries hMem
    rcases List.mem_map.mp hMem with ⟨entry, -, rfl⟩
    cases hRestart
  have hMem : wait ∈ script.waitsAt cycle begin := by
    rw [← hWaits]
    simp
  cases hCyclic : script.cyclic with
  | false =>
      rw [waitsAt_of_not_cyclic hCyclic] at hMem
      exact absurd hMem (hNotEvent _)
  | true =>
      have hNonempty : script.entries ≠ [] := by
        intro hEmpty
        simp [waitsAt, hEmpty] at hMem
      rcases waitsAt_of_cyclic hCyclic hNonempty cycle begin
        with ⟨timer, hShape⟩
      refine ⟨rfl, ?_⟩
      rcases List.eq_nil_or_concat rest with
        hNil | ⟨front, last, hRest⟩
      · exact hNil
      · rw [List.concat_eq_append] at hRest
        rw [hShape, hRest, ← List.cons_append,
          ← List.append_assoc] at hWaits
        have hFront :=
          (List.append_inj_left' hWaits rfl).symm
        have hIn : wait ∈ script.playedEntries.map
            (eventWait cycle begin) := by
          rw [hFront]
          simp
        exact absurd hIn (hNotEvent _)

/- The last wait of a cyclic script is no event. -/
theorem rest_of_event
    {script : Script}
    {cycle : Nat}
    {begin : Int}
    {done rest : List ScriptWait}
    {wait : ScriptWait}
    {id : EventId}
    (hWaits : done ++ wait :: rest =
      script.waitsAt cycle begin)
    (hCyclic : script.cyclic = true)
    (hEvent : wait.handler = .handleTimer id) :
    rest ≠ [] := by
  intro hNil
  have hNonempty : script.entries ≠ [] := by
    intro hEmpty
    simp [waitsAt, hEmpty] at hWaits
  rcases waitsAt_of_cyclic hCyclic hNonempty cycle begin with
    ⟨timer, hShape⟩
  rw [hNil, hShape] at hWaits
  have hLast := List.append_inj_right' hWaits rfl
  rw [List.singleton_inj] at hLast
  rw [hLast] at hEvent
  cases hEvent

theorem timer_of_mem_waitsAt
    {script : Script}
    {cycle : Nat}
    {begin : Int}
    {wait : ScriptWait}
    (hMem : wait ∈ script.waitsAt cycle begin) :
    wait.timer ∈ script.timersAt cycle begin := by
  rcases List.mem_map.mp hMem with ⟨entry, hEntry, rfl⟩
  exact List.mem_map.mpr ⟨entry, hEntry, rfl⟩

end Script

end ModemTester

------------------------------------------------------------
-- Playing
------------------------------------------------------------

namespace ModemTester

namespace ScriptRun

/- The waits whose handlers have not run, in their order. -/
def pending (s : ScriptRun) : List ScriptWait :=
  s.ready.map ScriptCompletion.wait ++ s.waiting

/-
  The script plays its current cycle: what is pending is
  the rest of it, and what has been dispatched are the
  cycles before and the part of this one that is done.
-/
structure Playing
    (script : Script)
    (s : ScriptRun)
    (begin : Int)
    (done : List ScriptWait) : Prop where
  timers : s.timers = script.timersAt s.starts begin
  pending : done ++ s.pending = script.waitsAt s.starts begin
  dispatched : s.dispatched =
    (List.replicate s.restarts script.cycleEvents).flatten ++
      done.flatMap ScriptWait.events
  success : ∀ completion ∈ s.ready,
    completion.success = true
  starts : s.starts = s.restarts + 1
  once : script.cyclic = false → s.restarts = 0
  goesOn : script.cyclic = true → script.entries ≠ [] →
    s.pending ≠ []

theorem Playing.waitsOnTimers
    {script : Script}
    {s : ScriptRun}
    {begin : Int}
    {done : List ScriptWait}
    (hPlaying : Playing script s begin done) :
    s.WaitsOnTimers := by
  intro wait hWait
  rw [hPlaying.timers]
  apply Script.timer_of_mem_waitsAt
  rw [← hPlaying.pending]
  apply List.mem_append_right
  exact List.mem_append_right _ hWait

/- A start of a script that waits for nothing. -/
theorem playing_startScript
    {script : Script}
    {s : ScriptRun}
    (hWaiting : s.waiting = [])
    (hReady : s.ready = [])
    (hStarts : s.starts = s.restarts)
    (hOnce : script.cyclic = false → s.restarts = 0)
    (hDispatched : s.dispatched =
      (List.replicate s.restarts script.cycleEvents).flatten)
    (begin : Int) :
    Playing script (s.startScript script begin) begin [] := by
  have hWaits : s.WaitsOnTimers := by
    simp [WaitsOnTimers, hWaiting]
  rw [startScript_of_waitsOnTimers hWaits]
  constructor
  · rfl
  · simp [ScriptRun.pending, hWaiting, hReady]
  · simp [hDispatched]
  · simp [hWaiting, hReady]
  · simp [hStarts]
  · exact hOnce
  · intro _ hNonempty
    simp [ScriptRun.pending, Script.waitsAt, hNonempty]

theorem Playing.expire
    {script : Script}
    {s : ScriptRun}
    {begin : Int}
    {done waiting : List ScriptWait}
    {wait : ScriptWait}
    (hPlaying : Playing script s begin done)
    (hWaiting : s.waiting = wait :: waiting) :
    Playing script
      { s with
        waiting := waiting
        ready := s.ready ++ [⟨wait, true⟩] } begin done := by
  have hSame : ScriptRun.pending
      { s with
        waiting := waiting
        ready := s.ready ++ [⟨wait, true⟩] } = s.pending := by
    simp [ScriptRun.pending, hWaiting]
  constructor
  · exact hPlaying.timers
  · rw [hSame]
    exact hPlaying.pending
  · exact hPlaying.dispatched
  · intro completion hMem
    rcases List.mem_append.mp hMem with hOld | hNew
    · exact hPlaying.success completion hOld
    · rw [List.mem_singleton.mp hNew]
  · exact hPlaying.starts
  · exact hPlaying.once
  · rw [hSame]
    exact hPlaying.goesOn

/- The next handler dispatches its event. -/
theorem Playing.handleTimer
    {script : Script}
    {s : ScriptRun}
    {begin : Int}
    {done : List ScriptWait}
    {ready : List ScriptCompletion}
    {completion : ScriptCompletion}
    {id : EventId}
    (hPlaying : Playing script s begin done)
    (hReady : s.ready = completion :: ready)
    (hHandler : completion.wait.handler = .handleTimer id) :
    Playing script
      { s with
        ready := ready
        dispatched := s.dispatched ++
          (dispatchEventFromId id).toList }
      begin (done ++ [completion.wait]) := by
  have hPending := hPlaying.pending
  have hRest : s.pending = completion.wait ::
      (ready.map ScriptCompletion.wait ++ s.waiting) := by
    simp [ScriptRun.pending, hReady]
  rw [hRest] at hPending
  constructor
  · exact hPlaying.timers
  · rw [← hPending]
    simp [ScriptRun.pending]
  · simp [hPlaying.dispatched, ScriptWait.events, hHandler]
  · intro other hMem
    apply hPlaying.success
    rw [hReady]
    exact List.mem_cons_of_mem _ hMem
  · exact hPlaying.starts
  · exact hPlaying.once
  · intro hCyclic _
    exact Script.rest_of_event hPending hCyclic hHandler

/- The last handler of a cycle starts the next one. -/
theorem Playing.restartScript
    {script : Script}
    {s : ScriptRun}
    {begin : Int}
    {done : List ScriptWait}
    {ready : List ScriptCompletion}
    {completion : ScriptCompletion}
    (hPlaying : Playing script s begin done)
    (hReady : s.ready = completion :: ready)
    (hHandler : completion.wait.handler = .restartScript)
    (now : Int) :
    Playing script
      (startScript script now
        { s with
          ready := ready
          restarts := s.restarts + 1 }) now [] := by
  have hPending := hPlaying.pending
  have hRest : s.pending = completion.wait ::
      (ready.map ScriptCompletion.wait ++ s.waiting) := by
    simp [ScriptRun.pending, hReady]
  rw [hRest] at hPending
  rcases Script.rest_of_restart hPending hHandler with
    ⟨hCyclic, hNothing⟩
  rcases List.append_eq_nil_iff.mp hNothing with
    ⟨hNoReady, hNoWaiting⟩
  -- All events of the cycle have been dispatched.
  have hEvents : done.flatMap ScriptWait.events =
      script.cycleEvents := by
    rw [← script.flatMap_waitsAt s.starts begin, ← hPending,
      hNothing, List.flatMap_append]
    simp [ScriptWait.events, hHandler]
  apply playing_startScript
  · exact hNoWaiting
  · exact List.map_eq_nil_iff.mp hNoReady
  · exact hPlaying.starts
  · intro hOther
    rw [hCyclic] at hOther
    cases hOther
  · simp [hPlaying.dispatched, hEvents,
      List.replicate_succ']

/- What is played is played on. -/
theorem Playing.step
    {script : Script}
    {s s' : ScriptRun}
    {begin : Int}
    {done : List ScriptWait}
    {label : ScriptLabel}
    (hPlaying : Playing script s begin done)
    (hIo : label.IsIo)
    (hStep : step script s label = some s') :
    ∃ begin' done', Playing script s' begin' done' := by
  cases label with
  | startScript now => exact absurd hIo not_false
  | stopScript => exact absurd hIo not_false
  | expire =>
      simp only [ScriptRun.step] at hStep
      split at hStep
      · rename_i wait waiting hWaiting
        cases hStep
        exact ⟨begin, done, hPlaying.expire hWaiting⟩
      · cases hStep
  | handle now =>
      simp only [ScriptRun.step] at hStep
      split at hStep
      · rename_i completion ready hReady
        cases hStep
        have hSuccess : completion.success = true := by
          apply hPlaying.success
          rw [hReady]
          exact List.mem_cons_self
        simp only [runHandler, hSuccess, if_true]
        cases hHandler : completion.wait.handler with
        | handleTimer id =>
            exact ⟨begin, _,
              hPlaying.handleTimer hReady hHandler⟩
        | restartScript =>
            exact ⟨now, [],
              hPlaying.restartScript hReady hHandler now⟩
      · cases hStep

end ScriptRun

end ModemTester

------------------------------------------------------------
-- The Timers Of A Script
------------------------------------------------------------

namespace ModemTester

namespace Script

@[simp] theorem length_timersAt
    (script : Script)
    (cycle : Nat)
    (begin : Int) :
    (script.timersAt cycle begin).length =
      script.entries.length := by
  simp [timersAt]

theorem cycle_of_mem_timersAt
    {script : Script}
    {cycle : Nat}
    {begin : Int}
    {timer : ScriptTimer}
    (hMem : timer ∈ script.timersAt cycle begin) :
    timer.cycle = cycle := by
  rcases List.mem_map.mp hMem with ⟨entry, -, rfl⟩
  rfl

/- Different offsets give different timers. -/
theorem nodup_timersAt
    (script : Script)
    (cycle : Nat)
    (begin : Int) :
    (script.timersAt cycle begin).Nodup := by
  unfold timersAt List.Nodup
  rw [List.pairwise_map]
  refine script.sorted.imp ?_
  intro entry other hLt hSame
  have hDates := congrArg ScriptTimer.date hSame
  simp only at hDates
  omega

end Script

namespace ScriptRun

/-
  At one moment: no more timers than entries, all of one
  cycle, and none of a later cycle deleted before.
-/
def Tidy
    (script : Script)
    (l : Ledger ScriptTimer) : Prop :=
  l.live.length ≤ script.entries.length ∧
    ∃ cycle, (∀ timer ∈ l.live, timer.cycle = cycle) ∧
      ∀ timer ∈ l.released, timer.cycle ≤ cycle

/- The timers of the run are those its history leaves. -/
structure Booked
    (script : Script)
    (s : ScriptRun)
    (released : List ScriptTimer) : Prop where
  account : Ledger.account s.history =
    some ⟨s.timers, released⟩
  cycle_live : ∀ timer ∈ s.timers, timer.cycle = s.starts
  cycle_released : ∀ timer ∈ released, timer.cycle < s.starts
  length_le : s.timers.length ≤ script.entries.length
  tidy : StepSystem.Throughout Ledger.apply (Tidy script)
    Ledger.empty s.history

theorem booked_initial (script : Script) :
    Booked script initial [] := by
  constructor
  · rfl
  · simp [initial]
  · simp
  · simp [initial]
  · exact ⟨by simp [Ledger.empty], 0, by simp [Ledger.empty],
      by simp [Ledger.empty]⟩

/- While the old timers are deleted. -/
theorem Booked.tidy_release
    {script : Script}
    {s : ScriptRun}
    {released front back : List ScriptTimer}
    (hBooked : Booked script s released)
    (hSplit : s.timers = front ++ back) :
    Tidy script ⟨back, released ++ front⟩ := by
  have hLength := hBooked.length_le
  have hCycle := hBooked.cycle_live
  rw [hSplit] at hLength hCycle
  rw [List.length_append] at hLength
  refine ⟨by simp only; omega, s.starts, ?_, ?_⟩
  · intro timer hMem
    exact hCycle timer (List.mem_append_right _ hMem)
  · intro timer hMem
    rcases List.mem_append.mp hMem with hOld | hFront
    · exact Nat.le_of_lt (hBooked.cycle_released timer hOld)
    · exact Nat.le_of_eq
        (hCycle timer (List.mem_append_left _ hFront))

/- All that was released before the new timers is older. -/
theorem Booked.cycle_le
    {script : Script}
    {s : ScriptRun}
    {released : List ScriptTimer}
    {timer : ScriptTimer}
    (hBooked : Booked script s released)
    (hMem : timer ∈ released ++ s.timers) :
    timer.cycle ≤ s.starts := by
  rcases List.mem_append.mp hMem with hOld | hTimer
  · exact Nat.le_of_lt (hBooked.cycle_released timer hOld)
  · exact Nat.le_of_eq (hBooked.cycle_live timer hTimer)

/- While the new timers are created. -/
theorem Booked.tidy_acquire
    {script : Script}
    {s : ScriptRun}
    {released front back : List ScriptTimer}
    {begin : Int}
    (hBooked : Booked script s released)
    (hSplit : script.timersAt (s.starts + 1) begin =
      front ++ back) :
    Tidy script ⟨[] ++ front, released ++ s.timers⟩ := by
  have hLength := congrArg List.length hSplit
  rw [Script.length_timersAt, List.length_append] at hLength
  refine ⟨?_, s.starts + 1, ?_, ?_⟩
  · simp only [List.nil_append]
    omega
  · intro timer hMem
    have hTimer : timer ∈
        script.timersAt (s.starts + 1) begin := by
      rw [hSplit]
      exact List.mem_append_left _ hMem
    exact Script.cycle_of_mem_timersAt hTimer
  · intro timer hMem
    exact Nat.le_succ_of_le (hBooked.cycle_le hMem)

/- A start keeps the books. -/
theorem Booked.startScript
    {script : Script}
    {s : ScriptRun}
    {released : List ScriptTimer}
    (hBooked : Booked script s released)
    (hWaits : s.WaitsOnTimers)
    (begin : Int) :
    Booked script (s.startScript script begin)
      (released ++ s.timers) := by
  have hFresh : ∀ timer ∈
      script.timersAt (s.starts + 1) begin,
      timer ∉ ([] : List ScriptTimer) ∧
        timer ∉ released ++ s.timers := by
    intro timer hMem
    refine ⟨List.not_mem_nil, ?_⟩
    intro hOld
    have hCycle := Script.cycle_of_mem_timersAt hMem
    have hLe := hBooked.cycle_le hOld
    omega
  have hRelease := Ledger.throughout_release_all
    (P := Tidy script)
    (fun _ _ hSplit => hBooked.tidy_release hSplit)
  have hAcquire := Ledger.throughout_acquire_all
    (P := Tidy script)
    (script.nodup_timersAt _ _) hFresh
    (fun _ _ hSplit => hBooked.tidy_acquire hSplit)
  have hDeleted : Ledger.account
      (s.history ++ ScriptRun.released s.timers) =
        some ⟨[], released ++ s.timers⟩ := by
    rw [Ledger.account_append hBooked.account]
    exact hRelease.1
  rw [startScript_of_waitsOnTimers hWaits]
  constructor
  · rw [Ledger.account_append hDeleted]
    exact hAcquire.1
  · intro timer hMem
    exact Script.cycle_of_mem_timersAt hMem
  · intro timer hMem
    exact Nat.lt_succ_of_le (hBooked.cycle_le hMem)
  · simp
  · rw [StepSystem.throughout_append hDeleted,
      StepSystem.throughout_append hBooked.account]
    exact ⟨⟨hBooked.tidy, hRelease.2⟩, hAcquire.2⟩

/- Handlers and expirations keep the books as well. -/
theorem Booked.step
    {script : Script}
    {s s' : ScriptRun}
    {released : List ScriptTimer}
    {label : ScriptLabel}
    (hBooked : Booked script s released)
    (hWaits : s.WaitsOnTimers)
    (hIo : label.IsIo)
    (hStep : step script s label = some s') :
    ∃ released', Booked script s' released' := by
  cases label with
  | startScript now => exact absurd hIo not_false
  | stopScript => exact absurd hIo not_false
  | expire =>
      simp only [ScriptRun.step] at hStep
      split at hStep
      · cases hStep
        exact ⟨released, hBooked.account, hBooked.cycle_live,
          hBooked.cycle_released, hBooked.length_le,
          hBooked.tidy⟩
      · cases hStep
  | handle now =>
      simp only [ScriptRun.step] at hStep
      split at hStep
      · rename_i completion ready hReady
        cases hStep
        unfold runHandler
        split
        · split
          · exact ⟨released, hBooked.account,
              hBooked.cycle_live, hBooked.cycle_released,
              hBooked.length_le, hBooked.tidy⟩
          · have hHanded : Booked script
                { s with
                  ready := ready
                  restarts := s.restarts + 1 } released :=
              ⟨hBooked.account, hBooked.cycle_live,
                hBooked.cycle_released, hBooked.length_le,
                hBooked.tidy⟩
            exact ⟨_, hHanded.startScript hWaits now⟩
        · exact ⟨released, hBooked.account,
            hBooked.cycle_live, hBooked.cycle_released,
            hBooked.length_le, hBooked.tidy⟩
      · cases hStep

/- The same, told of every part of the history. -/
theorem Booked.at_every_moment
    {script : Script}
    {s : ScriptRun}
    {released : List ScriptTimer}
    {ops : List (LedgerOp ScriptTimer)}
    (hBooked : Booked script s released)
    (hPrefix : ops <+: s.history) :
    ∃ l cycle, Ledger.account ops = some l ∧
      l.live.length ≤ script.entries.length ∧
      (∀ timer ∈ l.live, timer.cycle = cycle) ∧
      ∀ timer, .acquire timer ∈ ops →
        timer.cycle ≤ cycle ∧
          (timer ∉ l.live →
            ops.count (.release timer) = 1) := by
  rcases hPrefix with ⟨more, hHistory⟩
  have hAccount := hBooked.account
  have hTidy := hBooked.tidy
  rw [← hHistory] at hAccount hTidy
  rcases StepSystem.exists_of_throughout_append hAccount hTidy
    with ⟨l, hFront, hLength, cycle, hLive, hReleased⟩
  have hAgrees := Ledger.agrees_of_account hFront
  refine ⟨l, cycle, hFront, hLength, hLive, ?_⟩
  intro timer hAcquired
  refine ⟨?_, hAgrees.count_release_of_not_live hAcquired⟩
  rcases (hAgrees.acquired timer).mp hAcquired with hIn | hIn
  · exact Nat.le_of_eq (hLive timer hIn)
  · exact hReleased timer hIn

end ScriptRun

end ModemTester

------------------------------------------------------------
-- The Law
------------------------------------------------------------

namespace ModemTester

namespace Script

theorem flatMap_toList_of_map_eq
    {entries : List (Int × EventId)}
    {events : List Event}
    (hEvents : entries.map (fun entry =>
      dispatchEventFromId entry.2) = events.map some) :
    entries.flatMap (fun entry =>
      (dispatchEventFromId entry.2).toList) = events := by
  have hMapped := congrArg (List.flatMap Option.toList) hEvents
  rw [List.flatMap_map, List.flatMap_map] at hMapped
  rw [hMapped]
  simp

variable {script : Script}
variable {events : List Event}

theorem cycleEvents_of_not_cyclic
    (hEvents : script.entries.map (fun entry =>
      dispatchEventFromId entry.2) = events.map some)
    (hCyclic : script.cyclic = false) :
    script.cycleEvents = events := by
  simp only [cycleEvents, playedEntries, hCyclic]
  exact flatMap_toList_of_map_eq hEvents

theorem cycleEvents_of_cyclic
    (hEvents : script.entries.map (fun entry =>
      dispatchEventFromId entry.2) = events.map some)
    (hCyclic : script.cyclic = true) :
    script.cycleEvents = events.dropLast := by
  simp only [cycleEvents, playedEntries, hCyclic, if_true]
  apply flatMap_toList_of_map_eq
  rw [List.map_dropLast, hEvents, List.map_dropLast]

end Script

namespace ScriptRun

open StepSystem

variable {script : Script}
variable {s s' : ScriptRun}
variable {begin : Int}
variable {done : List ScriptWait}

/- What the timers of a cycle have still to do. -/
def work (s : ScriptRun) : Nat :=
  2 * s.waiting.length + s.ready.length

/- A script that is not cyclic gets on with every step. -/
theorem Playing.work_step
    {label : ScriptLabel}
    (hPlaying : Playing script s begin done)
    (hCyclic : script.cyclic = false)
    (hIo : label.IsIo)
    (hStep : ScriptRun.step script s label = some s') :
    s'.work + 1 = s.work := by
  cases label with
  | startScript now => exact absurd hIo not_false
  | stopScript => exact absurd hIo not_false
  | expire =>
      simp only [ScriptRun.step] at hStep
      split at hStep
      · rename_i wait waiting hWaiting
        cases hStep
        simp only [work, hWaiting, List.length_cons,
          List.length_append, List.length_nil]
        omega
      · cases hStep
  | handle now =>
      simp only [ScriptRun.step] at hStep
      split at hStep
      · rename_i completion ready hReady
        cases hStep
        have hSuccess : completion.success = true := by
          apply hPlaying.success
          rw [hReady]
          exact List.mem_cons_self
        have hPending := hPlaying.pending
        rw [ScriptRun.pending, hReady] at hPending
        simp only [runHandler, hSuccess, if_true]
        split
        · simp only [work, hReady, List.length_cons]
          omega
        · rename_i hRestart
          have hOther := Script.rest_of_restart hPending hRestart
          rw [hCyclic] at hOther
          exact absurd hOther.1 Bool.false_ne_true
      · cases hStep

/- Where no io step is possible, all has been handled. -/
theorem pending_of_quiet
    (hQuiet : ∀ label : ScriptLabel, label.IsIo →
      step script s label = none) :
    s.pending = [] := by
  have hExpire := hQuiet .expire trivial
  have hHandle := hQuiet (.handle 0) trivial
  simp only [step] at hExpire hHandle
  split at hExpire
  · cases hExpire
  · rename_i hWaiting
    split at hHandle
    · cases hHandle
    · rename_i hReady
      simp [pending, hWaiting, hReady]

/- Where something is pending, an io step is possible. -/
theorem exists_step_of_pending
    (hPending : s.pending ≠ []) :
    ∃ label : ScriptLabel, label.IsIo ∧
      (step script s label).isSome := by
  cases hWaiting : s.waiting with
  | cons wait waiting =>
      exact ⟨.expire, trivial, by simp [step, hWaiting]⟩
  | nil =>
      cases hReady : s.ready with
      | cons completion ready =>
          exact ⟨.handle 0, trivial, by simp [step, hReady]⟩
      | nil =>
          exact absurd (by simp [pending, hWaiting, hReady])
            hPending

/- What is dispatched is a part of the cycle at most. -/
theorem Playing.prefix_cycleEvents
    (hPlaying : Playing script s begin done) :
    done.flatMap ScriptWait.events <+: script.cycleEvents := by
  rw [← script.flatMap_waitsAt s.starts begin,
    ← hPlaying.pending, List.flatMap_append]
  exact List.prefix_append _ _

/- Everything that a run from a first start keeps. -/
theorem playing_and_booked_of_run
    {labels : List ScriptLabel}
    (hIo : ∀ label ∈ labels, label.IsIo)
    (hRun : run (step script)
      (startScript script begin initial) labels = some s) :
    (∃ begin' done, Playing script s begin' done) ∧
      ∃ released, Booked script s released := by
  refine run_invariant_along
    (I := fun s =>
      (∃ begin' done, Playing script s begin' done) ∧
        ∃ released, Booked script s released)
    ?_ ⟨?_, ?_⟩ (along_of_forall hIo) hRun
  · rintro s label s' ⟨⟨_, _, hPlaying⟩, _, hBooked⟩ hLabel
      hStep
    exact ⟨hPlaying.step hLabel hStep,
      hBooked.step hPlaying.waitsOnTimers hLabel hStep⟩
  · exact ⟨begin, [], playing_startScript rfl rfl rfl
      (fun _ => rfl) rfl begin⟩
  · exact ⟨_, (booked_initial script).startScript
      (by simp [WaitsOnTimers, initial]) begin⟩

/- The steps made and the work left are the work begun. -/
theorem length_add_work_of_run
    {labels : List ScriptLabel}
    (hPlaying : Playing script s begin done)
    (hCyclic : script.cyclic = false)
    (hIo : ∀ label ∈ labels, label.IsIo)
    (hRun : run (step script) s labels = some s') :
    labels.length + s'.work = s.work := by
  induction labels generalizing s begin done with
  | nil =>
      simp only [run_nil, Option.some.injEq] at hRun
      simp [hRun]
  | cons label labels ih =>
      rcases exists_step_of_run_cons hRun with
        ⟨s₁, hStep, hRest⟩
      have hLabel := hIo label List.mem_cons_self
      have hWork := hPlaying.work_step hCyclic hLabel hStep
      rcases hPlaying.step hLabel hStep with
        ⟨begin', done', hPlaying'⟩
      have hLength := ih hPlaying'
        (fun other hMem =>
          hIo other (List.mem_cons_of_mem _ hMem)) hRest
      rw [List.length_cons]
      omega

/-
  The script law. A script that is started, and that nobody
  starts or stops from outside, dispatches its events in
  their order: each once if it is not cyclic, and all but
  the last over and over again if it is. Its timers are at
  any moment those of one cycle, no more than its entries,
  and those of earlier cycles have been deleted once.
-/
theorem script_law
    {events : List Event}
    {labels : List ScriptLabel}
    (hEvents : script.entries.map (fun entry =>
      dispatchEventFromId entry.2) = events.map some)
    (hNonempty : script.entries ≠ [])
    (hIo : ∀ label ∈ labels, label.IsIo)
    (hRun : run (step script)
      (startScript script begin initial) labels = some s) :
    (script.cyclic = false →
      s.dispatched <+: events ∧
        labels.length ≤ 2 * script.entries.length ∧
        ((∀ label : ScriptLabel, label.IsIo →
          step script s label = none) →
            s.dispatched = events)) ∧
    (script.cyclic = true →
      (∃ part, part <+: events.dropLast ∧
        s.dispatched =
          (List.replicate s.restarts events.dropLast).flatten ++
            part) ∧
        ∃ label : ScriptLabel, label.IsIo ∧
          (step script s label).isSome) ∧
    ∀ ops, ops <+: s.history →
      ∃ l cycle, Ledger.account ops = some l ∧
        l.live.length ≤ script.entries.length ∧
        (∀ timer ∈ l.live, timer.cycle = cycle) ∧
        ∀ timer, .acquire timer ∈ ops →
          timer.cycle ≤ cycle ∧
            (timer ∉ l.live →
              ops.count (.release timer) = 1) := by
  rcases playing_and_booked_of_run hIo hRun with
    ⟨⟨_, done, hPlaying⟩, _, hBooked⟩
  have hPart := hPlaying.prefix_cycleEvents
  have hDispatched := hPlaying.dispatched
  refine ⟨?_, ?_, ?_⟩
  · intro hCyclic
    rw [Script.cycleEvents_of_not_cyclic hEvents hCyclic]
      at hPart hDispatched
    rw [hPlaying.once hCyclic] at hDispatched
    simp only [List.replicate_zero, List.flatten_nil,
      List.nil_append] at hDispatched
    refine ⟨by rwa [hDispatched], ?_, ?_⟩
    · have hStarted : Playing script
          (startScript script begin initial) begin [] :=
        playing_startScript rfl rfl rfl (fun _ => rfl) rfl _
      have hWork :=
        length_add_work_of_run hStarted hCyclic hIo hRun
      rw [startScript_of_waitsOnTimers
        (by simp [WaitsOnTimers, initial])] at hWork
      simp [work, initial, Script.waitsAt] at hWork
      omega
    · intro hQuiet
      have hPending := hPlaying.pending
      rw [pending_of_quiet hQuiet, List.append_nil] at hPending
      rw [hDispatched, hPending, Script.flatMap_waitsAt,
        Script.cycleEvents_of_not_cyclic hEvents hCyclic]
  · intro hCyclic
    rw [Script.cycleEvents_of_cyclic hEvents hCyclic]
      at hPart hDispatched
    exact ⟨⟨_, hPart, hDispatched⟩, exists_step_of_pending
      (hPlaying.goesOn hCyclic hNonempty)⟩
  · intro ops hPrefix
    exact hBooked.at_every_moment hPrefix

/- The cyclic script of `testMasterFSM`, in seconds. -/
def testScript : Script where
  entries :=
    [(1, .event .availabilityModeCommand),
      (21, .event .endModeCommand),
      (23, .event .throughputModeCommand),
      (28, .event .endModeCommand),
      (30, .event .endTest)]
  sorted := by decide
  cyclic := true

/- One cycle of it, a restart, and the next first event. -/
theorem script_law_of_testScript :
    ∃ s, run (step testScript)
        (startScript testScript 0 initial)
        [.expire, .handle 1, .expire, .expire, .handle 23,
          .handle 23, .expire, .handle 28, .expire, .handle 30,
          .expire, .handle 31] = some s ∧
      ∃ part, part <+: [Event.availabilityModeCommand,
          .endModeCommand, .throughputModeCommand,
          .endModeCommand] ∧
        s.dispatched =
          (List.replicate s.restarts
            [Event.availabilityModeCommand, .endModeCommand,
              .throughputModeCommand,
              .endModeCommand]).flatten ++ part := by
  have hEvents : testScript.entries.map (fun entry =>
      dispatchEventFromId entry.2) =
        [Event.availabilityModeCommand, .endModeCommand,
          .throughputModeCommand, .endModeCommand,
          .endTest].map some := rfl
  have hRun : run (step testScript)
      (startScript testScript 0 initial)
      [.expire, .handle 1, .expire, .expire, .handle 23,
        .handle 23, .expire, .handle 28, .expire, .handle 30,
        .expire, .handle 31] = some _ := rfl
  have hLaw := script_law hEvents (by decide) (by decide) hRun
  exact ⟨_, rfl, (hLaw.2.1 rfl).1⟩

end ScriptRun

end ModemTester
