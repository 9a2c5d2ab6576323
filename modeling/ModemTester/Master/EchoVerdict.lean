import ModemTester.Master.EchoAccounting
import ModemTester.Master.PingerCheck

/-
  What the availability test concludes from its books.

  In timely runs every transmission up to the last one
  echoed is in the books, as received or as lost, so that
  the reachability check compares the number of those after
  it with its threshold. The check reads one counter after
  the other; an echo handled in between makes it see a
  number between the two. The sum of round-trip times is the
  sum of the delays of the echoes, so the average that is
  reported lies between the least and the greatest of them.

  Key definitions include:
    * `EchoLink.unanswered`
    * `EchoLink.Tallied`
    * `EchoLink.DelayWithin`

  Main declarations:
    * `EchoLink.tallied_of_run`
    * `EchoLink.Checking.reachable_of_check`
    * `EchoLink.rtt_of_run`
    * `PingerLoop.unreachable_of_unanswered`
-/

------------------------------------------------------------
-- Books Without Gaps
------------------------------------------------------------

namespace ModemTester

namespace EchoLink

/- The transmissions after the last one echoed. -/
def unanswered (s : EchoLink) : Nat :=
  s.written - s.next

/- A transmission written but not counted in `_sent`. -/
def uncounted : LoopPoint → Nat
  | .written => 1
  | _ => 0

/-
  Everything up to the last transmission echoed is booked,
  and each transmission is echoed, lost or on the link.
-/
structure Tallied (s : EchoLink) : Prop where
  consistent : Consistent s
  sent_eq : s.written =
    s.loop.pinger.sent + uncounted s.loop.point
  next_eq : s.delivered.length +
      (s.dropped.filter fun number => number < s.next).card =
    s.next
  written_eq : s.delivered.length + s.dropped.card +
    s.inFlight.length = s.written

theorem tallied_start : Tallied start where
  consistent := consistent_start
  sent_eq := rfl
  next_eq := rfl
  written_eq := rfl

theorem Tallied.booked
    {s : EchoLink}
    (hTallied : Tallied s) :
    s.loop.pinger.received + s.loop.pinger.lost =
      s.next := by
  have hBooks := hTallied.consistent.books
  rw [hBooks.received_eq, hBooks.lost_eq]
  exact hTallied.next_eq

/- The loop counts a transmission once it has written it. -/
theorem sent_eq_afterLoop
    {s : EchoLink}
    {label : PingerLabel}
    {loop : PingerLoop}
    (hSent : s.written =
      s.loop.pinger.sent + uncounted s.loop.point)
    (hReceive : ∀ ec now bytes,
      label ≠ .receive ec now bytes)
    (hStep : s.loop.step label = some loop) :
    (s.afterLoop label loop).written =
      loop.pinger.sent + uncounted loop.point := by
  cases label with
  | write =>
      simp only [PingerLoop.step] at hStep
      split at hStep
      · rename_i hPoint
        cases hStep
        simpa [afterLoop, uncounted, hPoint.1] using hSent
      · cases hStep
  | countSent =>
      simp only [PingerLoop.step] at hStep
      split at hStep
      · rename_i hPoint
        cases hStep
        simpa [afterLoop, uncounted, hPoint] using hSent
      · cases hStep
  | record now | advance | readReceived | readLost =>
      simp only [PingerLoop.step] at hStep
      split at hStep
      · rename_i hPoint
        cases hStep
        simpa [afterLoop, uncounted, hPoint] using hSent
      · cases hStep
  | check =>
      simp only [PingerLoop.step] at hStep
      split at hStep
      · rename_i received hPoint
        cases hStep
        simpa [afterLoop, uncounted, hPoint,
          PingerLoop.setReachable] using hSent
      · rename_i lost hPoint
        cases hStep
        simpa [afterLoop, uncounted, hPoint,
          PingerLoop.setReachable] using hSent
      · cases hStep
  | receive ec now bytes => exact absurd rfl (hReceive ec now bytes)
  | requestStop =>
      cases hStep
      exact hSent

theorem dropped_afterLoop
    (s : EchoLink)
    (label : PingerLabel)
    (loop : PingerLoop) :
    (s.afterLoop label loop).dropped = s.dropped ∧
      (s.afterLoop label loop).delivered = s.delivered := by
  cases label <;> exact ⟨rfl, rfl⟩

/- Only a write puts something on the link. -/
theorem length_inFlight_afterLoop
    (s : EchoLink)
    (label : PingerLabel)
    (loop : PingerLoop) :
    (s.afterLoop label loop).inFlight.length + s.written =
      s.inFlight.length +
        (s.afterLoop label loop).written := by
  cases label with
  | write =>
      simp only [afterLoop, List.length_append,
        List.length_singleton]
      omega
  | countSent | record | advance | readReceived | readLost
  | check | receive | requestStop => rfl

theorem loop_afterLoop
    (s : EchoLink)
    (label : PingerLabel)
    (loop : PingerLoop) :
    (s.afterLoop label loop).loop = loop := by
  cases label <;> rfl

/- A step of the loop alone. -/
theorem exists_loop_of_step
    {s s' : EchoLink}
    {label : PingerLabel}
    (hStep : step s (.loop label) = some s') :
    ∃ loop, (∀ ec now bytes, label ≠ .receive ec now bytes) ∧
      s.loop.step label = some loop ∧
      s' = s.afterLoop label loop := by
  have hReceive : ∀ ec now bytes,
      label ≠ .receive ec now bytes := by
    rintro ec now bytes rfl
    simp [step] at hStep
  have hLoop : (s.loop.step label).map (s.afterLoop label) =
      some s' := by
    cases label <;> first
      | exact hStep
      | exact absurd rfl (hReceive _ _ _)
  rcases Option.map_eq_some_iff.mp hLoop with
    ⟨loop, hTaken, hSame⟩
  exact ⟨loop, hReceive, hTaken, hSame.symm⟩

/- What the steps of the loop leave in the books. -/
theorem Tallied.loop
    {s s' : EchoLink}
    {label : PingerLabel}
    (hTallied : Tallied s)
    (hWindow : s.Window)
    (hStep : step s (.loop label) = some s') :
    Tallied s' := by
  have hConsistent :=
    consistent_loop hTallied.consistent hWindow hStep
  rcases exists_loop_of_step hStep with
    ⟨loop, hReceive, hTaken, rfl⟩
  rcases dropped_afterLoop s label loop with
    ⟨hDropped, hDelivered⟩
  refine ⟨hConsistent, ?_, ?_, ?_⟩
  · rw [loop_afterLoop]
    exact sent_eq_afterLoop hTallied.sent_eq hReceive hTaken
  · rw [hDropped, hDelivered, next_afterLoop]
    exact hTallied.next_eq
  · have hLine := hTallied.written_eq
    have hLength := length_inFlight_afterLoop s label loop
    rw [hDropped, hDelivered]
    omega

/- A loss is of a transmission that is not superseded. -/
theorem Tallied.drop
    {s s' : EchoLink}
    {index : Nat}
    (hTallied : Tallied s)
    (hStep : step s (.drop index) = some s') :
    Tallied s' := by
  have hConsistent :=
    consistent_drop hTallied.consistent hStep
  have hBooks := hConsistent.books.lost_eq
  have hOld := hTallied.consistent.books.lost_eq
  simp only [step] at hStep
  split at hStep
  · cases hStep
  · rename_i transmission hIndex
    cases hStep
    refine ⟨hConsistent, hTallied.sent_eq, ?_, ?_⟩
    · have hNext := hTallied.next_eq
      rw [← hOld] at hNext
      rw [← hBooks]
      exact hNext
    · have hLine := hTallied.written_eq
      have hUndropped :=
        hTallied.consistent.ordered.flying_dropped transmission
          (List.mem_of_getElem? hIndex)
      rcases List.getElem?_eq_some_iff.mp hIndex with
        ⟨hBound, -⟩
      simp only [Finset.card_insert_of_notMem hUndropped,
        List.length_eraseIdx_of_lt hBound]
      omega

/- An echo books what was lost before its transmission. -/
theorem Tallied.echo
    {s s' : EchoLink}
    {now : Int}
    (hTallied : Tallied s)
    (hWindow : s.Window)
    (hTimely : s.Timely (.echo now))
    (hStep : step s (.echo now) = some s') :
    Tallied s' := by
  have hConsistent := consistent_echo hTallied.consistent
    hWindow hTimely hStep
  have hOrdered := hTallied.consistent.ordered
  rcases eq_afterEcho_of_step hStep with
    ⟨transmission, rest, hFlight, rfl⟩
  have hLength :
      (s.afterEcho now transmission rest).delivered.length =
        s.delivered.length + 1 := by
    simp [afterEcho]
  refine ⟨hConsistent, ?_, ?_, ?_⟩
  · have hSent : (s.afterEcho now transmission
        rest).loop.pinger.sent = s.loop.pinger.sent :=
      MasterPinger.handleReceive_sent _ _ _ _
    rw [hSent]
    exact hTallied.sent_eq
  · have hLow : s.next ≤ transmission.1 :=
      (hOrdered.flying transmission
        (by rw [hFlight]; exact List.mem_cons_self)).2.1
    have hBefore := card_dropped_before hOrdered hFlight
    have hNext := hTallied.next_eq
    have hDropped :
        ((s.afterEcho now transmission rest).dropped.filter
          fun number => number <
            (s.afterEcho now transmission rest).next).card =
        (s.dropped.filter
          fun number => number < transmission.1).card := by
      rw [dropped_afterEcho now hOrdered hFlight]
      rfl
    rw [hLength, hDropped, hBefore, next_afterEcho]
    omega
  · have hLine := hTallied.written_eq
    rw [hFlight, List.length_cons] at hLine
    rw [hLength]
    simp only [afterEcho]
    omega

theorem Tallied.step
    {s s' : EchoLink}
    {label : EchoLabel}
    (hTallied : Tallied s)
    (hWindow : s.Window)
    (hTimely : s.Timely label)
    (hStep : EchoLink.step s label = some s') :
    Tallied s' := by
  cases label with
  | loop label => exact hTallied.loop hWindow hStep
  | drop index => exact hTallied.drop hStep
  | echo now => exact hTallied.echo hWindow hTimely hStep

/- In every timely run within the window. -/
theorem tallied_of_run
    {labels : List EchoLabel}
    {s : EchoLink}
    (hWindow : StepSystem.Throughout EchoLink.step Window
      start labels)
    (hTimely : StepSystem.Along EchoLink.step Timely
      start labels)
    (hRun : StepSystem.run EchoLink.step start labels =
      some s) :
    Tallied s :=
  StepSystem.run_invariant_along (I := Tallied)
    (fun _ _ _ hTallied hOk hStep =>
      hTallied.step hOk.1 hOk.2 hStep)
    tallied_start
    (StepSystem.along_and_of_throughout hWindow hTimely) hRun

/-
  What has been received and what was lost, counted or not,
  makes up for all that is no longer on the link.
-/
theorem Tallied.conserved
    {s : EchoLink}
    (hTallied : Tallied s) :
    s.loop.pinger.received + s.dropped.card +
        s.inFlight.length = s.written ∧
      s.loop.pinger.received + s.loop.pinger.lost +
        s.unanswered = s.written := by
  have hBooked := hTallied.booked
  have hNext := hTallied.consistent.ordered.next_le
  have hWritten := hTallied.consistent.synced.written_eq
  constructor
  · rw [hTallied.consistent.books.received_eq]
    exact hTallied.written_eq
  · rw [hBooked, unanswered]
    omega

end EchoLink

end ModemTester

------------------------------------------------------------
-- The Check
------------------------------------------------------------

namespace ModemTester

namespace EchoLink

/- What may happen between the two readings of a check. -/
def InsideCheck : EchoLabel → Prop
  | .loop label => label = .requestStop
  | .drop _ => True
  | .echo _ => True

instance : DecidablePred InsideCheck
  | .loop label =>
      inferInstanceAs (Decidable (label = .requestStop))
  | .drop _ => .isTrue trivial
  | .echo _ => .isTrue trivial

/- The check has read one counter, which only grew since. -/
structure Checking (before s : EchoLink) : Prop where
  tallied : Tallied s
  written_eq : s.written = before.written
  received_le : before.loop.pinger.received ≤
    s.loop.pinger.received
  lost_le : before.loop.pinger.lost ≤ s.loop.pinger.lost
  point_eq :
    s.loop.point =
        .readReceived before.loop.pinger.received ∨
      s.loop.point = .readLost before.loop.pinger.lost

theorem Checking.step
    {before s s' : EchoLink}
    {label : EchoLabel}
    (hChecking : Checking before s)
    (hWindow : s.Window)
    (hTimely : s.Timely label)
    (hInside : InsideCheck label)
    (hStep : EchoLink.step s label = some s') :
    Checking before s' := by
  have hTallied := hChecking.tallied.step hWindow hTimely hStep
  cases label with
  | loop label =>
      obtain rfl : label = .requestStop := hInside
      simp only [EchoLink.step, PingerLoop.step,
        Option.map_some, Option.some.injEq] at hStep
      subst hStep
      exact ⟨hTallied, hChecking.written_eq,
        hChecking.received_le, hChecking.lost_le,
        hChecking.point_eq⟩
  | drop index =>
      simp only [EchoLink.step] at hStep
      split at hStep
      · cases hStep
      · cases hStep
        exact ⟨hTallied, hChecking.written_eq,
          hChecking.received_le, hChecking.lost_le,
          hChecking.point_eq⟩
  | echo now =>
      rcases eq_afterEcho_of_step hStep with
        ⟨transmission, rest, -, rfl⟩
      have hFrom : MasterPinger.CountersFrom s.loop.pinger
          (s.echoed now transmission.2) :=
        MasterPinger.countersFrom_handleReceive _ _ _ _
      exact ⟨hTallied, hChecking.written_eq,
        hChecking.received_le.trans hFrom.1,
        hChecking.lost_le.trans hFrom.2, hChecking.point_eq⟩

/-
  What the check computes lies between the numbers of
  unanswered transmissions at its two readings.
-/
theorem Checking.reachable_of_check
    {before s s' : EchoLink}
    (hBefore : Tallied before)
    (hChecking : Checking before s)
    (hSent : s.written < ulongModulus)
    (hStep : EchoLink.step s (.loop .check) = some s') :
    (before.unanswered ≤ availThreshold →
        s'.loop.pinger.reachable = true) ∧
      (s'.loop.pinger.reachable = true →
        s.unanswered ≤ availThreshold) := by
  have hOld := hBefore.booked
  have hNow := hChecking.tallied.booked
  have hCount := hChecking.tallied.sent_eq
  have hReceived := hChecking.received_le
  have hLost := hChecking.lost_le
  have hWritten := hChecking.written_eq
  have hNext := hChecking.tallied.consistent.ordered.next_le
  have hRecorded :=
    hChecking.tallied.consistent.synced.written_eq
  -- the value read first is old, the other one is not
  have hVerdict : ∀ received lost,
      received + lost ≤ s.next →
      before.next ≤ received + lost →
      s.written = s.loop.pinger.sent →
      s'.loop.pinger.reachable = decide
        (MasterPinger.inFlight s.loop.pinger.sent received
          lost ≤ availThreshold) →
      (before.unanswered ≤ availThreshold →
          s'.loop.pinger.reachable = true) ∧
        (s'.loop.pinger.reachable = true →
          s.unanswered ≤ availThreshold) := by
    intro received lost hLe hGe hAll hReachable
    rw [hReachable, decide_eq_true_eq,
      MasterPinger.inFlight_of_le (by omega) (by omega)]
    unfold unanswered
    constructor <;> intro hFew <;> omega
  simp only [EchoLink.step, PingerLoop.step] at hStep
  rcases hChecking.point_eq with hPoint | hPoint
  · simp only [hPoint, uncounted, Nat.add_zero] at hCount
    simp only [hPoint, Option.map_some,
      Option.some.injEq] at hStep
    subst hStep
    exact hVerdict _ s.loop.pinger.lost (by omega) (by omega)
      hCount rfl
  · simp only [hPoint, uncounted, Nat.add_zero] at hCount
    simp only [hPoint, Option.map_some,
      Option.some.injEq] at hStep
    subst hStep
    exact hVerdict s.loop.pinger.received _ (by omega)
      (by omega) hCount rfl

/- The check itself answers nothing. -/
theorem unanswered_of_check
    {s s' : EchoLink}
    (hStep : EchoLink.step s (.loop .check) = some s') :
    s'.unanswered = s.unanswered ∧ s'.written = s.written := by
  simp only [EchoLink.step, Option.map_eq_some_iff] at hStep
  rcases hStep with ⟨loop, -, rfl⟩
  exact ⟨rfl, rfl⟩

/- The check begins with one reading. -/
theorem checking_of_reading
    {before s : EchoLink}
    {label : PingerLabel}
    (hBefore : Tallied before)
    (hWindow : before.Window)
    (hReads : label = .readReceived ∨ label = .readLost)
    (hStep : EchoLink.step before (.loop label) = some s) :
    Checking before s := by
  have hTallied := hBefore.loop hWindow hStep
  rcases hReads with rfl | rfl
  · simp only [EchoLink.step, PingerLoop.step,
      Option.map_eq_some_iff] at hStep
    rcases hStep with ⟨loop, hTaken, rfl⟩
    split at hTaken
    · cases hTaken
      exact ⟨hTallied, rfl, le_rfl, le_rfl, .inl rfl⟩
    · cases hTaken
  · simp only [EchoLink.step, PingerLoop.step,
      Option.map_eq_some_iff] at hStep
    rcases hStep with ⟨loop, hTaken, rfl⟩
    split at hTaken
    · cases hTaken
      exact ⟨hTallied, rfl, le_rfl, le_rfl, .inr rfl⟩
    · cases hTaken

/- Losses and timely echoes inside the check. -/
theorem Checking.run
    {before s s' : EchoLink}
    {labels : List EchoLabel}
    (hChecking : Checking before s)
    (hWindow : StepSystem.Throughout EchoLink.step Window
      s labels)
    (hAlong : StepSystem.Along EchoLink.step
      (fun s label => s.Timely label ∧ InsideCheck label)
      s labels)
    (hRun : StepSystem.run EchoLink.step s labels =
      some s') :
    Checking before s' :=
  StepSystem.run_invariant_along (I := Checking before)
    (fun _ _ _ hChecking hOk hStep =>
      hChecking.step hOk.1 hOk.2.1 hOk.2.2 hStep)
    hChecking
    (StepSystem.along_and_of_throughout hWindow hAlong) hRun

end EchoLink

end ModemTester

------------------------------------------------------------
-- Round-Trip Times
------------------------------------------------------------

namespace ModemTester

namespace EchoLink

/-
  The echo is handled no earlier than `low` and no later
  than `high` after its transmission was recorded.
-/
def DelayWithin
    (low high : Int)
    (s : EchoLink) : EchoLabel → Prop
  | .echo now =>
      ∀ transmission ∈ s.inFlight.head?,
        ∀ sendTime ∈ s.recordTimes[transmission.1]?,
          low ≤ now - sendTime ∧ now - sendTime ≤ high
  | _ => True

instance
    (low high : Int)
    (s : EchoLink) :
    (label : EchoLabel) →
      Decidable (s.DelayWithin low high label)
  | .loop _ => .isTrue trivial
  | .drop _ => .isTrue trivial
  | .echo now =>
      inferInstanceAs (Decidable
        (∀ transmission ∈ s.inFlight.head?,
          ∀ sendTime ∈ s.recordTimes[transmission.1]?,
            low ≤ now - sendTime ∧ now - sendTime ≤ high))

/- The average of the samples lies between the bounds. -/
def RttBetween
    (low high : Int)
    (p : MasterPinger) : Prop :=
  low * p.received ≤ p.rtt ∧ p.rtt ≤ high * p.received

/- Only an echo takes a sample. -/
theorem samples_of_not_echo
    {s s' : EchoLink}
    {label : EchoLabel}
    (hNot : ∀ now, label ≠ .echo now)
    (hStep : step s label = some s') :
    s'.loop.pinger.received = s.loop.pinger.received ∧
      s'.loop.pinger.rtt = s.loop.pinger.rtt := by
  cases label with
  | echo now => exact absurd rfl (hNot now)
  | drop index =>
      simp only [step] at hStep
      split at hStep
      · cases hStep
      · cases hStep
        exact ⟨rfl, rfl⟩
  | loop label =>
      rcases exists_loop_of_step hStep with
        ⟨loop, hReceive, hTaken, rfl⟩
      rcases PingerLoop.counters_of_step hReceive hTaken with
        ⟨hReceived, -, hRtt⟩
      rw [loop_afterLoop]
      exact ⟨hReceived, hRtt⟩

/- A timely echo adds the delay of its transmission. -/
theorem sample_of_echo
    {s s' : EchoLink}
    {now : Int}
    (hConsistent : Consistent s)
    (hWindow : s.Window)
    (hTimely : s.Timely (.echo now))
    (hStep : step s (.echo now) = some s') :
    ∃ transmission ∈ s.inFlight.head?,
      ∃ sendTime ∈ s.recordTimes[transmission.1]?,
        s'.loop.pinger.received =
            s.loop.pinger.received + 1 ∧
          s'.loop.pinger.rtt =
            s.loop.pinger.rtt + (now - sendTime) := by
  have hAccurate :=
    (accurate_echo_iff hConsistent hWindow).mpr hTimely
  rcases eq_afterEcho_of_step hStep with
    ⟨transmission, rest, hFlight, rfl⟩
  simp only [Accurate, hFlight] at hAccurate
  rcases hAccurate with ⟨hReceived, hRtt, -⟩
  have hSample := hRtt.symm
  rw [Option.map_eq_some_iff] at hSample
  rcases hSample with ⟨sendTime, hTime, hSum⟩
  refine ⟨transmission, by rw [hFlight]; rfl, sendTime,
    hTime, ?_, hSum.symm⟩
  rw [hConsistent.books.received_eq]
  exact hReceived

theorem RttBetween.step
    {low high : Int}
    {s s' : EchoLink}
    {label : EchoLabel}
    (hBetween : RttBetween low high s.loop.pinger)
    (hConsistent : Consistent s)
    (hWindow : s.Window)
    (hTimely : s.Timely label)
    (hDelay : s.DelayWithin low high label)
    (hStep : EchoLink.step s label = some s') :
    RttBetween low high s'.loop.pinger := by
  cases label with
  | loop label | drop index =>
      rcases samples_of_not_echo (by simp) hStep with
        ⟨hReceived, hRtt⟩
      rw [RttBetween, hReceived, hRtt]
      exact hBetween
  | echo now =>
      rcases sample_of_echo hConsistent hWindow hTimely
        hStep with
        ⟨transmission, hHead, sendTime, hTime, hReceived,
          hRtt⟩
      have hBounds := hDelay transmission hHead sendTime hTime
      rcases hBetween with ⟨hLow, hHigh⟩
      rw [RttBetween, hReceived, hRtt]
      push_cast
      constructor
      · calc low * ((s.loop.pinger.received : Int) + 1)
            = low * s.loop.pinger.received + low := by
              rw [Int.mul_add, Int.mul_one]
          _ ≤ s.loop.pinger.rtt + (now - sendTime) :=
            add_le_add hLow hBounds.1
      · calc s.loop.pinger.rtt + (now - sendTime)
            ≤ high * s.loop.pinger.received + high :=
            add_le_add hHigh hBounds.2
          _ = high * ((s.loop.pinger.received : Int) + 1) := by
            rw [Int.mul_add, Int.mul_one]

/-
  With delays between the bounds, so is the average that is
  reported.
-/
theorem rtt_of_run
    {low high : Int}
    {labels : List EchoLabel}
    {s : EchoLink}
    (hWindow : StepSystem.Throughout EchoLink.step Window
      start labels)
    (hAlong : StepSystem.Along EchoLink.step
      (fun s label =>
        s.Timely label ∧ s.DelayWithin low high label)
      start labels)
    (hRun : StepSystem.run EchoLink.step start labels =
      some s) :
    RttBetween low high s.loop.pinger := by
  have hBoth : Consistent s ∧
      RttBetween low high s.loop.pinger :=
    StepSystem.run_invariant_along
      (I := fun s => Consistent s ∧
        RttBetween low high s.loop.pinger)
      (fun s label s' hBefore hOk hStep =>
        ⟨consistent_step s label s' hBefore.1 hOk.1
            hOk.2.1 hStep,
          hBefore.2.step hBefore.1 hOk.1 hOk.2.1 hOk.2.2
            hStep⟩)
      ⟨consistent_start, by
        simp [RttBetween, start, PingerLoop.start,
          MasterPinger.initial]⟩
      (StepSystem.along_and_of_throughout hWindow hAlong)
      hRun
  exact hBoth.2

end EchoLink

end ModemTester

------------------------------------------------------------
-- A Dead Line
------------------------------------------------------------

namespace ModemTester

namespace PingerLoop

/-
  Since `before`, and while no counter has moved: once four
  more transmissions are counted, every check that has
  ended since found the remote unreachable.
-/
structure Silent (before l : PingerLoop) : Prop where
  booked_le : before.pinger.received + before.pinger.lost ≤
    before.pinger.sent
  sent_le : before.pinger.sent ≤ l.pinger.sent
  from_before : MasterPinger.CountersFrom before.pinger
    l.pinger
  readings_old : l.ReadingsOld
  verdict : l.pinger.received = before.pinger.received →
    l.pinger.lost = before.pinger.lost →
      l.pinger.sent < ulongModulus →
        before.pinger.sent + 4 ≤ l.pinger.sent →
          l.point = .top → l.pinger.reachable = false

/- A check with four transmissions more than the books. -/
theorem reachable_eq_false
    {sent received lost : Nat}
    (hMany : received + lost + 4 ≤ sent)
    (hSent : sent < ulongModulus) :
    decide (MasterPinger.inFlight sent received lost ≤
      availThreshold) = false := by
  rw [decide_eq_false_iff_not,
    MasterPinger.inFlight_of_le (by omega) hSent,
    availThreshold]
  omega

/- Handlers leave the verdict of the last check alone. -/
theorem handleReceive_reachable
    (p : MasterPinger)
    (ec : Nat)
    (recvTime : Int)
    (bytes : List Byte) :
    (p.handleReceive ec recvTime bytes).1.reachable =
      p.reachable := by
  unfold MasterPinger.handleReceive
  split
  · apply MasterPinger.handleBytes_induction
      (P := fun q => q.reachable = p.reachable)
    · intro q now byte hSame
      rw [← hSame]
      unfold MasterPinger.matchEcho
      split <;> rfl
    · rfl
  · split <;> rfl

theorem Silent.step
    {before l l' : PingerLoop}
    {label : PingerLabel}
    (hSilent : Silent before l)
    (hStep : PingerLoop.step l label = some l') :
    Silent before l' := by
  have hReadings := hSilent.readings_old.step hStep
  have hBooked := hSilent.booked_le
  have hFrom := hSilent.from_before
  cases label with
  | write =>
      simp only [PingerLoop.step] at hStep
      split at hStep
      · cases hStep
        exact ⟨hBooked, hSilent.sent_le, hFrom, hReadings,
          by simp⟩
      · cases hStep
  | countSent =>
      simp only [PingerLoop.step] at hStep
      split at hStep
      · cases hStep
        exact ⟨hBooked, Nat.le_succ_of_le hSilent.sent_le,
          hFrom, hReadings, by simp⟩
      · cases hStep
  | record | advance | readReceived | readLost =>
      simp only [PingerLoop.step] at hStep
      split at hStep
      · cases hStep
        exact ⟨hBooked, hSilent.sent_le, hFrom, hReadings,
          by simp⟩
      · cases hStep
  | check =>
      -- what was read before is at most what is there now
      have hVerdict : ∀ received lost,
          received ≤ l.pinger.received →
          lost ≤ l.pinger.lost →
          l' = l.setReachable received lost →
            Silent before l' := by
        rintro received lost hReceived hLost rfl
        refine ⟨hBooked, hSilent.sent_le, hFrom, hReadings, ?_⟩
        intro hSame hSameLost hSent hMany _
        simp only [setReachable] at hSame hSameLost hSent hMany
        exact reachable_eq_false (by omega) hSent
      have hOld := hSilent.readings_old
      simp only [ReadingsOld, readings] at hOld
      simp only [PingerLoop.step] at hStep
      split at hStep
      · rename_i received hPoint
        cases hStep
        rw [hPoint] at hOld
        have hRead := hOld received l.pinger.lost rfl
        exact hVerdict received l.pinger.lost hRead.1 le_rfl rfl
      · rename_i lost hPoint
        cases hStep
        rw [hPoint] at hOld
        have hRead := hOld l.pinger.received lost rfl
        exact hVerdict l.pinger.received lost le_rfl hRead.2 rfl
      · cases hStep
  | receive ec now bytes =>
      cases hStep
      have hMoved := MasterPinger.countersFrom_handleReceive
        l.pinger ec now bytes
      have hSent := MasterPinger.handleReceive_sent l.pinger
        ec now bytes
      refine ⟨hBooked, ?_, ⟨hFrom.1.trans hMoved.1,
        hFrom.2.trans hMoved.2⟩, hReadings, ?_⟩
      · rw [hSent]
        exact hSilent.sent_le
      · intro hSame hSameLost hFew hMany hTop
        rw [handleReceive_reachable]
        rw [hSent] at hFew hMany
        -- counters that are back were never away
        exact hSilent.verdict
          (le_antisymm (hMoved.1.trans hSame.le) hFrom.1)
          (le_antisymm (hMoved.2.trans hSameLost.le) hFrom.2)
          hFew hMany hTop
  | requestStop =>
      cases hStep
      exact ⟨hBooked, hSilent.sent_le, hFrom, hReadings,
        hSilent.verdict⟩

/-
  From any state that the loop reaches: once four more
  transmissions were counted and nothing was received or
  found lost, the next check and all after it find the
  remote unreachable, whatever bytes arrive.
-/
theorem unreachable_of_unanswered
    {labels labels' : List PingerLabel}
    {l l' : PingerLoop}
    (hBefore : StepSystem.run step start labels = some l)
    (hRun : StepSystem.run step l labels' = some l')
    (hReceived : l'.pinger.received = l.pinger.received)
    (hLost : l'.pinger.lost = l.pinger.lost)
    (hMany : l.pinger.sent + 4 ≤ l'.pinger.sent)
    (hSent : l'.pinger.sent < ulongModulus)
    (hTop : l'.point = .top) :
    l'.pinger.reachable = false := by
  have hOld : l.ReadingsOld :=
    StepSystem.run_invariant
      (fun _ _ _ hOld hStep => hOld.step hStep)
      (readingsOld_of_none rfl) hBefore
  have hBooked : l.pinger.received + l.pinger.lost ≤
      l.pinger.sent := by
    have hBooks := booked_le_sent hBefore
    simp only [MasterPinger.booked] at hBooks
    omega
  have hStart : Silent l l :=
    ⟨hBooked, le_rfl, ⟨le_rfl, le_rfl⟩, hOld, by
      intro _ _ _ hFour
      omega⟩
  have hSilent : Silent l l' :=
    StepSystem.run_invariant
      (fun _ _ _ hSilent hStep => hSilent.step hStep)
      hStart hRun
  exact hSilent.verdict hReceived hLost hSent hMany hTop

/-
  Four transmissions without an echo, after one that was
  echoed; a byte that is no echo arrives between them.
-/
theorem unreachable_of_unanswered_after_echo :
    ∃ l l',
      StepSystem.run step start
        [.write, .countSent, .record 0, .advance,
          .receive 0 5 [0], .readReceived, .check] = some l ∧
      l.pinger.reachable = true ∧
      StepSystem.run step l
        [.write, .countSent, .record 1, .advance,
          .readLost, .check, .write, .countSent, .record 2,
          .advance, .readReceived, .check, .receive 0 9 [200],
          .write, .countSent, .record 3, .advance, .readLost,
          .check, .write, .countSent, .record 4, .advance,
          .readLost, .check] = some l' ∧
      l'.pinger.reachable = false := by
  refine ⟨_, _, rfl, rfl, rfl, ?_⟩
  exact @unreachable_of_unanswered
    [.write, .countSent, .record 0, .advance,
      .receive 0 5 [0], .readReceived, .check]
    [.write, .countSent, .record 1, .advance,
      .readLost, .check, .write, .countSent, .record 2,
      .advance, .readReceived, .check, .receive 0 9 [200],
      .write, .countSent, .record 3, .advance, .readLost,
      .check, .write, .countSent, .record 4, .advance,
      .readLost, .check]
    _ _ rfl rfl rfl rfl (by decide) (by decide) rfl

end PingerLoop

end ModemTester
