import ModemTester.Master.MasterPinger

/-
  The books of the master's availability test.

  Handling received bytes moves transmissions from the map
  to the received and lost counters and never changes their
  sum. Only recording a transmission whose code is still in
  the map, left there by an unanswered transmission one lap
  of the code counter before, drops one from the books. The
  number of such overwritten entries is therefore exactly
  the difference between `_sent` and the books.

  Key definitions include:
    * `MasterPinger.booked`
    * `PingerLoop.overwrites`

  Main declarations:
    * `PingerLoop.sent_eq_booked_add_overwritten`
    * `PingerLoop.books_balance_iff`
    * `PingerLoop.books_fail_without_echoes`
-/

------------------------------------------------------------
-- Handlers Keep The Books
------------------------------------------------------------

namespace ModemTester

namespace MasterPinger

/- Transmissions counted as received, lost or in the map. -/
def booked (p : MasterPinger) : Nat :=
  p.received + p.lost + p.sendTimes.size

/- Matching an echo moves entries between the books. -/
@[simp] theorem matchEcho_booked
    (p : MasterPinger)
    (recvTime : Int)
    (byte : Byte) :
    (p.matchEcho recvTime byte).booked = p.booked := by
  unfold matchEcho
  split
  · rename_i sendTime hFind
    have hMem : byte ∈ p.sendTimes.keys :=
      (p.sendTimes.mem_keys_iff byte).mpr ⟨sendTime, hFind⟩
    have hSize := p.sendTimes.size_eq_of_mem hMem
    simp only [booked]
    omega
  · rfl

theorem handleBytes_sent
    (recvTime : Int)
    (p : MasterPinger)
    (bytes : List Byte) :
    (handleBytes recvTime p bytes).1.sent = p.sent := by
  apply handleBytes_induction (P := fun q => q.sent = p.sent)
  · intro q recvTime byte hSent
    rw [matchEcho_sent, hSent]
  · rfl

theorem handleBytes_booked
    (recvTime : Int)
    (p : MasterPinger)
    (bytes : List Byte) :
    (handleBytes recvTime p bytes).1.booked = p.booked := by
  apply handleBytes_induction
    (P := fun q => q.booked = p.booked)
  · intro q recvTime byte hBooked
    rw [matchEcho_booked, hBooked]
  · rfl

@[simp] theorem handleReceive_sent
    (p : MasterPinger)
    (ec : Nat)
    (recvTime : Int)
    (bytes : List Byte) :
    (p.handleReceive ec recvTime bytes).1.sent = p.sent := by
  unfold handleReceive
  split
  · exact handleBytes_sent recvTime p bytes
  · split <;> rfl

/- Whatever arrives, the sum of the books stays. -/
@[simp] theorem handleReceive_booked
    (p : MasterPinger)
    (ec : Nat)
    (recvTime : Int)
    (bytes : List Byte) :
    (p.handleReceive ec recvTime bytes).1.booked =
      p.booked := by
  unfold handleReceive
  split
  · exact handleBytes_booked recvTime p bytes
  · split <;> rfl

end MasterPinger

end ModemTester

------------------------------------------------------------
-- The Loop Overwrites Entries
------------------------------------------------------------

namespace ModemTester

namespace PingerLoop

/- The step records a code that is still in the map. -/
def overwrites (l : PingerLoop) : PingerLabel → Bool
  | .record _ => decide (l.byte ∈ l.pinger.sendTimes.keys)
  | _ => false

/- A transmission counted in `_sent` but not yet recorded. -/
def unrecorded (l : PingerLoop) : Nat :=
  if l.point = .counted then 1 else 0

/- What is missing from the books. -/
def missing (l : PingerLoop) : Int :=
  l.pinger.sent - (l.pinger.booked + l.unrecorded)

/- One step loses a transmission when it overwrites. -/
theorem missing_step
    (l : PingerLoop)
    (label : PingerLabel)
    (l' : PingerLoop)
    (hStep : step l label = some l') :
    l'.missing =
      l.missing + if l.overwrites label then 1 else 0 := by
  cases label with
  | write =>
      simp only [step] at hStep
      split at hStep
      · rename_i hPoint
        cases hStep
        simp [missing, unrecorded, overwrites, hPoint.1]
      · cases hStep
  | countSent =>
      simp only [step] at hStep
      split at hStep
      · rename_i hPoint
        cases hStep
        simp only [missing, unrecorded, overwrites,
          MasterPinger.booked, hPoint, reduceCtorEq,
          if_false, if_true, Bool.false_eq_true]
        push_cast
        omega
      · cases hStep
  | record now =>
      simp only [step] at hStep
      split at hStep
      · rename_i hPoint
        cases hStep
        have hSize := l.pinger.sendTimes.size_assign l.byte now
        simp only [missing, unrecorded, overwrites,
          MasterPinger.booked, hPoint, hSize]
        by_cases hMem : l.byte ∈ l.pinger.sendTimes.keys
        · simp [hMem]
          omega
        · simp [hMem]
          omega
      · cases hStep
  | advance =>
      simp only [step] at hStep
      split at hStep
      · rename_i hPoint
        cases hStep
        simp [missing, unrecorded, overwrites, hPoint]
      · cases hStep
  | readReceived =>
      simp only [step] at hStep
      split at hStep
      · rename_i hPoint
        cases hStep
        simp [missing, unrecorded, overwrites, hPoint]
      · cases hStep
  | readLost =>
      simp only [step] at hStep
      split at hStep
      · rename_i hPoint
        cases hStep
        simp [missing, unrecorded, overwrites, hPoint]
      · cases hStep
  | check =>
      simp only [step] at hStep
      split at hStep
      · rename_i received hPoint
        cases hStep
        simp [missing, unrecorded, overwrites, hPoint,
          setReachable, MasterPinger.booked]
      · rename_i lost hPoint
        cases hStep
        simp [missing, unrecorded, overwrites, hPoint,
          setReachable, MasterPinger.booked]
      · cases hStep
  | receive ec now bytes =>
      cases hStep
      simp [missing, unrecorded, overwrites]
  | requestStop =>
      cases hStep
      simp [missing, unrecorded, overwrites,
        MasterPinger.booked]

/- The number of entries overwritten during a run. -/
def overwritten (labels : List PingerLabel) : Nat :=
  StepSystem.countAlong step overwrites start labels

/-
  After any run, `_sent` exceeds the books by the number of
  entries overwritten, and by the transmission that the loop
  has counted but not recorded.
-/
theorem sent_eq_booked_add_overwritten
    {labels : List PingerLabel}
    {l : PingerLoop}
    (hRun : StepSystem.run step start labels = some l) :
    l.pinger.sent =
      l.pinger.booked + l.unrecorded +
        overwritten labels := by
  have hCount : l.missing = start.missing +
      StepSystem.countAlong step overwrites start labels :=
    StepSystem.run_count missing_step hRun
  have hStart : start.missing = 0 := by
    simp [missing, unrecorded, start, MasterPinger.initial,
      MasterPinger.booked, OrderedMap.size, OrderedMap.empty]
  rw [hStart] at hCount
  simp only [missing] at hCount
  simp only [overwritten]
  omega

/-
  At the top of the send loop the books balance exactly when
  no transmission of the run has been recorded over an
  unanswered one.
-/
theorem books_balance_iff
    (labels : List PingerLabel)
    (l : PingerLoop)
    (hRun : StepSystem.run step start labels = some l)
    (hTop : l.point = .top) :
    l.pinger.sent =
        l.pinger.received + l.pinger.lost +
          l.pinger.sendTimes.size ↔
      StepSystem.Along step
        (fun l label => l.overwrites label = false)
        start labels := by
  have hSent := sent_eq_booked_add_overwritten hRun
  have hRecorded : l.unrecorded = 0 := by
    simp [unrecorded, hTop]
  rw [← StepSystem.countAlong_eq_zero_iff]
  simp only [overwritten, MasterPinger.booked] at hSent
  omega

/- One iteration of the loop and its echo. -/
theorem books_balance_after_one_echo :
    ∃ l, StepSystem.run step start
        [.write, .countSent, .record 0, .receive 0 5 [0],
          .advance, .readReceived, .check] = some l ∧
      (l.pinger.sent =
          l.pinger.received + l.pinger.lost +
            l.pinger.sendTimes.size ↔
        StepSystem.Along step
          (fun l label => l.overwrites label = false)
          start
          [.write, .countSent, .record 0, .receive 0 5 [0],
            .advance, .readReceived, .check]) :=
  ⟨_, rfl, books_balance_iff _ _ rfl rfl⟩

------------------------------------------------------------
-- A Silent Link
------------------------------------------------------------

/- One iteration of the loop during which nothing arrives. -/
def silentIteration : List PingerLabel :=
  [.write, .countSent, .record 0, .advance, .readReceived,
    .check]

def silence : Nat → List PingerLabel
  | 0 => []
  | n + 1 => silentIteration ++ silence n

/- Without echoes only `_sent` and the map change. -/
theorem exists_run_silence
    (n : Nat)
    {l : PingerLoop}
    (hTop : l.point = .top)
    (hGoing : l.pinger.stopRequested = false) :
    ∃ l', StepSystem.run step l (silence n) = some l' ∧
      l'.point = .top ∧
      l'.pinger.stopRequested = false ∧
      l'.pinger.sent = l.pinger.sent + n ∧
      l'.pinger.received = l.pinger.received ∧
      l'.pinger.lost = l.pinger.lost := by
  induction n generalizing l with
  | zero => exact ⟨l, rfl, hTop, hGoing, rfl, rfl, rfl⟩
  | succ n ih =>
      have hOne : ∃ l₁,
          StepSystem.run step l silentIteration = some l₁ ∧
          l₁.point = .top ∧
          l₁.pinger.stopRequested = false ∧
          l₁.pinger.sent = l.pinger.sent + 1 ∧
          l₁.pinger.received = l.pinger.received ∧
          l₁.pinger.lost = l.pinger.lost := by
        simp [silentIteration, StepSystem.run, step, hTop,
          hGoing, setReachable]
      rcases hOne with
        ⟨l₁, hRun, hTop₁, hGoing₁, hSent, hReceived, hLost⟩
      rcases ih hTop₁ hGoing₁ with
        ⟨l', hRest, hTop', hGoing', hSent', hReceived', hLost'⟩
      refine ⟨l', ?_, hTop', hGoing', ?_, ?_, ?_⟩
      · rw [silence, StepSystem.run_append hRun, hRest]
      · omega
      · rw [hReceived', hReceived]
      · rw [hLost', hLost]

/-
  A second lap on a silent link overwrites entries of the
  first one: the map holds one entry a code at most.
-/
theorem books_fail_without_echoes :
    ∃ l, StepSystem.run step start (silence 257) = some l ∧
      l.point = .top ∧
      l.pinger.sent ≠
        l.pinger.received + l.pinger.lost +
          l.pinger.sendTimes.size := by
  rcases exists_run_silence 257 (l := start) rfl rfl with
    ⟨l, hRun, hTop, -, hSent, hReceived, hLost⟩
  refine ⟨l, hRun, hTop, ?_⟩
  have hSize := l.pinger.sendTimes.size_le_card
  rw [Fintype.card_fin] at hSize
  rw [hSent, hReceived, hLost]
  simp only [start, MasterPinger.initial]
  omega

end PingerLoop

end ModemTester
