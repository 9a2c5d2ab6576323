import ModemTester.Master.PingerBooks

/-
  The reachability check of the availability test.

  The check subtracts `_received + _lost` from `_sent` in
  `unsigned long`, and reads the two counters one after the
  other while the io thread may change them. Handlers only
  raise the counters and never let the books exceed `_sent`,
  so a reading that mixes an old counter with a new one is
  still at most `_sent`.

  Key definitions include:
    * `PingerLoop.readings`

  Main declarations:
    * `PingerLoop.booked_le_sent`
    * `PingerLoop.check_never_wraps`
-/

------------------------------------------------------------
-- Handlers Raise The Counters
------------------------------------------------------------

namespace ModemTester

namespace MasterPinger

/- Below the modulus the subtraction is the true one. -/
theorem inFlight_of_le
    {sent received lost : Nat}
    (hBooked : received + lost ≤ sent)
    (hSent : sent < ulongModulus) :
    inFlight sent received lost = sent - (received + lost) := by
  unfold inFlight
  have hSum : (received + lost) % ulongModulus =
      received + lost :=
    Nat.mod_eq_of_lt (lt_of_le_of_lt hBooked hSent)
  have hSplit :
      sent + (ulongModulus - (received + lost)) =
        (sent - (received + lost)) + ulongModulus := by
    omega
  rw [hSum, hSplit, Nat.add_mod_right]
  exact Nat.mod_eq_of_lt (by omega)

/- Neither counter ever falls. -/
def CountersFrom
    (p q : MasterPinger) : Prop :=
  p.received ≤ q.received ∧ p.lost ≤ q.lost

theorem countersFrom_matchEcho
    (p : MasterPinger)
    (recvTime : Int)
    (byte : Byte) :
    CountersFrom p (p.matchEcho recvTime byte) := by
  unfold matchEcho CountersFrom
  split
  · exact ⟨Nat.le_succ _, Nat.le_add_right _ _⟩
  · exact ⟨le_refl _, le_refl _⟩

theorem countersFrom_handleReceive
    (p : MasterPinger)
    (ec : Nat)
    (recvTime : Int)
    (bytes : List Byte) :
    CountersFrom p (p.handleReceive ec recvTime bytes).1 := by
  unfold handleReceive
  split
  · apply handleBytes_induction (P := CountersFrom p)
    · intro q now byte hFrom
      have hNext := countersFrom_matchEcho q now byte
      exact ⟨le_trans hFrom.1 hNext.1,
        le_trans hFrom.2 hNext.2⟩
    · exact ⟨le_refl _, le_refl _⟩
  · split <;> exact ⟨le_refl _, le_refl _⟩

end MasterPinger

end ModemTester

------------------------------------------------------------
-- The Check
------------------------------------------------------------

namespace ModemTester

namespace PingerLoop

/- Only a handler takes samples and books echoes. -/
theorem counters_of_step
    {l l' : PingerLoop}
    {label : PingerLabel}
    (hReceive : ∀ ec now bytes, label ≠ .receive ec now bytes)
    (hStep : l.step label = some l') :
    l'.pinger.received = l.pinger.received ∧
      l'.pinger.lost = l.pinger.lost ∧
      l'.pinger.rtt = l.pinger.rtt := by
  cases label with
  | receive ec now bytes =>
      exact absurd rfl (hReceive ec now bytes)
  | write | countSent | record | advance | readReceived
  | readLost =>
      simp only [step] at hStep
      split at hStep
      · cases hStep
        exact ⟨rfl, rfl, rfl⟩
      · cases hStep
  | check =>
      simp only [step] at hStep
      split at hStep
      · cases hStep
        exact ⟨rfl, rfl, rfl⟩
      · cases hStep
        exact ⟨rfl, rfl, rfl⟩
      · cases hStep
  | requestStop =>
      cases hStep
      exact ⟨rfl, rfl, rfl⟩

/-
  The values of `_received` and `_lost` that the next step
  of the check subtracts, once one of them has been read.
-/
def readings (l : PingerLoop) : Option (Nat × Nat) :=
  match l.point with
  | .readReceived received => some (received, l.pinger.lost)
  | .readLost lost => some (l.pinger.received, lost)
  | _ => none

/- What the check has read is at most what is there now. -/
def ReadingsOld (l : PingerLoop) : Prop :=
  ∀ received lost, l.readings = some (received, lost) →
    received ≤ l.pinger.received ∧ lost ≤ l.pinger.lost

theorem readingsOld_of_none
    {l : PingerLoop}
    (hNone : l.readings = none) :
    l.ReadingsOld := by
  intro received lost hReadings
  rw [hNone] at hReadings
  cases hReadings

/- A handler that runs inside the check keeps it so. -/
theorem ReadingsOld.of_countersFrom
    {l : PingerLoop}
    {pinger : MasterPinger}
    (hOld : l.ReadingsOld)
    (hFrom : MasterPinger.CountersFrom l.pinger pinger) :
    ({ l with pinger := pinger } : PingerLoop).ReadingsOld := by
  intro received lost hReadings
  unfold readings at hReadings
  unfold ReadingsOld readings at hOld
  cases hPoint : l.point with
  | readReceived before =>
      simp only [hPoint, Option.some.injEq,
        Prod.mk.injEq] at hReadings hOld
      have hBefore := hOld before l.pinger.lost ⟨rfl, rfl⟩
      rw [← hReadings.1, ← hReadings.2]
      exact ⟨le_trans hBefore.1 hFrom.1, le_refl _⟩
  | readLost before =>
      simp only [hPoint, Option.some.injEq,
        Prod.mk.injEq] at hReadings hOld
      have hBefore := hOld l.pinger.received before ⟨rfl, rfl⟩
      rw [← hReadings.1, ← hReadings.2]
      exact ⟨le_refl _, le_trans hBefore.2 hFrom.2⟩
  | top | written | counted | recorded | waiting =>
      simp [hPoint] at hReadings

theorem ReadingsOld.step
    {l l' : PingerLoop}
    {label : PingerLabel}
    (hOld : l.ReadingsOld)
    (hStep : step l label = some l') :
    l'.ReadingsOld := by
  cases label with
  | write | countSent | record now | advance =>
      simp only [PingerLoop.step] at hStep
      split at hStep
      · cases hStep
        exact readingsOld_of_none rfl
      · cases hStep
  | readReceived | readLost =>
      simp only [PingerLoop.step] at hStep
      split at hStep
      · cases hStep
        intro received lost hReadings
        simp only [readings, Option.some.injEq,
          Prod.mk.injEq] at hReadings
        rw [← hReadings.1, ← hReadings.2]
        exact ⟨le_refl _, le_refl _⟩
      · cases hStep
  | check =>
      simp only [PingerLoop.step] at hStep
      split at hStep
      · cases hStep
        exact readingsOld_of_none rfl
      · cases hStep
        exact readingsOld_of_none rfl
      · cases hStep
  | receive ec now bytes =>
      cases hStep
      exact hOld.of_countersFrom
        (l.pinger.countersFrom_handleReceive ec now bytes)
  | requestStop =>
      cases hStep
      exact hOld.of_countersFrom ⟨le_refl _, le_refl _⟩

/- In every run the books stay within `_sent`. -/
theorem booked_le_sent
    {labels : List PingerLabel}
    {l : PingerLoop}
    (hRun : StepSystem.run step start labels = some l) :
    l.pinger.booked ≤ l.pinger.sent := by
  have hSent := sent_eq_booked_add_overwritten hRun
  omega

/-
  Whatever arrives and whenever it is handled, no more is
  counted as received, lost or outstanding than was sent,
  and the check subtracts at most `_sent`: while `_sent` is
  below 2^64 its result is the true difference.
-/
theorem check_never_wraps
    (labels : List PingerLabel)
    (l : PingerLoop)
    (hRun : StepSystem.run step start labels = some l) :
    l.pinger.received + l.pinger.lost +
        l.pinger.sendTimes.size ≤ l.pinger.sent ∧
      ∀ received lost, l.readings = some (received, lost) →
        received + lost ≤ l.pinger.sent ∧
          (l.pinger.sent < ulongModulus →
            (MasterPinger.inFlight l.pinger.sent received
                lost : Int) =
              (l.pinger.sent : Int) -
                ((received : Int) + (lost : Int))) := by
  have hBooked := booked_le_sent hRun
  have hOld : l.ReadingsOld :=
    StepSystem.run_invariant
      (fun _ _ _ hOld hStep => hOld.step hStep)
      (readingsOld_of_none rfl) hRun
  simp only [MasterPinger.booked] at hBooked
  refine ⟨hBooked, ?_⟩
  intro received lost hReadings
  have hNow := hOld received lost hReadings
  have hLe : received + lost ≤ l.pinger.sent := by omega
  refine ⟨hLe, ?_⟩
  intro hSent
  rw [MasterPinger.inFlight_of_le hLe hSent]
  omega

/-
  The echo of the second code arrives between the two reads
  of the second check.
-/
theorem check_never_wraps_inside_check :
    ∃ l, StepSystem.run step start
        [.write, .countSent, .record 0, .advance,
          .readReceived, .check, .write, .countSent,
          .record 100, .advance, .readReceived,
          .receive 0 150 [1]] = some l ∧
      (l.pinger.received + l.pinger.lost +
          l.pinger.sendTimes.size ≤ l.pinger.sent ∧
        ∀ received lost, l.readings = some (received, lost) →
          received + lost ≤ l.pinger.sent ∧
            (l.pinger.sent < ulongModulus →
              (MasterPinger.inFlight l.pinger.sent received
                  lost : Int) =
                (l.pinger.sent : Int) -
                  ((received : Int) + (lost : Int)))) := by
  have hRun := check_never_wraps
    [.write, .countSent, .record 0, .advance,
      .readReceived, .check, .write, .countSent,
      .record 100, .advance, .readReceived,
      .receive 0 150 [1]] _ rfl
  exact ⟨_, rfl, hRun⟩

end PingerLoop

end ModemTester
