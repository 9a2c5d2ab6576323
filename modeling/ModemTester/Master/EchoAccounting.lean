import Mathlib.Data.Finset.Interval
import Mathlib.Order.Interval.Finset.Nat
import ModemTester.Master.MasterPinger

/-
  Loss accounting of the master's availability test.

  The send loop is composed with a link that keeps the order
  of what it carries. Each transmission, known by its number
  since the start, is dropped once or echoed once. The link
  records what really happened; the counters of the pinger
  are compared with it after each echo.

  The map of send times knows a transmission only by its
  code, the number modulo 240. As long as the transmissions
  in the map belong to one lap of the code counter, the
  order of the codes is the order of transmission.

  Key definitions include:
    * `EchoLink`
    * `EchoLink.step`
    * `EchoLink.Accurate`
    * `EchoLink.Timely`
    * `EchoLink.Window`

  Main declarations:
    * `EchoLink.accurate_iff_timely`
    * `EchoLink.inaccurate_before_record`
-/

------------------------------------------------------------
-- The Echo Link
------------------------------------------------------------

namespace ModemTester

/-
  The send loop and the link. `inFlight` holds number and
  byte of the transmissions not yet dropped or echoed,
  oldest first; `recordTimes` the dates recorded, one a
  transmission.
-/
structure EchoLink where
  loop : PingerLoop
  written : Nat
  inFlight : List (Nat × Byte)
  recordTimes : List Int
  dropped : Finset Nat
  delivered : List Nat

/- A step of the loop, a loss, or the arrival of an echo. -/
inductive EchoLabel where
  | loop (label : PingerLabel)
  | drop (index : Nat)
  | echo (now : Int)
  deriving DecidableEq, Repr

namespace EchoLink

def start : EchoLink where
  loop := PingerLoop.start
  written := 0
  inFlight := []
  recordTimes := []
  dropped := ∅
  delivered := []

/- One more than the last transmission echoed. -/
def next (s : EchoLink) : Nat :=
  match s.delivered.getLast? with
  | none => 0
  | some number => number + 1

/- What a step of the loop puts on the link. -/
def afterLoop
    (s : EchoLink)
    (label : PingerLabel)
    (loop : PingerLoop) : EchoLink :=
  match label with
  | .write =>
      { s with
        loop := loop
        written := s.written + 1
        inFlight := s.inFlight ++ [(s.written, s.loop.byte)] }
  | .record now =>
      { s with
        loop := loop
        recordTimes := s.recordTimes ++ [now] }
  | _ => { s with loop := loop }

/- Nothing but echoes arrives. -/
def step (s : EchoLink) : EchoLabel → Option EchoLink
  | .loop (.receive _ _ _) => none
  | .loop label =>
      (s.loop.step label).map (s.afterLoop label)
  | .drop index =>
      match s.inFlight[index]? with
      | none => none
      | some transmission =>
          some
            { s with
              inFlight := s.inFlight.eraseIdx index
              dropped := insert transmission.1 s.dropped }
  | .echo now =>
      match s.inFlight with
      | [] => none
      | transmission :: rest =>
          (s.loop.step (.receive 0 now [transmission.2])).map
            fun loop =>
              { s with
                loop := loop
                inFlight := rest
                delivered := s.delivered ++ [transmission.1] }

/- The pinger after the echo of `byte`. -/
def echoed
    (s : EchoLink)
    (now : Int)
    (byte : Byte) : MasterPinger :=
  (s.loop.pinger.handleReceive 0 now [byte]).1

/-
  The books are right after the echo: every echo delivered
  is counted, the sample is the age of the transmission that
  produced the echo, and `_lost` counts the transmissions
  dropped before that one.
-/
def Accurate (s : EchoLink) : EchoLabel → Prop
  | .echo now =>
      match s.inFlight with
      | [] => True
      | transmission :: _ =>
          (s.echoed now transmission.2).received =
              s.delivered.length + 1 ∧
            some (s.echoed now transmission.2).rtt =
              s.recordTimes[transmission.1]?.map
                (fun sendTime =>
                  s.loop.pinger.rtt + (now - sendTime)) ∧
            (s.echoed now transmission.2).lost =
              (s.dropped.filter
                fun number => number < transmission.1).card
  | _ => True

/-
  The echo arrives after its transmission was recorded, and
  the transmissions from the last one echoed up to the last
  one recorded are of one lap of the code counter.
-/
def Timely (s : EchoLink) : EchoLabel → Prop
  | .echo _ =>
      match s.inFlight with
      | [] => True
      | transmission :: _ =>
          transmission.1 < s.recordTimes.length ∧
            s.next / PingerLoop.nbCodes =
              (s.recordTimes.length - 1) / PingerLoop.nbCodes
  | _ => True

/-
  Fewer than 240 transmissions are unanswered and not yet
  superseded by the echo of a later one.
-/
def Window (s : EchoLink) : Prop :=
  s.written - s.next < PingerLoop.nbCodes

instance (s : EchoLink) (label : EchoLabel) :
    Decidable (s.Accurate label) := by
  unfold Accurate
  split
  · split <;> infer_instance
  · infer_instance

instance (s : EchoLink) (label : EchoLabel) :
    Decidable (s.Timely label) := by
  unfold Timely
  split
  · split <;> infer_instance
  · infer_instance

instance : DecidablePred Window := fun s =>
  inferInstanceAs
    (Decidable (s.written - s.next < PingerLoop.nbCodes))

end EchoLink

end ModemTester

------------------------------------------------------------
-- Codes And Laps
------------------------------------------------------------

namespace ModemTester

namespace EchoLink

/- The code of the transmission with this number. -/
def codeOf (number : Nat) : Byte :=
  Fin.ofNat 256 (number % PingerLoop.nbCodes)

theorem codeOf_val (number : Nat) :
    (codeOf number).val = number % 240 := by
  have hCodes : PingerLoop.nbCodes = 240 := rfl
  simp only [codeOf, Fin.val_ofNat, hCodes]
  omega

theorem codeOf_lt (number : Nat) :
    (codeOf number).val < PingerLoop.nbCodes := by
  rw [codeOf_val]
  exact Nat.mod_lt _ (by decide)

/- The code counter counts transmissions. -/
theorem nextCode_codeOf (number : Nat) :
    PingerLoop.nextCode (codeOf number) =
      codeOf (number + 1) := by
  apply Fin.ext
  have hCodes : PingerLoop.nbCodes = 240 := rfl
  rw [PingerLoop.nextCode_val, codeOf_val, codeOf_val, hCodes]
  omega

/- Within a window of 240 the code tells the number. -/
theorem codeOf_injective_of_window
    (low : Nat)
    {a b : Nat}
    (hA : low ≤ a ∧ a < low + 240)
    (hB : low ≤ b ∧ b < low + 240)
    (hSame : codeOf a = codeOf b) :
    a = b := by
  have hVal : a % 240 = b % 240 := by
    rw [← codeOf_val, ← codeOf_val, hSame]
  omega

/- The numbers from `low` on with a smaller code. -/
def smallerCodes (low high number : Nat) : Finset Nat :=
  (Finset.Ico low high).filter
    fun other => other % 240 < number % 240

/-
  Smaller codes are earlier transmissions exactly within one
  lap: past a wrap either codes of the new lap count as
  earlier, or those of the old lap do not.
-/
theorem card_smallerCodes_iff
    {low high number : Nat}
    (hLow : low ≤ number)
    (hHigh : number < high)
    (hWindow : high - low < 240) :
    (smallerCodes low high number).card = number - low ↔
      low / 240 = (high - 1) / 240 := by
  constructor
  · intro hCard
    by_contra hLaps
    by_cases hBefore : number < high - 1 - (high - 1) % 240
    · -- the first code of the new lap counts as earlier
      have hMore :
          insert (high - 1 - (high - 1) % 240)
              (Finset.Ico low number) ⊆
            smallerCodes low high number := by
        intro other hOther
        rw [smallerCodes, Finset.mem_filter, Finset.mem_Ico]
        rcases Finset.mem_insert.mp hOther with rfl | hIco
        · omega
        · rw [Finset.mem_Ico] at hIco
          omega
      have hLe := Finset.card_le_card hMore
      rw [Finset.card_insert_of_notMem
          (by rw [Finset.mem_Ico]; omega),
        Nat.card_Ico, hCard] at hLe
      omega
    · -- the codes of the old lap do not
      have hFewer :
          smallerCodes low high number ⊆
            Finset.Ico (high - 1 - (high - 1) % 240)
              number := by
        intro other hOther
        rw [smallerCodes, Finset.mem_filter,
          Finset.mem_Ico] at hOther
        rw [Finset.mem_Ico]
        omega
      have hLe := Finset.card_le_card hFewer
      rw [Nat.card_Ico, hCard] at hLe
      omega
  · intro hLaps
    have hSame : smallerCodes low high number =
        Finset.Ico low number := by
      ext other
      rw [smallerCodes, Finset.mem_filter, Finset.mem_Ico,
        Finset.mem_Ico]
      omega
    rw [hSame, Nat.card_Ico]

end EchoLink

end ModemTester

------------------------------------------------------------
-- The Invariant
------------------------------------------------------------

namespace ModemTester

namespace EchoLink

/- A transmission is written but not yet recorded. -/
def pendingRecord : LoopPoint → Nat
  | .written | .counted => 1
  | _ => 0

/- The byte written last is still the byte of the loop. -/
def behind : LoopPoint → Nat
  | .written | .counted | .recorded => 1
  | _ => 0

/- The loop stands where the link says that it stands. -/
structure LoopSynced (s : EchoLink) : Prop where
  written_eq : s.written =
    s.recordTimes.length + pendingRecord s.loop.point
  behind_le : behind s.loop.point ≤ s.written
  byte_eq : s.loop.byte =
    codeOf (s.written - behind s.loop.point)

/-
  What is in flight is in order, and what is neither in
  flight nor superseded was dropped.
-/
structure LinkOrdered (s : EchoLink) : Prop where
  next_le : s.next ≤ s.recordTimes.length
  flying : ∀ transmission ∈ s.inFlight,
    transmission.2 = codeOf transmission.1 ∧
      s.next ≤ transmission.1 ∧ transmission.1 < s.written
  flying_dropped : ∀ transmission ∈ s.inFlight,
    transmission.1 ∉ s.dropped
  dropped_lt : ∀ number ∈ s.dropped, number < s.written
  ordered : s.inFlight.Pairwise fun a b => a.1 < b.1
  settled : ∀ number, s.next ≤ number →
    number < s.written →
      number ∈ s.dropped ∨
        ∃ transmission ∈ s.inFlight, transmission.1 = number

/-
  The books are right, and the map holds the transmissions
  recorded and not superseded, under their codes.
-/
structure BooksRight (s : EchoLink) : Prop where
  received_eq :
    s.loop.pinger.received = s.delivered.length
  lost_eq : s.loop.pinger.lost =
    (s.dropped.filter fun number => number < s.next).card
  keys_from : ∀ key ∈ s.loop.pinger.sendTimes.keys,
    ∃ number, s.next ≤ number ∧
      number < s.recordTimes.length ∧ key = codeOf number
  find_eq : ∀ number, s.next ≤ number →
    number < s.recordTimes.length →
      s.loop.pinger.sendTimes.find? (codeOf number) =
        s.recordTimes[number]?

structure Consistent (s : EchoLink) : Prop where
  synced : LoopSynced s
  ordered : LinkOrdered s
  books : BooksRight s

theorem consistent_start : Consistent start := by
  refine ⟨⟨rfl, Nat.zero_le _, rfl⟩,
    ⟨?_, ?_, ?_, ?_, ?_, ?_⟩,
    ⟨rfl, rfl, ?_, ?_⟩⟩
  · exact Nat.zero_le _
  · simp [start]
  · simp [start]
  · simp [start]
  · simp [start]
  · simp [start]
  · simp [start, PingerLoop.start, MasterPinger.initial]
  · simp [start]

@[simp] theorem next_afterLoop
    (s : EchoLink)
    (label : PingerLabel)
    (loop : PingerLoop) :
    (s.afterLoop label loop).next = s.next := by
  cases label <;> rfl

theorem loopSynced_afterLoop
    {s : EchoLink}
    {label : PingerLabel}
    {loop : PingerLoop}
    (hSynced : LoopSynced s)
    (hStep : s.loop.step label = some loop) :
    LoopSynced (s.afterLoop label loop) := by
  rcases hSynced with ⟨hWritten, hBehind, hByte⟩
  cases label with
  | write =>
      simp only [PingerLoop.step] at hStep
      split at hStep
      · rename_i hPoint
        cases hStep
        simp only [hPoint.1, pendingRecord, behind,
          Nat.add_zero, Nat.sub_zero] at hWritten hByte
        refine ⟨?_, ?_, ?_⟩
        · simp [afterLoop, pendingRecord, hWritten]
        · simp [afterLoop, behind]
        · simp [afterLoop, behind, hByte]
      · cases hStep
  | record now =>
      simp only [PingerLoop.step] at hStep
      split at hStep
      · rename_i hPoint
        cases hStep
        simp only [hPoint, pendingRecord, behind]
          at hWritten hBehind hByte
        refine ⟨?_, ?_, ?_⟩
        · simp [afterLoop, pendingRecord, hWritten]
        · simpa [afterLoop, behind] using hBehind
        · simpa [afterLoop, behind] using hByte
      · cases hStep
  | advance =>
      simp only [PingerLoop.step] at hStep
      split at hStep
      · rename_i hPoint
        cases hStep
        simp only [hPoint, pendingRecord, behind]
          at hWritten hBehind hByte
        refine ⟨?_, ?_, ?_⟩
        · simpa [afterLoop, pendingRecord] using hWritten
        · simp [afterLoop, behind]
        · simp only [afterLoop, behind, Nat.sub_zero, hByte]
          rw [nextCode_codeOf, Nat.sub_add_cancel hBehind]
      · cases hStep
  | countSent | readReceived | readLost =>
      simp only [PingerLoop.step] at hStep
      split at hStep
      · rename_i hPoint
        cases hStep
        simp only [hPoint] at hWritten hBehind hByte
        exact ⟨hWritten, hBehind, hByte⟩
      · cases hStep
  | check =>
      simp only [PingerLoop.step] at hStep
      split at hStep
      · rename_i received hPoint
        cases hStep
        simp only [hPoint] at hWritten hBehind hByte
        exact ⟨hWritten, hBehind, hByte⟩
      · rename_i lost hPoint
        cases hStep
        simp only [hPoint] at hWritten hBehind hByte
        exact ⟨hWritten, hBehind, hByte⟩
      · cases hStep
  | receive ec now bytes =>
      cases hStep
      exact ⟨hWritten, hBehind, hByte⟩
  | requestStop =>
      cases hStep
      exact ⟨hWritten, hBehind, hByte⟩

theorem linkOrdered_afterLoop
    {s : EchoLink}
    {label : PingerLabel}
    {loop : PingerLoop}
    (hSynced : LoopSynced s)
    (hOrdered : LinkOrdered s)
    (hStep : s.loop.step label = some loop) :
    LinkOrdered (s.afterLoop label loop) := by
  rcases hOrdered with
    ⟨hNext, hFlying, hUndropped, hDroppedLt, hPairwise,
      hSettled⟩
  cases label with
  | write =>
      simp only [PingerLoop.step] at hStep
      split at hStep
      · rename_i hPoint
        have hByte := hSynced.byte_eq
        have hWritten := hSynced.written_eq
        simp only [hPoint.1, behind, pendingRecord,
          Nat.sub_zero, Nat.add_zero] at hByte hWritten
        refine ⟨hNext, ?_, ?_, ?_, ?_, ?_⟩
        · intro transmission hMem
          rcases List.mem_append.mp hMem with hOld | hNew
          · rcases hFlying transmission hOld with
              ⟨hCode, hLow, hHigh⟩
            exact ⟨hCode, hLow, Nat.lt_succ_of_lt hHigh⟩
          · rw [List.mem_singleton] at hNew
            subst hNew
            refine ⟨hByte, ?_, Nat.lt_succ_self _⟩
            exact le_of_le_of_eq hNext hWritten.symm
        · intro transmission hMem hDropped
          rcases List.mem_append.mp hMem with hOld | hNew
          · exact hUndropped transmission hOld hDropped
          · rw [List.mem_singleton] at hNew
            subst hNew
            exact lt_irrefl _ (hDroppedLt _ hDropped)
        · intro number hDropped
          exact Nat.lt_succ_of_lt (hDroppedLt number hDropped)
        · refine List.pairwise_append.mpr
            ⟨hPairwise, List.pairwise_singleton _ _, ?_⟩
          intro transmission hOld other hNew
          rw [List.mem_singleton] at hNew
          subst hNew
          exact (hFlying transmission hOld).2.2
        · intro number hLow hHigh
          by_cases hLast : number = s.written
          · refine Or.inr ⟨(s.written, s.loop.byte), ?_, ?_⟩
            · exact List.mem_append_right _ (by simp)
            · exact hLast.symm
          · have hOld : number < s.written := by
              simp only [afterLoop] at hHigh
              omega
            rcases hSettled number hLow hOld with
              hDropped | ⟨transmission, hMem, hNumber⟩
            · exact Or.inl hDropped
            · refine Or.inr ⟨transmission, ?_, hNumber⟩
              exact List.mem_append_left _ hMem
      · cases hStep
  | record now =>
      refine ⟨?_, hFlying, hUndropped, hDroppedLt, hPairwise,
        hSettled⟩
      simp only [afterLoop, List.length_append]
      exact le_trans hNext (Nat.le_add_right _ _)
  | countSent | advance | readReceived | readLost | check
  | receive | requestStop =>
      exact ⟨hNext, hFlying, hUndropped, hDroppedLt,
        hPairwise, hSettled⟩

/- Only `record` and received bytes touch the books. -/
theorem books_of_quiet_step
    {l l' : PingerLoop}
    {label : PingerLabel}
    (hRecord : ∀ now, label ≠ .record now)
    (hReceive : ∀ ec now bytes, label ≠ .receive ec now bytes)
    (hStep : l.step label = some l') :
    l'.pinger.received = l.pinger.received ∧
      l'.pinger.lost = l.pinger.lost ∧
      l'.pinger.sendTimes = l.pinger.sendTimes := by
  cases label with
  | record now => exact absurd rfl (hRecord now)
  | receive ec now bytes =>
      exact absurd rfl (hReceive ec now bytes)
  | write | countSent | advance | readReceived | readLost =>
      simp only [PingerLoop.step] at hStep
      split at hStep
      · cases hStep
        exact ⟨rfl, rfl, rfl⟩
      · cases hStep
  | check =>
      simp only [PingerLoop.step] at hStep
      split at hStep
      · cases hStep
        exact ⟨rfl, rfl, rfl⟩
      · cases hStep
        exact ⟨rfl, rfl, rfl⟩
      · cases hStep
  | requestStop =>
      cases hStep
      exact ⟨rfl, rfl, rfl⟩

/- In the window a new code does not meet its own entry. -/
theorem booksRight_afterRecord
    {s : EchoLink}
    {now : Int}
    {loop : PingerLoop}
    (hSynced : LoopSynced s)
    (hNext : s.next ≤ s.recordTimes.length)
    (hBooks : BooksRight s)
    (hWindow : s.Window)
    (hStep : s.loop.step (.record now) = some loop) :
    BooksRight (s.afterLoop (.record now) loop) := by
  rcases hBooks with ⟨hReceived, hLost, hKeys, hFind⟩
  simp only [PingerLoop.step] at hStep
  split at hStep
  · rename_i hPoint
    cases hStep
    have hByte := hSynced.byte_eq
    have hWritten := hSynced.written_eq
    simp only [hPoint, behind, pendingRecord]
      at hByte hWritten
    rw [hWritten, Nat.add_sub_cancel] at hByte
    have hClose : s.recordTimes.length < s.next + 240 := by
      have hCodes : PingerLoop.nbCodes = 240 := rfl
      simp only [Window, hCodes] at hWindow
      omega
    refine ⟨hReceived, hLost, ?_, ?_⟩
    · intro key hKey
      simp only [afterLoop, OrderedMap.keys_assign] at hKey
      rcases Finset.mem_insert.mp hKey with hNew | hOld
      · refine ⟨s.recordTimes.length, hNext, ?_, ?_⟩
        · simp [afterLoop]
        · rw [hNew, hByte]
      · rcases hKeys key hOld with
          ⟨number, hLow, hHigh, hCode⟩
        refine ⟨number, hLow, ?_, hCode⟩
        simp only [afterLoop, List.length_append]
        exact Nat.lt_add_right _ hHigh
    · intro number hLow hHigh
      have hLow' : s.next ≤ number := hLow
      simp only [afterLoop, List.length_append,
        List.length_singleton] at hHigh ⊢
      by_cases hLast : number = s.recordTimes.length
      · subst hLast
        rw [hByte, OrderedMap.find?_assign_self]
        simp
      · have hOld : number < s.recordTimes.length := by omega
        have hNe : codeOf number ≠ s.loop.byte := by
          intro hSame
          rw [hByte] at hSame
          apply hLast
          exact codeOf_injective_of_window s.next
            ⟨hLow', by omega⟩ ⟨hNext, hClose⟩ hSame
        rw [OrderedMap.find?_assign_of_ne _ _ hNe,
          hFind number hLow' hOld,
          List.getElem?_append_left hOld]
  · cases hStep

/- The steps of the loop keep the invariant. -/
theorem consistent_loop
    {s s' : EchoLink}
    {label : PingerLabel}
    (hConsistent : Consistent s)
    (hWindow : s.Window)
    (hStep : step s (.loop label) = some s') :
    Consistent s' := by
  have hCase : (∀ ec now bytes, label ≠ .receive ec now bytes) ∧
      ∃ loop, s.loop.step label = some loop ∧
        s.afterLoop label loop = s' := by
    cases label with
    | receive ec now bytes => cases hStep
    | write | countSent | record | advance | readReceived
    | readLost | check | requestStop =>
        exact ⟨by simp, Option.map_eq_some_iff.mp hStep⟩
  rcases hCase with ⟨hReceive, loop, hLoop, rfl⟩
  rcases hConsistent with ⟨hSynced, hOrdered, hBooks⟩
  refine ⟨loopSynced_afterLoop hSynced hLoop,
    linkOrdered_afterLoop hSynced hOrdered hLoop, ?_⟩
  by_cases hRecord : ∃ now, label = .record now
  · rcases hRecord with ⟨now, rfl⟩
    exact booksRight_afterRecord hSynced hOrdered.next_le
      hBooks hWindow hLoop
  · have hQuiet := books_of_quiet_step
      (fun now hLabel => hRecord ⟨now, hLabel⟩) hReceive hLoop
    rcases hBooks with ⟨hReceived, hLost, hKeys, hFind⟩
    have hSame : (s.afterLoop label loop).delivered =
          s.delivered ∧
        (s.afterLoop label loop).dropped = s.dropped ∧
        (s.afterLoop label loop).recordTimes =
          s.recordTimes ∧
        (s.afterLoop label loop).loop = loop := by
      cases label with
      | record now => exact absurd ⟨now, rfl⟩ hRecord
      | write | countSent | advance | readReceived | readLost
      | check | receive | requestStop =>
          exact ⟨rfl, rfl, rfl, rfl⟩
    rcases hSame with ⟨hDelivered, hDropped, hTimes, hAfter⟩
    refine ⟨?_, ?_, ?_, ?_⟩
    · rw [hAfter, hQuiet.1, hDelivered]
      exact hReceived
    · rw [hAfter, hQuiet.2.1, hDropped, next_afterLoop]
      exact hLost
    · rw [hAfter, hQuiet.2.2, hTimes, next_afterLoop]
      exact hKeys
    · rw [hAfter, hQuiet.2.2, hTimes, next_afterLoop]
      exact hFind

/- Another transmission has another number. -/
theorem ne_of_mem_eraseIdx
    {flight : List (Nat × Byte)}
    {index : Nat}
    {transmission other : Nat × Byte}
    (hPairwise : flight.Pairwise fun a b => a.1 < b.1)
    (hIndex : flight[index]? = some transmission)
    (hOther : other ∈ flight.eraseIdx index) :
    other.1 ≠ transmission.1 := by
  rcases List.mem_eraseIdx_iff_getElem?.mp hOther with
    ⟨place, hPlace, hAt⟩
  rcases List.getElem?_eq_some_iff.mp hIndex with
    ⟨hBound, rfl⟩
  rcases List.getElem?_eq_some_iff.mp hAt with
    ⟨hBound', rfl⟩
  have hOrder := List.pairwise_iff_getElem.mp hPairwise
  rcases lt_or_gt_of_ne hPlace with hLt | hGt
  · exact (hOrder place index hBound' hBound hLt).ne
  · exact (hOrder index place hBound hBound' hGt).ne'

/- A loss keeps the invariant. -/
theorem consistent_drop
    {s s' : EchoLink}
    {index : Nat}
    (hConsistent : Consistent s)
    (hStep : step s (.drop index) = some s') :
    Consistent s' := by
  simp only [step] at hStep
  split at hStep
  · cases hStep
  · rename_i transmission hIndex
    cases hStep
    rcases hConsistent with ⟨hSynced, hOrdered, hBooks⟩
    rcases hOrdered with
      ⟨hNext, hFlying, hUndropped, hDroppedLt, hPairwise,
        hSettled⟩
    rcases hBooks with ⟨hReceived, hLost, hKeys, hFind⟩
    have hMem := List.mem_of_getElem? hIndex
    have hSub := s.inFlight.eraseIdx_sublist index
    refine ⟨⟨hSynced.written_eq, hSynced.behind_le,
      hSynced.byte_eq⟩, ⟨hNext, ?_, ?_, ?_, ?_, ?_⟩,
      ⟨hReceived, ?_, hKeys, hFind⟩⟩
    · intro other hOther
      exact hFlying other (hSub.subset hOther)
    · intro other hOther hDropped
      rcases Finset.mem_insert.mp hDropped with hSame | hOld
      · exact ne_of_mem_eraseIdx hPairwise hIndex hOther hSame
      · exact hUndropped other (hSub.subset hOther) hOld
    · intro number hDropped
      rcases Finset.mem_insert.mp hDropped with rfl | hOld
      · exact (hFlying transmission hMem).2.2
      · exact hDroppedLt number hOld
    · exact hPairwise.sublist hSub
    · intro number hLow hHigh
      rcases hSettled number hLow hHigh with
        hDropped | ⟨other, hOther, hNumber⟩
      · exact Or.inl (Finset.mem_insert_of_mem hDropped)
      · by_cases hSame : other = transmission
        · left
          rw [← hNumber, hSame]
          exact Finset.mem_insert_self _ _
        · right
          refine ⟨other, ?_, hNumber⟩
          rw [List.mem_eraseIdx_iff_getElem?]
          rcases List.getElem?_of_mem hOther with ⟨i, hAt⟩
          refine ⟨i, ?_, hAt⟩
          rintro rfl
          rw [hAt] at hIndex
          exact hSame (Option.some.inj hIndex)
    · have hNew : ¬ transmission.1 < s.next :=
        not_lt.mpr (hFlying transmission hMem).2.1
      rw [hLost]
      congr 1
      ext number
      rw [Finset.mem_filter, Finset.mem_filter,
        Finset.mem_insert]
      constructor
      · rintro ⟨hDropped, hLow⟩
        exact ⟨Or.inr hDropped, hLow⟩
      · rintro ⟨rfl | hDropped, hLow⟩
        · exact absurd hLow hNew
        · exact ⟨hDropped, hLow⟩

end EchoLink

end ModemTester

------------------------------------------------------------
-- The Echo
------------------------------------------------------------

namespace ModemTester

namespace EchoLink

/- An echo in the window either has its own entry or none. -/
theorem echoed_eq
    {s : EchoLink}
    (now : Int)
    {number : Nat}
    (hBooks : BooksRight s)
    (hWindow : s.Window)
    (hLow : s.next ≤ number)
    (hHigh : number < s.written) :
    s.echoed now (codeOf number) =
      match s.recordTimes[number]? with
      | none => s.loop.pinger
      | some sendTime =>
          { s.loop.pinger with
            rtt := s.loop.pinger.rtt + (now - sendTime)
            received := s.loop.pinger.received + 1
            lost := s.loop.pinger.lost +
              s.loop.pinger.sendTimes.distance (codeOf number)
            sendTimes :=
              s.loop.pinger.sendTimes.eraseThrough
                (codeOf number) } := by
  have hStandard : IsStandardCode (codeOf number) :=
    PingerLoop.isStandardCode_of_lt (codeOf_lt number)
  rw [echoed, MasterPinger.handleReceive_singleton,
    if_pos hStandard]
  cases hTime : s.recordTimes[number]? with
  | none =>
      apply MasterPinger.matchEcho_of_notMem
      intro hMem
      rcases hBooks.keys_from _ hMem with
        ⟨other, hOtherLow, hOtherHigh, hSame⟩
      have hUnrecorded : s.recordTimes.length ≤ number :=
        List.getElem?_eq_none_iff.mp hTime
      have hCodes : PingerLoop.nbCodes = 240 := rfl
      simp only [Window, hCodes] at hWindow
      have hEq := codeOf_injective_of_window s.next
        ⟨hLow, by omega⟩ ⟨hOtherLow, by omega⟩ hSame
      omega
  | some sendTime =>
      apply MasterPinger.matchEcho_of_find
      rcases List.getElem?_eq_some_iff.mp hTime with
        ⟨hRecorded, -⟩
      rw [hBooks.find_eq number hLow hRecorded, hTime]

/- What stands before a code in the map. -/
theorem distance_codeOf
    {s : EchoLink}
    (number : Nat)
    (hSynced : LoopSynced s)
    (hBooks : BooksRight s)
    (hWindow : s.Window) :
    s.loop.pinger.sendTimes.distance (codeOf number) =
      (smallerCodes s.next s.recordTimes.length
        number).card := by
  have hKeys :
      (s.loop.pinger.sendTimes.keys.filter
        fun key => key < codeOf number) =
      (smallerCodes s.next s.recordTimes.length
        number).image codeOf := by
    ext key
    rw [Finset.mem_filter, Finset.mem_image]
    constructor
    · rintro ⟨hMem, hLt⟩
      rcases hBooks.keys_from key hMem with
        ⟨other, hLow, hHigh, rfl⟩
      refine ⟨other, ?_, rfl⟩
      rw [smallerCodes, Finset.mem_filter, Finset.mem_Ico,
        ← codeOf_val, ← codeOf_val]
      exact ⟨⟨hLow, hHigh⟩, hLt⟩
    · rintro ⟨other, hOther, rfl⟩
      rw [smallerCodes, Finset.mem_filter, Finset.mem_Ico,
        ← codeOf_val, ← codeOf_val] at hOther
      refine ⟨?_, hOther.2⟩
      rw [OrderedMap.mem_keys_iff,
        hBooks.find_eq other hOther.1.1 hOther.1.2]
      exact ⟨_, List.getElem?_eq_getElem hOther.1.2⟩
  rw [OrderedMap.distance_eq_card, hKeys]
  apply Finset.card_image_of_injOn
  intro a hA b hB hSame
  rw [Finset.mem_coe, smallerCodes, Finset.mem_filter,
    Finset.mem_Ico] at hA hB
  have hWritten := hSynced.written_eq
  have hCodes : PingerLoop.nbCodes = 240 := rfl
  simp only [Window, hCodes] at hWindow
  exact codeOf_injective_of_window s.next
    ⟨hA.1.1, by omega⟩ ⟨hB.1.1, by omega⟩ hSame

/-
  Everything between the last echo and the oldest
  transmission in flight was dropped.
-/
theorem card_dropped_before
    {s : EchoLink}
    {transmission : Nat × Byte}
    {rest : List (Nat × Byte)}
    (hOrdered : LinkOrdered s)
    (hFlight : s.inFlight = transmission :: rest) :
    (s.dropped.filter
        fun number => number < transmission.1).card =
      (s.dropped.filter fun number => number < s.next).card +
        (transmission.1 - s.next) := by
  rcases hOrdered with ⟨-, hFlying, -, -, hPairwise, hSettled⟩
  rw [hFlight] at hFlying hPairwise hSettled
  have hHead := hFlying transmission List.mem_cons_self
  have hSplit :
      (s.dropped.filter
        fun number => number < transmission.1) =
      (s.dropped.filter fun number => number < s.next) ∪
        Finset.Ico s.next transmission.1 := by
    ext number
    rw [Finset.mem_union, Finset.mem_filter,
      Finset.mem_filter, Finset.mem_Ico]
    constructor
    · rintro ⟨hDropped, hLt⟩
      by_cases hOld : number < s.next
      · exact Or.inl ⟨hDropped, hOld⟩
      · exact Or.inr ⟨not_lt.mp hOld, hLt⟩
    · rintro (⟨hDropped, hOld⟩ | ⟨hLow, hLt⟩)
      · exact ⟨hDropped, lt_of_lt_of_le hOld hHead.2.1⟩
      · refine ⟨?_, hLt⟩
        rcases hSettled number hLow (hLt.trans hHead.2.2) with
          hDropped | ⟨other, hOther, rfl⟩
        · exact hDropped
        · rcases List.mem_cons.mp hOther with rfl | hBehind
          · exact absurd hLt (lt_irrefl _)
          · have hLater :=
              (List.pairwise_cons.mp hPairwise).1 other hBehind
            exact absurd hLt (lt_asymm hLater)
  have hDisjoint : Disjoint
      (s.dropped.filter fun number => number < s.next)
      (Finset.Ico s.next transmission.1) := by
    rw [Finset.disjoint_left]
    intro number hOld hNew
    have hLt := (Finset.mem_filter.mp hOld).2
    exact absurd hLt (not_lt.mpr (Finset.mem_Ico.mp hNew).1)
  rw [hSplit, Finset.card_union_of_disjoint hDisjoint,
    Nat.card_Ico]

/- One echo is accounted for exactly when it is timely. -/
theorem accurate_echo_iff
    {s : EchoLink}
    {now : Int}
    (hConsistent : Consistent s)
    (hWindow : s.Window) :
    s.Accurate (.echo now) ↔ s.Timely (.echo now) := by
  rcases hConsistent with ⟨hSynced, hOrdered, hBooks⟩
  unfold Accurate Timely
  cases hFlight : s.inFlight with
  | nil => exact Iff.rfl
  | cons transmission rest =>
      have hHead := hOrdered.flying transmission
        (by rw [hFlight]; exact List.mem_cons_self)
      have hEchoed := echoed_eq now hBooks hWindow
        hHead.2.1 hHead.2.2
      have hDropped := card_dropped_before hOrdered hFlight
      have hDistance :=
        distance_codeOf transmission.1 hSynced hBooks hWindow
      simp only [hHead.1, hDropped]
      rw [hEchoed]
      cases hTime : s.recordTimes[transmission.1]? with
      | none =>
          have hUnrecorded :
              s.recordTimes.length ≤ transmission.1 :=
            List.getElem?_eq_none_iff.mp hTime
          simp only [Option.map_none, reduceCtorEq, false_and,
            and_false, false_iff, not_and, hBooks.received_eq]
          intro hRecorded
          exact absurd hRecorded (not_lt.mpr hUnrecorded)
      | some sendTime =>
          rcases List.getElem?_eq_some_iff.mp hTime with
            ⟨hRecorded, -⟩
          have hNarrow :
              s.recordTimes.length - s.next < 240 := by
            have hWritten := hSynced.written_eq
            have hCodes : PingerLoop.nbCodes = 240 := rfl
            simp only [Window, hCodes] at hWindow
            omega
          have hLaps := card_smallerCodes_iff hHead.2.1
            hRecorded hNarrow
          simp only [Option.map_some, hBooks.received_eq,
            hBooks.lost_eq, hDistance, true_and,
            Nat.add_left_cancel_iff, hRecorded]
          exact hLaps

/- The link once the echo of a transmission is handled. -/
def afterEcho
    (s : EchoLink)
    (now : Int)
    (transmission : Nat × Byte)
    (rest : List (Nat × Byte)) : EchoLink :=
  { s with
    loop :=
      { s.loop with pinger := s.echoed now transmission.2 }
    inFlight := rest
    delivered := s.delivered ++ [transmission.1] }

theorem next_afterEcho
    (s : EchoLink)
    (now : Int)
    (transmission : Nat × Byte)
    (rest : List (Nat × Byte)) :
    (s.afterEcho now transmission rest).next =
      transmission.1 + 1 := by
  simp [next, afterEcho]

theorem eq_afterEcho_of_step
    {s s' : EchoLink}
    {now : Int}
    (hStep : step s (.echo now) = some s') :
    ∃ transmission rest,
      s.inFlight = transmission :: rest ∧
        s' = s.afterEcho now transmission rest := by
  simp only [step] at hStep
  split at hStep
  · cases hStep
  · rename_i transmission rest hFlight
    cases hStep
    exact ⟨transmission, rest, hFlight, rfl⟩

/- Within a lap the codes order the transmissions. -/
theorem codeOf_lt_codeOf_iff
    {low high sent number : Nat}
    (hLaps : low / 240 = (high - 1) / 240)
    (hSent : low ≤ sent ∧ sent < high)
    (hNumber : low ≤ number ∧ number < high) :
    codeOf sent < codeOf number ↔ sent < number := by
  rw [Fin.lt_def, codeOf_val, codeOf_val]
  omega

/- What was behind the transmission echoed is still there. -/
theorem linkOrdered_afterEcho
    {s : EchoLink}
    (now : Int)
    {transmission : Nat × Byte}
    {rest : List (Nat × Byte)}
    (hOrdered : LinkOrdered s)
    (hFlight : s.inFlight = transmission :: rest)
    (hRecorded : transmission.1 < s.recordTimes.length) :
    LinkOrdered (s.afterEcho now transmission rest) := by
  have hFlying := hOrdered.flying
  have hPairwise := hOrdered.ordered
  have hSettled := hOrdered.settled
  rw [hFlight] at hFlying hPairwise hSettled
  have hHead := hFlying transmission List.mem_cons_self
  have hBehind := (List.pairwise_cons.mp hPairwise).1
  have hNext := next_afterEcho s now transmission rest
  refine ⟨?_, ?_, ?_, hOrdered.dropped_lt, ?_, ?_⟩
  · exact le_of_eq_of_le hNext hRecorded
  · intro other hOther
    have hOld := hFlying other (List.mem_cons_of_mem _ hOther)
    refine ⟨hOld.1, ?_, hOld.2.2⟩
    exact le_of_eq_of_le hNext (hBehind other hOther)
  · intro other hOther
    apply hOrdered.flying_dropped
    rw [hFlight]
    exact List.mem_cons_of_mem _ hOther
  · exact (List.pairwise_cons.mp hPairwise).2
  · intro number hLow hHigh
    have hPast : transmission.1 < number :=
      le_of_eq_of_le hNext.symm hLow
    rcases hSettled number
        (le_trans hHead.2.1 hPast.le) hHigh with
      hDropped | ⟨other, hOther, hNumber⟩
    · exact Or.inl hDropped
    · rcases List.mem_cons.mp hOther with rfl | hRest
      · exact absurd hPast (by simp [hNumber])
      · exact Or.inr ⟨other, hRest, hNumber⟩

/-
  A transmission in flight was not dropped, so that the
  echo does not change which ones count as lost.
-/
theorem dropped_afterEcho
    {s : EchoLink}
    (now : Int)
    {transmission : Nat × Byte}
    {rest : List (Nat × Byte)}
    (hOrdered : LinkOrdered s)
    (hFlight : s.inFlight = transmission :: rest) :
    (s.dropped.filter fun number =>
        number < transmission.1) =
      s.dropped.filter fun number =>
        number < (s.afterEcho now transmission rest).next := by
  have hUndropped : transmission.1 ∉ s.dropped := by
    apply hOrdered.flying_dropped
    rw [hFlight]
    exact List.mem_cons_self
  rw [next_afterEcho]
  apply Finset.filter_congr
  intro number hDropped
  have hNe : number ≠ transmission.1 := by
    rintro rfl
    exact hUndropped hDropped
  omega

/- The map keeps what is behind the transmission echoed. -/
theorem booksRight_afterEcho
    {s : EchoLink}
    {now : Int}
    {transmission : Nat × Byte}
    {rest : List (Nat × Byte)}
    (hOrdered : LinkOrdered s)
    (hBooks : BooksRight s)
    (hWindow : s.Window)
    (hFlight : s.inFlight = transmission :: rest)
    (hRecorded : transmission.1 < s.recordTimes.length)
    (hLaps : s.next / PingerLoop.nbCodes =
      (s.recordTimes.length - 1) / PingerLoop.nbCodes)
    (hReceived : (s.echoed now transmission.2).received =
      s.delivered.length + 1)
    (hLost : (s.echoed now transmission.2).lost =
      (s.dropped.filter
        fun number => number < transmission.1).card) :
    BooksRight (s.afterEcho now transmission rest) := by
  have hHead := hOrdered.flying transmission
    (by rw [hFlight]; exact List.mem_cons_self)
  have hNext := next_afterEcho s now transmission rest
  have hEchoed := echoed_eq now hBooks hWindow
    hHead.2.1 hHead.2.2
  rw [List.getElem?_eq_getElem hRecorded] at hEchoed
  have hKeys :
      (s.echoed now transmission.2).sendTimes =
        s.loop.pinger.sendTimes.eraseThrough
          (codeOf transmission.1) := by
    rw [hHead.1, hEchoed]
  refine ⟨?_, ?_, ?_, ?_⟩
  · rw [afterEcho, List.length_append]
    exact hReceived
  · refine hLost.trans ?_
    rw [dropped_afterEcho now hOrdered hFlight]
    rfl
  · intro key hKey
    have hAfter : key ∈
        (s.echoed now transmission.2).sendTimes.keys := hKey
    rw [hKeys, OrderedMap.keys_eraseThrough,
      Finset.mem_filter] at hAfter
    rcases hBooks.keys_from key hAfter.1 with
      ⟨number, hLow, hHigh, rfl⟩
    refine ⟨number, ?_, hHigh, rfl⟩
    exact le_of_eq_of_le hNext
      ((codeOf_lt_codeOf_iff hLaps ⟨hHead.2.1, hRecorded⟩
        ⟨hLow, hHigh⟩).mp hAfter.2)
  · intro number hLow hHigh
    have hPast : transmission.1 < number :=
      le_of_eq_of_le hNext.symm hLow
    have hOld : s.next ≤ number :=
      le_trans hHead.2.1 hPast.le
    have hFind := hBooks.find_eq number hOld hHigh
    have hBehind := (codeOf_lt_codeOf_iff hLaps
      ⟨hHead.2.1, hRecorded⟩ ⟨hOld, hHigh⟩).mpr hPast
    refine Eq.trans ?_ hFind
    exact (congrArg
      (fun sendTimes => OrderedMap.find? sendTimes _)
        hKeys).trans
      ((OrderedMap.find?_eraseThrough _ _ _).trans
        (if_pos hBehind))

/- A timely echo keeps the invariant. -/
theorem consistent_echo
    {s s' : EchoLink}
    {now : Int}
    (hConsistent : Consistent s)
    (hWindow : s.Window)
    (hTimely : s.Timely (.echo now))
    (hStep : step s (.echo now) = some s') :
    Consistent s' := by
  have hAccurate :=
    (accurate_echo_iff hConsistent hWindow).mpr hTimely
  rcases hConsistent with ⟨hSynced, hOrdered, hBooks⟩
  rcases eq_afterEcho_of_step hStep with
    ⟨transmission, rest, hFlight, rfl⟩
  simp only [Accurate, Timely, hFlight] at hAccurate hTimely
  rcases hTimely with ⟨hRecorded, hLaps⟩
  exact ⟨⟨hSynced.written_eq, hSynced.behind_le,
      hSynced.byte_eq⟩,
    linkOrdered_afterEcho now hOrdered hFlight hRecorded,
    booksRight_afterEcho hOrdered hBooks hWindow hFlight
      hRecorded hLaps hAccurate.1 hAccurate.2.2⟩

end EchoLink

end ModemTester

------------------------------------------------------------
-- Accounting Along A Run
------------------------------------------------------------

namespace ModemTester

namespace EchoLink

/- A step whose echo, if it has one, is timely. -/
theorem consistent_step
    (s : EchoLink)
    (label : EchoLabel)
    (s' : EchoLink)
    (hConsistent : Consistent s)
    (hWindow : s.Window)
    (hTimely : s.Timely label)
    (hStep : step s label = some s') :
    Consistent s' := by
  cases label with
  | loop label => exact consistent_loop hConsistent hWindow hStep
  | drop index => exact consistent_drop hConsistent hStep
  | echo now =>
      exact consistent_echo hConsistent hWindow hTimely hStep

/-
  In every run within the window, all echoes are accounted
  for exactly when all of them are timely: none is handled
  before the loop has recorded its transmission, and none
  while the outstanding transmissions span a wrap of the
  code counter.
-/
theorem accurate_iff_timely
    (labels : List EchoLabel)
    (hWindow : StepSystem.Throughout step Window start labels) :
    StepSystem.Along step Accurate start labels ↔
      StepSystem.Along step Timely start labels := by
  apply StepSystem.along_iff_along (I := Consistent)
    (P := Window) consistent_step _ consistent_start hWindow
  intro s label s' hConsistent hInWindow hStep
  cases label with
  | loop label => exact Iff.rfl
  | drop index => exact Iff.rfl
  | echo now => exact accurate_echo_iff hConsistent hInWindow

/- Two transmissions, the first of them dropped. -/
theorem accurate_iff_timely_after_drop :
    StepSystem.Along step Accurate start
        [.loop .write, .loop .countSent, .loop (.record 0),
          .loop .advance, .loop .readReceived, .loop .check,
          .loop .write, .loop .countSent, .loop (.record 9),
          .drop 0, .echo 12] ↔
      StepSystem.Along step Timely start
        [.loop .write, .loop .countSent, .loop (.record 0),
          .loop .advance, .loop .readReceived, .loop .check,
          .loop .write, .loop .countSent, .loop (.record 9),
          .drop 0, .echo 12] :=
  accurate_iff_timely _ (by decide)

/-
  On a link that drops nothing, the echo that overtakes the
  recording of its transmission is not counted.
-/
theorem inaccurate_before_record :
    StepSystem.Throughout step Window start
        [.loop .write, .echo 1] ∧
      ¬ StepSystem.Along step Accurate start
        [.loop .write, .echo 1] := by
  decide

/-
  As long as all echoes are timely, a link that has dropped
  nothing shows no loss.
-/
theorem lost_eq_zero_of_lossless
    {labels : List EchoLabel}
    {s : EchoLink}
    (hWindow : StepSystem.Throughout step Window start labels)
    (hTimely : StepSystem.Along step Timely start labels)
    (hRun : StepSystem.run step start labels = some s)
    (hLossless : s.dropped = ∅) :
    s.loop.pinger.lost = 0 := by
  have hConsistent : Consistent s :=
    StepSystem.run_invariant_along (I := Consistent)
      (fun s label s' hBefore hOk hStep =>
        consistent_step s label s' hBefore hOk.1 hOk.2 hStep)
      consistent_start
      (StepSystem.along_and_of_throughout hWindow hTimely)
      hRun
  rw [hConsistent.books.lost_eq, hLossless]
  rfl

end EchoLink

end ModemTester
