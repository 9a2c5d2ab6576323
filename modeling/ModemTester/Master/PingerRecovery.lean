import ModemTester.Master.PingerCheck

/-
  Reachability after a loss history.

  When every transmission is echoed within its iteration of
  the send loop, one lap of the code counter settles what
  was in the map of send times before: an echo that comes
  after its code is recorded erases the entry. What is left
  are transmissions whose echo came too early, between the
  write and the recording, where it finds no entry or that
  of the lap before.

  What the reachability check then computes is the number of
  entries overwritten so far, which never decreases again,
  and the number of these.

  Between two steps of the loop any other bytes may be
  handled: late echoes, noise, commands.

  Key definitions include:
    * `PingerLoop.Iteration`
    * `PingerLoop.Iteration.Echoes`
    * `PingerLoop.upToLastCheck`
    * `PingerLoop.earlyCodes`

  Main declarations:
    * `PingerLoop.sent_eq_of_readings`
    * `PingerLoop.exists_run_upToLastCheck`
    * `PingerLoop.reachable_after_echoes_iff`
    * `PingerLoop.unreachable_after_silence`
-/

------------------------------------------------------------
-- Codes In The Map
------------------------------------------------------------

namespace ModemTester

namespace MasterPinger

/- A code is not in the map after its own echo. -/
theorem notMem_matchEcho_self
    (p : MasterPinger)
    (recvTime : Int)
    (code : Byte) :
    code ∉ (p.matchEcho recvTime code).sendTimes.keys := by
  by_cases hMem : code ∈ p.sendTimes.keys
  · rw [keys_matchEcho_of_mem hMem, Finset.mem_filter]
    exact fun hKept => lt_irrefl code hKept.2
  · rw [matchEcho_of_notMem hMem]
    exact hMem

/- The bytes of several reads, one after the other. -/
def receiveAll
    (p : MasterPinger)
    (reads : List (Int × Byte)) : MasterPinger :=
  reads.foldl
    (fun p read => (p.handleReceive 0 read.1 [read.2]).1) p

/-
  What single bytes do not change, no sequence of bytes
  changes.
-/
theorem receiveAll_induction
    {P : MasterPinger → Prop}
    (hEcho : ∀ p recvTime byte, P p →
      P (matchEcho p recvTime byte))
    (reads : List (Int × Byte))
    {p : MasterPinger}
    (hStart : P p) :
    P (p.receiveAll reads) := by
  induction reads generalizing p with
  | nil => exact hStart
  | cons read reads ih =>
      refine ih (p := (p.handleReceive 0 read.1 [read.2]).1) ?_
      rw [handleReceive_singleton]
      split
      · exact hEcho p read.1 read.2 hStart
      · exact hStart

theorem receiveAll_sent
    (p : MasterPinger)
    (reads : List (Int × Byte)) :
    (p.receiveAll reads).sent = p.sent :=
  receiveAll_induction (P := fun q => q.sent = p.sent)
    (fun q recvTime byte hSent => by simpa using hSent)
    reads rfl

theorem receiveAll_stopRequested
    (p : MasterPinger)
    (reads : List (Int × Byte)) :
    (p.receiveAll reads).stopRequested = p.stopRequested :=
  receiveAll_induction
    (P := fun q => q.stopRequested = p.stopRequested)
    (fun q recvTime byte hStop => by simpa using hStop)
    reads rfl

theorem receiveAll_keys_subset
    (p : MasterPinger)
    (reads : List (Int × Byte)) :
    (p.receiveAll reads).sendTimes.keys ⊆
      p.sendTimes.keys :=
  receiveAll_induction
    (P := fun q => q.sendTimes.keys ⊆ p.sendTimes.keys)
    (fun q recvTime byte hKeys =>
      (matchEcho_keys_subset q recvTime byte).trans hKeys)
    reads (Finset.Subset.refl _)

/- Several bytes move entries from the map to the counters. -/
theorem receiveAll_books
    (p : MasterPinger)
    (reads : List (Int × Byte)) :
    (p.receiveAll reads).booked = p.booked ∧
      p.CountersFrom (p.receiveAll reads) :=
  receiveAll_induction
    (P := fun q => q.booked = p.booked ∧ p.CountersFrom q)
    (fun q recvTime byte hBooks => by
      have hNext := countersFrom_matchEcho q recvTime byte
      exact ⟨(matchEcho_booked q recvTime byte).trans
          hBooks.1,
        le_trans hBooks.2.1 hNext.1,
        le_trans hBooks.2.2 hNext.2⟩)
    reads ⟨rfl, le_refl _, le_refl _⟩

/- Nor is it after more bytes, its echo among them. -/
theorem notMem_receiveAll
    {p : MasterPinger}
    {code : Byte}
    {reads : List (Int × Byte)}
    (hStandard : IsStandardCode code)
    (hEchoed : code ∈ reads.map Prod.snd) :
    code ∉ (p.receiveAll reads).sendTimes.keys := by
  rcases List.mem_map.mp hEchoed with ⟨⟨now, byte⟩, hMem, rfl⟩
  rcases List.append_of_mem hMem with ⟨front, back, rfl⟩
  have hEcho : byte ∉ ((p.receiveAll front).handleReceive 0 now
      [byte]).1.sendTimes.keys := by
    rw [handleReceive_singleton, if_pos hStandard]
    exact notMem_matchEcho_self _ now byte
  have hSplit : p.receiveAll (front ++ (now, byte) :: back) =
      (((p.receiveAll front).handleReceive 0 now
        [byte]).1).receiveAll back := by
    simp [receiveAll]
  rw [hSplit]
  exact fun hLeft => hEcho (receiveAll_keys_subset _ back hLeft)

end MasterPinger

end ModemTester

------------------------------------------------------------
-- Iterations Of The Send Loop
------------------------------------------------------------

namespace ModemTester

namespace PingerLoop

/- Reads of one byte each, handled without error. -/
def receives
    (reads : List (Int × Byte)) : List PingerLabel :=
  reads.map fun read => .receive 0 read.1 [read.2]

/-
  One iteration of the send loop: the bytes handled between
  its steps, the date recorded, and which counter the check
  reads first.
-/
structure Iteration where
  beforeWrite : List (Int × Byte)
  beforeCount : List (Int × Byte)
  beforeRecord : List (Int × Byte)
  afterRecord : List (Int × Byte)
  afterAdvance : List (Int × Byte)
  duringCheck : List (Int × Byte)
  recordTime : Int
  lostFirst : Bool

namespace Iteration

def sending (it : Iteration) : List PingerLabel :=
  receives it.beforeWrite ++ .write ::
    (receives it.beforeCount ++ .countSent ::
      (receives it.beforeRecord ++ [.record it.recordTime]))

def waiting (it : Iteration) : List PingerLabel :=
  receives it.afterRecord ++ .advance ::
    receives it.afterAdvance

def reading (it : Iteration) : List PingerLabel :=
  (if it.lostFirst then .readLost else .readReceived) ::
    receives it.duringCheck

/- The steps before the check, with what runs between. -/
def beforeCheck (it : Iteration) : List PingerLabel :=
  it.sending ++ (it.waiting ++ it.reading)

/- The echo is handled with the code recorded. -/
def EchoesRecorded (it : Iteration) (code : Byte) : Prop :=
  code ∈ (it.afterRecord ++ it.afterAdvance).map Prod.snd

instance (it : Iteration) (code : Byte) :
    Decidable (it.EchoesRecorded code) := by
  unfold EchoesRecorded
  infer_instance

/-
  The echo of the iteration's own code is handled after the
  write and before the reachability check.
-/
def Echoes (it : Iteration) (code : Byte) : Prop :=
  code ∈ (it.beforeCount ++ it.beforeRecord).map Prod.snd ∨
    it.EchoesRecorded code

/- It is handled before the code is recorded, and not after. -/
def EchoesEarly (it : Iteration) (code : Byte) : Prop :=
  code ∈ (it.beforeCount ++ it.beforeRecord).map Prod.snd ∧
    ¬ it.EchoesRecorded code

instance (it : Iteration) (code : Byte) :
    Decidable (it.EchoesEarly code) := by
  unfold EchoesEarly
  infer_instance

theorem echoesEarly_of_echoes
    {it : Iteration}
    {code : Byte}
    (hEchoes : it.Echoes code)
    (hNotRecorded : ¬ it.EchoesRecorded code) :
    it.EchoesEarly code :=
  ⟨hEchoes.resolve_right hNotRecorded, hNotRecorded⟩

end Iteration

/- The steps of the iterations but for the last check. -/
def upToLastCheck : List Iteration → List PingerLabel
  | [] => []
  | [it] => it.beforeCheck
  | it :: next :: its =>
      it.beforeCheck ++ .check :: upToLastCheck (next :: its)

/- Every iteration sees the echo of the code it sends. -/
def AllEcho : Byte → List Iteration → Prop
  | _, [] => True
  | code, it :: its =>
      it.Echoes code ∧ AllEcho (nextCode code) its

/- Each iteration decides about the code that it sends. -/
def earlyFrom :
    Finset Byte → Byte → List Iteration → Finset Byte
  | codes, _, [] => codes
  | codes, code, it :: its =>
      earlyFrom
        (if it.EchoesEarly code then insert code codes
        else codes.erase code)
        (nextCode code) its

/-
  The codes whose last iteration sees its echo before the
  code is recorded only.
-/
def earlyCodes (code : Byte) (its : List Iteration) :
    Finset Byte :=
  earlyFrom ∅ code its

/- The codes in use are the 240 that the loop sends. -/
structure CodesBelow (p : MasterPinger) (byte : Byte) :
    Prop where
  byte_lt : byte.val < nbCodes
  keys_lt : ∀ key ∈ p.sendTimes.keys, key.val < nbCodes

theorem run_receives
    (p : MasterPinger)
    (byte : Byte)
    (point : LoopPoint)
    (reads : List (Int × Byte))
    (labels : List PingerLabel) :
    StepSystem.run step ⟨p, byte, point⟩
        (receives reads ++ labels) =
      StepSystem.run step ⟨p.receiveAll reads, byte, point⟩
        labels := by
  induction reads generalizing p with
  | nil => rfl
  | cons read reads ih =>
      have hStep :
          step ⟨p, byte, point⟩
              (.receive 0 read.1 [read.2]) =
            some
              ⟨(p.handleReceive 0 read.1 [read.2]).1,
                byte, point⟩ := rfl
      rw [receives, List.map_cons, List.cons_append,
        StepSystem.run_cons_of_step hStep]
      exact ih _

theorem step_write
    {p : MasterPinger}
    (byte : Byte)
    (hGoing : p.stopRequested = false) :
    step ⟨p, byte, .top⟩ .write =
      some ⟨p, byte, .written⟩ := by
  simp [step, hGoing]

theorem step_countSent
    (p : MasterPinger)
    (byte : Byte) :
    step ⟨p, byte, .written⟩ .countSent =
      some
        ⟨{ p with sent := p.sent + 1 }, byte, .counted⟩ := rfl

theorem step_record
    (p : MasterPinger)
    (byte : Byte)
    (now : Int) :
    step ⟨p, byte, .counted⟩ (.record now) =
      some
        ⟨{ p with sendTimes := p.sendTimes.assign byte now },
          byte, .recorded⟩ := rfl

theorem step_advance
    (p : MasterPinger)
    (byte : Byte) :
    step ⟨p, byte, .recorded⟩ .advance =
      some ⟨p, nextCode byte, .waiting⟩ := rfl

/-
  Up to the recording: the code has been added to the map,
  and nothing else.
-/
theorem exists_run_sending
    {p : MasterPinger}
    (byte : Byte)
    (it : Iteration)
    (hGoing : p.stopRequested = false) :
    ∃ q : MasterPinger,
      StepSystem.run step ⟨p, byte, .top⟩ it.sending =
        some ⟨q, byte, .recorded⟩ ∧
      q.stopRequested = false ∧
      q.sendTimes.keys ⊆ insert byte p.sendTimes.keys ∧
      q.sent = p.sent + 1 := by
  have hStop₁ := p.receiveAll_stopRequested it.beforeWrite
  have hKeys₁ := p.receiveAll_keys_subset it.beforeWrite
  have hSent₁ := p.receiveAll_sent it.beforeWrite
  rw [Iteration.sending, run_receives,
    StepSystem.run_cons_of_step
      (step_write byte (hStop₁.trans hGoing)), run_receives,
    StepSystem.run_cons_of_step (step_countSent _ byte),
    run_receives,
    StepSystem.run_cons_of_step (step_record _ byte _)]
  generalize p.receiveAll it.beforeWrite = p₁ at *
  have hStop₂ := p₁.receiveAll_stopRequested it.beforeCount
  have hKeys₂ := p₁.receiveAll_keys_subset it.beforeCount
  have hSent₂ := p₁.receiveAll_sent it.beforeCount
  generalize p₁.receiveAll it.beforeCount = p₂ at *
  refine ⟨_, rfl, ?_, ?_, ?_⟩
  · rw [MasterPinger.receiveAll_stopRequested]
    exact hStop₂.trans (hStop₁.trans hGoing)
  · rw [OrderedMap.keys_assign]
    apply Finset.insert_subset_insert
    exact (MasterPinger.receiveAll_keys_subset _ _).trans
      (hKeys₂.trans hKeys₁)
  · rw [MasterPinger.receiveAll_sent]
    simp only [hSent₂, hSent₁]

/- Up to the check: an echo takes the code out of the map. -/
theorem exists_run_waiting
    (p : MasterPinger)
    {byte : Byte}
    (it : Iteration)
    (hLt : byte.val < nbCodes) :
    ∃ q, StepSystem.run step ⟨p, byte, .recorded⟩ it.waiting =
        some ⟨q, nextCode byte, .waiting⟩ ∧
      q.stopRequested = p.stopRequested ∧
      q.sendTimes.keys ⊆ p.sendTimes.keys ∧
      (it.EchoesRecorded byte → byte ∉ q.sendTimes.keys) ∧
      q.sent = p.sent := by
  have hLast := run_receives (p.receiveAll it.afterRecord)
    (nextCode byte) .waiting it.afterAdvance []
  have hBoth : p.receiveAll
        (it.afterRecord ++ it.afterAdvance) =
      (p.receiveAll it.afterRecord).receiveAll
        it.afterAdvance := by
    simp [MasterPinger.receiveAll]
  rw [List.append_nil, ← hBoth] at hLast
  refine ⟨p.receiveAll (it.afterRecord ++ it.afterAdvance),
    ?_, ?_, ?_, ?_, ?_⟩
  · rw [Iteration.waiting, run_receives,
      StepSystem.run_cons_of_step (step_advance _ byte), hLast]
    rfl
  · exact MasterPinger.receiveAll_stopRequested _ _
  · exact MasterPinger.receiveAll_keys_subset _ _
  · exact MasterPinger.notMem_receiveAll
      (isStandardCode_of_lt hLt)
  · exact MasterPinger.receiveAll_sent _ _

/- What was booked in the counter that has been read. -/
def bookedSince (l : PingerLoop) : Nat :=
  match l.point with
  | .readReceived received => l.pinger.received - received
  | .readLost lost => l.pinger.lost - lost
  | _ => 0

/-
  The first read of the check and what runs before its next:
  what is booked meanwhile was in the map.
-/
theorem exists_run_reading
    (p : MasterPinger)
    (byte : Byte)
    (it : Iteration) :
    ∃ q point, StepSystem.run step ⟨p, byte, .waiting⟩
          it.reading =
        some ⟨q, byte, point⟩ ∧
      (readings ⟨q, byte, point⟩).isSome = true ∧
      q.stopRequested = p.stopRequested ∧
      q.sendTimes.keys ⊆ p.sendTimes.keys ∧
      q.sendTimes.size + bookedSince ⟨q, byte, point⟩ ≤
        p.sendTimes.size ∧
      q.sent = p.sent := by
  have hRest (point : LoopPoint) :=
    run_receives p byte point it.duringCheck []
  simp only [List.append_nil] at hRest
  refine ⟨p.receiveAll it.duringCheck,
    if it.lostFirst then .readLost p.lost
    else .readReceived p.received, ?_, ?_,
    MasterPinger.receiveAll_stopRequested _ _,
    MasterPinger.receiveAll_keys_subset _ _, ?_,
    MasterPinger.receiveAll_sent _ _⟩
  · unfold Iteration.reading
    cases it.lostFirst with
    | true =>
        have hRead : step ⟨p, byte, .waiting⟩ .readLost =
            some ⟨p, byte, .readLost p.lost⟩ := rfl
        exact (StepSystem.run_cons_of_step hRead).trans
          (hRest _)
    | false =>
        have hRead : step ⟨p, byte, .waiting⟩ .readReceived =
            some ⟨p, byte, .readReceived p.received⟩ := rfl
        exact (StepSystem.run_cons_of_step hRead).trans
          (hRest _)
  · cases it.lostFirst <;> rfl
  · have hBooks := p.receiveAll_books it.duringCheck
    simp only [MasterPinger.booked,
      MasterPinger.CountersFrom] at hBooks
    cases it.lostFirst <;>
      simp only [bookedSince, if_true, Bool.false_eq_true,
        if_false] <;>
      omega

/-
  An iteration, its check apart, has begun with `p`; `kept`
  is what was in the map when the check read first.
-/
structure Iterated
    (p : MasterPinger)
    (code : Byte)
    (it : Iteration)
    (kept : Finset Byte)
    (l : PingerLoop) : Prop where
  readings : l.readings.isSome = true
  byte : l.byte = nextCode code
  going : l.pinger.stopRequested = false
  sent : l.pinger.sent = p.sent + 1
  keys : l.pinger.sendTimes.keys ⊆ kept
  booked : l.pinger.sendTimes.size + l.bookedSince ≤ kept.card
  own : code ∈ kept → ¬ it.EchoesRecorded code
  others : ∀ key ∈ kept, key ≠ code → key ∈ p.sendTimes.keys

theorem exists_run_beforeCheck
    {p : MasterPinger}
    {byte : Byte}
    (it : Iteration)
    (hGoing : p.stopRequested = false)
    (hLt : byte.val < nbCodes) :
    ∃ kept l, StepSystem.run step ⟨p, byte, .top⟩
          it.beforeCheck =
        some l ∧
      Iterated p byte it kept l := by
  rcases exists_run_sending byte it hGoing with
    ⟨p₁, hSending, hGoing₁, hKeys₁, hSent₁⟩
  rcases exists_run_waiting p₁ it hLt with
    ⟨p₂, hWaiting, hStop₂, hKeys₂, hOwn₂, hSent₂⟩
  rcases exists_run_reading p₂ (nextCode byte) it with
    ⟨q, point, hReading, hReadings, hStop, hKeys, hBooked,
      hSent⟩
  refine ⟨p₂.sendTimes.keys, ⟨q, nextCode byte, point⟩, ?_,
    hReadings, rfl, ?_, ?_, hKeys, ?_, ?_, ?_⟩
  · rw [Iteration.beforeCheck, StepSystem.run_append hSending,
      StepSystem.run_append hWaiting, hReading]
  · exact (hStop.trans hStop₂).trans hGoing₁
  · exact (hSent.trans hSent₂).trans hSent₁
  · rw [OrderedMap.card_keys]
    exact hBooked
  · exact fun hMem hRecorded => hOwn₂ hRecorded hMem
  · intro key hKey hOther
    exact (Finset.mem_insert.mp
      (hKeys₁ (hKeys₂ hKey))).resolve_left hOther

/- The check acts on what it has read. -/
theorem step_check
    {l : PingerLoop}
    {received lost : Nat}
    (hReadings : l.readings = some (received, lost)) :
    step l .check = some (l.setReachable received lost) := by
  unfold readings at hReadings
  simp only [step]
  cases hPoint : l.point with
  | readReceived before | readLost before =>
      rw [hPoint] at hReadings
      cases hReadings
      rfl
  | top | written | counted | recorded | waiting =>
      rw [hPoint] at hReadings
      cases hReadings

------------------------------------------------------------
-- Laps
------------------------------------------------------------

/- One of the next `count` iterations sends the code. -/
def Comes (byte : Byte) (count : Nat) (code : Byte) : Prop :=
  ∃ i < count, nextCode^[i] byte = code

theorem comes_of_comes_succ
    {byte code : Byte}
    {count : Nat}
    (hOther : code ≠ byte)
    (hComes : Comes byte (count + 1) code) :
    Comes (nextCode byte) count code := by
  rcases hComes with ⟨i, hLt, hCode⟩
  cases i with
  | zero => exact absurd hCode.symm hOther
  | succ i =>
      refine ⟨i, Nat.lt_of_succ_lt_succ hLt, ?_⟩
      rw [← Function.iterate_succ_apply]
      exact hCode

theorem nextCode_iterate_val
    {byte : Byte}
    (hLt : byte.val < nbCodes)
    (i : Nat) :
    (nextCode^[i] byte).val = (byte.val + i) % nbCodes := by
  induction i with
  | zero => exact (Nat.mod_eq_of_lt hLt).symm
  | succ i ih =>
      rw [Function.iterate_succ_apply', nextCode_val, ih,
        Nat.mod_add_mod]
      rfl

/- A lap sends every code. -/
theorem comes_of_lap
    {byte code : Byte}
    {count : Nat}
    (hByte : byte.val < nbCodes)
    (hCode : code.val < nbCodes)
    (hLap : nbCodes ≤ count) :
    Comes byte count code := by
  have hSmall : byte.val < 240 ∧ code.val < 240 :=
    ⟨hByte, hCode⟩
  refine ⟨(code.val + nbCodes - byte.val) % nbCodes,
    lt_of_lt_of_le (Nat.mod_lt _ (by decide)) hLap, ?_⟩
  apply Fin.ext
  rw [nextCode_iterate_val hByte,
    show nbCodes = 240 from rfl]
  omega

/-
  What an echoed iteration leaves is of codes still to come,
  or of codes echoed too early, its own among them.
-/
theorem Iterated.mem_or_comes
    {p : MasterPinger}
    {byte : Byte}
    {it : Iteration}
    {kept codes : Finset Byte}
    {l : PingerLoop}
    {count : Nat}
    (hIterated : Iterated p byte it kept l)
    (hEchoes : it.Echoes byte)
    (hKeys : ∀ key ∈ p.sendTimes.keys,
      key ∈ codes ∨ Comes byte (count + 1) key) :
    ∀ key ∈ kept,
      key ∈ (if it.EchoesEarly byte then insert byte codes
        else codes.erase byte) ∨
        Comes (nextCode byte) count key := by
  intro key hKey
  by_cases hOwn : key = byte
  · subst hOwn
    left
    rw [if_pos (Iteration.echoesEarly_of_echoes hEchoes
      (hIterated.own hKey))]
    exact Finset.mem_insert_self _ _
  · rcases hKeys key (hIterated.others key hKey hOwn) with
      hCode | hComes
    · left
      split
      · exact Finset.mem_insert_of_mem hCode
      · exact Finset.mem_erase.mpr ⟨hOwn, hCode⟩
    · exact Or.inr (comes_of_comes_succ hOwn hComes)

/-
  Along echoed iterations the map keeps codes that they have
  not sent yet and codes that were echoed too early.
-/
theorem exists_run_upToLastCheck
    {p : MasterPinger}
    {byte : Byte}
    (codes : Finset Byte)
    (it : Iteration)
    (its : List Iteration)
    (hGoing : p.stopRequested = false)
    (hLt : byte.val < nbCodes)
    (hEcho : AllEcho byte (it :: its))
    (hKeys : ∀ key ∈ p.sendTimes.keys,
      key ∈ codes ∨ Comes byte (its.length + 1) key) :
    ∃ kept l, StepSystem.run step ⟨p, byte, .top⟩
          (upToLastCheck (it :: its)) =
        some l ∧
      l.readings.isSome = true ∧
      l.pinger.sent = p.sent + (its.length + 1) ∧
      l.pinger.sendTimes.keys ⊆ kept ∧
      l.pinger.sendTimes.size + l.bookedSince ≤ kept.card ∧
      kept ⊆ earlyFrom codes byte (it :: its) := by
  induction its generalizing p byte codes it with
  | nil =>
      rcases exists_run_beforeCheck it hGoing hLt with
        ⟨kept, l, hRun, hIterated⟩
      refine ⟨kept, l, hRun, hIterated.readings,
        hIterated.sent, hIterated.keys, hIterated.booked, ?_⟩
      intro key hKey
      rcases hIterated.mem_or_comes hEcho.1 hKeys key hKey with
        hCode | ⟨i, hNone, -⟩
      · exact hCode
      · exact absurd hNone (Nat.not_lt_zero i)
  | cons next its ih =>
      rcases exists_run_beforeCheck it hGoing hLt with
        ⟨kept, l, hRun, hIterated⟩
      rcases Option.isSome_iff_exists.mp
          hIterated.readings with ⟨⟨received, lost⟩, hSome⟩
      have hNext : (nextCode byte).val < nbCodes := by
        rw [nextCode_val]
        exact Nat.mod_lt _ (by decide)
      have hCheck : step l .check =
          some ⟨(l.setReachable received lost).pinger,
            nextCode byte, .top⟩ := by
        rw [step_check hSome, ← hIterated.byte]
        rfl
      rcases ih (p := (l.setReachable received lost).pinger)
          _ next hIterated.going hNext hEcho.2
          (fun key hKey =>
            hIterated.mem_or_comes hEcho.1 hKeys key
              (hIterated.keys hKey)) with
        ⟨kept', l', hRest, hReadings, hSent, hLater⟩
      refine ⟨kept', l', ?_, hReadings, ?_, hLater⟩
      · rw [upToLastCheck, StepSystem.run_append hRun,
          StepSystem.run_cons_of_step hCheck]
        exact hRest
      · rw [hSent]
        show l.pinger.sent + _ = _
        rw [hIterated.sent]
        simp only [List.length_cons]
        omega

end PingerLoop

end ModemTester

------------------------------------------------------------
-- Reachable Loops
------------------------------------------------------------

namespace ModemTester

namespace MasterPinger

theorem handleReceive_keys_subset
    (p : MasterPinger)
    (ec : Nat)
    (recvTime : Int)
    (bytes : List Byte) :
    (p.handleReceive ec recvTime bytes).1.sendTimes.keys ⊆
      p.sendTimes.keys := by
  unfold handleReceive
  split
  · apply handleBytes_induction
      (P := fun q => q.sendTimes.keys ⊆ p.sendTimes.keys)
    · intro q recvTime byte hKeys
      exact (matchEcho_keys_subset q recvTime byte).trans hKeys
    · exact Finset.Subset.refl _
  · split <;> exact Finset.Subset.refl _

/- With empty books the check computes what is missing. -/
theorem inFlight_eq_mod
    {sent received lost missing : Nat}
    (hSent : sent = received + lost + missing) :
    inFlight sent received lost =
      missing % ulongModulus := by
  have hModulus : ulongModulus = 18446744073709551616 := rfl
  simp only [inFlight, hModulus]
  omega

end MasterPinger

namespace PingerLoop

theorem codesBelow_step
    (l : PingerLoop)
    (label : PingerLabel)
    (l' : PingerLoop)
    (hCodes : CodesBelow l.pinger l.byte)
    (hStep : step l label = some l') :
    CodesBelow l'.pinger l'.byte := by
  cases label with
  | write | countSent | readReceived | readLost =>
      simp only [step] at hStep
      split at hStep
      · cases hStep
        exact ⟨hCodes.byte_lt, hCodes.keys_lt⟩
      · cases hStep
  | record now =>
      simp only [step] at hStep
      split at hStep
      · cases hStep
        refine ⟨hCodes.byte_lt, ?_⟩
        intro key hKey
        rw [OrderedMap.keys_assign] at hKey
        rcases Finset.mem_insert.mp hKey with rfl | hOld
        · exact hCodes.byte_lt
        · exact hCodes.keys_lt key hOld
      · cases hStep
  | advance =>
      simp only [step] at hStep
      split at hStep
      · cases hStep
        refine ⟨?_, hCodes.keys_lt⟩
        rw [nextCode_val]
        exact Nat.mod_lt _ (by decide)
      · cases hStep
  | check =>
      simp only [step] at hStep
      split at hStep
      · cases hStep
        exact ⟨hCodes.byte_lt, hCodes.keys_lt⟩
      · cases hStep
        exact ⟨hCodes.byte_lt, hCodes.keys_lt⟩
      · cases hStep
  | receive ec now bytes =>
      cases hStep
      refine ⟨hCodes.byte_lt, ?_⟩
      intro key hKey
      apply hCodes.keys_lt key
      exact MasterPinger.handleReceive_keys_subset
        l.pinger ec now bytes hKey
  | requestStop =>
      cases hStep
      exact ⟨hCodes.byte_lt, hCodes.keys_lt⟩

theorem codesBelow_of_run
    {labels : List PingerLabel}
    {l : PingerLoop}
    (hRun : StepSystem.run step start labels = some l) :
    CodesBelow l.pinger l.byte := by
  refine StepSystem.run_invariant
    (I := fun l => CodesBelow l.pinger l.byte)
    codesBelow_step ?_ hRun
  refine ⟨by decide, ?_⟩
  intro key hKey
  simp [start, MasterPinger.initial] at hKey

------------------------------------------------------------
-- What The Check Computes
------------------------------------------------------------

/-
  What the check leaves of `_sent`: the entries overwritten,
  those in the map, and those booked too late for it.
-/
theorem sent_eq_of_readings
    {labels : List PingerLabel}
    {l : PingerLoop}
    {received lost : Nat}
    (hRun : StepSystem.run step start labels = some l)
    (hReadings : l.readings = some (received, lost)) :
    l.pinger.sent = received + lost +
      (overwritten labels + l.pinger.sendTimes.size +
        l.bookedSince) := by
  have hBooks := sent_eq_booked_add_overwritten hRun
  have hOld : l.ReadingsOld :=
    StepSystem.run_invariant
      (fun _ _ _ hOld hStep => hOld.step hStep)
      (readingsOld_of_none rfl) hRun
  have hNow := hOld received lost hReadings
  unfold readings at hReadings
  unfold bookedSince
  unfold unrecorded MasterPinger.booked at hBooks
  cases hPoint : l.point with
  | readReceived before | readLost before =>
      simp only [hPoint, Option.some.injEq, Prod.mk.injEq,
        reduceCtorEq, if_false] at hReadings hBooks
      dsimp only
      omega
  | top | written | counted | recorded | waiting =>
      rw [hPoint] at hReadings
      cases hReadings

/- The entries of transmissions that were echoed too early. -/
def leftEarly (l : PingerLoop) (codes : Finset Byte) : Nat :=
  (l.pinger.sendTimes.keys ∩ codes).card

/-
  With at least one lap of echoed iterations behind it, the
  check misses what was overwritten and what was echoed too
  early.
-/
theorem exists_run_lap
    {labels : List PingerLabel}
    {l : PingerLoop}
    {its : List Iteration}
    (hRun : StepSystem.run step start labels = some l)
    (hTop : l.point = .top)
    (hGoing : l.pinger.stopRequested = false)
    (hLap : nbCodes ≤ its.length)
    (hEcho : AllEcho l.byte its) :
    ∃ l₁ received lost,
      StepSystem.run step l (upToLastCheck its) = some l₁ ∧
      l₁.readings = some (received, lost) ∧
      l₁.pinger.sent = l.pinger.sent + its.length ∧
      l₁.pinger.sent = received + lost +
        (overwritten (labels ++ upToLastCheck its) +
          l₁.leftEarly (earlyCodes l.byte its) +
            l₁.bookedSince) ∧
      l₁.leftEarly (earlyCodes l.byte its) +
          l₁.bookedSince ≤
        (earlyCodes l.byte its).card := by
  have hCodes := codesBelow_of_run hRun
  rcases l with ⟨p, byte, point⟩
  cases hTop
  cases its with
  | nil => exact absurd hLap (by decide)
  | cons it its =>
      rcases exists_run_upToLastCheck ∅ it its
          hGoing hCodes.byte_lt hEcho
          (fun key hKey => Or.inr
            (comes_of_lap hCodes.byte_lt
              (hCodes.keys_lt key hKey) hLap)) with
        ⟨kept, l₁, hIts, hSome, hSent, hKeys, hBooked,
          hEarly⟩
      rcases Option.isSome_iff_exists.mp hSome with
        ⟨⟨received, lost⟩, hReadings⟩
      have hWhole : StepSystem.run step start
          (labels ++ upToLastCheck (it :: its)) = some l₁ := by
        rw [StepSystem.run_append hRun, hIts]
      have hLeft : l₁.leftEarly (earlyCodes byte (it :: its)) =
          l₁.pinger.sendTimes.size := by
        rw [leftEarly, earlyCodes,
          Finset.inter_eq_left.mpr (hKeys.trans hEarly),
          OrderedMap.card_keys]
      refine ⟨l₁, received, lost, hIts, hReadings, hSent, ?_⟩
      rw [hLeft]
      exact ⟨sent_eq_of_readings hWhole hReadings,
        hBooked.trans (Finset.card_le_card hEarly)⟩

/-
  From any state that the loop reaches, two laps of echoed
  iterations make the remote reachable exactly when at most
  `AVAIL_THRESHOLD` transmissions are missing: those whose
  entry has been overwritten since the start, those still in
  the map because they were echoed too early, and those of
  this kind booked too late for the check (counted as the
  code counts, modulo 2^64).
-/
theorem reachable_after_echoes_iff
    (labels : List PingerLabel)
    (l : PingerLoop)
    (its : List Iteration)
    (hRun : StepSystem.run step start labels = some l)
    (hTop : l.point = .top)
    (hGoing : l.pinger.stopRequested = false)
    (hLaps : its.length = 480)
    (hEcho : AllEcho l.byte its) :
    ∃ l₁ l' received lost,
      StepSystem.run step l (upToLastCheck its) = some l₁ ∧
      l₁.readings = some (received, lost) ∧
      step l₁ .check = some l' ∧
      l₁.leftEarly (earlyCodes l.byte its) +
          l₁.bookedSince ≤
        (earlyCodes l.byte its).card ∧
      (MasterPinger.inFlight l₁.pinger.sent received lost ≤
          availThreshold ∧
          l'.pinger.reachable = true ↔
        (overwritten (labels ++ upToLastCheck its) +
            l₁.leftEarly (earlyCodes l.byte its) +
              l₁.bookedSince) %
          ulongModulus ≤ availThreshold) := by
  have hLap : nbCodes ≤ its.length := by
    rw [hLaps]
    decide
  rcases exists_run_lap hRun hTop hGoing hLap hEcho with
    ⟨l₁, received, lost, hIts, hReadings, -, hMissing, hFew⟩
  refine ⟨l₁, _, received, lost, hIts, hReadings,
    step_check hReadings, hFew, ?_⟩
  rw [← MasterPinger.inFlight_eq_mod hMissing]
  simp [setReachable]

/-
  Iterations in which only the echo arrives, before or after
  the code is recorded.
-/
def echoed (early : Bool) : Byte → Nat → List Iteration
  | _, 0 => []
  | code, n + 1 =>
      { beforeWrite := []
        beforeCount := []
        beforeRecord := if early then [(0, code)] else []
        afterRecord := if early then [] else [(0, code)]
        afterAdvance := []
        duringCheck := []
        recordTime := 0
        lostFirst := false } :: echoed early (nextCode code) n

theorem echoed_length
    (early : Bool)
    (code : Byte)
    (n : Nat) :
    (echoed early code n).length = n := by
  induction n generalizing code with
  | zero => rfl
  | succ n ih => rw [echoed, List.length_cons, ih]

theorem allEcho_echoed
    (early : Bool)
    (code : Byte)
    (n : Nat) :
    AllEcho code (echoed early code n) := by
  induction n generalizing code with
  | zero => trivial
  | succ n ih =>
      refine ⟨?_, ih (nextCode code)⟩
      cases early <;>
        simp [Iteration.Echoes, Iteration.EchoesRecorded]

/- Two laps from the start with all echoes early. -/
theorem reachable_after_echoes_from_start :
    ∃ l₁ l' received lost,
      StepSystem.run step start
          (upToLastCheck
            (echoed true beginStandardCodes 480)) =
        some l₁ ∧
      l₁.readings = some (received, lost) ∧
      step l₁ .check = some l' ∧
      l₁.leftEarly
            (earlyCodes beginStandardCodes
              (echoed true beginStandardCodes 480)) +
          l₁.bookedSince ≤
        (earlyCodes beginStandardCodes
          (echoed true beginStandardCodes 480)).card ∧
      (MasterPinger.inFlight l₁.pinger.sent received lost ≤
          availThreshold ∧
          l'.pinger.reachable = true ↔
        (overwritten
            ([] ++
              upToLastCheck
                (echoed true beginStandardCodes 480)) +
            l₁.leftEarly
              (earlyCodes beginStandardCodes
                (echoed true beginStandardCodes 480)) +
              l₁.bookedSince) %
          ulongModulus ≤ availThreshold) :=
  reachable_after_echoes_iff [] start _ rfl rfl rfl
    (echoed_length _ _ _) (allEcho_echoed _ _ _)

/-
  After 260 transmissions into a silent link no two laps of
  echoes make the remote reachable again.
-/
theorem unreachable_after_silence :
    ∃ l its l₁ l',
      StepSystem.run step start (silence 260) = some l ∧
      l.point = .top ∧
      l.pinger.stopRequested = false ∧
      its.length = 480 ∧
      AllEcho l.byte its ∧
      StepSystem.run step l (upToLastCheck its) = some l₁ ∧
      step l₁ .check = some l' ∧
      l'.pinger.reachable = false := by
  rcases exists_run_silence 260 (l := start) rfl rfl with
    ⟨l, hRun, hTop, hGoing, hSent, hReceived, hLost⟩
  have hLength := echoed_length false l.byte 480
  have hEcho := allEcho_echoed false l.byte 480
  generalize echoed false l.byte 480 = its at hLength hEcho
  have hLap : nbCodes ≤ its.length := by
    rw [hLength]
    decide
  rcases exists_run_lap hRun hTop hGoing hLap hEcho with
    ⟨l₁, received, lost, hIts, hReadings, hSent₁, hMissing,
      -⟩
  refine ⟨l, its, l₁, _, hRun, hTop, hGoing, hLength, hEcho,
    hIts, step_check hReadings, ?_⟩
  -- The map cannot hold all of the 260 transmissions ...
  have hBooks := sent_eq_booked_add_overwritten hRun
  have hSize := l.pinger.sendTimes.size_le_card
  rw [Fintype.card_fin] at hSize
  have hMany : 4 ≤ overwritten (silence 260) := by
    simp only [MasterPinger.booked, unrecorded, hTop, hSent,
      hReceived, hLost, start, MasterPinger.initial,
      reduceCtorEq, if_false] at hBooks
    omega
  have hMore : overwritten (silence 260) ≤
      overwritten (silence 260 ++ upToLastCheck its) := by
    rw [overwritten, overwritten,
      StepSystem.countAlong_append hRun]
    exact Nat.le_add_right _ _
  -- ... and what is missing cannot exceed what was sent.
  have hFlight := MasterPinger.inFlight_eq_mod hMissing
  have hAll : l₁.pinger.sent = 740 := by
    rw [hSent₁, hSent, hLength]
    rfl
  rw [Nat.mod_eq_of_lt
    (lt_of_le_of_lt (b := 740) (by omega) (by decide))]
    at hFlight
  simp only [setReachable, hFlight, availThreshold,
    decide_eq_false_iff_not]
  omega

end PingerLoop

end ModemTester
