import Mathlib.Data.List.Basic
import ModemTester.Master.MasterPinger
import ModemTester.Remote.ThroughputResults

/-
  A whole throughput test, from the loop that sends data
  (`MasterThroughput::operator()`) over the tally of
  `RemoteThroughput` to the totals that are reported.

  The line keeps order. On the way to the remote it may lose
  any bytes, of the data and of the requests; on the way back
  it loses nothing. A write accepts some part of the buffer,
  a read returns some part of what is on the line, and the
  timer that asks again may expire as often as it likes while
  the worker waits for results. The period of reports is left
  at 0, so that results are asked for once, after the loop.

  Key definitions include:
    * `ThroughputTest`
    * `ThroughputTest.step`
    * `ThroughputTest.Ascending`
    * `ThroughputTest.MayArrive`

  Main declarations:
    * `ThroughputTest.reported_within`
    * `ThroughputTest.can_report_iff`
-/

------------------------------------------------------------
-- The Test
------------------------------------------------------------

namespace ModemTester

/- `sendBuf` of `MasterThroughput::operator()`. -/
def MasterThroughput.sendBuf : List Byte :=
  (List.range PingerLoop.nbCodes).map fun i =>
    Fin.ofNat 256 (beginStandardCodes.val + i)

/-
  What the two machines leave open: the byte orders, what is
  in a variable that is not initialised, and the microseconds
  of a time span.
-/
structure Machines where
  master : Host
  remote : Host
  sendBuf : ResultBuf
  data : Word
  toUsec : Int → Word

/- The bytes of some calls of `sendResults`. -/
def Machines.answers (m : Machines) :
    List TallyReply → Option (List Byte)
  | [] => some []
  | reply :: replies =>
      match
        RemoteThroughput.sendResults m.toUsec reply.recvedBytes,
        answers m replies with
      | some (totalReceived, totalUsec), some bytes =>
          some ((m.sendBuf.sendResults m.remote totalReceived
            totalUsec).bytes ++ bytes)
      | _, _ => none

/- How many of the bytes are data, and no request. -/
def dataCount (bytes : List Byte) : Nat :=
  bytes.countP fun byte => byte < endStandardCodes

/- Where the worker of the master stands. -/
inductive TestPhase where
  | sending
  /- In the loop on `_resultsReady`. -/
  | waiting
  | reported (totalReceived totalUsec : Word)
  deriving DecidableEq

/-
  `it` is the counter of the send loop. Recorded besides are
  the data that the writes have accepted, how much of it the
  line has lost, and the reads of the remote.
-/
structure ThroughputTest where
  it : Nat
  stopRequested : Bool
  phase : TestPhase
  toRemote : List Byte
  remote : ThroughputTally
  toMaster : List Byte
  payload : List Byte
  lost : Nat
  reads : List TimedRead

inductive TestLabel where
  | writeSome (accepted : Nat)
  | requestStop
  | getResults
  | timeoutReceiveResults
  /- `RemoteThroughput::handleReceive` on `count` bytes. -/
  | remoteReads (recvTime : Int) (count : Nat)
  | receiveResults
  | loseToRemote (index : Nat)
  deriving DecidableEq, Repr

namespace ThroughputTest

def start : ThroughputTest where
  it := 0
  stopRequested := false
  phase := .sending
  toRemote := []
  remote := ThroughputTally.start
  toMaster := []
  payload := []
  lost := 0
  reads := []

/- A write has accepted the first bytes of the buffer. -/
def afterWrite
    (s : ThroughputTest)
    (accepted : Nat) : ThroughputTest :=
  { s with
    it := s.it + 1
    toRemote := s.toRemote ++
      MasterThroughput.sendBuf.take accepted
    payload := s.payload ++
      MasterThroughput.sendBuf.take accepted }

/- The byte that asks for the results is written. -/
def request (s : ThroughputTest) : ThroughputTest :=
  { s with
    phase := .waiting
    toRemote := s.toRemote ++ [endStandardCodes] }

/- The next bytes on the line, as one read. -/
def nextRead
    (s : ThroughputTest)
    (recvTime : Int)
    (count : Nat) : TimedRead :=
  ⟨recvTime, s.toRemote.take count⟩

/- The remote has handled a read and written its answers. -/
def afterRead
    (s : ThroughputTest)
    (read : TimedRead)
    (remote : ThroughputTally)
    (bytes : List Byte) : ThroughputTest :=
  { s with
    toRemote := s.toRemote.drop read.size
    remote := remote
    toMaster := s.toMaster ++ bytes
    reads := s.reads ++ [read] }

/-
  An answer from an empty map is undefined behaviour, and no
  step is made of it.
-/
def step (m : Machines) (s : ThroughputTest) :
    TestLabel → Option ThroughputTest
  | .writeSome accepted =>
      if s.phase = .sending ∧ s.it < 10 ∧
          s.stopRequested = false ∧ 1 ≤ accepted ∧
          accepted ≤ PingerLoop.nbCodes then
        some (s.afterWrite accepted)
      else
        none
  | .requestStop => some { s with stopRequested := true }
  | .getResults =>
      if s.phase = .sending ∧
          (s.it = 10 ∨ s.stopRequested = true) then
        some s.request
      else
        none
  | .timeoutReceiveResults =>
      if s.phase = .waiting then some s.request else none
  | .remoteReads recvTime count =>
      if s.remote.Fits (s.nextRead recvTime count) then
        match s.remote.step (s.nextRead recvTime count) with
        | none => none
        | some remote =>
            (m.answers
              (remote.replies.drop
                s.remote.replies.length)).map
              (s.afterRead (s.nextRead recvTime count) remote)
      else
        none
  | .receiveResults =>
      if hSize : s.phase = .waiting ∧
          8 ≤ s.toMaster.length then
        (ResultBuf.receiveResults m.master m.data
          ⟨s.toMaster.take 8, by
            rw [List.length_take, min_eq_left hSize.2]⟩
          8).map fun totals =>
            { s with
              phase := .reported totals.1 totals.2
              toMaster := s.toMaster.drop 8 }
      else
        none
  | .loseToRemote index =>
      s.toRemote[index]?.map fun byte =>
        { s with
          toRemote := s.toRemote.eraseIdx index
          lost := s.lost + dataCount [byte] }

/- What the remote has read and may still read. -/
def arriving (s : ThroughputTest) : List Byte :=
  s.reads.flatMap TimedRead.bytes ++ s.toRemote

/- Some data is not lost, or is still to be written. -/
def MayArrive (s : ThroughputTest) : Prop :=
  0 < dataCount s.arriving ∨
    s.phase = .sending ∧ s.it < 10 ∧ s.stopRequested = false

/- The clock of the remote has advanced since the last read. -/
def Ascending (s : ThroughputTest) : TestLabel → Prop
  | .remoteReads recvTime _ =>
      ∀ read ∈ s.reads, read.recvTime < recvTime
  | _ => True

instance (s : ThroughputTest) :
    (label : TestLabel) → Decidable (s.Ascending label)
  | .remoteReads recvTime _ =>
      inferInstanceAs (Decidable
        (∀ read ∈ s.reads, read.recvTime < recvTime))
  | .writeSome _ => .isTrue trivial
  | .requestStop => .isTrue trivial
  | .getResults => .isTrue trivial
  | .timeoutReceiveResults => .isTrue trivial
  | .receiveResults => .isTrue trivial
  | .loseToRemote _ => .isTrue trivial

end ThroughputTest

end ModemTester

------------------------------------------------------------
-- Data And Requests
------------------------------------------------------------

namespace ModemTester

namespace RemoteThroughput

/- Data is only counted. -/
theorem handleByte_of_lt
    {byte : Byte}
    (hData : byte < endStandardCodes) :
    handleByte byte = .ignore := by
  rw [handleByte, if_neg (not_le.mpr hData)]

theorem handleByte_endStandardCodes :
    handleByte endStandardCodes = .sendResults := rfl

/- A read of data and requests. -/
def Plain (bytes : List Byte) : Prop :=
  ∀ byte ∈ bytes, byte ≤ endStandardCodes

theorem plain_append_iff (bytes bytes' : List Byte) :
    Plain (bytes ++ bytes') ↔ Plain bytes ∧ Plain bytes' :=
  List.forall_mem_append

/- The test goes on, and each request is answered. -/
theorem requests_of_plain
    {bytes : List Byte}
    (hPlain : Plain bytes) :
    leaves bytes = none ∧
      requests bytes = bytes.count endStandardCodes := by
  induction bytes with
  | nil => exact ⟨rfl, rfl⟩
  | cons byte bytes ih =>
      rcases ih fun other hOther =>
          hPlain other (List.mem_cons_of_mem _ hOther) with
        ⟨hLeaves, hRequests⟩
      rcases eq_or_lt_of_le (hPlain byte List.mem_cons_self)
        with rfl | hData
      · simp only [leaves, requests,
          handleByte_endStandardCodes, List.count_cons_self]
        exact ⟨hLeaves, by rw [hRequests, Nat.add_comm]⟩
      · simp only [leaves, requests, handleByte_of_lt hData,
          List.count_cons_of_ne hData.ne]
        exact ⟨hLeaves, hRequests⟩

theorem requests_ne_zero_iff
    {bytes : List Byte}
    (hPlain : Plain bytes) :
    requests bytes ≠ 0 ↔ endStandardCodes ∈ bytes := by
  rw [(requests_of_plain hPlain).2, ← List.count_pos_iff,
    Nat.pos_iff_ne_zero]

end RemoteThroughput

namespace ThroughputTally

open RemoteThroughput

/- The first reply is for the first read with a request. -/
theorem exists_of_head?_repliesTo
    {done reads : List TimedRead}
    {reply : TallyReply}
    (hHead : (repliesTo done reads).head? = some reply) :
    ∃ front read rest, reads = front ++ read :: rest ∧
      (∀ other ∈ front, requests other.bytes = 0) ∧
      requests read.bytes ≠ 0 ∧
      reply =
        ⟨historyOf (done ++ front), done ++ front⟩ := by
  induction reads generalizing done with
  | nil => cases hHead
  | cons first reads ih =>
      rw [repliesTo] at hHead
      cases hRequests : requests first.bytes with
      | zero =>
          rw [hRequests, List.replicate_zero,
            List.nil_append] at hHead
          rcases ih hHead with
            ⟨front, read, rest, rfl, hFront, hRead, rfl⟩
          refine ⟨first :: front, read, rest, rfl, ?_, hRead,
            by rw [List.append_assoc, List.singleton_append]⟩
          intro other hOther
          rcases List.mem_cons.mp hOther with rfl | hLater
          · exact hRequests
          · exact hFront other hLater
      | succ count =>
          rw [hRequests, List.replicate_succ, List.cons_append,
            List.head?_cons, Option.some.injEq] at hHead
          subst hHead
          exact ⟨[], first, reads, rfl, by simp,
            by rw [hRequests]; exact Nat.succ_ne_zero _,
            by rw [List.append_nil]⟩

/- A read is no larger than the larger buffer. -/
theorem size_le_of_run
    {s s' : ThroughputTally}
    {reads : List TimedRead}
    (hSize : s.recvSize ≤ 255)
    (hFits : StepSystem.Along step Fits s reads)
    (hRun : StepSystem.run step s reads = some s') :
    ∀ read ∈ reads, read.size ≤ 255 := by
  induction reads generalizing s with
  | nil => simp
  | cons read reads ih =>
      rcases StepSystem.exists_step_of_run_cons hRun with
        ⟨s₁, hStep, hRest⟩
      rw [StepSystem.along_cons_of_step hStep] at hFits
      have hSize₁ : s₁.recvSize ≤ 255 := by
        rcases step_cases hStep with
          ⟨-, -, -, ⟨_, -, -, hSame, -⟩ | ⟨-, -, hNew, -⟩⟩
        · rw [hSame]
          exact hSize
        · rw [hNew]
      intro other hOther
      rcases List.mem_cons.mp hOther with rfl | hLater
      · exact hFits.1.2.trans hSize
      · exact ih hSize₁ hFits.2 hRest other hLater

end ThroughputTally

section DataCount

open RemoteThroughput

variable {bytes bytes' : List Byte}

theorem dataCount_append (bytes bytes' : List Byte) :
    dataCount (bytes ++ bytes') =
      dataCount bytes + dataCount bytes' :=
  List.countP_append

/- Each byte is data or a request. -/
theorem dataCount_add_count
    (hPlain : Plain bytes) :
    dataCount bytes + bytes.count endStandardCodes =
      bytes.length := by
  rw [List.length_eq_countP_add_countP
    (fun byte : Byte => decide (byte < endStandardCodes)),
    dataCount, List.count]
  congr 1
  apply List.countP_congr
  intro byte hByte
  have hLe := hPlain byte hByte
  rw [beq_iff_eq, decide_eq_true_eq, decide_eq_true_eq,
    not_lt]
  exact ⟨fun hEq => hEq.ge, fun hGe => le_antisymm hLe hGe⟩

theorem dataCount_eq_length
    (hPlain : Plain bytes)
    (hNot : endStandardCodes ∉ bytes) :
    dataCount bytes = bytes.length := by
  rw [← dataCount_add_count hPlain,
    List.count_eq_zero_of_not_mem hNot, Nat.add_zero]

theorem dataCount_lt_length
    (hPlain : Plain bytes)
    (hMem : endStandardCodes ∈ bytes) :
    dataCount bytes < bytes.length := by
  rw [← dataCount_add_count hPlain]
  exact Nat.lt_add_of_pos_right (List.count_pos_iff.mpr hMem)

theorem dataCount_eq_zero
    (hRequests : ∀ byte ∈ bytes, byte = endStandardCodes) :
    dataCount bytes = 0 := by
  rw [dataCount, List.countP_eq_zero]
  intro byte hByte
  rw [hRequests byte hByte]
  decide

/- A byte that is lost counts where it was. -/
theorem dataCount_eraseIdx
    {index : Nat}
    {byte : Byte}
    (hByte : bytes[index]? = some byte) :
    dataCount (bytes.eraseIdx index) + dataCount [byte] =
      dataCount bytes := by
  rcases List.getElem?_eq_some_iff.mp hByte with
    ⟨hIndex, rfl⟩
  rw [Nat.add_comm, ← dataCount_append,
    List.singleton_append]
  exact (List.getElem_cons_eraseIdx_perm hIndex).countP_eq _

/- The data before the requests. -/
def DataFirst (bytes : List Byte) : Prop :=
  bytes.Pairwise fun a b =>
    a = endStandardCodes → b = endStandardCodes

/- Behind a request is no data. -/
theorem DataFirst.dataCount_eq_zero
    (hFirst : DataFirst (bytes ++ bytes'))
    (hMem : endStandardCodes ∈ bytes) :
    dataCount bytes' = 0 :=
  ModemTester.dataCount_eq_zero fun byte hByte =>
    (List.pairwise_append.mp hFirst).2.2 _ hMem byte hByte rfl

end DataCount

end ModemTester

------------------------------------------------------------
-- Answers On The Line
------------------------------------------------------------

namespace ModemTester

namespace Machines

variable {m : Machines}
variable {replies replies' : List TallyReply}
variable {bytes bytes' : List Byte}

theorem answers_append
    (hFirst : m.answers replies = some bytes)
    (hSecond : m.answers replies' = some bytes') :
    m.answers (replies ++ replies') =
      some (bytes ++ bytes') := by
  induction replies generalizing bytes with
  | nil =>
      rw [answers, Option.some.injEq] at hFirst
      subst hFirst
      exact hSecond
  | cons reply replies ih =>
      rw [answers] at hFirst
      split at hFirst
      · rename_i totalReceived totalUsec rest hTotals hRest
        rw [Option.some.injEq] at hFirst
        subst hFirst
        rw [List.cons_append, answers, hTotals, ih hRest,
          List.append_assoc]
      · cases hFirst

/- The first eight bytes are those of the first answer. -/
theorem exists_of_answers
    (hAnswers : m.answers replies = some bytes)
    (hSize : 8 ≤ bytes.length) :
    ∃ reply totalReceived totalUsec,
      replies.head? = some reply ∧
      RemoteThroughput.sendResults m.toUsec
          reply.recvedBytes =
        some (totalReceived, totalUsec) ∧
      bytes.take 8 =
        resultBytes totalReceived totalUsec := by
  cases replies with
  | nil =>
      rw [answers, Option.some.injEq] at hAnswers
      subst hAnswers
      simp at hSize
  | cons reply replies =>
      rw [answers] at hAnswers
      split at hAnswers
      · rename_i totalReceived totalUsec rest hTotals hRest
        rw [Option.some.injEq] at hAnswers
        subst hAnswers
        refine ⟨reply, totalReceived, totalUsec, rfl,
          hTotals, ?_⟩
        rw [ResultBuf.bytes_sendResults]
        exact List.take_left' rfl
      · cases hAnswers

/- Every reply takes eight bytes. -/
theorem length_of_answers
    (hAnswers : m.answers replies = some bytes) :
    bytes.length = 8 * replies.length := by
  induction replies generalizing bytes with
  | nil =>
      rw [answers, Option.some.injEq] at hAnswers
      subst hAnswers
      rfl
  | cons reply replies ih =>
      rw [answers] at hAnswers
      split at hAnswers
      · rename_i totalReceived totalUsec rest hTotals hRest
        rw [Option.some.injEq] at hAnswers
        subst hAnswers
        rw [List.length_append, ResultBuf.length_bytes,
          ih hRest, List.length_cons]
        omega
      · cases hAnswers

end Machines

end ModemTester

------------------------------------------------------------
-- The Invariant
------------------------------------------------------------

namespace ModemTester

namespace ThroughputTest

open RemoteThroughput

/- The totals reported are those of the first reply. -/
def Answered (m : Machines) (s : ThroughputTest) : Prop :=
  match s.phase with
  | .reported totalReceived totalUsec =>
      ∃ reply, s.remote.replies.head? = some reply ∧
        RemoteThroughput.sendResults m.toUsec
            reply.recvedBytes =
          some (totalReceived, totalUsec)
  | _ => m.answers s.remote.replies = some s.toMaster

/-
  The remote has made its reads, in time order, of the data
  and the requests that are not lost. No request is written
  in the send loop.
-/
structure Sound (m : Machines) (s : ThroughputTest) :
    Prop where
  tallied : StepSystem.run ThroughputTally.step
    ThroughputTally.start s.reads = some s.remote
  fits : StepSystem.Along ThroughputTally.step
    ThroughputTally.Fits ThroughputTally.start s.reads
  times : s.reads.Pairwise fun a b =>
    a.recvTime < b.recvTime
  plain : Plain s.arriving
  dataFirst : DataFirst s.arriving
  counted : dataCount s.arriving + s.lost = s.payload.length
  unasked : s.phase = .sending →
    endStandardCodes ∉ s.arriving
  payload_le : s.payload.length ≤ PingerLoop.nbCodes * s.it
  it_le : s.it ≤ 10
  answered : Answered m s

variable {m : Machines}
variable {s s' : ThroughputTest}

theorem sound_start (m : Machines) : Sound m start where
  tallied := rfl
  fits := trivial
  times := List.Pairwise.nil
  plain := by simp [Plain, arriving, start]
  dataFirst := List.Pairwise.nil
  counted := rfl
  unasked := by simp [arriving, start]
  payload_le := Nat.zero_le _
  it_le := Nat.zero_le _
  answered := rfl

/- The send loop writes data only. -/
theorem lt_of_mem_sendBuf
    {byte : Byte}
    (hByte : byte ∈ MasterThroughput.sendBuf) :
    byte < endStandardCodes := by
  rw [MasterThroughput.sendBuf, List.mem_map] at hByte
  rcases hByte with ⟨i, hIndex, rfl⟩
  have hLt : i < 240 := List.mem_range.mp hIndex
  rw [Fin.lt_def, Fin.val_ofNat]
  have hBegin : beginStandardCodes.val = 0 := rfl
  have hEnd : endStandardCodes.val = 240 := rfl
  omega

/- What is written goes behind what arrives so far. -/
theorem arriving_afterWrite
    (s : ThroughputTest)
    (accepted : Nat) :
    (s.afterWrite accepted).arriving = s.arriving ++
      MasterThroughput.sendBuf.take accepted :=
  (List.append_assoc _ _ _).symm

theorem arriving_request (s : ThroughputTest) :
    s.request.arriving = s.arriving ++ [endStandardCodes] :=
  (List.append_assoc _ _ _).symm

theorem dataCount_request (s : ThroughputTest) :
    dataCount s.request.arriving = dataCount s.arriving := by
  rw [arriving_request, dataCount_append]
  rfl

theorem Sound.writeSome
    {accepted : Nat}
    (hSound : Sound m s)
    (hStep : step m s (.writeSome accepted) = some s') :
    Sound m s' := by
  simp only [step] at hStep
  split at hStep
  · rename_i hGuard
    cases hStep
    have hNone := hSound.unasked hGuard.1
    have hNew : ∀ byte ∈
        MasterThroughput.sendBuf.take accepted,
        byte < endStandardCodes := fun byte hByte =>
      lt_of_mem_sendBuf (List.mem_of_mem_take hByte)
    have hNewPlain :
        Plain (MasterThroughput.sendBuf.take accepted) :=
      fun byte hByte => (hNew byte hByte).le
    have hNoMark : endStandardCodes ∉
        MasterThroughput.sendBuf.take accepted :=
      fun hMem => lt_irrefl _ (hNew _ hMem)
    refine ⟨hSound.tallied, hSound.fits, hSound.times, ?_, ?_,
      ?_, ?_, ?_, hGuard.2.1, hSound.answered⟩
    · rw [arriving_afterWrite, plain_append_iff]
      exact ⟨hSound.plain, hNewPlain⟩
    · rw [arriving_afterWrite]
      apply List.pairwise_of_forall_mem_list
      rintro _ hMem _ - rfl
      rcases List.mem_append.mp hMem with hOld | hMark
      · exact absurd hOld hNone
      · exact absurd hMark hNoMark
    · rw [arriving_afterWrite, dataCount_append,
        dataCount_eq_length hNewPlain hNoMark, afterWrite,
        List.length_append, ← hSound.counted]
      exact Nat.add_right_comm _ _ _
    · intro _
      rw [arriving_afterWrite, List.mem_append]
      exact not_or.mpr ⟨hNone, hNoMark⟩
    · have hPayload := hSound.payload_le
      have hTake := List.length_take_le accepted
        MasterThroughput.sendBuf
      simp only [afterWrite, List.length_append, Nat.mul_succ]
      omega
  · cases hStep

/- A request goes behind what is on the line. -/
theorem Sound.request
    (hSound : Sound m s)
    (hAnswered : m.answers s.remote.replies =
      some s.toMaster) :
    Sound m s.request := by
  refine ⟨hSound.tallied, hSound.fits, hSound.times, ?_, ?_,
    ?_, ?_, hSound.payload_le, hSound.it_le, hAnswered⟩
  · rw [arriving_request, plain_append_iff]
    refine ⟨hSound.plain, ?_⟩
    intro byte hByte
    exact (List.mem_singleton.mp hByte).le
  · rw [arriving_request]
    refine List.pairwise_append.mpr ⟨hSound.dataFirst,
      List.pairwise_singleton _ _, ?_⟩
    intro _ _ byte hByte _
    exact List.mem_singleton.mp hByte
  · rw [dataCount_request]
    exact hSound.counted
  · intro hSending
    cases hSending

/- A read takes from the line what it returns. -/
theorem arriving_afterRead
    (s : ThroughputTest)
    (recvTime : Int)
    (count : Nat)
    (remote : ThroughputTally)
    (bytes : List Byte) :
    (s.afterRead (s.nextRead recvTime count) remote
      bytes).arriving = s.arriving := by
  have hSame : s.toRemote.take count ++
      s.toRemote.drop (s.toRemote.take count).length =
        s.toRemote := by
    rw [List.length_take]
    rcases le_total count s.toRemote.length with hLe | hLe
    · rw [min_eq_left hLe, List.take_append_drop]
    · rw [min_eq_right hLe, List.take_of_length_le hLe,
        List.drop_length, List.append_nil]
  simp only [arriving, afterRead, nextRead, TimedRead.size,
    List.flatMap_append, List.flatMap_singleton,
    List.append_assoc, hSame]

/- The answers to a read go behind those before. -/
theorem Sound.remoteReads
    {recvTime : Int}
    {count : Nat}
    (hSound : Sound m s)
    (hAscending : s.Ascending (.remoteReads recvTime count))
    (hStep : step m s (.remoteReads recvTime count) =
      some s') :
    Sound m s' := by
  simp only [step] at hStep
  split at hStep
  · rename_i hFits
    split at hStep
    · cases hStep
    · rename_i remote hRemote
      rw [Option.map_eq_some_iff] at hStep
      rcases hStep with ⟨bytes, hBytes, rfl⟩
      have hReplies : remote.replies = s.remote.replies ++
          remote.replies.drop s.remote.replies.length := by
        rw [(ThroughputTally.step_cases hRemote).2.2.1,
          List.drop_left]
      have hSame := arriving_afterRead s recvTime count
        remote bytes
      refine ⟨?_, ?_, ?_, hSame ▸ hSound.plain,
        hSame ▸ hSound.dataFirst, ?_, ?_,
        hSound.payload_le, hSound.it_le, ?_⟩
      · exact (StepSystem.run_append hSound.tallied).trans
          (StepSystem.run_of_step hRemote)
      · rw [afterRead, StepSystem.along_append hSound.tallied,
          StepSystem.along_cons_of_step hRemote]
        exact ⟨hSound.fits, hFits, trivial⟩
      · refine List.pairwise_append.mpr ⟨hSound.times,
          List.pairwise_singleton _ _, ?_⟩
        intro old hOld new hNew
        rw [List.mem_singleton.mp hNew]
        exact hAscending old hOld
      · rw [hSame]
        exact hSound.counted
      · rw [hSame]
        exact hSound.unasked
      · have hAnswered := hSound.answered
        simp only [Answered, afterRead] at hAnswered ⊢
        rw [hReplies]
        split
        · rename_i hPhase
          rw [hPhase] at hAnswered
          rcases hAnswered with ⟨reply, hHead, hTotals⟩
          refine ⟨reply, ?_, hTotals⟩
          rw [List.head?_append, hHead, Option.some_or]
        · rename_i hPhase
          split at hAnswered
          · rename_i hReported
            exact absurd hReported (hPhase _ _)
          · exact Machines.answers_append hAnswered hBytes
  · cases hStep

theorem Sound.receiveResults
    (hSound : Sound m s)
    (hStep : step m s .receiveResults = some s') :
    Sound m s' := by
  simp only [step] at hStep
  split at hStep
  · rename_i hGuard
    have hAnswered := hSound.answered
    simp only [Answered, hGuard.1] at hAnswered
    rcases Machines.exists_of_answers hAnswered hGuard.2 with
      ⟨reply, totalReceived, totalUsec, hHead, hTotals,
        hBytes⟩
    rw [ResultBuf.receiveResults_of_bytes m.master m.data
      hBytes, Option.map_some, Option.some.injEq] at hStep
    subst hStep
    refine ⟨hSound.tallied, hSound.fits, hSound.times,
      hSound.plain, hSound.dataFirst, hSound.counted, ?_,
      hSound.payload_le, hSound.it_le, reply, hHead, hTotals⟩
    intro hSending
    cases hSending
  · cases hStep

/- What arrives is less by the byte that is lost. -/
theorem Sound.loseToRemote
    {index : Nat}
    (hSound : Sound m s)
    (hStep : step m s (.loseToRemote index) = some s') :
    Sound m s' := by
  rcases Option.map_eq_some_iff.mp hStep with
    ⟨byte, hByte, rfl⟩
  have hFewer : (s.reads.flatMap TimedRead.bytes ++
      s.toRemote.eraseIdx index).Sublist s.arriving :=
    (List.eraseIdx_sublist _ _).append_left _
  refine ⟨hSound.tallied, hSound.fits, hSound.times,
    fun other hOther =>
      hSound.plain other (hFewer.subset hOther),
    hSound.dataFirst.sublist hFewer, ?_, ?_,
    hSound.payload_le, hSound.it_le, hSound.answered⟩
  · have hLess := dataCount_eraseIdx hByte
    rw [← hSound.counted, arriving, arriving,
      dataCount_append, dataCount_append]
    simp only
    omega
  · intro hSending hMem
    exact hSound.unasked hSending (hFewer.subset hMem)

theorem Sound.step
    {label : TestLabel}
    (hSound : Sound m s)
    (hAscending : s.Ascending label)
    (hStep : ThroughputTest.step m s label = some s') :
    Sound m s' := by
  have hAnswered := hSound.answered
  cases label with
  | writeSome accepted => exact hSound.writeSome hStep
  | requestStop =>
      cases hStep
      exact ⟨hSound.tallied, hSound.fits, hSound.times,
        hSound.plain, hSound.dataFirst, hSound.counted,
        hSound.unasked, hSound.payload_le, hSound.it_le,
        hSound.answered⟩
  | getResults =>
      simp only [ThroughputTest.step] at hStep
      split at hStep
      · rename_i hGuard
        cases hStep
        simp only [Answered, hGuard.1] at hAnswered
        exact hSound.request hAnswered
      · cases hStep
  | timeoutReceiveResults =>
      simp only [ThroughputTest.step] at hStep
      split at hStep
      · rename_i hGuard
        cases hStep
        simp only [Answered, hGuard] at hAnswered
        exact hSound.request hAnswered
      · cases hStep
  | remoteReads recvTime count =>
      exact hSound.remoteReads hAscending hStep
  | receiveResults => exact hSound.receiveResults hStep
  | loseToRemote index => exact hSound.loseToRemote hStep

theorem sound_of_run
    {labels : List TestLabel}
    (hAscending : StepSystem.Along (step m) Ascending
      start labels)
    (hRun : StepSystem.run (step m) start labels = some s) :
    Sound m s :=
  StepSystem.run_invariant_along (I := Sound m)
    (fun _ _ _ hSound hOk hStep => hSound.step hOk hStep)
    (sound_start m) hAscending hRun

end ThroughputTest

end ModemTester

------------------------------------------------------------
-- What Is Reported
------------------------------------------------------------

namespace ModemTester

namespace ThroughputTest

open RemoteThroughput

variable {m : Machines}
variable {s s' : ThroughputTest}

theorem length_bytes (reads : List TimedRead) :
    (reads.flatMap TimedRead.bytes).length =
      bytesOf reads := by
  rw [List.length_flatMap]
  rfl

/-
  The first read with a request: those before it return data
  only, and with it all data has been read.
-/
theorem Sound.data_read
    {front rest : List TimedRead}
    {read : TimedRead}
    (hSound : Sound m s)
    (hReads : s.reads = front ++ read :: rest)
    (hFront : ∀ other ∈ front, requests other.bytes = 0)
    (hRead : requests read.bytes ≠ 0) :
    bytesOf front ≤ dataCount s.arriving ∧
      dataCount s.arriving < bytesOf front + read.size := by
  have hArriving : s.arriving =
      front.flatMap TimedRead.bytes ++ read.bytes ++
        (rest.flatMap TimedRead.bytes ++ s.toRemote) := by
    simp only [arriving, hReads, List.flatMap_append,
      List.flatMap_cons, List.append_assoc]
  have hPlain := hSound.plain
  have hFirst := hSound.dataFirst
  rw [hArriving, plain_append_iff, plain_append_iff] at hPlain
  rw [hArriving] at hFirst
  have hNoMark : endStandardCodes ∉
      front.flatMap TimedRead.bytes := by
    intro hMark
    rcases List.mem_flatMap.mp hMark with
      ⟨other, hOther, hByte⟩
    have hOtherPlain : Plain other.bytes := fun byte hMem =>
      hPlain.1.1 byte
        (List.mem_flatMap.mpr ⟨other, hOther, hMem⟩)
    exact (requests_ne_zero_iff hOtherPlain).mpr hByte
      (hFront other hOther)
  have hMark := (requests_ne_zero_iff hPlain.1.2).mp hRead
  have hBehind := hFirst.dataCount_eq_zero
    (List.mem_append_right _ hMark)
  have hLess : dataCount read.bytes < read.size :=
    dataCount_lt_length hPlain.1.2 hMark
  rw [hArriving, dataCount_append, dataCount_append, hBehind,
    dataCount_eq_length hPlain.1.1 hNoMark, length_bytes]
  omega

/- Machines of different byte orders. -/
def mixedMachines : Machines where
  master := ByteOrder.littleEndian.host
  remote := ByteOrder.bigEndian.host
  sendBuf := ⟨[0, 0, 0, 0, 0, 0, 0, 0], rfl⟩
  data := 0
  toUsec := ThroughputTally.usecOfNsec

/-
  Of four bytes the second is lost; the others are read in
  two reads. The first request is lost too.
-/
def repeatedRequest : List TestLabel :=
  [.writeSome 4, .remoteReads 0 1, .loseToRemote 0,
    .requestStop, .getResults, .loseToRemote 2,
    .remoteReads 1000000 2, .timeoutReceiveResults,
    .remoteReads 2000000 1, .receiveResults]

end ThroughputTest

end ModemTester

------------------------------------------------------------
-- The Test Can Report
------------------------------------------------------------

namespace ModemTester

namespace ThroughputTally

open RemoteThroughput

/- There is always room for a byte. -/
theorem one_le_recvSize_of_step
    {s s' : ThroughputTally}
    {read : TimedRead}
    (hSize : 1 ≤ s.recvSize)
    (hStep : step s read = some s') :
    1 ≤ s'.recvSize := by
  rcases step_cases hStep with
    ⟨-, -, -, ⟨_, -, -, hSame, -⟩ | ⟨-, -, hNew, -⟩⟩
  · rw [hSame]
    exact hSize
  · rw [hNew]
    decide

/- Data and requests keep the remote in its mode. -/
theorem handled_of_plain
    {s s' : ThroughputTally}
    {reads : List TimedRead}
    (hLeft : s.left = none)
    (hPlain : Plain (reads.flatMap TimedRead.bytes))
    (hRun : StepSystem.run step s reads = some s') :
    s'.left = none ∧ s'.handled = s.handled ++ reads := by
  induction reads generalizing s with
  | nil =>
      simp only [StepSystem.run_nil, Option.some.injEq] at hRun
      subst hRun
      exact ⟨hLeft, by rw [List.append_nil]⟩
  | cons read reads ih =>
      rcases StepSystem.exists_step_of_run_cons hRun with
        ⟨s₁, hStep, hRest⟩
      rw [List.flatMap_cons, plain_append_iff] at hPlain
      have hStays := (requests_of_plain hPlain.1).1
      rcases step_cases hStep with
        ⟨-, hLeft₁, -, ⟨event, hLeaves, -⟩ |
          ⟨-, -, -, hHandled⟩⟩
      · rw [hStays] at hLeaves
        cases hLeaves
      · rcases ih (hLeft₁.trans hStays) hPlain.2 hRest with
          ⟨hLeft', hHandled'⟩
        exact ⟨hLeft', by
          rw [hHandled', hHandled, List.append_assoc,
            List.singleton_append]⟩

end ThroughputTally

namespace Machines

/- Histories that are not empty can be answered from. -/
theorem exists_answers
    {m : Machines}
    {replies : List TallyReply}
    (hTotals : ∀ reply ∈ replies,
      RemoteThroughput.sendResults m.toUsec
        reply.recvedBytes ≠ none) :
    ∃ bytes, m.answers replies = some bytes := by
  induction replies with
  | nil => exact ⟨[], rfl⟩
  | cons reply replies ih =>
      rcases Option.ne_none_iff_exists'.mp
          (hTotals reply List.mem_cons_self) with
        ⟨totals, hReply⟩
      rcases ih fun other hOther =>
          hTotals other (List.mem_cons_of_mem _ hOther) with
        ⟨bytes, hBytes⟩
      rw [answers, hReply, hBytes]
      exact ⟨_, rfl⟩

end Machines

namespace ThroughputTest

open RemoteThroughput

variable {m : Machines}
variable {s s' : ThroughputTest}

/- There is a clock reading after those so far. -/
theorem exists_later (reads : List TimedRead) :
    ∃ recvTime : Int, ∀ read ∈ reads,
      read.recvTime < recvTime := by
  induction reads with
  | nil => exact ⟨0, by simp⟩
  | cons read reads ih =>
      rcases ih with ⟨recvTime, hLater⟩
      refine ⟨max recvTime (read.recvTime + 1), ?_⟩
      intro other hOther
      rcases List.mem_cons.mp hOther with rfl | hOld
      · exact lt_max_of_lt_right (Int.lt_succ _)
      · exact lt_max_of_lt_left (hLater other hOld)

/- What was read holds data: requests alone have no answer. -/
theorem Sound.exists_data
    {read : TimedRead}
    (hSound : Sound m s)
    (hRead : read ∈ s.reads) :
    0 < dataCount s.arriving := by
  by_contra hNone
  have hRequests : ∀ byte ∈ s.arriving,
      byte = endStandardCodes := by
    intro byte hByte
    have hNot := List.countP_eq_zero.mp
      (Nat.eq_zero_of_not_pos hNone) byte hByte
    rw [decide_eq_true_eq, not_lt] at hNot
    exact le_antisymm (hSound.plain byte hByte) hNot
  cases hReads : s.reads with
  | nil =>
      rw [hReads] at hRead
      cases hRead
  | cons first rest =>
      have hFirst : first ∈ s.reads := by
        rw [hReads]
        exact List.mem_cons_self
      have hBytes : ∀ byte ∈ first.bytes,
          byte = endStandardCodes := fun byte hByte =>
        hRequests byte (List.mem_append_left _
          (List.mem_flatMap.mpr ⟨first, hFirst, hByte⟩))
      have hRequest : requests first.bytes ≠ 0 := by
        apply (requests_ne_zero_iff fun byte hByte =>
          (hBytes byte hByte).le).mpr
        have hOne := ThroughputTally.one_le_size_of_run
          hSound.fits hSound.tallied first hFirst
        rcases List.exists_mem_of_length_pos hOne with
          ⟨byte, hByte⟩
        rw [← hBytes byte hByte]
        exact hByte
      -- the first answer would be from the empty map
      have hReplies := ThroughputTally.replies_of_start
        hSound.tallied
      rw [hReads, ThroughputTally.repliesTo] at hReplies
      rcases Nat.exists_eq_succ_of_ne_zero hRequest with
        ⟨count, hCount⟩
      rw [hCount, List.replicate_succ,
        List.cons_append] at hReplies
      have hAnswered := hSound.answered
      rw [Answered, hReplies] at hAnswered
      split at hAnswered
      · rcases hAnswered with ⟨reply, hHead, hTotals⟩
        rw [List.head?_cons, Option.some.injEq] at hHead
        subst hHead
        cases hTotals
      · cases hAnswered

/-
  Where data arrives, the remote can always read on: its
  first read is of data, so that any request finds the map
  filled.
-/
theorem Sound.exists_remoteReads
    {byte : Byte}
    {rest : List Byte}
    (hSound : Sound m s)
    (hData : 0 < dataCount s.arriving)
    (hLine : s.toRemote = byte :: rest) :
    ∃ recvTime s', s.Ascending (.remoteReads recvTime 1) ∧
      ThroughputTest.step m s (.remoteReads recvTime 1) =
        some s' ∧
      s'.phase = s.phase ∧
      s'.stopRequested = s.stopRequested ∧
      s'.arriving = s.arriving ∧ s'.toRemote = rest := by
  rcases exists_later s.reads with ⟨recvTime, hLater⟩
  have hRead : s.nextRead recvTime 1 = ⟨recvTime, [byte]⟩ := by
    rw [nextRead, hLine]
    rfl
  have hPlain := (plain_append_iff _ _).mp hSound.plain
  rcases ThroughputTally.handled_of_plain rfl hPlain.1
      hSound.tallied with
    ⟨hLeft, hHandled⟩
  have hHandled : s.remote.handled = s.reads := hHandled
  have hFits : s.remote.Fits ⟨recvTime, [byte]⟩ := by
    have hSize : 1 ≤ s.remote.recvSize :=
      StepSystem.run_invariant
        (I := fun s : ThroughputTally => 1 ≤ s.recvSize)
        (fun _ _ _ hSize hStep =>
          ThroughputTally.one_le_recvSize_of_step hSize hStep)
        le_rfl hSound.tallied
    exact ⟨le_rfl, hSize⟩
  have hRecorded : s.remote.Recorded :=
    StepSystem.run_invariant
      (fun _ _ _ hRecorded hStep => hRecorded.step hStep)
      ThroughputTally.Recorded.start hSound.tallied
  have hStep : s.remote.step ⟨recvTime, [byte]⟩ =
      some (s.remote.handleReceive ⟨recvTime, [byte]⟩) := by
    simp only [ThroughputTally.step, hLeft]
  have hNew := (ThroughputTally.step_cases hStep).2.2.1
  -- a request is not the first byte
  have hFilled : requests [byte] ≠ 0 → s.reads ≠ [] := by
    intro hRequest hNone
    have hOne : Plain [byte] := fun other hOther =>
      hPlain.2 other (by
        rw [hLine, List.mem_singleton.mp hOther]
        exact List.mem_cons_self)
    have hByte := (requests_ne_zero_iff hOne).mp hRequest
    rw [List.mem_singleton] at hByte
    have hFirst := hSound.dataFirst
    have hArriving : s.arriving = [byte] ++ rest := by
      rw [arriving, hNone, hLine]
      rfl
    rw [hArriving] at hFirst hData
    rw [dataCount_append, hFirst.dataCount_eq_zero
      (List.mem_singleton.mpr hByte), ← hByte] at hData
    exact absurd hData (by decide)
  obtain ⟨bytes, hBytes⟩ : ∃ bytes, m.answers
      ((s.remote.handleReceive
        ⟨recvTime, [byte]⟩).replies.drop
          s.remote.replies.length) = some bytes := by
    apply Machines.exists_answers
    rw [hNew, List.drop_left]
    intro reply hReply
    rcases List.mem_replicate.mp hReply with ⟨hMany, rfl⟩
    rw [hRecorded.stored, hHandled,
      ThroughputTally.sendResults_historyOf m.toUsec
        (hFilled hMany) hSound.times]
    exact Option.some_ne_none _
  have hSame := arriving_afterRead s recvTime 1
    (s.remote.handleReceive ⟨recvTime, [byte]⟩) bytes
  rw [hRead] at hSame
  refine ⟨recvTime,
    s.afterRead ⟨recvTime, [byte]⟩
      (s.remote.handleReceive ⟨recvTime, [byte]⟩) bytes,
    hLater, ?_, rfl, rfl, hSame, ?_⟩
  · simp only [ThroughputTest.step, hRead, hFits, if_true,
      hStep, hBytes, Option.map_some]
  · simp [afterRead, TimedRead.size, hLine]

/- With a request read, an answer is on the line. -/
theorem Sound.exists_receiveResults
    (hSound : Sound m s)
    (hWaiting : s.phase = .waiting)
    (hMark : endStandardCodes ∈
      s.reads.flatMap TimedRead.bytes) :
    ∃ s' totalReceived totalUsec,
      ThroughputTest.step m s .receiveResults = some s' ∧
      s'.phase = .reported totalReceived totalUsec ∧
      s'.toRemote = s.toRemote ∧
      s'.arriving = s.arriving := by
  have hAnswered := hSound.answered
  simp only [Answered, hWaiting] at hAnswered
  have hSize : 8 ≤ s.toMaster.length := by
    rcases List.mem_flatMap.mp hMark with
      ⟨read, hRead, hByte⟩
    have hReadPlain : Plain read.bytes := fun byte hMem =>
      hSound.plain byte (List.mem_append_left _
        (List.mem_flatMap.mpr ⟨read, hRead, hMem⟩))
    have hRequest :=
      (requests_ne_zero_iff hReadPlain).mpr hByte
    rcases List.append_of_mem hRead with ⟨front, back, hSplit⟩
    have hReply := (ThroughputTally.mem_repliesTo_iff []
      s.reads _).mpr ⟨front, read,
        ⟨back, by rw [hSplit, List.append_assoc,
          List.singleton_append]⟩, hRequest, rfl⟩
    rw [← ThroughputTally.replies_of_start
      hSound.tallied] at hReply
    have hSome := List.length_pos_of_mem hReply
    rw [Machines.length_of_answers hAnswered]
    omega
  rcases Machines.exists_of_answers hAnswered hSize with
    ⟨reply, totalReceived, totalUsec, -, -, hBytes⟩
  refine ⟨{ s with
      phase := .reported totalReceived totalUsec
      toMaster := s.toMaster.drop 8 },
    totalReceived, totalUsec, ?_, rfl, rfl, rfl⟩
  simp only [ThroughputTest.step, hWaiting, hSize, and_self,
    dite_true]
  rw [ResultBuf.receiveResults_of_bytes m.master m.data
    hBytes, Option.map_some]

/- What is left to do before the report. -/
def pending (s : ThroughputTest) : Nat :=
  s.toRemote.length +
    match s.phase, s.stopRequested with
    | .sending, false => 6
    | .sending, true => 5
    | .waiting, _ =>
        if endStandardCodes ∈ s.arriving then 1 else 3
    | .reported _ _, _ => 0

/- What is lost stays lost. -/
theorem mayArrive_of_step
    {label : TestLabel}
    (hStep : step m s label = some s')
    (hMay : MayArrive s') :
    MayArrive s := by
  cases label with
  | writeSome accepted =>
      simp only [step] at hStep
      split at hStep
      · rename_i hGuard
        exact .inr ⟨hGuard.1, hGuard.2.1, hGuard.2.2.1⟩
      · cases hStep
  | requestStop =>
      cases hStep
      rcases hMay with hData | ⟨-, -, hGoOn⟩
      · exact .inl hData
      · cases hGoOn
  | getResults =>
      simp only [step] at hStep
      split at hStep
      · cases hStep
        rcases hMay with hData | ⟨hSending, -⟩
        · exact .inl (dataCount_request s ▸ hData)
        · cases hSending
      · cases hStep
  | timeoutReceiveResults =>
      simp only [step] at hStep
      split at hStep
      · cases hStep
        rcases hMay with hData | ⟨hSending, -⟩
        · exact .inl (dataCount_request s ▸ hData)
        · cases hSending
      · cases hStep
  | remoteReads recvTime count =>
      simp only [step] at hStep
      split at hStep
      · split at hStep
        · cases hStep
        · rw [Option.map_eq_some_iff] at hStep
          rcases hStep with ⟨bytes, -, rfl⟩
          rw [MayArrive, arriving_afterRead] at hMay
          exact hMay
      · cases hStep
  | receiveResults =>
      simp only [step] at hStep
      split at hStep
      · rw [Option.map_eq_some_iff] at hStep
        rcases hStep with ⟨totals, -, rfl⟩
        rcases hMay with hData | ⟨hSending, -⟩
        · exact .inl hData
        · cases hSending
      · cases hStep
  | loseToRemote index =>
      rcases Option.map_eq_some_iff.mp hStep with
        ⟨byte, hByte, rfl⟩
      rcases hMay with hData | hGoOn
      · refine .inl (hData.trans_le ?_)
        have hFewer : (s.reads.flatMap TimedRead.bytes ++
            s.toRemote.eraseIdx index).Sublist s.arriving :=
          (List.eraseIdx_sublist _ _).append_left _
        exact hFewer.countP_le
      · exact .inr hGoOn

/- The next step towards the report. -/
theorem Sound.exists_step
    (hSound : Sound m s)
    (hData : 0 < dataCount s.arriving)
    (hNot : ¬ ∃ totalReceived totalUsec,
      s.phase = .reported totalReceived totalUsec) :
    ∃ label s', Ascending s label ∧
      ThroughputTest.step m s label = some s' ∧
      0 < dataCount s'.arriving ∧ pending s' < pending s := by
  cases hPhase : s.phase with
  | reported totalReceived totalUsec =>
      exact absurd ⟨_, _, hPhase⟩ hNot
  | sending =>
      cases hStop : s.stopRequested with
      | false =>
          refine ⟨.requestStop, _, trivial, rfl, hData, ?_⟩
          simp [pending, hPhase, hStop]
      | true =>
          have hStep : ThroughputTest.step m s .getResults =
              some s.request := by
            simp [ThroughputTest.step, hPhase, hStop]
          refine ⟨.getResults, _, trivial, hStep, ?_, ?_⟩
          · rw [dataCount_request]
            exact hData
          · simp [pending, ThroughputTest.request, arriving,
              hPhase, hStop]
  | waiting =>
      cases hLine : s.toRemote with
      | cons byte rest =>
          rcases hSound.exists_remoteReads hData hLine with
            ⟨recvTime, s', hOk, hStep, hSame, -, hArriving,
              hRest⟩
          refine ⟨_, s', hOk, hStep, hArriving ▸ hData, ?_⟩
          simp [pending, hSame, hPhase, hArriving, hRest, hLine]
      | nil =>
          have hRead : s.arriving =
              s.reads.flatMap TimedRead.bytes := by
            rw [arriving, hLine, List.append_nil]
          by_cases hMark : endStandardCodes ∈ s.arriving
          · rcases hSound.exists_receiveResults hPhase
                (hRead ▸ hMark) with
              ⟨s', _, _, hStep, hReported, hRest, hArriving⟩
            refine ⟨.receiveResults, s', trivial, hStep,
              hArriving ▸ hData, ?_⟩
            simp [pending, hReported, hRest, hPhase, hMark]
          · -- the requests so far are lost
            have hStep : ThroughputTest.step m s
                .timeoutReceiveResults = some s.request := by
              simp [ThroughputTest.step, hPhase]
            refine ⟨.timeoutReceiveResults, _, trivial,
              hStep, ?_, ?_⟩
            · rw [dataCount_request]
              exact hData
            · simp only [pending, ThroughputTest.request,
                hPhase, hMark, hLine, if_false]
              simp [arriving]

theorem can_report_of_data
    (hSound : Sound m s)
    (hData : 0 < dataCount s.arriving) :
    ∃ labels s' totalReceived totalUsec,
      StepSystem.Along (step m) Ascending s labels ∧
      StepSystem.run (step m) s labels = some s' ∧
      s'.phase = .reported totalReceived totalUsec := by
  have hProgress : ∀ s,
      Sound m s ∧ 0 < dataCount s.arriving →
      (¬ ∃ totalReceived totalUsec,
        s.phase = .reported totalReceived totalUsec) →
      ∃ label s', Ascending s label ∧
        step m s label = some s' ∧
        (Sound m s' ∧ 0 < dataCount s'.arriving) ∧
        pending s' < pending s := by
    rintro s ⟨hSound, hData⟩ hNot
    rcases hSound.exists_step hData hNot with
      ⟨label, s', hOk, hStep, hData', hLess⟩
    exact ⟨label, s', hOk, hStep,
      ⟨hSound.step hOk hStep, hData'⟩, hLess⟩
  rcases StepSystem.exists_run_of_decreasing pending hProgress
      ⟨hSound, hData⟩ with
    ⟨labels, s', hAscending, hRun, -, totalReceived,
      totalUsec, hReported⟩
  exact ⟨labels, s', totalReceived, totalUsec,
    hAscending, hRun, hReported⟩

/-
  The first byte is read; the request behind it is lost, and
  so is all data written later.
-/
def lostRequest : List TestLabel :=
  [.writeSome 1, .remoteReads 0 1, .writeSome 2,
    .loseToRemote 0, .loseToRemote 0, .requestStop,
    .getResults, .loseToRemote 0]

end ThroughputTest

end ModemTester
