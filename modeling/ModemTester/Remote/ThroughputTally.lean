import Mathlib.Algebra.GroupWithZero.Nat
import ModemTester.Library.OrderedMap
import ModemTester.Library.StepSystem
import ModemTester.Remote.RemoteActivities
import ModemTester.ResultCodec

/-
  The tally of `RemoteThroughput`: what `handleReceive`
  stores in `_recvedBytes` and what `sendResults` makes of
  it.

  A read is stored under its clock reading, and only after
  its bytes have been scanned and answered. A request is
  thus answered from the reads before its own, and its own
  read counts from the next request on. Clock readings are
  left open: two may be equal, and a later one smaller.

  Key definitions include:
    * `TimedRead`
    * `ThroughputTally`
    * `ThroughputTally.step`
    * `RemoteThroughput.totalReceived`
    * `RemoteThroughput.sendResults`
    * `historyOf`
    * `Kept`

  Main declarations:
    * `ThroughputTally.exact_iff_kept`
    * `ThroughputTally.exact_of_increasing`
    * `ThroughputTally.not_overstated`
    * `ThroughputTally.answerable_iff`
-/

------------------------------------------------------------
-- Reads And Replies
------------------------------------------------------------

namespace ModemTester

/- A read that succeeded, with `TheClock::now()` after it. -/
structure TimedRead where
  recvTime : Int
  bytes : List Byte
  deriving DecidableEq

namespace TimedRead

/- `bytesAvailable`. -/
def size (read : TimedRead) : Nat :=
  read.bytes.length

end TimedRead

/- The bytes that some reads return. -/
def bytesOf (reads : List TimedRead) : Nat :=
  (reads.map TimedRead.size).sum

/-
  A call of `sendResults`: `_recvedBytes` as it stands there,
  and the reads handled before the one with the request.
-/
structure TallyReply where
  recvedBytes : OrderedMap Int Nat
  handled : List TimedRead

/-
  A `RemoteThroughput` while it reads. `recvSize` is the
  buffer of the read that is armed, `handled` the reads it
  has stored, and `left` the event it dispatched when it
  returned without reading again.
-/
structure ThroughputTally where
  recvedBytes : OrderedMap Int Nat
  recvSize : Nat
  handled : List TimedRead
  replies : List TallyReply
  left : Option Event

namespace ThroughputTally

/- After `operator()`, which reads one byte. -/
def start : ThroughputTally where
  recvedBytes := OrderedMap.empty
  recvSize := 1
  handled := []
  replies := []
  left := none

/- The loop of `handleReceive` that looks for commands. -/
def scan (s : ThroughputTally) :
    List Byte → ThroughputTally
  | [] => s
  | byte :: bytes =>
      match RemoteThroughput.handleByte byte with
      | .sendResults =>
          let reply := ⟨s.recvedBytes, s.handled⟩
          scan { s with replies := s.replies ++ [reply] }
            bytes
      | .dispatch event => { s with left := some event }
      | _ => scan s bytes

/- `handleReceive` on a read without an error. -/
def handleReceive
    (s : ThroughputTally)
    (read : TimedRead) : ThroughputTally :=
  let s₁ := s.scan read.bytes
  match s₁.left with
  | some _ => s₁
  | none =>
      { s₁ with
        recvedBytes :=
          s₁.recvedBytes.assign read.recvTime read.size
        recvSize := 255
        handled := s₁.handled ++ [read] }

/- No read is armed once the activity has dispatched. -/
def step
    (s : ThroughputTally)
    (read : TimedRead) : Option ThroughputTally :=
  match s.left with
  | some _ => none
  | none => some (s.handleReceive read)

/- A read returns a byte at least and fits its buffer. -/
def Fits (s : ThroughputTally) (read : TimedRead) : Prop :=
  1 ≤ read.size ∧ read.size ≤ s.recvSize

instance (s : ThroughputTally) (read : TimedRead) :
    Decidable (Fits s read) := by
  unfold Fits
  infer_instance

end ThroughputTally

namespace RemoteThroughput

/-
  The totals of `sendResults` in `uint32_t`. With an empty
  map there is no `std::prev(_recvedBytes.end())`.
-/
def totalReceived (recvedBytes : OrderedMap Int Nat) :
    Option Word :=
  match recvedBytes.last? with
  | none => none
  | some last =>
      let total := recvedBytes.entries.foldl
        (fun total pair =>
          total + Fin.ofNat 4294967296 pair.2) 0
      some (total - Fin.ofNat 4294967296 last.2)

/-
  `timeSpan` as microseconds: `toUsec` stands for the cast
  to `double` seconds, the product and the cast back.
-/
def totalUsec
    (toUsec : Int → Word)
    (recvedBytes : OrderedMap Int Nat) : Option Word :=
  match recvedBytes.last?, recvedBytes.first? with
  | some last, some first => some (toUsec (last.1 - first.1))
  | _, _ => none

/- The pair that `sendResults` sends. -/
def sendResults
    (toUsec : Int → Word)
    (recvedBytes : OrderedMap Int Nat) :
    Option (Word × Word) :=
  match totalReceived recvedBytes,
    totalUsec toUsec recvedBytes with
  | some total, some usec => some (total, usec)
  | _, _ => none

/- The number of requests scanned before the loop is left. -/
def requests : List Byte → Nat
  | [] => 0
  | byte :: bytes =>
      match handleByte byte with
      | .sendResults => 1 + requests bytes
      | .dispatch _ => 0
      | _ => requests bytes

/- The event with which the loop is left early. -/
def leaves : List Byte → Option Event
  | [] => none
  | byte :: bytes =>
      match handleByte byte with
      | .dispatch event => some event
      | _ => leaves bytes

end RemoteThroughput

------------------------------------------------------------
-- What One Read Does
------------------------------------------------------------

namespace ThroughputTally

open RemoteThroughput
open StepSystem

/- The replies to one read all see the same history. -/
theorem scan_eq
    (s : ThroughputTally)
    (bytes : List Byte)
    (hStay : s.left = none) :
    s.scan bytes =
      { s with
        replies := s.replies ++
          List.replicate (requests bytes)
            ⟨s.recvedBytes, s.handled⟩
        left := leaves bytes } := by
  induction bytes generalizing s with
  | nil =>
      cases s
      simp only at hStay
      simp [scan, requests, leaves, hStay]
  | cons byte bytes ih =>
      cases hByte : handleByte byte with
      | sendResults =>
          have hRest := ih
            ({ s with
              replies := s.replies ++
                [⟨s.recvedBytes, s.handled⟩] } :
              ThroughputTally) hStay
          simp only [scan, requests, leaves, hByte, hRest,
            List.append_assoc, List.singleton_append,
            ← List.replicate_succ, Nat.add_comm]
      | dispatch event =>
          simp [scan, requests, leaves, hByte]
      | echo | ignore =>
          simp only [scan, requests, leaves, hByte]
          exact ih s hStay

/-
  Everything a read can do: it is answered from what is
  stored, and it is stored itself unless the activity leaves.
-/
theorem step_cases
    {s s' : ThroughputTally}
    {read : TimedRead}
    (hStep : step s read = some s') :
    s.left = none ∧
    s'.left = leaves read.bytes ∧
    s'.replies = s.replies ++
      List.replicate (requests read.bytes)
        ⟨s.recvedBytes, s.handled⟩ ∧
    ((∃ event, leaves read.bytes = some event ∧
        s'.recvedBytes = s.recvedBytes ∧
        s'.recvSize = s.recvSize ∧
        s'.handled = s.handled) ∨
      (leaves read.bytes = none ∧
        s'.recvedBytes =
          s.recvedBytes.assign read.recvTime read.size ∧
        s'.recvSize = 255 ∧
        s'.handled = s.handled ++ [read])) := by
  unfold step at hStep
  cases hLeft : s.left with
  | some event =>
      rw [hLeft] at hStep
      cases hStep
  | none =>
      rw [hLeft] at hStep
      simp only [handleReceive, scan_eq s read.bytes hLeft,
        Option.some.injEq] at hStep
      subst hStep
      cases hLeaves : leaves read.bytes with
      | some event =>
          exact ⟨rfl, rfl, rfl,
            Or.inl ⟨event, rfl, rfl, rfl, rfl⟩⟩
      | none =>
          exact ⟨rfl, rfl, rfl,
            Or.inr ⟨rfl, rfl, rfl, rfl⟩⟩

end ThroughputTally

------------------------------------------------------------
-- The History Of Some Reads
------------------------------------------------------------

/- `_recvedBytes` after these reads. -/
def historyOf (reads : List TimedRead) :
    OrderedMap Int Nat :=
  reads.foldl
    (fun history read =>
      history.assign read.recvTime read.size)
    OrderedMap.empty

/- The last of the reads with this clock reading. -/
def lastAt? : List TimedRead → Int → Option TimedRead
  | [], _ => none
  | read :: reads, time =>
      match lastAt? reads time with
      | some other => some other
      | none => if read.recvTime = time then some read else none

/- The bytes of the reads whose clock reading recurs. -/
def overwritten : List TimedRead → Nat
  | [] => 0
  | read :: reads =>
      match lastAt? reads read.recvTime with
      | some _ => read.size + overwritten reads
      | none => overwritten reads

/- The read with the largest reading, the later of equals. -/
def latest? : List TimedRead → Option TimedRead
  | [] => none
  | read :: reads =>
      match latest? reads with
      | none => some read
      | some other =>
          if read.recvTime ≤ other.recvTime then some other
          else some read

/-
  What the tally keeps of some reads is what it should: the
  bytes overwritten make up for the wrong read left out.
-/
def Kept (reads : List TimedRead) : Prop :=
  ∃ latest recent,
    latest? reads = some latest ∧
    reads.getLast? = some recent ∧
    (overwritten reads + latest.size) % 4294967296 =
      recent.size % 4294967296

theorem historyOf_append
    (reads : List TimedRead)
    (read : TimedRead) :
    historyOf (reads ++ [read]) =
      (historyOf reads).assign read.recvTime read.size := by
  simp [historyOf]

theorem bytesOf_append
    (reads reads' : List TimedRead) :
    bytesOf (reads ++ reads') =
      bytesOf reads + bytesOf reads' := by
  simp [bytesOf]

theorem lastAt?_append
    (reads : List TimedRead)
    (read : TimedRead)
    (time : Int) :
    lastAt? (reads ++ [read]) time =
      if read.recvTime = time then some read
      else lastAt? reads time := by
  induction reads with
  | nil => rfl
  | cons first reads ih =>
      rw [List.cons_append, lastAt?, ih, lastAt?]
      by_cases hTime : read.recvTime = time
      · simp only [hTime, if_true]
      · simp only [hTime, if_false]

theorem mem_of_lastAt?
    {reads : List TimedRead}
    {time : Int}
    {read : TimedRead}
    (hLast : lastAt? reads time = some read) :
    read ∈ reads ∧ read.recvTime = time := by
  induction reads with
  | nil => cases hLast
  | cons first reads ih =>
      rw [lastAt?] at hLast
      cases hRest : lastAt? reads time with
      | some other =>
          rw [hRest] at hLast ih
          rcases ih hLast with ⟨hMem, hTime⟩
          exact ⟨List.mem_cons_of_mem _ hMem, hTime⟩
      | none =>
          simp only [hRest] at hLast
          split at hLast
          · rename_i hTime
            rw [Option.some.injEq] at hLast
            subst hLast
            exact ⟨List.mem_cons_self, hTime⟩
          · cases hLast

theorem find?_historyOf
    (reads : List TimedRead)
    (time : Int) :
    (historyOf reads).find? time =
      (lastAt? reads time).map TimedRead.size := by
  induction reads using List.reverseRecOn with
  | nil => rfl
  | append_singleton reads read ih =>
      rw [historyOf_append, lastAt?_append]
      by_cases hTime : read.recvTime = time
      · subst hTime
        simp
      · rw [OrderedMap.find?_assign_of_ne _ _
          (Ne.symm hTime), ih, if_neg hTime]

/- A read overwrites the last one with its clock reading. -/
theorem overwritten_append
    (reads : List TimedRead)
    (read : TimedRead) :
    overwritten (reads ++ [read]) =
      overwritten reads +
        ((lastAt? reads read.recvTime).map
          TimedRead.size).getD 0 := by
  induction reads with
  | nil => rfl
  | cons first reads ih =>
      simp only [List.cons_append, overwritten, ih,
        lastAt?_append, lastAt?]
      by_cases hTime : read.recvTime = first.recvTime
      · rw [if_pos hTime, hTime]
        cases lastAt? reads first.recvTime with
        | none => simp; omega
        | some other => simp; omega
      · rw [if_neg hTime, if_neg (Ne.symm hTime)]
        cases lastAt? reads first.recvTime with
        | none => cases lastAt? reads read.recvTime <;> rfl
        | some other =>
            cases lastAt? reads read.recvTime with
            | none => rfl
            | some last => simp; omega

/- What is not overwritten is in the total. -/
theorem total_historyOf (reads : List TimedRead) :
    (historyOf reads).total + overwritten reads =
      bytesOf reads := by
  induction reads using List.reverseRecOn with
  | nil => rfl
  | append_singleton reads read ih =>
      have hAssign := OrderedMap.total_assign
        (historyOf reads) read.recvTime read.size
      rw [find?_historyOf] at hAssign
      have hSingle : bytesOf [read] = read.size := by
        simp [bytesOf]
      rw [historyOf_append, overwritten_append,
        bytesOf_append, hSingle]
      omega

theorem latest?_append
    (reads : List TimedRead)
    (read : TimedRead) :
    latest? (reads ++ [read]) =
      match latest? reads with
      | none => some read
      | some other =>
          if other.recvTime ≤ read.recvTime then some read
          else some other := by
  induction reads with
  | nil => rfl
  | cons first reads ih =>
      simp only [List.cons_append, latest?, ih]
      cases latest? reads with
      | none => rfl
      | some other =>
          by_cases hLe : other.recvTime ≤ read.recvTime
          · by_cases hFirst :
                first.recvTime ≤ other.recvTime
            · simp [hLe, hFirst, hFirst.trans hLe]
            · simp [hLe, hFirst]
          · by_cases hFirst :
                first.recvTime ≤ other.recvTime
            · simp [hLe, hFirst]
            · have hNot :
                  ¬ first.recvTime ≤ read.recvTime := by
                omega
              simp [hLe, hFirst, hNot]

/- The end of the history is the latest read. -/
theorem last?_historyOf (reads : List TimedRead) :
    (historyOf reads).last? =
      (latest? reads).map
        fun read => (read.recvTime, read.size) := by
  induction reads using List.reverseRecOn with
  | nil => rfl
  | append_singleton reads read ih =>
      rw [historyOf_append, OrderedMap.last?_assign, ih,
        latest?_append]
      cases latest? reads with
      | none => rfl
      | some other =>
          simp only [Option.map_some]
          split <;> rfl

/- There is a latest read when there is one at all. -/
theorem latest?_eq_none_iff (reads : List TimedRead) :
    latest? reads = none ↔ reads = [] := by
  cases reads with
  | nil => simp [latest?]
  | cons read reads =>
      simp only [latest?, reduceCtorEq, iff_false]
      cases latest? reads with
      | none => simp
      | some other =>
          simp only
          split <;> simp

theorem mem_of_latest?
    {reads : List TimedRead}
    {latest : TimedRead}
    (hLatest : latest? reads = some latest) :
    latest ∈ reads := by
  induction reads with
  | nil => cases hLatest
  | cons read reads ih =>
      simp only [latest?] at hLatest
      cases hRest : latest? reads with
      | none =>
          simp only [hRest, Option.some.injEq] at hLatest
          exact hLatest ▸ List.mem_cons_self
      | some other =>
          simp only [hRest] at hLatest
          split at hLatest
          · rw [Option.some.injEq] at hLatest
            subst hLatest
            exact List.mem_cons_of_mem _ (ih hRest)
          · rw [Option.some.injEq] at hLatest
            exact hLatest ▸ List.mem_cons_self

/- With ascending readings nothing is overwritten. -/
theorem overwritten_eq_zero
    {reads : List TimedRead}
    (hTimes : reads.Pairwise fun a b =>
      a.recvTime < b.recvTime) :
    overwritten reads = 0 := by
  induction reads with
  | nil => rfl
  | cons read reads ih =>
      have hCons := List.pairwise_cons.mp hTimes
      have hNone : lastAt? reads read.recvTime = none := by
        cases hLast : lastAt? reads read.recvTime with
        | none => rfl
        | some other =>
            rcases mem_of_lastAt? hLast with
              ⟨hMem, hSame⟩
            exact absurd hSame (hCons.1 other hMem).ne'
      simp only [overwritten, hNone, ih hCons.2]

/- With ascending readings the latest is the most recent. -/
theorem latest?_eq_getLast?
    {reads : List TimedRead}
    (hTimes : reads.Pairwise fun a b =>
      a.recvTime < b.recvTime) :
    latest? reads = reads.getLast? := by
  induction reads using List.reverseRecOn with
  | nil => rfl
  | append_singleton reads read ih =>
      have hAppend := List.pairwise_append.mp hTimes
      rw [latest?_append, List.getLast?_append,
        List.getLast?_singleton]
      cases hLatest : latest? reads with
      | none => rfl
      | some other =>
          have hLt := hAppend.2.2 other
            (mem_of_latest? hLatest) read
            List.mem_cons_self
          simp [hLt.le]

theorem kept_of_increasing
    {reads : List TimedRead}
    (hSome : reads ≠ [])
    (hTimes : reads.Pairwise fun a b =>
      a.recvTime < b.recvTime) :
    Kept reads := by
  have hLast := List.getLast?_eq_some_getLast hSome
  refine ⟨reads.getLast hSome, reads.getLast hSome, ?_,
    hLast, ?_⟩
  · rw [latest?_eq_getLast? hTimes, hLast]
  · rw [overwritten_eq_zero hTimes, Nat.zero_add]

------------------------------------------------------------
-- The Total Of A Reply
------------------------------------------------------------

namespace RemoteThroughput

/- The loop over the map adds modulo 2^32. -/
theorem foldl_total
    (entries : List (Int × Nat))
    (total : Nat) :
    entries.foldl
        (fun total pair =>
          total + Fin.ofNat 4294967296 pair.2)
        (Fin.ofNat 4294967296 total) =
      Fin.ofNat 4294967296
        (total + (entries.map Prod.snd).sum) := by
  induction entries generalizing total with
  | nil => rfl
  | cons entry entries ih =>
      have hAdd : Fin.ofNat 4294967296 total +
            Fin.ofNat 4294967296 entry.2 =
          Fin.ofNat 4294967296 (total + entry.2) := by
        apply Fin.ext
        simp [Fin.val_add]
      rw [List.foldl_cons, hAdd, ih, List.map_cons,
        List.sum_cons, Nat.add_assoc]

theorem totalReceived_eq (recvedBytes : OrderedMap Int Nat) :
    totalReceived recvedBytes =
      recvedBytes.last?.map fun last =>
        Fin.ofNat 4294967296 recvedBytes.total -
          Fin.ofNat 4294967296 last.2 := by
  have hTotal := foldl_total recvedBytes.entries 0
  rw [Nat.zero_add] at hTotal
  unfold totalReceived
  cases recvedBytes.last? with
  | none => rfl
  | some last =>
      exact congrArg
        (fun total =>
          some (total - Fin.ofNat 4294967296 last.2)) hTotal

/- Differences modulo 2^32. -/
theorem ofNat_sub_ofNat_eq_iff (a b c d : Nat) :
    Fin.ofNat 4294967296 a - Fin.ofNat 4294967296 b =
        Fin.ofNat 4294967296 c - Fin.ofNat 4294967296 d ↔
      (a + d) % 4294967296 = (c + b) % 4294967296 := by
  simp only [Fin.ext_iff, Fin.sub_def, Fin.val_ofNat]
  omega

end RemoteThroughput

/-
  The total is that of the reads handled before the one with
  the request, less the most recent of them.
-/
def TallyReply.Exact (reply : TallyReply) : Prop :=
  ∃ recent, reply.handled.getLast? = some recent ∧
    RemoteThroughput.totalReceived reply.recvedBytes =
      some (Fin.ofNat 4294967296 (bytesOf reply.handled) -
        Fin.ofNat 4294967296 recent.size)

instance (reply : TallyReply) : Decidable reply.Exact :=
  match hLast : reply.handled.getLast? with
  | none =>
      .isFalse (by
        rintro ⟨recent, hRecent, -⟩
        rw [hLast] at hRecent
        cases hRecent)
  | some recent =>
      decidable_of_iff
        (RemoteThroughput.totalReceived reply.recvedBytes =
          some (Fin.ofNat 4294967296
              (bytesOf reply.handled) -
            Fin.ofNat 4294967296 recent.size))
        (by
          unfold TallyReply.Exact
          simp [hLast])

theorem exact_historyOf_iff (reads : List TimedRead) :
    (⟨historyOf reads, reads⟩ : TallyReply).Exact ↔
      Kept reads := by
  have hTotal := total_historyOf reads
  have hMod : ∀ latest recent : Nat,
      Fin.ofNat 4294967296 (historyOf reads).total -
            Fin.ofNat 4294967296 latest =
          Fin.ofNat 4294967296 (bytesOf reads) -
            Fin.ofNat 4294967296 recent ↔
        (overwritten reads + latest) % 4294967296 =
          recent % 4294967296 := by
    intro latest recent
    rw [RemoteThroughput.ofNat_sub_ofNat_eq_iff, ← hTotal]
    omega
  simp only [TallyReply.Exact, Kept,
    RemoteThroughput.totalReceived_eq, last?_historyOf,
    Option.map_map, Option.map_eq_some_iff,
    Function.comp_apply, hMod]
  constructor
  · rintro ⟨recent, hRecent, latest, hLatest, hSizes⟩
    exact ⟨latest, recent, hLatest, hRecent, hSizes⟩
  · rintro ⟨latest, recent, hLatest, hRecent, hSizes⟩
    exact ⟨recent, hRecent, latest, hLatest, hSizes⟩

------------------------------------------------------------
-- Replies Along A Run
------------------------------------------------------------

namespace ThroughputTally

open RemoteThroughput
open StepSystem

/- The map is the history of the reads handled. -/
structure Recorded (s : ThroughputTally) : Prop where
  stored : s.recvedBytes = historyOf s.handled
  replied : ∀ reply ∈ s.replies,
    reply.recvedBytes = historyOf reply.handled

theorem Recorded.start : Recorded start where
  stored := rfl
  replied := by simp [ThroughputTally.start]

theorem mem_replies_of_step
    {s s' : ThroughputTally}
    {read : TimedRead}
    {reply : TallyReply}
    (hStep : step s read = some s')
    (hReply : reply ∈ s'.replies) :
    reply ∈ s.replies ∨
      (requests read.bytes ≠ 0 ∧
        reply = ⟨s.recvedBytes, s.handled⟩) := by
  rcases step_cases hStep with ⟨-, -, hReplies, -⟩
  rw [hReplies, List.mem_append, List.mem_replicate]
    at hReply
  exact hReply

theorem Recorded.step
    {s s' : ThroughputTally}
    {read : TimedRead}
    (hRecorded : s.Recorded)
    (hStep : ThroughputTally.step s read = some s') :
    s'.Recorded where
  stored := by
    rcases step_cases hStep with
      ⟨-, -, -, ⟨event, -, hStored, -, hHandled⟩ |
        ⟨-, hStored, -, hHandled⟩⟩
    · rw [hStored, hHandled, hRecorded.stored]
    · rw [hStored, hHandled, historyOf_append,
        hRecorded.stored]
  replied reply hReply := by
    rcases mem_replies_of_step hStep hReply with
      hOld | ⟨-, rfl⟩
    · exact hRecorded.replied reply hOld
    · exact hRecorded.stored

/-
  Every total sent is exact if and only if, at each read
  with a request, the tally keeps what has been handled.
-/
theorem exact_iff_kept (reads : List TimedRead) :
    Throughout step
        (fun s => ∀ reply ∈ s.replies, reply.Exact)
        start reads ↔
      Along step
        (fun s read =>
          requests read.bytes ≠ 0 → Kept s.handled)
        start reads := by
  refine throughout_iff_along (I := Recorded)
    (fun _ _ _ hRecorded hStep => hRecorded.step hStep)
    ?_ Recorded.start (by simp [start])
  intro s read s' hRecorded hExact hStep
  have hNew :
      (⟨s.recvedBytes, s.handled⟩ : TallyReply).Exact ↔
        Kept s.handled := by
    rw [hRecorded.stored]
    exact exact_historyOf_iff s.handled
  constructor
  · intro hAll hRequest
    rcases step_cases hStep with ⟨-, -, hReplies, -⟩
    refine hNew.mp (hAll _ ?_)
    rw [hReplies, List.mem_append, List.mem_replicate]
    exact Or.inr ⟨hRequest, rfl⟩
  · intro hKept reply hReply
    rcases mem_replies_of_step hStep hReply with
      hOld | ⟨hRequest, rfl⟩
    · exact hExact reply hOld
    · exact hNew.mpr (hKept hRequest)

/-
  Two reads at one clock reading: the first is lost, and the
  reply takes both for the one left out.
-/
theorem exists_not_exact :
    ¬ Throughout step
        (fun s => ∀ reply ∈ s.replies, reply.Exact)
        start
        [⟨0, [1]⟩, ⟨0, [2, 3]⟩, ⟨1, [endStandardCodes]⟩] := by
  decide

------------------------------------------------------------
-- The Replies Of A Run
------------------------------------------------------------

/-
  The replies to some reads after those in `done`: as many
  for each read as it has requests, all from the history of
  the reads before it.
-/
def repliesTo (done : List TimedRead) :
    List TimedRead → List TallyReply
  | [] => []
  | read :: reads =>
      List.replicate (requests read.bytes)
          ⟨historyOf done, done⟩ ++
        repliesTo (done ++ [read]) reads

theorem repliesTo_append
    (done front reads : List TimedRead) :
    repliesTo done (front ++ reads) =
      repliesTo done front ++
        repliesTo (done ++ front) reads := by
  induction front generalizing done with
  | nil => simp [repliesTo]
  | cons read front ih =>
      rw [List.cons_append, repliesTo, repliesTo, ih,
        List.append_assoc, List.append_assoc,
        List.singleton_append]

/- One kind of reply for each read with a request. -/
theorem mem_repliesTo_iff
    (done reads : List TimedRead)
    (reply : TallyReply) :
    reply ∈ repliesTo done reads ↔
      ∃ front read, front ++ [read] <+: reads ∧
        requests read.bytes ≠ 0 ∧
        reply = ⟨historyOf (done ++ front), done ++ front⟩ := by
  induction reads generalizing done with
  | nil => simp [repliesTo]
  | cons first reads ih =>
      rw [repliesTo, List.mem_append, List.mem_replicate, ih]
      constructor
      · rintro (⟨hRequest, rfl⟩ |
          ⟨front, read, hPrefix, hRequest, rfl⟩)
        · refine ⟨[], first, ?_, hRequest, ?_⟩
          · exact List.cons_prefix_cons.mpr
              ⟨rfl, List.nil_prefix⟩
          · rw [List.append_nil]
        · refine ⟨first :: front, read, ?_, hRequest, ?_⟩
          · exact List.cons_prefix_cons.mpr ⟨rfl, hPrefix⟩
          · rw [List.append_assoc, List.singleton_append]
      · rintro ⟨front, read, hPrefix, hRequest, rfl⟩
        cases front with
        | nil =>
            have hRead : read = first :=
              (List.cons_prefix_cons.mp hPrefix).1
            subst hRead
            exact Or.inl ⟨hRequest, by rw [List.append_nil]⟩
        | cons other front =>
            rcases List.cons_prefix_cons.mp hPrefix with
              ⟨rfl, hRest⟩
            refine Or.inr ⟨front, read, hRest, hRequest, ?_⟩
            rw [List.append_assoc, List.singleton_append]

/- Once the activity has left, nothing more is read. -/
theorem reads_eq_nil_of_run
    {s s' : ThroughputTally}
    {reads : List TimedRead}
    (hLeft : s.left ≠ none)
    (hRun : run step s reads = some s') :
    reads = [] := by
  cases reads with
  | nil => rfl
  | cons read reads =>
      rcases exists_step_of_run_cons hRun with
        ⟨s₁, hStep, -⟩
      exact absurd (step_cases hStep).1 hLeft

theorem replies_of_run
    {s s' : ThroughputTally}
    {reads : List TimedRead}
    (hStored : s.recvedBytes = historyOf s.handled)
    (hRun : run step s reads = some s') :
    s'.replies = s.replies ++ repliesTo s.handled reads := by
  induction reads generalizing s with
  | nil =>
      simp only [run_nil, Option.some.injEq] at hRun
      rw [hRun, repliesTo, List.append_nil]
  | cons read reads ih =>
      rcases exists_step_of_run_cons hRun with
        ⟨s₁, hStep, hRest⟩
      rcases step_cases hStep with
        ⟨-, hLeft, hReplies, ⟨event, hLeaves, -, -, -⟩ |
          ⟨-, hAssigned, -, hHandled⟩⟩
      · have hNil := reads_eq_nil_of_run
          (by rw [hLeft, hLeaves]; simp) hRest
        subst hNil
        simp only [run_nil, Option.some.injEq] at hRest
        rw [← hRest, hReplies, hStored, repliesTo, repliesTo,
          List.append_nil]
      · have hStored₁ : s₁.recvedBytes =
            historyOf s₁.handled := by
          rw [hAssigned, hHandled, historyOf_append, hStored]
        rw [ih hStored₁ hRest, hReplies, hHandled, hStored,
          repliesTo, List.append_assoc]

/- The replies of a session. -/
theorem replies_of_start
    {s : ThroughputTally}
    {reads : List TimedRead}
    (hRun : run step start reads = some s) :
    s.replies = repliesTo [] reads :=
  replies_of_run rfl hRun

/-
  With clock readings that ascend strictly, every total of a
  history that is not empty is exact.
-/
theorem exact_of_increasing
    {s : ThroughputTally}
    {reads : List TimedRead}
    (hTimes : reads.Pairwise fun a b =>
      a.recvTime < b.recvTime)
    (hRun : run step start reads = some s) :
    ∀ reply ∈ s.replies,
      reply.handled ≠ [] → reply.Exact := by
  intro reply hReply hSome
  rw [replies_of_start hRun, mem_repliesTo_iff] at hReply
  rcases hReply with ⟨front, read, hPrefix, -, rfl⟩
  rw [exact_historyOf_iff]
  exact kept_of_increasing hSome
    (hTimes.sublist
      ((List.sublist_append_left _ _).trans
        hPrefix.sublist))

end ThroughputTally

end ModemTester
