import ModemTester.Remote.ThroughputTally

/-
  What can be said of the results a remote sends in one
  throughput session.

  They are never overstated, as long as there is a history
  to compute them from. There is none when the first byte is
  already a request. And the read with a request becomes the
  last entry of the history once it is answered, so a
  request made again is answered from a longer history, with
  another read left out.

  Key definitions include:
    * `FromOneByte`
    * `Rerequest`
    * `Idempotent`
    * `Unmoved`

  Main declarations:
    * `ThroughputTally.not_overstated`
    * `ThroughputTally.answerable_iff`
    * `ThroughputTally.idempotent_iff`
    * `ThroughputTally.idempotent_iff_of_lt`
-/

------------------------------------------------------------
-- Sizes In A Session
------------------------------------------------------------

namespace ModemTester

namespace ThroughputTally

open RemoteThroughput
open StepSystem

/-
  Each read returns a byte at least, and the first one no
  more.
-/
structure FromOneByte (reads : List TimedRead) : Prop where
  some_byte : ∀ read ∈ reads, 1 ≤ read.size
  one_byte : ∀ read ∈ reads.head?, read.size ≤ 1

theorem FromOneByte.size_eq_one
    {read : TimedRead}
    {reads : List TimedRead}
    (hReads : FromOneByte (read :: reads)) :
    read.size = 1 :=
  Nat.le_antisymm (hReads.one_byte read rfl)
    (hReads.some_byte read List.mem_cons_self)

theorem one_le_size_of_run
    {s s' : ThroughputTally}
    {reads : List TimedRead}
    (hFits : Along step Fits s reads)
    (hRun : run step s reads = some s') :
    ∀ read ∈ reads, 1 ≤ read.size := by
  induction reads generalizing s with
  | nil => simp
  | cons read reads ih =>
      rcases exists_step_of_run_cons hRun with
        ⟨s₁, hStep, hRest⟩
      rw [along_cons_of_step hStep] at hFits
      intro other hOther
      rcases List.mem_cons.mp hOther with rfl | hLater
      · exact hFits.1.1
      · exact ih hFits.2 hRest other hLater

/- So it is with reads that fit the buffers they are given. -/
theorem fromOneByte_of_run
    {s : ThroughputTally}
    {reads : List TimedRead}
    (hFits : Along step Fits start reads)
    (hRun : run step start reads = some s) :
    FromOneByte reads where
  some_byte := one_le_size_of_run hFits hRun
  one_byte first hFirst := by
    cases reads with
    | nil => cases hFirst
    | cons read reads =>
        rw [List.head?_cons, Option.mem_some_iff] at hFirst
        subst hFirst
        rcases exists_step_of_run_cons hRun with
          ⟨s₁, hStep, -⟩
        rw [along_cons_of_step hStep] at hFits
        exact hFits.1.2

theorem bytesOf_le_of_prefix
    {front reads : List TimedRead}
    (hPrefix : front <+: reads) :
    bytesOf front ≤ bytesOf reads := by
  rcases hPrefix with ⟨rest, rfl⟩
  rw [bytesOf_append]
  exact Nat.le_add_right _ _

/- The most recent read apart. -/
theorem bytesOf_eq_dropLast_add
    {reads : List TimedRead}
    (hSome : reads ≠ []) :
    bytesOf reads =
      bytesOf reads.dropLast + (reads.getLast hSome).size := by
  conv_lhs => rw [← List.dropLast_concat_getLast hSome]
  rw [bytesOf_append]
  simp [bytesOf]

------------------------------------------------------------
-- Totals Are Not Overstated
------------------------------------------------------------

/-
  The read left out returned at least the one byte that the
  first read did. Bytes overwritten only lower the total.
-/
theorem not_overstated
    {s : ThroughputTally}
    {reads : List TimedRead}
    (hReads : FromOneByte reads)
    (hBytes : bytesOf reads < 4294967296)
    (hRun : run step start reads = some s) :
    ∀ reply ∈ s.replies, ∀ total,
      totalReceived reply.recvedBytes = some total →
        total.val ≤ bytesOf reply.handled.tail := by
  intro reply hReply total hTotal
  rw [replies_of_start hRun, mem_repliesTo_iff] at hReply
  rcases hReply with ⟨front, read, hPrefix, -, rfl⟩
  have hFront : front <+: reads :=
    (List.prefix_append _ _).trans hPrefix
  simp only [List.nil_append] at hTotal ⊢
  rw [totalReceived_eq, Option.map_eq_some_iff] at hTotal
  rcases hTotal with ⟨last, hLast, hTotal⟩
  have hKept := total_historyOf front
  have hFew := bytesOf_le_of_prefix hFront
  have hInside : last.2 ≤ (historyOf front).total :=
    OrderedMap.snd_le_total
      (List.mem_of_getLast? hLast)
  have hValue : total.val =
      (historyOf front).total - last.2 := by
    rw [← hTotal, Fin.sub_def]
    simp only [Fin.val_ofNat]
    omega
  rw [last?_historyOf, Option.map_eq_some_iff] at hLast
  rcases hLast with ⟨latest, hLatest, rfl⟩
  have hSize : 1 ≤ latest.size :=
    hReads.some_byte latest
      (hFront.subset (mem_of_latest? hLatest))
  cases front with
  | nil => cases hLatest
  | cons first front =>
      rcases hFront with ⟨rest, rfl⟩
      have hOne : first.size = 1 := hReads.size_eq_one
      have hSum : bytesOf (first :: front) =
          first.size + bytesOf front := by
        simp [bytesOf]
      rw [List.tail_cons]
      omega

/- A session with equal and falling clock readings. -/
def fallingReads : List TimedRead :=
  [⟨5, [1]⟩, ⟨5, [2, 3]⟩, ⟨4, [6, endStandardCodes]⟩,
    ⟨7, [endStandardCodes]⟩]

theorem not_overstated_falling :
    ∃ s, run step start fallingReads = some s ∧
      s.replies.length = 2 ∧
      ∀ reply ∈ s.replies, ∀ total,
        totalReceived reply.recvedBytes = some total →
          total.val ≤ bytesOf reply.handled.tail :=
  ⟨_, rfl, rfl,
    @not_overstated _ fallingReads
      ⟨by decide, by simp [fallingReads, TimedRead.size]⟩
      (by decide) rfl⟩

------------------------------------------------------------
-- Histories That Are Not Empty
------------------------------------------------------------

/- Only without reads is there no last entry. -/
theorem last?_historyOf_eq_none_iff
    (reads : List TimedRead) :
    (historyOf reads).last? = none ↔ reads = [] := by
  rw [last?_historyOf, Option.map_eq_none_iff,
    latest?_eq_none_iff]

theorem requests_singleton_iff (byte : Byte) :
    requests [byte] ≠ 0 ↔ byte = endStandardCodes := by
  simp only [requests, handleByte]
  by_cases hRequest : byte = endStandardCodes
  · simp [hRequest]
  · simp only [hRequest, if_false, iff_false, not_not]
    split_ifs <;> rfl

/-
  Every call of `sendResults` finds an entry if and only if
  the first byte of the stream is not a request.
-/
theorem answerable_iff
    {s : ThroughputTally}
    {reads : List TimedRead}
    (hReads : FromOneByte reads)
    (hRun : run step start reads = some s) :
    (∀ reply ∈ s.replies, reply.recvedBytes.last? ≠ none) ↔
      (reads.flatMap TimedRead.bytes).head? ≠
        some endStandardCodes := by
  cases reads with
  | nil =>
      rw [replies_of_start hRun]
      simp [repliesTo]
  | cons first reads =>
      have hOne : first.bytes.length = 1 :=
        hReads.size_eq_one
      rcases List.length_eq_one_iff.mp hOne with
        ⟨byte, hByte⟩
      have hHead :
          ((first :: reads).flatMap TimedRead.bytes).head? =
            some byte := by
        simp [hByte]
      rw [hHead, ne_eq, Option.some.injEq,
        ← requests_singleton_iff, not_not, ← hByte]
      simp only [replies_of_start hRun, mem_repliesTo_iff]
      constructor
      · intro hAll
        by_contra hRequest
        refine hAll ⟨historyOf [], []⟩
          ⟨[], first, ?_, hRequest, rfl⟩ rfl
        exact List.cons_prefix_cons.mpr
          ⟨rfl, List.nil_prefix⟩
      · rintro hNone reply
          ⟨front, read, hPrefix, hRequest, rfl⟩
        rw [ne_eq, last?_historyOf_eq_none_iff]
        rintro (rfl : front = [])
        have hFirst : read = first :=
          (List.cons_prefix_cons.mp hPrefix).1
        rw [hFirst] at hRequest
        exact hRequest hNone

/- A request that comes before any data. -/
theorem exists_unanswerable :
    ∃ s,
      Along step Fits start [⟨0, [endStandardCodes]⟩] ∧
      run step start [⟨0, [endStandardCodes]⟩] = some s ∧
      ¬ ∀ reply ∈ s.replies,
        reply.recvedBytes.last? ≠ none :=
  ⟨_, by decide, rfl, by decide⟩

/- A request that comes after some data. -/
theorem answerable_iff_after_data :
    ∃ s,
      run step start [⟨0, [1]⟩, ⟨1, [endStandardCodes]⟩] =
        some s ∧
      ((∀ reply ∈ s.replies,
          reply.recvedBytes.last? ≠ none) ↔
        (List.flatMap TimedRead.bytes
          [⟨0, [1]⟩, ⟨1, [endStandardCodes]⟩]).head? ≠
            some endStandardCodes) :=
  ⟨_, rfl,
    @answerable_iff _ [⟨0, [1]⟩, ⟨1, [endStandardCodes]⟩]
      ⟨by decide, by simp [TimedRead.size]⟩ rfl⟩

------------------------------------------------------------
-- Asking Again
------------------------------------------------------------

/- There are no more requests in a read than bytes. -/
theorem requests_le_length (bytes : List Byte) :
    requests bytes ≤ bytes.length := by
  induction bytes with
  | nil => exact le_rfl
  | cons byte bytes ih =>
      rw [requests, List.length_cons]
      split <;> omega

/- The time from the first of some reads to the last. -/
def spanOf (reads : List TimedRead) : Int :=
  match reads.head?, reads.getLast? with
  | some first, some last => last.recvTime - first.recvTime
  | _, _ => 0

/-
  Both histories give the same pair, wrap-around included:
  the bytes before the last read and the time up to it.
-/
def Unmoved
    (toUsec : Int → Word)
    (reads reads' : List TimedRead) : Prop :=
  bytesOf reads'.dropLast % 4294967296 =
      bytesOf reads.dropLast % 4294967296 ∧
    toUsec (spanOf reads') = toUsec (spanOf reads)

/- All replies after the first carry the pair of the first. -/
def Idempotent
    (toUsec : Int → Word) :
    List TallyReply → Prop
  | [] => True
  | first :: rest =>
      ∀ reply ∈ rest,
        sendResults toUsec first.recvedBytes ≠ none ∧
          sendResults toUsec reply.recvedBytes =
            sendResults toUsec first.recvedBytes

instance
    (toUsec : Int → Word)
    (replies : List TallyReply) :
    Decidable (Idempotent toUsec replies) := by
  cases replies <;>
    (unfold Idempotent; infer_instance)

/-
  A session with a first request, at strictly ascending
  clock readings and without payload after the read with
  that request.
-/
structure Rerequest where
  before : List TimedRead
  first : TimedRead
  later : List TimedRead
  ascending : (before ++ first :: later).Pairwise fun a b =>
    a.recvTime < b.recvTime
  from_one_byte : FromOneByte (before ++ first :: later)
  unrequested : ∀ read ∈ before, requests read.bytes = 0
  requested : requests first.bytes ≠ 0
  no_payload : ∀ read ∈ later, ∀ byte ∈ read.bytes,
    endStandardCodes ≤ byte

def Rerequest.reads (session : Rerequest) :
    List TimedRead :=
  session.before ++ session.first :: session.later

/- With ascending readings the map is the list of reads. -/
theorem entries_historyOf
    {reads : List TimedRead}
    (hTimes : reads.Pairwise fun a b =>
      a.recvTime < b.recvTime) :
    (historyOf reads).entries =
      reads.map fun read => (read.recvTime, read.size) := by
  induction reads using List.reverseRecOn with
  | nil => rfl
  | append_singleton reads read ih =>
      have hAppend := List.pairwise_append.mp hTimes
      have hEntries := ih hAppend.1
      rw [historyOf_append, List.map_append, List.map_singleton,
        ← hEntries]
      apply OrderedMap.entries_assign_of_above
      intro entry hEntry
      rw [hEntries, List.mem_map] at hEntry
      rcases hEntry with ⟨old, hOld, rfl⟩
      exact hAppend.2.2 old hOld read List.mem_cons_self

/- The sum less its last summand. -/
theorem ofNat_add_sub (total last : Nat) :
    Fin.ofNat 4294967296 (total + last) -
        Fin.ofNat 4294967296 last =
      Fin.ofNat 4294967296 total := by
  apply Fin.ext
  simp only [Fin.sub_def, Fin.val_ofNat]
  omega

/- What is sent when the readings ascend. -/
theorem sendResults_historyOf
    (toUsec : Int → Word)
    {reads : List TimedRead}
    (hSome : reads ≠ [])
    (hTimes : reads.Pairwise fun a b =>
      a.recvTime < b.recvTime) :
    sendResults toUsec (historyOf reads) =
      some (Fin.ofNat 4294967296 (bytesOf reads.dropLast),
        toUsec (spanOf reads)) := by
  have hEntries := entries_historyOf hTimes
  have hTotal : (historyOf reads).total = bytesOf reads := by
    rw [← total_historyOf reads, overwritten_eq_zero hTimes,
      Nat.add_zero]
  obtain ⟨first, hFirst⟩ : ∃ first,
      reads.head? = some first :=
    ⟨_, List.head?_eq_some_head hSome⟩
  have hRecent : reads.getLast? =
      some (reads.getLast hSome) :=
    List.getLast?_eq_some_getLast hSome
  have hLast : (historyOf reads).last? =
      some ((reads.getLast hSome).recvTime,
        (reads.getLast hSome).size) := by
    rw [OrderedMap.last?, hEntries, List.getLast?_map,
      hRecent]
    rfl
  have hBegin : (historyOf reads).first? =
      some (first.recvTime, first.size) := by
    rw [OrderedMap.first?, hEntries, List.head?_map, hFirst]
    rfl
  simp only [sendResults, totalReceived_eq, totalUsec, hLast,
    hBegin, Option.map_some, hTotal, spanOf, hFirst, hRecent]
  rw [bytesOf_eq_dropLast_add hSome, ofNat_add_sub]

/-
  A reply after the first is the same as the first if and
  only if something was stored before the first, and what
  came since does not move the results.
-/
theorem sendResults_eq_iff
    (toUsec : Int → Word)
    {reads reads' : List TimedRead}
    (hSome : reads' ≠ [])
    (hPrefix : reads <+: reads')
    (hTimes : reads'.Pairwise fun a b =>
      a.recvTime < b.recvTime) :
    (sendResults toUsec (historyOf reads) ≠ none ∧
        sendResults toUsec (historyOf reads') =
          sendResults toUsec (historyOf reads)) ↔
      reads ≠ [] ∧ Unmoved toUsec reads reads' := by
  by_cases hNil : reads = []
  · subst hNil
    have hNone :
        sendResults toUsec (historyOf []) = none := rfl
    simp [hNone]
  · rw [sendResults_historyOf toUsec hSome hTimes,
      sendResults_historyOf toUsec hNil
        (hTimes.sublist hPrefix.sublist)]
    simp [hNil, Unmoved, Fin.ext_iff]

namespace Rerequest

/- The first reply, with the history that it is based on. -/
def firstReply (session : Rerequest) : TallyReply :=
  ⟨historyOf session.before, session.before⟩

/-
  The replies of a session: those to the first read with a
  request, all alike, and those to later reads.
-/
theorem replies_eq
    (session : Rerequest)
    {s : ThroughputTally}
    (hRun : run step start session.reads = some s) :
    ∃ more, requests session.first.bytes = more + 1 ∧
      s.replies =
        session.firstReply ::
          (List.replicate more session.firstReply ++
            repliesTo (session.before ++ [session.first])
              session.later) := by
  have hNone : repliesTo [] session.before = [] := by
    rw [List.eq_nil_iff_forall_not_mem]
    intro reply hReply
    rcases (mem_repliesTo_iff _ _ _).mp hReply with
      ⟨front, read, hPrefix, hRequest, -⟩
    refine hRequest (session.unrequested read ?_)
    exact hPrefix.subset (List.mem_append_right _
      List.mem_cons_self)
  obtain ⟨more, hMore⟩ : ∃ more,
      requests session.first.bytes = more + 1 :=
    Nat.exists_eq_succ_of_ne_zero session.requested
  refine ⟨more, hMore, ?_⟩
  rw [replies_of_start hRun, Rerequest.reads,
    repliesTo_append, hNone, List.nil_append,
    List.nil_append, repliesTo, hMore,
    List.replicate_succ, List.cons_append]
  rfl

/- With nothing stored the first read is one byte long. -/
theorem before_ne_nil
    (session : Rerequest)
    (hTwice : 1 < requests session.first.bytes) :
    session.before ≠ [] := by
  intro hNil
  have hReads := session.from_one_byte
  rw [hNil, List.nil_append] at hReads
  have hOne := hReads.size_eq_one
  have hLe := requests_le_length session.first.bytes
  rw [TimedRead.size] at hOne
  omega

/- When a later reply repeats the first. -/
theorem repeats_iff
    (toUsec : Int → Word)
    (session : Rerequest)
    {front : List TimedRead}
    {read : TimedRead}
    (hPrefix : front ++ [read] <+: session.later) :
    (sendResults toUsec (historyOf session.before) ≠ none ∧
      sendResults toUsec
          (historyOf (session.before ++
            session.first :: front)) =
        sendResults toUsec (historyOf session.before)) ↔
    session.before ≠ [] ∧
      Unmoved toUsec session.before
        (session.before ++ session.first :: front) := by
  have hSub : session.before ++ session.first :: front <+:
      session.before ++ session.first :: session.later := by
    rw [List.prefix_append_right_inj, List.cons_prefix_cons]
    exact ⟨rfl, (List.prefix_append _ _).trans hPrefix⟩
  exact sendResults_eq_iff toUsec (by simp)
    (List.prefix_append _ _)
    (session.ascending.sublist hSub.sublist)

end Rerequest

/-
  Asking again gives the same pair throughout a session if
  and only if no later read with a request finds the results
  moved.
-/
theorem idempotent_iff
    (toUsec : Int → Word)
    (session : Rerequest)
    {s : ThroughputTally}
    (hRun : run step start session.reads = some s) :
    Idempotent toUsec s.replies ↔
      ∀ front read, front ++ [read] <+: session.later →
        requests read.bytes ≠ 0 →
          session.before ≠ [] ∧
            Unmoved toUsec session.before
              (session.before ++ session.first :: front) := by
  rcases session.replies_eq hRun with ⟨more, hMore, hReplies⟩
  rw [hReplies, Idempotent]
  constructor
  · intro hSame front read hPrefix hRequest
    refine (session.repeats_iff toUsec hPrefix).mp ?_
    have hReply := hSame
      ⟨historyOf (session.before ++ session.first :: front),
        session.before ++ session.first :: front⟩
    apply hReply
    rw [List.mem_append, mem_repliesTo_iff]
    refine Or.inr ⟨front, read, hPrefix, hRequest, ?_⟩
    rw [List.append_assoc, List.singleton_append]
  · intro hUnmoved reply hReply
    rw [List.mem_append, List.mem_replicate,
      mem_repliesTo_iff] at hReply
    rcases hReply with ⟨hTwice, rfl⟩ |
      ⟨front, read, hPrefix, hRequest, rfl⟩
    · refine ⟨?_, rfl⟩
      have hSome := session.before_ne_nil (by omega)
      rw [Rerequest.firstReply,
        sendResults_historyOf toUsec hSome
          (session.ascending.sublist
            (List.sublist_append_left _ _))]
      simp
    · rw [List.append_assoc, List.singleton_append]
      exact (session.repeats_iff toUsec hPrefix).mpr
        (hUnmoved front read hPrefix hRequest)

/-
  `toUsec` on a clock that counts nanoseconds, but for the
  rounding: the code goes through a `double` of seconds, so
  that a span which is no whole number of seconds may come
  out one less there.
-/
def usecOfNsec (span : Int) : Word :=
  Fin.ofNat 4294967296 (span / 1000).toNat

/- One byte of data, then two requests a second apart. -/
def requestedTwice : Rerequest where
  before := [⟨0, [1]⟩]
  first := ⟨1000000000, [endStandardCodes]⟩
  later := [⟨2000000000, [endStandardCodes]⟩]
  ascending := by decide
  from_one_byte := ⟨by decide, by simp [TimedRead.size]⟩
  unrequested := by decide
  requested := by decide
  no_payload := by simp

/- No bytes in no time, then one byte in a second. -/
theorem exists_not_idempotent :
    ∃ s, run step start requestedTwice.reads = some s ∧
      ¬ Idempotent usecOfNsec s.replies :=
  ⟨_, rfl, by decide⟩

theorem idempotent_iff_requestedTwice :
    ∃ s, run step start requestedTwice.reads = some s ∧
      (Idempotent usecOfNsec s.replies ↔
        ∀ front read,
          front ++ [read] <+: requestedTwice.later →
          requests read.bytes ≠ 0 →
            requestedTwice.before ≠ [] ∧
              Unmoved usecOfNsec requestedTwice.before
                (requestedTwice.before ++
                  requestedTwice.first :: front)) :=
  ⟨_, rfl, idempotent_iff usecOfNsec requestedTwice rfl⟩

/-
  In a session of less than 2^32 bytes results that are
  asked for again in a later read are never the same.
-/
theorem idempotent_iff_of_lt
    (toUsec : Int → Word)
    (session : Rerequest)
    {s : ThroughputTally}
    (hBytes : bytesOf session.reads < 4294967296)
    (hRun : run step start session.reads = some s) :
    Idempotent toUsec s.replies ↔
      ∀ read ∈ session.later, requests read.bytes = 0 := by
  rw [idempotent_iff toUsec session hRun]
  constructor
  · intro hUnmoved read hMem
    by_contra hRequest
    rcases List.append_of_mem hMem with ⟨front, rest, hSplit⟩
    have hPrefix : front ++ [read] <+: session.later := by
      rw [hSplit]
      exact ⟨rest, by simp⟩
    rcases hUnmoved front read hPrefix hRequest with
      ⟨hSome, hSame, -⟩
    have hRecent : 1 ≤ (session.before.getLast hSome).size :=
      session.from_one_byte.some_byte _
        (List.mem_append_left _ (List.getLast_mem hSome))
    have hSum := bytesOf_eq_dropLast_add hSome
    have hDrop :
        (session.before ++ session.first :: front).dropLast =
          session.before ++
            (session.first :: front).dropLast :=
      List.dropLast_append_of_ne_nil (by simp)
    have hInside :
        (session.first :: front).dropLast <+:
          session.first :: session.later :=
      (List.dropLast_prefix _).trans
        (List.cons_prefix_cons.mpr
          ⟨rfl, (List.prefix_append _ _).trans hPrefix⟩)
    have hLe := bytesOf_le_of_prefix hInside
    rw [Rerequest.reads, bytesOf_append] at hBytes
    rw [hDrop, bytesOf_append] at hSame
    omega
  · intro hNone front read hPrefix hRequest
    exact absurd (hNone read
      (hPrefix.subset (List.mem_append_right _
        List.mem_cons_self))) hRequest

end ThroughputTally

end ModemTester
