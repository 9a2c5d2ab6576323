import ModemTester.Link.Paths

/-
  The remote reads all that is in flight to it.

  A remote in `RemoteThroughputMode` answers each request for
  results among the bytes, with the totals that are given for
  the reply. Which bytes that makes is known beforehand, as
  long as the remote stays in the mode.

  Key definitions include:
    * `Link.answers`
    * `Link.afterRead`
    * `Link.Unmoved`

  Main declarations:
    * `Link.exists_drained`
-/

------------------------------------------------------------
-- Requests And Their Answers
------------------------------------------------------------

namespace ModemTester

namespace Link

/- The bytes of so many replies from the given one on. -/
def repliesFrom
    (totals : Nat → Word × Word)
    (first : Nat) : Nat → List Byte
  | 0 => []
  | count + 1 =>
      resultBytes (totals first).1 (totals first).2 ++
        repliesFrom totals (first + 1) count

/- The requests for results among the bytes. -/
def requests (queue : List Downlink) : Nat :=
  queue.countP fun sent => decide (sent.byte = endStandardCodes)

/- The replies to all the requests in flight. -/
def answers
    (totals : Nat → Word × Word)
    (c : Link) : List Byte :=
  repliesFrom totals c.replies.length (requests c.toRemote)

/- The remote, in state `R`, has read the first byte. -/
def afterRead
    (totals : Nat → Word × Word)
    (c : Link)
    (R : RemoteState)
    (sent : Downlink)
    (rest : List Downlink) : Link :=
  remoteRead { c with toRemote := rest } R sent
    (totals c.replies.length).1 (totals c.replies.length).2

variable {totals : Nat → Word × Word}
variable {c : Link}
variable {R : RemoteState}
variable {sent : Downlink}
variable {rest : List Downlink}
variable {byte : Byte}

theorem mem_repliesFrom_succ
    {first count : Nat}
    (hMem : byte ∈ repliesFrom totals first count) :
    byte ∈ repliesFrom totals first (count + 1) := by
  induction count generalizing first with
  | zero => exact absurd hMem List.not_mem_nil
  | succ count ih =>
      rcases List.mem_append.mp hMem with hFirst | hLater
      · exact List.mem_append_left _ hFirst
      · exact List.mem_append_right _ (ih hLater)

theorem afterRead_toRemote :
    (afterRead totals c R sent rest).toRemote = rest :=
  remoteRead_toRemote _ _ _ _ _

theorem replies_afterRead :
    (afterRead totals c R sent rest).replies.length =
      c.replies.length +
        (if R.handleByte sent.byte = .sendResults then
          1
        else
          0) := by
  rw [afterRead, remoteRead_replies, List.length_append]
  unfold remoteReplied
  cases R.handleByte sent.byte <;> rfl

theorem requests_of_request
    (hHead : c.toRemote = sent :: rest)
    (hRequest : sent.byte = endStandardCodes) :
    requests c.toRemote = requests rest + 1 := by
  rw [hHead]
  exact List.countP_cons_of_pos (decide_eq_true hRequest)

theorem requests_of_ne
    (hHead : c.toRemote = sent :: rest)
    (hRequest : sent.byte ≠ endStandardCodes) :
    requests c.toRemote = requests rest := by
  rw [hHead]
  apply List.countP_cons_of_neg
  rw [decide_eq_true_eq]
  exact hRequest

/- A request that is answered. -/
theorem answers_of_reply
    (hHead : c.toRemote = sent :: rest)
    (hReply : R.handleByte sent.byte = .sendResults) :
    answers totals c =
      resultBytes (totals c.replies.length).1
          (totals c.replies.length).2 ++
        answers totals (afterRead totals c R sent rest) := by
  have hRequest := (handleByte_eq_sendResults hReply).2
  rw [answers, answers, requests_of_request hHead hRequest,
    afterRead_toRemote, replies_afterRead, if_pos hReply]
  rfl

/- Any other byte. -/
theorem answers_of_ne
    (hHead : c.toRemote = sent :: rest)
    (hRequest : sent.byte ≠ endStandardCodes) :
    answers totals (afterRead totals c R sent rest) =
      answers totals c := by
  have hNoReply : R.handleByte sent.byte ≠ .sendResults :=
    View.ne_sendResults_of_ne R hRequest
  rw [answers, answers, requests_of_ne hHead hRequest,
    afterRead_toRemote, replies_afterRead, if_neg hNoReply]
  rfl

/- A request that is read in another state is not answered. -/
theorem mem_answers_of_read
    (hHead : c.toRemote = sent :: rest)
    (hMem : byte ∈
      answers totals (afterRead totals c R sent rest)) :
    byte ∈ answers totals c := by
  by_cases hRequest : sent.byte = endStandardCodes
  · by_cases hReply : R.handleByte sent.byte = .sendResults
    · rw [answers_of_reply hHead hReply]
      exact List.mem_append_right _ hMem
    · rw [answers, requests_of_request hHead hRequest]
      rw [answers, afterRead_toRemote, replies_afterRead,
        if_neg hReply] at hMem
      exact mem_repliesFrom_succ hMem
  · rw [answers_of_ne hHead hRequest] at hMem
    exact hMem

------------------------------------------------------------
-- One Byte
------------------------------------------------------------

theorem continues_afterRead
    (hRemote : c.remote = some R)
    (hHead : c.toRemote = sent :: rest) :
    Continues totals c (afterRead totals c R sent rest) :=
  continues_of_step
    (show IsContinuation totals c (.toRemote _ _) from rfl)
    (step_toRemote hRemote hHead _ _)

theorem bytes_afterRead :
    (afterRead totals c R sent rest).toMaster.map
        Uplink.byte =
      c.toMaster.map Uplink.byte ++
        View.remoteWrites R sent.byte
          (totals c.replies.length).1
          (totals c.replies.length).2 :=
  View.map_byte_remoteRead _ _ _ _ _

/- What the remote writes is harmless if its answers are. -/
theorem noEnd_remoteWrites
    (hHead : c.toRemote = sent :: rest)
    (hByte : sent.byte ≠ endTestId)
    (hAnswers : View.NoEnd (answers totals c)) :
    View.NoEnd
      (View.remoteWrites R sent.byte
        (totals c.replies.length).1
        (totals c.replies.length).2) := by
  by_cases hReply : R.handleByte sent.byte = .sendResults
  · rw [answers_of_reply hHead hReply] at hAnswers
    unfold View.remoteWrites
    rw [hReply]
    exact fun other hOther =>
      hAnswers other (List.mem_append_left _ hOther)
  · rw [View.remoteWrites_of_ne _ _ hReply]
    exact View.noEnd_of_quiet
      (View.quiet_remoteWrites R hByte)

/- A remote without a timer acknowledges, or stays. -/
theorem ack_or_stays
    (r u : Word)
    (hKind : R.kind ≠ .timerBased)
    (hByte : byte ≠ endTestId) :
    remoteAckId ∈ View.remoteWrites R byte r u ∨
      readOutcome R byte = .stays := by
  cases R with
  | remoteIdle =>
      by_cases hAvailability :
          byte = availabilityModeCommandId
      · subst hAvailability
        exact Or.inl (List.mem_singleton_self _)
      by_cases hThroughput : byte = throughputModeCommandId
      · subst hThroughput
        exact Or.inl (List.mem_singleton_self _)
      · exact Or.inr (readOutcome_remoteIdle hAvailability
          hThroughput hByte)
  | remoteAvailabilityMode =>
      by_cases hEnd : byte = endModeCommandId
      · subst hEnd
        exact Or.inl (List.mem_singleton_self _)
      · exact Or.inr (readOutcome_running (Or.inl rfl) hEnd
          hByte)
  | remoteThroughputMode =>
      by_cases hEnd : byte = endModeCommandId
      · subst hEnd
        exact Or.inl (List.mem_singleton_self _)
      · exact Or.inr (readOutcome_running (Or.inr rfl) hEnd
          hByte)
  | availabilityCommandReceived => exact absurd rfl hKind
  | throughputCommandReceived => exact absurd rfl hKind
  | endModeReceived => exact absurd rfl hKind

------------------------------------------------------------
-- The Whole Queue
------------------------------------------------------------

/- Nothing in the queue moves the remote, which answers. -/
structure Unmoved
    (totals : Nat → Word × Word)
    (c : Link)
    (R : RemoteState)
    (wrote : List Byte) : Prop where
  stays : ∀ sent ∈ c.toRemote,
    readOutcome R sent.byte = .stays
  answers : R = .remoteThroughputMode →
    ∀ byte ∈ answers totals c, byte ∈ wrote

theorem unmoved_cons
    {wrote : List Byte}
    (hHead : c.toRemote = sent :: rest)
    (hStays : readOutcome R sent.byte = .stays)
    (hUnmoved : Unmoved totals
      (afterRead totals c R sent rest) R wrote) :
    Unmoved totals c R
      (View.remoteWrites R sent.byte
          (totals c.replies.length).1
          (totals c.replies.length).2 ++ wrote) := by
  constructor
  · rw [hHead]
    have hRest := hUnmoved.stays
    rw [afterRead_toRemote] at hRest
    exact List.forall_mem_cons.mpr ⟨hStays, hRest⟩
  · intro hThroughput byte hByte
    by_cases hRequest : sent.byte = endStandardCodes
    · have hReply :
          R.handleByte sent.byte = .sendResults := by
        rw [hThroughput, hRequest]
        rfl
      rw [answers_of_reply hHead hReply] at hByte
      unfold View.remoteWrites
      rw [hReply]
      rcases List.mem_append.mp hByte with hNow | hLater
      · exact List.mem_append_left _ hNow
      · exact List.mem_append_right _
          (hUnmoved.answers hThroughput byte hLater)
    · rw [← answers_of_ne (R := R) hHead hRequest]
        at hByte
      exact List.mem_append_right _
        (hUnmoved.answers hThroughput byte hByte)

/-
  The remote reads all. It has acknowledged, unless it has a
  timer or has stayed where it is.
-/
theorem exists_drained
    (totals : Nat → Word × Word)
    {M : MasterState}
    (hMaster : c.master = some M)
    (hRemote : c.remote = some R)
    (hToRemote : ∀ sent ∈ c.toRemote, sent.byte ≠ endTestId)
    (hAnswers : View.NoEnd (answers totals c)) :
    ∃ c' R' wrote, Continues totals c c' ∧
      View.Shown
          ⟨M, R', [], c.toMaster.map Uplink.byte ++ wrote⟩
          c' ∧
        View.NoEnd wrote ∧
          (remoteAckId ∈ wrote ∨ R.kind = .timerBased ∨
            (R' = R ∧ Unmoved totals c R wrote)) := by
  induction hQueue : c.toRemote generalizing c R with
  | nil =>
      refine ⟨c, R, [], continues_refl c,
        ⟨hMaster, hRemote, ?_, (List.append_nil _).symm⟩,
        fun _ hByte => absurd hByte List.not_mem_nil,
        Or.inr (Or.inr ⟨rfl, ?_, ?_⟩)⟩
      · rw [hQueue]
        rfl
      · rw [hQueue]
        exact fun _ hSent => absurd hSent List.not_mem_nil
      · intro _ byte hByte
        rw [Link.answers, hQueue] at hByte
        exact hByte
  | cons sent rest ih =>
      rw [hQueue] at hToRemote
      have hByte := hToRemote sent List.mem_cons_self
      rcases View.exists_remoteAfter R hByte with
        ⟨R₁, hAfter⟩
      have hRemote₁ :
          (afterRead totals c R sent rest).remote =
            some R₁ :=
        (remoteRead_remote (c := { c with toRemote := rest })
          sent _ _ hRemote).trans hAfter
      rcases ih
          (c := afterRead totals c R sent rest)
          (R := R₁)
          ((remoteRead_master _ _ _ _ _).trans hMaster)
          hRemote₁
          (by
            rw [afterRead_toRemote]
            exact fun other hOther =>
              hToRemote other (List.mem_cons_of_mem _ hOther))
          (fun other hOther =>
            hAnswers other (mem_answers_of_read hQueue hOther))
          afterRead_toRemote with
        ⟨c', R', wrote, hContinues, hShown, hWrote,
          hOutcome⟩
      refine ⟨c', R', _,
        continues_trans (continues_afterRead hRemote hQueue)
          hContinues, ?_,
        List.forall_mem_append.mpr
          ⟨noEnd_remoteWrites (R := R) hQueue hByte
            hAnswers, hWrote⟩, ?_⟩
      · rw [bytes_afterRead, List.append_assoc] at hShown
        exact hShown
      by_cases hKind : R.kind = .timerBased
      · exact Or.inr (Or.inl hKind)
      rcases ack_or_stays (totals c.replies.length).1
          (totals c.replies.length).2 hKind hByte with
        hAck | hStays
      · exact Or.inl (List.mem_append_left _ hAck)
      -- It stays, so the rest is read in the same state.
      rw [hStays] at hAfter
      cases hAfter
      rcases hOutcome with hAck | hTimer | ⟨hSame, hUnmoved⟩
      · exact Or.inl (List.mem_append_right _ hAck)
      · exact absurd hTimer hKind
      · exact Or.inr (Or.inr
          ⟨hSame, unmoved_cons hQueue hStays hUnmoved⟩)

end Link

end ModemTester
