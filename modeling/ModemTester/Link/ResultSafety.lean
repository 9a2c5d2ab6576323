import ModemTester.Link.ResultGuard

/-
  Results are not taken for commands.

  The read of `getResults` takes eight bytes. A byte of a
  reply that does not fall into a read, because the reply is
  a second one or comes behind something else, is left to a
  reader that takes it for a command. Where every reply
  leaves the queue to the master guarded, none is.

  Key definitions include:
    * `Exchange.Kept`
    * `Exchange.Settled`

  Main declarations:
    * `Exchange.no_result_dispatched`
    * `Exchange.result_dispatched_after_resend`
-/

------------------------------------------------------------
-- No Command Byte Is Left Over
------------------------------------------------------------

namespace ModemTester

namespace Exchange

def Kept (s : Exchange) : Prop :=
  s.Stopped ∨ s.Guarded s.link.toMaster

theorem guarded_of_isTame
    (s : Exchange)
    {queue : List Uplink}
    (hTame : ∀ up ∈ queue, up.IsTame) :
    s.Guarded queue := by
  have hBehind : ∀ count, GuardedBehind count queue :=
    fun count up hUp => hTame up (List.mem_of_mem_drop hUp)
  unfold Guarded
  split
  · split
    · exact guardedSent_of_isTame hTame
    · exact hBehind 0
  · exact guardedSending_of_isTame hTame
  · exact hBehind _
  · exact hBehind 0
  · trivial

theorem guarded_append
    {s : Exchange}
    {queue wrote : List Uplink}
    (hWrote : ∀ up ∈ wrote, ¬ up.IsResult)
    (hGuarded : s.Guarded queue) :
    s.Guarded (queue ++ wrote) := by
  have hTame := isTame_of_not_isResult hWrote
  cases hWorker : s.worker with
  | absent =>
      by_cases hSent : s.link.master =
          some .sentThroughputModeCommand
      · simp only [Guarded, hWorker, if_pos hSent]
          at hGuarded ⊢
        exact guardedSent_append hWrote hGuarded
      · simp only [Guarded, hWorker, if_neg hSent]
          at hGuarded ⊢
        exact guardedBehind_append hTame hGuarded
  | sending =>
      simp only [Guarded, hWorker] at hGuarded ⊢
      exact guardedSending_append hWrote hGuarded
  | waiting recvBuf =>
      simp only [Guarded, hWorker] at hGuarded ⊢
      exact guardedBehind_append hTame hGuarded
  | reported =>
      simp only [Guarded, hWorker] at hGuarded ⊢
      exact guardedBehind_append hTame hGuarded
  | blocked => simp only [Guarded, hWorker]

/- Only the worker and the state of the master matter. -/
theorem guarded_congr
    {s s' : Exchange}
    {queue : List Uplink}
    (hWorker : s'.worker = s.worker)
    (hMaster : s'.link.master = s.link.master)
    (hGuarded : s.Guarded queue) :
    s'.Guarded queue := by
  unfold Guarded at hGuarded ⊢
  rw [hWorker, hMaster]
  exact hGuarded

theorem kept_of_unchanged
    {s s' : Exchange}
    (hWorker : s'.worker = s.worker)
    (hMaster : s'.link.master = s.link.master)
    (hToMaster : s'.link.toMaster = s.link.toMaster)
    (hKept : Kept s) :
    Kept s' := by
  rcases hKept with hStopped | hGuarded
  · left
    unfold Stopped at hStopped ⊢
    rw [hWorker, hMaster]
    exact hStopped
  · right
    rw [hToMaster]
    exact guarded_congr hWorker hMaster hGuarded

/- What the remote writes must leave the queue guarded. -/
theorem kept_of_written
    {s : Exchange}
    {link : Link}
    {wrote : List Uplink}
    (hMaster : link.master = s.link.master)
    (hToMaster : link.toMaster = s.link.toMaster ++ wrote)
    (hWrote : (∀ up ∈ wrote, ¬ up.IsResult) ∨ s.Stopped ∨
      s.Guarded (s.link.toMaster ++ wrote))
    (hKept : Kept s) :
    Kept { s with link := link } := by
  have hStop : s.Stopped →
      Stopped { s with link := link } := by
    unfold Stopped
    rw [hMaster]
    exact id
  have hGuard : s.Guarded (s.link.toMaster ++ wrote) →
      Kept { s with link := link } := by
    intro hGuarded
    right
    rw [hToMaster]
    exact guarded_congr (s := s) rfl hMaster hGuarded
  rcases hKept with hStopped | hGuarded
  · exact Or.inl (hStop hStopped)
  rcases hWrote with hNone | hStopped | hAll
  · exact hGuard (guarded_append hNone hGuarded)
  · exact Or.inl (hStop hStopped)
  · exact hGuard hAll

/- All but a reply is harmless, and a reply is contained. -/
theorem remoteWrote_of_contained
    {s : Exchange}
    {state : RemoteState}
    {sent : Downlink}
    {rest : List Downlink}
    {r u : Word}
    (hContained : s.Contained (.toRemote r u))
    (hState : s.link.remote = some state)
    (hHead : s.link.toRemote = sent :: rest) :
    (∀ up ∈ s.link.remoteWrote state sent.byte r u,
        ¬ up.IsResult) ∨
      s.Stopped ∨
        s.Guarded (s.link.toMaster ++
          s.link.remoteWrote state sent.byte r u) := by
  unfold Link.remoteWrote
  cases hHandling : state.handleByte sent.byte with
  | dispatch event =>
      left
      intro up hUp hResult
      rcases List.mem_map.mp hUp with ⟨byte, -, rfl⟩
      exact hResult
  | echo =>
      left
      intro up hUp hResult
      rw [List.mem_singleton.mp hUp] at hResult
      exact hResult
  | sendResults =>
      right
      refine hContained.imp id fun hReply => hReply ?_
      rcases Link.handleByte_eq_sendResults hHandling with
        ⟨rfl, hByte⟩
      refine ⟨hState, ?_⟩
      rw [Link.remoteHead, hHead, ← hByte]
      rfl
  | ignore =>
      left
      intro up hUp
      cases hUp

/- No read is open and none comes before a dispatch. -/
def Settled (s : Exchange) : Prop :=
  s.worker = .reported ∨
    (s.worker = .absent ∧
      s.link.master ≠ some .sentThroughputModeCommand)

theorem isTame_of_settled
    {s : Exchange}
    {queue : List Uplink}
    (hSettled : s.Settled)
    (hGuarded : s.Guarded queue) :
    ∀ up ∈ queue, up.IsTame := by
  rcases hSettled with hWorker | ⟨hWorker, hMaster⟩
  · simp only [Guarded, hWorker] at hGuarded
    exact hGuarded
  · simp only [Guarded, hWorker, if_neg hMaster] at hGuarded
    exact hGuarded

theorem guarded_of_kept
    {s : Exchange}
    {state : MasterState}
    (hState : s.link.master = some state)
    (hBlocked : s.worker ≠ .blocked)
    (hKept : Kept s) :
    s.Guarded s.link.toMaster := by
  rcases hKept with (hWorker | hNone) | hGuarded
  · exact absurd hWorker hBlocked
  · rw [hState] at hNone
    cases hNone
  · exact hGuarded

theorem not_blocked_of_readsByte
    {worker : Worker}
    (hReads : worker.ReadsByte) :
    worker ≠ .blocked := by
  rintro rfl
  simp [Worker.ReadsByte] at hReads

theorem unchanged_of_stays
    {s : Exchange}
    {state : MasterState}
    {event : Event}
    (hState : s.link.master = some state)
    (hStays : (masterFsm.dispatch state event).2 = .stays) :
    (s.dispatch state event).worker = s.worker ∧
      (s.dispatch state event).link.master =
        s.link.master := by
  simp only [dispatch, Link.masterDispatch, hStays]
  exact ⟨rfl, hState.symm⟩

/- A dispatch changes nothing while a read is to come. -/
theorem kept_dispatch
    {s : Exchange}
    {state : MasterState}
    {event : Event}
    (hState : s.link.master = some state)
    (hSame : ¬ s.Settled →
      (s.dispatch state event).worker = s.worker ∧
        (s.dispatch state event).link.master =
          s.link.master)
    (hKept : Kept s) :
    Kept (s.dispatch state event) := by
  by_cases hSettled : s.Settled
  · have hBlocked : s.worker ≠ .blocked := by
      rcases hSettled with hWorker | ⟨hWorker, -⟩ <;>
        simp [hWorker]
    have hGuarded := guarded_of_kept hState hBlocked hKept
    right
    exact guarded_of_isTame _
      (isTame_of_settled hSettled hGuarded)
  · rcases hSame hSettled with ⟨hWorker, hMaster⟩
    exact kept_of_unchanged hWorker hMaster rfl hKept

theorem unchanged_of_command
    {s : Exchange}
    {state : MasterState}
    {event : Event}
    (hInMode : InMode s)
    (hState : s.link.master = some state)
    (hCommand : IsModeCommand event)
    (hFree : ¬ s.Joins state event)
    (hSettled : ¬ s.Settled) :
    (s.dispatch state event).worker = s.worker ∧
      (s.dispatch state event).link.master =
        s.link.master := by
  simp only [Settled, not_or, not_and, not_not] at hSettled
  apply unchanged_of_stays hState
  by_cases hWorker : s.worker = .absent
  · rw [hSettled.2 hWorker, Option.some.injEq] at hState
    subst hState
    rcases hCommand with rfl | rfl | rfl <;> rfl
  · exact dispatch_of_busy hInMode ⟨hWorker, hSettled.1⟩
      hState hCommand hFree

theorem unchanged_of_masterTimeout
    {s : Exchange}
    {state : MasterState}
    (hInMode : InMode s)
    (hState : s.link.master = some state)
    (hKind : state.kind = .timerBased)
    (hSettled : ¬ s.Settled) :
    (s.dispatch state .timeout).worker = s.worker ∧
      (s.dispatch state .timeout).link.master =
        s.link.master := by
  simp only [Settled, not_or, not_and, not_not] at hSettled
  by_cases hWorker : s.worker = .absent
  · have hSent := hSettled.2 hWorker
    rw [hSent, Option.some.injEq] at hState
    subst hState
    exact ⟨hWorker.symm, hSent.symm⟩
  · exact absurd hKind
      (no_masterTimeout hInMode hWorker hState)

theorem masterRead_toMaster
    (s : Exchange)
    (state : MasterState)
    (sent : Uplink) :
    (s.masterRead state sent).link.toMaster =
      s.link.toMaster := by
  unfold masterRead
  split
  · split <;> rfl
  · rfl

/- A command that `handleReceive` finds ends the mode. -/
theorem accepts_of_commandOf
    {byte : Byte}
    {event : Event}
    (hCommand : MasterThroughput.commandOf byte = some event) :
    event = .endTest ∨
      masterFsm.Accepts .throughputMode event := by
  unfold MasterThroughput.commandOf at hCommand
  split_ifs at hCommand
  · cases hCommand
    exact Or.inr rfl
  · cases hCommand
    exact Or.inl rfl
  · cases hCommand
    exact Or.inr rfl

/- The worker reads a byte before it asks for results. -/
theorem kept_read_sending
    {s : Exchange}
    {sent : Uplink}
    (hWorker : s.worker = .sending)
    (hGuarded : GuardedSending (sent :: s.link.toMaster)) :
    Kept (s.masterRead .throughputMode sent) := by
  cases hRead : MasterState.throughputMode.readByte
      sent.byte with
  | none =>
      rw [masterRead_of_none hRead]
      right
      simp only [Guarded, hWorker]
      exact guardedSending_tail hRead hGuarded
  | some event =>
      left
      by_cases hJoins : s.Joins .throughputMode event
      · rw [masterRead_of_joins hRead hJoins]
        exact Or.inl rfl
      · rw [masterRead_of_free hRead hJoins]
        rcases accepts_of_commandOf hRead with rfl | hAccepts
        · exact Or.inr rfl
        · exact absurd
            ⟨rfl, hAccepts, by simp [hWorker]⟩ hJoins

/- The acknowledgement that is awaited starts the worker. -/
theorem kept_read_sent
    {s : Exchange}
    {sent : Uplink}
    (hWorker : s.worker = .absent)
    (hSent : s.link.master = some .sentThroughputModeCommand)
    (hGuarded : GuardedSent (sent :: s.link.toMaster)) :
    Kept (s.masterRead .sentThroughputModeCommand sent) := by
  have hRest := hGuarded.2
  cases hRead : MasterState.sentThroughputModeCommand.readByte
      sent.byte with
  | none =>
      have hByte : sent.byte ≠ remoteAckId := by
        intro hAck
        rw [hAck] at hRead
        cases hRead
      rw [if_neg hByte] at hRest
      rw [masterRead_of_none hRead]
      right
      simp only [Guarded, hWorker, if_pos hSent]
      exact hRest
  | some event =>
      have hFree : ¬ s.Joins .sentThroughputModeCommand
          event := fun h => by cases h.1
      have hVal := MasterState.val_of_readByte hRead
      rw [masterRead_of_free hRead hFree]
      by_cases hAck : sent.byte = remoteAckId
      · rw [if_pos hAck] at hRest
        rw [hAck] at hRead
        cases hRead
        exact Or.inr hRest
      · rw [if_neg hAck] at hRest
        have hSame : s.Guarded s.link.toMaster := by
          simp only [Guarded, hWorker, if_pos hSent]
          exact hRest
        cases event with
        | remoteAck =>
            exact absurd (Fin.ext (Int.ofNat.inj hVal)) hAck
        | endTest => exact Or.inl (Or.inr rfl)
        | timeout =>
            right
            exact guarded_congr (s := s) hWorker.symm
              hSent.symm hSame
        | availabilityModeCommand | throughputModeCommand
        | endModeCommand | masterAck =>
            right
            exact guarded_congr (s := s) rfl hSent.symm hSame

/- The ways to read a byte. -/
theorem cases_of_readsByte
    {s : Exchange}
    {state : MasterState}
    (hInMode : InMode s)
    (hState : s.link.master = some state)
    (hReads : s.worker.ReadsByte) :
    s.Settled ∨
      (s.worker = .sending ∧ state = .throughputMode) ∨
        (s.worker = .absent ∧
          state = .sentThroughputModeCommand) := by
  rcases hReads with hWorker | hWorker | hWorker
  · by_cases hSent : s.link.master =
        some .sentThroughputModeCommand
    · rw [hState, Option.some.injEq] at hSent
      exact Or.inr (Or.inr ⟨hWorker, hSent⟩)
    · exact Or.inl (Or.inr ⟨hWorker, hSent⟩)
  · have hMode := hInMode (by simp [hWorker])
    rw [hState, Option.some.injEq] at hMode
    exact Or.inr (Or.inl ⟨hWorker, hMode⟩)
  · exact Or.inl (Or.inl hWorker)

theorem kept_masterRead
    {s : Exchange}
    {state : MasterState}
    {sent : Uplink}
    (hInMode : InMode s)
    (hState : s.link.master = some state)
    (hReads : s.worker.ReadsByte)
    (hGuarded : s.Guarded (sent :: s.link.toMaster)) :
    Kept (s.masterRead state sent) := by
  rcases cases_of_readsByte hInMode hState hReads with
    hSettled | ⟨hWorker, rfl⟩ | ⟨hWorker, rfl⟩
  · have hTame := isTame_of_settled hSettled hGuarded
    right
    rw [masterRead_toMaster]
    apply guarded_of_isTame
    intro up hUp
    exact hTame up (List.mem_cons_of_mem _ hUp)
  · simp only [Guarded, hWorker] at hGuarded
    exact kept_read_sending hWorker hGuarded
  · simp only [Guarded, hWorker, if_pos hState] at hGuarded
    exact kept_read_sent hWorker hState hGuarded

/- Where a byte is dispatched it is not of a reply. -/
theorem not_isResult_of_guarded
    {s : Exchange}
    {state : MasterState}
    {event : Event}
    {sent : Uplink}
    {rest : List Uplink}
    (hInMode : InMode s)
    (hState : s.link.master = some state)
    (hReads : s.worker.ReadsByte)
    (hRead : state.readByte sent.byte = some event)
    (hGuarded : s.Guarded (sent :: rest)) :
    ¬ sent.IsResult := by
  have hCommand := isCommandByte_of_readByte hRead
  rcases cases_of_readsByte hInMode hState hReads with
    hSettled | ⟨hWorker, rfl⟩ | ⟨hWorker, rfl⟩
  · intro hResult
    exact isTame_of_settled hSettled hGuarded sent
      List.mem_cons_self ⟨hResult, hCommand⟩
  · simp only [Guarded, hWorker] at hGuarded
    exact not_isResult_of_commandOf hRead hGuarded
  · simp only [Guarded, hWorker, if_pos hState] at hGuarded
    intro hResult
    exact hGuarded.1 ⟨hResult, hCommand⟩

/- A byte for the open read. -/
theorem kept_receive
    {order : ByteOrder}
    {s : Exchange}
    {recvBuf : List Uplink}
    {sent : Uplink}
    (hGuarded : GuardedBehind (recvBufSize - recvBuf.length)
      (sent :: s.link.toMaster)) :
    Kept (s.receive order (recvBuf ++ [sent])) := by
  have hRest : GuardedBehind
      (recvBufSize - (recvBuf ++ [sent]).length)
      s.link.toMaster := by
    rw [List.length_append, List.length_singleton, Nat.sub_add_eq]
    intro up hUp
    cases hCount : recvBufSize - recvBuf.length with
    | zero =>
        rw [hCount] at hGuarded hUp
        exact hGuarded up (List.mem_cons_of_mem _ hUp)
    | succ count =>
        rw [hCount] at hGuarded hUp
        exact hGuarded up hUp
  right
  unfold receive
  split
  · rename_i hFull
    rw [hFull, Nat.sub_self] at hRest
    exact hRest
  · exact hRest

theorem kept_step
    (order : ByteOrder)
    (s : Exchange)
    (label : ExchangeLabel)
    (s' : Exchange)
    (hKept : InMode s ∧ Kept s)
    (hContained : s.Contained label)
    (hStep : step order s label = some s') :
    InMode s' ∧ Kept s' := by
  rcases hKept with ⟨hInMode, hKept⟩
  refine ⟨inMode_step order s label s' hInMode hStep, ?_⟩
  cases advances_of_step hStep with
  | command hState hCommand hFree =>
      apply kept_dispatch hState _ hKept
      exact unchanged_of_command hInMode hState hCommand hFree
  | masterTimeout hState hKind =>
      apply kept_dispatch hState _ hKept
      exact unchanged_of_masterTimeout hInMode hState hKind
  | remoteTimeout hState hKind =>
      refine kept_of_written rfl rfl (Or.inl ?_) hKept
      intro up hUp hResult
      rcases List.mem_map.mp hUp with ⟨byte, -, rfl⟩
      exact hResult
  | payload hState hKind hStandard =>
      exact kept_of_unchanged (s := s) rfl rfl rfl hKept
  | toRemote hState hHead =>
      exact kept_of_written (Link.remoteRead_master _ _ _ _ _)
        (Link.remoteRead_toMaster _ _ _ _ _)
        (remoteWrote_of_contained hContained hState hHead)
        hKept
  | @toMaster state sent rest hState hHead hReads =>
      have hGuarded := guarded_of_kept hState
        (not_blocked_of_readsByte hReads) hKept
      rw [hHead] at hGuarded
      exact kept_masterRead (s := s.takeHead rest) hInMode
        hState hReads hGuarded
  | getResults hMode hSending =>
      have hGuarded := guarded_of_kept hMode
        (by simp [hSending]) hKept
      simp only [Guarded, hSending] at hGuarded
      exact Or.inr hGuarded.1
  | resend hWaiting =>
      exact kept_of_unchanged (s := s) rfl rfl rfl hKept
  | @receive recvBuf sent rest hWaiting hHead =>
      have hMode := hInMode (by simp [hWaiting])
      have hGuarded := guarded_of_kept hMode
        (by simp [hWaiting]) hKept
      simp only [Guarded, hWaiting, hHead] at hGuarded
      exact kept_receive (s := s.takeHead rest) hGuarded
  | reportTimer hMode hSending => exact Or.inl (Or.inl rfl)
  | dropToRemote hIndex =>
      exact kept_of_unchanged (s := s) rfl rfl rfl hKept

------------------------------------------------------------
-- Nothing Of A Result Is Dispatched
------------------------------------------------------------

structure Unharmed (s : Exchange) : Prop where
  inMode : InMode s
  kept : Kept s
  dispatched : ∀ up ∈ s.dispatched, ¬ up.IsResult

theorem unharmed_start : Unharmed start where
  inMode := inMode_start
  kept := Or.inr (guarded_of_isTame start
    fun _ hUp => absurd hUp List.not_mem_nil)
  dispatched := by simp [start]

theorem dispatched_step
    {order : ByteOrder}
    {s s' : Exchange}
    {label : ExchangeLabel}
    (hUnharmed : Unharmed s)
    (hStep : step order s label = some s') :
    ∀ up ∈ s'.dispatched, ¬ up.IsResult := by
  cases advances_of_step hStep with
  | command hState hCommand hFree =>
      exact hUnharmed.dispatched
  | masterTimeout hState hKind => exact hUnharmed.dispatched
  | remoteTimeout hState hKind => exact hUnharmed.dispatched
  | payload hState hKind hStandard =>
      exact hUnharmed.dispatched
  | toRemote hState hHead => exact hUnharmed.dispatched
  | @toMaster state sent rest hState hHead hReads =>
      have hGuarded := guarded_of_kept hState
        (not_blocked_of_readsByte hReads) hUnharmed.kept
      rw [hHead] at hGuarded
      cases hRead : state.readByte sent.byte with
      | none =>
          rw [masterRead_of_none hRead]
          exact hUnharmed.dispatched
      | some event =>
          have hNot := not_isResult_of_guarded
            hUnharmed.inMode hState hReads hRead hGuarded
          have hMore : ∀ up ∈ s.dispatched ++ [sent],
              ¬ up.IsResult :=
            List.forall_mem_append.mpr ⟨hUnharmed.dispatched,
              List.forall_mem_singleton.mpr hNot⟩
          by_cases hJoins : (s.takeHead rest).Joins state event
          · rw [masterRead_of_joins hRead hJoins]
            exact hMore
          · rw [masterRead_of_free hRead hJoins]
            exact hMore
  | getResults hMode hSending => exact hUnharmed.dispatched
  | resend hWaiting => exact hUnharmed.dispatched
  | receive hWaiting hHead =>
      unfold receive
      split <;> exact hUnharmed.dispatched
  | reportTimer hMode hSending => exact hUnharmed.dispatched
  | dropToRemote hIndex => exact hUnharmed.dispatched

theorem unharmed_step
    (order : ByteOrder)
    (s : Exchange)
    (label : ExchangeLabel)
    (s' : Exchange)
    (hUnharmed : Unharmed s)
    (hContained : s.Contained label)
    (hStep : step order s label = some s') :
    Unharmed s' := by
  have hKept := kept_step order s label s'
    ⟨hUnharmed.inMode, hUnharmed.kept⟩ hContained hStep
  exact ⟨hKept.1, hKept.2, dispatched_step hUnharmed hStep⟩

/-
  In a run whose replies are contained the master dispatches
  no event on a byte of a reply, at any time.
-/
theorem no_result_dispatched
    (order : ByteOrder)
    (labels : List ExchangeLabel)
    (hAlong : StepSystem.Along (step order) Contained start
      labels) :
    StepSystem.Throughout (step order)
      (fun s => ∀ up ∈ s.dispatched, ¬ up.IsResult)
      start labels :=
  StepSystem.throughout_of_along (unharmed_step order)
    (fun _ hUnharmed => hUnharmed.dispatched) unharmed_start
    hAlong

/- A reply with a byte 246, read as results. -/
theorem no_result_dispatched_in_read :
    StepSystem.Throughout (step .littleEndian)
      (fun s => ∀ up ∈ s.dispatched, ¬ up.IsResult)
      start
      [.command .throughputModeCommand, .toRemote 0 0,
        .toMaster, .toRemote 0 0, .getResults,
        .toRemote 2400 2000118, .receive, .receive, .receive,
        .receive, .receive, .receive, .receive, .receive,
        .command .endModeCommand] :=
  no_result_dispatched .littleEndian _ (by decide)

/-
  The same totals replied to a repeated request stop the
  test: the last byte of the second reply is taken for
  `EndTest`.
-/
theorem result_dispatched_after_resend :
    ∃ s,
      StepSystem.run (step .littleEndian) start
          [.command .throughputModeCommand, .toRemote 0 0,
            .toMaster, .toRemote 0 0, .getResults, .resend,
            .toRemote 2400 2000118, .toRemote 2400 2000118,
            .receive, .receive, .receive, .receive, .receive,
            .receive, .receive, .receive, .toMaster, .toMaster,
            .toMaster, .toMaster, .toMaster, .toMaster,
            .toMaster, .toMaster] =
        some s ∧
      s.link.master = none ∧
      (⟨endTestId, .result 1 7⟩ : Uplink) ∈ s.dispatched ∧
      ¬ ∀ up ∈ s.dispatched, ¬ up.IsResult := by
  refine ⟨_, rfl, rfl, by decide, ?_⟩
  intro hAll
  exact hAll ⟨endTestId, .result 1 7⟩ (by decide) trivial

end Exchange

end ModemTester
