import ModemTester.Link.Paths
import ModemTester.Link.ResultSafety

/-
  Replies that are not contained do harm.

  A command byte of a reply that goes to no read of results
  need only be reached. Once the results are reported
  `EndModeCommand` takes the master to states that dispatch
  an event on every command byte, and what precedes the byte
  is data, which they ignore, or an acknowledgement, which
  leaves them in such a state.

  Key definitions include:
    * `Link.Sober`
    * `Exchange.Staffed`
    * `Exchange.Endangered`

  Main declarations:
    * `Exchange.endangered_of_not_kept`
    * `Exchange.endangered_of_not_contained`
-/

------------------------------------------------------------
-- Other Bytes To The Master
------------------------------------------------------------

namespace ModemTester

/- A byte of a reply, data or an acknowledgement. -/
def Uplink.IsUsual (up : Uplink) : Prop :=
  up.IsResult ∨ IsStandardCode up.byte ∨
    up.byte = remoteAckId

namespace Link

/-
  While the master runs there is no `EndTest` on the link,
  but in results.
-/
def Sober (c : Link) : Prop :=
  c.master.isSome = true →
    (∀ sent ∈ c.toRemote, sent.byte ≠ endTestId) ∧
      ∀ up ∈ c.toMaster, up.IsUsual

theorem sober_masterDispatch
    {c : Link}
    (state : MasterState)
    (event : Event)
    (hState : c.master = some state)
    (hSober : Sober c) :
    Sober (c.masterDispatch state event) := by
  intro hSome
  rcases hSober (by rw [hState]; rfl) with
    ⟨hToRemote, hToMaster⟩
  refine ⟨?_, hToMaster⟩
  have hEvent : event ≠ .endTest := by
    rintro rfl
    cases hSome
  refine List.forall_mem_append.mpr ⟨hToRemote, ?_⟩
  intro sent hSent
  rcases List.mem_map.mp hSent with ⟨byte, hByte, rfl⟩
  exact ((View.exists_masterAfter state hEvent).1 byte hByte).1

theorem sober_remoteRead
    {c : Link}
    {state : RemoteState}
    {sent : Downlink}
    {rest : List Downlink}
    (r u : Word)
    (hHead : c.toRemote = sent :: rest)
    (hSober : Sober c) :
    Sober
      (remoteRead { c with toRemote := rest } state sent r
        u) := by
  intro hSome
  rw [remoteRead_master] at hSome
  rcases hSober hSome with ⟨hToRemote, hToMaster⟩
  rw [hHead] at hToRemote
  refine ⟨?_, ?_⟩
  · rw [remoteRead_toRemote]
    intro other hOther
    exact hToRemote other (List.mem_cons_of_mem _ hOther)
  · rw [remoteRead_toMaster]
    refine List.forall_mem_append.mpr ⟨hToMaster, ?_⟩
    intro up hUp
    unfold remoteWrote at hUp
    cases hHandling : state.handleByte sent.byte with
    | dispatch event =>
        have hEvent : event ≠ .endTest := by
          rintro rfl
          apply hToRemote sent List.mem_cons_self
          exact Fin.ext (Int.ofNat.inj
            (RemoteState.val_of_handleByte hHandling))
        simp only [hHandling, List.mem_map] at hUp
        rcases hUp with ⟨byte, hByte, rfl⟩
        right
        exact View.quiet_remoteDispatch state hEvent byte hByte
    | echo =>
        simp only [hHandling, List.mem_singleton] at hUp
        rw [hUp]
        exact Or.inr (Or.inl (handleByte_eq_echo hHandling))
    | sendResults =>
        simp only [hHandling] at hUp
        rcases List.getElem?_of_mem hUp with ⟨index, hIndex⟩
        left
        unfold Uplink.IsResult
        rw [origin_of_replyBytes hIndex]
        trivial
    | ignore =>
        simp only [hHandling] at hUp
        cases hUp

theorem sober_step
    (c : Link)
    (label : LinkLabel)
    (c' : Link)
    (hSober : Sober c)
    (hStep : step c label = some c') :
    Sober c' := by
  cases moves_of_step hStep with
  | command hState hCommand =>
      exact sober_masterDispatch _ _ hState hSober
  | masterTimeout hState hKind =>
      exact sober_masterDispatch _ _ hState hSober
  | @remoteTimeout state hState hKind =>
      intro hSome
      rcases hSober hSome with ⟨hToRemote, hToMaster⟩
      refine ⟨hToRemote, ?_⟩
      refine List.forall_mem_append.mpr ⟨hToMaster, ?_⟩
      intro up hUp
      rcases List.mem_map.mp hUp with ⟨byte, hByte, rfl⟩
      have hEvent : Event.timeout ≠ .endTest := by decide
      right
      exact View.quiet_remoteDispatch state hEvent byte hByte
  | @payload state byte hState hKind hStandard =>
      intro hSome
      rcases hSober hSome with ⟨hToRemote, hToMaster⟩
      refine ⟨?_, hToMaster⟩
      refine List.forall_mem_append.mpr ⟨hToRemote, ?_⟩
      intro sent hSent hByte
      rw [List.mem_singleton.mp hSent] at hByte
      have hTest : byte = endTestId := hByte
      rw [hTest] at hStandard
      exact absurd hStandard (by decide)
  | toRemote hState hHead =>
      exact sober_remoteRead _ _ hHead hSober
  | @toMaster state sent rest hState hHead =>
      have hRest : Sober { c with toMaster := rest } := by
        intro hSome
        rcases hSober hSome with ⟨hToRemote, hToMaster⟩
        rw [hHead] at hToMaster
        exact ⟨hToRemote, fun up hUp =>
          hToMaster up (List.mem_cons_of_mem _ hUp)⟩
      unfold masterRead
      split
      · exact sober_masterDispatch _ _ hState hRest
      · exact hRest
  | loseToRemote hIndex =>
      intro hSome
      rcases hSober hSome with ⟨hToRemote, hToMaster⟩
      exact ⟨fun sent hSent =>
        hToRemote sent (List.mem_of_mem_eraseIdx hSent),
        hToMaster⟩
  | loseToMaster hIndex =>
      intro hSome
      rcases hSober hSome with ⟨hToRemote, hToMaster⟩
      exact ⟨hToRemote, fun up hUp =>
        hToMaster up (List.mem_of_mem_eraseIdx hUp)⟩

theorem sober_of_run
    {labels : List LinkLabel}
    {c : Link}
    (hRun : StepSystem.run step start labels = some c) :
    Sober c := by
  refine StepSystem.run_invariant (I := Sober) sober_step ?_
    hRun
  intro hSome
  exact ⟨by simp [start], by simp [start]⟩

end Link

------------------------------------------------------------
-- Room In The Read
------------------------------------------------------------

namespace Exchange

/- The mode has a worker, and an open read is not full. -/
structure Staffed (s : Exchange) : Prop where
  present : s.link.master = some .throughputMode →
    s.worker ≠ .absent
  room : ∀ recvBuf, s.worker = .waiting recvBuf →
    recvBuf.length < recvBufSize

theorem staffed_start : Staffed start where
  present := by
    intro hMode
    cases hMode
  room := by
    intro recvBuf hWaiting
    cases hWaiting

theorem staffed_dispatch
    {s : Exchange}
    {state : MasterState}
    (event : Event)
    (hState : s.link.master = some state)
    (hStaffed : Staffed s) :
    Staffed (s.dispatch state event) where
  present := by
    intro hMode hWorker
    simp only [dispatch, Link.masterDispatch] at hMode hWorker
    cases hOutcome : (masterFsm.dispatch state event).2 with
    | stays =>
        rw [hOutcome] at hMode hWorker
        exact hStaffed.present (hState.trans hMode) hWorker
    | exits =>
        rw [hOutcome] at hMode
        cases hMode
    | transits target =>
        rw [hOutcome] at hMode hWorker
        cases hMode
        cases hWorker
  room := by
    intro recvBuf hWaiting
    exact hStaffed.room recvBuf (waiting_of_after hWaiting).2

theorem staffed_masterRead
    {s : Exchange}
    {state : MasterState}
    (sent : Uplink)
    (hState : s.link.master = some state)
    (hStaffed : Staffed s) :
    Staffed (s.masterRead state sent) := by
  cases hRead : state.readByte sent.byte with
  | none =>
      rw [masterRead_of_none hRead]
      exact hStaffed
  | some event =>
      by_cases hJoins : s.Joins state event
      · rw [masterRead_of_joins hRead hJoins]
        exact ⟨fun _ => by simp, fun _ h => by cases h⟩
      · rw [masterRead_of_free hRead hJoins]
        have hNext := staffed_dispatch event hState hStaffed
        exact ⟨hNext.present, hNext.room⟩

theorem staffed_step
    (order : ByteOrder)
    (s : Exchange)
    (label : ExchangeLabel)
    (s' : Exchange)
    (hStaffed : Staffed s)
    (hStep : step order s label = some s') :
    Staffed s' := by
  cases advances_of_step hStep with
  | command hState hCommand hFree =>
      exact staffed_dispatch _ hState hStaffed
  | masterTimeout hState hKind =>
      exact staffed_dispatch _ hState hStaffed
  | remoteTimeout hState hKind =>
      exact ⟨hStaffed.present, hStaffed.room⟩
  | payload hState hKind hStandard =>
      exact ⟨hStaffed.present, hStaffed.room⟩
  | toRemote hState hHead =>
      refine ⟨?_, hStaffed.room⟩
      rw [Link.remoteRead_master]
      exact hStaffed.present
  | @toMaster state sent rest hState hHead hReads =>
      have hTaken : Staffed (s.takeHead rest) :=
        ⟨hStaffed.present, hStaffed.room⟩
      exact staffed_masterRead sent hState hTaken
  | getResults hMode hSending =>
      refine ⟨fun _ => by simp, ?_⟩
      intro recvBuf hWaiting
      cases hWaiting
      decide
  | resend hWaiting =>
      exact ⟨hStaffed.present, hStaffed.room⟩
  | @receive recvBuf sent rest hWaiting hHead =>
      have hRoom := hStaffed.room recvBuf hWaiting
      unfold receive
      split
      · exact ⟨fun _ => by simp, fun _ h => by cases h⟩
      · rename_i hNotFull
        refine ⟨fun _ => by simp, ?_⟩
        intro recvBuf' hWaiting'
        cases hWaiting'
        rw [List.length_append, List.length_singleton]
          at hNotFull ⊢
        omega
  | reportTimer hMode hSending =>
      exact ⟨fun _ => by simp, fun _ h => by cases h⟩
  | dropToRemote hIndex =>
      exact ⟨hStaffed.present, hStaffed.room⟩

------------------------------------------------------------
-- After The Mode
------------------------------------------------------------

section Endangered

variable {order : ByteOrder}
variable {s s' : Exchange}

/- In some continuation a byte of a reply is dispatched. -/
def Endangered (order : ByteOrder) (s : Exchange) : Prop :=
  ∃ labels s', StepSystem.run (step order) s labels =
      some s' ∧
    ∃ up ∈ s'.dispatched, up.IsResult

theorem endangered_of_step
    {label : ExchangeLabel}
    (hStep : step order s label = some s')
    (hEndangered : Endangered order s') :
    Endangered order s := by
  rcases hEndangered with ⟨labels, s'', hRun, hDispatched⟩
  refine ⟨label :: labels, s'', ?_, hDispatched⟩
  rw [StepSystem.run_cons_of_step hStep]
  exact hRun

theorem endangered_of_run
    {labels : List ExchangeLabel}
    (hRun : StepSystem.run (step order) s labels = some s')
    (hEndangered : Endangered order s') :
    Endangered order s := by
  rcases hEndangered with ⟨labels', s'', hRun', hDispatched⟩
  refine ⟨labels ++ labels', s'', ?_, hDispatched⟩
  rw [StepSystem.run_append hRun]
  exact hRun'

theorem readEvt_of_isCommandByte
    {byte : Byte}
    (hCommand : IsCommandByte byte) :
    ∃ event, readEvt byte = some event := by
  have hLow : (241 : Nat) ≤ byte.val := hCommand.1
  have hHigh : byte.val ≤ 246 := hCommand.2
  cases hRead : readEvt byte with
  | some event => exact ⟨event, rfl⟩
  | none =>
      exfalso
      unfold readEvt at hRead
      split_ifs at hRead
      simp only [Fin.ext_iff, availabilityModeCommandId,
        throughputModeCommandId, endModeCommandId,
        remoteAckId, masterAckId, endTestId] at *
      omega

theorem step_toMaster
    {state : MasterState}
    {sent : Uplink}
    {rest : List Uplink}
    (hState : s.link.master = some state)
    (hHead : s.link.toMaster = sent :: rest)
    (hReads : s.worker.ReadsByte) :
    step order s .toMaster =
      some ((s.takeHead rest).masterRead state sent) := by
  simp only [step, hState, hHead, if_pos hReads]

/- Among usual bytes only an acknowledgement is an event. -/
theorem eq_remoteAckId_of_readEvt
    {sent : Uplink}
    {event : Event}
    (hUsual : sent.IsUsual)
    (hTame : sent.IsTame)
    (hRead : readEvt sent.byte = some event) :
    sent.byte = remoteAckId := by
  rcases hUsual with hResult | hStandard | hAck
  · have hIdle : MasterState.idle.readByte sent.byte =
        some event := hRead
    have hCommand := isCommandByte_of_readByte hIdle
    exact absurd ⟨hResult, hCommand⟩ hTame
  · rw [readEvt_eq_none_of_isStandardCode hStandard] at hRead
    cases hRead
  · exact hAck

section Reads

variable {P Q : List Uplink → Prop}

/-
  Outside the modes the master reads on until it comes to a
  command byte of a reply or an acknowledgement takes it
  elsewhere. `P` says of a queue that there is such a byte,
  `Q` of what remains of it behind an acknowledgement.
-/
theorem endangered_of_reads
    {state : MasterState}
    (hKind : state.kind ≠ .activity)
    (hNil : ¬ P [])
    (hCons : ∀ up rest, P (up :: rest) → up.IsTame →
      if up.byte = remoteAckId then Q rest else P rest)
    (hWorker : s.worker = .absent)
    (hState : s.link.master = some state)
    (hUsual : ∀ up ∈ s.link.toMaster, up.IsUsual)
    (hQueue : P s.link.toMaster)
    (hAck : ∀ s' : Exchange,
      s'.worker = Worker.absent.after
          (masterFsm.dispatch state .remoteAck).2 →
        s'.link.master =
            (masterFsm.dispatch state .remoteAck).2.after
              state →
          s'.link.toMaster.length < s.link.toMaster.length →
            (∀ up ∈ s'.link.toMaster, up.IsUsual) →
              Q s'.link.toMaster → Endangered order s') :
    Endangered order s := by
  have hReadByte : ∀ byte, state.readByte byte =
      readEvt byte := by
    intro byte
    cases state <;> first
      | rfl
      | exact absurd rfl hKind
  induction hToMaster : s.link.toMaster generalizing s with
  | nil =>
      rw [hToMaster] at hQueue
      exact absurd hQueue hNil
  | cons sent rest ih =>
      rw [hToMaster] at hUsual hQueue hAck
      have hUsualRest : ∀ up ∈ rest, up.IsUsual :=
        fun up hUp => hUsual up (List.mem_cons_of_mem _ hUp)
      have hFree : ∀ event,
          ¬ (s.takeHead rest).Joins state event := by
        rintro event ⟨rfl, -⟩
        exact hKind rfl
      apply endangered_of_step
        (step_toMaster hState hToMaster (Or.inl hWorker))
      by_cases hTame : sent.IsTame
      · have hRest := hCons sent rest hQueue hTame
        cases hRead : readEvt sent.byte with
        | none =>
            have hByte : sent.byte ≠ remoteAckId := by
              intro hIs
              rw [hIs] at hRead
              cases hRead
            rw [if_neg hByte] at hRest
            rw [← hReadByte] at hRead
            rw [masterRead_of_none hRead]
            refine ih hWorker hState hUsualRest hRest ?_ rfl
            intro s' hWorker' hMaster' hLess
            exact hAck s' hWorker' hMaster'
              (Nat.lt_succ_of_lt hLess)
        | some event =>
            have hByte := eq_remoteAckId_of_readEvt
              (hUsual sent List.mem_cons_self) hTame hRead
            rw [if_pos hByte] at hRest
            rw [hByte] at hRead
            cases hRead
            have hRead' : state.readByte sent.byte =
                some .remoteAck := by
              rw [hReadByte, hByte]
              rfl
            rw [masterRead_of_free hRead' (hFree .remoteAck)]
            apply hAck
            · simp only [dispatch, takeHead, hWorker]
            · rfl
            · exact Nat.lt_succ_self _
            · exact hUsualRest
            · exact hRest
      · have hHarm := not_not.mp hTame
        rcases readEvt_of_isCommandByte hHarm.2 with
          ⟨event, hRead⟩
        rw [← hReadByte] at hRead
        rw [masterRead_of_free hRead (hFree event)]
        refine ⟨[], _, rfl, sent, ?_, hHarm.1⟩
        exact List.mem_append_right _
          (List.mem_singleton_self _)

end Reads

section After

variable (hUsual : ∀ up ∈ s.link.toMaster, up.IsUsual)
variable (hNot : ¬ GuardedBehind 0 s.link.toMaster)

include hUsual hNot

/- Any acknowledgement will do if all that is left counts. -/
theorem endangered_of_left
    {state : MasterState}
    (hKind : state.kind ≠ .activity)
    (hWorker : s.worker = .absent)
    (hState : s.link.master = some state)
    (hAck : ∀ s' : Exchange,
      s'.worker = Worker.absent.after
          (masterFsm.dispatch state .remoteAck).2 →
        s'.link.master =
            (masterFsm.dispatch state .remoteAck).2.after
              state →
          s'.link.toMaster.length < s.link.toMaster.length →
            (∀ up ∈ s'.link.toMaster, up.IsUsual) →
              ¬ GuardedBehind 0 s'.link.toMaster →
                Endangered order s') :
    Endangered order s := by
  refine endangered_of_reads
    (P := fun queue => ¬ GuardedBehind 0 queue)
    (Q := fun queue => ¬ GuardedBehind 0 queue)
    hKind ?_ ?_ hWorker hState hUsual hNot hAck
  · intro hEmpty
    exact hEmpty fun _ hUp => absurd hUp List.not_mem_nil
  · intro up rest hLeft hTame
    rw [ite_self]
    intro hRest
    exact hLeft (List.forall_mem_cons.mpr ⟨hTame, hRest⟩)

/- `Idle` is left for `Idle` itself. -/
theorem endangered_of_idle
    (hWorker : s.worker = .absent)
    (hState : s.link.master = some .idle) :
    Endangered order s := by
  induction hLength : s.link.toMaster.length using
    Nat.strong_induction_on generalizing s with
  | h length ih =>
      apply endangered_of_left hUsual hNot (by decide)
        hWorker hState
      intro s' hWorker' hState' hLess hUsual' hNot'
      rw [hLength] at hLess
      exact ih _ hLess hUsual' hNot' hWorker' hState' rfl

theorem endangered_of_waitAck
    (hWorker : s.worker = .absent)
    (hState : s.link.master = some .waitAckAfterEndMode) :
    Endangered order s := by
  apply endangered_of_left hUsual hNot (by decide) hWorker
    hState
  intro s' hWorker' hState' _ hUsual' hNot'
  exact endangered_of_idle hUsual' hNot' hWorker' hState'

/- `EndModeCommand` takes the master out of its mode. -/
theorem endangered_of_mode
    {state : MasterState}
    (hState : s.link.master = some state)
    (hMode : state = .availabilityMode ∨
      (state = .throughputMode ∧ s.worker = .reported)) :
    Endangered order s := by
  have hFree : ¬ s.Joins state .endModeCommand := by
    rintro ⟨rfl, -, hOther⟩
    rcases hMode with hAvailability | ⟨-, hReported⟩
    · cases hAvailability
    · exact hOther hReported
  have hStep : step order s (.command .endModeCommand) =
      some (s.dispatch state .endModeCommand) := by
    simp [step, hState, hFree, IsModeCommand]
  apply endangered_of_step hStep
  have hDispatch : (masterFsm.dispatch state
      .endModeCommand).2 = .transits .waitAckAfterEndMode := by
    rcases hMode with rfl | ⟨rfl, -⟩ <;> rfl
  apply endangered_of_waitAck
  · exact hUsual
  · exact hNot
  · simp only [dispatch, hDispatch]
    rfl
  · simp only [dispatch, Link.masterDispatch, hDispatch]
    rfl

theorem endangered_of_sentAvailable
    (hWorker : s.worker = .absent)
    (hState : s.link.master =
      some .sentAvailableModeCommand) :
    Endangered order s := by
  apply endangered_of_left hUsual hNot (by decide) hWorker
    hState
  intro s' hWorker' hState' _ hUsual' hNot'
  exact endangered_of_mode hUsual' hNot' hState' (Or.inl rfl)

end After

/- Enough bytes in flight fill the open read. -/
theorem exists_reported
    (order : ByteOrder)
    {s : Exchange}
    {recvBuf read rest : List Uplink}
    (hWaiting : s.worker = .waiting recvBuf)
    (hRoom : recvBuf.length < recvBufSize)
    (hQueue : s.link.toMaster = read ++ rest)
    (hFills : recvBuf.length + read.length = recvBufSize) :
    ∃ labels s', StepSystem.run (step order) s labels =
        some s' ∧
      s'.worker = .reported ∧
        s'.link.master = s.link.master ∧
          s'.link.toMaster = rest := by
  induction read generalizing s recvBuf with
  | nil =>
      rw [List.length_nil] at hFills
      omega
  | cons sent read ih =>
      have hStep : step order s .receive = some
          ((s.takeHead (read ++ rest)).receive order
            (recvBuf ++ [sent])) := by
        simp only [step, hWaiting, hQueue, List.cons_append]
      rw [List.length_cons] at hFills
      by_cases hFull :
          (recvBuf ++ [sent]).length = recvBufSize
      · rw [receive, if_pos hFull] at hStep
        refine ⟨[.receive], _, StepSystem.run_cons_of_step hStep,
          rfl, rfl, ?_⟩
        rw [List.length_append, List.length_singleton] at hFull
        have hNone : read = [] :=
          List.length_eq_zero_iff.mp (by omega)
        rw [hNone]
        rfl
      · rw [receive, if_neg hFull] at hStep
        rw [List.length_append, List.length_singleton]
          at hFull
        rcases ih (s := { s.takeHead (read ++ rest) with
            worker := .waiting (recvBuf ++ [sent]) }) rfl
            (by rw [List.length_append,
              List.length_singleton]; omega)
            rfl
            (by rw [List.length_append,
              List.length_singleton]; omega) with
          ⟨labels, s', hRun, hReported, hMaster, hRest⟩
        refine ⟨.receive :: labels, s', ?_, hReported, hMaster,
          hRest⟩
        rw [StepSystem.run_cons_of_step hStep]
        exact hRun

/- What is left behind the open read. -/
theorem endangered_of_waiting
    {recvBuf : List Uplink}
    (hUsual : ∀ up ∈ s.link.toMaster, up.IsUsual)
    (hWorker : s.worker = .waiting recvBuf)
    (hMode : s.link.master = some .throughputMode)
    (hRoom : recvBuf.length < recvBufSize)
    (hNot : ¬ GuardedBehind (recvBufSize - recvBuf.length)
      s.link.toMaster) :
    Endangered order s := by
  let count := recvBufSize - recvBuf.length
  have hLong : count ≤ s.link.toMaster.length := by
    by_contra hShort
    apply hNot
    intro up hUp
    rw [List.drop_eq_nil_of_le (by omega)] at hUp
    cases hUp
  have hFills : recvBuf.length +
      (s.link.toMaster.take count).length = recvBufSize := by
    rw [List.length_take]
    omega
  rcases exists_reported order hWorker hRoom
      (List.take_append_drop count _).symm hFills with
    ⟨labels, s', hRun, hReported, hMaster, hRest⟩
  apply endangered_of_run hRun
  apply endangered_of_mode _ _ (hMaster.trans hMode)
    (Or.inr ⟨rfl, hReported⟩)
  · rw [hRest]
    intro up hUp
    exact hUsual up (List.mem_of_mem_drop hUp)
  · rw [hRest]
    exact hNot

/- The first byte that `handleReceive` takes for a command. -/
theorem endangered_of_found
    {up : Uplink}
    (hWorker : s.worker = .sending)
    (hMode : s.link.master = some .throughputMode)
    (hFound : s.link.toMaster.find? (fun up =>
      (MasterThroughput.commandOf up.byte).isSome) = some up)
    (hResult : up.IsResult) :
    Endangered order s := by
  induction hQueue : s.link.toMaster generalizing s with
  | nil =>
      rw [hQueue] at hFound
      cases hFound
  | cons sent rest ih =>
      rw [hQueue] at hFound
      apply endangered_of_step (step_toMaster hMode hQueue
        (Or.inr (Or.inl hWorker)))
      cases hRead : MasterThroughput.commandOf sent.byte with
      | none =>
          have hRead' : MasterState.throughputMode.readByte
              sent.byte = none := hRead
          rw [masterRead_of_none hRead']
          rw [List.find?_cons_of_neg (by simp [hRead])]
            at hFound
          exact ih hWorker hMode hFound rfl
      | some event =>
          have hRead' : MasterState.throughputMode.readByte
              sent.byte = some event := hRead
          rw [List.find?_cons_of_pos (by simp [hRead]),
            Option.some.injEq] at hFound
          subst hFound
          have hLogged : sent ∈ ((s.takeHead rest).masterRead
              .throughputMode sent).dispatched := by
            by_cases hJoins : (s.takeHead rest).Joins
                .throughputMode event
            · rw [masterRead_of_joins hRead' hJoins]
              exact List.mem_append_right _
                (List.mem_singleton_self _)
            · rw [masterRead_of_free hRead' hJoins]
              exact List.mem_append_right _
                (List.mem_singleton_self _)
          exact ⟨[], _, rfl, sent, hLogged, hResult⟩

/- A worker that may open its read or go on without it. -/
theorem endangered_of_sending
    (hUsual : ∀ up ∈ s.link.toMaster, up.IsUsual)
    (hWorker : s.worker = .sending)
    (hMode : s.link.master = some .throughputMode)
    (hNot : ¬ GuardedSending s.link.toMaster) :
    Endangered order s := by
  rcases not_and_or.mp hNot with hBehind | hFirst
  · have hStep : step order s .getResults = some
        { s.write endStandardCodes with
          worker := .waiting [] } := by
      simp only [step, hMode, hWorker, and_self, if_true]
    apply endangered_of_step hStep
    exact endangered_of_waiting hUsual rfl hMode (by decide)
      hBehind
  · split at hFirst
    · rename_i up hFound
      exact endangered_of_found hWorker hMode hFound
        (not_not.mp hFirst)
    · exact absurd trivial hFirst

theorem endangered_of_sent
    (hUsual : ∀ up ∈ s.link.toMaster, up.IsUsual)
    (hWorker : s.worker = .absent)
    (hState : s.link.master =
      some .sentThroughputModeCommand)
    (hNot : ¬ GuardedSent s.link.toMaster) :
    Endangered order s := by
  refine endangered_of_reads
    (P := fun queue => ¬ GuardedSent queue)
    (Q := fun queue => ¬ GuardedSending queue)
    (by decide) (not_not.mpr trivial) ?_ hWorker hState
    hUsual hNot ?_
  · intro up rest hLeft hTame
    by_cases hByte : up.byte = remoteAckId
    · rw [if_pos hByte]
      intro hRest
      exact hLeft ⟨hTame, by rw [if_pos hByte]; exact hRest⟩
    · rw [if_neg hByte]
      intro hRest
      exact hLeft ⟨hTame, by rw [if_neg hByte]; exact hRest⟩
  · intro s' hWorker' hState' _ hUsual' hNot'
    exact endangered_of_sending hUsual' hWorker' hState' hNot'

end Endangered

------------------------------------------------------------
-- The Condition Is Exact
------------------------------------------------------------

theorem endangered_of_not_kept
    (order : ByteOrder)
    {s : Exchange}
    (hInMode : InMode s)
    (hStaffed : Staffed s)
    (hSober : s.link.Sober)
    (hNot : ¬ Kept s) :
    Endangered order s := by
  rcases not_or.mp hNot with ⟨hReading, hLeft⟩
  cases hState : s.link.master with
  | none => exact absurd (Or.inr hState) hReading
  | some state =>
    have hUsual := (hSober (by rw [hState]; rfl)).2
    cases hWorker : s.worker with
    | blocked => exact absurd (Or.inl hWorker) hReading
    | waiting recvBuf =>
        have hMode := hInMode (by simp [hWorker])
        simp only [Guarded, hWorker] at hLeft
        exact endangered_of_waiting hUsual hWorker hMode
          (hStaffed.room recvBuf hWorker) hLeft
    | sending =>
        have hMode := hInMode (by simp [hWorker])
        simp only [Guarded, hWorker] at hLeft
        exact endangered_of_sending hUsual hWorker hMode hLeft
    | reported =>
        have hMode := hInMode (by simp [hWorker])
        simp only [Guarded, hWorker] at hLeft
        exact endangered_of_mode hUsual hLeft hMode
          (Or.inr ⟨rfl, hWorker⟩)
    | absent =>
        by_cases hSent : s.link.master =
            some .sentThroughputModeCommand
        · simp only [Guarded, hWorker, if_pos hSent] at hLeft
          exact endangered_of_sent hUsual hWorker hSent hLeft
        simp only [Guarded, hWorker, if_neg hSent] at hLeft
        cases state with
        | idle =>
            exact endangered_of_idle hUsual hLeft hWorker
              hState
        | sentAvailableModeCommand =>
            exact endangered_of_sentAvailable hUsual hLeft
              hWorker hState
        | sentThroughputModeCommand =>
            exact absurd hState hSent
        | availabilityMode =>
            exact endangered_of_mode hUsual hLeft hState
              (Or.inl rfl)
        | throughputMode =>
            exact absurd hWorker (hStaffed.present hState)
        | waitAckAfterEndMode =>
            exact endangered_of_waitAck hUsual hLeft hWorker
              hState

/- A reply that leaves the queue guarded is contained. -/
theorem contained_of_kept
    {order : ByteOrder}
    {s s' : Exchange}
    {label : ExchangeLabel}
    (hStep : step order s label = some s')
    (hKept : Kept s') :
    s.Contained label := by
  cases advances_of_step hStep with
  | @toRemote state sent rest r u hState hHead =>
      by_cases hStopped : s.Stopped
      · exact Or.inl hStopped
      right
      intro hReplies
      have hState' : state = .remoteThroughputMode := by
        rw [hReplies.1] at hState
        exact (Option.some.inj hState).symm
      have hByte : sent.byte = endStandardCodes := by
        have hRequest := hReplies.2
        rw [Link.remoteHead, hHead] at hRequest
        exact Option.some.inj hRequest
      have hReply : Link.remoteRead
          { s.link with toRemote := rest } state sent r u =
            Link.sendResults { s.link with toRemote := rest }
              r u := by
        rw [Link.remoteRead, hState', hByte]
        rfl
      rw [hReply] at hKept
      exact hKept.resolve_left hStopped
  | command _ _ _ | masterTimeout _ _ | remoteTimeout _ _
  | payload _ _ _ | toMaster _ _ _ | getResults _ _
  | resend _ | receive _ _ | reportTimer _ _
  | dropToRemote _ => trivial

/-
  The condition is exact: after a step that breaks it some
  continuation dispatches a byte of a reply.
-/
theorem endangered_of_not_contained
    {order : ByteOrder}
    {labels : List ExchangeLabel}
    {label : ExchangeLabel}
    {s s' : Exchange}
    (hRun : StepSystem.run (step order) start labels = some s)
    (hStep : step order s label = some s')
    (hNot : ¬ s.Contained label) :
    Endangered order s' := by
  have hRun' : StepSystem.run (step order) start
      (labels ++ [label]) = some s' := by
    rw [StepSystem.run_append hRun,
      StepSystem.run_cons_of_step hStep]
    rfl
  have hInMode : InMode s' :=
    StepSystem.run_invariant (inMode_step order)
      inMode_start hRun'
  have hStaffed : Staffed s' :=
    StepSystem.run_invariant (staffed_step order)
      staffed_start hRun'
  rcases exists_link_run hRun' with ⟨labels', hLinkRun⟩
  apply endangered_of_not_kept order hInMode hStaffed
    (Link.sober_of_run hLinkRun)
  intro hKept
  exact hNot (contained_of_kept hStep hKept)

end Exchange

end ModemTester
