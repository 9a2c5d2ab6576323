import ModemTester.Link.Draining
import ModemTester.Link.EndOfMode
import ModemTester.Link.WayHome

/-
  Getting back in step.

  Without a further loss the two machines can be brought
  back to `Idle` and `RemoteIdle` from almost everywhere,
  because a remote that is in a state with a timer repeats
  its `RemoteAck` for ever. What cannot be left are two
  kinds of configurations in which no acknowledgement can
  come any more: the master waits for one while the remote
  is idle, or the remote runs a mode that the master is not
  in.

  A reply with results that contains the byte of an
  acknowledgement is taken for one. `sendResults` computes
  what it replies, so the totals of every reply are given
  beforehand, and the results hold whatever they are.

  Key definitions include:
    * `Link.CanResync`
    * `Link.Wedged`

  Main declarations:
    * `Link.canResync_iff`
    * `Link.canResync_throughout`
    * `Link.wedged_after_lost_ack`
-/

------------------------------------------------------------
-- Resynchronising And Wedged Configurations
------------------------------------------------------------

namespace ModemTester

namespace Link

/- Both idle, and no command or acknowledgement in flight. -/
def Resynced (c : Link) : Prop :=
  c.master = some .idle ∧ c.remote = some .remoteIdle ∧
    (∀ sent ∈ c.toRemote, IsStandardCode sent.byte) ∧
      ∀ sent ∈ c.toMaster, IsStandardCode sent.byte

def CanResync
    (totals : Nat → Word × Word)
    (c : Link) : Prop :=
  ∃ c', Continues totals c c' ∧ Resynced c'

/-
  The master waits in a mode or for its end, the remote is
  idle, and neither an acknowledgement nor a mode command is
  in flight.
-/
def WedgedIdle (c : Link) : Prop :=
  c.remote = some .remoteIdle ∧
    (c.master = some .availabilityMode ∨
      c.master = some .throughputMode ∨
        c.master = some .waitAckAfterEndMode) ∧
      (∀ sent ∈ c.toMaster, sent.byte ≠ remoteAckId) ∧
        ∀ sent ∈ c.toRemote,
          sent.byte ≠ availabilityModeCommandId ∧
            sent.byte ≠ throughputModeCommandId

/-
  The remote runs a mode, the master neither runs nor ends
  one, and neither an acknowledgement nor `EndModeCommand`
  is in flight, nor a request whose reply contains the byte
  of an acknowledgement.
-/
def WedgedRunning
    (totals : Nat → Word × Word)
    (c : Link) : Prop :=
  (c.remote = some .remoteAvailabilityMode ∨
      (c.remote = some .remoteThroughputMode ∧
        ∀ byte ∈ answers totals c, byte ≠ remoteAckId)) ∧
    (c.master = some .idle ∨
      c.master = some .sentAvailableModeCommand ∨
        c.master = some .sentThroughputModeCommand) ∧
      (∀ sent ∈ c.toMaster, sent.byte ≠ remoteAckId) ∧
        ∀ sent ∈ c.toRemote, sent.byte ≠ endModeCommandId

def Wedged
    (totals : Nat → Word × Word)
    (c : Link) : Prop :=
  WedgedIdle c ∨ WedgedRunning totals c

/-
  Both processes run, and none is about to be stopped: the
  byte of `EndTest` is not in flight, nor in a reply to a
  request in flight.
-/
structure NoEndTest
    (totals : Nat → Word × Word)
    (c : Link) : Prop where
  master : c.master.isSome = true
  remote : c.remote.isSome = true
  toRemote : ∀ sent ∈ c.toRemote, sent.byte ≠ endTestId
  toMaster : ∀ sent ∈ c.toMaster, sent.byte ≠ endTestId
  answers : ∀ byte ∈ answers totals c, byte ≠ endTestId

instance
    (totals : Nat → Word × Word)
    (c : Link) : Decidable (Wedged totals c) := by
  unfold Wedged WedgedIdle WedgedRunning
  infer_instance

instance
    (totals : Nat → Word × Word)
    (c : Link) : Decidable (NoEndTest totals c) :=
  decidable_of_iff
    (c.master.isSome = true ∧ c.remote.isSome = true ∧
      (∀ sent ∈ c.toRemote, sent.byte ≠ endTestId) ∧
        (∀ sent ∈ c.toMaster, sent.byte ≠ endTestId) ∧
          ∀ byte ∈ answers totals c, byte ≠ endTestId)
    ⟨fun h => ⟨h.1, h.2.1, h.2.2.1, h.2.2.2.1, h.2.2.2.2⟩,
      fun h => ⟨h.1, h.2, h.3, h.4, h.5⟩⟩

------------------------------------------------------------
-- Wedged Configurations Stay Wedged
------------------------------------------------------------

variable {totals : Nat → Word × Word}

/- No way back: wedged, or one of the two has left. -/
def Stuck
    (totals : Nat → Word × Word)
    (c : Link) : Prop :=
  c.master = none ∨ c.remote = none ∨ Wedged totals c

theorem not_resynced_of_stuck
    {c : Link}
    (hStuck : Stuck totals c) :
    ¬ Resynced c := by
  rintro ⟨hMaster, hRemote, -, -⟩
  rcases hStuck with hNone | hNone | hIdle | hRunning
  · rw [hMaster] at hNone
    cases hNone
  · rw [hRemote] at hNone
    cases hNone
  · rcases hIdle.2.1 with hMode | hMode | hMode
    all_goals
      rw [hMaster] at hMode
      cases hMode
  · rcases hRunning.1 with hMode | ⟨hMode, -⟩
    all_goals
      rw [hRemote] at hMode
      cases hMode

/-
  Without an acknowledgement the master does not get out of
  the states that wait for one, and writes no mode command.
-/
theorem waiting_masterDispatch
    {state : MasterState}
    {event : Event}
    (hState : state = .availabilityMode ∨
      state = .throughputMode ∨ state = .waitAckAfterEndMode)
    (hEvent : event ≠ .remoteAck) :
    ((masterFsm.dispatch state event).2.after state = none ∨
        (masterFsm.dispatch state event).2.after state =
          some .availabilityMode ∨
        (masterFsm.dispatch state event).2.after state =
          some .throughputMode ∨
        (masterFsm.dispatch state event).2.after state =
          some .waitAckAfterEndMode) ∧
      ∀ byte ∈ (masterFsm.dispatch state event).1,
        byte ≠ availabilityModeCommandId ∧
          byte ≠ throughputModeCommandId := by
  have hSent : (masterFsm.dispatch state event).1.all
      (fun byte => decide
        (byte ≠ availabilityModeCommandId ∧
          byte ≠ throughputModeCommandId)) = true := by
    rcases hState with rfl | rfl | rfl <;> cases event <;>
      first
        | exact absurd rfl hEvent
        | rfl
  constructor
  · rcases hState with rfl | rfl | rfl <;> cases event <;>
      first
        | exact absurd rfl hEvent
        | decide
  · intro byte hByte
    exact of_decide_eq_true (List.all_eq_true.mp hSent byte hByte)

/-
  Nor does it get out of the states before a mode, and it
  writes neither `EndModeCommand` nor a request.
-/
theorem starting_masterDispatch
    {state : MasterState}
    {event : Event}
    (hState : state = .idle ∨
      state = .sentAvailableModeCommand ∨
        state = .sentThroughputModeCommand)
    (hEvent : event ≠ .remoteAck) :
    ((masterFsm.dispatch state event).2.after state = none ∨
        (masterFsm.dispatch state event).2.after state =
          some .idle ∨
        (masterFsm.dispatch state event).2.after state =
          some .sentAvailableModeCommand ∨
        (masterFsm.dispatch state event).2.after state =
          some .sentThroughputModeCommand) ∧
      ∀ byte ∈ (masterFsm.dispatch state event).1,
        byte ≠ endModeCommandId ∧
          byte ≠ endStandardCodes := by
  have hSent : (masterFsm.dispatch state event).1.all
      (fun byte => decide
        (byte ≠ endModeCommandId ∧
          byte ≠ endStandardCodes)) = true := by
    rcases hState with rfl | rfl | rfl <;> cases event <;>
      first
        | exact absurd rfl hEvent
        | rfl
  constructor
  · rcases hState with rfl | rfl | rfl <;> cases event <;>
      first
        | exact absurd rfl hEvent
        | decide
  · intro byte hByte
    exact of_decide_eq_true (List.all_eq_true.mp hSent byte hByte)

/- A dispatch that writes no request changes no answers. -/
theorem answers_masterDispatch
    {c : Link}
    (state : MasterState)
    (event : Event)
    (hSent : ∀ byte ∈ (masterFsm.dispatch state event).1,
      byte ≠ endStandardCodes) :
    answers totals (c.masterDispatch state event) =
      answers totals c := by
  have hNone : requests
      ((masterFsm.dispatch state event).1.map
        fun byte => (⟨byte,
          (c.masterDispatch state
            event).masterSessions.length⟩ : Downlink)) =
        0 := by
    apply List.countP_eq_zero.mpr
    intro sent hMem
    rcases List.mem_map.mp hMem with ⟨byte, hByte, rfl⟩
    rw [decide_eq_true_eq]
    exact hSent byte hByte
  have hRequests :
      requests (c.masterDispatch state event).toRemote =
        requests c.toRemote :=
    List.countP_append.trans
      (congrArg (requests c.toRemote + ·) hNone)
  rw [answers, answers, hRequests]
  rfl

theorem stuck_masterDispatch
    {c : Link}
    {state : MasterState}
    {event : Event}
    (hState : c.master = some state)
    (hEvent : event ≠ .remoteAck)
    (hStuck : Stuck totals c) :
    Stuck totals (c.masterDispatch state event) := by
  rcases hStuck with hNone | hNone | hIdle | hRunning
  · rw [hState] at hNone
    cases hNone
  · exact Or.inr (Or.inl hNone)
  · rcases hIdle with ⟨hRemote, hWaiting, hNoAck, hNoMode⟩
    rw [hState] at hWaiting
    simp only [Option.some.injEq] at hWaiting
    rcases waiting_masterDispatch hWaiting hEvent with
      ⟨hNone | hMode, hSent⟩
    · exact Or.inl hNone
    · refine Or.inr (Or.inr (Or.inl
        ⟨hRemote, hMode, hNoAck, ?_⟩))
      refine List.forall_mem_append.mpr ⟨hNoMode, ?_⟩
      intro sent hMem
      rcases List.mem_map.mp hMem with ⟨byte, hByte, rfl⟩
      exact hSent byte hByte
  · rcases hRunning with ⟨hRemote, hStarting, hNoAck, hNoEnd⟩
    rw [hState] at hStarting
    simp only [Option.some.injEq] at hStarting
    rcases starting_masterDispatch hStarting hEvent with
      ⟨hNone | hMode, hSent⟩
    · exact Or.inl hNone
    · refine Or.inr (Or.inr (Or.inr ⟨?_, hMode, hNoAck, ?_⟩))
      · rcases hRemote with hPinger | ⟨hThroughput, hNoRequest⟩
        · exact Or.inl hPinger
        · refine Or.inr ⟨hThroughput, ?_⟩
          rw [answers_masterDispatch state event
            fun byte hByte => (hSent byte hByte).2]
          exact hNoRequest
      · refine List.forall_mem_append.mpr ⟨hNoEnd, ?_⟩
        intro sent hMem
        rcases List.mem_map.mp hMem with ⟨byte, hByte, rfl⟩
        exact (hSent byte hByte).1

/- The remote reads, and its reply carries what is given. -/
theorem stuck_remoteRead
    {c : Link}
    {state : RemoteState}
    {sent : Downlink}
    {rest : List Downlink}
    (hState : c.remote = some state)
    (hHead : c.toRemote = sent :: rest)
    (hStuck : Stuck totals c) :
    Stuck totals (afterRead totals c state sent rest) := by
  have hRemote := remoteRead_remote
    (c := { c with toRemote := rest }) sent
    (totals c.replies.length).1 (totals c.replies.length).2
    hState
  rw [remoteAfter_some] at hRemote
  by_cases hEndTest : sent.byte = endTestId
  · rw [hEndTest, readOutcome_endTest] at hRemote
    exact Or.inr (Or.inl hRemote)
  rcases hStuck with hNone | hNone | hIdle | hRunning
  · left
    exact (remoteRead_master _ _ _ _ _).trans hNone
  · rw [hState] at hNone
    cases hNone
  · rcases hIdle with ⟨hSame, hWaiting, hNoAck, hNoMode⟩
    rw [hState, Option.some.injEq] at hSame
    subst hSame
    rw [hHead] at hNoMode
    have hByte := hNoMode sent List.mem_cons_self
    have hStays := readOutcome_remoteIdle hByte.1 hByte.2
      hEndTest
    rw [hStays] at hRemote
    refine Or.inr (Or.inr (Or.inl ⟨hRemote, ?_, ?_, ?_⟩))
    · rw [afterRead, remoteRead_master]
      exact hWaiting
    · refine remoteRead_noAck ?_ ?_ hNoAck
      · rw [remoteAfter_some, hStays]
        decide
      · intro hThroughput
        cases hThroughput
    · rw [afterRead_toRemote]
      intro other hOther
      exact hNoMode other (List.mem_cons_of_mem _ hOther)
  · rcases hRunning with
      ⟨hRunning, hStarting, hNoAck, hNoEnd⟩
    rw [hHead] at hNoEnd
    rw [hState] at hRunning
    have hMode : state = .remoteAvailabilityMode ∨
        state = .remoteThroughputMode := by
      rcases hRunning with hPinger | ⟨hThroughput, -⟩
      · exact Or.inl (Option.some.inj hPinger)
      · exact Or.inr (Option.some.inj hThroughput)
    have hStays := readOutcome_running hMode
      (hNoEnd sent List.mem_cons_self) hEndTest
    rw [hStays] at hRemote
    refine Or.inr (Or.inr (Or.inr ⟨?_, ?_, ?_, ?_⟩))
    · rw [show (afterRead totals c state sent rest).remote =
        some state from hRemote]
      rcases hRunning with hPinger | ⟨hThroughput, hAnswers⟩
      · exact Or.inl hPinger
      · exact Or.inr ⟨hThroughput, fun byte hByte =>
          hAnswers byte (mem_answers_of_read hHead hByte)⟩
    · rw [afterRead, remoteRead_master]
      exact hStarting
    · refine remoteRead_noAck ?_ ?_ hNoAck
      · rw [remoteAfter_some, hStays]
        rcases hMode with rfl | rfl <;> decide
      · -- A reply is one of the answers to be expected.
        intro hSame hRequest hMem
        have hReply : state.handleByte sent.byte =
            .sendResults := by
          rw [hSame, hRequest]
          rfl
        rcases hRunning with hPinger | ⟨-, hAnswers⟩
        · rw [hSame] at hPinger
          cases hPinger
        · rw [answers_of_reply hHead hReply] at hAnswers
          exact hAnswers remoteAckId
            (List.mem_append_left _ hMem) rfl
    · rw [afterRead_toRemote]
      intro other hOther
      exact hNoEnd other (List.mem_cons_of_mem _ hOther)

/- A remote timer does not fire in a wedged configuration. -/
theorem stuck_of_remoteTimeout
    {c : Link}
    {state : RemoteState}
    (hState : c.remote = some state)
    (hKind : state.kind = .timerBased)
    (hStuck : Stuck totals c) :
    c.master = none := by
  rcases hStuck with hNone | hNone | hIdle | hRunning
  · exact hNone
  · rw [hState] at hNone
    cases hNone
  · have hRemote := hIdle.1
    rw [hState, Option.some.injEq] at hRemote
    subst hRemote
    cases hKind
  · rcases hRunning.1 with hPinger | ⟨hThroughput, -⟩
    · rw [hState, Option.some.injEq] at hPinger
      subst hPinger
      cases hKind
    · rw [hState, Option.some.injEq] at hThroughput
      subst hThroughput
      cases hKind

theorem stuck_masterRead
    {c : Link}
    {state : MasterState}
    {sent : Uplink}
    {rest : List Uplink}
    (hState : c.master = some state)
    (hHead : c.toMaster = sent :: rest)
    (hStuck : Stuck totals c) :
    Stuck totals
      (masterRead { c with toMaster := rest } state
        sent.byte) := by
  by_cases hNone : c.remote = none
  · right
    left
    rw [masterRead_remote]
    exact hNone
  have hAcks : (∀ up ∈ c.toMaster, up.byte ≠ remoteAckId) := by
    rcases hStuck with hLeft | hLeft | hIdle | hRunning
    · rw [hState] at hLeft
      cases hLeft
    · exact absurd hLeft hNone
    · exact hIdle.2.2.1
    · exact hRunning.2.2.1
  have hStuck' : Stuck totals { c with toMaster := rest } := by
    have hRest : ∀ up ∈ rest, up.byte ≠ remoteAckId := by
      intro up hUp
      apply hAcks
      rw [hHead]
      exact List.mem_cons_of_mem _ hUp
    rcases hStuck with hLeft | hLeft | hIdle | hRunning
    · exact Or.inl hLeft
    · exact Or.inr (Or.inl hLeft)
    · exact Or.inr (Or.inr (Or.inl
        ⟨hIdle.1, hIdle.2.1, hRest, hIdle.2.2.2⟩))
    · exact Or.inr (Or.inr (Or.inr
        ⟨hRunning.1, hRunning.2.1, hRest, hRunning.2.2.2⟩))
  have hNoAck : sent.byte ≠ remoteAckId := by
    apply hAcks
    rw [hHead]
    exact List.mem_cons_self
  unfold masterRead
  split
  · rename_i event hRead
    refine stuck_masterDispatch
      (c := { c with toMaster := rest }) hState ?_ hStuck'
    rintro rfl
    apply hNoAck
    exact Fin.ext (Int.ofNat.inj (MasterState.val_of_readByte hRead))
  · exact hStuck'

theorem stuck_step
    (c : Link)
    (label : LinkLabel)
    (c' : Link)
    (hStuck : Stuck totals c)
    (hContinuation : IsContinuation totals c label)
    (hStep : step c label = some c') :
    Stuck totals c' := by
  cases moves_of_step hStep with
  | command hState hCommand =>
      apply stuck_masterDispatch hState _ hStuck
      rintro rfl
      exact absurd hCommand (by decide)
  | masterTimeout hState hKind =>
      apply stuck_masterDispatch hState _ hStuck
      intro hAck
      cases hAck
  | remoteTimeout hState hKind =>
      left
      rw [remoteDispatch_master]
      exact stuck_of_remoteTimeout hState hKind hStuck
  | payload hState hKind hStandard =>
      exact hContinuation.elim
  | @toRemote state sent rest totalReceived totalUsec hState
      hHead =>
      have hTotals : (totalReceived, totalUsec) =
          totals c.replies.length :=
        hContinuation
      have hRead := stuck_remoteRead hState hHead hStuck
      rw [afterRead, ← hTotals] at hRead
      exact hRead
  | @toMaster state sent rest hState hHead =>
      exact stuck_masterRead hState hHead hStuck
  | loseToRemote hIndex => exact hContinuation.elim
  | loseToMaster hIndex => exact hContinuation.elim

/- No continuation leads out of a wedged configuration. -/
theorem not_canResync_of_wedged
    {c : Link}
    (hWedged : Wedged totals c) :
    ¬ CanResync totals c := by
  rintro ⟨c', ⟨labels, hLabels, hRun⟩, hResynced⟩
  have hStuck : Stuck totals c' :=
    StepSystem.run_invariant_along (I := Stuck totals)
      stuck_step (Or.inr (Or.inr hWedged)) hLabels hRun
  exact not_resynced_of_stuck hStuck hResynced

------------------------------------------------------------
-- Everything Else Leads Home
------------------------------------------------------------

/- Whatever the remote has read before, a way home is one. -/
theorem canResync_of_leads
    {c c₁ : Link}
    {v : View}
    (hContinues : Continues totals c c₁)
    (hShown : v.Shown c₁)
    (hLeads : View.Leads totals v View.home) :
    CanResync totals c := by
  rcases hLeads c₁ hShown with
    ⟨c', hHome, hMaster, hRemote, hToRemote, hToMaster⟩
  refine ⟨c', continues_trans hContinues hHome, hMaster,
    hRemote, ?_, ?_⟩
  · intro sent hSent
    rw [List.map_eq_nil_iff.mp hToRemote] at hSent
    cases hSent
  · intro sent hSent
    rw [List.map_eq_nil_iff.mp hToMaster] at hSent
    cases hSent

section Home

variable {c : Link}
variable {M : MasterState}
variable {R : RemoteState}

/- A remote with a timer acknowledges before it reads. -/
theorem canResync_of_timerBased
    (hNoEnd : NoEndTest totals c)
    (hMaster : c.master = some M)
    (hRemote : c.remote = some R)
    (hKind : R.kind = .timerBased) :
    CanResync totals c := by
  have hTimer : Continues totals c
      (c.remoteDispatch R .timeout 0) :=
    continues_of_step
      (show IsContinuation totals c .remoteTimeout
        from trivial)
      (step_of_moves (.remoteTimeout hRemote hKind))
  rcases exists_drained totals
      (c := c.remoteDispatch R .timeout 0) hMaster
      (remoteDispatch_timeout_remote c R) hNoEnd.toRemote
      hNoEnd.answers with
    ⟨c', R', wrote, hContinues, hShown, hWrote, -⟩
  rw [View.bytes_remoteTimeout c hKind] at hShown
  apply canResync_of_leads
    (continues_trans hTimer hContinues) hShown
  apply View.leads_home_of_ack
  · exact List.mem_append_left _
      (List.mem_append_right _ (List.mem_singleton_self _))
  · refine List.forall_mem_append.mpr
      ⟨List.forall_mem_append.mpr
        ⟨List.forall_mem_map.mpr hNoEnd.toMaster, ?_⟩, hWrote⟩
    exact List.forall_mem_singleton.mpr (by decide)

/- An idle remote needs a master that starts a mode. -/
theorem starting_of_not_wedged
    (hMaster : c.master = some M)
    (hRemote : c.remote = some .remoteIdle)
    (hNotWedged : ¬ WedgedIdle c)
    (hNoAck : ∀ up ∈ c.toMaster, up.byte ≠ remoteAckId)
    (hStays : ∀ sent ∈ c.toRemote,
      readOutcome .remoteIdle sent.byte = .stays) :
    M = .idle ∨ M = .sentAvailableModeCommand ∨
      M = .sentThroughputModeCommand := by
  have hNoMode : ∀ sent ∈ c.toRemote,
      sent.byte ≠ availabilityModeCommandId ∧
        sent.byte ≠ throughputModeCommandId := by
    intro sent hSent
    have hByte := hStays sent hSent
    constructor
    · intro hMode
      rw [hMode] at hByte
      cases hByte
    · intro hMode
      rw [hMode] at hByte
      cases hByte
  by_contra hWaiting
  apply hNotWedged
  refine ⟨hRemote, ?_, hNoAck, hNoMode⟩
  rw [hMaster]
  cases M <;> simp_all

/- A running remote needs a master that ends the mode. -/
theorem ending_of_not_wedged
    (hMaster : c.master = some M)
    (hRemote : c.remote = some R)
    (hRunning : View.Running R)
    (hNotWedged : ¬ WedgedRunning totals c)
    (hNoAck : ∀ up ∈ c.toMaster, up.byte ≠ remoteAckId)
    (hStays : ∀ sent ∈ c.toRemote,
      readOutcome R sent.byte = .stays)
    (hAnswers : R = .remoteThroughputMode →
      ∀ byte ∈ answers totals c, byte ≠ remoteAckId) :
    M = .availabilityMode ∨ M = .throughputMode ∨
      M = .waitAckAfterEndMode := by
  have hNoEnd : ∀ sent ∈ c.toRemote,
      sent.byte ≠ endModeCommandId := by
    intro sent hSent hEnd
    have hByte := hStays sent hSent
    rw [hEnd] at hByte
    rcases hRunning with rfl | rfl <;> cases hByte
  by_contra hStarting
  apply hNotWedged
  refine ⟨?_, ?_, hNoAck, hNoEnd⟩
  · rcases hRunning with rfl | rfl
    · exact Or.inl hRemote
    · exact Or.inr ⟨hRemote, hAnswers rfl⟩
  · rw [hMaster]
    cases M <;> simp_all

/-
  A remote without a timer reads all that is in flight to
  it. Either that makes an acknowledgement for the master,
  or the master is where it needs none.
-/
theorem canResync_of_not_wedged
    (hNoEnd : NoEndTest totals c)
    (hMaster : c.master = some M)
    (hRemote : c.remote = some R)
    (hKind : R.kind ≠ .timerBased)
    (hNotWedged : ¬ Wedged totals c) :
    CanResync totals c := by
  rcases exists_drained totals hMaster hRemote
      hNoEnd.toRemote hNoEnd.answers with
    ⟨c', R', wrote, hContinues, hShown, hWrote, hOutcome⟩
  apply canResync_of_leads hContinues hShown
  have hToMaster : View.NoEnd
      (c.toMaster.map Uplink.byte ++ wrote) :=
    List.forall_mem_append.mpr
      ⟨List.forall_mem_map.mpr hNoEnd.toMaster, hWrote⟩
  by_cases hAck :
      remoteAckId ∈ c.toMaster.map Uplink.byte ++ wrote
  · exact View.leads_home_of_ack totals hAck hToMaster
  have hNoAck : ∀ up ∈ c.toMaster,
      up.byte ≠ remoteAckId := fun up hUp hByte =>
    hAck (List.mem_append_left _
      (List.mem_map.mpr ⟨up, hUp, hByte⟩))
  rcases hOutcome with hMem | hTimer | ⟨rfl, hUnmoved⟩
  · exact absurd (List.mem_append_right _ hMem) hAck
  · exact absurd hTimer hKind
  have hAnswers : R' = .remoteThroughputMode →
      ∀ byte ∈ answers totals c, byte ≠ remoteAckId := by
    rintro hThroughput byte hByte rfl
    exact hAck (List.mem_append_right _
      (hUnmoved.answers hThroughput _ hByte))
  have hRun (hRunning : View.Running R') :
      View.Leads totals
        ⟨M, R', [], c.toMaster.map Uplink.byte ++ wrote⟩
        View.home :=
    View.leads_home_of_running_remote totals hRunning
      View.tame_nil hToMaster
      (Or.inr (Or.inr
        (ending_of_not_wedged hMaster hRemote hRunning
          (fun hWedged => hNotWedged (Or.inr hWedged)) hNoAck
          hUnmoved.stays hAnswers)))
  cases R' with
  | remoteIdle =>
      exact View.leads_home_of_idle_remote totals
        View.tame_nil hToMaster
        (Or.inr (Or.inr (Or.inr
          (starting_of_not_wedged hMaster hRemote
            (fun hWedged => hNotWedged (Or.inl hWedged))
            hNoAck hUnmoved.stays))))
  | remoteAvailabilityMode => exact hRun (Or.inl rfl)
  | remoteThroughputMode => exact hRun (Or.inr rfl)
  | availabilityCommandReceived => exact absurd rfl hKind
  | throughputCommandReceived => exact absurd rfl hKind
  | endModeReceived => exact absurd rfl hKind

end Home

/-
  While no process is stopped, the two can resynchronise
  exactly if they are not wedged.
-/
theorem canResync_iff
    (totals : Nat → Word × Word)
    (c : Link)
    (hNoEnd : NoEndTest totals c) :
    CanResync totals c ↔ ¬ Wedged totals c := by
  constructor
  · intro hCan hWedged
    exact not_canResync_of_wedged hWedged hCan
  · intro hNotWedged
    rcases Option.isSome_iff_exists.mp hNoEnd.master with
      ⟨M, hMaster⟩
    rcases Option.isSome_iff_exists.mp hNoEnd.remote with
      ⟨R, hRemote⟩
    by_cases hKind : R.kind = .timerBased
    · exact canResync_of_timerBased hNoEnd hMaster hRemote
        hKind
    · exact canResync_of_not_wedged hNoEnd hMaster hRemote
        hKind hNotWedged

/-
  The same in every configuration of every run, whatever the
  next replies contain.
-/
theorem canResync_throughout
    (totals : Nat → Word × Word)
    (labels : List LinkLabel)
    (hNoEnd : StepSystem.Throughout step (NoEndTest totals)
      start labels) :
    StepSystem.Throughout step
      (fun c => CanResync totals c ↔ ¬ Wedged totals c) start
      labels :=
  StepSystem.throughout_mono (canResync_iff totals) hNoEnd

/-
  At the end the master is idle and a request is in flight
  to the remote, whose reply brings an acknowledgement.
-/
theorem canResync_throughout_request :
    StepSystem.Throughout step
      (fun c =>
        CanResync (fun _ => (0, 244)) c ↔
          ¬ Wedged (fun _ => (0, 244)) c) start
      [.command .throughputModeCommand, .toRemote 0 0,
        .remoteTimeout, .toMaster, .toRemote 0 0,
        .payload endStandardCodes, .command .endModeCommand,
        .loseToRemote 1, .toMaster] :=
  canResync_throughout _ _ (by decide +kernel)

/- Whether it does is not up to the link. -/
example :
    ∃ c,
      StepSystem.run step start
          [.command .throughputModeCommand, .toRemote 0 0,
            .remoteTimeout, .toMaster, .toRemote 0 0,
            .payload endStandardCodes,
            .command .endModeCommand, .loseToRemote 1,
            .toMaster] =
        some c ∧
      Wedged (fun _ => (0, 0)) c ∧
        ¬ Wedged (fun _ => (0, 244)) c :=
  ⟨_, rfl, by decide +kernel, by decide +kernel⟩

/-
  A second `RemoteAck` ends the mode on the master's side
  while the remote, which dropped `EndModeCommand`, starts
  it.
-/
theorem wedged_after_lost_ack :
    ∃ c,
      StepSystem.run step start
          [.command .availabilityModeCommand, .toRemote 0 0,
            .toMaster, .loseToRemote 0,
            .command .endModeCommand, .loseToRemote 0,
            .remoteTimeout, .toMaster, .toRemote 0 0] =
        some c ∧
      ∀ totals, NoEndTest totals c ∧ ¬ CanResync totals c := by
  refine ⟨_, rfl, fun totals => ⟨⟨rfl, rfl, ?_, ?_, ?_⟩, ?_⟩⟩
  · exact fun _ hSent => absurd hSent List.not_mem_nil
  · exact fun _ hSent => absurd hSent List.not_mem_nil
  · exact fun _ hByte => absurd hByte List.not_mem_nil
  · apply not_canResync_of_wedged
    refine Or.inr ⟨Or.inl rfl, Or.inl rfl, ?_, ?_⟩
    · exact fun _ hSent => absurd hSent List.not_mem_nil
    · exact fun _ hSent => absurd hSent List.not_mem_nil

end Link

end ModemTester
