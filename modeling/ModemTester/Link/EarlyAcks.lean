import ModemTester.Link.EndOfMode

/-
  Acknowledgements that come too early end a mode.

  When a mode ends while an acknowledgement from before is
  still to come, the link need only deliver it before it
  delivers `EndModeCommand`: the remote has not processed
  the command of this session, because there was none when
  the mode ended.

  Key definitions include:
    * `Link.Unended`
    * `Link.Dated`
    * `Link.MayFail`

  Main declarations:
    * `Link.dated_of_run`
    * `Link.mayFail_of_disturbed`
-/

------------------------------------------------------------
-- The Sessions Of Commands
------------------------------------------------------------

namespace ModemTester

namespace Link

/-
  The master has sent no `EndModeCommand` in this session:
  the last one processed and those in flight are older.
-/
structure Unended (c : Link) : Prop where
  processed : c.endedSession < c.masterSessions.length
  inFlight : ∀ sent ∈ c.toRemote,
    sent.byte = endModeCommandId →
      sent.session < c.masterSessions.length

/-
  Bytes carry no session to come, and in a mode the session
  is not ended.
-/
structure Dated (c : Link) : Prop where
  processed : c.endedSession ≤ c.masterSessions.length
  inFlight : ∀ sent ∈ c.toRemote,
    sent.session ≤ c.masterSessions.length
  inMode : ∀ state, c.master = some state →
    state.kind = .activity → Unended c

theorem dated_start : Dated start where
  processed := Nat.le_refl _
  inFlight := by simp [start]
  inMode := by
    intro state hState hKind
    cases hState
    cases hKind

section Fewer

variable {c c' : Link}

/- With fewer bytes in flight the rest being the same. -/
theorem unended_of_fewer
    (hUnended : Unended c)
    (hEnded : c'.endedSession = c.endedSession)
    (hSessions : c'.masterSessions = c.masterSessions)
    (hToRemote : ∀ sent ∈ c'.toRemote, sent ∈ c.toRemote) :
    Unended c' := by
  refine ⟨?_, ?_⟩
  · rw [hEnded, hSessions]
    exact hUnended.processed
  · intro sent hSent
    rw [hSessions]
    exact hUnended.inFlight sent (hToRemote sent hSent)

theorem dated_of_fewer
    (hDated : Dated c)
    (hMaster : c'.master = c.master)
    (hEnded : c'.endedSession = c.endedSession)
    (hSessions : c'.masterSessions = c.masterSessions)
    (hToRemote : ∀ sent ∈ c'.toRemote, sent ∈ c.toRemote) :
    Dated c' := by
  refine ⟨?_, ?_, ?_⟩
  · rw [hEnded, hSessions]
    exact hDated.processed
  · intro sent hSent
    rw [hSessions]
    exact hDated.inFlight sent (hToRemote sent hSent)
  · intro state hState hKind
    rw [hMaster] at hState
    exact unended_of_fewer
      (hDated.inMode state hState hKind) hEnded hSessions
      hToRemote

end Fewer

/- A dispatch into a mode comes from it or starts a session. -/
theorem dispatch_of_activity
    {state target : MasterState}
    {event : Event}
    (hAfter : (masterFsm.dispatch state event).2.after state =
      some target)
    (hKind : target.kind = .activity) :
    (∀ byte ∈ (masterFsm.dispatch state event).1,
        byte ≠ endModeCommandId) ∧
      (state.kind = .activity ∨
        0 < (state.started
          (masterFsm.dispatch state event).2).length) := by
  cases state <;> cases event <;> cases hAfter <;>
    first
      | exact ⟨fun _ hByte => absurd hByte List.not_mem_nil,
          Or.inl rfl⟩
      | exact ⟨List.forall_mem_singleton.mpr (by decide),
          Or.inl rfl⟩
      | exact ⟨List.forall_mem_singleton.mpr (by decide),
          Or.inr Nat.one_pos⟩
      | cases hKind

theorem dated_masterDispatch
    {c : Link}
    {state : MasterState}
    (event : Event)
    (hState : c.master = some state)
    (hDated : Dated c) :
    Dated (c.masterDispatch state event) := by
  have hLength :
      (c.masterDispatch state event).masterSessions.length =
        c.masterSessions.length +
          (state.started
            (masterFsm.dispatch state event).2).length :=
    List.length_append
  have hProcessed := hDated.processed
  refine ⟨?_, ?_, ?_⟩
  · change c.endedSession ≤ _
    omega
  · refine List.forall_mem_append.mpr ⟨?_, ?_⟩
    · intro sent hSent
      have hLe := hDated.inFlight sent hSent
      omega
    · intro sent hSent
      rcases List.mem_map.mp hSent with ⟨byte, -, rfl⟩
      exact Nat.le_refl _
  · intro target hTarget hKind
    rcases dispatch_of_activity hTarget hKind with
      ⟨hBytes, hFrom⟩
    have hOld : c.endedSession <
          (c.masterDispatch state event).masterSessions.length ∧
        ∀ sent ∈ c.toRemote, sent.byte = endModeCommandId →
          sent.session < (c.masterDispatch state
            event).masterSessions.length := by
      rcases hFrom with hActivity | hStarted
      · have hUnended := hDated.inMode state hState hActivity
        refine ⟨?_, ?_⟩
        · have hLess := hUnended.processed
          omega
        · intro sent hSent hByte
          have hLess := hUnended.inFlight sent hSent hByte
          omega
      · refine ⟨by omega, ?_⟩
        intro sent hSent _
        have hLe := hDated.inFlight sent hSent
        omega
    refine ⟨hOld.1, ?_⟩
    refine List.forall_mem_append.mpr ⟨hOld.2, ?_⟩
    intro sent hSent hByte
    rcases List.mem_map.mp hSent with ⟨byte, hMem, rfl⟩
    exact absurd hByte (hBytes byte hMem)

/- Only an `EndModeCommand` is recorded as the last one. -/
theorem remoteRead_endedSession
    (c : Link)
    (state : RemoteState)
    (sent : Downlink)
    (r u : Word) :
    (c.remoteRead state sent r u).endedSession =
        c.endedSession ∨
      (sent.byte = endModeCommandId ∧
        (c.remoteRead state sent r u).endedSession =
          sent.session) := by
  unfold remoteRead
  cases hHandling : state.handleByte sent.byte with
  | dispatch event =>
      simp only [remoteDispatch]
      split
      · rename_i hEnds
        right
        refine ⟨?_, rfl⟩
        have hVal := RemoteState.val_of_handleByte hHandling
        rw [hEnds.1] at hVal
        exact Fin.ext (Int.ofNat.inj hVal)
      · exact Or.inl rfl
  | echo => exact Or.inl rfl
  | sendResults => exact Or.inl rfl
  | ignore => exact Or.inl rfl

theorem unended_remoteRead
    {c : Link}
    {sent : Downlink}
    {rest : List Downlink}
    (state : RemoteState)
    (r u : Word)
    (hHead : c.toRemote = sent :: rest)
    (hUnended : Unended c) :
    Unended
      (remoteRead { c with toRemote := rest } state sent r
        u) := by
  have hInFlight := hUnended.inFlight
  rw [hHead] at hInFlight
  refine ⟨?_, ?_⟩
  · rw [remoteRead_masterSessions]
    rcases remoteRead_endedSession { c with toRemote := rest }
        state sent r u with hSame | ⟨hByte, hNew⟩
    · rw [hSame]
      exact hUnended.processed
    · rw [hNew]
      exact hInFlight sent List.mem_cons_self hByte
  · rw [remoteRead_toRemote, remoteRead_masterSessions]
    intro other hOther
    exact hInFlight other (List.mem_cons_of_mem _ hOther)

theorem dated_remoteRead
    {c : Link}
    {sent : Downlink}
    {rest : List Downlink}
    (state : RemoteState)
    (r u : Word)
    (hHead : c.toRemote = sent :: rest)
    (hDated : Dated c) :
    Dated
      (remoteRead { c with toRemote := rest } state sent r
        u) := by
  have hInFlight := hDated.inFlight
  rw [hHead] at hInFlight
  refine ⟨?_, ?_, ?_⟩
  · rw [remoteRead_masterSessions]
    rcases remoteRead_endedSession { c with toRemote := rest }
        state sent r u with hSame | ⟨-, hNew⟩
    · rw [hSame]
      exact hDated.processed
    · rw [hNew]
      exact hInFlight sent List.mem_cons_self
  · rw [remoteRead_toRemote, remoteRead_masterSessions]
    intro other hOther
    exact hInFlight other (List.mem_cons_of_mem _ hOther)
  · intro master hMaster hKind
    rw [remoteRead_master] at hMaster
    exact unended_remoteRead state r u hHead
      (hDated.inMode master hMaster hKind)

theorem dated_step
    (c : Link)
    (label : LinkLabel)
    (c' : Link)
    (hDated : Dated c)
    (hStep : step c label = some c') :
    Dated c' := by
  cases moves_of_step hStep with
  | command hState hCommand =>
      exact dated_masterDispatch _ hState hDated
  | masterTimeout hState hKind =>
      exact dated_masterDispatch _ hState hDated
  | remoteTimeout hState hKind =>
      exact dated_of_fewer hDated rfl rfl rfl fun _ h => h
  | @payload state byte hState hKind hStandard =>
      have hUnended := hDated.inMode state hState hKind
      refine ⟨hDated.processed, ?_, ?_⟩
      · refine List.forall_mem_append.mpr
          ⟨hDated.inFlight, ?_⟩
        intro sent hSent
        rw [List.mem_singleton.mp hSent]
      · intro master hMaster hActivity
        refine ⟨hUnended.processed, ?_⟩
        refine List.forall_mem_append.mpr
          ⟨hUnended.inFlight, ?_⟩
        intro sent hSent hByte
        rw [List.mem_singleton.mp hSent] at hByte
        have hEnd : byte = endModeCommandId := hByte
        rw [hEnd] at hStandard
        exact absurd hStandard (by decide)
  | toRemote hState hHead =>
      exact dated_remoteRead _ _ _ hHead hDated
  | @toMaster state sent rest hState hHead =>
      have hRest : Dated { c with toMaster := rest } :=
        dated_of_fewer hDated rfl rfl rfl fun _ h => h
      unfold masterRead
      split
      · exact dated_masterDispatch _ hState hRest
      · exact hRest
  | loseToRemote hIndex =>
      exact dated_of_fewer hDated rfl rfl rfl
        fun _ => List.mem_of_mem_eraseIdx
  | loseToMaster hIndex =>
      exact dated_of_fewer hDated rfl rfl rfl fun _ h => h

theorem dated_of_run
    {labels : List LinkLabel}
    {c : Link}
    (hRun : StepSystem.run step start labels = some c) :
    Dated c :=
  StepSystem.run_invariant dated_step dated_start hRun

------------------------------------------------------------
-- Reading An Early Acknowledgement
------------------------------------------------------------

/- In some continuation the end of a mode is not real. -/
def MayFail (c : Link) : Prop :=
  ∃ labels, ¬ StepSystem.Along step EndReal c labels

theorem mayFail_of_run
    {c c' : Link}
    {labels : List LinkLabel}
    (hRun : StepSystem.run step c labels = some c')
    (hMayFail : MayFail c') :
    MayFail c := by
  rcases hMayFail with ⟨labels', hFails⟩
  refine ⟨labels ++ labels', ?_⟩
  intro hAlong
  exact hFails ((StepSystem.along_append hRun).mp hAlong).2

theorem mayFail_of_step
    {c c' : Link}
    {label : LinkLabel}
    (hStep : step c label = some c')
    (hMayFail : MayFail c') :
    MayFail c := by
  have hRun : StepSystem.run step c [label] = some c' := by
    rw [StepSystem.run_cons_of_step hStep]
    rfl
  exact mayFail_of_run hRun hMayFail

/- The session's command has not taken the remote home. -/
def Elsewhere (c : Link) : Prop :=
  c.remote = some .remoteThroughputMode ∨
    c.endedSession < c.masterSessions.length

/-
  The link loses what comes before the acknowledgement, and
  the waiting master takes it.
-/
theorem mayFail_of_ack
    {c : Link}
    (hMaster : c.master = some .waitAckAfterEndMode)
    (hElsewhere : Elsewhere c)
    (hAck : ∃ up ∈ c.toMaster, up.byte = remoteAckId) :
    MayFail c := by
  induction hQueue : c.toMaster generalizing c with
  | nil =>
      rw [hQueue] at hAck
      rcases hAck with ⟨up, hUp, -⟩
      cases hUp
  | cons up rest ih =>
      by_cases hByte : up.byte = remoteAckId
      · have hHead : c.masterHead = some remoteAckId := by
          rw [masterHead, hQueue, ← hByte]
          rfl
        refine ⟨[.toMaster], ?_⟩
        rw [StepSystem.along_cons_of_step
          (step_toMaster hMaster hQueue)]
        rintro ⟨hReal, -⟩
        rcases hReal rfl hMaster hHead with ⟨hRemote, hEnded⟩
        rcases hElsewhere with hThroughput | hLess
        · rw [hThroughput] at hRemote
          rcases hRemote with hEnd | hIdle
          · cases hEnd
          · cases hIdle
        · rw [hEnded] at hLess
          exact Nat.lt_irrefl _ hLess
      · have hLose : step c (.loseToMaster 0) =
            some { c with toMaster := rest } := by
          simp [step, hQueue]
        apply mayFail_of_step hLose
        refine ih (c := { c with toMaster := rest }) hMaster
          hElsewhere ?_ rfl
        rw [hQueue] at hAck
        rcases hAck with ⟨other, hOther, hIs⟩
        rcases List.mem_cons.mp hOther with rfl | hMore
        · exact absurd hIs hByte
        · exact ⟨other, hMore, hIs⟩

/- The timer of such a state repeats the acknowledgement. -/
theorem exists_of_sendsAck
    {remote : Option RemoteState}
    (hSendsAck : SendsAck remote) :
    ∃ state, remote = some state ∧
      state.kind = .timerBased ∧
        remoteAckId ∈ (remoteFsm.dispatch state .timeout).1 := by
  rcases hSendsAck with rfl | rfl | rfl <;>
    exact ⟨_, rfl, rfl, List.mem_singleton_self _⟩

theorem mayFail_of_sendsAck
    {c : Link}
    (hMaster : c.master = some .waitAckAfterEndMode)
    (hLess : c.endedSession < c.masterSessions.length)
    (hSendsAck : SendsAck c.remote) :
    MayFail c := by
  rcases exists_of_sendsAck hSendsAck with
    ⟨state, hState, hKind, hMem⟩
  apply mayFail_of_step
    (step_of_moves (.remoteTimeout hState hKind))
  refine mayFail_of_ack (c := c.remoteDispatch state .timeout 0)
    hMaster (Or.inr hLess) ⟨⟨remoteAckId, .fsm⟩, ?_, rfl⟩
  exact List.mem_append_right _ (List.mem_map_of_mem hMem)

/- Deliveries and losses towards the remote. -/
theorem unended_downlink
    (c : Link)
    (label : LinkLabel)
    (c' : Link)
    (hUnended : Unended c)
    (hLabel : IsDownlinkLabel label)
    (hStep : step c label = some c') :
    Unended c' := by
  cases moves_of_step hStep with
  | toRemote hState hHead =>
      exact unended_remoteRead _ _ _ hHead hUnended
  | loseToRemote hIndex =>
      exact unended_of_fewer hUnended rfl rfl
        fun _ => List.mem_of_mem_eraseIdx
  | command _ _ | masterTimeout _ _ | remoteTimeout _ _
  | payload _ _ _ | toMaster _ _ | loseToMaster _ =>
      exact hLabel.elim

/-
  Bytes in flight that take the remote to such a state, the
  session's command lost.
-/
theorem mayFail_of_not_avoids
    {c : Link}
    (hMaster : c.master = some .waitAckAfterEndMode)
    (hUnended : Unended c)
    (hAvoids : ¬ LossyChannel.Avoids remoteAfter SendsAck
      c.remote c.toRemote) :
    MayFail c := by
  rcases LossyChannel.exists_of_not_avoids hAvoids with
    ⟨kept, hKept, hSendsAck⟩
  rcases exists_of_sendsAck hSendsAck with ⟨state, hFold, -⟩
  rw [hFold] at hSendsAck
  rcases exists_run_keeping hKept (List.append_nil _).symm
      hFold with
    ⟨labels, c', hRun, hLabels, hMaster', hRemote', -⟩
  have hUnended' : Unended c' :=
    StepSystem.run_invariant_along unended_downlink hUnended
      (StepSystem.along_of_forall hLabels) hRun
  apply mayFail_of_run hRun
  apply mayFail_of_sendsAck (hMaster'.trans hMaster)
    hUnended'.processed
  rw [hRemote']
  exact hSendsAck

------------------------------------------------------------
-- The Condition Is Exact
------------------------------------------------------------

/- The mode is ended, with these bytes still to be read. -/
def ending (c : Link) (toMaster : List Uplink) : Link :=
  { c with
    master := some .waitAckAfterEndMode
    toRemote := c.toRemote ++
      [⟨endModeCommandId, c.masterSessions.length⟩]
    toMaster := toMaster }

theorem masterDispatch_endMode
    {state : MasterState}
    (c : Link)
    (hMode : state = .availabilityMode ∨
      state = .throughputMode) :
    c.masterDispatch state .endModeCommand =
      c.ending c.toMaster := by
  rcases hMode with rfl | rfl <;>
    simp [masterDispatch, ending, masterFsm, Fsm.dispatch,
      MasterState.react, MasterState.entrySends,
      MasterState.started, Reaction.transitTo, Outcome.after]

theorem exists_state_of_endsMode
    {c : Link}
    {label : LinkLabel}
    (hEnds : EndsMode c label) :
    ∃ state, c.master = some state ∧
      (state = .availabilityMode ∨
        state = .throughputMode) := by
  rcases hEnds.1 with hState | hState
  · exact ⟨_, hState, Or.inl rfl⟩
  · exact ⟨_, hState, Or.inr rfl⟩

/- Ending a mode leaves the acknowledgements in flight. -/
theorem exists_ending
    {c c' : Link}
    {label : LinkLabel}
    (hEnds : EndsMode c label)
    (hStep : step c label = some c') :
    ∃ toMaster, c' = c.ending toMaster ∧
      ∀ up ∈ c.toMaster, up.byte = remoteAckId →
        up ∈ toMaster := by
  rcases exists_state_of_endsMode hEnds with
    ⟨state, hState, hMode⟩
  rcases hEnds.2 with rfl | ⟨rfl, hHead⟩
  · cases moves_of_step hStep with
    | command hState' hCommand =>
        rw [hState, Option.some.injEq] at hState'
        subst hState'
        exact ⟨c.toMaster, masterDispatch_endMode c hMode,
          fun _ h _ => h⟩
  · cases moves_of_step hStep with
    | @toMaster state' up rest hState' hQueue =>
        rw [hState, Option.some.injEq] at hState'
        subst hState'
        have hByte : up.byte = endModeCommandId := by
          rw [masterHead, hQueue] at hHead
          exact Option.some.inj hHead
        have hRead : state.readByte up.byte =
            some .endModeCommand := by
          rw [hByte]
          rcases hMode with rfl | rfl <;> rfl
        refine ⟨rest, ?_, ?_⟩
        · simp only [masterRead, hRead]
          exact masterDispatch_endMode _ hMode
        · intro other hOther hAck
          rw [hQueue] at hOther
          rcases List.mem_cons.mp hOther with rfl | hMore
          · rw [hByte] at hAck
            exact absurd hAck (by decide)
          · exact hMore

/- A result that contains the acknowledgement. -/
theorem mayFail_of_repliesAck
    {c c' : Link}
    {label : LinkLabel}
    (hMaster : c.master = some .waitAckAfterEndMode)
    (hReplies : RepliesAck c label)
    (hStep : step c label = some c') :
    MayFail c' := by
  cases moves_of_step hStep with
  | @toRemote state sent rest r u hState hHead =>
      rcases hReplies with ⟨hThroughput, hRequest, hMem⟩
      rw [hThroughput, Option.some.injEq] at hState
      subst hState
      have hByte : sent.byte = endStandardCodes := by
        rw [remoteHead, hHead] at hRequest
        exact Option.some.inj hRequest
      have hReply : remoteRead { c with toRemote := rest }
          .remoteThroughputMode sent r u =
            sendResults { c with toRemote := rest } r u := by
        rw [remoteRead, hByte]
        rfl
      rw [hReply]
      rw [← map_byte_replyBytes c.replies.length] at hMem
      rcases List.mem_map.mp hMem with ⟨up, hUp, hAck⟩
      refine mayFail_of_ack
        (c := sendResults { c with toRemote := rest } r u)
        hMaster (Or.inl hThroughput) ⟨up, ?_, hAck⟩
      exact List.mem_append_right _ hUp
  | command _ _ | masterTimeout _ _ | remoteTimeout _ _
  | payload _ _ _ | toMaster _ _ | loseToRemote _
  | loseToMaster _ => exact hReplies.elim

/-
  After a step that breaks the condition losses, deliveries
  and timers can make the master take an acknowledgement
  from before, or a byte of a result, for the end of the
  mode.
-/
theorem mayFail_of_disturbed
    {labels : List LinkLabel}
    {label : LinkLabel}
    {c c' : Link}
    (hRun : StepSystem.run step start labels = some c)
    (hStep : step c label = some c')
    (hDisturbed : ¬ c.Undisturbed label) :
    MayFail c' := by
  unfold Undisturbed at hDisturbed
  rcases not_and_or.mp hDisturbed with hEnds | hReplies
  · rcases Classical.not_imp.mp hEnds with ⟨hEnds, hEarly⟩
    rcases exists_state_of_endsMode hEnds with
      ⟨state, hState, hMode⟩
    have hUnended : Unended c := by
      apply (dated_of_run hRun).inMode state hState
      rcases hMode with rfl | rfl <;> rfl
    rcases exists_ending hEnds hStep with
      ⟨toMaster, rfl, hKept⟩
    rcases not_and_or.mp hEarly with hAck | hAvoids
    · push Not at hAck
      rcases hAck with ⟨up, hUp, hByte⟩
      exact mayFail_of_ack (c := c.ending toMaster) rfl
        (Or.inr hUnended.processed)
        ⟨up, hKept up hUp hByte, hByte⟩
    · -- The command itself is lost.
      have hLose : step (c.ending toMaster)
          (.loseToRemote c.toRemote.length) =
            some { c.ending toMaster with
              toRemote := c.toRemote } := by
        simp [step, ending, List.eraseIdx_append]
      apply mayFail_of_step hLose
      refine mayFail_of_not_avoids (c := { c.ending toMaster with
        toRemote := c.toRemote }) rfl ?_ hAvoids
      exact ⟨hUnended.processed, hUnended.inFlight⟩
  · rcases Classical.not_imp.mp hReplies with ⟨hMaster, hNot⟩
    exact mayFail_of_repliesAck hMaster (not_not.mp hNot) hStep

end Link

end ModemTester
