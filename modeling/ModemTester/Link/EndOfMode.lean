import ModemTester.Link.ModeAgreement

/-
  The handshake that ends a mode.

  Having ended a mode the master waits for a `RemoteAck`. It
  is the answer to its `EndModeCommand` as long as no other
  acknowledgement can come before: none is in flight when
  the mode ends, the remote gets into no state that sends
  one on the bytes then in flight to it, and no result that
  it still replies contains that byte.

  Key definitions include:
    * `Link.EndReal`
    * `Link.Undisturbed`
    * `Link.Waits`

  Main declarations:
    * `Link.endReal_of_undisturbed`
    * `Link.endReal_fails_on_repeated_ack`
-/

------------------------------------------------------------
-- The Property And The Condition
------------------------------------------------------------

namespace ModemTester

namespace Link

/-
  When the master reads the awaited acknowledgement, the
  remote has processed the `EndModeCommand` of the session
  and is in `EndModeReceived` or `RemoteIdle`.
-/
def EndReal (c : Link) (label : LinkLabel) : Prop :=
  label = .toMaster →
    c.master = some .waitAckAfterEndMode →
      c.masterHead = some remoteAckId →
        (c.remote = some .endModeReceived ∨
            c.remote = some .remoteIdle) ∧
          c.endedSession = c.masterSessions.length

/- The states whose entry and timer send `RemoteAck`. -/
def SendsAck (remote : Option RemoteState) : Prop :=
  remote = some .availabilityCommandReceived ∨
    remote = some .throughputCommandReceived ∨
      remote = some .endModeReceived

instance : DecidablePred SendsAck := fun remote => by
  unfold SendsAck
  infer_instance

/- The step makes the master end its mode. -/
def EndsMode (c : Link) (label : LinkLabel) : Prop :=
  (c.master = some .availabilityMode ∨
      c.master = some .throughputMode) ∧
    (label = .command .endModeCommand ∨
      (label = .toMaster ∧
        c.masterHead = some endModeCommandId))

/- The step replies a result that contains `RemoteAck`. -/
def RepliesAck (c : Link) : LinkLabel → Prop
  | .toRemote totalReceived totalUsec =>
      c.remote = some .remoteThroughputMode ∧
        c.remoteHead = some endStandardCodes ∧
          remoteAckId ∈ resultBytes totalReceived totalUsec
  | _ => False

/-
  A mode ends with no acknowledgement on its way and with a
  remote that sends none for what is in flight to it; while
  the master waits, no result looks like one.
-/
def Undisturbed (c : Link) (label : LinkLabel) : Prop :=
  (EndsMode c label →
      (∀ sent ∈ c.toMaster, sent.byte ≠ remoteAckId) ∧
        LossyChannel.Avoids remoteAfter SendsAck
          c.remote c.toRemote) ∧
    (c.master = some .waitAckAfterEndMode →
      ¬ RepliesAck c label)

instance (c : Link) (label : LinkLabel) :
    Decidable (c.EndReal label) := by
  unfold EndReal
  infer_instance

instance (c : Link) (label : LinkLabel) :
    Decidable (c.EndsMode label) := by
  unfold EndsMode
  infer_instance

instance (c : Link) (label : LinkLabel) :
    Decidable (c.RepliesAck label) :=
  match label with
  | .toRemote _ _ =>
      inferInstanceAs (Decidable (_ = _ ∧ _ = _ ∧ _ ∈ _))
  | .command _ | .masterTimeout | .remoteTimeout
  | .payload _ | .toMaster | .loseToRemote _
  | .loseToMaster _ => .isFalse id

instance (c : Link) (label : LinkLabel) :
    Decidable (c.Undisturbed label) := by
  unfold Undisturbed
  infer_instance

------------------------------------------------------------
-- The Invariant
------------------------------------------------------------

/- The bytes are repetitions of this session's command. -/
def OnlyEndCommands (c : Link) (toRemote : List Downlink) :
    Prop :=
  ∀ sent ∈ toRemote,
    sent = ⟨endModeCommandId, c.masterSessions.length⟩

/- The remote has not processed the command yet. -/
def Pending (c : Link) : Prop :=
  (∀ sent ∈ c.toMaster, sent.byte ≠ remoteAckId) ∧
    ∃ old new, c.toRemote = old ++ new ∧
      LossyChannel.Avoids remoteAfter SendsAck c.remote old ∧
        OnlyEndCommands c new

/- The remote has processed the command of this session. -/
def Ended (c : Link) : Prop :=
  c.remote = some .endModeReceived ∧
    c.endedSession = c.masterSessions.length ∧
      OnlyEndCommands c c.toRemote

/- What holds while the master waits. -/
def Waits (c : Link) : Prop :=
  c.master = some .waitAckAfterEndMode →
    Pending c ∨ Ended c

/- Only the end of a mode starts the wait. -/
theorem source_of_waitAck
    {state : MasterState}
    {event : Event}
    (hAfter : (masterFsm.dispatch state event).2.after state =
      some .waitAckAfterEndMode) :
    ((state = .availabilityMode ∨ state = .throughputMode) ∧
        event = .endModeCommand) ∨
      state = .waitAckAfterEndMode := by
  cases state <;> cases event <;>
    first
      | exact Or.inr rfl
      | exact Or.inl ⟨Or.inl rfl, rfl⟩
      | exact Or.inl ⟨Or.inr rfl, rfl⟩
      | cases hAfter

/- Waiting and starting to wait write only the command. -/
theorem sent_of_waitAck
    {state : MasterState}
    {event : Event}
    (hAfter : (masterFsm.dispatch state event).2.after state =
      some .waitAckAfterEndMode) :
    (∀ byte ∈ (masterFsm.dispatch state event).1,
        byte = endModeCommandId) ∧
      state.started (masterFsm.dispatch state event).2 =
        [] := by
  cases state <;> cases event <;>
    first
      | exact ⟨fun _ hByte => List.mem_singleton.mp hByte, rfl⟩
      | exact ⟨fun _ hByte => absurd hByte List.not_mem_nil,
          rfl⟩
      | cases hAfter

theorem waits_masterDispatch
    {c : Link}
    {state : MasterState}
    {event : Event}
    (hWaits : state = .waitAckAfterEndMode →
      Pending c ∨ Ended c)
    (hEnds : (state = .availabilityMode ∨
        state = .throughputMode) → event = .endModeCommand →
      (∀ sent ∈ c.toMaster, sent.byte ≠ remoteAckId) ∧
        LossyChannel.Avoids remoteAfter SendsAck
          c.remote c.toRemote) :
    Waits (c.masterDispatch state event) := by
  intro hAfter
  rcases sent_of_waitAck hAfter with ⟨hSent, hStarted⟩
  have hSessions :
      (c.masterDispatch state event).masterSessions =
        c.masterSessions := by
    simp [masterDispatch, hStarted]
  have hOld : ∀ toRemote, OnlyEndCommands c toRemote →
      OnlyEndCommands (c.masterDispatch state event)
        toRemote := by
    intro toRemote hOnly sent hMem
    rw [hOnly sent hMem, hSessions]
  have hNew : ∃ more,
      (c.masterDispatch state event).toRemote =
          c.toRemote ++ more ∧
        OnlyEndCommands (c.masterDispatch state event)
          more := by
    refine ⟨_, rfl, ?_⟩
    intro sent hMem
    rcases List.mem_map.mp hMem with ⟨byte, hByte, rfl⟩
    rw [hSent byte hByte]
    rfl
  rcases hNew with ⟨more, hMore, hOnlyMore⟩
  rcases source_of_waitAck hAfter with
    ⟨hState, hEvent⟩ | hState
  · rcases hEnds hState hEvent with ⟨hNoAck, hAvoids⟩
    exact Or.inl ⟨hNoAck, _, more, hMore, hAvoids, hOnlyMore⟩
  · rcases hWaits hState with
      ⟨hNoAck, old, new, hSplit, hAvoids, hOnly⟩ |
        ⟨hRemote, hEnded, hOnly⟩
    · refine Or.inl ⟨hNoAck, old, new ++ more, ?_, hAvoids, ?_⟩
      · rw [hMore, hSplit, List.append_assoc]
      · exact List.forall_mem_append.mpr
          ⟨hOld new hOnly, hOnlyMore⟩
    · refine Or.inr ⟨hRemote, ?_, ?_⟩
      · rw [hSessions]
        exact hEnded
      · rw [hMore]
        exact List.forall_mem_append.mpr
          ⟨hOld _ hOnly, hOnlyMore⟩

------------------------------------------------------------
-- What The Remote Writes While It Sends No Acknowledgement
------------------------------------------------------------

/- Who dispatches an event on which `RemoteAck` is written. -/
theorem sendsAck_of_mem_sent
    {state : RemoteState}
    {event : Event}
    (hMem : remoteAckId ∈ (remoteFsm.dispatch state event).1) :
    SendsAck
      ((remoteFsm.dispatch state event).2.after state) := by
  cases state <;> cases event <;>
    first
      | exact Or.inl rfl
      | exact Or.inr (Or.inl rfl)
      | exact Or.inr (Or.inr rfl)
      | exact absurd hMem (by decide)

/-
  A remote that does not get into a state that sends
  acknowledgements writes none.
-/
theorem remoteRead_noAck
    {c : Link}
    {state : RemoteState}
    {sent : Downlink}
    {r u : Word}
    (hAfter : ¬ SendsAck (remoteAfter (some state) sent))
    (hNoReply : state = .remoteThroughputMode →
      sent.byte = endStandardCodes →
        remoteAckId ∉ resultBytes r u)
    (hNoAck : ∀ up ∈ c.toMaster, up.byte ≠ remoteAckId) :
    ∀ up ∈ (c.remoteRead state sent r u).toMaster,
      up.byte ≠ remoteAckId := by
  rw [remoteAfter_some] at hAfter
  unfold remoteRead
  unfold readOutcome at hAfter
  cases hHandling : state.handleByte sent.byte with
  | dispatch event =>
      rw [hHandling] at hAfter
      refine List.forall_mem_append.mpr ⟨hNoAck, ?_⟩
      intro up hUp hAck
      rcases List.mem_map.mp hUp with ⟨byte, hByte, rfl⟩
      exact hAfter (sendsAck_of_mem_sent (hAck ▸ hByte))
  | echo =>
      refine List.forall_mem_append.mpr ⟨hNoAck, ?_⟩
      intro up hUp hAck
      rw [List.mem_singleton.mp hUp] at hAck
      have hStandard := handleByte_eq_echo hHandling
      rw [show sent.byte = remoteAckId from hAck] at hStandard
      exact absurd hStandard (by decide)
  | sendResults =>
      rcases handleByte_eq_sendResults hHandling with
        ⟨hState, hByte⟩
      refine List.forall_mem_append.mpr ⟨hNoAck, ?_⟩
      intro up hUp hAck
      apply hNoReply hState hByte
      rw [← hAck]
      rw [← map_byte_replyBytes c.replies.length]
      exact List.mem_map_of_mem hUp
  | ignore => exact hNoAck

------------------------------------------------------------
-- Waiting Along A Run
------------------------------------------------------------

theorem waits_start : Waits start := by
  intro hMaster
  cases hMaster

/- The session's command ends the mode or finds no mode. -/
theorem waits_endModeCommand
    {c : Link}
    {state : RemoteState}
    {rest : List Downlink}
    {r u : Word}
    (hQuiet : ¬ SendsAck (some state))
    (hNoAck : ∀ up ∈ c.toMaster, up.byte ≠ remoteAckId)
    (hToRemote : c.toRemote = rest)
    (hOnly : OnlyEndCommands c rest) :
    Pending (c.remoteRead state
        ⟨endModeCommandId, c.masterSessions.length⟩ r u) ∨
      Ended (c.remoteRead state
        ⟨endModeCommandId, c.masterSessions.length⟩ r u) := by
  subst hToRemote
  cases state with
  | remoteIdle =>
      refine Or.inl ⟨?_, [], _, rfl, ?_, hOnly⟩
      · refine remoteRead_noAck ?_ ?_ hNoAck
        · exact hQuiet
        · intro hThroughput
          cases hThroughput
      · exact LossyChannel.avoids_nil hQuiet
  | remoteAvailabilityMode | remoteThroughputMode =>
      exact Or.inr ⟨rfl, rfl, hOnly⟩
  | availabilityCommandReceived =>
      exact absurd (Or.inl rfl) hQuiet
  | throughputCommandReceived =>
      exact absurd (Or.inr (Or.inl rfl)) hQuiet
  | endModeReceived =>
      exact absurd (Or.inr (Or.inr rfl)) hQuiet

theorem waits_remoteRead
    {c : Link}
    {state : RemoteState}
    {sent : Downlink}
    {rest : List Downlink}
    {r u : Word}
    (hState : c.remote = some state)
    (hHead : c.toRemote = sent :: rest)
    (hNoReply : c.master = some .waitAckAfterEndMode →
      ¬ RepliesAck c (.toRemote r u))
    (hWaits : Waits c) :
    Waits
      (remoteRead { c with toRemote := rest } state sent
        r u) := by
  intro hMaster
  rw [remoteRead_master] at hMaster
  have hRemote := remoteRead_remote
    (c := { c with toRemote := rest }) sent r u hState
  have hNoReply' : state = .remoteThroughputMode →
      sent.byte = endStandardCodes →
        remoteAckId ∉ resultBytes r u := by
    intro hThroughput hByte hMem
    refine hNoReply hMaster ⟨hThroughput ▸ hState, ?_, hMem⟩
    rw [remoteHead, hHead, ← hByte]
    rfl
  rcases hWaits hMaster with
    ⟨hNoAck, old, new, hSplit, hAvoids, hOnly⟩ |
      ⟨hEnd, hEnded, hOnly⟩
  · rw [hHead] at hSplit
    rw [hState] at hAvoids
    cases old with
    | nil =>
        rw [List.nil_append] at hSplit
        subst hSplit
        rw [hOnly sent List.mem_cons_self]
        exact waits_endModeCommand
          (c := { c with toRemote := rest })
          (LossyChannel.not_bad_of_avoids hAvoids) hNoAck rfl
          fun other hOther =>
            hOnly other (List.mem_cons_of_mem _ hOther)
    | cons first old =>
        rw [List.cons_append, List.cons.injEq] at hSplit
        rcases hSplit with ⟨rfl, rfl⟩
        have hAfter := LossyChannel.avoids_of_cons hAvoids
        refine Or.inl ⟨?_, old, new, ?_, ?_, ?_⟩
        · exact remoteRead_noAck
            (LossyChannel.not_bad_of_avoids hAfter)
            hNoReply' hNoAck
        · exact remoteRead_toRemote _ _ _ _ _
        · rw [hRemote]
          exact hAfter
        · intro other hOther
          rw [remoteRead_masterSessions]
          exact hOnly other hOther
  · rw [hHead] at hOnly
    have hSent := hOnly sent List.mem_cons_self
    rw [hState, Option.some.injEq] at hEnd
    subst hEnd hSent
    exact Or.inr ⟨rfl, rfl, fun other hOther =>
      hOnly other (List.mem_cons_of_mem _ hOther)⟩

/- Losses leave the wait as it is. -/
theorem waits_of_sublist
    {c c' : Link}
    (hWaits : Waits c)
    (hMaster : c'.master = c.master)
    (hRemote : c'.remote = c.remote)
    (hSessions : c'.masterSessions = c.masterSessions)
    (hEnded : c'.endedSession = c.endedSession)
    (hToRemote : c'.toRemote.Sublist c.toRemote)
    (hToMaster : c'.toMaster.Sublist c.toMaster) :
    Waits c' := by
  intro hWaiting
  rw [hMaster] at hWaiting
  have hOld : ∀ toRemote, OnlyEndCommands c toRemote →
      OnlyEndCommands c' toRemote := by
    intro toRemote hOnly sent hMem
    rw [hOnly sent hMem, hSessions]
  rcases hWaits hWaiting with
    ⟨hNoAck, old, new, hSplit, hAvoids, hOnly⟩ |
      ⟨hEnd, hProcessed, hOnly⟩
  · rw [hSplit] at hToRemote
    rcases List.sublist_append_iff.mp hToRemote with
      ⟨old', new', hSplit', hOld', hNew'⟩
    refine Or.inl ⟨?_, old', new', hSplit', ?_, ?_⟩
    · intro sent hMem
      exact hNoAck sent (hToMaster.subset hMem)
    · rw [hRemote]
      exact LossyChannel.avoids_of_sublist hOld' hAvoids
    · apply hOld
      intro sent hMem
      exact hOnly sent (hNew'.subset hMem)
  · refine Or.inr ⟨hRemote.trans hEnd, ?_, ?_⟩
    · rw [hEnded, hSessions]
      exact hProcessed
    · apply hOld
      intro sent hMem
      exact hOnly sent (hToRemote.subset hMem)

theorem sendsAck_of_timerBased
    {state : RemoteState}
    (hKind : state.kind = .timerBased) :
    SendsAck (some state) := by
  cases state <;>
    first
      | exact Or.inl rfl
      | exact Or.inr (Or.inl rfl)
      | exact Or.inr (Or.inr rfl)
      | cases hKind

theorem waits_step
    (c : Link)
    (label : LinkLabel)
    (c' : Link)
    (hWaits : Waits c)
    (hUndisturbed : c.Undisturbed label)
    (hStep : step c label = some c') :
    Waits c' := by
  cases moves_of_step hStep with
  | command hState hCommand =>
      apply waits_masterDispatch
      · intro hSame
        exact hWaits (hSame ▸ hState)
      · rintro hMode rfl
        apply hUndisturbed.1
        refine ⟨?_, Or.inl rfl⟩
        rcases hMode with rfl | rfl
        · exact Or.inl hState
        · exact Or.inr hState
  | masterTimeout hState hKind =>
      apply waits_masterDispatch
      · intro hSame
        exact hWaits (hSame ▸ hState)
      · intro hMode hEvent
        cases hEvent
  | @remoteTimeout state hState hKind =>
      intro hMaster
      rcases hWaits hMaster with
        ⟨hNoAck, old, new, hSplit, hAvoids, hOnly⟩ |
          ⟨hEnd, hEnded, hOnly⟩
      · have hQuiet := LossyChannel.not_bad_of_avoids hAvoids
        rw [hState] at hQuiet
        exact absurd (sendsAck_of_timerBased hKind) hQuiet
      · rw [hState, Option.some.injEq] at hEnd
        subst hEnd
        exact Or.inr ⟨rfl, hEnded, hOnly⟩
  | payload hState hKind hStandard =>
      intro hMaster
      rw [hState] at hMaster
      cases hMaster
      cases hKind
  | toRemote hState hHead =>
      exact waits_remoteRead hState hHead hUndisturbed.2 hWaits
  | @toMaster state sent rest hState hHead =>
      have hRest : rest.Sublist c.toMaster := by
        rw [hHead]
        exact List.sublist_cons_self sent rest
      have hWaits' : Waits { c with toMaster := rest } :=
        waits_of_sublist hWaits rfl rfl rfl rfl
          (List.Sublist.refl _) hRest
      unfold masterRead
      split
      · rename_i event hRead
        apply waits_masterDispatch
        · intro hSame
          exact hWaits' (hSame ▸ hState)
        · rintro hMode rfl
          have hByte : sent.byte = endModeCommandId :=
            Fin.ext (Int.ofNat.inj
              (MasterState.val_of_readByte hRead))
          have hEnds : EndsMode c .toMaster := by
            refine ⟨?_, Or.inr ⟨rfl, ?_⟩⟩
            · rcases hMode with rfl | rfl
              · exact Or.inl hState
              · exact Or.inr hState
            · rw [masterHead, hHead, ← hByte]
              rfl
          rcases hUndisturbed.1 hEnds with ⟨hNoAck, hAvoids⟩
          refine ⟨?_, hAvoids⟩
          intro up hUp
          exact hNoAck up (hRest.subset hUp)
      · exact hWaits'
  | loseToRemote hIndex =>
      exact waits_of_sublist hWaits rfl rfl rfl rfl
        (List.eraseIdx_sublist _ _) (List.Sublist.refl _)
  | loseToMaster hIndex =>
      exact waits_of_sublist hWaits rfl rfl rfl rfl
        (List.Sublist.refl _) (List.eraseIdx_sublist _ _)

theorem endReal_of_waits
    {c : Link}
    (label : LinkLabel)
    (hWaits : Waits c) :
    c.EndReal label := by
  rintro rfl hMaster hHead
  rcases hWaits hMaster with
    ⟨hNoAck, -⟩ | ⟨hEnd, hEnded, -⟩
  · rcases Option.map_eq_some_iff.mp hHead with
      ⟨sent, hSent, hByte⟩
    exact absurd hByte
      (hNoAck sent (List.mem_of_mem_head? hSent))
  · exact ⟨Or.inl hEnd, hEnded⟩

/-
  In a run in which no mode is ended with an acknowledgement
  still to come from before, the master never takes anything
  but the answer to its `EndModeCommand` for that answer.
-/
theorem endReal_of_undisturbed
    (labels : List LinkLabel)
    (hUndisturbed :
      StepSystem.Along step Undisturbed start labels) :
    StepSystem.Along step EndReal start labels := by
  apply StepSystem.along_of_along (I := Waits)
    waits_step _ waits_start hUndisturbed
  intro c label c' hWaits hOk hStep
  exact endReal_of_waits label hWaits

/- One session whose `EndModeCommand` is lost once. -/
def repeatedEndLabels : List LinkLabel :=
  [.command .throughputModeCommand, .toRemote 0 0, .toMaster,
    .toRemote 0 0, .command .endModeCommand, .loseToRemote 0,
    .masterTimeout, .toRemote 0 0, .remoteTimeout, .toMaster,
    .toRemote 0 0]

theorem endReal_with_repeated_end :
    StepSystem.Along step EndReal start repeatedEndLabels :=
  endReal_of_undisturbed repeatedEndLabels (by decide)

/-
  A second acknowledgement of the mode command is taken for
  the end of the mode while the remote is still waiting to
  start it.
-/
theorem endReal_fails_on_repeated_ack :
    ¬ StepSystem.Along step EndReal start
      [.command .availabilityModeCommand, .toRemote 0 0,
        .remoteTimeout, .toMaster, .command .endModeCommand,
        .toMaster] := by
  decide

end Link

end ModemTester
