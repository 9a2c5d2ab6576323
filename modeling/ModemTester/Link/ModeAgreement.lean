import ModemTester.Library.LossyChannel
import ModemTester.Link.SessionOrder

/-
  Agreement of the two machines on the running mode.

  An acknowledgement does not say which command it answers.
  The master enters an activity mode on any `RemoteAck` that
  it reads after sending the command, also on one repeated
  for an earlier command. Whether the machines can then be
  in crossed modes is decided at that moment, by what the
  remote may still become on the bytes in flight to it.

  Key definitions include:
    * `Link.Crossed`
    * `Link.EntersSafely`

  Main declarations:
    * `Link.not_crossed_of_entersSafely`
    * `Link.exists_crossed_of_not_entersSafely`
    * `Link.crossed_on_repeated_acks`
-/

------------------------------------------------------------
-- Crossed Modes
------------------------------------------------------------

namespace ModemTester

namespace Mode

/- The master's activity state of the mode. -/
def masterActivity : Mode → MasterState
  | .availability => .availabilityMode
  | .throughput => .throughputMode

/- The master's state after sending the mode's command. -/
def masterSent : Mode → MasterState
  | .availability => .sentAvailableModeCommand
  | .throughput => .sentThroughputModeCommand

/- The remote's activity state of the mode. -/
def remoteActivity : Mode → RemoteState
  | .availability => .remoteAvailabilityMode
  | .throughput => .remoteThroughputMode

/- The remote's state on receiving the mode's command. -/
def remoteReceived : Mode → RemoteState
  | .availability => .availabilityCommandReceived
  | .throughput => .throughputCommandReceived

def other : Mode → Mode
  | .availability => .throughput
  | .throughput => .availability

end Mode

namespace Link

/- The two machines run different activities. -/
def Crossed (c : Link) : Prop :=
  (c.master = some .availabilityMode ∧
      c.remote = some .remoteThroughputMode) ∨
    (c.master = some .throughputMode ∧
      c.remote = some .remoteAvailabilityMode)

instance (c : Link) : Decidable c.Crossed := by
  unfold Crossed
  infer_instance

/- The remote runs the mode or has received its command. -/
def RemoteIn
    (mode : Mode)
    (remote : Option RemoteState) : Prop :=
  remote = some mode.remoteReceived ∨
    remote = some mode.remoteActivity

instance (mode : Mode) : DecidablePred (RemoteIn mode) :=
  fun remote => by
    unfold RemoteIn
    infer_instance

/-
  The step makes the master enter the mode: it reads a
  `RemoteAck` after sending the mode's command.
-/
def Enters (mode : Mode) (c : Link) (label : LinkLabel) :
    Prop :=
  label = .toMaster ∧ c.master = some mode.masterSent ∧
    c.toMaster.head?.map Uplink.byte = some remoteAckId

instance (mode : Mode) (c : Link) (label : LinkLabel) :
    Decidable (Enters mode c label) := by
  unfold Enters
  infer_instance

/-
  When the master enters a mode, the remote neither is in
  the other mode or its command nor gets there on the bytes
  in flight to it, whichever of them are lost.
-/
def EntersSafely (c : Link) (label : LinkLabel) : Prop :=
  (Enters .availability c label →
      LossyChannel.Avoids remoteAfter (RemoteIn .throughput)
        c.remote c.toRemote) ∧
    (Enters .throughput c label →
      LossyChannel.Avoids remoteAfter (RemoteIn .availability)
        c.remote c.toRemote)

instance (c : Link) (label : LinkLabel) :
    Decidable (c.EntersSafely label) := by
  unfold EntersSafely
  infer_instance

theorem entersSafely_iff
    (c : Link)
    (label : LinkLabel) :
    c.EntersSafely label ↔
      ∀ mode, Enters mode c label →
        LossyChannel.Avoids remoteAfter
          (RemoteIn mode.other) c.remote c.toRemote := by
  constructor
  · rintro ⟨hAvailability, hThroughput⟩ mode
    cases mode with
    | availability => exact hAvailability
    | throughput => exact hThroughput
  · intro hSafe
    exact ⟨hSafe .availability, hSafe .throughput⟩

/-
  While the master runs a mode, the remote stays away from
  the other one whatever it reads.
-/
def Agrees (c : Link) : Prop :=
  ∀ mode : Mode, c.master = some mode.masterActivity →
    LossyChannel.Avoids remoteAfter (RemoteIn mode.other)
      c.remote c.toRemote

theorem not_crossed_of_agrees
    {c : Link}
    (hAgrees : Agrees c) :
    ¬ Crossed c := by
  rintro (⟨hMaster, hRemote⟩ | ⟨hMaster, hRemote⟩)
  · exact LossyChannel.not_bad_of_avoids
      (hAgrees .availability hMaster) (Or.inr hRemote)
  · exact LossyChannel.not_bad_of_avoids
      (hAgrees .throughput hMaster) (Or.inr hRemote)

------------------------------------------------------------
-- What The Master Writes In A Mode
------------------------------------------------------------

/- The master gets into a mode from it or from its command. -/
theorem source_of_masterActivity
    {mode : Mode}
    {state : MasterState}
    {event : Event}
    (hAfter : (masterFsm.dispatch state event).2.after state =
      some mode.masterActivity) :
    state = mode.masterActivity ∨
      (state = mode.masterSent ∧ event = .remoteAck) := by
  cases mode <;> cases state <;> cases event <;>
    first
      | exact Or.inl rfl
      | exact Or.inr ⟨rfl, rfl⟩
      | cases hAfter

/- All that it writes on the way is `MasterAck`. -/
theorem sent_of_masterActivity
    {mode : Mode}
    {state : MasterState}
    {event : Event}
    (hAfter : (masterFsm.dispatch state event).2.after state =
      some mode.masterActivity) :
    ∀ byte ∈ (masterFsm.dispatch state event).1,
      byte = masterAckId := by
  cases mode <;> cases state <;> cases event <;>
    first
      | exact fun _ hByte => List.mem_singleton.mp hByte
      | exact fun _ hByte => absurd hByte List.not_mem_nil
      | cases hAfter

/- An acknowledgement takes the remote into no command. -/
theorem not_remoteIn_masterAck
    {mode : Mode}
    {remote : Option RemoteState}
    (session : Nat)
    (hOut : ¬ RemoteIn mode remote) :
    ¬ RemoteIn mode
      (remoteAfter remote ⟨masterAckId, session⟩) := by
  cases remote with
  | none => exact hOut
  | some state =>
      cases mode <;> cases state <;>
        first
          | exact absurd (Or.inl rfl) hOut
          | exact absurd (Or.inr rfl) hOut
          | rintro (hIn | hIn) <;> cases hIn

theorem remoteAfter_of_isStandardCode
    (remote : Option RemoteState)
    {sent : Downlink}
    (hStandard : IsStandardCode sent.byte) :
    remoteAfter remote sent = remote := by
  cases remote with
  | none => rfl
  | some state =>
      rw [remoteAfter_some,
        readOutcome_of_isStandardCode state hStandard]
      rfl

/-
  A dispatch keeps the agreement if an acknowledgement that
  enters a mode finds the remote away from the other one.
-/
theorem agrees_masterDispatch
    {c : Link}
    {state : MasterState}
    {event : Event}
    (hState : c.master = some state)
    (hAgrees : Agrees c)
    (hSafe : ∀ mode : Mode, state = mode.masterSent →
      event = .remoteAck →
        LossyChannel.Avoids remoteAfter
          (RemoteIn mode.other) c.remote c.toRemote) :
    Agrees (c.masterDispatch state event) := by
  intro mode hAfter
  have hAvoids : LossyChannel.Avoids remoteAfter
      (RemoteIn mode.other) c.remote c.toRemote := by
    rcases source_of_masterActivity hAfter with
      hSame | ⟨hSent, hAck⟩
    · exact hAgrees mode (hState.trans (congrArg some hSame))
    · exact hSafe mode hSent hAck
  apply LossyChannel.avoids_append hAvoids
  intro remote sent hSent hOut
  rcases List.mem_map.mp hSent with ⟨byte, hByte, rfl⟩
  rw [sent_of_masterActivity hAfter byte hByte]
  exact not_remoteIn_masterAck _ hOut

------------------------------------------------------------
-- Agreement Along A Run
------------------------------------------------------------

theorem agrees_start : Agrees start := by
  intro mode hMaster
  cases mode <;> cases hMaster

theorem agrees_step
    (c : Link)
    (label : LinkLabel)
    (c' : Link)
    (hAgrees : Agrees c)
    (hSafe : c.EntersSafely label)
    (hStep : step c label = some c') :
    Agrees c' := by
  cases moves_of_step hStep with
  | command hState hCommand =>
      apply agrees_masterDispatch hState hAgrees
      intro mode hSent hAck
      rw [hAck] at hCommand
      exact absurd hCommand (by decide)
  | masterTimeout hState hKind =>
      apply agrees_masterDispatch hState hAgrees
      intro mode hSent hAck
      cases hAck
  | @remoteTimeout state hState hKind =>
      intro mode hMaster
      have hAvoids := hAgrees mode hMaster
      rw [hState] at hAvoids
      rw [remoteDispatch_timeout_remote]
      exact hAvoids
  | payload hState hKind hStandard =>
      intro mode hMaster
      apply LossyChannel.avoids_append (hAgrees mode hMaster)
      intro remote sent hSent hOut
      rw [List.mem_singleton.mp hSent,
        remoteAfter_of_isStandardCode remote hStandard]
      exact hOut
  | @toRemote state sent rest r u hState hHead =>
      intro mode hMaster
      rw [remoteRead_master] at hMaster
      have hAvoids := hAgrees mode hMaster
      have hRemote := remoteRead_remote
        (c := { c with toRemote := rest }) sent r u hState
      rw [hHead, hState] at hAvoids
      rw [hRemote, remoteRead_toRemote]
      exact LossyChannel.avoids_of_cons hAvoids
  | @toMaster state sent rest hState hHead =>
      unfold masterRead
      split
      · rename_i event hEvent
        refine agrees_masterDispatch
          (c := { c with toMaster := rest })
          hState hAgrees ?_
        intro mode hSent hAck
        rw [hAck] at hEvent
        apply (entersSafely_iff c _).mp hSafe mode
        refine ⟨rfl, hSent ▸ hState, ?_⟩
        have hByte : sent.byte = remoteAckId :=
          Fin.ext (Int.ofNat.inj
            (MasterState.val_of_readByte hEvent))
        rw [hHead, ← hByte]
        rfl
      · exact hAgrees
  | loseToRemote hIndex =>
      intro mode hMaster
      exact LossyChannel.avoids_of_sublist
        (List.eraseIdx_sublist _ _) (hAgrees mode hMaster)
  | loseToMaster hIndex => exact hAgrees

/-
  In a run whose every entry into a mode is safe the
  machines are never in crossed modes.
-/
theorem not_crossed_of_entersSafely
    (labels : List LinkLabel)
    (hSafe : StepSystem.Along step EntersSafely start labels) :
    StepSystem.Throughout step (fun c => ¬ Crossed c)
      start labels := by
  apply StepSystem.throughout_of_along (I := Agrees)
    agrees_step _ agrees_start hSafe
  intro c hAgrees
  exact not_crossed_of_agrees hAgrees

/-
  One availability session with a repeated command. The
  remote ignores it and reads on once its timer has fired.
-/
def repeatedCommandLabels : List LinkLabel :=
  [.command .availabilityModeCommand, .masterTimeout,
    .toRemote 0 0, .toRemote 0 0, .toMaster, .remoteTimeout,
    .toRemote 0 0, .toMaster, .toRemote 0 0,
    .command .endModeCommand, .toRemote 0 0, .toMaster,
    .toRemote 0 0]

theorem not_crossed_with_repeated_command :
    StepSystem.Throughout step (fun c => ¬ Crossed c)
      start repeatedCommandLabels :=
  not_crossed_of_entersSafely repeatedCommandLabels
    (by decide)

/- The repeated acknowledgements cross the modes. -/
theorem crossed_on_repeated_acks :
    ∃ c, StepSystem.run step start repeatedAckLabels =
        some c ∧
      Crossed c :=
  ⟨_, rfl, by decide⟩

------------------------------------------------------------
-- Unsafe Entries
------------------------------------------------------------

/- What the link does on its own towards the remote. -/
def IsDownlinkLabel : LinkLabel → Prop
  | .toRemote _ _ => True
  | .loseToRemote _ => True
  | _ => False

theorem step_loseHead
    {c : Link}
    {sent : Downlink}
    {rest : List Downlink}
    (hHead : c.toRemote = sent :: rest) :
    step c (.loseToRemote 0) =
      some { c with toRemote := rest } := by
  simp [step, hHead]

/- A remote that has left reads nothing more. -/
theorem foldl_remoteAfter_none (toRemote : List Downlink) :
    toRemote.foldl remoteAfter none = none := by
  induction toRemote with
  | nil => rfl
  | cons sent rest ih => exact ih

/-
  The link can deliver any part of what it holds and lose
  the rest, as long as the remote does not leave.
-/
theorem exists_run_keeping
    {kept front rest : List Downlink}
    {state : RemoteState}
    (hKept : kept.Sublist front)
    {c : Link}
    (hFront : c.toRemote = front ++ rest)
    (hState : kept.foldl remoteAfter c.remote = some state) :
    ∃ labels c', StepSystem.run step c labels = some c' ∧
      (∀ label ∈ labels, IsDownlinkLabel label) ∧
      c'.master = c.master ∧
      c'.remote = some state ∧
      c'.toRemote = rest := by
  induction hKept generalizing c with
  | slnil => exact ⟨[], c, rfl, by simp, rfl, hState, hFront⟩
  | @cons kept front sent hKept ih =>
      have hLose := step_loseHead hFront
      rcases ih (c := { c with toRemote := front ++ rest })
          rfl hState with
        ⟨labels, c', hRun, hLabels, hRest⟩
      refine ⟨.loseToRemote 0 :: labels, c', ?_, ?_, hRest⟩
      · exact (StepSystem.run_cons_of_step hLose).trans hRun
      · exact List.forall_mem_cons.mpr ⟨trivial, hLabels⟩
  | @cons_cons kept front sent hKept ih =>
      rw [List.foldl_cons] at hState
      cases hRemote : c.remote with
      | none =>
          rw [hRemote, remoteAfter_none,
            foldl_remoteAfter_none] at hState
          cases hState
      | some before =>
          have hDeliver := step_toRemote hRemote hFront 0 0
          have hAfter := remoteRead_remote
            (c := { c with toRemote := front ++ rest })
            sent 0 0 hRemote
          rw [hRemote, ← hAfter] at hState
          rcases ih (remoteRead_toRemote _ _ _ _ _) hState with
            ⟨labels, c', hRun, hLabels, hMaster, hRest⟩
          refine ⟨.toRemote 0 0 :: labels, c', ?_, ?_, ?_,
            hRest⟩
          · exact
              (StepSystem.run_cons_of_step hDeliver).trans hRun
          · exact List.forall_mem_cons.mpr ⟨trivial, hLabels⟩
          · rw [hMaster, remoteRead_master]

/- Entering a mode writes one acknowledgement. -/
theorem enters_step
    {mode : Mode}
    {c c' : Link}
    {label : LinkLabel}
    (hEnters : Enters mode c label)
    (hStep : step c label = some c') :
    c'.master = some mode.masterActivity ∧
      c'.remote = c.remote ∧
      ∃ session, c'.toRemote =
        c.toRemote ++ [⟨masterAckId, session⟩] := by
  rcases hEnters with ⟨rfl, hSent, hAck⟩
  cases hHead : c.toMaster with
  | nil =>
      rw [hHead] at hAck
      cases hAck
  | cons sent rest =>
      have hByte : sent.byte = remoteAckId := by
        rw [hHead] at hAck
        exact Option.some.inj hAck
      rw [step_toMaster hSent hHead, Option.some.injEq] at hStep
      subst hStep
      rw [hByte]
      cases mode <;> exact ⟨rfl, rfl, _, rfl⟩

/-
  When the master enters a mode unsafely, losses and
  deliveries towards the remote alone can cross the modes.
-/
theorem exists_crossed_of_not_entersSafely
    {c c' : Link}
    {label : LinkLabel}
    (hUnsafe : ¬ c.EntersSafely label)
    (hStep : step c label = some c') :
    ∃ labels c'', StepSystem.run step c' labels = some c'' ∧
      (∀ label ∈ labels, IsDownlinkLabel label) ∧
      Crossed c'' := by
  rw [entersSafely_iff] at hUnsafe
  push Not at hUnsafe
  rcases hUnsafe with ⟨mode, hEnters, hAvoids⟩
  rcases LossyChannel.exists_of_not_avoids hAvoids with
    ⟨kept, hKept, hIn⟩
  rcases enters_step hEnters hStep with
    ⟨hMaster, hRemote, session, hToRemote⟩
  let ack : Downlink := ⟨masterAckId, session⟩
  -- the acknowledgement completes the other mode's command
  have hFold : (kept ++ [ack]).foldl remoteAfter c'.remote =
      some mode.other.remoteActivity := by
    rw [hRemote, List.foldl_append]
    rcases hIn with hReceived | hActivity
    · rw [hReceived]
      cases mode <;> rfl
    · rw [hActivity]
      cases mode <;> rfl
  have hSublist : (kept ++ [ack]).Sublist c'.toRemote := by
    rw [hToRemote]
    exact hKept.append (List.Sublist.refl _)
  rcases exists_run_keeping hSublist
      (List.append_nil _).symm hFold with
    ⟨labels, c'', hRun, hLabels, hMaster'', hRemote'', -⟩
  refine ⟨labels, c'', hRun, hLabels, ?_⟩
  rw [Crossed, hMaster'', hMaster, hRemote'']
  cases mode <;> decide

end Link

end ModemTester
