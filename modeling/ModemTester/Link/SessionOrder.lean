import ModemTester.Link.Composition

/-
  The remote runs the master's sessions, in order.

  Everything the master writes, read by the remote without a
  loss, leads the remote to the counterpart of the master's
  state with the master's sessions. What is still on its way
  stands between the two, so the remote's sessions are a
  prefix. Bytes towards the master may be lost or be
  anything; they only make the master move.

  Key definitions include:
    * `Link.remoteNext`
    * `Link.caughtUp`
    * `Link.counterpart`

  Main declarations:
    * `Link.caughtUp_of_run`
    * `Link.remoteSessions_prefix`
-/

------------------------------------------------------------
-- Catching Up
------------------------------------------------------------

namespace ModemTester

namespace Link

/- A byte for the remote is not lost. -/
def LosesToRemote : LinkLabel → Prop
  | .loseToRemote _ => True
  | _ => False

/- A byte of either direction is lost. -/
def Loses : LinkLabel → Prop
  | .loseToRemote _ => True
  | .loseToMaster _ => True
  | _ => False

instance : DecidablePred Loses := fun label => by
  unfold Loses
  cases label <;> infer_instance

/- The remote with its sessions, after reading a byte. -/
def remoteNext
    (remote : Option RemoteState × List Mode)
    (sent : Downlink) : Option RemoteState × List Mode :=
  match remote.1 with
  | none => remote
  | some state =>
      ((readOutcome state sent.byte).after state,
        remote.2 ++
          state.started (readOutcome state sent.byte))

/- The remote once it has read all that was written. -/
def caughtUp (c : Link) : Option RemoteState × List Mode :=
  c.toRemote.foldl remoteNext (c.remote, c.remoteSessions)

/- The state in which the master's writes put the remote. -/
def counterpart : MasterState → RemoteState
  | .idle => .remoteIdle
  | .sentAvailableModeCommand => .availabilityCommandReceived
  | .sentThroughputModeCommand => .throughputCommandReceived
  | .availabilityMode => .remoteAvailabilityMode
  | .throughputMode => .remoteThroughputMode
  | .waitAckAfterEndMode => .endModeReceived

/- Reading only adds sessions. -/
theorem prefix_foldl_remoteNext
    (remote : Option RemoteState × List Mode)
    (toRemote : List Downlink) :
    remote.2 <+: (toRemote.foldl remoteNext remote).2 := by
  induction toRemote generalizing remote with
  | nil => exact List.prefix_refl _
  | cons sent rest ih =>
      rw [List.foldl_cons]
      refine List.IsPrefix.trans ?_ (ih (remoteNext remote sent))
      unfold remoteNext
      split
      · exact List.prefix_refl _
      · exact List.prefix_append _ _

/-
  What the master writes in a dispatch takes the counterpart
  of its old state to the counterpart of its new one, and
  starts the same session.
-/
theorem foldl_remoteNext_dispatch
    (state : MasterState)
    (event : Event)
    (session : Nat)
    (sessions : List Mode) :
    ((masterFsm.dispatch state event).1.map
        fun byte => (⟨byte, session⟩ : Downlink)).foldl
          remoteNext (some (counterpart state), sessions) =
      (((masterFsm.dispatch state event).2.after state).map
          counterpart,
        sessions ++
          state.started (masterFsm.dispatch state event).2) := by
  -- a dispatch writes one byte or none
  cases state <;> cases event <;>
    first
      | rfl
      | exact Prod.ext rfl (List.append_nil _).symm

/- Test data leaves the remote and its sessions alone. -/
theorem remoteNext_of_isStandardCode
    (remote : Option RemoteState × List Mode)
    {sent : Downlink}
    (hStandard : IsStandardCode sent.byte) :
    remoteNext remote sent = remote := by
  rcases remote with ⟨state, sessions⟩
  cases state with
  | none => rfl
  | some state =>
      simp [remoteNext, Outcome.after,
        readOutcome_of_isStandardCode state hStandard]

------------------------------------------------------------
-- The Invariant
------------------------------------------------------------

/- The remote would catch up with the master. -/
def InStep (c : Link) : Prop :=
  caughtUp c = (c.master.map counterpart, c.masterSessions)

theorem inStep_start : InStep start := rfl

theorem inStep_masterDispatch
    {c : Link}
    {state : MasterState}
    (event : Event)
    (hState : c.master = some state)
    (hInStep : InStep c) :
    InStep (c.masterDispatch state event) := by
  unfold InStep caughtUp at *
  simp only [masterDispatch, List.foldl_append, hInStep,
    hState, Option.map_some]
  exact foldl_remoteNext_dispatch state event _ _

/- One step without a loss towards the remote. -/
theorem inStep_step
    (c : Link)
    (label : LinkLabel)
    (c' : Link)
    (hInStep : InStep c)
    (hKeeps : ¬ LosesToRemote label)
    (hStep : step c label = some c') :
    InStep c' := by
  cases moves_of_step hStep with
  | command hState hCommand =>
      exact inStep_masterDispatch _ hState hInStep
  | masterTimeout hState hKind =>
      exact inStep_masterDispatch _ hState hInStep
  | @remoteTimeout state hState hKind =>
      unfold InStep caughtUp at *
      rw [remoteDispatch_timeout_remote,
        remoteDispatch_timeout_remoteSessions, ← hState]
      exact hInStep
  | payload hState hKind hStandard =>
      unfold InStep caughtUp at *
      rw [List.foldl_append, hInStep]
      exact remoteNext_of_isStandardCode _ hStandard
  | @toRemote state sent rest r u hState hHead =>
      have hRemote := remoteRead_remote
        (c := { c with toRemote := rest }) sent r u hState
      unfold InStep caughtUp at *
      rw [hRemote, remoteRead_remoteSessions,
        remoteRead_toRemote, remoteRead_master,
        remoteRead_masterSessions]
      rw [hHead, List.foldl_cons, hState] at hInStep
      exact hInStep
  | @toMaster state sent rest hState hHead =>
      unfold masterRead
      split
      · exact inStep_masterDispatch _ hState hInStep
      · exact hInStep
  | loseToRemote hIndex => exact absurd trivial hKeeps
  | loseToMaster hIndex => exact hInStep

/-
  After any run that loses nothing towards the remote, what
  is on its way leads the remote to the master's counterpart
  and to the master's sessions.
-/
theorem caughtUp_of_run
    {labels : List LinkLabel}
    {c : Link}
    (hKeeps : ∀ label ∈ labels, ¬ LosesToRemote label)
    (hRun : StepSystem.run step start labels = some c) :
    caughtUp c =
      (c.master.map counterpart, c.masterSessions) := by
  have hAlong : StepSystem.Along step
      (fun _ label => ¬ LosesToRemote label) start labels :=
    StepSystem.along_of_forall hKeeps
  exact StepSystem.run_invariant_along (I := InStep)
    inStep_step inStep_start hAlong hRun

/-
  On a lossless link the sessions the remote has started are
  a prefix of those the master has started.
-/
theorem remoteSessions_prefix
    (labels : List LinkLabel)
    (c : Link)
    (hLossless : ∀ label ∈ labels, ¬ Loses label)
    (hRun : StepSystem.run step start labels = some c) :
    c.remoteSessions <+: c.masterSessions := by
  have hKeeps : ∀ label ∈ labels, ¬ LosesToRemote label := by
    intro label hLabel hLoss
    apply hLossless label hLabel
    cases label with
    | loseToRemote index => trivial
    | command | masterTimeout | remoteTimeout | payload
    | toRemote | toMaster | loseToMaster => exact hLoss.elim
  have hPrefix := prefix_foldl_remoteNext
    (c.remote, c.remoteSessions) c.toRemote
  have hCaughtUp := caughtUp_of_run hKeeps hRun
  unfold caughtUp at hCaughtUp
  rw [hCaughtUp] at hPrefix
  exact hPrefix

/-
  Three acknowledgements of one availability command take
  the master through two sessions while the remote is in the
  first.
-/
def repeatedAckLabels : List LinkLabel :=
  [.command .availabilityModeCommand, .toRemote 0 0,
    .remoteTimeout, .remoteTimeout, .toMaster,
    .command .endModeCommand, .toMaster,
    .command .throughputModeCommand, .toMaster, .toRemote 0 0]

theorem remoteSessions_prefix_while_behind :
    ∃ c, StepSystem.run step start repeatedAckLabels = some c ∧
      c.remoteSessions = [.availability] ∧
      c.masterSessions = [.availability, .throughput] ∧
      c.remoteSessions <+: c.masterSessions := by
  refine ⟨_, rfl, rfl, rfl, ?_⟩
  exact remoteSessions_prefix repeatedAckLabels _ (by decide) rfl

end Link

end ModemTester
