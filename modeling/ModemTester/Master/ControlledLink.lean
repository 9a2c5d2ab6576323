import ModemTester.Link.CleanHandshake
import ModemTester.Master.MasterController
import ModemTester.Script.ScriptedSessions

/-
  The controller, its pool and the link together.

  The commands that the controller hands to the pool are
  dispatched on a master that is on its link. As long as no
  tick comes while an `EndModeCommand` still waits for its
  thread, the controller takes four stances in turn, whatever
  the line loses and whichever timers expire: no test is
  forgotten, and all sessions are availability tests. If
  nothing goes wrong on the link, and the machines have a
  read pending again after each byte, it can go on testing
  for ever.

  The ticks of the controller come at any time; when they
  come is in `Master/ControllerTimer.lean`.

  Key definitions include:
    * `ControlledLink`
    * `ControlledLink.step`
    * `ControlledLink.Prompt`
    * `ControlledLink.Stance`

  Main declarations:
    * `ControlledLink.never_forgets`
    * `ControlledLink.keeps_testing`
    * `ControlledLink.may_forget_of_not_prompt`
-/

------------------------------------------------------------
-- Nothing But Availability Tests
------------------------------------------------------------

namespace ModemTester

/- The states of an availability test. -/
def MasterState.inAvailability : List MasterState :=
  [.idle, .sentAvailableModeCommand, .availabilityMode,
    .waitAckAfterEndMode]

def RemoteState.inAvailability : List RemoteState :=
  [.remoteIdle, .availabilityCommandReceived,
    .remoteAvailabilityMode, .endModeReceived]

/- What the master writes in them, besides test data. -/
def availabilityCommandIds : List Byte :=
  [availabilityModeCommandId, masterAckId, endModeCommandId]

namespace Link

/- No throughput test is under way, or was. -/
structure AvailabilityOnly (c : Link) : Prop where
  master : ∃ state ∈ MasterState.inAvailability,
    c.master = some state
  remote : ∃ state ∈ RemoteState.inAvailability,
    c.remote = some state
  toRemote : ∀ sent ∈ c.toRemote,
    IsStandardCode sent.byte ∨
      sent.byte ∈ availabilityCommandIds
  toMaster : ∀ up ∈ c.toMaster,
    IsStandardCode up.byte ∨ up.byte = remoteAckId
  masterSessions : ∀ mode ∈ c.masterSessions,
    mode = .availability
  remoteSessions : ∀ mode ∈ c.remoteSessions,
    mode = .availability

theorem availabilityOnly_start : AvailabilityOnly start where
  master := ⟨.idle, by decide, rfl⟩
  remote := ⟨.remoteIdle, by decide, rfl⟩
  toRemote := by simp [start]
  toMaster := by simp [start]
  masterSessions := by simp [start]
  remoteSessions := by simp [start]

variable {c c' : Link}

/- What the master may dispatch. -/
def masterEvents : List Event :=
  [.availabilityModeCommand, .endModeCommand, .remoteAck,
    .timeout]

/- And what the remote may. -/
def remoteEvents : List Event :=
  [.availabilityModeCommand, .endModeCommand, .masterAck,
    .timeout]

theorem masterDispatch_inAvailability
    {state : MasterState}
    {event : Event}
    (hState : state ∈ MasterState.inAvailability)
    (hEvent : event ∈ masterEvents) :
    (∃ next ∈ MasterState.inAvailability,
      (masterFsm.dispatch state event).2.after state =
        some next) ∧
      (masterFsm.dispatch state event).1 ⊆
        availabilityCommandIds ∧
      state.started (masterFsm.dispatch state event).2 ⊆
        [.availability] := by
  cases state <;> first
    | exact absurd hState (by decide)
    | cases event <;> first
        | exact absurd hEvent (by decide)
        | refine ⟨⟨_, ?_, rfl⟩, ?_, ?_⟩ <;> decide

theorem remoteDispatch_inAvailability
    {state : RemoteState}
    {event : Event}
    (hState : state ∈ RemoteState.inAvailability)
    (hEvent : event ∈ remoteEvents) :
    (∃ next ∈ RemoteState.inAvailability,
      (remoteFsm.dispatch state event).2.after state =
        some next) ∧
      (remoteFsm.dispatch state event).1 ⊆ [remoteAckId] ∧
      state.started (remoteFsm.dispatch state event).2 ⊆
        [.availability] := by
  cases state <;> first
    | exact absurd hState (by decide)
    | cases event <;> first
        | exact absurd hEvent (by decide)
        | refine ⟨⟨_, ?_, rfl⟩, ?_, ?_⟩ <;> decide

theorem AvailabilityOnly.masterDispatch
    {state : MasterState}
    {event : Event}
    (hOnly : c.AvailabilityOnly)
    (hState : c.master = some state)
    (hEvent : event ∈ masterEvents) :
    (c.masterDispatch state event).AvailabilityOnly := by
  rcases hOnly.master with ⟨_, hMem, hSame⟩
  obtain rfl := Option.some.inj (hState.symm.trans hSame)
  rcases masterDispatch_inAvailability hMem hEvent with
    ⟨hNext, hSent, hStarted⟩
  refine ⟨hNext, hOnly.remote, ?_, hOnly.toMaster, ?_,
    hOnly.remoteSessions⟩
  · intro sent hQueued
    rcases List.mem_append.mp hQueued with hOld | hNew
    · exact hOnly.toRemote sent hOld
    · rcases List.mem_map.mp hNew with ⟨byte, hByte, rfl⟩
      exact .inr (hSent hByte)
  · intro mode hMode
    rcases List.mem_append.mp hMode with hOld | hNew
    · exact hOnly.masterSessions mode hOld
    · exact List.mem_singleton.mp (hStarted hNew)

theorem AvailabilityOnly.remoteDispatch
    {state : RemoteState}
    {event : Event}
    {session : Nat}
    (hOnly : c.AvailabilityOnly)
    (hState : c.remote = some state)
    (hEvent : event ∈ remoteEvents) :
    (c.remoteDispatch state event session).AvailabilityOnly
      := by
  rcases hOnly.remote with ⟨_, hMem, hSame⟩
  obtain rfl := Option.some.inj (hState.symm.trans hSame)
  rcases remoteDispatch_inAvailability hMem hEvent with
    ⟨hNext, hSent, hStarted⟩
  refine ⟨hOnly.master, hNext, hOnly.toRemote, ?_,
    hOnly.masterSessions, ?_⟩
  · intro up hQueued
    rcases List.mem_append.mp hQueued with hOld | hNew
    · exact hOnly.toMaster up hOld
    · rcases List.mem_map.mp hNew with ⟨byte, hByte, rfl⟩
      exact .inr (List.mem_singleton.mp (hSent hByte))
  · intro mode hMode
    rcases List.mem_append.mp hMode with hOld | hNew
    · exact hOnly.remoteSessions mode hOld
    · exact List.mem_singleton.mp (hStarted hNew)

/- The acknowledgement is all that the master can read. -/
theorem eq_remoteAck_of_readByte
    {state : MasterState}
    {byte : Byte}
    {event : Event}
    (hByte : IsStandardCode byte ∨ byte = remoteAckId)
    (hRead : state.readByte byte = some event) :
    event = .remoteAck := by
  have hVal := MasterState.val_of_readByte hRead
  rcases hByte with hStandard | rfl
  · exact absurd (isCommandByte_of_readByte hRead)
      (not_isCommandByte_of_isStandardCode hStandard)
  · cases event <;> first
      | rfl
      | exact absurd hVal (by decide)

theorem mem_remoteEvents_of_handleByte
    {state : RemoteState}
    {byte : Byte}
    {event : Event}
    (hByte : IsStandardCode byte ∨
      byte ∈ availabilityCommandIds)
    (hHandling : state.handleByte byte = .dispatch event) :
    event ∈ remoteEvents := by
  have hVal := RemoteState.val_of_handleByte hHandling
  rcases hByte with hStandard | hCommand
  · exact absurd (isCommandByte_of_handleByte hHandling)
      (not_isCommandByte_of_isStandardCode hStandard)
  · simp only [availabilityCommandIds, List.mem_cons,
      List.not_mem_nil, or_false] at hCommand
    rcases hCommand with rfl | rfl | rfl <;>
      cases event <;> first
        | decide
        | exact absurd hVal (by decide)

theorem AvailabilityOnly.remoteRead
    {state : RemoteState}
    {sent : Downlink}
    {rest : List Downlink}
    {totalReceived totalUsec : Word}
    (hOnly : c.AvailabilityOnly)
    (hState : c.remote = some state)
    (hHead : c.toRemote = sent :: rest) :
    (({ c with toRemote := rest } : Link).remoteRead state sent
      totalReceived totalUsec).AvailabilityOnly := by
  have hRest : ∀ other ∈ rest, IsStandardCode other.byte ∨
      other.byte ∈ availabilityCommandIds := by
    intro other hOther
    apply hOnly.toRemote
    rw [hHead]
    exact List.mem_cons_of_mem _ hOther
  have hTaken :
      ({ c with toRemote := rest } : Link).AvailabilityOnly :=
    ⟨hOnly.master, hOnly.remote, hRest, hOnly.toMaster,
      hOnly.masterSessions, hOnly.remoteSessions⟩
  have hByte := hOnly.toRemote sent (by
    rw [hHead]
    exact List.mem_cons_self)
  unfold Link.remoteRead
  cases hHandling : state.handleByte sent.byte with
  | dispatch event =>
      exact hTaken.remoteDispatch hState
        (mem_remoteEvents_of_handleByte hByte hHandling)
  | ignore => exact hTaken
  | echo =>
      refine ⟨hTaken.master, hTaken.remote, hTaken.toRemote,
        ?_, hTaken.masterSessions, hTaken.remoteSessions⟩
      intro up hUp
      rcases List.mem_append.mp hUp with hOld | hNew
      · exact hOnly.toMaster up hOld
      · rw [List.mem_singleton.mp hNew]
        exact .inl (handleByte_eq_echo hHandling)
  | sendResults =>
      rcases handleByte_eq_sendResults hHandling with
        ⟨rfl, -⟩
      rcases hOnly.remote with ⟨_, hMem, hSame⟩
      obtain rfl := Option.some.inj (hState.symm.trans hSame)
      exact absurd hMem (by decide)

/- What a step other than a command does to the master. -/
theorem AvailabilityOnly.step
    {label : LinkLabel}
    (hOnly : c.AvailabilityOnly)
    (hLocal : ∀ event, label ≠ .command event)
    (hStep : Link.step c label = some c') :
    c'.AvailabilityOnly ∧
      (c'.master = c.master ∨
        ∃ state, c.master = some state ∧
          ∃ event ∈ [Event.remoteAck, .timeout],
            c'.master =
              (masterFsm.dispatch state event).2.after
                state) := by
  cases moves_of_step hStep with
  | command hState hCommand => exact absurd rfl (hLocal _)
  | @masterTimeout state hState hKind =>
      exact ⟨hOnly.masterDispatch hState (by decide),
        .inr ⟨state, hState, .timeout, by decide, rfl⟩⟩
  | remoteTimeout hState hKind =>
      exact ⟨hOnly.remoteDispatch hState (by decide), .inl rfl⟩
  | @payload state byte hState hKind hStandard =>
      refine ⟨⟨hOnly.master, hOnly.remote, ?_, hOnly.toMaster,
        hOnly.masterSessions, hOnly.remoteSessions⟩, .inl rfl⟩
      intro sent hSent
      rcases List.mem_append.mp hSent with hOld | hNew
      · exact hOnly.toRemote sent hOld
      · rw [List.mem_singleton.mp hNew]
        exact .inl hStandard
  | toRemote hState hHead =>
      exact ⟨hOnly.remoteRead hState hHead,
        .inl (remoteRead_master ..)⟩
  | @toMaster state up rest hState hHead =>
      have hByte := hOnly.toMaster up (by
        rw [hHead]
        exact List.mem_cons_self)
      have hTaken :
          ({ c with toMaster := rest } : Link).AvailabilityOnly
          := by
        refine ⟨hOnly.master, hOnly.remote, hOnly.toRemote, ?_,
          hOnly.masterSessions, hOnly.remoteSessions⟩
        intro other hOther
        apply hOnly.toMaster
        rw [hHead]
        exact List.mem_cons_of_mem _ hOther
      unfold Link.masterRead
      split
      · rename_i event hRead
        obtain rfl := eq_remoteAck_of_readByte hByte hRead
        exact ⟨hTaken.masterDispatch hState (by decide),
          .inr ⟨state, hState, .remoteAck, by decide, rfl⟩⟩
      · exact ⟨hTaken, .inl rfl⟩
  | loseToRemote hIndex =>
      refine ⟨⟨hOnly.master, hOnly.remote, ?_, hOnly.toMaster,
        hOnly.masterSessions, hOnly.remoteSessions⟩, .inl rfl⟩
      intro sent hSent
      exact hOnly.toRemote sent (List.mem_of_mem_eraseIdx hSent)
  | loseToMaster hIndex =>
      refine ⟨⟨hOnly.master, hOnly.remote, hOnly.toRemote, ?_,
        hOnly.masterSessions, hOnly.remoteSessions⟩, .inl rfl⟩
      intro up hUp
      exact hOnly.toMaster up (List.mem_of_mem_eraseIdx hUp)

end Link

end ModemTester

------------------------------------------------------------
-- The Controller On The Link
------------------------------------------------------------

namespace ModemTester

/-
  `pending` are the events whose threads the pool has started
  and which have not dispatched.
-/
structure ControlledLink where
  remoteReachable : Bool
  tryingAvalability : Bool
  pending : List Event
  link : Link
  deriving DecidableEq, Repr

inductive ControlledLabel where
  /- The timer calls `periodicAction`. -/
  | tick
  /- The thread of a runnable dispatches its event. -/
  | execute (index : Nat)
  | setRemoteReachability (reachable : Bool)
  | link (label : LinkLabel)
  deriving DecidableEq, Repr

namespace ControlledLink

/- The constructor of the controller; both machines start. -/
def start : ControlledLink where
  remoteReachable := false
  tryingAvalability := false
  pending := []
  link := Link.start

/- The controller, next to a master in `state`. -/
def controller
    (s : ControlledLink)
    (state : MasterState) : MasterController where
  current := state
  remoteReachable := s.remoteReachable
  tryingAvalability := s.tryingAvalability
  pending := s.pending

/- What the controller leaves behind. -/
def afterAction
    (s : ControlledLink)
    (c : MasterController) : ControlledLink :=
  { s with
    remoteReachable := c.remoteReachable
    tryingAvalability := c.tryingAvalability
    pending := c.pending }

/-
  Besides the controller only the thread of a throughput test
  dispatches a command, the one that ends its mode.
-/
def step (s : ControlledLink) :
    ControlledLabel → Option ControlledLink
  | .tick =>
      match s.link.master with
      | some state =>
          some (s.afterAction (s.controller state).periodicAction)
      | none => none
  | .execute index =>
      match s.pending[index]? with
      | none => none
      | some event =>
          (s.link.step (.command event)).map fun link =>
            { s with
              pending := s.pending.eraseIdx index
              link := link }
  | .setRemoteReachability reachable =>
      some { s with remoteReachable := reachable }
  | .link (.command event) =>
      if event = .endModeCommand ∧
          Mode.throughput ∈ s.link.masterSessions then
        (s.link.step (.command event)).map fun link =>
          { s with link := link }
      else
        none
  | .link label =>
      (s.link.step label).map fun link =>
        { s with link := link }

/- A tick finds no `EndModeCommand` that still waits. -/
def Prompt (s : ControlledLink) : ControlledLabel → Prop
  | .tick => Event.endModeCommand ∉ s.pending
  | _ => True

/- Nothing goes wrong on the link. -/
def Clean (s : ControlledLink) : ControlledLabel → Prop
  | .link label => s.link.Clean label
  | _ => True

/- Prompt threads, and nothing wrong on the link. -/
def Healthy (s : ControlledLink) (label : ControlledLabel) :
    Prop :=
  Prompt s label ∧ Clean s label

instance (s : ControlledLink) : (label : ControlledLabel) →
    Decidable (s.Prompt label)
  | .tick =>
      inferInstanceAs (Decidable (_ ∉ s.pending))
  | .execute _ | .setRemoteReachability _ | .link _ =>
      .isTrue trivial

instance (s : ControlledLink) : (label : ControlledLabel) →
    Decidable (s.Clean label)
  | .link label => inferInstanceAs (Decidable (s.link.Clean label))
  | .tick | .execute _ | .setRemoteReachability _ =>
      .isTrue trivial

instance (s : ControlledLink) (label : ControlledLabel) :
    Decidable (s.Healthy label) :=
  instDecidableAnd

------------------------------------------------------------
-- Stances
------------------------------------------------------------

inductive Stance where
  /- The command of a test waits for its thread. -/
  | asking
  /- The test has not been noticed yet. -/
  | trying
  /- It has, or there is none. -/
  | watching
  /- The command that ends the test waits for its thread. -/
  | ending
  deriving DecidableEq, Repr

namespace Stance

def tryingAvalability : Stance → Bool
  | .asking | .trying => true
  | .watching | .ending => false

def pending : Stance → List Event
  | .asking => [.availabilityModeCommand]
  | .ending => [.endModeCommand]
  | .trying | .watching => []

/- Where the master may be. -/
def masters : Stance → List MasterState
  | .asking => [.idle]
  | .trying => [.sentAvailableModeCommand, .availabilityMode]
  | .watching =>
      [.availabilityMode, .waitAckAfterEndMode, .idle]
  | .ending => [.availabilityMode]

/- A tick that finds the master in `state`. -/
def afterTick : Stance → MasterState → Stance
  | .trying, .availabilityMode => .watching
  | .watching, .availabilityMode => .ending
  | .watching, .idle => .asking
  | stance, _ => stance

/- The thread that was started dispatches. -/
def afterExecute : Stance → Stance
  | .asking => .trying
  | .ending => .watching
  | stance => stance

end Stance

/- The flag, the pool and where the master may be. -/
structure At
    (s : ControlledLink)
    (tryingAvalability : Bool)
    (pending : List Event)
    (masters : List MasterState) : Prop where
  tryingAvalability : s.tryingAvalability = tryingAvalability
  pending : s.pending = pending
  master : ∃ state ∈ masters, s.link.master = some state

/- All three fit the stance. -/
abbrev InStance
    (s : ControlledLink)
    (stance : Stance) : Prop :=
  s.At stance.tryingAvalability stance.pending stance.masters

/- What holds of the controller and of its link. -/
structure Attends (s : ControlledLink) : Prop where
  stance : ∃ stance, s.InStance stance
  link : s.link.AvailabilityOnly

variable {s s' : ControlledLink}
variable {label : ControlledLabel}
variable {stance : Stance}
variable {trying trying' : Bool}
variable {pending pending' : List Event}
variable {masters masters' : List MasterState}

theorem attends_start : Attends start where
  stance := ⟨.watching, rfl, rfl, .idle, by decide, rfl⟩
  link := Link.availabilityOnly_start

/- Acknowledgements and timers do not lead out of them. -/
def Kept (masters : List MasterState) : Prop :=
  ∀ state ∈ masters, ∀ event ∈ [Event.remoteAck, .timeout],
    ∃ next ∈ masters,
      (masterFsm.dispatch state event).2.after state =
        some next

instance (masters : List MasterState) :
    Decidable (Kept masters) := by
  unfold Kept
  infer_instance

theorem Stance.kept_masters (stance : Stance) :
    Kept stance.masters := by
  cases stance <;> decide

/- A step of the link that is no command of the controller. -/
theorem exists_link_of_step
    {linkLabel : LinkLabel}
    (hOnly : s.link.AvailabilityOnly)
    (hStep : step s (.link linkLabel) = some s') :
    ∃ link, s.link.step linkLabel = some link ∧
      (∀ event, linkLabel ≠ .command event) ∧
      s' = { s with link := link } := by
  cases linkLabel with
  | command event =>
      simp only [step] at hStep
      split at hStep
      · rename_i hThread
        have hMode := hOnly.masterSessions _ hThread.2
        cases hMode
      · cases hStep
  | masterTimeout | remoteTimeout | payload | toRemote
  | toMaster | loseToRemote | loseToMaster =>
      rcases Option.map_eq_some_iff.mp hStep with
        ⟨link, hTaken, hSame⟩
      refine ⟨link, hTaken, ?_, hSame.symm⟩
      intro event hCommand
      cases hCommand

theorem step_tick
    {state : MasterState}
    (hState : s.link.master = some state) :
    step s .tick =
      some (s.afterAction (s.controller state).periodicAction) := by
  simp only [step, hState]

theorem step_execute
    {index : Nat}
    {state : MasterState}
    {event : Event}
    (hState : s.link.master = some state)
    (hPending : s.pending[index]? = some event)
    (hCommand : IsModeCommand event) :
    step s (.execute index) =
      some
        { s with
          pending := s.pending.eraseIdx index
          link := s.link.masterDispatch state event } := by
  have hTaken := Link.step_of_moves
    (.command hState hCommand)
  simp only [step, hPending, hTaken, Option.map_some]

theorem step_link
    {linkLabel : LinkLabel}
    {link : Link}
    (hLocal : ∀ event, linkLabel ≠ .command event)
    (hTaken : s.link.step linkLabel = some link) :
    step s (.link linkLabel) = some { s with link := link } := by
  cases linkLabel with
  | command event => exact absurd rfl (hLocal event)
  | masterTimeout | remoteTimeout | payload | toRemote
  | toMaster | loseToRemote | loseToMaster =>
      simp only [step, hTaken, Option.map_some]

theorem At.of_link
    {link : Link}
    (hAt : s.At trying pending masters)
    (hKept : Kept masters)
    (hMaster : link.master = s.link.master ∨
      ∃ state, s.link.master = some state ∧
        ∃ event ∈ [Event.remoteAck, .timeout],
          link.master =
            (masterFsm.dispatch state event).2.after state) :
    At { s with link := link } trying pending masters := by
  refine ⟨hAt.tryingAvalability, hAt.pending, ?_⟩
  rcases hAt.master with ⟨state, hMem, hState⟩
  rcases hMaster with hSame | ⟨_, hOld, event, hEvent, hNext⟩
  · exact ⟨state, hMem, hSame.trans hState⟩
  · obtain rfl := Option.some.inj (hState.symm.trans hOld)
    rcases hKept state hMem event hEvent with
      ⟨next, hNextMem, hAfter⟩
    exact ⟨next, hNextMem, hNext.trans hAfter⟩

/- A thread dispatches, and the master takes its event. -/
theorem At.of_execute
    {index : Nat}
    {state next : MasterState}
    {event : Event}
    (hAt : s.At trying pending [state])
    (hNext : (masterFsm.dispatch state event).2.after state =
      some next)
    (hMem : next ∈ masters) :
    At
      { s with
        pending := s.pending.eraseIdx index
        link := s.link.masterDispatch state event }
      trying (pending.eraseIdx index) masters :=
  ⟨hAt.tryingAvalability, by rw [← hAt.pending], next, hMem,
    hNext⟩

/- The controller acts. -/
theorem At.of_tick
    {state : MasterState}
    (hAt : s.At trying pending [state])
    (hAction : ∀ remoteReachable,
      let c := MasterController.periodicAction
        ⟨state, remoteReachable, trying, pending⟩
      c.tryingAvalability = trying' ∧ c.pending = pending') :
    (s.afterAction (s.controller state).periodicAction).At
      trying' pending' [state] := by
  have hDone := hAction s.remoteReachable
  rw [← hAt.tryingAvalability, ← hAt.pending] at hDone
  exact ⟨hDone.1, hDone.2, hAt.master⟩

/- The action makes a tick of the stance. -/
theorem Stance.periodicAction
    {state : MasterState}
    (remoteReachable : Bool)
    (hState : state ∈ stance.masters)
    (hEnding : stance ≠ .ending) :
    let c := MasterController.periodicAction
      ⟨state, remoteReachable, stance.tryingAvalability,
        stance.pending⟩
    c.tryingAvalability =
        (stance.afterTick state).tryingAvalability ∧
      c.pending = (stance.afterTick state).pending ∧
      state ∈ (stance.afterTick state).masters := by
  cases stance <;> cases state <;> first
    | exact absurd rfl hEnding
    | exact absurd hState (by decide)
    | exact ⟨rfl, rfl, by decide⟩

theorem InStance.of_tick
    {state : MasterState}
    (hStance : s.InStance stance)
    (hState : s.link.master = some state)
    (hPrompt : s.Prompt .tick) :
    (s.afterAction
      (s.controller state).periodicAction).InStance
        (stance.afterTick state) := by
  rcases hStance with
    ⟨hTrying, hPending, ⟨_, hMem, hSame⟩⟩
  obtain rfl := Option.some.inj (hState.symm.trans hSame)
  have hEnding : stance ≠ .ending := by
    rintro rfl
    rw [Prompt, hPending] at hPrompt
    exact hPrompt List.mem_cons_self
  have hAction := Stance.periodicAction s.remoteReachable hMem
    hEnding
  rw [← hTrying, ← hPending] at hAction
  exact ⟨hAction.1, hAction.2.1, state, hAction.2.2, hState⟩

/- The thread of the one runnable that is pending. -/
theorem InStance.of_execute
    {index : Nat}
    (hStance : s.InStance stance)
    (hOnly : s.link.AvailabilityOnly)
    (hStep : step s (.execute index) = some s') :
    s'.InStance stance.afterExecute ∧
      s'.link.AvailabilityOnly := by
  have hPending := hStance.pending
  rcases hStance.master with ⟨state, hMem, hState⟩
  cases stance with
  | trying | watching =>
      simp only [step, hPending, Stance.pending,
        List.getElem?_nil] at hStep
      cases hStep
  | asking =>
      obtain rfl := List.mem_singleton.mp hMem
      cases index with
      | succ index =>
          simp only [step, hPending] at hStep
          cases hStep
      | zero =>
          have hFound : s.pending[0]? =
              some .availabilityModeCommand := by
            rw [hPending]
            rfl
          rw [step_execute hState hFound (.inl rfl)] at hStep
          cases hStep
          exact ⟨At.of_execute hStance rfl (by decide),
            hOnly.masterDispatch hState (by decide)⟩
  | ending =>
      obtain rfl := List.mem_singleton.mp hMem
      cases index with
      | succ index =>
          simp only [step, hPending] at hStep
          cases hStep
      | zero =>
          have hFound : s.pending[0]? =
              some .endModeCommand := by
            rw [hPending]
            rfl
          rw [step_execute hState hFound (.inr (.inr rfl))]
            at hStep
          cases hStep
          exact ⟨At.of_execute hStance rfl (by decide),
            hOnly.masterDispatch hState (by decide)⟩

theorem Attends.step
    (hAttends : Attends s)
    (hPrompt : Prompt s label)
    (hStep : ControlledLink.step s label = some s') :
    Attends s' := by
  rcases hAttends with ⟨⟨stance, hStance⟩, hOnly⟩
  cases label with
  | tick =>
      simp only [ControlledLink.step] at hStep
      split at hStep
      · rename_i state hState
        cases hStep
        exact ⟨⟨_, hStance.of_tick hState hPrompt⟩, hOnly⟩
      · cases hStep
  | execute index =>
      rcases hStance.of_execute hOnly hStep with
        ⟨hNext, hLink⟩
      exact ⟨⟨_, hNext⟩, hLink⟩
  | setRemoteReachability reachable =>
      cases hStep
      exact ⟨⟨stance, hStance.tryingAvalability,
        hStance.pending, hStance.master⟩, hOnly⟩
  | link linkLabel =>
      rcases exists_link_of_step hOnly hStep with
        ⟨link, hTaken, hLocal, rfl⟩
      rcases hOnly.step hLocal hTaken with
        ⟨hNext, hMaster⟩
      exact ⟨⟨stance, hStance.of_link stance.kept_masters
        hMaster⟩, hNext⟩

/-
  Whatever the line loses and whichever timers expire: the
  controller is in one of its stances, so that a test it
  waits for is asked for or under way, and both machines
  do nothing but availability tests.
-/
theorem never_forgets
    {labels : List ControlledLabel}
    (hPrompt : StepSystem.Along step Prompt start labels)
    (hRun : StepSystem.run step start labels = some s) :
    Attends s :=
  StepSystem.run_invariant_along
    (fun _ _ _ hAttends hOk hStep => hAttends.step hOk hStep)
    attends_start hPrompt hRun

/- A test whose command is lost at first, up to its end. -/
def resentTest : List ControlledLabel :=
  [.tick, .execute 0, .link (.loseToRemote 0),
    .link .masterTimeout, .link (.toRemote 0 0),
    .link .toMaster, .tick, .link (.toRemote 0 0), .tick,
    .execute 0]

theorem prompt_resentTest :
    StepSystem.Along step Prompt start resentTest := by
  decide

theorem never_forgets_resentTest :
    ∃ s, StepSystem.run step start resentTest = some s ∧
      s.link.master = some .waitAckAfterEndMode ∧
      Attends s :=
  ⟨_, rfl, rfl, never_forgets prompt_resentTest rfl⟩

------------------------------------------------------------
-- Test After Test
------------------------------------------------------------

/- The sessions started, set up or asked for. -/
def underWay (s : ControlledLink) : List Mode :=
  s.link.masterSessions ++
    (s.link.master.map MasterState.asked).getD [] ++
      sessionsOf s.pending

/- At rest, with nothing asked for. -/
structure Rests (s : ControlledLink) : Prop where
  link : s.link.AtRest
  tryingAvalability : s.tryingAvalability = false
  pending : s.pending = []

/- The controller attends, and its link is in its phase. -/
structure Follows (s : ControlledLink) : Prop where
  attends : Attends s
  phase : ∃ h, Link.InPhase s.link h

theorem follows_start : Follows start :=
  ⟨attends_start, _, Link.inPhase_start⟩

theorem Follows.step
    (hFollows : Follows s)
    (hPrompt : Prompt s label)
    (hClean : Clean s label)
    (hStep : ControlledLink.step s label = some s') :
    Follows s' := by
  refine ⟨hFollows.attends.step hPrompt hStep, ?_⟩
  cases label with
  | tick =>
      simp only [ControlledLink.step] at hStep
      split at hStep
      · cases hStep
        exact hFollows.phase
      · cases hStep
  | execute index =>
      simp only [ControlledLink.step] at hStep
      split at hStep
      · cases hStep
      · rename_i event _
        rcases Option.map_eq_some_iff.mp hStep with
          ⟨link, hTaken, rfl⟩
        have hOk : s.link.Clean (.command event) := trivial
        exact Link.inPhase_of_step hFollows.phase hOk hTaken
  | setRemoteReachability reachable =>
      cases hStep
      exact hFollows.phase
  | link linkLabel =>
      rcases exists_link_of_step hFollows.attends.link hStep
        with ⟨link, hTaken, -, rfl⟩
      exact Link.inPhase_of_step hFollows.phase hClean hTaken

theorem follows_of_run
    {labels : List ControlledLabel}
    (hHealthy : StepSystem.Along step Healthy start labels)
    (hRun : StepSystem.run step start labels = some s) :
    Follows s :=
  StepSystem.run_invariant_along
    (fun _ _ _ hFollows hOk hStep =>
      hFollows.step hOk.1 hOk.2 hStep)
    follows_start hHealthy hRun

/- The link sets up what it was asked for, and no more. -/
theorem underWay_link
    {linkLabel : LinkLabel}
    {link : Link}
    (hAttends : Attends s)
    (hLocal : ∀ event, linkLabel ≠ .command event)
    (hTaken : s.link.step linkLabel = some link) :
    underWay { s with link := link } = underWay s := by
  have hOnly := hAttends.link
  rcases hOnly.master with ⟨state, -, hState⟩
  rcases (hOnly.step hLocal hTaken).1.master with
    ⟨next, -, hNext⟩
  have hAsked : s.link.Asked
      (s.link.masterSessions ++ state.asked) := by
    refine ⟨List.prefix_append _ _, ?_⟩
    intro same hSame
    rw [Option.some.inj (hSame.symm.trans hState)]
  have hQuiet : s.link.BringsNoMode := by
    intro up hUp
    rcases hOnly.toMaster up hUp with hStandard | hAck
    · exact Link.not_asksForMode_of_isStandardCode hStandard
    · rw [hAck]
      decide
  have hDone := (hAsked.step hQuiet
    (fun event hCommand => absurd hCommand (hLocal event))
    hTaken).setUp next hNext
  simp only [underWay, hState, hNext, Option.map_some,
    Option.getD_some, hDone]

/- What is left until the controller and the link rest. -/
def workLeft (s : ControlledLink) : Nat :=
  2 * s.link.workLeft +
    (if Event.availabilityModeCommand ∈ s.pending then 77
      else 0) +
    (if s.tryingAvalability then 2 else 0) +
    if Event.endModeCommand ∈ s.pending then 0 else 1

def Stance.weight : Stance → Nat
  | .asking => 80
  | .trying => 3
  | .watching => 1
  | .ending => 0

theorem InStance.workLeft_eq
    (hStance : s.InStance stance) :
    s.workLeft = 2 * s.link.workLeft + stance.weight := by
  rw [workLeft, hStance.pending, hStance.tryingAvalability]
  cases stance <;> rfl

/- Some healthy step goes on with what is under way. -/
def Progresses (s : ControlledLink) : Prop :=
  ∃ label s', Healthy s label ∧
    step s label = some s' ∧ underWay s' = underWay s ∧
    workLeft s' < workLeft s

theorem progresses_of_link
    {linkLabel : LinkLabel}
    {link : Link}
    (hAttends : Attends s)
    (hLocal : ∀ event, linkLabel ≠ .command event)
    (hClean : s.link.Clean linkLabel)
    (hTaken : s.link.step linkLabel = some link)
    (hLess : link.workLeft < s.link.workLeft) :
    Progresses s := by
  refine ⟨.link linkLabel, _, ⟨trivial, hClean⟩,
    step_link hLocal hTaken,
    underWay_link hAttends hLocal hTaken, ?_⟩
  simp only [workLeft]
  omega

theorem InStance.progresses_of_tick
    {state : MasterState}
    (hStance : s.InStance stance)
    (hState : s.link.master = some state)
    (hPrompt : s.Prompt .tick)
    (hSame : sessionsOf (stance.afterTick state).pending =
      sessionsOf stance.pending)
    (hLess : (stance.afterTick state).weight < stance.weight) :
    Progresses s := by
  have hNext := hStance.of_tick hState hPrompt
  refine ⟨.tick, _, ⟨hPrompt, trivial⟩, step_tick hState,
    ?_, ?_⟩
  · rw [underWay, underWay, hNext.pending, hSame,
      hStance.pending]
    rfl
  · rw [hNext.workLeft_eq, hStance.workLeft_eq]
    exact Nat.add_lt_add_left hLess _

/- The test that was asked for is set up. -/
theorem progresses_of_asking
    (hAttends : Attends s)
    (hStance : s.InStance .asking) :
    Progresses s := by
  rcases hStance.master with ⟨state, hMem, hState⟩
  obtain rfl := List.mem_singleton.mp hMem
  have hPending : s.pending[0]? =
      some .availabilityModeCommand := by
    rw [hStance.pending]
    rfl
  have hStep := step_execute hState hPending (.inl rfl)
  have hNext := (hStance.of_execute hAttends.link hStep).1
  refine ⟨.execute 0, _, ⟨trivial, trivial⟩, hStep, ?_, ?_⟩
  · rw [underWay, underWay, hNext.pending, hStance.pending]
    simp [hState, Stance.pending, Stance.afterExecute,
      Link.masterDispatch, masterFsm, Fsm.dispatch,
      MasterState.react, Reaction.transitTo, Outcome.after,
      MasterState.started, MasterState.asked, sessionsOf,
      Event.mode?]
  · rw [hNext.workLeft_eq, hStance.workLeft_eq]
    simp [Link.workLeft, hState, Stance.weight,
      Stance.afterExecute, Link.masterDispatch, masterFsm,
      Fsm.dispatch, MasterState.react, Reaction.transitTo,
      MasterState.entrySends, Outcome.after,
      Link.masterWeight]
    omega

/- The test that is to end is ended. -/
theorem progresses_of_ending
    {h : Handshake}
    {mode : Mode}
    (hAttends : Attends s)
    (hStance : s.InStance .ending)
    (hPhase : Link.InPhase s.link h)
    (hRunning : h.phase = .running mode) :
    Progresses s := by
  rcases hStance.master with ⟨state, hMem, hState⟩
  obtain rfl := List.mem_singleton.mp hMem
  have hPending : s.pending[0]? = some .endModeCommand := by
    rw [hStance.pending]
    rfl
  have hCommand : IsModeCommand .endModeCommand :=
    .inr (.inr rfl)
  have hStep := step_execute hState hPending hCommand
  have hNext := (hStance.of_execute hAttends.link hStep).1
  refine ⟨.execute 0, _, ⟨trivial, trivial⟩, hStep, ?_, ?_⟩
  · rw [underWay, underWay, hNext.pending, hStance.pending]
    simp [hState, Stance.pending, Stance.afterExecute,
      Link.masterDispatch, masterFsm, Fsm.dispatch,
      MasterState.react, Reaction.transitTo, Outcome.after,
      MasterState.started, MasterState.asked, sessionsOf,
      Event.mode?]
  · rcases hPhase.exists_endModeCommand hRunning with
      ⟨link, hTaken, hLess⟩
    rw [Link.step_of_moves (.command hState hCommand),
      Option.some.injEq] at hTaken
    rw [hNext.workLeft_eq, hStance.workLeft_eq, hTaken]
    simp only [Stance.weight, Stance.afterExecute]
    omega

/- With nothing in flight the test runs, or all is at rest. -/
theorem testing_or_atRest
    {h : Handshake}
    (hOnly : s.link.AvailabilityOnly)
    (hPhase : Link.InPhase s.link h)
    (hToRemote : s.link.toRemote = [])
    (hToMaster : s.link.toMaster = []) :
    (s.link.master = some .availabilityMode ∧
        ∃ mode, h.phase = .running mode) ∨
      s.link.AtRest := by
  rcases hPhase.running_or_atRest hToRemote hToMaster with
    ⟨mode, hRunning⟩ | hAtRest
  · have hMaster := hPhase.master
    rw [hRunning] at hMaster
    cases mode with
    | availability => exact .inl ⟨hMaster, _, hRunning⟩
    | throughput =>
        rcases hOnly.master with ⟨state, hMem, hState⟩
        obtain rfl := Option.some.inj
          (hMaster.symm.trans hState)
        exact absurd hMem (by decide)
  · exact .inr hAtRest

/- The controller goes on where nothing is in flight. -/
theorem progresses_of_quiet
    {h : Handshake}
    (hAttends : Attends s)
    (hPhase : Link.InPhase s.link h)
    (hStance : s.InStance stance)
    (hToRemote : s.link.toRemote = [])
    (hToMaster : s.link.toMaster = [])
    (hNot : ¬ Rests s) :
    Progresses s := by
  have hQuiet := testing_or_atRest hAttends.link hPhase
    hToRemote hToMaster
  rcases hStance.master with ⟨state, hMem, hState⟩
  cases stance with
  | asking => exact progresses_of_asking hAttends hStance
  | trying =>
      rcases hQuiet with ⟨hTesting, -⟩ | hAtRest
      · refine hStance.progresses_of_tick hTesting ?_ rfl
          (by decide)
        rw [Prompt, hStance.pending]
        exact List.not_mem_nil
      · obtain rfl := Option.some.inj
          (hAtRest.master.symm.trans hState)
        exact absurd hMem (by decide)
  | watching =>
      rcases hQuiet with ⟨hTesting, -⟩ | hAtRest
      · refine hStance.progresses_of_tick hTesting ?_ rfl
          (by decide)
        rw [Prompt, hStance.pending]
        exact List.not_mem_nil
      · exact absurd ⟨hAtRest, hStance.tryingAvalability,
          hStance.pending⟩ hNot
  | ending =>
      rcases hQuiet with ⟨-, mode, hRunning⟩ | hAtRest
      · exact progresses_of_ending hAttends hStance hPhase
          hRunning
      · obtain rfl := Option.some.inj
          (hAtRest.master.symm.trans hState)
        exact absurd hMem (by decide)

theorem Follows.progresses
    (hFollows : Follows s)
    (hNot : ¬ Rests s) :
    Progresses s := by
  rcases hFollows with ⟨hAttends, h, hPhase⟩
  rcases hAttends.stance with ⟨stance, hStance⟩
  rcases hPhase.reads_or_quiet with
    ⟨label, link, hLocal, hOk, hTaken, hLess⟩ |
      ⟨hToRemote, hToMaster⟩
  · exact progresses_of_link hAttends hLocal hOk.1 hTaken
      hLess
  · exact progresses_of_quiet hAttends hPhase hStance
      hToRemote hToMaster hNot

/- What is under way is done, and nothing else. -/
theorem exists_rests_of_follows
    (hFollows : Follows s) :
    ∃ labels s', StepSystem.Along step Healthy s labels ∧
      StepSystem.run step s labels = some s' ∧
      Follows s' ∧ Rests s' ∧
      s'.link.masterSessions = s.underWay := by
  have hProgress : ∀ s₁, Follows s₁ ∧
      underWay s₁ = underWay s → ¬ Rests s₁ →
      ∃ label s₂, Healthy s₁ label ∧
        step s₁ label = some s₂ ∧
        (Follows s₂ ∧ underWay s₂ = underWay s) ∧
        workLeft s₂ < workLeft s₁ := by
    rintro s₁ ⟨hHere, hSame⟩ hNot
    rcases hHere.progresses hNot with
      ⟨label, s₂, hOk, hStep, hKept, hLess⟩
    exact ⟨label, s₂, hOk, hStep,
      ⟨hHere.step hOk.1 hOk.2 hStep, hKept.trans hSame⟩,
      hLess⟩
  rcases StepSystem.exists_run_of_decreasing workLeft
      hProgress ⟨hFollows, rfl⟩ with
    ⟨labels, s', hAlong, hRun, ⟨hNext, hSame⟩, hRests⟩
  refine ⟨labels, s', hAlong, hRun, hNext, hRests, ?_⟩
  rw [← hSame, underWay, hRests.link.master, hRests.pending]
  simp [MasterState.asked, sessionsOf]

/- A controller that rests asks for the next test. -/
theorem exists_tick_of_rests
    (hFollows : Follows s)
    (hRests : Rests s) :
    ∃ s', Healthy s .tick ∧ step s .tick = some s' ∧
      Follows s' ∧
      s'.underWay = s.link.masterSessions ++ [.availability] := by
  have hIdle := hRests.link.master
  have hPrompt : s.Prompt .tick := by
    rw [Prompt, hRests.pending]
    exact List.not_mem_nil
  refine ⟨_, ⟨hPrompt, trivial⟩, step_tick hIdle,
    hFollows.step hPrompt trivial (step_tick hIdle), ?_⟩
  simp [underWay, afterAction, controller, hIdle,
    hRests.tryingAvalability, hRests.pending,
    MasterController.periodicAction,
    MasterController.addAndStartRunnable, MasterState.asked,
    sessionsOf, Event.mode?]

/- So that any number of tests can follow. -/
theorem exists_tests_of_follows
    (hFollows : Follows s)
    (tests : Nat) :
    ∃ labels s', StepSystem.Along step Healthy s labels ∧
      StepSystem.run step s labels = some s' ∧
      Follows s' ∧ Rests s' ∧
      s'.link.masterSessions =
        s.underWay ++ List.replicate tests .availability := by
  induction tests with
  | zero =>
      rcases exists_rests_of_follows hFollows with
        ⟨labels, s', hAlong, hRun, hNext, hRests, hDone⟩
      exact ⟨labels, s', hAlong, hRun, hNext, hRests,
        hDone.trans (List.append_nil _).symm⟩
  | succ tests ih =>
      rcases ih with
        ⟨front, s₁, hFront, hRun₁, hFollows₁, hRests₁, hDone₁⟩
      rcases exists_tick_of_rests hFollows₁ hRests₁ with
        ⟨s₂, hOk, hTick, hFollows₂, hAsked⟩
      rcases exists_rests_of_follows hFollows₂ with
        ⟨back, s₃, hBack, hRun₃, hFollows₃, hRests₃, hDone₃⟩
      refine ⟨front ++ .tick :: back, s₃, ?_, ?_, hFollows₃,
        hRests₃, ?_⟩
      · rw [StepSystem.along_append hRun₁,
          StepSystem.along_cons_of_step hTick]
        exact ⟨hFront, hOk, hBack⟩
      · rw [StepSystem.run_append hRun₁,
          StepSystem.run_cons_of_step hTick, hRun₃]
      · rw [hDone₃, hAsked, hDone₁, List.append_assoc,
          List.replicate_succ']

/- The first test, as far as the remote has answered it. -/
def askedTest : List ControlledLabel :=
  [.tick, .execute 0, .link (.toRemote 0 0)]

theorem healthy_askedTest :
    StepSystem.Along step Healthy start askedTest := by
  decide

/- Clean steps lead there, and the link is in its phase. -/
def CanReach
    (s : ControlledLink)
    (tryingAvalability : Bool)
    (pending : List Event)
    (masters : List MasterState) : Prop :=
  ∃ labels s', StepSystem.Along step Clean s labels ∧
    StepSystem.run step s labels = some s' ∧
    s'.link.AvailabilityOnly ∧
    (∃ h, Link.InPhase s'.link h) ∧
    s'.At tryingAvalability pending masters

theorem CanReach.trans
    (hFirst : s.CanReach trying pending masters)
    (hSecond : ∀ s' : ControlledLink,
      s'.link.AvailabilityOnly →
      (∃ h, Link.InPhase s'.link h) →
      s'.At trying pending masters →
        s'.CanReach trying' pending' masters') :
    s.CanReach trying' pending' masters' := by
  rcases hFirst with
    ⟨front, s₁, hFront, hRun₁, hOnly₁, hPhase₁, hAt₁⟩
  rcases hSecond s₁ hOnly₁ hPhase₁ hAt₁ with
    ⟨back, s₂, hBack, hRun₂, hOnly₂, hPhase₂, hAt₂⟩
  refine ⟨front ++ back, s₂, ?_, ?_, hOnly₂, hPhase₂, hAt₂⟩
  · rw [StepSystem.along_append hRun₁]
    exact ⟨hFront, hBack⟩
  · rw [StepSystem.run_append hRun₁, hRun₂]

/- A thread of the pool dispatches its event. -/
theorem canReach_of_execute
    {state next : MasterState}
    {event : Event}
    (index : Nat)
    (hOnly : s.link.AvailabilityOnly)
    (hPhase : ∃ h, Link.InPhase s.link h)
    (hAt : s.At trying pending [state])
    (hEvent : pending[index]? = some event)
    (hCommand : IsModeCommand event)
    (hTaken : event ∈ Link.masterEvents)
    (hNext : (masterFsm.dispatch state event).2.after state =
      some next)
    (hMem : next ∈ masters) :
    s.CanReach trying (pending.eraseIdx index) masters := by
  rcases hAt.master with ⟨_, hHere, hState⟩
  obtain rfl := List.mem_singleton.mp hHere
  have hFound : s.pending[index]? = some event := by
    rw [hAt.pending, hEvent]
  have hStep := step_execute hState hFound hCommand
  have hOk : s.link.Clean (.command event) := trivial
  refine ⟨[.execute index], _, ?_,
    StepSystem.run_of_step hStep,
    hOnly.masterDispatch hState hTaken,
    Link.inPhase_of_step hPhase hOk
      (Link.step_of_moves (.command hState hCommand)),
    hAt.of_execute hNext hMem⟩
  rw [StepSystem.along_cons_of_step hStep]
  exact ⟨trivial, trivial⟩

/- The action of a tick. -/
theorem canReach_of_tick
    {state : MasterState}
    (hOnly : s.link.AvailabilityOnly)
    (hPhase : ∃ h, Link.InPhase s.link h)
    (hAt : s.At trying pending [state])
    (hAction : ∀ remoteReachable,
      let c := MasterController.periodicAction
        ⟨state, remoteReachable, trying, pending⟩
      c.tryingAvalability = trying' ∧ c.pending = pending') :
    s.CanReach trying' pending' [state] := by
  rcases hAt.master with ⟨_, hHere, hState⟩
  obtain rfl := List.mem_singleton.mp hHere
  have hStep := step_tick hState
  refine ⟨[.tick], _, ?_, StepSystem.run_of_step hStep, hOnly,
    hPhase, hAt.of_tick hAction⟩
  rw [StepSystem.along_cons_of_step hStep]
  exact ⟨trivial, trivial⟩

/- What is in flight is read. -/
theorem exists_read
    (hKept : Kept masters)
    (hOnly : s.link.AvailabilityOnly)
    (hPhase : ∃ h, Link.InPhase s.link h)
    (hAt : s.At trying pending masters)
    (hNot : ¬ (s.link.toRemote = [] ∧ s.link.toMaster = [])) :
    ∃ label s', Clean s label ∧ step s label = some s' ∧
      (s'.link.AvailabilityOnly ∧
        (∃ h, Link.InPhase s'.link h) ∧
        s'.At trying pending masters) ∧
      s'.link.workLeft < s.link.workLeft := by
  rcases hPhase with ⟨h, hPhase⟩
  rcases hPhase.reads_or_quiet with
    ⟨linkLabel, link, hLocal, hOk, hTaken, hLess⟩ | hQuiet
  · rcases hOnly.step hLocal hTaken with ⟨hNext, hMaster⟩
    exact ⟨.link linkLabel, _, hOk.1, step_link hLocal hTaken,
      ⟨hNext, Link.inPhase_of_step ⟨h, hPhase⟩ hOk.1 hTaken,
        hAt.of_link hKept hMaster⟩, hLess⟩
  · exact absurd hQuiet hNot

/-
  All that is in flight is read; then the test runs, or all
  is at rest.
-/
theorem canReach_of_kept
    (hOnly : s.link.AvailabilityOnly)
    (hPhase : ∃ h, Link.InPhase s.link h)
    (hAt : s.At trying pending masters)
    (hKept : Kept masters) :
    s.CanReach trying pending
      (masters.filter fun state =>
        state = .idle ∨ state = .availabilityMode) := by
  rcases StepSystem.exists_run_of_decreasing
      (fun s : ControlledLink => s.link.workLeft)
      (I := fun s : ControlledLink =>
        s.link.AvailabilityOnly ∧
          (∃ h, Link.InPhase s.link h) ∧
          s.At trying pending masters)
      (P := fun s : ControlledLink =>
        s.link.toRemote = [] ∧ s.link.toMaster = [])
      (fun _ hHere hNot =>
        exists_read hKept hHere.1 hHere.2.1 hHere.2.2 hNot)
      ⟨hOnly, hPhase, hAt⟩ with
    ⟨labels, s', hAlong, hRun, ⟨hOnly', ⟨h, hPhase'⟩, hAt'⟩,
      hToRemote, hToMaster⟩
  refine ⟨labels, s', hAlong, hRun, hOnly', ⟨h, hPhase'⟩,
    hAt'.tryingAvalability, hAt'.pending, ?_⟩
  rcases hAt'.master with ⟨state, hMem, hState⟩
  refine ⟨state, List.mem_filter.mpr ⟨hMem, ?_⟩, hState⟩
  rw [decide_eq_true_iff]
  rcases testing_or_atRest hOnly' hPhase' hToRemote
      hToMaster with
    ⟨hTesting, -⟩ | hAtRest
  · exact .inr (Option.some.inj (hState.symm.trans hTesting))
  · exact .inl
      (Option.some.inj (hState.symm.trans hAtRest.master))

/- The flag is set, and no command will clear it. -/
def Forgotten (s : ControlledLink) : Prop :=
  s.At true [] [.idle]

/- Then nothing happens any more. -/
theorem forever_forgotten
    (hOnly : s.link.AvailabilityOnly)
    (hForgotten : s.Forgotten) :
    StepSystem.Forever step Forgotten s := by
  refine StepSystem.forever_of_preserved
    (I := fun s : ControlledLink =>
      s.link.AvailabilityOnly ∧ s.Forgotten)
    ?_ (fun _ hKept => hKept.2) ⟨hOnly, hForgotten⟩
  rintro s label s' ⟨hOnly, hAt⟩ hStep
  cases label with
  | tick =>
      rcases hAt.master with ⟨_, hHere, hState⟩
      obtain rfl := List.mem_singleton.mp hHere
      rw [step_tick hState, Option.some.injEq] at hStep
      subst hStep
      exact ⟨hOnly, hAt.of_tick fun _ => ⟨rfl, rfl⟩⟩
  | execute index =>
      simp only [step, hAt.pending, List.getElem?_nil] at hStep
      cases hStep
  | setRemoteReachability reachable =>
      cases hStep
      exact ⟨hOnly, hAt.tryingAvalability, hAt.pending,
        hAt.master⟩
  | link linkLabel =>
      rcases exists_link_of_step hOnly hStep with
        ⟨link, hTaken, hLocal, rfl⟩
      rcases hOnly.step hLocal hTaken with ⟨hNext, hMaster⟩
      exact ⟨hNext, hAt.of_link (Stance.kept_masters .asking)
        hMaster⟩

/- A mode that was ended stays so. -/
theorem kept_ended :
    Kept [.waitAckAfterEndMode, .idle] := by
  decide

/- Two commands that end a mode, and one of them too late. -/
theorem canReach_forgotten
    (hAt : s.At false [.endModeCommand, .endModeCommand]
      [.availabilityMode])
    (hOnly : s.link.AvailabilityOnly)
    (hPhase : ∃ h, Link.InPhase s.link h) :
    s.CanReach true [] [.idle] := by
  have hEnd : IsModeCommand .endModeCommand :=
    .inr (.inr rfl)
  have hEnded : s.CanReach false [.endModeCommand]
      [.waitAckAfterEndMode, .idle] :=
    canReach_of_execute 0 hOnly hPhase hAt rfl hEnd
      (by decide) rfl (by decide)
  have hIdle : s.CanReach false [.endModeCommand] [.idle] :=
    hEnded.trans fun s hOnly hPhase hAt =>
      canReach_of_kept hOnly hPhase hAt kept_ended
  -- The next test is asked for with the other one pending.
  have hAsked : s.CanReach true
      [.endModeCommand, .availabilityModeCommand] [.idle] :=
    hIdle.trans fun s hOnly hPhase hAt =>
      canReach_of_tick hOnly hPhase hAt fun _ => ⟨rfl, rfl⟩
  have hSetUp : s.CanReach true [.endModeCommand]
      Stance.trying.masters :=
    hAsked.trans fun s hOnly hPhase hAt =>
      canReach_of_execute 1 hOnly hPhase hAt rfl (.inl rfl)
        (by decide) rfl (by decide)
  have hTesting : s.CanReach true [.endModeCommand]
      [.availabilityMode] :=
    hSetUp.trans fun s hOnly hPhase hAt =>
      canReach_of_kept hOnly hPhase hAt
        (Stance.kept_masters .trying)
  -- It ends the test before a tick has noticed it.
  have hEndedAgain : s.CanReach true []
      [.waitAckAfterEndMode, .idle] :=
    hTesting.trans fun s hOnly hPhase hAt =>
      canReach_of_execute 0 hOnly hPhase hAt rfl hEnd
        (by decide) rfl (by decide)
  exact hEndedAgain.trans fun s hOnly hPhase hAt =>
    canReach_of_kept hOnly hPhase hAt kept_ended

/-
  The condition on the ticks is needed: after a step that
  misses it the link can go on without a fault to where the
  controller waits for ever for a test that nobody asks for.
-/
theorem may_forget_of_not_prompt
    {labels : List ControlledLabel}
    (hHealthy : StepSystem.Along step Healthy start labels)
    (hRun : StepSystem.run step start labels = some s)
    (hNot : ¬ s.Prompt label)
    (hStep : step s label = some s') :
    ∃ labels' s'', StepSystem.Along step Clean s' labels' ∧
      StepSystem.run step s' labels' = some s'' ∧
      StepSystem.Forever step Forgotten s'' := by
  have hFollows := follows_of_run hHealthy hRun
  rcases hFollows.attends.stance with ⟨stance, hStance⟩
  cases label with
  | execute | setRemoteReachability | link =>
      exact absurd trivial hNot
  | tick =>
      have hMem := not_not.mp hNot
      rw [hStance.pending] at hMem
      cases stance with
      | asking | trying | watching =>
          exact absurd hMem (by decide)
      | ending =>
          rcases hStance.master with ⟨_, hHere, hState⟩
          obtain rfl := List.mem_singleton.mp hHere
          rw [step_tick hState, Option.some.injEq] at hStep
          subst hStep
          have hAt : (s.afterAction (s.controller
              .availabilityMode).periodicAction).At false
                [.endModeCommand, .endModeCommand]
                [.availabilityMode] :=
            At.of_tick hStance fun _ => ⟨rfl, rfl⟩
          rcases canReach_forgotten hAt hFollows.attends.link
              hFollows.phase with
            ⟨labels', s'', hAlong, hRun', hOnly, -, hForgot⟩
          exact ⟨labels', s'', hAlong, hRun',
            forever_forgotten hOnly hForgot⟩

/- A test, up to the tick that asks for its end. -/
def endingTest : List ControlledLabel :=
  [.tick, .execute 0, .link (.toRemote 0 0), .link .toMaster,
    .tick, .tick]

theorem healthy_endingTest :
    StepSystem.Along step Healthy start endingTest := by
  decide

theorem may_forget_of_not_prompt_endingTest :
    ∃ s s', StepSystem.run step start endingTest = some s ∧
      step s .tick = some s' ∧
      ∃ labels' s'', StepSystem.Along step Clean s' labels' ∧
        StepSystem.run step s' labels' = some s'' ∧
        StepSystem.Forever step Forgotten s'' := by
  have hParts : (StepSystem.run step start endingTest).map
      (fun s => (s.pending, s.link.master)) =
        some ([.endModeCommand], some .availabilityMode) := by
    decide
  rcases Option.map_eq_some_iff.mp hParts with
    ⟨s, hRun, hSame⟩
  rcases Prod.mk.inj hSame with ⟨hPending, hMaster⟩
  have hNot : ¬ s.Prompt .tick := by
    rw [Prompt, hPending]
    exact not_not.mpr List.mem_cons_self
  have hStep := step_tick hMaster
  exact ⟨s, _, hRun, hStep,
    may_forget_of_not_prompt healthy_endingTest hRun hNot
      hStep⟩

end ControlledLink

end ModemTester
