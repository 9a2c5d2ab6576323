import ModemTester.Link.ModeAgreement
import ModemTester.Link.ResultGuard

/-
  The handshake when nothing goes wrong.

  On a link that loses nothing, with no timer expiring and
  no result that contains the identifier of an event, the
  two machines go through a session together. The pair of
  their states tells which commands are on the link, and no
  command that is read is ever refused.

  The cycle of a session is given as a machine of its own,
  on phases instead of states and queues, and the link
  refines it: it takes a turn for each dispatch that matters
  and none for test data, results and refused local
  commands.

  That a session can be ended is shown for machines which
  have a read pending again after each byte, whatever the
  byte was; `Link/ReadingLink.lean` says where they have not.

  Key definitions include:
    * `Phase`
    * `Handshake.step`
    * `Link.Clean`
    * `Link.InPhase`

  Main declarations:
    * `Link.refines_handshake`
    * `Link.accepts_of_clean`
    * `Link.can_rest_of_clean`
-/

------------------------------------------------------------
-- The Cycle Of A Session
------------------------------------------------------------

namespace ModemTester

inductive Phase where
  | rest
  /- The command of the mode is on its way. -/
  | requested (mode : Mode)
  /- The remote has acknowledged it. -/
  | granted (mode : Mode)
  /- The master is in the mode, its acknowledgement not. -/
  | entered (mode : Mode)
  | running (mode : Mode)
  /- The master has left before the remote entered. -/
  | left (mode : Mode)
  /- The end of the mode is on its way. -/
  | ending (mode : Mode)
  /- The remote has acknowledged it. -/
  | ended
  /- The master is idle, its acknowledgement on its way. -/
  | closing
  /- And the next command behind it. -/
  | reopened (mode : Mode)
  deriving DecidableEq, Repr

/- The byte that asks for the mode. -/
def Mode.commandId : Mode → Byte
  | .availability => availabilityModeCommandId
  | .throughput => throughputModeCommandId

namespace Phase

def master : Phase → MasterState
  | .rest | .closing => .idle
  | .requested mode | .granted mode
  | .reopened mode => mode.masterSent
  | .entered mode | .running mode => mode.masterActivity
  | .left _ | .ending _ | .ended => .waitAckAfterEndMode

def remote : Phase → RemoteState
  | .rest | .requested _ => .remoteIdle
  | .granted mode | .entered mode
  | .left mode => mode.remoteReceived
  | .running mode | .ending mode => mode.remoteActivity
  | .ended | .closing | .reopened _ => .endModeReceived

/- The commands on their way to the remote. -/
def toRemote : Phase → List Byte
  | .requested mode => [mode.commandId]
  | .entered _ | .closing => [masterAckId]
  | .left _ => [masterAckId, endModeCommandId]
  | .ending _ => [endModeCommandId]
  | .reopened mode => [masterAckId, mode.commandId]
  | .rest | .granted _ | .running _ | .ended => []

/- The commands on their way to the master. -/
def toMaster : Phase → List Byte
  | .granted _ | .ended => [remoteAckId]
  | _ => []

/- The session that only the master has started. -/
def ahead : Phase → List Mode
  | .entered mode | .left mode => [mode]
  | _ => []

end Phase

/- The phase, and the sessions that both have started. -/
structure Handshake where
  phase : Phase
  sessions : List Mode

inductive Turn where
  | command (event : Event)
  | remoteReads
  | masterReads
  deriving DecidableEq, Repr

namespace Handshake

def start : Handshake := ⟨.rest, []⟩

def step (h : Handshake) : Turn → Option Handshake
  | .command event =>
      match h.phase, event with
      | .rest, .availabilityModeCommand =>
          some ⟨.requested .availability, h.sessions⟩
      | .rest, .throughputModeCommand =>
          some ⟨.requested .throughput, h.sessions⟩
      | .closing, .availabilityModeCommand =>
          some ⟨.reopened .availability, h.sessions⟩
      | .closing, .throughputModeCommand =>
          some ⟨.reopened .throughput, h.sessions⟩
      | .entered mode, .endModeCommand =>
          some ⟨.left mode, h.sessions⟩
      | .running mode, .endModeCommand =>
          some ⟨.ending mode, h.sessions⟩
      | _, _ => none
  | .remoteReads =>
      match h.phase with
      | .requested mode => some ⟨.granted mode, h.sessions⟩
      | .entered mode =>
          some ⟨.running mode, h.sessions ++ [mode]⟩
      | .left mode =>
          some ⟨.ending mode, h.sessions ++ [mode]⟩
      | .ending _ => some ⟨.ended, h.sessions⟩
      | .closing => some ⟨.rest, h.sessions⟩
      | .reopened mode => some ⟨.requested mode, h.sessions⟩
      | _ => none
  | .masterReads =>
      match h.phase with
      | .granted mode => some ⟨.entered mode, h.sessions⟩
      | .ended => some ⟨.closing, h.sessions⟩
      | _ => none

------------------------------------------------------------
-- What The Machines Do In Each Turn
------------------------------------------------------------

/- A dispatch of the master that makes a turn. -/
structure MasterTurn
    (h : Handshake)
    (event : Event)
    (h' : Handshake)
    (sent : List Byte) : Prop where
  dispatch : masterFsm.dispatch h.phase.master event =
    (sent, .transits h'.phase.master)
  remote : h'.phase.remote = h.phase.remote
  toRemote : h'.phase.toRemote = h.phase.toRemote ++ sent
  sessions : h'.sessions ++ h'.phase.ahead =
    h.sessions ++ h.phase.ahead ++
      h.phase.master.started (.transits h'.phase.master)
  same_sessions : h'.sessions = h.sessions

/- A dispatch of the remote that makes a turn. -/
structure RemoteTurn
    (h : Handshake)
    (event : Event)
    (h' : Handshake)
    (sent : List Byte) : Prop where
  dispatch : remoteFsm.dispatch h.phase.remote event =
    (sent, .transits h'.phase.remote)
  master : h'.phase.master = h.phase.master
  toMaster : h'.phase.toMaster = h.phase.toMaster ++ sent
  sessions : h'.sessions = h.sessions ++
    h.phase.remote.started (.transits h'.phase.remote)
  all_sessions : h'.sessions ++ h'.phase.ahead =
    h.sessions ++ h.phase.ahead

/- The next command on its way makes the remote's turn. -/
theorem exists_remoteTurn
    {h : Handshake}
    {byte : Byte}
    {rest : List Byte}
    (hHead : h.phase.toRemote = byte :: rest) :
    ∃ event h' sent, step h .remoteReads = some h' ∧
      h.phase.remote.handleByte byte = .dispatch event ∧
      RemoteTurn h event h' sent ∧
      h'.phase.toRemote = rest := by
  rcases h with ⟨phase, sessions⟩
  cases phase with
  | rest | granted mode | running mode | ended =>
      simp [Phase.toRemote] at hHead
  | closing =>
      cases hHead
      exact ⟨.masterAck, _, [], rfl, rfl,
        ⟨rfl, rfl, rfl, (List.append_nil _).symm, rfl⟩, rfl⟩
  | requested mode =>
      cases mode <;> cases hHead
      · exact ⟨.availabilityModeCommand, _, [remoteAckId], rfl,
          rfl, ⟨rfl, rfl, rfl, (List.append_nil _).symm, rfl⟩,
          rfl⟩
      · exact ⟨.throughputModeCommand, _, [remoteAckId], rfl,
          rfl, ⟨rfl, rfl, rfl, (List.append_nil _).symm, rfl⟩,
          rfl⟩
  | entered mode | left mode =>
      cases mode <;> cases hHead
      all_goals
        exact ⟨.masterAck, _, [], rfl, rfl,
          ⟨rfl, rfl, rfl, rfl, List.append_nil _⟩, rfl⟩
  | ending mode =>
      cases mode <;> cases hHead
      all_goals
        exact ⟨.endModeCommand, _, [remoteAckId], rfl, rfl,
          ⟨rfl, rfl, rfl, (List.append_nil _).symm, rfl⟩, rfl⟩
  | reopened mode =>
      cases hHead
      exact ⟨.masterAck, _, [], rfl, rfl,
        ⟨rfl, by cases mode <;> rfl, rfl,
          (List.append_nil _).symm, rfl⟩, rfl⟩

/- So it is with the master, who waits for `RemoteAck`. -/
theorem exists_masterTurn
    {h : Handshake}
    {byte : Byte}
    {rest : List Byte}
    (hHead : h.phase.toMaster = byte :: rest) :
    ∃ event h' sent, step h .masterReads = some h' ∧
      h.phase.master.readByte byte = some event ∧
      MasterTurn h event h' sent ∧
      h'.phase.toMaster = rest := by
  rcases h with ⟨phase, sessions⟩
  cases phase with
  | rest | requested mode | entered mode | running mode
  | left mode | ending mode | closing | reopened mode =>
      simp [Phase.toMaster] at hHead
  | granted mode =>
      cases mode <;> cases hHead
      all_goals
        exact ⟨.remoteAck, _, [masterAckId], rfl, rfl,
          ⟨rfl, rfl, rfl, by simp [Phase.ahead, Phase.master,
            Mode.masterSent, Mode.masterActivity,
            MasterState.started], rfl⟩, rfl⟩
  | ended =>
      cases hHead
      exact ⟨.remoteAck, _, [masterAckId], rfl, rfl,
        ⟨rfl, rfl, rfl, by simp [Phase.ahead, Phase.master,
          MasterState.started], rfl⟩, rfl⟩

/- A local command makes a turn, or it is not taken. -/
theorem command_cases
    (h : Handshake)
    {event : Event}
    (hCommand : IsModeCommand event) :
    masterFsm.dispatch h.phase.master event = ([], .stays) ∨
      ∃ h' sent, step h (.command event) = some h' ∧
        MasterTurn h event h' sent ∧
        h'.phase.toMaster = h.phase.toMaster := by
  rcases h with ⟨phase, sessions⟩
  cases phase with
  | rest | closing =>
      rcases hCommand with rfl | rfl | rfl
      · exact .inr ⟨_, [availabilityModeCommandId], rfl,
          ⟨rfl, rfl, rfl, by simp [Phase.ahead, Phase.master,
            MasterState.started], rfl⟩, rfl⟩
      · exact .inr ⟨_, [throughputModeCommandId], rfl,
          ⟨rfl, rfl, rfl, by simp [Phase.ahead, Phase.master,
            MasterState.started], rfl⟩, rfl⟩
      · exact .inl rfl
  | entered mode | running mode =>
      rcases hCommand with rfl | rfl | rfl
      · cases mode <;> exact .inl rfl
      · cases mode <;> exact .inl rfl
      · refine .inr ⟨_, [endModeCommandId], rfl,
          ⟨by cases mode <;> rfl, rfl, rfl, ?_, rfl⟩, rfl⟩
        cases mode <;> simp [Phase.ahead, Phase.master,
          Mode.masterActivity, MasterState.started]
  | requested mode | granted mode | reopened mode =>
      refine .inl ?_
      rcases hCommand with rfl | rfl | rfl <;>
        cases mode <;> rfl
  | left mode | ending mode | ended =>
      refine .inl ?_
      rcases hCommand with rfl | rfl | rfl <;> rfl

end Handshake

end ModemTester

------------------------------------------------------------
-- Commands On The Link
------------------------------------------------------------

namespace ModemTester

/- The bytes that are identifiers of events. -/
def commandsIn (bytes : List Byte) : List Byte :=
  bytes.filter fun byte => IsCommandByte byte

theorem commandsIn_append (bytes bytes' : List Byte) :
    commandsIn (bytes ++ bytes') =
      commandsIn bytes ++ commandsIn bytes' :=
  List.filter_append ..

theorem commandsIn_cons_of_isCommandByte
    {byte : Byte}
    (bytes : List Byte)
    (hCommand : IsCommandByte byte) :
    commandsIn (byte :: bytes) = byte :: commandsIn bytes := by
  simp [commandsIn, hCommand]

theorem commandsIn_cons_of_not
    {byte : Byte}
    (bytes : List Byte)
    (hNot : ¬ IsCommandByte byte) :
    commandsIn (byte :: bytes) = commandsIn bytes := by
  simp [commandsIn, hNot]

theorem commandsIn_eq_nil
    {bytes : List Byte}
    (hNone : ∀ byte ∈ bytes, ¬ IsCommandByte byte) :
    commandsIn bytes = [] := by
  simpa [commandsIn] using hNone

theorem not_isCommandByte_of_isStandardCode
    {byte : Byte}
    (hStandard : IsStandardCode byte) :
    ¬ IsCommandByte byte := by
  rintro ⟨hLow, -⟩
  have hByte := hLow.trans hStandard.2
  exact absurd hByte (by decide)

/- The machines write identifiers of events only. -/
theorem commandsIn_masterSent
    (state : MasterState)
    (event : Event) :
    commandsIn (masterFsm.dispatch state event).1 =
      (masterFsm.dispatch state event).1 := by
  cases state <;> cases event <;> rfl

theorem commandsIn_remoteSent
    (state : RemoteState)
    (event : Event) :
    commandsIn (remoteFsm.dispatch state event).1 =
      (remoteFsm.dispatch state event).1 := by
  cases state <;> cases event <;> rfl

theorem readByte_of_not_isCommandByte
    (state : MasterState)
    {byte : Byte}
    (hNot : ¬ IsCommandByte byte) :
    state.readByte byte = none := by
  cases hRead : state.readByte byte with
  | none => rfl
  | some event => exact absurd (isCommandByte_of_readByte hRead) hNot

theorem isCommandByte_of_handleByte
    {state : RemoteState}
    {byte : Byte}
    {event : Event}
    (hHandling : state.handleByte byte = .dispatch event) :
    IsCommandByte byte := by
  have hVal := RemoteState.val_of_handleByte hHandling
  have hLe : (241 : Nat) ≤ byte.val ∧ byte.val ≤ 246 := by
    cases event <;> simp [Event.eventId] at hVal <;> omega
  exact hLe

end ModemTester

------------------------------------------------------------
-- The Link Follows The Cycle
------------------------------------------------------------

namespace ModemTester

namespace Link

open Handshake

/-
  Nothing is lost, no timer expires, and no byte of a result
  is the identifier of an event.
-/
def Clean (c : Link) : LinkLabel → Prop
  | .command _ | .payload _ | .toMaster => True
  | .toRemote totalReceived totalUsec =>
      Replies c →
        ∀ byte ∈ resultBytes totalReceived totalUsec,
          ¬ IsCommandByte byte
  | .masterTimeout | .remoteTimeout
  | .loseToRemote _ | .loseToMaster _ => False

instance (c : Link) : (label : LinkLabel) →
    Decidable (c.Clean label)
  | .command _ => .isTrue trivial
  | .payload _ => .isTrue trivial
  | .toMaster => .isTrue trivial
  | .toRemote totalReceived totalUsec =>
      inferInstanceAs (Decidable (Replies c →
        ∀ byte ∈ resultBytes totalReceived totalUsec,
          ¬ IsCommandByte byte))
  | .masterTimeout => .isFalse id
  | .remoteTimeout => .isFalse id
  | .loseToRemote _ => .isFalse id
  | .loseToMaster _ => .isFalse id

/- States, commands in flight and sessions are the phase's. -/
structure InPhase (c : Link) (h : Handshake) : Prop where
  master : c.master = some h.phase.master
  remote : c.remote = some h.phase.remote
  toRemote : commandsIn (c.toRemote.map Downlink.byte) =
    h.phase.toRemote
  toMaster : commandsIn (c.toMaster.map Uplink.byte) =
    h.phase.toMaster
  masterSessions : c.masterSessions =
    h.sessions ++ h.phase.ahead
  remoteSessions : c.remoteSessions = h.sessions

theorem inPhase_start : InPhase start Handshake.start where
  master := rfl
  remote := rfl
  toRemote := rfl
  toMaster := rfl
  masterSessions := rfl
  remoteSessions := rfl

variable {c c' : Link}
variable {h h' : Handshake}

/- The master's dispatch writes behind what is in flight. -/
theorem InPhase.masterDispatch
    {event : Event}
    {sent : List Byte}
    {queue : List Uplink}
    (hPhase : InPhase c h)
    (hTurn : MasterTurn h event h' sent)
    (hQueue : commandsIn (queue.map Uplink.byte) =
      h'.phase.toMaster) :
    InPhase
      ({ c with toMaster := queue }.masterDispatch
        h.phase.master event) h' where
  master := by
    rw [Link.masterDispatch, hTurn.dispatch]
    rfl
  remote := by
    rw [hTurn.remote]
    exact hPhase.remote
  toRemote := by
    have hSent := commandsIn_masterSent h.phase.master event
    rw [hTurn.dispatch] at hSent
    simp only [Link.masterDispatch, hTurn.dispatch,
      List.map_append, List.map_map, commandsIn_append,
      hPhase.toRemote, hTurn.toRemote]
    exact congrArg (h.phase.toRemote ++ ·)
      ((congrArg commandsIn (List.map_id sent)).trans hSent)
  toMaster := hQueue
  masterSessions := by
    rw [hTurn.sessions, Link.masterDispatch, hTurn.dispatch,
      ← hPhase.masterSessions]
  remoteSessions := by
    rw [hTurn.same_sessions]
    exact hPhase.remoteSessions

/- And the remote's dispatch the other way. -/
theorem InPhase.remoteDispatch
    {event : Event}
    {sent : List Byte}
    {queue : List Downlink}
    (hPhase : InPhase c h)
    (session : Nat)
    (hTurn : RemoteTurn h event h' sent)
    (hQueue : commandsIn (queue.map Downlink.byte) =
      h'.phase.toRemote) :
    InPhase
      ({ c with toRemote := queue }.remoteDispatch
        h.phase.remote event session) h' where
  master := by
    rw [hTurn.master]
    exact hPhase.master
  remote := by
    rw [Link.remoteDispatch, hTurn.dispatch]
    rfl
  toRemote := hQueue
  toMaster := by
    have hSent := commandsIn_remoteSent h.phase.remote event
    rw [hTurn.dispatch] at hSent
    simp only [Link.remoteDispatch, hTurn.dispatch,
      List.map_append, List.map_map, commandsIn_append,
      hPhase.toMaster, hTurn.toMaster]
    exact congrArg (h.phase.toMaster ++ ·)
      ((congrArg commandsIn (List.map_id sent)).trans hSent)
  masterSessions := by
    rw [hTurn.all_sessions]
    exact hPhase.masterSessions
  remoteSessions := by
    rw [hTurn.sessions, Link.remoteDispatch, hTurn.dispatch,
      ← hPhase.remoteSessions]

/- A dispatch that is not taken changes nothing. -/
theorem masterDispatch_of_stays
    {state : MasterState}
    {event : Event}
    (hState : c.master = some state)
    (hStays : masterFsm.dispatch state event = ([], .stays)) :
    c.masterDispatch state event = c := by
  have hStarted : state.started .stays = [] := by
    cases state <;> rfl
  simp only [Link.masterDispatch, hStays, hStarted,
    List.map_nil, List.append_nil, Outcome.after, ← hState]

/- Test data and results move no phase. -/
theorem InPhase.remoteRead_of_not
    {sent : Downlink}
    {rest : List Downlink}
    {totalReceived totalUsec : Word}
    (hPhase : InPhase c h)
    (hHead : c.toRemote = sent :: rest)
    (hNot : ¬ IsCommandByte sent.byte)
    (hClean : c.Clean (.toRemote totalReceived totalUsec)) :
    InPhase
      ({ c with toRemote := rest }.remoteRead h.phase.remote
        sent totalReceived totalUsec) h := by
  have hRest : commandsIn (rest.map Downlink.byte) =
      h.phase.toRemote := by
    rw [← hPhase.toRemote, hHead, List.map_cons,
      commandsIn_cons_of_not _ hNot]
  have hQuiet : ∀ queue : List Uplink,
      commandsIn (queue.map Uplink.byte) = [] →
        commandsIn ((c.toMaster ++ queue).map Uplink.byte) =
          h.phase.toMaster := by
    intro queue hQueue
    rw [List.map_append, commandsIn_append, hQueue,
      List.append_nil, hPhase.toMaster]
  unfold Link.remoteRead
  cases hHandling : h.phase.remote.handleByte sent.byte with
  | dispatch event =>
      exact absurd (isCommandByte_of_handleByte hHandling) hNot
  | ignore =>
      exact ⟨hPhase.master, hPhase.remote, hRest,
        hPhase.toMaster, hPhase.masterSessions,
        hPhase.remoteSessions⟩
  | echo =>
      refine ⟨hPhase.master, hPhase.remote, hRest,
        hQuiet _ ?_, hPhase.masterSessions,
        hPhase.remoteSessions⟩
      exact commandsIn_cons_of_not _ hNot
  | sendResults =>
      refine ⟨hPhase.master, hPhase.remote, hRest,
        hQuiet _ ?_, hPhase.masterSessions,
        hPhase.remoteSessions⟩
      rcases handleByte_eq_sendResults hHandling with
        ⟨hState, hByte⟩
      rw [map_byte_replyBytes]
      refine commandsIn_eq_nil (hClean ⟨?_, ?_⟩)
      · rw [hPhase.remote, hState]
      · rw [remoteHead, hHead]
        exact congrArg some hByte

/- A clean step, with the turn it makes if it makes one. -/
inductive Follows (c : Link) (h : Handshake) :
    LinkLabel → Link → Handshake → Prop where
  | refused
      (event : Event) :
      Follows c h (.command event) c h
  | command
      {event : Event}
      {h' : Handshake}
      {sent : List Byte}
      (hTurns : Handshake.step h (.command event) = some h')
      (hTurn : MasterTurn h event h' sent)
      (hSame : h'.phase.toMaster = h.phase.toMaster) :
      Follows c h (.command event)
        (c.masterDispatch h.phase.master event) h'
  | payload
      {byte : Byte}
      (hKind : h.phase.master.kind = .activity)
      (hStandard : IsStandardCode byte) :
      Follows c h (.payload byte)
        { c with
          toRemote := c.toRemote ++
            [⟨byte, c.masterSessions.length⟩] }
        h
  | remoteTurn
      {sent : Downlink}
      {rest : List Downlink}
      {event : Event}
      {h' : Handshake}
      {bytes : List Byte}
      (totalReceived totalUsec : Word)
      (hHead : c.toRemote = sent :: rest)
      (hCommand : IsCommandByte sent.byte)
      (hTurns : Handshake.step h .remoteReads = some h')
      (hTurn : RemoteTurn h event h' bytes)
      (hRest : commandsIn (rest.map Downlink.byte) =
        h'.phase.toRemote) :
      Follows c h (.toRemote totalReceived totalUsec)
        ({ c with toRemote := rest }.remoteDispatch
          h.phase.remote event sent.session)
        h'
  | remoteData
      {sent : Downlink}
      {rest : List Downlink}
      {totalReceived totalUsec : Word}
      (hHead : c.toRemote = sent :: rest)
      (hNot : ¬ IsCommandByte sent.byte)
      (hClean : c.Clean (.toRemote totalReceived totalUsec)) :
      Follows c h (.toRemote totalReceived totalUsec)
        ({ c with toRemote := rest }.remoteRead h.phase.remote
          sent totalReceived totalUsec)
        h
  | masterTurn
      {sent : Uplink}
      {rest : List Uplink}
      {event : Event}
      {h' : Handshake}
      {bytes : List Byte}
      (hHead : c.toMaster = sent :: rest)
      (hCommand : IsCommandByte sent.byte)
      (hTurns : Handshake.step h .masterReads = some h')
      (hTurn : MasterTurn h event h' bytes)
      (hRest : commandsIn (rest.map Uplink.byte) =
        h'.phase.toMaster) :
      Follows c h .toMaster
        ({ c with toMaster := rest }.masterDispatch
          h.phase.master event)
        h'
  | masterData
      {sent : Uplink}
      {rest : List Uplink}
      (hHead : c.toMaster = sent :: rest)
      (hNot : ¬ IsCommandByte sent.byte) :
      Follows c h .toMaster { c with toMaster := rest } h

/- Every clean step makes a turn or none. -/
theorem InPhase.exists_follows
    {label : LinkLabel}
    (hPhase : InPhase c h)
    (hClean : c.Clean label)
    (hStep : Link.step c label = some c') :
    ∃ h', Follows c h label c' h' := by
  cases moves_of_step hStep with
  | masterTimeout | remoteTimeout | loseToRemote
  | loseToMaster => exact hClean.elim
  | @command state event hState hCommand =>
      obtain rfl : h.phase.master = state := by
        rw [hPhase.master, Option.some.injEq] at hState
        exact hState
      rcases command_cases h hCommand with
        hStays | ⟨h', sent, hTurns, hTurn, hSame⟩
      · rw [masterDispatch_of_stays hPhase.master hStays]
        exact ⟨h, .refused event⟩
      · exact ⟨h', .command hTurns hTurn hSame⟩
  | @payload state byte hState hKind hStandard =>
      obtain rfl : h.phase.master = state := by
        rw [hPhase.master, Option.some.injEq] at hState
        exact hState
      exact ⟨h, .payload hKind hStandard⟩
  | @toRemote state sent rest totalReceived totalUsec hState
      hHead =>
      obtain rfl : h.phase.remote = state := by
        rw [hPhase.remote, Option.some.injEq] at hState
        exact hState
      by_cases hCommand : IsCommandByte sent.byte
      · have hFirst : h.phase.toRemote = sent.byte ::
            commandsIn (rest.map Downlink.byte) := by
          rw [← hPhase.toRemote, hHead, List.map_cons,
            commandsIn_cons_of_isCommandByte _ hCommand]
        rcases exists_remoteTurn hFirst with
          ⟨event, h', sent', hTurns, hHandling, hTurn, hRest⟩
        simp only [Link.remoteRead, hHandling]
        exact ⟨h', .remoteTurn _ _ hHead hCommand hTurns
          hTurn hRest.symm⟩
      · exact ⟨h, .remoteData hHead hCommand hClean⟩
  | @toMaster state sent rest hState hHead =>
      obtain rfl : h.phase.master = state := by
        rw [hPhase.master, Option.some.injEq] at hState
        exact hState
      by_cases hCommand : IsCommandByte sent.byte
      · have hFirst : h.phase.toMaster = sent.byte ::
            commandsIn (rest.map Uplink.byte) := by
          rw [← hPhase.toMaster, hHead, List.map_cons,
            commandsIn_cons_of_isCommandByte _ hCommand]
        rcases exists_masterTurn hFirst with
          ⟨event, h', sent', hTurns, hRead, hTurn, hRest⟩
        simp only [Link.masterRead, hRead]
        exact ⟨h', .masterTurn hHead hCommand hTurns hTurn
          hRest.symm⟩
      · simp only [Link.masterRead,
          readByte_of_not_isCommandByte _ hCommand]
        exact ⟨h, .masterData hHead hCommand⟩

theorem InPhase.follows
    {label : LinkLabel}
    (hPhase : InPhase c h)
    (hFollows : Follows c h label c' h') :
    InPhase c' h' := by
  cases hFollows with
  | refused => exact hPhase
  | @command event h' sent _ hTurn hSame =>
      exact @InPhase.masterDispatch c h h' event sent
        c.toMaster hPhase hTurn
        (hPhase.toMaster.trans hSame.symm)
  | payload hKind hStandard =>
      refine ⟨hPhase.master, hPhase.remote, ?_,
        hPhase.toMaster, hPhase.masterSessions,
        hPhase.remoteSessions⟩
      rw [List.map_append, commandsIn_append,
        hPhase.toRemote]
      exact (congrArg (h.phase.toRemote ++ ·)
        (commandsIn_cons_of_not []
          (not_isCommandByte_of_isStandardCode hStandard))).trans
        (List.append_nil _)
  | remoteTurn _ _ _ _ _ hTurn hRest =>
      exact hPhase.remoteDispatch _ hTurn hRest
  | remoteData hHead hNot hClean =>
      exact hPhase.remoteRead_of_not hHead hNot hClean
  | masterTurn _ _ _ hTurn hRest =>
      exact hPhase.masterDispatch hTurn hRest
  | masterData hHead hNot =>
      refine ⟨hPhase.master, hPhase.remote, hPhase.toRemote,
        ?_, hPhase.masterSessions, hPhase.remoteSessions⟩
      rw [← hPhase.toMaster, hHead, List.map_cons,
        commandsIn_cons_of_not _ hNot]

theorem turns_of_follows
    {label : LinkLabel}
    (hFollows : Follows c h label c' h') :
    h' = h ∨ ∃ turn, Handshake.step h turn = some h' := by
  cases hFollows with
  | refused | payload | remoteData | masterData =>
      exact .inl rfl
  | command hTurns | remoteTurn _ _ _ _ hTurns
  | masterTurn _ _ hTurns => exact .inr ⟨_, hTurns⟩

theorem InPhase.step
    {label : LinkLabel}
    (hPhase : InPhase c h)
    (hClean : c.Clean label)
    (hStep : Link.step c label = some c') :
    InPhase c' h ∨ ∃ turn h',
      Handshake.step h turn = some h' ∧ InPhase c' h' := by
  rcases hPhase.exists_follows hClean hStep with
    ⟨h', hFollows⟩
  have hNext := hPhase.follows hFollows
  rcases turns_of_follows hFollows with
    rfl | ⟨turn, hTurns⟩
  · exact .inl hNext
  · exact .inr ⟨turn, h', hTurns, hNext⟩

/-
  A clean run is a run of the cycle: the states, the commands
  in flight and the sessions are those of its phase.
-/
theorem refines_handshake
    {labels : List LinkLabel}
    (hClean : StepSystem.Along Link.step Clean start labels)
    (hRun : StepSystem.run Link.step start labels = some c) :
    ∃ turns h,
      StepSystem.run Handshake.step Handshake.start turns =
        some h ∧
      InPhase c h :=
  StepSystem.run_simulation_rel (R := InPhase)
    (fun _ _ _ _ hPhase hOk hStep => hPhase.step hOk hStep)
    inPhase_start hClean hRun

/- A throughput session up to the reply on its way back. -/
def repliedLabels : List LinkLabel :=
  [.command .throughputModeCommand, .toRemote 0 0, .toMaster,
    .payload 7, .toRemote 0 0, .toRemote 0 0,
    .command .availabilityModeCommand,
    .payload endStandardCodes, .toRemote 1 2]

theorem clean_repliedLabels :
    StepSystem.Along Link.step Clean start repliedLabels := by
  decide +kernel

theorem refines_handshake_repliedLabels :
    ∃ c, StepSystem.run Link.step start repliedLabels =
        some c ∧
      c.replies = [⟨1, 1, 2⟩] ∧
      ∃ turns h,
        StepSystem.run Handshake.step Handshake.start turns =
          some h ∧
        InPhase c h := by
  refine ⟨_, rfl, rfl, ?_⟩
  exact @refines_handshake _ repliedLabels
    clean_repliedLabels rfl

end Link

end ModemTester

------------------------------------------------------------
-- Nothing Is Refused
------------------------------------------------------------

namespace ModemTester

namespace Link

open Handshake

/- The event of a byte that is read makes a transition. -/
def AcceptsRead (c : Link) : LinkLabel → Prop
  | .toRemote _ _ =>
      ∀ state ∈ c.remote, ∀ byte ∈ c.remoteHead, ∀ event,
        state.handleByte byte = .dispatch event →
          remoteFsm.Accepts state event
  | .toMaster =>
      ∀ state ∈ c.master, ∀ byte ∈ c.masterHead, ∀ event,
        state.readByte byte = some event →
          masterFsm.Accepts state event
  | _ => True

variable {c c' : Link}
variable {h h' : Handshake}

theorem InPhase.acceptsRead
    (hPhase : InPhase c h)
    (label : LinkLabel) :
    c.AcceptsRead label := by
  cases label with
  | command event | masterTimeout | remoteTimeout
  | payload byte | loseToRemote index
  | loseToMaster index => trivial
  | toRemote totalReceived totalUsec =>
      intro state hState byte hByte event hHandling
      obtain rfl : h.phase.remote = state := by
        rw [hPhase.remote] at hState
        exact Option.some.inj hState
      rw [remoteHead, Option.mem_def,
        Option.map_eq_some_iff] at hByte
      rcases hByte with ⟨sent, hSent, rfl⟩
      rcases List.head?_eq_some_iff.mp hSent with ⟨rest, hHead⟩
      have hFirst : h.phase.toRemote = sent.byte ::
          commandsIn (rest.map Downlink.byte) := by
        rw [← hPhase.toRemote, hHead, List.map_cons,
          commandsIn_cons_of_isCommandByte _
            (isCommandByte_of_handleByte hHandling)]
      rcases exists_remoteTurn hFirst with
        ⟨event', h', sent', -, hSame, hTurn, -⟩
      obtain rfl : event = event' := by
        rw [hHandling, Handling.dispatch.injEq] at hSame
        exact hSame
      rw [Fsm.Accepts, hTurn.dispatch]
      rfl
  | toMaster =>
      intro state hState byte hByte event hRead
      obtain rfl : h.phase.master = state := by
        rw [hPhase.master] at hState
        exact Option.some.inj hState
      rw [masterHead, Option.mem_def,
        Option.map_eq_some_iff] at hByte
      rcases hByte with ⟨sent, hSent, rfl⟩
      rcases List.head?_eq_some_iff.mp hSent with ⟨rest, hHead⟩
      have hFirst : h.phase.toMaster = sent.byte ::
          commandsIn (rest.map Uplink.byte) := by
        rw [← hPhase.toMaster, hHead, List.map_cons,
          commandsIn_cons_of_isCommandByte _
            (isCommandByte_of_readByte hRead)]
      rcases exists_masterTurn hFirst with
        ⟨event', h', sent', -, hSame, hTurn, -⟩
      obtain rfl : event = event' := by
        rw [hRead, Option.some.injEq] at hSame
        exact hSame
      rw [Fsm.Accepts, hTurn.dispatch]
      rfl

theorem inPhase_of_step
    {label : LinkLabel}
    (hPhase : ∃ h, InPhase c h)
    (hClean : c.Clean label)
    (hStep : Link.step c label = some c') :
    ∃ h, InPhase c' h := by
  rcases hPhase with ⟨h, hPhase⟩
  rcases hPhase.exists_follows hClean hStep with
    ⟨h', hFollows⟩
  exact ⟨h', hPhase.follows hFollows⟩

/-
  In a clean run neither machine ever refuses an event that
  it has read from the link.
-/
theorem accepts_of_clean
    {labels : List LinkLabel}
    (hClean : StepSystem.Along step Clean start labels) :
    StepSystem.Along step AcceptsRead start labels :=
  StepSystem.along_of_along
    (I := fun c : Link => ∃ h, InPhase c h)
    (fun _ _ _ hPhase hOk hStep =>
      inPhase_of_step hPhase hOk hStep)
    (fun _ label _ hPhase _ _ =>
      hPhase.choose_spec.acceptsRead label)
    ⟨_, inPhase_start⟩ hClean

theorem accepts_of_clean_repliedLabels :
    StepSystem.Along step AcceptsRead start repliedLabels :=
  accepts_of_clean clean_repliedLabels

------------------------------------------------------------
-- Back To Rest
------------------------------------------------------------

/- What ends a session and starts none. -/
def Finishes : LinkLabel → Prop
  | .command event => event = .endModeCommand
  | .toRemote _ _ | .toMaster => True
  | _ => False

/- Both idle after the same sessions, and nothing in flight. -/
structure AtRest (c : Link) : Prop where
  master : c.master = some .idle
  remote : c.remote = some .remoteIdle
  toRemote : c.toRemote = []
  toMaster : c.toMaster = []
  sessions : c.masterSessions = c.remoteSessions

/- The part of a session that the master has before it. -/
def masterWeight : MasterState → Nat
  | .idle => 0
  | .waitAckAfterEndMode => 9
  | .availabilityMode | .throughputMode => 19
  | .sentAvailableModeCommand
  | .sentThroughputModeCommand => 28

/- A byte to the remote may come back as eight. -/
def workLeft (c : Link) : Nat :=
  9 * c.toRemote.length + c.toMaster.length +
    (c.master.map masterWeight).getD 0

theorem length_remoteRead_le
    (c : Link)
    (state : RemoteState)
    (sent : Downlink)
    (totalReceived totalUsec : Word) :
    (c.remoteRead state sent totalReceived
        totalUsec).toMaster.length ≤
      c.toMaster.length + 8 := by
  unfold remoteRead
  cases state.handleByte sent.byte with
  | dispatch event =>
      have hSent : (remoteFsm.dispatch state event).1.length ≤
          8 := by
        cases state <;> cases event <;> decide
      simp only [remoteDispatch, List.length_append,
        List.length_map]
      omega
  | echo => simp
  | sendResults =>
      simp only [sendResults, replyBytes, List.length_append,
        List.length_map, List.length_zipIdx]
      exact le_rfl
  | ignore => simp

/- What the master writes is paid for by its progress. -/
theorem length_sent_of_masterReads
    {h h' : Handshake}
    {event : Event}
    {sent : List Byte}
    (hTurns : Handshake.step h .masterReads = some h')
    (hTurn : MasterTurn h event h' sent) :
    9 * sent.length + masterWeight h'.phase.master ≤
      masterWeight h.phase.master := by
  have hSent : sent.length ≤ 1 := by
    have hLength : ∀ state event,
        (masterFsm.dispatch state event).1.length ≤ 1 := by
      intro state event
      cases state <;> cases event <;> decide
    have hTaken := hLength h.phase.master event
    rwa [hTurn.dispatch] at hTaken
  have hWeight : masterWeight h'.phase.master + 9 ≤
      masterWeight h.phase.master := by
    rcases h with ⟨phase, sessions⟩
    cases phase with
    | granted mode =>
        cases hTurns
        cases mode <;> exact Nat.le_refl 28
    | ended =>
        cases hTurns
        exact Nat.le_refl 9
    | rest | requested | entered | running | left | ending
    | closing | reopened => cases hTurns
  omega

/- The remote reads on. -/
theorem InPhase.exists_toRemote
    {sent : Downlink}
    {rest : List Downlink}
    (hPhase : InPhase c h)
    (hHead : c.toRemote = sent :: rest) :
    ∃ c', c.Clean (.toRemote 0 0) ∧
      Link.step c (.toRemote 0 0) = some c' ∧
      workLeft c' < workLeft c := by
  have hZeros : resultBytes 0 0 = List.replicate 8 0 := rfl
  have hQuiet : ∀ byte ∈ resultBytes 0 0,
      ¬ IsCommandByte byte := by
    intro byte hByte
    rw [hZeros] at hByte
    rw [List.eq_of_mem_replicate hByte]
    decide
  refine ⟨_, fun _ => hQuiet,
    step_toRemote hPhase.remote hHead 0 0, ?_⟩
  have hLength := length_remoteRead_le
    { c with toRemote := rest } h.phase.remote sent 0 0
  simp only [workLeft, remoteRead_toRemote, remoteRead_master,
    hHead, List.length_cons]
  simp only at hLength
  omega

/- The master reads on. -/
theorem InPhase.exists_toMaster
    {sent : Uplink}
    {rest : List Uplink}
    (hPhase : InPhase c h)
    (hHead : c.toMaster = sent :: rest) :
    ∃ c', Link.step c .toMaster = some c' ∧
      workLeft c' < workLeft c := by
  refine ⟨_, step_toMaster hPhase.master hHead, ?_⟩
  by_cases hCommand : IsCommandByte sent.byte
  · have hFirst : h.phase.toMaster = sent.byte ::
        commandsIn (rest.map Uplink.byte) := by
      rw [← hPhase.toMaster, hHead, List.map_cons,
        commandsIn_cons_of_isCommandByte _ hCommand]
    rcases exists_masterTurn hFirst with
      ⟨event, h', sent', hTurns, hRead, hTurn, -⟩
    have hPaid := length_sent_of_masterReads hTurns hTurn
    simp only [workLeft, Link.masterRead, hRead,
      Link.masterDispatch, hTurn.dispatch, Outcome.after,
      hPhase.master, hHead, Option.map_some, Option.getD_some,
      List.length_append, List.length_map, List.length_cons]
    omega
  · simp only [workLeft, Link.masterRead,
      readByte_of_not_isCommandByte _ hCommand, hHead,
      List.length_cons]
    omega

/- Something is read, or there is nothing in flight. -/
theorem InPhase.reads_or_quiet
    (hPhase : InPhase c h) :
    (∃ label c', (∀ event, label ≠ .command event) ∧
        (c.Clean label ∧ Finishes label) ∧
        Link.step c label = some c' ∧
        workLeft c' < workLeft c) ∨
      (c.toRemote = [] ∧ c.toMaster = []) := by
  cases hToRemote : c.toRemote with
  | cons sent rest =>
      rcases hPhase.exists_toRemote hToRemote with
        ⟨c', hOk, hStep, hLess⟩
      exact .inl ⟨_, c', fun _ => LinkLabel.noConfusion,
        ⟨hOk, trivial⟩, hStep, hLess⟩
  | nil =>
      cases hToMaster : c.toMaster with
      | cons sent rest =>
          rcases hPhase.exists_toMaster hToMaster with
            ⟨c', hStep, hLess⟩
          exact .inl ⟨.toMaster, c',
            fun _ => LinkLabel.noConfusion,
            ⟨trivial, trivial⟩, hStep, hLess⟩
      | nil => exact .inr ⟨rfl, rfl⟩

/- With nothing in flight, the mode runs or all is at rest. -/
theorem InPhase.running_or_atRest
    (hPhase : InPhase c h)
    (hToRemote : c.toRemote = [])
    (hToMaster : c.toMaster = []) :
    (∃ mode, h.phase = .running mode) ∨ AtRest c := by
  have hDown := hPhase.toRemote
  have hUp := hPhase.toMaster
  rw [hToRemote] at hDown
  rw [hToMaster] at hUp
  cases hCase : h.phase with
  | running mode => exact .inl ⟨mode, rfl⟩
  | rest =>
      refine .inr ⟨?_, ?_, hToRemote, hToMaster, ?_⟩
      · rw [hPhase.master, hCase]
        rfl
      · rw [hPhase.remote, hCase]
        rfl
      · rw [hPhase.masterSessions, hPhase.remoteSessions,
          hCase]
        exact List.append_nil _
  | requested mode | entered mode | left mode | ending mode
  | closing | reopened mode =>
      rw [hCase] at hDown
      cases hDown
  | granted mode | ended =>
      rw [hCase] at hUp
      cases hUp

/- And the mode can be ended. -/
theorem InPhase.exists_endModeCommand
    {mode : Mode}
    (hPhase : InPhase c h)
    (hRunning : h.phase = .running mode) :
    ∃ c', Link.step c (.command .endModeCommand) = some c' ∧
      workLeft c' < workLeft c := by
  refine ⟨_, step_of_moves (.command hPhase.master
    (.inr (.inr rfl))), ?_⟩
  simp only [workLeft, Link.masterDispatch, hPhase.master,
    hRunning]
  cases mode <;>
    simp [Phase.master, Mode.masterActivity, masterFsm,
      Fsm.dispatch, MasterState.react, Reaction.transitTo,
      MasterState.entrySends, Outcome.after, masterWeight] <;>
    omega

/-
  From every state of a clean run the session can be ended
  cleanly: both machines get back to rest with the same
  sessions behind them, and nothing is left on the link.
-/
theorem can_rest_of_clean
    {labels : List LinkLabel}
    (hClean : StepSystem.Along step Clean start labels)
    (hRun : StepSystem.run step start labels = some c) :
    ∃ labels' c',
      StepSystem.Along step
        (fun c label => c.Clean label ∧ Finishes label)
        c labels' ∧
      StepSystem.run step c labels' = some c' ∧
      AtRest c' := by
  have hPhase : ∃ h, InPhase c h :=
    StepSystem.run_invariant_along
      (I := fun c : Link => ∃ h, InPhase c h)
      (fun _ _ _ hPhase hOk hStep =>
        inPhase_of_step hPhase hOk hStep)
      ⟨_, inPhase_start⟩ hClean hRun
  have hProgress : ∀ c : Link, (∃ h, InPhase c h) →
      ¬ AtRest c →
      ∃ label c', (c.Clean label ∧ Finishes label) ∧
        Link.step c label = some c' ∧ (∃ h, InPhase c' h) ∧
        workLeft c' < workLeft c := by
    intro c hSome hNot
    rcases hSome with ⟨h, hPhase⟩
    rcases hPhase.reads_or_quiet with
      ⟨label, c', -, hOk, hStep, hLess⟩ |
        ⟨hToRemote, hToMaster⟩
    · exact ⟨label, c', hOk, hStep,
        inPhase_of_step ⟨h, hPhase⟩ hOk.1 hStep, hLess⟩
    · rcases hPhase.running_or_atRest hToRemote hToMaster with
        ⟨mode, hRunning⟩ | hAtRest
      · have hOk : c.Clean (.command .endModeCommand) :=
          trivial
        rcases hPhase.exists_endModeCommand hRunning with
          ⟨c', hStep, hLess⟩
        exact ⟨_, c', ⟨hOk, rfl⟩, hStep,
          inPhase_of_step ⟨h, hPhase⟩ hOk hStep, hLess⟩
      · exact absurd hAtRest hNot
  rcases StepSystem.exists_run_of_decreasing workLeft
      hProgress hPhase with
    ⟨labels', c', hAlong, hRun', -, hAtRest⟩
  exact ⟨labels', c', hAlong, hRun', hAtRest⟩

theorem can_rest_of_clean_repliedLabels :
    ∃ c, StepSystem.run step start repliedLabels = some c ∧
      ∃ labels' c',
        StepSystem.Along step
          (fun c label => c.Clean label ∧ Finishes label)
          c labels' ∧
        StepSystem.run step c labels' = some c' ∧
        AtRest c' := by
  refine ⟨_, rfl, ?_⟩
  exact @can_rest_of_clean _ repliedLabels
    clean_repliedLabels rfl

end Link

end ModemTester
