import ModemTester.Library.StepSystem
import ModemTester.Master.MasterThroughput
import ModemTester.Remote.RemoteActivities
import ModemTester.ResultCodec

/-
  The two machines on their link.

  Each direction of the link is a queue of the bytes written
  and not yet read. Every dispatch is atomic and every read
  delivers one byte; a byte may also be lost. An endpoint
  that has processed `EndTest` has left.

  A machine can read in every state, also where the code has
  no read pending. That only adds runs: what is shown for
  all of them holds of the code, and where a result says
  that something can happen, it grants the reads.

  Besides the states and the queues the link records what
  the results about sessions need: the activity modes each
  side has started, the session in which each byte to the
  remote was written, the results replied, and which byte of
  which reply a byte to the master is.

  Key definitions include:
    * `Link`
    * `LinkLabel`
    * `Link.masterDispatch`
    * `Link.remoteDispatch`
    * `Link.step`
-/

------------------------------------------------------------
-- Configurations
------------------------------------------------------------

namespace ModemTester

/- The kind of an activity session. -/
inductive Mode where
  | availability
  | throughput
  deriving DecidableEq, Repr

/- A byte on its way to the remote. -/
structure Downlink where
  byte : Byte
  /- The number of sessions the master had started. -/
  session : Nat
  deriving DecidableEq, Repr

/- What wrote a byte on its way to the master. -/
inductive Origin where
  | fsm
  | activity
  | result (reply index : Nat)
  deriving DecidableEq, Repr

structure Uplink where
  byte : Byte
  origin : Origin
  deriving DecidableEq, Repr

/- One call of `sendResults`. -/
structure Reply where
  /- The master's session in which the remote's began. -/
  session : Nat
  totalReceived : Word
  totalUsec : Word
  deriving DecidableEq, Repr

structure Link where
  master : Option MasterState
  remote : Option RemoteState
  toRemote : List Downlink
  toMaster : List Uplink
  masterSessions : List Mode
  remoteSessions : List Mode
  replies : List Reply
  /-
    The session of the last `EndModeCommand` on which the
    remote took a transition.
  -/
  endedSession : Nat
  /-
    The session of the last acknowledgement on which the
    remote started one.
  -/
  startedSession : Nat
  deriving DecidableEq, Repr

/- What may happen next. -/
inductive LinkLabel where
  /- A mode command dispatched locally to the master. -/
  | command (event : Event)
  | masterTimeout
  | remoteTimeout
  /- The master's activity writes test data. -/
  | payload (byte : Byte)
  /- The remote reads; a reply would carry these totals. -/
  | toRemote (totalReceived totalUsec : Word)
  | toMaster
  | loseToRemote (index : Nat)
  | loseToMaster (index : Nat)
  deriving DecidableEq, Repr

/- The state after a dispatch, unless the process exits. -/
def Outcome.after
    {S : Type}
    (outcome : Outcome S)
    (state : S) : Option S :=
  match outcome with
  | .stays => some state
  | .transits target => some target
  | .exits => none

/- The session that a transition of the master starts. -/
def MasterState.started
    (state : MasterState)
    (outcome : Outcome MasterState) : List Mode :=
  match state, outcome with
  | .sentAvailableModeCommand,
    .transits .availabilityMode => [.availability]
  | .sentThroughputModeCommand,
    .transits .throughputMode => [.throughput]
  | _, _ => []

/- The session that a transition of the remote starts. -/
def RemoteState.started
    (state : RemoteState)
    (outcome : Outcome RemoteState) : List Mode :=
  match state, outcome with
  | .availabilityCommandReceived,
    .transits .remoteAvailabilityMode => [.availability]
  | .throughputCommandReceived,
    .transits .remoteThroughputMode => [.throughput]
  | _, _ => []

/- The commands that users, scripts and activities dispatch. -/
def IsModeCommand (event : Event) : Prop :=
  event = .availabilityModeCommand ∨
    event = .throughputModeCommand ∨
      event = .endModeCommand

instance (event : Event) : Decidable (IsModeCommand event) := by
  unfold IsModeCommand
  infer_instance

------------------------------------------------------------
-- Steps
------------------------------------------------------------

namespace Link

/- Both machines after `start()`. -/
def start : Link where
  master := some masterFsm.initialState
  remote := some remoteFsm.initialState
  toRemote := []
  toMaster := []
  masterSessions := []
  remoteSessions := []
  replies := []
  endedSession := 0
  startedSession := 0

/- The next byte that the master reads. -/
def masterHead (c : Link) : Option Byte :=
  c.toMaster.head?.map Uplink.byte

/- The next byte that the remote reads. -/
def remoteHead (c : Link) : Option Byte :=
  c.toRemote.head?.map Downlink.byte

/- The master, in `state`, dispatches `event`. -/
def masterDispatch
    (c : Link)
    (state : MasterState)
    (event : Event) : Link :=
  let dispatched := masterFsm.dispatch state event
  let sessions :=
    c.masterSessions ++ state.started dispatched.2
  { c with
    master := dispatched.2.after state
    masterSessions := sessions
    toRemote := c.toRemote ++
      dispatched.1.map fun byte => ⟨byte, sessions.length⟩ }

/-
  The remote, in `state`, dispatches `event`; a byte that
  caused it was written in `session`.
-/
def remoteDispatch
    (c : Link)
    (state : RemoteState)
    (event : Event)
    (session : Nat) : Link :=
  let dispatched := remoteFsm.dispatch state event
  { c with
    remote := dispatched.2.after state
    remoteSessions :=
      c.remoteSessions ++ state.started dispatched.2
    toMaster := c.toMaster ++
      dispatched.1.map fun byte => ⟨byte, .fsm⟩
    endedSession :=
      if event = .endModeCommand ∧
          dispatched.2.isTransit = true then
        session
      else
        c.endedSession
    startedSession :=
      if (state.started dispatched.2).isEmpty then
        c.startedSession
      else
        session }

/- The bytes of reply number `reply`. -/
def replyBytes
    (reply : Nat)
    (totalReceived totalUsec : Word) : List Uplink :=
  (resultBytes totalReceived totalUsec).zipIdx.map
    fun entry => ⟨entry.1, .result reply entry.2⟩

/- `RemoteThroughput::sendResults`. -/
def sendResults
    (c : Link)
    (totalReceived totalUsec : Word) : Link :=
  { c with
    replies := c.replies ++
      [⟨c.startedSession, totalReceived, totalUsec⟩]
    toMaster := c.toMaster ++
      replyBytes c.replies.length totalReceived totalUsec }

/- The remote, in `state`, handles a byte it has read. -/
def remoteRead
    (c : Link)
    (state : RemoteState)
    (sent : Downlink)
    (totalReceived totalUsec : Word) : Link :=
  match state.handleByte sent.byte with
  | .dispatch event =>
      c.remoteDispatch state event sent.session
  | .echo =>
      { c with
        toMaster := c.toMaster ++ [⟨sent.byte, .activity⟩] }
  | .sendResults => c.sendResults totalReceived totalUsec
  | .ignore => c

/- The master, in `state`, handles a byte it has read. -/
def masterRead
    (c : Link)
    (state : MasterState)
    (byte : Byte) : Link :=
  match state.readByte byte with
  | some event => c.masterDispatch state event
  | none => c

def step (c : Link) : LinkLabel → Option Link
  | .command event =>
      match c.master with
      | some state =>
          if IsModeCommand event then
            some (c.masterDispatch state event)
          else
            none
      | none => none
  | .masterTimeout =>
      match c.master with
      | some state =>
          if state.kind = .timerBased then
            some (c.masterDispatch state .timeout)
          else
            none
      | none => none
  | .remoteTimeout =>
      match c.remote with
      | some state =>
          if state.kind = .timerBased then
            some (c.remoteDispatch state .timeout 0)
          else
            none
      | none => none
  | .payload byte =>
      match c.master with
      | some state =>
          if state.kind = .activity ∧ IsStandardCode byte then
            some
              { c with
                toRemote := c.toRemote ++
                  [⟨byte, c.masterSessions.length⟩] }
          else
            none
      | none => none
  | .toRemote totalReceived totalUsec =>
      match c.remote, c.toRemote with
      | some state, sent :: rest =>
          some
            (remoteRead { c with toRemote := rest } state sent
              totalReceived totalUsec)
      | _, _ => none
  | .toMaster =>
      match c.master, c.toMaster with
      | some state, sent :: rest =>
          some
            (masterRead { c with toMaster := rest } state
              sent.byte)
      | _, _ => none
  | .loseToRemote index =>
      if index < c.toRemote.length then
        some { c with toRemote := c.toRemote.eraseIdx index }
      else
        none
  | .loseToMaster index =>
      if index < c.toMaster.length then
        some { c with toMaster := c.toMaster.eraseIdx index }
      else
        none

------------------------------------------------------------
-- What A Step Does
------------------------------------------------------------

/- The steps, one constructor for each way to move. -/
inductive Moves (c : Link) : LinkLabel → Link → Prop where
  | command
      {state : MasterState}
      {event : Event}
      (hState : c.master = some state)
      (hCommand : IsModeCommand event) :
      Moves c (.command event) (c.masterDispatch state event)
  | masterTimeout
      {state : MasterState}
      (hState : c.master = some state)
      (hKind : state.kind = .timerBased) :
      Moves c .masterTimeout (c.masterDispatch state .timeout)
  | remoteTimeout
      {state : RemoteState}
      (hState : c.remote = some state)
      (hKind : state.kind = .timerBased) :
      Moves c .remoteTimeout
        (c.remoteDispatch state .timeout 0)
  | payload
      {state : MasterState}
      {byte : Byte}
      (hState : c.master = some state)
      (hKind : state.kind = .activity)
      (hStandard : IsStandardCode byte) :
      Moves c (.payload byte)
        { c with
          toRemote := c.toRemote ++
            [⟨byte, c.masterSessions.length⟩] }
  | toRemote
      {state : RemoteState}
      {sent : Downlink}
      {rest : List Downlink}
      {totalReceived totalUsec : Word}
      (hState : c.remote = some state)
      (hHead : c.toRemote = sent :: rest) :
      Moves c (.toRemote totalReceived totalUsec)
        (remoteRead { c with toRemote := rest } state sent
          totalReceived totalUsec)
  | toMaster
      {state : MasterState}
      {sent : Uplink}
      {rest : List Uplink}
      (hState : c.master = some state)
      (hHead : c.toMaster = sent :: rest) :
      Moves c .toMaster
        (masterRead { c with toMaster := rest } state sent.byte)
  | loseToRemote
      {index : Nat}
      (hIndex : index < c.toRemote.length) :
      Moves c (.loseToRemote index)
        { c with toRemote := c.toRemote.eraseIdx index }
  | loseToMaster
      {index : Nat}
      (hIndex : index < c.toMaster.length) :
      Moves c (.loseToMaster index)
        { c with toMaster := c.toMaster.eraseIdx index }

theorem moves_of_step
    {c c' : Link}
    {label : LinkLabel}
    (hStep : step c label = some c') :
    Moves c label c' := by
  cases label with
  | command event =>
      simp only [step] at hStep
      split at hStep
      · rename_i state hState
        split at hStep
        · rename_i hCommand
          cases hStep
          exact .command hState hCommand
        · cases hStep
      · cases hStep
  | masterTimeout =>
      simp only [step] at hStep
      split at hStep
      · rename_i state hState
        split at hStep
        · rename_i hKind
          cases hStep
          exact .masterTimeout hState hKind
        · cases hStep
      · cases hStep
  | remoteTimeout =>
      simp only [step] at hStep
      split at hStep
      · rename_i state hState
        split at hStep
        · rename_i hKind
          cases hStep
          exact .remoteTimeout hState hKind
        · cases hStep
      · cases hStep
  | payload byte =>
      simp only [step] at hStep
      split at hStep
      · rename_i state hState
        split at hStep
        · rename_i hWrites
          cases hStep
          exact .payload hState hWrites.1 hWrites.2
        · cases hStep
      · cases hStep
  | toRemote totalReceived totalUsec =>
      simp only [step] at hStep
      split at hStep
      · rename_i state sent rest hState hHead
        cases hStep
        exact .toRemote hState hHead
      · cases hStep
  | toMaster =>
      simp only [step] at hStep
      split at hStep
      · rename_i state sent rest hState hHead
        cases hStep
        exact .toMaster hState hHead
      · cases hStep
  | loseToRemote index =>
      simp only [step] at hStep
      split at hStep
      · rename_i hIndex
        cases hStep
        exact .loseToRemote hIndex
      · cases hStep
  | loseToMaster index =>
      simp only [step] at hStep
      split at hStep
      · rename_i hIndex
        cases hStep
        exact .loseToMaster hIndex
      · cases hStep

theorem step_of_moves
    {c c' : Link}
    {label : LinkLabel}
    (hMoves : Moves c label c') :
    step c label = some c' := by
  cases hMoves with
  | command hState hCommand => simp [step, hState, hCommand]
  | masterTimeout hState hKind => simp [step, hState, hKind]
  | remoteTimeout hState hKind => simp [step, hState, hKind]
  | payload hState hKind hStandard =>
      simp [step, hState, hKind, hStandard]
  | toRemote hState hHead => simp [step, hState, hHead]
  | toMaster hState hHead => simp [step, hState, hHead]
  | loseToRemote hIndex => simp [step, hIndex]
  | loseToMaster hIndex => simp [step, hIndex]

theorem step_toRemote
    {c : Link}
    {state : RemoteState}
    {sent : Downlink}
    {rest : List Downlink}
    (hState : c.remote = some state)
    (hHead : c.toRemote = sent :: rest)
    (totalReceived totalUsec : Word) :
    step c (.toRemote totalReceived totalUsec) =
      some
        (remoteRead { c with toRemote := rest } state sent
          totalReceived totalUsec) :=
  step_of_moves (.toRemote hState hHead)

theorem step_toMaster
    {c : Link}
    {state : MasterState}
    {sent : Uplink}
    {rest : List Uplink}
    (hState : c.master = some state)
    (hHead : c.toMaster = sent :: rest) :
    step c .toMaster =
      some
        (masterRead { c with toMaster := rest } state
          sent.byte) :=
  step_of_moves (.toMaster hState hHead)

------------------------------------------------------------
-- What Each Side Leaves Alone
------------------------------------------------------------

section Fields

variable (c : Link)
variable (master : MasterState)
variable (remote : RemoteState)
variable (event : Event)
variable (sent : Downlink)
variable (byte : Byte)
variable (session : Nat)
variable (r u : Word)

@[simp] theorem masterRead_remote :
    (c.masterRead master byte).remote = c.remote := by
  unfold masterRead
  split <;> rfl

@[simp] theorem remoteDispatch_master :
    (c.remoteDispatch remote event session).master =
      c.master := rfl

@[simp] theorem remoteRead_master :
    (c.remoteRead remote sent r u).master = c.master := by
  unfold remoteRead
  split <;> rfl

@[simp] theorem remoteRead_toRemote :
    (c.remoteRead remote sent r u).toRemote =
      c.toRemote := by
  unfold remoteRead
  split <;> rfl

@[simp] theorem remoteRead_masterSessions :
    (c.remoteRead remote sent r u).masterSessions =
      c.masterSessions := by
  unfold remoteRead
  split <;> rfl

end Fields

------------------------------------------------------------
-- What The Remote Writes
------------------------------------------------------------

section Remote

variable (c : Link)
variable (state : RemoteState)
variable (byte : Byte)
variable (sent : Downlink)
variable (r u : Word)

/- The bytes written when the remote handles a byte. -/
def remoteWrote : List Uplink :=
  match state.handleByte byte with
  | .dispatch event =>
      (remoteFsm.dispatch state event).1.map
        fun byte => ⟨byte, .fsm⟩
  | .echo => [⟨byte, .activity⟩]
  | .sendResults => replyBytes c.replies.length r u
  | .ignore => []

/- The reply sent when the remote handles a byte. -/
def remoteReplied : List Reply :=
  match state.handleByte byte with
  | .sendResults => [⟨c.startedSession, r, u⟩]
  | _ => []

theorem remoteRead_toMaster :
    (c.remoteRead state sent r u).toMaster =
      c.toMaster ++ c.remoteWrote state sent.byte r u := by
  unfold remoteRead remoteWrote
  cases state.handleByte sent.byte with
  | dispatch event => rfl
  | echo => rfl
  | sendResults => rfl
  | ignore => exact (List.append_nil _).symm

theorem remoteRead_replies :
    (c.remoteRead state sent r u).replies =
      c.replies ++ c.remoteReplied state sent.byte r u := by
  unfold remoteRead remoteReplied
  cases state.handleByte sent.byte with
  | dispatch event => exact (List.append_nil _).symm
  | echo => exact (List.append_nil _).symm
  | sendResults => rfl
  | ignore => exact (List.append_nil _).symm

end Remote

------------------------------------------------------------
-- The Remote As A Reader
------------------------------------------------------------

/- Where reading a byte leaves a state of the remote. -/
def readOutcome
    (state : RemoteState)
    (byte : Byte) : Outcome RemoteState :=
  match state.handleByte byte with
  | .dispatch event => (remoteFsm.dispatch state event).2
  | _ => .stays

/- What reading a byte makes of the remote. -/
def remoteAfter
    (remote : Option RemoteState)
    (sent : Downlink) : Option RemoteState :=
  match remote with
  | none => none
  | some state => (readOutcome state sent.byte).after state

@[simp] theorem remoteAfter_none (sent : Downlink) :
    remoteAfter none sent = none := rfl

@[simp] theorem remoteAfter_some
    (state : RemoteState)
    (sent : Downlink) :
    remoteAfter (some state) sent =
      (readOutcome state sent.byte).after state := rfl

theorem handleByte_eq_echo
    {state : RemoteState}
    {byte : Byte}
    (hEcho : state.handleByte byte = .echo) :
    IsStandardCode byte := by
  cases state with
  | remoteAvailabilityMode =>
      by_contra hCommand
      simp only [RemoteState.handleByte,
        RemotePinger.handleByte, hCommand, if_false] at hEcho
      split_ifs at hEcho
  | remoteThroughputMode =>
      simp only [RemoteState.handleByte,
        RemoteThroughput.handleByte] at hEcho
      split_ifs at hEcho
  | remoteIdle | availabilityCommandReceived
  | throughputCommandReceived | endModeReceived =>
      simp only [RemoteState.handleByte] at hEcho
      split at hEcho <;> cases hEcho

theorem handleByte_eq_sendResults
    {state : RemoteState}
    {byte : Byte}
    (hResults : state.handleByte byte = .sendResults) :
    state = .remoteThroughputMode ∧
      byte = endStandardCodes := by
  cases state with
  | remoteThroughputMode =>
      simp only [RemoteState.handleByte,
        RemoteThroughput.handleByte] at hResults
      split_ifs at hResults with hRequest hByte
      exact ⟨rfl, hByte⟩
  | remoteAvailabilityMode =>
      simp only [RemoteState.handleByte,
        RemotePinger.handleByte] at hResults
      split_ifs at hResults
  | remoteIdle | availabilityCommandReceived
  | throughputCommandReceived | endModeReceived =>
      simp only [RemoteState.handleByte] at hResults
      split at hResults <;> cases hResults

theorem remoteRead_remote
    {c : Link}
    {state : RemoteState}
    (sent : Downlink)
    (totalReceived totalUsec : Word)
    (hState : c.remote = some state) :
    (c.remoteRead state sent totalReceived totalUsec).remote =
      remoteAfter (some state) sent := by
  rw [remoteAfter_some]
  unfold remoteRead readOutcome
  cases state.handleByte sent.byte with
  | dispatch event => rfl
  | echo => exact hState
  | sendResults => exact hState
  | ignore => exact hState

@[simp] theorem started_stays (state : RemoteState) :
    state.started .stays = [] := by
  cases state <;> rfl

theorem remoteRead_remoteSessions
    (c : Link)
    (state : RemoteState)
    (sent : Downlink)
    (totalReceived totalUsec : Word) :
    (c.remoteRead state sent totalReceived
        totalUsec).remoteSessions =
      c.remoteSessions ++
        state.started (readOutcome state sent.byte) := by
  unfold remoteRead readOutcome
  cases state.handleByte sent.byte with
  | dispatch event => rfl
  | echo => simp
  | sendResults => simp [sendResults]
  | ignore => simp

/- Test data and result requests change no state. -/
theorem readOutcome_of_isStandardCode
    (state : RemoteState)
    {byte : Byte}
    (hStandard : IsStandardCode byte) :
    readOutcome state byte = .stays := by
  have hNone := readEvt_eq_none_of_isStandardCode hStandard
  cases state with
  | remoteAvailabilityMode =>
      simp [readOutcome, RemoteState.handleByte,
        RemotePinger.handleByte, hStandard]
  | remoteThroughputMode =>
      by_cases hRequest : endStandardCodes ≤ byte
      · have hEq : byte = endStandardCodes :=
          le_antisymm hStandard.2 hRequest
        simp [readOutcome, RemoteState.handleByte,
          RemoteThroughput.handleByte, hEq]
      · simp [readOutcome, RemoteState.handleByte,
          RemoteThroughput.handleByte, hRequest]
  | remoteIdle | availabilityCommandReceived
  | throughputCommandReceived | endModeReceived =>
      simp [readOutcome, RemoteState.handleByte, hNone]

/- `EndTest` stops the remote in every state. -/
theorem readOutcome_endTest (state : RemoteState) :
    readOutcome state endTestId = .exits := by
  cases state <;> rfl

/- An idle remote reacts to the mode commands only. -/
theorem readOutcome_remoteIdle
    {byte : Byte}
    (hAvailability : byte ≠ availabilityModeCommandId)
    (hThroughput : byte ≠ throughputModeCommandId)
    (hEndTest : byte ≠ endTestId) :
    readOutcome .remoteIdle byte = .stays := by
  simp only [readOutcome, RemoteState.handleByte, readEvt,
    hAvailability, hThroughput, hEndTest, if_false]
  split_ifs <;> rfl

/- A running remote reacts to `EndModeCommand` only. -/
theorem readOutcome_running
    {state : RemoteState}
    {byte : Byte}
    (hState : state = .remoteAvailabilityMode ∨
      state = .remoteThroughputMode)
    (hEnd : byte ≠ endModeCommandId)
    (hEndTest : byte ≠ endTestId) :
    readOutcome state byte = .stays := by
  rcases hState with rfl | rfl
  · simp only [readOutcome, RemoteState.handleByte,
      RemotePinger.handleByte, hEnd, hEndTest, if_false]
    split_ifs <;> rfl
  · simp only [readOutcome, RemoteState.handleByte,
      RemoteThroughput.handleByte, hEnd, hEndTest, if_false]
    split_ifs <;> rfl

/- A timer changes no state of the remote. -/
theorem remoteDispatch_timeout_remote
    (c : Link)
    (state : RemoteState) :
    (c.remoteDispatch state .timeout 0).remote =
      some state := by
  cases state <;> rfl

theorem remoteDispatch_timeout_remoteSessions
    (c : Link)
    (state : RemoteState) :
    (c.remoteDispatch state .timeout 0).remoteSessions =
      c.remoteSessions := by
  cases state <;> simp [remoteDispatch, RemoteState.started,
    remoteFsm, Fsm.dispatch, RemoteState.react,
    Reaction.transitTo, Reaction.ignore, Reaction.wrongEvent]

------------------------------------------------------------
-- Result Bytes
------------------------------------------------------------

theorem map_byte_replyBytes
    (reply : Nat)
    (totalReceived totalUsec : Word) :
    (replyBytes reply totalReceived totalUsec).map
        Uplink.byte =
      resultBytes totalReceived totalUsec := by
  rw [replyBytes, List.map_map]
  exact List.zipIdx_map_fst 0 _

end Link

end ModemTester
