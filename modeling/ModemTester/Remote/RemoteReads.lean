import ModemTester.Library.StepSystem
import ModemTester.Remote.RemoteActivities

/-
  A remote that reads a stream in pieces
  (`RemoteThroughput.cpp`, `RemotePinger.cpp`,
  `BaseFSM::HandleReadEvt`, `TimerBasedState`).

  `RemoteThroughput` reads one byte first and up to 255 at a
  time afterwards; everything else reads one byte. An
  activity that dispatches an event returns at once, and what
  its read still holds is lost. `HandleReadEvt` reads on only
  through the `entry` of a transition, so that an ignored
  byte leaves a state without a read until its timer, if it
  has one, makes it enter itself again.

  In an activity the armed read is that of the activity. A
  handler of a wait that was cancelled runs before the next
  read completes, and a read that was cancelled has taken no
  byte.

  Key definitions include:
    * `ReadPoint`
    * `RemoteReads`
    * `RemoteReads.step`
    * `BoundaryFree`
    * `effects`

  Main declarations:
    * `RemoteReads.exists_step_one`
    * `RemoteReads.dispatchTimeout_eq`
-/

------------------------------------------------------------
-- Reading In Pieces
------------------------------------------------------------

namespace ModemTester

/- What the remote does on the bytes it reads. -/
inductive Observation where
  | dispatched (event : Event)
  | entered (state : RemoteState)
  | replied
  deriving DecidableEq, Repr

namespace Observation

def event? : Observation → Option Event
  | dispatched event => some event
  | _ => none

def state? : Observation → Option RemoteState
  | entered state => some state
  | _ => none

def isReply : Observation → Bool
  | replied => true
  | _ => false

end Observation

/- The events dispatched. -/
def eventsOf (log : List Observation) : List Event :=
  log.filterMap Observation.event?

/- The states entered. -/
def statesOf (log : List Observation) : List RemoteState :=
  log.filterMap Observation.state?

/- The number of result replies. -/
def repliesOf (log : List Observation) : Nat :=
  log.countP Observation.isReply

/-
  Where the remote reads. `fresh` tells that an activity has
  not read since it was started, and `timer` that the timer
  of the state is running, which timer-based states alone
  have.
-/
@[ext] structure ReadPoint where
  state : RemoteState
  fresh : Bool
  timer : Bool
  timed : timer = true →
    state.kind = .timerBased ∧ fresh = true
  deriving DecidableEq

namespace ReadPoint

/- In throughput mode. -/
def throughput (fresh : Bool) : ReadPoint :=
  ⟨.remoteThroughputMode, fresh, false, nofun⟩

/- The activity has read. -/
def read (p : ReadPoint) : ReadPoint :=
  ⟨p.state, false, false, nofun⟩

/- `dispatchTimeout` begins with it. -/
def deleteTimer (p : ReadPoint) : ReadPoint :=
  ⟨p.state, p.fresh, false, nofun⟩

/-
  `exit` of the state and `entry` of the target, whose timer
  starts. A state that enters itself while its timer runs has
  cancelled that wait, and the handler of the wait deletes
  the new timer.
-/
def enter (p : ReadPoint) (target : RemoteState) :
    ReadPoint where
  state := target
  fresh := true
  timer := decide (target.kind = .timerBased) &&
    !(p.timer && decide (target = p.state))
  timed hTimer := by
    rw [Bool.and_eq_true, decide_eq_true_iff] at hTimer
    exact ⟨hTimer.1, rfl⟩

/- A byte was ignored, and only the timer will read again. -/
def onTimeout (p : ReadPoint) : Option ReadPoint :=
  if p.timer = true then some p else none

end ReadPoint

/-
  A remote and the bytes that it has not read yet. `armed`
  tells that a read is pending. The log holds what the bytes
  do; what a `Timeout` does is left out of it, since it comes
  as often as time goes by.
-/
structure RemoteReads where
  point : ReadPoint
  armed : Bool
  exited : Bool
  unread : List Byte
  log : List Observation
  deriving DecidableEq

inductive ReadLabel where
  /- A read of some bytes completes. -/
  | read (size : Nat)
  /- The timer of the state expires. -/
  | timeout
  deriving DecidableEq, Repr

namespace RemoteReads

/- A remote in throughput mode before it reads a stream. -/
def start (fresh : Bool) (stream : List Byte) :
    RemoteReads where
  point := .throughput fresh
  armed := true
  exited := false
  unread := stream
  log := []

def record
    (observation : Observation)
    (s : RemoteReads) : RemoteReads :=
  { s with log := s.log ++ [observation] }

/- `RemoteFSM::dispatch`. The `entry` of a state reads. -/
def dispatch (s : RemoteReads) (event : Event) :
    RemoteReads :=
  let s₁ := s.record (.dispatched event)
  match (remoteFsm.dispatch s.point.state event).2 with
  | .stays => s₁
  | .exits => { s₁ with exited := true }
  | .transits target =>
      { s₁.record (.entered target) with
        point := s.point.enter target
        armed := true }

/- `TimerBasedState::dispatchTimeout` without an error. -/
def dispatchTimeout (s : RemoteReads) : RemoteReads :=
  let s₁ := { s with point := s.point.deleteTimer }
  match (remoteFsm.dispatch s.point.state .timeout).2 with
  | .stays => s₁
  | .exits => { s₁ with exited := true }
  | .transits target =>
      { s₁ with
        point := s₁.point.enter target
        armed := true }

/-
  `handleReceive` of the activity of the state. Behind the
  loop it reads again.
-/
def handleReceive (s : RemoteReads) :
    List Byte → RemoteReads
  | [] => { s with point := s.point.read, armed := true }
  | byte :: bytes =>
      match s.point.state.handleByte byte with
      | .dispatch event => s.dispatch event
      | .sendResults =>
          (s.record .replied).handleReceive bytes
      | _ => s.handleReceive bytes

/- `BaseFSM::HandleReadEvt`, until the process exits. -/
def handleReadEvt (s : RemoteReads) :
    List Byte → RemoteReads
  | [] => s
  | byte :: bytes =>
      match readEvt byte with
      | none => s.handleReadEvt bytes
      | some event =>
          let s₁ := s.dispatch event
          if s₁.exited = true then s₁
          else s₁.handleReadEvt bytes

/- The buffer of the read that is armed. -/
def recvSize (s : RemoteReads) : Nat :=
  if s.point.state = .remoteThroughputMode ∧
      s.point.fresh = false then
    255
  else 1

def step (s : RemoteReads) :
    ReadLabel → Option RemoteReads
  | .read size =>
      if s.exited = true ∨ s.armed = false then none
      else if size = 0 ∨ s.recvSize < size ∨
          s.unread.length < size then none
      else
        let s₁ :=
          { s with
            armed := false
            unread := s.unread.drop size }
        if s.point.state.kind = .activity then
          some (s₁.handleReceive (s.unread.take size))
        else some (s₁.handleReadEvt (s.unread.take size))
  | .timeout =>
      if s.exited = true ∨ s.point.timer = false then none
      else some s.dispatchTimeout

/-
  The remote goes on as long as there is something to read:
  it has a read pending, or its timer will bring one.
-/
def Live (s : RemoteReads) : Prop :=
  s.exited = false ∧
    (s.armed = true ∨ s.point.timer = true)

instance (s : RemoteReads) : Decidable s.Live := by
  unfold Live
  infer_instance

/- There is nothing more that it will read. -/
def Finished (s : RemoteReads) : Prop :=
  s.Live → s.unread = []

instance (s : RemoteReads) : Decidable s.Finished := by
  unfold Finished
  infer_instance

end RemoteReads

/-
  Any two ways to split a stream that reaches a remote in
  throughput mode, and any timeouts on the way, lead to the
  same events, states and number of replies.
-/
def BoundaryFree (fresh : Bool) (stream : List Byte) : Prop :=
  ∀ labels labels' s s',
    StepSystem.run RemoteReads.step
        (.start fresh stream) labels = some s →
    StepSystem.run RemoteReads.step
        (.start fresh stream) labels' = some s' →
    s.Finished → s'.Finished →
      eventsOf s.log = eventsOf s'.log ∧
        statesOf s.log = statesOf s'.log ∧
        repliesOf s.log = repliesOf s'.log

------------------------------------------------------------
-- Byte By Byte
------------------------------------------------------------

/-
  What one byte does where it is read, and where the remote
  reads the next one, if anywhere.
-/
def afterByte (p : ReadPoint) (byte : Byte) :
    List Observation × Option ReadPoint :=
  match p.state.handleByte byte with
  | .dispatch event =>
      match (remoteFsm.dispatch p.state event).2 with
      | .transits target =>
          ([.dispatched event, .entered target],
            some (p.enter target))
      | .exits => ([.dispatched event], none)
      | .stays => ([.dispatched event], p.onTimeout)
  | .sendResults => ([.replied], some p.read)
  | .echo => ([], some p.read)
  | .ignore =>
      ([], if p.state.kind = .activity then some p.read
        else p.onTimeout)

/- What a stream does when it is read byte by byte. -/
def effects : ReadPoint → List Byte → List Observation
  | _, [] => []
  | p, byte :: bytes =>
      match (afterByte p byte).2 with
      | none => (afterByte p byte).1
      | some next =>
          (afterByte p byte).1 ++ effects next bytes

------------------------------------------------------------
-- One Byte
------------------------------------------------------------

namespace ReadPoint

/- In `EndModeReceived`, with its timer running or not. -/
def received (timer : Bool) : ReadPoint :=
  ⟨.endModeReceived, true, timer, fun _ => ⟨rfl, rfl⟩⟩

def idle : ReadPoint :=
  ⟨.remoteIdle, true, false, nofun⟩

end ReadPoint

/- Outside the activities a byte is read as an event. -/
theorem handleByte_of_not_activity
    {state : RemoteState}
    (hKind : state.kind ≠ .activity)
    (byte : Byte) :
    state.handleByte byte =
      match readEvt byte with
      | some event => .dispatch event
      | none => .ignore := by
  cases state with
  | remoteAvailabilityMode | remoteThroughputMode =>
      exact absurd rfl hKind
  | remoteIdle | availabilityCommandReceived
  | throughputCommandReceived | endModeReceived => rfl

/- A byte outside the activities that is no event. -/
theorem afterByte_of_none
    {p : ReadPoint}
    {byte : Byte}
    (hKind : p.state.kind ≠ .activity)
    (hByte : readEvt byte = none) :
    afterByte p byte = ([], p.onTimeout) := by
  have hIgnore : p.state.handleByte byte = .ignore := by
    rw [handleByte_of_not_activity hKind, hByte]
  simp only [afterByte, hIgnore, if_neg hKind]

/- One that is. -/
theorem afterByte_of_some
    {p : ReadPoint}
    {byte : Byte}
    {event : Event}
    (hKind : p.state.kind ≠ .activity)
    (hByte : readEvt byte = some event) :
    afterByte p byte =
      match (remoteFsm.dispatch p.state event).2 with
      | .transits target =>
          ([.dispatched event, .entered target],
            some (p.enter target))
      | .exits => ([.dispatched event], none)
      | .stays => ([.dispatched event], p.onTimeout) := by
  have hDispatch : p.state.handleByte byte =
      .dispatch event := by
    rw [handleByte_of_not_activity hKind, hByte]
  simp only [afterByte, hDispatch]

/- The three things a byte can do in throughput mode. -/
theorem throughput_byte_cases (byte : Byte) :
    (byte = endModeCommandId ∧
      RemoteState.remoteThroughputMode.handleByte byte =
        .dispatch .endModeCommand) ∨
    (byte = endTestId ∧
      RemoteState.remoteThroughputMode.handleByte byte =
        .dispatch .endTest) ∨
    (byte ≠ endModeCommandId ∧
      (RemoteState.remoteThroughputMode.handleByte byte =
          .sendResults ∨
        RemoteState.remoteThroughputMode.handleByte byte =
          .ignore)) := by
  by_cases hEnd : byte = endModeCommandId
  · subst hEnd
    exact Or.inl ⟨rfl, by decide⟩
  · by_cases hTest : byte = endTestId
    · subst hTest
      exact Or.inr (Or.inl ⟨rfl, by decide⟩)
    · refine Or.inr (Or.inr ⟨hEnd, ?_⟩)
      simp only [RemoteState.handleByte,
        RemoteThroughput.handleByte, hEnd, hTest, if_false]
      split_ifs <;> simp

/- What the rest of a stream does from where a byte led. -/
def afterwards (rest : List Byte) :
    Option ReadPoint → List Observation
  | none => []
  | some p => effects p rest

theorem effects_cons
    (p : ReadPoint)
    (byte : Byte)
    (bytes : List Byte) :
    effects p (byte :: bytes) =
      (afterByte p byte).1 ++
        afterwards bytes (afterByte p byte).2 := by
  rw [effects]
  cases (afterByte p byte).2 with
  | none => rw [afterwards, List.append_nil]
  | some next => rfl

namespace RemoteReads

/- Where a read has led: the log, and where it goes on. -/
def Yields
    (s : RemoteReads)
    (log : List Observation)
    (rest : List Byte)
    (next : Option ReadPoint) : Prop :=
  s.log = log ∧ s.unread = rest ∧
    match next with
    | none => ¬ s.Live
    | some p => s.Live ∧ s.point = p

/- The log, with what is still to come byte by byte. -/
def total (s : RemoteReads) : List Observation :=
  if s.Live then s.log ++ effects s.point s.unread
  else s.log

theorem total_of_finished
    {s : RemoteReads}
    (hFinished : s.Finished) :
    s.total = s.log := by
  unfold total
  split
  · rename_i hLive
    rw [hFinished hLive, effects, List.append_nil]
  · rfl

theorem Yields.total_eq
    {s : RemoteReads}
    {log : List Observation}
    {rest : List Byte}
    {next : Option ReadPoint}
    (hYields : s.Yields log rest next) :
    s.total = log ++ afterwards rest next := by
  rcases hYields with ⟨hLog, hRest, hNext⟩
  cases next with
  | none =>
      rw [total, if_neg hNext, hLog, afterwards,
        List.append_nil]
  | some p =>
      rcases hNext with ⟨hLive, hPoint⟩
      rw [total, if_pos hLive, hLog, hRest, hPoint,
        afterwards]

/- An ignored byte leaves it to the timer to read again. -/
theorem yields_onTimeout
    {s : RemoteReads}
    (hArmed : s.armed = false)
    (hExited : s.exited = false) :
    s.Yields s.log s.unread s.point.onTimeout := by
  unfold ReadPoint.onTimeout
  split
  · rename_i hTimer
    exact ⟨rfl, rfl, ⟨hExited, Or.inr hTimer⟩, rfl⟩
  · rename_i hTimer
    refine ⟨rfl, rfl, ?_⟩
    rintro ⟨-, hOn | hOn⟩
    · rw [hArmed] at hOn
      cases hOn
    · exact hTimer hOn

/- A dispatch reads on through a transition or the timer. -/
theorem yields_dispatch
    {s : RemoteReads}
    (event : Event)
    (hArmed : s.armed = false)
    (hExited : s.exited = false) :
    (s.dispatch event).Yields
      (s.log ++
        match (remoteFsm.dispatch s.point.state event).2 with
        | .transits target =>
            [.dispatched event, .entered target]
        | _ => [.dispatched event])
      s.unread
      (match (remoteFsm.dispatch s.point.state event).2 with
        | .transits target => some (s.point.enter target)
        | .exits => none
        | .stays => s.point.onTimeout) := by
  unfold dispatch
  cases (remoteFsm.dispatch s.point.state event).2 with
  | stays =>
      exact yields_onTimeout
        (s := s.record (.dispatched event)) hArmed hExited
  | exits => simp [Yields, record, Live]
  | transits target =>
      simp [Yields, record, Live, hExited]

/- The command that ends the mode. -/
theorem yields_endModeCommand
    {s : RemoteReads}
    (hPoint : s.point = .throughput false)
    (hArmed : s.armed = false)
    (hExited : s.exited = false) :
    (s.dispatch .endModeCommand).Yields
      (s.log ++ [.dispatched .endModeCommand,
        .entered .endModeReceived])
      s.unread (some (.received true)) := by
  have hYields :=
    yields_dispatch .endModeCommand hArmed hExited
  rw [hPoint] at hYields
  exact hYields

theorem yields_handleReceive
    {s : RemoteReads}
    (byte : Byte)
    (hKind : s.point.state.kind = .activity)
    (hArmed : s.armed = false)
    (hExited : s.exited = false) :
    (s.handleReceive [byte]).Yields
      (s.log ++ (afterByte s.point byte).1) s.unread
      (afterByte s.point byte).2 := by
  cases hByte : s.point.state.handleByte byte with
  | dispatch event =>
      have hYields := yields_dispatch event hArmed hExited
      simp only [handleReceive, afterByte, hByte]
      cases hOutcome :
          (remoteFsm.dispatch s.point.state event).2 with
      | stays | exits | transits target =>
          simp only [hOutcome] at hYields ⊢
          exact hYields
  | sendResults =>
      simp [Yields, handleReceive, afterByte, hByte, record,
        Live, hExited]
  | echo =>
      simp [Yields, handleReceive, afterByte, hByte, Live,
        hExited]
  | ignore =>
      simp [Yields, handleReceive, afterByte, hByte, Live,
        hExited, hKind]

/- A byte on which the loop of an activity goes on. -/
theorem handleReceive_cons
    {s : RemoteReads}
    {byte : Byte}
    (bytes : List Byte)
    (hKind : s.point.state.kind = .activity)
    (hByte : s.point.state.handleByte byte = .sendResults ∨
      s.point.state.handleByte byte = .ignore) :
    s.handleReceive (byte :: bytes) =
        ({ s with
            log := s.log ++ (afterByte s.point byte).1 } :
          RemoteReads).handleReceive bytes ∧
      (afterByte s.point byte).2 = some s.point.read := by
  rcases hByte with hByte | hByte
  · simp only [handleReceive, afterByte, hByte, record,
      and_self]
  · simp only [handleReceive, afterByte, hByte, hKind,
      List.append_nil, if_true, and_self]

theorem yields_handleReadEvt
    {s : RemoteReads}
    (byte : Byte)
    (hKind : s.point.state.kind ≠ .activity)
    (hArmed : s.armed = false)
    (hExited : s.exited = false) :
    (s.handleReadEvt [byte]).Yields
      (s.log ++ (afterByte s.point byte).1) s.unread
      (afterByte s.point byte).2 := by
  have hByte := handleByte_of_not_activity hKind byte
  cases hEvent : readEvt byte with
  | none =>
      rw [hEvent] at hByte
      have hYields := yields_onTimeout hArmed hExited
      simp only [handleReadEvt, afterByte, hByte, hEvent,
        if_neg hKind, List.append_nil]
      exact hYields
  | some event =>
      have hYields := yields_dispatch event hArmed hExited
      rw [hEvent] at hByte
      simp only [handleReadEvt, hEvent, ite_self, afterByte,
        hByte]
      cases hOutcome :
          (remoteFsm.dispatch s.point.state event).2 with
      | stays | exits | transits target =>
          simp only [hOutcome] at hYields ⊢
          exact hYields

/- What a read in an activity does. -/
theorem step_of_activity
    {s : RemoteReads}
    {size : Nat}
    (hArmed : s.armed = true)
    (hExited : s.exited = false)
    (hKind : s.point.state.kind = .activity)
    (hPos : 1 ≤ size)
    (hBuffer : size ≤ s.recvSize)
    (hSome : size ≤ s.unread.length) :
    step s (.read size) =
      some (({ s with
          armed := false, unread := s.unread.drop size } :
            RemoteReads).handleReceive
        (s.unread.take size)) := by
  have hOn : ¬ (s.exited = true ∨ s.armed = false) := by
    simp [hExited, hArmed]
  have hSize : ¬ (size = 0 ∨ s.recvSize < size ∨
      s.unread.length < size) := by
    omega
  simp only [step, if_neg hOn, if_neg hSize, if_pos hKind]

/- A read of one byte, in any state. -/
theorem exists_step_one
    {s : RemoteReads}
    {byte : Byte}
    {bytes : List Byte}
    (hArmed : s.armed = true)
    (hExited : s.exited = false)
    (hUnread : s.unread = byte :: bytes) :
    ∃ s', step s (.read 1) = some s' ∧
      s'.Yields (s.log ++ (afterByte s.point byte).1) bytes
        (afterByte s.point byte).2 := by
  have hOn : ¬ (s.exited = true ∨ s.armed = false) := by
    simp [hExited, hArmed]
  have hSize : ¬ (1 = 0 ∨ s.recvSize < 1 ∨
      (byte :: bytes).length < 1) := by
    have hBuffer : 1 ≤ s.recvSize := by
      unfold recvSize
      split <;> omega
    rw [List.length_cons]
    omega
  simp only [step, if_neg hOn, hUnread, if_neg hSize,
    List.drop_succ_cons, List.drop_zero, List.take_succ_cons,
    List.take_zero]
  split
  · rename_i hKind
    exact ⟨_, rfl, yields_handleReceive
      (s := { s with armed := false, unread := bytes })
      byte hKind rfl hExited⟩
  · rename_i hKind
    exact ⟨_, rfl, yields_handleReadEvt
      (s := { s with armed := false, unread := bytes })
      byte hKind rfl hExited⟩

/- A timeout enters the state again, which reads. -/
theorem dispatchTimeout_eq
    {s : RemoteReads}
    (hTimer : s.point.timer = true) :
    s.dispatchTimeout = { s with armed := true } := by
  have hTimed := s.point.timed hTimer
  have hOutcome :
      (remoteFsm.dispatch s.point.state .timeout).2 =
        .transits s.point.state := by
    cases hState : s.point.state with
    | remoteIdle | remoteAvailabilityMode
    | remoteThroughputMode =>
        rw [hState] at hTimed
        cases hTimed.1
    | availabilityCommandReceived
    | throughputCommandReceived | endModeReceived => rfl
  have hPoint : s.point.deleteTimer.enter s.point.state =
      s.point := by
    refine ReadPoint.ext ?_ hTimed.2.symm ?_
    · rfl
    · simp [ReadPoint.enter, ReadPoint.deleteTimer, hTimer,
        hTimed.1]
  simp only [dispatchTimeout, hOutcome, hPoint]

/- A remote that goes on reads its next byte, sooner or later. -/
theorem exists_run_one
    {s : RemoteReads}
    {byte : Byte}
    {bytes : List Byte}
    (hLive : s.Live)
    (hUnread : s.unread = byte :: bytes) :
    ∃ labels s', StepSystem.run step s labels = some s' ∧
      s'.Yields (s.log ++ (afterByte s.point byte).1) bytes
        (afterByte s.point byte).2 := by
  cases hArmed : s.armed with
  | true =>
      rcases exists_step_one hArmed hLive.1 hUnread with
        ⟨s', hStep, hYields⟩
      exact ⟨[.read 1], s', StepSystem.run_of_step hStep,
        hYields⟩
  | false =>
      have hTimer : s.point.timer = true :=
        hLive.2.resolve_left (by simp [hArmed])
      have hWake : step s .timeout =
          some { s with armed := true } := by
        simp [step, hLive.1, hTimer, dispatchTimeout_eq hTimer]
      rcases exists_step_one (s := { s with armed := true })
          rfl hLive.1 hUnread with
        ⟨s', hStep, hYields⟩
      refine ⟨[.timeout, .read 1], s', ?_, hYields⟩
      rw [StepSystem.run_cons_of_step hWake,
        StepSystem.run_of_step hStep]

end RemoteReads

end ModemTester
