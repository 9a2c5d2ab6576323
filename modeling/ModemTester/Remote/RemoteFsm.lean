import ModemTester.BaseFsm

/-
  The remote's machine (`RemoteFSM.h`, `RemoteFSM.cpp`).

  Key definitions include:
    * `RemoteState`
    * `remoteFsm`
-/

------------------------------------------------------------
-- States
------------------------------------------------------------

namespace ModemTester

inductive RemoteState where
  | remoteIdle
  | availabilityCommandReceived
  | throughputCommandReceived
  | remoteAvailabilityMode
  | remoteThroughputMode
  | endModeReceived
  deriving DecidableEq, Repr

namespace RemoteState

def kind : RemoteState → StateKind
  | .remoteIdle => .base
  | .availabilityCommandReceived => .timerBased
  | .throughputCommandReceived => .timerBased
  | .remoteAvailabilityMode => .activity
  | .remoteThroughputMode => .activity
  | .endModeReceived => .timerBased

/- The bytes each `entry` writes. -/
def entrySends : RemoteState → List Byte
  | .remoteIdle => []
  | .availabilityCommandReceived => [remoteAckId]
  | .throughputCommandReceived => [remoteAckId]
  | .remoteAvailabilityMode => []
  | .remoteThroughputMode => []
  | .endModeReceived => [remoteAckId]

------------------------------------------------------------
-- Reactions
------------------------------------------------------------

/- `react` of each state. -/
def react (state : RemoteState) (event : Event) :
    Reaction RemoteState :=
  match state with
  | .remoteIdle =>
      match event with
      | .availabilityModeCommand =>
          .transitTo .availabilityCommandReceived
      | .throughputModeCommand =>
          .transitTo .throughputCommandReceived
      | _ => .ignore
  | .availabilityCommandReceived =>
      match event with
      | .masterAck => .transitTo .remoteAvailabilityMode
      | .timeout => .transitTo .availabilityCommandReceived
      | _ => .wrongEvent
  | .throughputCommandReceived =>
      match event with
      | .masterAck => .transitTo .remoteThroughputMode
      | .timeout => .transitTo .throughputCommandReceived
      | _ => .ignore
  | .remoteAvailabilityMode =>
      match event with
      | .endModeCommand => .transitTo .endModeReceived
      | .masterAck => .transitTo .remoteAvailabilityMode
      | _ => .wrongEvent
  | .remoteThroughputMode =>
      match event with
      | .endModeCommand => .transitTo .endModeReceived
      | .masterAck => .transitTo .remoteThroughputMode
      | _ => .wrongEvent
  | .endModeReceived =>
      match event with
      | .endModeCommand => .transitTo .endModeReceived
      | .timeout => .transitTo .endModeReceived
      | .masterAck => .transitTo .remoteIdle
      | _ => .wrongEvent

end RemoteState

def remoteFsm : Fsm RemoteState where
  initialState := .remoteIdle
  kind := RemoteState.kind
  entrySends := RemoteState.entrySends
  react := RemoteState.react

end ModemTester
