import ModemTester.BaseFsm

/-
  The master's machine (`MasterFSM.h`, `MasterFSM.cpp`).

  Key definitions include:
    * `MasterState`
    * `masterFsm`
-/

------------------------------------------------------------
-- States
------------------------------------------------------------

namespace ModemTester

inductive MasterState where
  | idle
  | sentAvailableModeCommand
  | sentThroughputModeCommand
  | availabilityMode
  | throughputMode
  | waitAckAfterEndMode
  deriving DecidableEq, Repr

namespace MasterState

def kind : MasterState → StateKind
  | .idle => .base
  | .sentAvailableModeCommand => .timerBased
  | .sentThroughputModeCommand => .timerBased
  | .availabilityMode => .activity
  | .throughputMode => .activity
  | .waitAckAfterEndMode => .timerBased

/- The bytes each `entry` writes. -/
def entrySends : MasterState → List Byte
  | .idle => []
  | .sentAvailableModeCommand => [availabilityModeCommandId]
  | .sentThroughputModeCommand => [throughputModeCommandId]
  | .availabilityMode => [masterAckId]
  | .throughputMode => [masterAckId]
  | .waitAckAfterEndMode => [endModeCommandId]

------------------------------------------------------------
-- Reactions
------------------------------------------------------------

/- `react` of each state. -/
def react (state : MasterState) (event : Event) :
    Reaction MasterState :=
  match state with
  | .idle =>
      match event with
      | .availabilityModeCommand =>
          .transitTo .sentAvailableModeCommand
      | .throughputModeCommand =>
          .transitTo .sentThroughputModeCommand
      | .remoteAck => .sendAndTransitTo masterAckId .idle
      | _ => .ignore
  | .sentAvailableModeCommand =>
      match event with
      | .timeout => .transitTo .sentAvailableModeCommand
      | .remoteAck => .transitTo .availabilityMode
      | _ => .wrongEvent
  | .sentThroughputModeCommand =>
      match event with
      | .timeout => .transitTo .sentThroughputModeCommand
      | .remoteAck => .transitTo .throughputMode
      | _ => .wrongEvent
  | .availabilityMode =>
      match event with
      | .endModeCommand => .transitTo .waitAckAfterEndMode
      | .remoteAck => .transitTo .availabilityMode
      | _ => .wrongEvent
  | .throughputMode =>
      match event with
      | .endModeCommand => .transitTo .waitAckAfterEndMode
      | .remoteAck => .transitTo .throughputMode
      | _ => .wrongEvent
  | .waitAckAfterEndMode =>
      match event with
      | .remoteAck => .sendAndTransitTo masterAckId .idle
      | .timeout => .transitTo .waitAckAfterEndMode
      | _ => .wrongEvent

end MasterState

def masterFsm : Fsm MasterState where
  initialState := .idle
  kind := MasterState.kind
  entrySends := MasterState.entrySends
  react := MasterState.react

end ModemTester
