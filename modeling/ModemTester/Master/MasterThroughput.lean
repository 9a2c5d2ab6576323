import ModemTester.Master.MasterFsm
import ModemTester.Master.MasterPinger

/-
  What the master dispatches on a byte it reads
  (`MasterPinger.cpp`, `MasterThroughput.cpp`, and
  `BaseFSM::HandleReadEvt` outside the activities).

  Key definitions include:
    * `MasterThroughput.commandOf`
    * `MasterState.readByte`
-/

------------------------------------------------------------
-- Reading One Byte
------------------------------------------------------------

namespace ModemTester

/- The command switch of `MasterThroughput::handleReceive`. -/
def MasterThroughput.commandOf (byte : Byte) : Option Event :=
  if byte = remoteAckId then
    some .remoteAck
  else if byte = endTestId then
    some .endTest
  else if byte = endModeCommandId then
    some .endModeCommand
  else
    none

namespace MasterState

/-
  The event dispatched by the one-byte read that is armed in
  each state. `MasterPinger` tries its switch only on bytes
  that are not standard codes.
-/
def readByte (state : MasterState) (byte : Byte) :
    Option Event :=
  match state with
  | .availabilityMode =>
      if IsStandardCode byte then none
      else MasterPinger.commandOf byte
  | .throughputMode => MasterThroughput.commandOf byte
  | _ => readEvt byte

/- Whatever reads it, a byte dispatches its own event only. -/
theorem val_of_readByte
    {state : MasterState}
    {byte : Byte}
    {event : Event}
    (hRead : state.readByte byte = some event) :
    (byte.val : Int) = event.eventId := by
  cases state with
  | availabilityMode =>
      simp only [readByte, MasterPinger.commandOf] at hRead
      split_ifs at hRead with _ hAck hTest hEnd
      all_goals cases hRead
      · rw [hAck]; rfl
      · rw [hTest]; rfl
      · rw [hEnd]; rfl
  | throughputMode =>
      simp only [readByte, MasterThroughput.commandOf] at hRead
      split_ifs at hRead with hAck hTest hEnd
      all_goals cases hRead
      · rw [hAck]; rfl
      · rw [hTest]; rfl
      · rw [hEnd]; rfl
  | idle | sentAvailableModeCommand
  | sentThroughputModeCommand | waitAckAfterEndMode =>
      exact (readEvt_eq_some_iff byte event).mp hRead

end MasterState

end ModemTester
