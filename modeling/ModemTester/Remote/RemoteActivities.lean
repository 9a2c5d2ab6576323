import ModemTester.Remote.RemoteFsm

/-
  What the remote does with a byte it reads
  (`RemotePinger.cpp`, `RemoteThroughput.cpp`, and
  `BaseFSM::HandleReadEvt` outside the activities).

  Each handler is given for one byte of a read that
  succeeded. After every branch but a dispatch the handler
  goes on and reads again.

  Key definitions include:
    * `Handling`
    * `RemotePinger.handleByte`
    * `RemoteThroughput.handleByte`
    * `RemoteState.handleByte`
-/

------------------------------------------------------------
-- Handlers
------------------------------------------------------------

namespace ModemTester

inductive Handling where
  | dispatch (event : Event)
  /- The byte is written back. -/
  | echo
  /- `sendResults()`. -/
  | sendResults
  | ignore
  deriving DecidableEq, Repr

namespace RemotePinger

/- `RemotePinger::handleReceive`. -/
def handleByte (byte : Byte) : Handling :=
  if IsStandardCode byte then
    .echo
  else if byte = endTestId then
    .dispatch .endTest
  else if byte = endModeCommandId then
    .dispatch .endModeCommand
  else
    .ignore

end RemotePinger

namespace RemoteThroughput

/- `RemoteThroughput::handleReceive`. -/
def handleByte (byte : Byte) : Handling :=
  if endStandardCodes ≤ byte then
    if byte = endStandardCodes then
      .sendResults
    else if byte = endTestId then
      .dispatch .endTest
    else if byte = endModeCommandId then
      .dispatch .endModeCommand
    else
      .ignore
  else
    .ignore

end RemoteThroughput

namespace RemoteState

/- The handler of the read that is armed in each state. -/
def handleByte (state : RemoteState) (byte : Byte) :
    Handling :=
  match state with
  | .remoteAvailabilityMode => RemotePinger.handleByte byte
  | .remoteThroughputMode => RemoteThroughput.handleByte byte
  | _ =>
      match readEvt byte with
      | some event => .dispatch event
      | none => .ignore

/- Whatever reads it, a byte dispatches its own event only. -/
theorem val_of_handleByte
    {state : RemoteState}
    {byte : Byte}
    {event : Event}
    (hHandling : state.handleByte byte = .dispatch event) :
    (byte.val : Int) = event.eventId := by
  cases state with
  | remoteAvailabilityMode =>
      simp only [handleByte, RemotePinger.handleByte]
        at hHandling
      split_ifs at hHandling with _ hTest hEnd
      all_goals cases hHandling
      · rw [hTest]; rfl
      · rw [hEnd]; rfl
  | remoteThroughputMode =>
      simp only [handleByte, RemoteThroughput.handleByte]
        at hHandling
      split_ifs at hHandling with _ _ hTest hEnd
      all_goals cases hHandling
      · rw [hTest]; rfl
      · rw [hEnd]; rfl
  | remoteIdle | availabilityCommandReceived
  | throughputCommandReceived | endModeReceived =>
      simp only [handleByte] at hHandling
      split at hHandling
      · rename_i read hRead
        rw [Handling.dispatch.injEq] at hHandling
        rw [← hHandling]
        exact (readEvt_eq_some_iff byte read).mp hRead
      · cases hHandling

end RemoteState

end ModemTester
