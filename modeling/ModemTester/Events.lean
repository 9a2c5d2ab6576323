import Mathlib.Data.Fin.Basic
import Mathlib.Tactic.SplitIfs

/-
  Events and command bytes (`Events.h`).

  Bytes 0 to 240 are standard codes: test data, and 240 is
  also the request for throughput results. Bytes 241 to 246
  are commands and acknowledgements. `Timeout_id` is -1 and
  never travels on the stream.

  Key definitions include:
    * `Byte`
    * `Event`
    * `Event.eventId`
    * `readEvt`
-/

------------------------------------------------------------
-- Event Identifiers
------------------------------------------------------------

namespace ModemTester

/- The `uint8_t` of the stream. -/
abbrev Byte := Fin 256

instance neZeroByte : @NeZero Nat Zero.ofOfNat0 256 :=
  ⟨by decide⟩

instance lawfulBEqByte : LawfulBEq Byte := inferInstance

def beginStandardCodes : Byte := 0
def endStandardCodes : Byte := 240
def availabilityModeCommandId : Byte := 241
def throughputModeCommandId : Byte := 242
def endModeCommandId : Byte := 243
def remoteAckId : Byte := 244
def masterAckId : Byte := 245
def endTestId : Byte := 246

/- The event types derived from `EventWithId`. -/
inductive Event where
  | availabilityModeCommand
  | throughputModeCommand
  | endModeCommand
  | remoteAck
  | masterAck
  | timeout
  | endTest
  deriving DecidableEq, Repr

/- `eventId()` of each event type. -/
def Event.eventId : Event → Int
  | .availabilityModeCommand => 241
  | .throughputModeCommand => 242
  | .endModeCommand => 243
  | .remoteAck => 244
  | .masterAck => 245
  | .timeout => -1
  | .endTest => 246

/- A byte that a sender may use as test data or request. -/
def IsStandardCode (byte : Byte) : Prop :=
  beginStandardCodes ≤ byte ∧ byte ≤ endStandardCodes

instance (byte : Byte) : Decidable (IsStandardCode byte) := by
  unfold IsStandardCode
  infer_instance

------------------------------------------------------------
-- Reading Events From The Stream
------------------------------------------------------------

/-
  The switch of `BaseFSM::HandleReadEvt`: the event that a
  byte read in a non-activity state dispatches.
-/
def readEvt (byte : Byte) : Option Event :=
  if byte = availabilityModeCommandId then
    some .availabilityModeCommand
  else if byte = throughputModeCommandId then
    some .throughputModeCommand
  else if byte = endModeCommandId then
    some .endModeCommand
  else if byte = remoteAckId then
    some .remoteAck
  else if byte = masterAckId then
    some .masterAck
  else if byte = endTestId then
    some .endTest
  else
    none

/- The read switch inverts `eventId`. -/
theorem readEvt_eq_some_iff
    (byte : Byte)
    (event : Event) :
    readEvt byte = some event ↔
      (byte.val : Int) = event.eventId := by
  unfold readEvt
  split_ifs with h₁ h₂ h₃ h₄ h₅ h₆
  all_goals
    simp only [Fin.ext_iff, availabilityModeCommandId,
      throughputModeCommandId, endModeCommandId, remoteAckId,
      masterAckId, endTestId] at *
    cases event <;> simp [Event.eventId] <;> omega

/- Standard codes dispatch nothing. -/
theorem readEvt_eq_none_of_isStandardCode
    {byte : Byte}
    (hStandard : IsStandardCode byte) :
    readEvt byte = none := by
  cases hEvent : readEvt byte with
  | none => rfl
  | some event =>
      rw [readEvt_eq_some_iff] at hEvent
      have hLe : byte.val ≤ 240 := hStandard.2
      cases event <;> simp [Event.eventId] at hEvent <;> omega

end ModemTester
