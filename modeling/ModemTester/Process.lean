import ModemTester.Library.StepSystem
import ModemTester.Master.MasterFsm
import ModemTester.Remote.RemoteFsm
import Mathlib.Logic.Function.Basic

/-
  One machine on its io thread: the reads and timers that
  `BaseFSM`, `TimerBasedState` and `ActivityState` start,
  and the completion handlers that asio queues for them.

  State objects are static, so each state has one `_timer`
  pointer for the whole run. A timer that is cancelled or
  deleted while it waits gets its handler queued with an
  error; a timer that has expired keeps a handler queued
  with success, whatever happens to the timer object.

  The buffer of a read is a member of the state object and
  is shared by its successive reads, so the byte that a
  queued `HandleReadEvt` finds is left open.

  Key definitions include:
    * `Process`
    * `Process.entry`
    * `Process.exit`
    * `Process.step`
-/

------------------------------------------------------------
-- Process State
------------------------------------------------------------

namespace ModemTester

/- How far an `async_wait` on a timer has come. -/
inductive WaitStatus where
  | waiting
  | expired
  | cancelled
  deriving DecidableEq, Repr

/- An `async_wait` whose handler has not run yet. -/
structure Wait (S : Type) where
  timer : Nat
  owner : S
  status : WaitStatus
  deriving DecidableEq, Repr

namespace Wait

variable {S : Type}

/- `cancel()` or `delete` on the timer waited for. -/
def cancel (timer : Nat) (wait : Wait S) : Wait S :=
  if wait.timer = timer ∧ wait.status = .waiting then
    { wait with status := .cancelled }
  else
    wait

/- The date of the timer waited for passes. -/
def expire (timer : Nat) (wait : Wait S) : Wait S :=
  if wait.timer = timer ∧ wait.status = .waiting then
    { wait with status := .expired }
  else
    wait

end Wait

/-
  The current state, the reads of `BaseFSM::entry` that wait
  for a byte, those whose success handler is queued, the
  `_timer` pointer of each state, and the waits whose
  handler has not run.
-/
structure Process (S : Type) where
  current : S
  pendingReads : Nat
  completedReads : Nat
  timer : S → Option Nat
  waits : List (Wait S)
  nextTimer : Nat

namespace Process

variable {S : Type} [DecidableEq S]

------------------------------------------------------------
-- Timers And Reads
------------------------------------------------------------

/- `TimerBasedState::startTimer`. -/
def startTimer (p : Process S) (state : S) : Process S :=
  match p.timer state with
  | some _ => p
  | none =>
      { p with
        timer :=
          Function.update p.timer state (some p.nextTimer)
        waits := p.waits ++ [⟨p.nextTimer, state, .waiting⟩]
        nextTimer := p.nextTimer + 1 }

/-
  `delete _timer; _timer = nullptr`. The destructor cancels
  the wait, so `TimerBasedState::cancelTimer` does the same.
-/
def deleteTimer (p : Process S) (state : S) : Process S :=
  match p.timer state with
  | none => p
  | some timer =>
      { p with
        timer := Function.update p.timer state none
        waits := p.waits.map (Wait.cancel timer) }

/- `async_read_some` of `BaseFSM::entry`. -/
def armRead (p : Process S) : Process S :=
  { p with pendingReads := p.pendingReads + 1 }

/- `cancel(ec)` on the stream; aborted reads do nothing. -/
def cancelReads (p : Process S) : Process S :=
  { p with pendingReads := 0 }

------------------------------------------------------------
-- Transitions
------------------------------------------------------------

variable (fsm : Fsm S)

/-
  `entry` of the current state. The `Sent...Command` states
  call `startTimer` a second time, which finds the timer
  already there.
-/
def entry (p : Process S) : Process S :=
  match fsm.kind p.current with
  | .base => p.armRead
  | .timerBased => p.armRead.startTimer p.current
  | .activity => p.armRead

/- `exit` of the current state. -/
def exit (p : Process S) : Process S :=
  match fsm.kind p.current with
  | .base => p.cancelReads
  | .timerBased => (p.deleteTimer p.current).cancelReads
  | .activity => p.cancelReads

/- `transit<S>()`. -/
def transit (p : Process S) (target : S) : Process S :=
  entry fsm { exit fsm p with current := target }

/- `dispatch(event)`; the process may exit. -/
def dispatch (p : Process S) (event : Event) :
    Option (Process S) :=
  match (fsm.dispatch p.current event).2 with
  | .stays => some p
  | .transits target => some (transit fsm p target)
  | .exits => none

/- `set_initial_state(); enter()`. -/
def start : Process S :=
  entry fsm
    { current := fsm.initialState
      pendingReads := 0
      completedReads := 0
      timer := fun _ => none
      waits := []
      nextTimer := 0 }

end Process

------------------------------------------------------------
-- Steps
------------------------------------------------------------

/-
  What may happen next to a process: a byte completes a
  pending read; the handler of a completed read finds
  `byte`; a timer expires; the queued handler of a wait
  runs; an activity, a script or the controller dispatches
  an event; an activity that starts cancels the stream.
-/
inductive ProcessLabel where
  | readCompletes
  | handleReadEvt (byte : Byte)
  | timerExpires (timer : Nat)
  | dispatchTimeout (timer : Nat)
  | dispatchEvent (event : Event)
  | activityCancels
  deriving DecidableEq, Repr

namespace Process

variable {S : Type} [DecidableEq S]

/- The wait on `timer` whose handler is queued. -/
def queuedWait? (p : Process S) (timer : Nat) :
    Option (Wait S) :=
  p.waits.find? fun wait =>
    wait.timer = timer ∧ wait.status ≠ .waiting

/- `HandleReadEvt` without error, on one byte. -/
def handleReadEvt
    (fsm : Fsm S)
    (p : Process S)
    (byte : Byte) : Option (Process S) :=
  match readEvt byte with
  | none => some p
  | some event => dispatch fsm p event

/-
  `TimerBasedState::dispatchTimeout`, which deletes the
  owner's timer whatever the error code says.
-/
def dispatchTimeout
    (fsm : Fsm S)
    (p : Process S)
    (wait : Wait S) : Option (Process S) :=
  let p' := deleteTimer
    { p with waits := p.waits.erase wait } wait.owner
  if wait.status = .expired then
    dispatch fsm p' .timeout
  else
    some p'

def step
    (fsm : Fsm S)
    (p : Process S) :
    ProcessLabel → Option (Process S)
  | .readCompletes =>
      if 0 < p.pendingReads then
        some
          { p with
            pendingReads := p.pendingReads - 1
            completedReads := p.completedReads + 1 }
      else
        none
  | .handleReadEvt byte =>
      if 0 < p.completedReads then
        handleReadEvt fsm
          { p with completedReads := p.completedReads - 1 }
          byte
      else
        none
  | .timerExpires timer =>
      some { p with waits := p.waits.map (Wait.expire timer) }
  | .dispatchTimeout timer =>
      match p.queuedWait? timer with
      | none => none
      | some wait => dispatchTimeout fsm p wait
  | .dispatchEvent event => dispatch fsm p event
  | .activityCancels =>
      if fsm.kind p.current = .activity then
        some p.cancelReads
      else
        none

end Process

end ModemTester
