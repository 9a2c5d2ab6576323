import ModemTester.Events
import ModemTester.Library.Ledger

/-
  Scripts of events (`EventsScript.h`).

  A script maps dates, given as offsets from its start, to
  events. `startScript` creates one timer an entry; in a
  cyclic script the handler of the last one starts the
  script again instead of dispatching.

  Timers expire in the order of their dates, and the io
  thread runs the handlers in the order in which they were
  queued: those of expired timers with success, those of
  timers that are cancelled or deleted while they wait with
  an error. `startScript` and `stopScript` are also called
  from outside.

  Key definitions include:
    * `Script`
    * `ScriptRun`
    * `ScriptRun.startScript`
    * `ScriptRun.stopScript`
    * `ScriptRun.step`
-/

------------------------------------------------------------
-- Scripts
------------------------------------------------------------

namespace ModemTester

/- `EventId_t`: the events, and two codes that are none. -/
inductive EventId where
  | event (event : Event)
  | beginStandardCodes
  | endStandardCodes
  deriving DecidableEq, Repr

/- The event that `dispatchEventFromId` hands to the pool. -/
def dispatchEventFromId : EventId → Option Event
  | .event event => some event
  | _ => none

/- The entries of the map, in the order of their offsets. -/
structure Script where
  entries : List (Int × EventId)
  sorted : entries.Pairwise fun a b => a.1 < b.1
  cyclic : Bool

/- A timer, named by the start that created it. -/
structure ScriptTimer where
  cycle : Nat
  date : Int
  deriving DecidableEq, Repr

/- The handler bound by `async_wait`. -/
inductive ScriptHandler where
  | handleTimer (id : EventId)
  | restartScript
  deriving DecidableEq, Repr

structure ScriptWait where
  timer : ScriptTimer
  handler : ScriptHandler
  deriving DecidableEq, Repr

/- A handler that is queued. -/
structure ScriptCompletion where
  wait : ScriptWait
  success : Bool
  deriving DecidableEq, Repr

/-
  `timers` is `_timers`. `waiting` are the waits of timers
  that have not expired, in the order in which they will;
  `ready` is the queue of handlers. `starts` counts the
  calls of `startScript`, `restarts` those of them made by
  `restartScript`; `dispatched` are the events handed to the
  pool, `history` what was done to timers.
-/
structure ScriptRun where
  starts : Nat
  restarts : Nat
  timers : List ScriptTimer
  waiting : List ScriptWait
  ready : List ScriptCompletion
  dispatched : List Event
  history : List (LedgerOp ScriptTimer)
  deriving DecidableEq, Repr

------------------------------------------------------------
-- Starting And Stopping
------------------------------------------------------------

namespace Script

/- `begin + std::prev(this->end())->first`. -/
def lastDate (script : Script) (begin : Int) : Option Int :=
  script.entries.getLast?.map fun entry => begin + entry.1

/- What the timer of an entry does when it expires. -/
def handlerAt
    (script : Script)
    (begin date : Int)
    (id : EventId) : ScriptHandler :=
  if script.cyclic ∧ script.lastDate begin = some date then
    .restartScript
  else
    .handleTimer id

/- The timers of one start, and the waits on them. -/
def timersAt
    (script : Script)
    (cycle : Nat)
    (begin : Int) : List ScriptTimer :=
  script.entries.map fun entry => ⟨cycle, begin + entry.1⟩

def waitsAt
    (script : Script)
    (cycle : Nat)
    (begin : Int) : List ScriptWait :=
  script.entries.map fun entry =>
    ⟨⟨cycle, begin + entry.1⟩,
      script.handlerAt begin (begin + entry.1) entry.2⟩

end Script

namespace ScriptRun

/- The constructor. -/
def initial : ScriptRun where
  starts := 0
  restarts := 0
  timers := []
  waiting := []
  ready := []
  dispatched := []
  history := []

/-
  `stopScript`: every timer of `_timers` is cancelled, so
  that a wait on it is aborted, and deleted.
-/
def stopScript (s : ScriptRun) : ScriptRun :=
  { s with
    timers := []
    waiting := s.waiting.filter fun wait =>
      wait.timer ∉ s.timers
    ready := s.ready ++
      (s.waiting.filter fun wait =>
        wait.timer ∈ s.timers).map fun wait => ⟨wait, false⟩
    history := s.history ++
      s.timers.flatMap fun timer =>
        [.use timer, .release timer] }

/-
  The body of the loop of `startScript`: a new timer, its
  `expires_at` and its `async_wait`.
-/
def createTimer
    (script : Script)
    (begin : Int)
    (s : ScriptRun)
    (entry : Int × EventId) : ScriptRun :=
  let date := begin + entry.1
  let timer : ScriptTimer := ⟨s.starts, date⟩
  { s with
    timers := s.timers ++ [timer]
    waiting := s.waiting ++
      [⟨timer, script.handlerAt begin date entry.2⟩]
    history := s.history ++
      [.acquire timer, .use timer, .use timer] }

/- `startScript`, with the clock at `begin`. -/
def startScript
    (script : Script)
    (begin : Int)
    (s : ScriptRun) : ScriptRun :=
  let stopped := s.stopScript
  script.entries.foldl (createTimer script begin)
    { stopped with starts := stopped.starts + 1 }

------------------------------------------------------------
-- Steps
------------------------------------------------------------

end ScriptRun

inductive ScriptLabel where
  /- The next timer expires. -/
  | expire
  /- The io thread runs the next handler. -/
  | handle (now : Int)
  /- Calls from outside. -/
  | startScript (now : Int)
  | stopScript
  deriving DecidableEq, Repr

namespace ScriptLabel

/- The step is the io thread's or a timer's. -/
def IsIo : ScriptLabel → Prop
  | .expire => True
  | .handle _ => True
  | _ => False

instance : DecidablePred IsIo
  | .expire => .isTrue trivial
  | .handle _ => .isTrue trivial
  | .startScript _ => .isFalse not_false
  | .stopScript => .isFalse not_false

end ScriptLabel

namespace ScriptRun

/- `handleTimer` and `restartScript`. -/
def runHandler
    (script : Script)
    (now : Int)
    (s : ScriptRun)
    (completion : ScriptCompletion) : ScriptRun :=
  if completion.success then
    match completion.wait.handler with
    | .handleTimer id =>
        { s with
          dispatched := s.dispatched ++
            (dispatchEventFromId id).toList }
    | .restartScript =>
        startScript script now
          { s with restarts := s.restarts + 1 }
  else
    s

def step
    (script : Script)
    (s : ScriptRun) : ScriptLabel → Option ScriptRun
  | .expire =>
      match s.waiting with
      | wait :: waiting =>
          some
            { s with
              waiting := waiting
              ready := s.ready ++ [⟨wait, true⟩] }
      | [] => none
  | .handle now =>
      match s.ready with
      | completion :: ready =>
          some
            (runHandler script now { s with ready := ready }
              completion)
      | [] => none
  | .startScript now => some (startScript script now s)
  | .stopScript => some s.stopScript

------------------------------------------------------------
-- What A Start Does
------------------------------------------------------------

/- What is done to timers that are deleted, and to new ones. -/
def released (timers : List ScriptTimer) :
    List (LedgerOp ScriptTimer) :=
  timers.flatMap fun timer => [.use timer, .release timer]

def acquired (timers : List ScriptTimer) :
    List (LedgerOp ScriptTimer) :=
  timers.flatMap fun timer =>
    [.acquire timer, .use timer, .use timer]

/- Waits are on timers of `_timers` only. -/
def WaitsOnTimers (s : ScriptRun) : Prop :=
  ∀ wait ∈ s.waiting, wait.timer ∈ s.timers

theorem foldl_createTimer
    (script : Script)
    (begin : Int)
    (entries : List (Int × EventId))
    (s : ScriptRun) :
    entries.foldl (createTimer script begin) s =
      { s with
        timers := s.timers ++ entries.map
          fun entry => ⟨s.starts, begin + entry.1⟩
        waiting := s.waiting ++ entries.map fun entry =>
          ⟨⟨s.starts, begin + entry.1⟩,
            script.handlerAt begin (begin + entry.1) entry.2⟩
        history := s.history ++ acquired (entries.map
          fun entry => ⟨s.starts, begin + entry.1⟩) } := by
  induction entries generalizing s with
  | nil => simp [acquired]
  | cons entry entries ih =>
      rw [List.foldl_cons, ih]
      simp [createTimer, acquired, List.append_assoc]

theorem stopScript_of_waitsOnTimers
    {s : ScriptRun}
    (hWaits : s.WaitsOnTimers) :
    s.stopScript =
      { s with
        timers := []
        waiting := []
        ready := s.ready ++
          s.waiting.map fun wait => ⟨wait, false⟩
        history := s.history ++ released s.timers } := by
  have hNone : (s.waiting.filter fun wait =>
      wait.timer ∉ s.timers) = [] := by
    apply List.filter_eq_nil_iff.mpr
    intro wait hWait
    simpa using hWaits wait hWait
  have hAll : (s.waiting.filter fun wait =>
      wait.timer ∈ s.timers) = s.waiting := by
    apply List.filter_eq_self.mpr
    intro wait hWait
    simpa using hWaits wait hWait
  simp only [stopScript, hNone, hAll, released]

/-
  A start cancels what waits, and then only the timers of
  the new cycle are there.
-/
theorem startScript_of_waitsOnTimers
    {script : Script}
    {s : ScriptRun}
    (hWaits : s.WaitsOnTimers)
    (begin : Int) :
    s.startScript script begin =
      { s with
        starts := s.starts + 1
        timers := script.timersAt (s.starts + 1) begin
        waiting := script.waitsAt (s.starts + 1) begin
        ready := s.ready ++
          s.waiting.map fun wait => ⟨wait, false⟩
        history := s.history ++ released s.timers ++
          acquired
            (script.timersAt (s.starts + 1) begin) } := by
  simp only [startScript, stopScript_of_waitsOnTimers hWaits,
    foldl_createTimer, List.nil_append]
  rfl

theorem waitsOnTimers_startScript
    {script : Script}
    {s : ScriptRun}
    (hWaits : s.WaitsOnTimers)
    (begin : Int) :
    (s.startScript script begin).WaitsOnTimers := by
  rw [startScript_of_waitsOnTimers hWaits]
  intro wait hWait
  rcases List.mem_map.mp hWait with ⟨entry, hEntry, rfl⟩
  exact List.mem_map.mpr ⟨entry, hEntry, rfl⟩

end ScriptRun

end ModemTester
