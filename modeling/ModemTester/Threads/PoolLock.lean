import ModemTester.Library.WaitGraph
import ModemTester.Threads.Transitions

/-
  Who waits for whom in the master (`RunnablePool.cpp`,
  `DispatchingRunnable.h`, `Runnable.cpp`,
  `MasterThroughput.cpp`, `ActivityState::exit` of
  `BaseFSM.h`).

  The collector of the pool holds the lock while it joins
  the runnables that are stored, whether they still run or
  not. Such a runnable dispatches one event, and the exit of
  an activity joins the activity's thread. A
  `MasterThroughput` takes the lock at its end, to add the
  `DispatchingRunnable` that ends the mode; before that it
  waits for results, which only the io thread reads. The io
  thread takes the lock in the timer handlers that add an
  event.

  Transitions are those of `MasterRun`. What is read and
  written in the activities is left out here.

  Key definitions include:
    * `PoolRun`
    * `PoolRun.step`
    * `PoolRun.awaits`
    * `PoolRun.Apart`

  Main declarations:
    * `PoolRun.no_cyclic_wait`
    * `PoolRun.cyclic_wait_in_throughputMode`
-/

------------------------------------------------------------
-- Joins Of A Transition
------------------------------------------------------------

namespace ModemTester

namespace MasterRun

/- The activity that a thread waits for in its dispatch. -/
def joined
    (s : MasterRun)
    (caller : Caller) : Option Nat :=
  match s.dispatchOf caller with
  | some ⟨_, _, .joining _ activity _⟩ =>
      if activity ∈ s.ended then none else some activity
  | _ => none

/- The activity that its next step stops and joins. -/
def exits
    (s : MasterRun)
    (caller : Caller) : Option Nat :=
  match s.dispatchOf caller with
  | some ⟨_, _, .exiting _⟩ =>
      if masterFsm.kind s.current = .activity then
        s.activity s.current
      else none
  | _ => none

end MasterRun

------------------------------------------------------------
-- The Pool
------------------------------------------------------------

inductive Party where
  | collector
  | runnable (id : Nat)
  | activity (id : Nat)
  | io
  deriving DecidableEq, Repr

/-
  `collecting` holds the lock and joins the first runnable
  of the list.
-/
inductive CollectorPhase where
  | sleeping
  | wantsLock
  | collecting (todo : List Nat)
  deriving DecidableEq, Repr

/- How far the thread of an activity is. -/
inductive ActivityStage where
  | pinging
  | working
  | inResults
  | hasResults
  | wantsLock
  | adding
  | added
  | handedOver
  deriving DecidableEq, Repr

/- What the io thread does, dispatches apart. -/
inductive PoolIo where
  | free
  | wantsLock (event : Event)
  | adding (event : Event)
  | added
  | reporting
  deriving DecidableEq, Repr

/-
  `events` are those of the runnables that were added, which
  are named by their order. `called` are those that have
  called `dispatch`, and `finished` those whose threads have
  ended. `period` is the report period of `MasterThroughput`.
-/
structure PoolRun where
  period : Nat
  fsm : MasterRun
  stage : Nat → ActivityStage
  events : List Event
  stored : List Nat
  called : List Nat
  finished : List Nat
  collector : CollectorPhase
  io : PoolIo
  lock : Option Party

namespace PoolRun

def start (period : Nat) : PoolRun where
  period := period
  fsm := .start
  stage := fun _ => .pinging
  events := []
  stored := []
  called := []
  finished := []
  collector := .sleeping
  io := .free
  lock := none

/-
  `addAndStartRunnable(new DispatchingRunnable)` under the
  lock.
-/
def add (event : Event) (s : PoolRun) : PoolRun :=
  { s with
    events := s.events ++ [event]
    stored := s.stored ++ [s.events.length] }

def setStage
    (activity : Nat)
    (stage : ActivityStage)
    (s : PoolRun) : PoolRun :=
  { s with
    stage := fun other =>
      if other = activity then stage else s.stage other }

/- The machine steps; an activity that it creates starts. -/
def setFsm (fsm : MasterRun) (s : PoolRun) : PoolRun :=
  { s with
    fsm := fsm
    stage := fun activity =>
      if s.fsm.created ≤ activity ∧ activity < fsm.created then
        if fsm.current = .throughputMode then .working
        else .pinging
      else s.stage activity }

------------------------------------------------------------
-- Threads
------------------------------------------------------------

/- `RunnablePool::operator()`. -/
def collect (s : PoolRun) : Option PoolRun :=
  match s.collector with
  | .sleeping => some { s with collector := .wantsLock }
  | .wantsLock =>
      if s.lock = none then
        some
          { s with
            collector := .collecting s.stored
            lock := some .collector }
      else none
  | .collecting (id :: todo) =>
      if id ∈ s.finished then
        some { s with collector := .collecting todo }
      else none
  | .collecting [] =>
      some
        { s with
          collector := .sleeping
          stored := []
          lock := none }

/-
  The thread of an activity. A pinger ends once it has been
  stopped; a `MasterThroughput` comes to its end whether it
  was stopped or not.
-/
def work (activity : Nat) (s : PoolRun) : Option PoolRun :=
  if activity < s.fsm.created ∧ activity ∉ s.fsm.ended then
    match s.stage activity with
    | .pinging =>
        if .use activity ∈ s.fsm.history then
          (s.fsm.step (.endThread activity)).map
            fun fsm => s.setFsm fsm
        else none
    | .working => some (s.setStage activity .inResults)
    | .inResults => none
    | .hasResults => some (s.setStage activity .wantsLock)
    | .wantsLock =>
        if s.lock = none then
          some
            { s.setStage activity .adding with
              lock := some (.activity activity) }
        else none
    | .adding =>
        some ((s.add .endModeCommand).setStage activity .added)
    | .added =>
        some
          { s.setStage activity .handedOver with lock := none }
    | .handedOver =>
        (s.fsm.step (.endThread activity)).map
          fun fsm => s.setFsm fsm
  else none

/- The next step of a timer handler that adds an event. -/
def addFromTimer (s : PoolRun) : Option PoolRun :=
  match s.io with
  | .wantsLock event =>
      if s.lock = none then
        some { s with io := .adding event, lock := some .io }
      else none
  | .adding event => some { s.add event with io := .added }
  | .added => some { s with io := .free, lock := none }
  | _ => none

/- The io thread is between handlers. -/
def IoIdle (s : PoolRun) : Prop :=
  s.io = .free ∧ s.fsm.dispatchOf .io = none

instance (s : PoolRun) : Decidable s.IoIdle := by
  unfold IoIdle
  infer_instance

end PoolRun

inductive PoolLabel where
  /- The io thread begins a handler that dispatches. -/
  | handle (event : Event)
  /- One that adds an event, of the script or controller. -/
  | timer (event : Event)
  /- `receiveResults` of an activity. -/
  | results (activity : Nat)
  /- `makeReport` of a `MasterThroughput`. -/
  | report (activity : Nat)
  /- The io thread goes on in a handler that adds. -/
  | addFromTimer
  /- The collector makes a step. -/
  | collect
  /- The thread of an activity makes a step. -/
  | work (activity : Nat)
  /- A stored runnable calls `dispatch`, and ends. -/
  | call (id : Nat)
  | finish (id : Nat)
  /- A dispatch makes a step. -/
  | go (caller : Caller)
  deriving DecidableEq, Repr

namespace PoolRun

/- A step while the process runs. -/
def runStep (s : PoolRun) : PoolLabel → Option PoolRun
  | .handle event =>
      if s.IoIdle then
        (s.fsm.step (.call .io event)).map fun fsm =>
          s.setFsm fsm
      else none
  | .timer event =>
      if s.IoIdle then some { s with io := .wantsLock event }
      else none
  | .results activity =>
      if s.IoIdle ∧ s.stage activity = .inResults then
        some (s.setStage activity .hasResults)
      else none
  | .report activity =>
      -- `getResults` does not return on the io thread.
      if s.IoIdle ∧ 0 < s.period ∧
          activity < s.fsm.created ∧
          s.stage activity ≠ .pinging then
        some { s with io := .reporting }
      else none
  | .addFromTimer => s.addFromTimer
  | .collect => s.collect
  | .work activity => s.work activity
  | .call id =>
      match s.events[id]? with
      | some event =>
          if id ∈ s.called then none
          else
            (s.fsm.step (.call (.runnable id) event)).map
              fun fsm =>
                { s.setFsm fsm with called := s.called ++ [id] }
      | none => none
  | .finish id =>
      if id ∈ s.called ∧ id ∉ s.finished ∧
          s.fsm.dispatchOf (.runnable id) = none then
        some { s with finished := s.finished ++ [id] }
      else none
  | .go caller =>
      (s.fsm.step (.go caller)).map fun fsm => s.setFsm fsm

def step (s : PoolRun) (label : PoolLabel) : Option PoolRun :=
  if s.fsm.exited = true ∨ s.fsm.faulted = true then none
  else s.runStep label

------------------------------------------------------------
-- Waiting
------------------------------------------------------------

/- The party that a party waits for. -/
def awaits (s : PoolRun) : Party → Option Party
  | .collector =>
      match s.collector with
      | .wantsLock => s.lock
      | .collecting (id :: _) =>
          if id ∈ s.finished then none
          else some (.runnable id)
      | _ => none
  | .runnable id =>
      (s.fsm.joined (.runnable id)).map .activity
  | .activity activity =>
      match s.stage activity with
      | .inResults => some .io
      | .wantsLock => s.lock
      | _ => none
  | .io =>
      match s.io with
      | .free => (s.fsm.joined .io).map .activity
      | .wantsLock _ => s.lock
      | .adding _ => none
      | .added => none
      | .reporting => some .io

end PoolRun

/- The activity needs neither the io thread nor the lock. -/
def ActivityStage.Done : ActivityStage → Prop
  | .pinging => True
  | .added => True
  | .handedOver => True
  | _ => False

/- It needs the io thread no more. -/
def ActivityStage.Provided : ActivityStage → Prop
  | .working => False
  | .inResults => False
  | _ => True

instance : DecidablePred ActivityStage.Done := by
  intro stage
  unfold ActivityStage.Done
  split
  · infer_instance
  · infer_instance
  · infer_instance
  · infer_instance

instance : DecidablePred ActivityStage.Provided := by
  intro stage
  unfold ActivityStage.Provided
  split
  · infer_instance
  · infer_instance
  · infer_instance

namespace PoolRun

/- The runnable that the collector joins. -/
def head (s : PoolRun) : Option Nat :=
  match s.collector with
  | .collecting todo => todo.head?
  | _ => none

/- The one that it joins after its next step. -/
def nextHead (s : PoolRun) : Option Nat :=
  match s.collector with
  | .wantsLock => s.stored.head?
  | .collecting todo => todo.tail.head?
  | .sleeping => none

/-
  The collector begins to join no runnable that waits for an
  activity which may still take the lock, and no runnable
  that the collector joins begins to wait for one. The io
  thread makes no report, and joins an activity only when
  that has its results.
-/
def Apart (s : PoolRun) : PoolLabel → Prop
  | .collect =>
      ∀ id ∈ s.nextHead,
        ∀ activity ∈ s.fsm.joined (.runnable id),
          (s.stage activity).Done
  | .go (.runnable id) =>
      s.head = some id →
        ∀ activity ∈ s.fsm.exits (.runnable id),
          (s.stage activity).Done
  | .go .io =>
      ∀ activity ∈ s.fsm.exits .io, (s.stage activity).Provided
  | .report _ => False
  | _ => True

instance (s : PoolRun) : DecidablePred s.Apart
  | .collect =>
      inferInstanceAs (Decidable (∀ _ ∈ _, ∀ _ ∈ _, _))
  | .go (.runnable _) =>
      inferInstanceAs (Decidable (_ → ∀ _ ∈ _, _))
  | .go .io => inferInstanceAs (Decidable (∀ _ ∈ _, _))
  | .report _ => .isFalse id
  | .handle _ => .isTrue trivial
  | .timer _ => .isTrue trivial
  | .results _ => .isTrue trivial
  | .addFromTimer => .isTrue trivial
  | .work _ => .isTrue trivial
  | .call _ => .isTrue trivial
  | .finish _ => .isTrue trivial

end PoolRun

end ModemTester

------------------------------------------------------------
-- Steps Of The Machine
------------------------------------------------------------

namespace ModemTester

namespace MasterRun

variable {s s' t : MasterRun}
variable {caller other : Caller}
variable {dispatch : Dispatch}
variable {activity : Nat}
variable {label : MasterLabel}

theorem joined_eq_some_iff :
    s.joined caller = some activity ↔
      ∃ dispatch, s.dispatchOf caller = some dispatch ∧
        (∃ state target,
          dispatch.point = .joining state activity target) ∧
        activity ∉ s.ended := by
  unfold joined
  constructor
  · intro hJoined
    split at hJoined
    · rename_i caller' event state activity' target hFind
      split at hJoined
      · cases hJoined
      · rename_i hRuns
        cases hJoined
        exact ⟨_, hFind, ⟨state, target, rfl⟩, hRuns⟩
    · cases hJoined
  · rintro ⟨⟨caller', event, point⟩, hFind,
      ⟨state, target, rfl⟩, hRuns⟩
    simp [hFind, hRuns]

/- Who is where, and what has ended, is the same. -/
theorem joined_congr
    (hDispatch : s'.dispatchOf caller = s.dispatchOf caller)
    (hEnded : s'.ended = s.ended) :
    s'.joined caller = s.joined caller := by
  rw [joined, joined, hDispatch, hEnded]

/-
  What a step may add: joins that begin with it, and one
  activity, the next by number.
-/
structure Stepped
    (s s' : MasterRun)
    (label : MasterLabel) : Prop where
  joined : ∀ caller activity,
    s'.joined caller = some activity →
      s.joined caller = some activity ∨
        label = .go caller ∧ s.exits caller = some activity
  activity : ∀ state activity,
    s'.activity state = some activity →
      s.activity state = some activity ∨ activity < s'.created
  created : s.created ≤ s'.created

/- A step of a dispatch that joins nothing after it. -/
theorem stepped_of_leaves
    (hOthers : ∀ other, other ≠ caller →
      s'.dispatchOf other = s.dispatchOf other)
    (hNot : ∀ activity, s'.joined caller ≠ some activity)
    (hEnded : s'.ended = s.ended)
    (hActivity : ∀ state activity,
      s'.activity state = some activity →
        s.activity state = some activity ∨
          activity < s'.created)
    (hCreated : s.created ≤ s'.created) :
    Stepped s s' (.go caller) := by
  refine ⟨?_, hActivity, hCreated⟩
  intro other activity hJoined
  by_cases hOther : other = caller
  · exact absurd (hOther ▸ hJoined) (hNot activity)
  · rw [joined_congr (hOthers other hOther) hEnded] at hJoined
    exact .inl hJoined

theorem joined_ne_of_point
    {point : DispatchPoint}
    (hFind : s.dispatchOf caller = some dispatch)
    (hPoint : dispatch.point = point)
    (hNot : ∀ state activity target,
      point ≠ .joining state activity target) :
    ∀ activity, s.joined caller ≠ some activity := by
  intro activity hJoined
  rcases joined_eq_some_iff.mp hJoined with
    ⟨dispatch', hFind', ⟨state, target, hJoining⟩, -⟩
  rw [hFind, Option.some.injEq] at hFind'
  rw [← hFind', hPoint] at hJoining
  exact hNot _ _ _ hJoining

theorem joined_ne_of_none
    (hNone : s.dispatchOf caller = none) :
    ∀ activity, s.joined caller ≠ some activity := by
  intro activity hJoined
  rcases joined_eq_some_iff.mp hJoined with ⟨_, hFind, -⟩
  rw [hNone] at hFind
  cases hFind

/- The dispatch goes on to a point that joins nothing. -/
theorem stepped_moveTo
    {point : DispatchPoint}
    (hFind : s.dispatchOf caller = some dispatch)
    (hNot : ∀ state activity target,
      point ≠ .joining state activity target) :
    Stepped s (s.moveTo caller point) (.go caller) :=
  stepped_of_leaves
    (fun _ hOther => dispatchOf_moveTo_of_ne hOther)
    (joined_ne_of_point (dispatchOf_moveTo_self hFind) rfl hNot)
    rfl (fun _ _ hActivity => .inl hActivity) (Nat.le_refl _)

theorem stepped_finish :
    Stepped s (s.finish caller) (.go caller) :=
  stepped_of_leaves
    (fun _ hOther => dispatchOf_finish_of_ne hOther)
    (joined_ne_of_none dispatchOf_finish_self)
    rfl (fun _ _ hActivity => .inl hActivity) (Nat.le_refl _)

theorem stepped_react
    {event : Event}
    (hFind : s.dispatchOf caller = some dispatch)
    (hPoint : dispatch.point = .called) :
    Stepped s (s.react caller event) (.go caller) := by
  unfold react
  split
  · exact stepped_finish
  · exact stepped_moveTo hFind (by simp)
  · exact stepped_of_leaves (fun _ _ => rfl)
      (joined_ne_of_point (s := { s with exited := true })
        hFind hPoint (by simp))
      rfl (fun _ _ hActivity => .inl hActivity) (Nat.le_refl _)

theorem stepped_exit
    {target : MasterState}
    (hFind : s.dispatchOf caller = some dispatch)
    (hPoint : dispatch.point = .exiting target) :
    Stepped s (s.exit caller target) (.go caller) := by
  unfold exit
  split
  · rename_i hKind
    split
    · rename_i activity hActivity
      refine ⟨?_, fun _ _ hOld => .inl hOld, Nat.le_refl _⟩
      intro other activity' hJoined
      by_cases hOther : other = caller
      · subst hOther
        refine .inr ⟨rfl, ?_⟩
        have hFind' : ((s.record (.use activity)).moveTo other
            (.joining s.current activity target)).dispatchOf
              other = some { dispatch with
                point := .joining s.current activity target } :=
          dispatchOf_moveTo_self hFind
        rcases joined_eq_some_iff.mp hJoined with
          ⟨last, hLast, ⟨state, target', hJoining⟩, -⟩
        rw [hFind', Option.some.injEq] at hLast
        subst hLast
        cases hJoining
        cases dispatch
        simp only at hPoint
        simp [exits, hFind, hPoint, hKind, hActivity]
      · have hSame : ((s.record (.use activity)).moveTo caller
            (.joining s.current activity target)).dispatchOf
              other = s.dispatchOf other :=
          dispatchOf_moveTo_of_ne hOther
        rw [joined_congr hSame rfl] at hJoined
        exact .inl hJoined
    · exact stepped_of_leaves (fun _ _ => rfl)
        (joined_ne_of_point (s := { s with faulted := true })
          hFind hPoint (by simp))
        rfl (fun _ _ hOld => .inl hOld) (Nat.le_refl _)
  · exact stepped_moveTo hFind (by simp)

theorem stepped_deleteActivity
    {state target : MasterState}
    (hFind : s.dispatchOf caller = some dispatch) :
    Stepped s (s.deleteActivity caller state target)
      (.go caller) := by
  unfold deleteActivity
  split
  · rename_i activity hActivity
    have hMoved : Stepped (s.record (.release activity))
        ((s.record (.release activity)).moveTo caller
          (.clearing state target)) (.go caller) :=
      stepped_moveTo hFind (by simp)
    exact ⟨hMoved.joined, hMoved.activity, hMoved.created⟩
  · exact stepped_moveTo hFind (by simp)

theorem stepped_entry :
    Stepped s (s.entry caller) (.go caller) := by
  unfold entry
  split
  · refine stepped_of_leaves ?_ (joined_ne_of_none ?_) rfl ?_
      (Nat.le_succ _)
    · intro other hOther
      exact dispatchOf_finish_of_ne
        (s := (s.record (.acquire s.created)).setActivity
          s.current (some s.created)) hOther
    · exact dispatchOf_finish_self
        (s := (s.record (.acquire s.created)).setActivity
          s.current (some s.created))
    · intro state activity hActivity
      simp only [finish, setActivity, record] at hActivity
      split at hActivity
      · cases hActivity
        exact .inr (Nat.lt_succ_self _)
      · exact .inl hActivity
  · exact stepped_finish

theorem stepped_advance
    (hFind : s.dispatchOf caller = some dispatch)
    (hStep : s.advance dispatch = some s') :
    Stepped s s' (.go caller) := by
  have hCaller := caller_of_dispatchOf hFind
  unfold advance at hStep
  rw [hCaller] at hStep
  split at hStep
  · rename_i hPoint
    cases hStep
    exact stepped_react hFind hPoint
  · rename_i target hPoint
    cases hStep
    exact stepped_exit hFind hPoint
  · split at hStep
    · cases hStep
      exact stepped_moveTo hFind (by simp)
    · cases hStep
  · cases hStep
    exact stepped_deleteActivity hFind
  · rename_i state target hPoint
    cases hStep
    refine stepped_of_leaves ?_
      (joined_ne_of_point (dispatchOf_moveTo_self
        (s := s.setActivity state none) hFind) rfl (by simp))
      rfl ?_ (Nat.le_refl _)
    · intro other hOther
      exact dispatchOf_moveTo_of_ne
        (s := s.setActivity state none) hOther
    · intro state' activity hActivity
      simp only [moveTo, setActivity] at hActivity
      split at hActivity
      · cases hActivity
      · exact .inl hActivity
  · rename_i target hPoint
    cases hStep
    have hMoved : Stepped s (s.moveTo caller .entering)
        (.go caller) := stepped_moveTo hFind (by simp)
    exact ⟨hMoved.joined, hMoved.activity, hMoved.created⟩
  · cases hStep
    exact stepped_entry

theorem stepped_call
    {event : Event}
    (hNone : s.dispatchOf caller = none) :
    Stepped s (s.call caller event) (.call caller event) := by
  refine ⟨?_, fun _ _ hOld => .inl hOld, Nat.le_refl _⟩
  intro other activity hJoined
  by_cases hOther : other = caller
  · subst hOther
    exact absurd hJoined
      (joined_ne_of_point (dispatchOf_call hNone) rfl (by simp)
        activity)
  · have hSame : (s.call caller event).dispatchOf other =
        s.dispatchOf other := by
      have hNe : caller ≠ other := Ne.symm hOther
      simp [dispatchOf, call, List.find?_append, hNe]
    rw [joined_congr hSame rfl] at hJoined
    exact .inl hJoined

theorem stepped_of_step (hStep : s.step label = some s') :
    Stepped s s' label := by
  unfold step at hStep
  split at hStep
  · cases hStep
  · cases label with
    | call caller event =>
        simp only at hStep
        split at hStep
        · rename_i hNone
          cases hStep
          exact stepped_call hNone
        · cases hStep
    | go caller =>
        simp only at hStep
        split at hStep
        · rename_i dispatch hFind
          exact stepped_advance hFind hStep
        · cases hStep
    | endThread activity =>
        simp only [Option.ite_none_right_eq_some,
          Option.some.injEq] at hStep
        rcases hStep with ⟨-, rfl⟩
        refine ⟨?_, fun _ _ hOld => .inl hOld, Nat.le_refl _⟩
        intro caller activity' hJoined
        rcases joined_eq_some_iff.mp hJoined with
          ⟨dispatch, hFind, hPoint, hRuns⟩
        refine .inl (joined_eq_some_iff.mpr
          ⟨dispatch, hFind, hPoint, fun hEnded => ?_⟩)
        exact hRuns (List.mem_append_left _ hEnded)

/- All activities that are pointed to or joined were made. -/
structure Numbered (s : MasterRun) : Prop where
  activities : ∀ state activity,
    s.activity state = some activity → activity < s.created
  joins : ∀ caller activity,
    s.joined caller = some activity → activity < s.created

theorem numbered_start : start.Numbered := by
  constructor
  · intro state activity hActivity
    cases hActivity
  · intro caller activity hJoined
    cases hJoined

theorem Numbered.exits
    (hNumbered : s.Numbered)
    (hExits : s.exits caller = some activity) :
    activity < s.created := by
  unfold MasterRun.exits at hExits
  split at hExits
  · split at hExits
    · exact hNumbered.activities _ _ hExits
    · cases hExits
  · cases hExits

theorem Numbered.step
    (hNumbered : s.Numbered)
    (hStepped : Stepped s s' label) :
    s'.Numbered := by
  constructor
  · intro state activity hActivity
    rcases hStepped.activity state activity hActivity with
      hOld | hNew
    · exact Nat.lt_of_lt_of_le
        (hNumbered.activities state activity hOld)
        hStepped.created
    · exact hNew
  · intro caller activity hJoined
    refine Nat.lt_of_lt_of_le ?_ hStepped.created
    rcases hStepped.joined caller activity hJoined with
      hOld | ⟨-, hExits⟩
    · exact hNumbered.joins caller activity hOld
    · exact hNumbered.exits hExits

end MasterRun

end ModemTester

------------------------------------------------------------
-- Runs Without A Cycle
------------------------------------------------------------

namespace ModemTester

/- The lock is held in these stages. -/
def ActivityStage.Holds : ActivityStage → Prop
  | .adding => True
  | .added => True
  | _ => False

def PoolIo.Holds : PoolIo → Prop
  | .adding _ => True
  | .added => True
  | _ => False

variable {stage : ActivityStage}

def ActivityStage.rank : ActivityStage → Nat
  | .wantsLock => 3
  | .inResults => 6
  | _ => 0

def PoolIo.rank : PoolIo → Nat
  | .adding _ => 0
  | .added => 0
  | _ => 5

theorem stage_rank_le (stage : ActivityStage) :
    stage.rank ≤ 6 := by
  cases stage <;> decide

theorem stage_rank_of_done (hDone : stage.Done) :
    stage.rank = 0 := by
  cases stage with
  | wantsLock | inResults => cases hDone
  | _ => rfl

theorem stage_rank_of_provided (hProvided : stage.Provided) :
    stage.rank ≤ 3 := by
  cases stage with
  | inResults => cases hProvided
  | _ => decide

theorem stage_rank_of_holds (hHolds : stage.Holds) :
    stage.rank = 0 := by
  cases stage with
  | adding | added => rfl
  | _ => cases hHolds

theorem io_rank_le (io : PoolIo) : io.rank ≤ 5 := by
  cases io <;> simp [PoolIo.rank]

theorem io_rank_of_holds {io : PoolIo} (hHolds : io.Holds) :
    io.rank = 0 := by
  cases io with
  | adding | added => rfl
  | _ => cases hHolds

namespace PoolRun

open StepSystem WaitGraph

variable {s s' : PoolRun}
variable {fsm : MasterRun}
variable {activity : Nat}
variable {stage : ActivityStage}
variable {label : PoolLabel}

def Holds (s : PoolRun) : Party → Prop
  | .collector => ∃ todo, s.collector = .collecting todo
  | .runnable _ => False
  | .activity activity =>
      (s.stage activity).Holds ∧ activity < s.fsm.created
  | .io => s.io.Holds

/-
  The lock is held by whom it says. The runnable that the
  collector joins waits at most for an activity that waits
  for nobody, and the io thread at most for one that has its
  results.
-/
structure Untangled (s : PoolRun) : Prop where
  numbered : s.fsm.Numbered
  holds : ∀ party, s.lock = some party → s.Holds party
  headJoins : ∀ id, s.head = some id → ∀ activity,
    s.fsm.joined (.runnable id) = some activity →
      (s.stage activity).Done
  ioJoins : ∀ activity, s.fsm.joined .io = some activity →
    (s.stage activity).Provided
  silent : s.io ≠ .reporting

theorem untangled_start (period : Nat) :
    (start period).Untangled := by
  refine ⟨MasterRun.numbered_start, ?_, ?_, ?_, ?_⟩
  · intro party hLock
    cases hLock
  · intro id hHead
    cases hHead
  · intro activity hJoined
    cases hJoined
  · intro hReporting
    cases hReporting

/-
  Everybody waits for a party of lower rank: the runnable
  that the collector joins for an activity that is done, the
  collector for it, an activity for the lock, the io thread
  for an activity, an activity for results, and any other
  runnable for an activity.
-/
def rank (s : PoolRun) : Party → Nat
  | .collector => 2
  | .runnable id => if s.head = some id then 1 else 7
  | .activity activity => (s.stage activity).rank
  | .io => s.io.rank

/- Who holds the lock waits for a runnable, or for nobody. -/
theorem rank_of_holds
    {party : Party}
    (hHolds : s.Holds party) :
    party = .collector ∨ s.rank party = 0 := by
  cases party with
  | collector => exact .inl rfl
  | runnable id => exact hHolds.elim
  | activity activity => exact .inr (stage_rank_of_holds hHolds.1)
  | io => exact .inr (io_rank_of_holds hHolds)

theorem rank_of_lock
    {party : Party}
    (hInv : s.Untangled)
    (hLock : s.lock = some party) :
    s.rank party ≤ 2 := by
  rcases rank_of_holds (hInv.holds party hLock) with
    hCollector | hZero
  · rw [hCollector]
    exact Nat.le_refl 2
  · omega

theorem rank_falls
    {p q : Party}
    (hInv : s.Untangled)
    (hAwaits : s.awaits p = some q) :
    s.rank q < s.rank p := by
  cases p with
  | collector =>
      have hRank : s.rank .collector = 2 := rfl
      simp only [awaits] at hAwaits
      split at hAwaits
      · rename_i hCollector
        rcases rank_of_holds (hInv.holds q hAwaits) with
          hSelf | hZero
        · -- Who waits for the lock does not hold it.
          subst hSelf
          rcases hInv.holds .collector hAwaits with
            ⟨todo, hCollecting⟩
          rw [hCollector] at hCollecting
          cases hCollecting
        · omega
      · rename_i id todo hCollector
        split at hAwaits
        · cases hAwaits
        · cases hAwaits
          have hHead : s.head = some id := by
            simp [head, hCollector]
          simp [rank, hHead]
      · cases hAwaits
  | runnable id =>
      simp only [awaits, Option.map_eq_some_iff] at hAwaits
      rcases hAwaits with ⟨activity, hJoined, rfl⟩
      by_cases hHead : s.head = some id
      · have hZero := stage_rank_of_done
          (hInv.headJoins id hHead activity hJoined)
        simp [rank, hHead, hZero]
      · have hSix := stage_rank_le (s.stage activity)
        simp only [rank, hHead, if_false]
        omega
  | activity activity =>
      simp only [awaits] at hAwaits
      split at hAwaits
      · rename_i hStage
        cases hAwaits
        have hFive := io_rank_le s.io
        simp only [rank, hStage, ActivityStage.rank]
        omega
      · rename_i hStage
        have hTwo := rank_of_lock hInv hAwaits
        have hRank : s.rank (.activity activity) = 3 := by
          simp [rank, hStage, ActivityStage.rank]
        omega
      · cases hAwaits
  | io =>
      simp only [awaits] at hAwaits
      split at hAwaits
      · rename_i hIo
        rcases Option.map_eq_some_iff.mp hAwaits with
          ⟨activity, hJoined, rfl⟩
        have hThree := stage_rank_of_provided
          (hInv.ioJoins activity hJoined)
        simp only [rank, hIo, PoolIo.rank]
        omega
      · rename_i event hIo
        have hTwo := rank_of_lock hInv hAwaits
        have hRank : s.rank .io = 5 := by
          simp [rank, hIo, PoolIo.rank]
        omega
      · cases hAwaits
      · cases hAwaits
      · rename_i hIo
        exact absurd hIo hInv.silent

theorem Untangled.not_cyclic (hInv : s.Untangled) :
    ¬ Cyclic s.awaits :=
  not_cyclic_of_rank s.rank fun _ _ => rank_falls hInv

end PoolRun

end ModemTester

------------------------------------------------------------
-- Steps Of A Run Without A Cycle
------------------------------------------------------------

namespace ModemTester

namespace PoolRun

open StepSystem WaitGraph

variable {s s' : PoolRun}
variable {fsm : MasterRun}
variable {activity : Nat}
variable {stage : ActivityStage}
variable {label : PoolLabel}

/- What concerns neither joins nor the lock. -/
theorem Untangled.of_same
    (hInv : s.Untangled)
    (hFsm : s'.fsm = s.fsm)
    (hStage : s'.stage = s.stage)
    (hCollector : s'.collector = s.collector)
    (hIo : s'.io = s.io)
    (hLock : s'.lock = s.lock) :
    s'.Untangled := by
  cases s
  cases s'
  subst hFsm hStage hCollector hIo hLock
  exact ⟨hInv.numbered, hInv.holds, hInv.headJoins,
    hInv.ioJoins, hInv.silent⟩

/- The lock changes hands. -/
theorem Untangled.setLock
    {lock : Option Party}
    (hInv : s.Untangled)
    (hHolds : ∀ party, lock = some party → s.Holds party) :
    ({ s with lock := lock }).Untangled :=
  ⟨hInv.numbered, hHolds, hInv.headJoins, hInv.ioJoins,
    hInv.silent⟩

/- An activity goes on. -/
theorem Untangled.setStage
    (hInv : s.Untangled)
    (hDone : (s.stage activity).Done → stage.Done)
    (hProvided : (s.stage activity).Provided → stage.Provided)
    (hHolds : s.lock = some (.activity activity) →
      stage.Holds) :
    (s.setStage activity stage).Untangled := by
  refine ⟨hInv.numbered, ?_, ?_, ?_, hInv.silent⟩
  · intro party hLock
    have hParty := hInv.holds party hLock
    cases party with
    | activity other =>
        refine ⟨?_, hParty.2⟩
        by_cases hOther : other = activity
        · subst hOther
          simpa [PoolRun.setStage] using hHolds hLock
        · simpa [PoolRun.setStage, hOther]
            using hParty.1
    | collector | runnable | io => exact hParty
  · intro id hHead other hJoined
    have hOld := hInv.headJoins id hHead other hJoined
    by_cases hOther : other = activity
    · subst hOther
      simpa [PoolRun.setStage] using hDone hOld
    · simpa [PoolRun.setStage, hOther] using hOld
  · intro other hJoined
    have hOld := hInv.ioJoins other hJoined
    by_cases hOther : other = activity
    · subst hOther
      simpa [PoolRun.setStage] using hProvided hOld
    · simpa [PoolRun.setStage, hOther] using hOld

/- One that did not hold the lock, which it cannot lose. -/
theorem Untangled.setStage_of_not_holds
    (hInv : s.Untangled)
    (hNot : ¬ (s.stage activity).Holds)
    (hDone : (s.stage activity).Done → stage.Done)
    (hProvided :
      (s.stage activity).Provided → stage.Provided) :
    (s.setStage activity stage).Untangled :=
  hInv.setStage hDone hProvided fun hLock =>
    absurd (hInv.holds _ hLock).1 hNot

theorem stage_setFsm_of_lt
    (hLt : activity < s.fsm.created) :
    (s.setFsm fsm).stage activity = s.stage activity := by
  have hNot : ¬ (s.fsm.created ≤ activity ∧
      activity < fsm.created) := by omega
  simp only [setFsm, hNot, if_false]

/- The machine goes on; what it joins anew is as it must. -/
theorem Untangled.setFsm
    {label : MasterLabel}
    (hInv : s.Untangled)
    (hStep : s.fsm.step label = some fsm)
    (hHead : ∀ id, label = .go (.runnable id) →
      s.head = some id →
      ∀ activity, s.fsm.exits (.runnable id) = some activity →
        (s.stage activity).Done)
    (hIo : label = .go .io →
      ∀ activity, s.fsm.exits .io = some activity →
        (s.stage activity).Provided) :
    (s.setFsm fsm).Untangled := by
  have hStepped := MasterRun.stepped_of_step hStep
  refine ⟨hInv.numbered.step hStepped, ?_, ?_, ?_, hInv.silent⟩
  · intro party hLock
    have hParty := hInv.holds party hLock
    cases party with
    | activity activity =>
        refine ⟨?_, Nat.lt_of_lt_of_le hParty.2
          hStepped.created⟩
        rw [stage_setFsm_of_lt hParty.2]
        exact hParty.1
    | collector | runnable | io => exact hParty
  · intro id hId activity hJoined
    rcases hStepped.joined _ activity hJoined with
      hOld | ⟨hLabel, hExits⟩
    · rw [stage_setFsm_of_lt (hInv.numbered.joins _ _ hOld)]
      exact hInv.headJoins id hId activity hOld
    · rw [stage_setFsm_of_lt (hInv.numbered.exits hExits)]
      exact hHead id hLabel hId activity hExits
  · intro activity hJoined
    rcases hStepped.joined _ activity hJoined with
      hOld | ⟨hLabel, hExits⟩
    · rw [stage_setFsm_of_lt (hInv.numbered.joins _ _ hOld)]
      exact hInv.ioJoins activity hOld
    · rw [stage_setFsm_of_lt (hInv.numbered.exits hExits)]
      exact hIo hLabel activity hExits

/- A step of the machine that begins no join. -/
theorem Untangled.setFsm_of_not_go
    {label : MasterLabel}
    (hInv : s.Untangled)
    (hStep : s.fsm.step label = some fsm)
    (hNot : ∀ caller, label ≠ .go caller) :
    (s.setFsm fsm).Untangled :=
  hInv.setFsm hStep
    (fun _ hLabel => absurd hLabel (hNot _))
    (fun hLabel => absurd hLabel (hNot _))

theorem Untangled.add
    (hInv : s.Untangled)
    (event : Event) :
    (s.add event).Untangled :=
  hInv.of_same rfl rfl rfl rfl rfl

theorem Untangled.work
    (hInv : s.Untangled)
    (hWork : s.work activity = some s') :
    s'.Untangled := by
  unfold PoolRun.work at hWork
  split at hWork
  · rename_i hRuns
    cases hStage : s.stage activity with
    | pinging =>
        simp only [hStage, Option.ite_none_right_eq_some,
          Option.map_eq_some_iff] at hWork
        rcases hWork with ⟨-, fsm, hStep, rfl⟩
        exact hInv.setFsm_of_not_go hStep (by simp)
    | working =>
        simp only [hStage, Option.some.injEq] at hWork
        subst hWork
        exact hInv.setStage_of_not_holds
          (by simp [hStage, ActivityStage.Holds])
          (by simp [hStage, ActivityStage.Done])
          (by simp [hStage, ActivityStage.Provided])
    | inResults => simp [hStage] at hWork
    | hasResults =>
        simp only [hStage, Option.some.injEq] at hWork
        subst hWork
        exact hInv.setStage_of_not_holds
          (by simp [hStage, ActivityStage.Holds])
          (by simp [hStage, ActivityStage.Done])
          (fun _ => trivial)
    | wantsLock =>
        simp only [hStage, Option.ite_none_right_eq_some,
          Option.some.injEq] at hWork
        rcases hWork with ⟨-, rfl⟩
        have hAdding : (s.setStage activity .adding).Untangled :=
          hInv.setStage_of_not_holds
            (by simp [hStage, ActivityStage.Holds])
            (by simp [hStage, ActivityStage.Done])
            (fun _ => trivial)
        refine hAdding.setLock fun party hParty => ?_
        cases hParty
        exact ⟨by simp [PoolRun.setStage, ActivityStage.Holds],
          hRuns.1⟩
    | adding =>
        simp only [hStage, Option.some.injEq] at hWork
        subst hWork
        exact (hInv.add .endModeCommand).setStage
          (fun _ => trivial) (fun _ => trivial)
          (fun _ => trivial)
    | added =>
        simp only [hStage, Option.some.injEq] at hWork
        subst hWork
        have hFree : ({ s with lock := none }).Untangled :=
          hInv.setLock (by simp)
        exact hFree.setStage (fun _ => trivial)
          (fun _ => trivial) (by simp)
    | handedOver =>
        simp only [hStage, Option.map_eq_some_iff] at hWork
        rcases hWork with ⟨fsm, hStep, rfl⟩
        exact hInv.setFsm_of_not_go hStep (by simp)
  · cases hWork

/- The io thread goes on in a handler that adds an event. -/
theorem Untangled.setIo
    {io : PoolIo}
    (hInv : s.Untangled)
    (hHolds : s.lock = some .io → io.Holds)
    (hSilent : io ≠ .reporting) :
    ({ s with io := io }).Untangled := by
  refine ⟨hInv.numbered, ?_, hInv.headJoins, hInv.ioJoins,
    hSilent⟩
  intro party hLock
  have hParty := hInv.holds party hLock
  cases party with
  | io => exact hHolds hLock
  | collector | runnable | activity => exact hParty

theorem Untangled.addFromTimer
    (hInv : s.Untangled)
    (hAdd : s.addFromTimer = some s') :
    s'.Untangled := by
  unfold PoolRun.addFromTimer at hAdd
  split at hAdd
  · rename_i event hIo
    split at hAdd
    · cases hAdd
      have hAdding : ({ s with io := .adding event }).Untangled :=
        hInv.setIo (fun _ => trivial) (by simp)
      refine hAdding.setLock fun party hParty => ?_
      cases hParty
      trivial
    · cases hAdd
  · cases hAdd
    exact (hInv.add _).setIo (fun _ => trivial) (by simp)
  · cases hAdd
    have hFree : ({ s with lock := none }).Untangled :=
      hInv.setLock (by simp)
    exact hFree.setIo (by simp) (by simp)
  · cases hAdd

/- The collector goes on. -/
theorem Untangled.setCollector
    {collector : CollectorPhase}
    (hInv : s.Untangled)
    (hHolds : s.lock = some .collector →
      ∃ todo, collector = .collecting todo)
    (hHead : ∀ id,
      ({ s with collector := collector }).head = some id →
      ∀ activity, s.fsm.joined (.runnable id) = some activity →
        (s.stage activity).Done) :
    ({ s with collector := collector }).Untangled := by
  refine ⟨hInv.numbered, ?_, hHead, hInv.ioJoins, hInv.silent⟩
  intro party hLock
  have hParty := hInv.holds party hLock
  cases party with
  | collector => exact hHolds hLock
  | runnable | activity | io => exact hParty

theorem Untangled.collect
    (hInv : s.Untangled)
    (hApart : s.Apart .collect)
    (hCollect : s.collect = some s') :
    s'.Untangled := by
  unfold PoolRun.collect at hCollect
  simp only [Apart, nextHead] at hApart
  split at hCollect
  · rename_i hCollector
    cases hCollect
    refine hInv.setCollector ?_ (by simp [PoolRun.head])
    intro hLock
    rcases hInv.holds _ hLock with ⟨todo, hCollecting⟩
    rw [hCollector] at hCollecting
    cases hCollecting
  · rename_i hCollector
    rw [hCollector] at hApart
    split at hCollect
    · cases hCollect
      have hCollecting : ({ s with
          collector := .collecting s.stored }).Untangled :=
        hInv.setCollector (fun _ => ⟨_, rfl⟩) hApart
      refine hCollecting.setLock fun party hParty => ?_
      cases hParty
      exact ⟨_, rfl⟩
    · cases hCollect
  · rename_i id todo hCollector
    rw [hCollector] at hApart
    split at hCollect
    · cases hCollect
      exact hInv.setCollector (fun _ => ⟨_, rfl⟩) hApart
    · cases hCollect
  · cases hCollect
    refine ⟨hInv.numbered, ?_, ?_, hInv.ioJoins, hInv.silent⟩
    · intro party hLock
      cases hLock
    · intro id hHead
      cases hHead

theorem Untangled.step
    (hInv : s.Untangled)
    (hApart : s.Apart label)
    (hStep : PoolRun.step s label = some s') :
    s'.Untangled := by
  unfold PoolRun.step at hStep
  split at hStep
  · cases hStep
  · cases label with
    | handle event =>
        simp only [runStep, Option.ite_none_right_eq_some,
          Option.map_eq_some_iff] at hStep
        rcases hStep with ⟨-, fsm, hFsm, rfl⟩
        exact hInv.setFsm_of_not_go hFsm (by simp)
    | timer event =>
        simp only [runStep, Option.ite_none_right_eq_some,
          Option.some.injEq] at hStep
        rcases hStep with ⟨hIdle, rfl⟩
        refine hInv.setIo ?_ (by simp)
        intro hLock
        have hHolds : s.io.Holds := hInv.holds _ hLock
        rw [hIdle.1] at hHolds
        cases hHolds
    | results activity =>
        simp only [runStep, Option.ite_none_right_eq_some,
          Option.some.injEq] at hStep
        rcases hStep with ⟨⟨-, hStage⟩, rfl⟩
        exact hInv.setStage_of_not_holds
          (by simp [hStage, ActivityStage.Holds])
          (by simp [hStage, ActivityStage.Done])
          (fun _ => trivial)
    | report activity => exact hApart.elim
    | addFromTimer => exact hInv.addFromTimer hStep
    | collect => exact hInv.collect hApart hStep
    | work activity => exact hInv.work hStep
    | call id =>
        simp only [runStep] at hStep
        split at hStep
        · split at hStep
          · cases hStep
          · rcases Option.map_eq_some_iff.mp hStep with
              ⟨fsm, hFsm, rfl⟩
            exact (hInv.setFsm_of_not_go hFsm (by simp)).of_same
              rfl rfl rfl rfl rfl
        · cases hStep
    | finish id =>
        simp only [runStep, Option.ite_none_right_eq_some,
          Option.some.injEq] at hStep
        rcases hStep with ⟨-, rfl⟩
        exact hInv.of_same rfl rfl rfl rfl rfl
    | go caller =>
        simp only [runStep, Option.map_eq_some_iff] at hStep
        rcases hStep with ⟨fsm, hFsm, rfl⟩
        refine hInv.setFsm hFsm ?_ ?_
        · intro id hLabel hHead activity hExits
          cases hLabel
          exact hApart hHead activity hExits
        · intro hLabel activity hExits
          cases hLabel
          exact hApart activity hExits

------------------------------------------------------------
-- No Cyclic Wait
------------------------------------------------------------

/-
  No parties wait for each other in a cycle, in runs in
  which the collector is kept apart from transitions that
  wait for an activity, and the io thread from the results.
-/
theorem no_cyclic_wait
    {period : Nat}
    {labels : List PoolLabel}
    (hApart : Along PoolRun.step Apart
      (start period) labels) :
    Throughout PoolRun.step
      (fun s => ¬ Cyclic s.awaits) (start period) labels :=
  throughout_of_along
    (fun _ _ _ hInv hApart hStep => hInv.step hApart hStep)
    (fun _ hInv => hInv.not_cyclic) (untangled_start period)
    hApart

/- A report of a throughput test waits for itself at once. -/
theorem cyclic_of_report
    (hStep : PoolRun.step s (.report activity) = some s') :
    Cyclic s'.awaits := by
  unfold PoolRun.step at hStep
  split at hStep
  · cases hStep
  · simp only [runStep, Option.ite_none_right_eq_some,
      Option.some.injEq] at hStep
    rcases hStep with ⟨-, rfl⟩
    have hSelf :
        ({ s with io := .reporting }).awaits .io = some .io :=
      rfl
    exact cyclic_of_self hSelf

/-
  A throughput test, during which the collector runs twice.
  It joins the runnable that ends the mode while that one
  dispatches, after the activity has released the lock.
-/
theorem no_cyclic_wait_in_throughputMode :
    Throughout PoolRun.step (fun s => ¬ Cyclic s.awaits)
      (start 0)
      [.timer .throughputModeCommand, .addFromTimer,
        .addFromTimer, .addFromTimer, .call 0,
        .go (.runnable 0), .go (.runnable 0),
        .go (.runnable 0), .go (.runnable 0), .finish 0,
        .handle .remoteAck, .go .io, .go .io, .go .io, .go .io,
        .collect, .collect, .collect, .collect, .work 0,
        .results 0, .work 0, .work 0, .work 0, .work 0,
        .call 1, .go (.runnable 1), .collect, .collect,
        .go (.runnable 1), .work 0, .go (.runnable 1),
        .go (.runnable 1), .go (.runnable 1),
        .go (.runnable 1), .go (.runnable 1), .finish 1,
        .collect, .collect] :=
  no_cyclic_wait (by decide)

/-
  The script ends the mode during the test. The collector
  joins its runnable, that one joins the activity, and the
  activity waits for the lock.
-/
theorem cyclic_wait_in_throughputMode :
    ¬ Throughout PoolRun.step (fun s => ¬ Cyclic s.awaits)
      (start 0)
      [.timer .throughputModeCommand, .addFromTimer,
        .addFromTimer, .addFromTimer, .call 0,
        .go (.runnable 0), .go (.runnable 0),
        .go (.runnable 0), .go (.runnable 0), .finish 0,
        .handle .remoteAck, .go .io, .go .io, .go .io, .go .io,
        .timer .endModeCommand, .addFromTimer, .addFromTimer,
        .addFromTimer, .call 1, .go (.runnable 1),
        .go (.runnable 1), .collect, .collect, .collect,
        .work 0, .results 0, .work 0] := by
  intro hAll
  refine throughout_last rfl hAll ?_
  exact cyclic_of_triangle (p := .collector)
    (q := .runnable 1) (r := .activity 0) rfl rfl rfl

end PoolRun

end ModemTester
