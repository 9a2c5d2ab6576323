import ModemTester.Library.Ledger
import ModemTester.Master.MasterFsm

/-
  Transitions of the master's machine under several threads
  (`tinyfsm.hpp`, `ActivityState` of `BaseFSM.h`).

  `dispatch` takes no lock. A dispatch reacts in the current
  state, and a transition is then made in steps: `exit` of
  the state that is current by then, which in an activity
  stops the runnable, waits for its thread, deletes it and
  clears the pointer; the new state; and `entry` of the
  state that is current by then, which in an activity
  creates a runnable if there is none. The io thread and the
  threads of the pool may be anywhere in this at once.

  A call of `dispatch` is counted from the moment at which
  the thread that makes it has been started. Where calls do
  not overlap, or those that do have no effect, transitions
  run to completion.

  Key definitions include:
    * `Dispatch`
    * `MasterRun`
    * `MasterRun.step`
    * `MasterRun.Serial`
    * `MasterRun.Tidy`
    * `MasterRun.Alone`

  Main declarations:
    * `MasterRun.transitions_run_to_completion`
    * `MasterRun.may_fail_of_not_alone`
    * `MasterRun.stopped_twice`
-/

------------------------------------------------------------
-- Dispatches
------------------------------------------------------------

namespace ModemTester

/- The io thread, or a `DispatchingRunnable` of the pool. -/
inductive Caller where
  | io
  | runnable (id : Nat)
  deriving DecidableEq, Repr

/-
  Where a dispatch is. In the order of the source: the
  reaction, `exit` with its three steps for an activity, the
  new state, `entry`.
-/
inductive DispatchPoint where
  | called
  | exiting (target : MasterState)
  | joining
      (state : MasterState)
      (activity : Nat)
      (target : MasterState)
  | deleting (state : MasterState) (target : MasterState)
  | clearing (state : MasterState) (target : MasterState)
  | updating (target : MasterState)
  | entering
  deriving DecidableEq, Repr

structure Dispatch where
  caller : Caller
  event : Event
  point : DispatchPoint
  deriving DecidableEq, Repr

/-
  `activity` is `_runnable` of each state. `created` counts
  the runnables of activities, named by their order, and
  `ended` holds those whose threads have ended. `exited`
  says that the process has ended, `faulted` that it has
  followed a null pointer.
-/
structure MasterRun where
  current : MasterState
  activity : MasterState → Option Nat
  created : Nat
  ended : List Nat
  dispatches : List Dispatch
  history : List (LedgerOp Nat)
  exited : Bool
  faulted : Bool

namespace MasterRun

/- `MasterFSM::start()`. -/
def start : MasterRun where
  current := .idle
  activity := fun _ => none
  created := 0
  ended := []
  dispatches := []
  history := []
  exited := false
  faulted := false

------------------------------------------------------------
-- Steps
------------------------------------------------------------

def dispatchOf
    (s : MasterRun)
    (caller : Caller) : Option Dispatch :=
  s.dispatches.find? fun dispatch => dispatch.caller = caller

/- A thread calls `dispatch`. -/
def call
    (caller : Caller)
    (event : Event)
    (s : MasterRun) : MasterRun :=
  { s with
    dispatches := s.dispatches ++ [⟨caller, event, .called⟩] }

/- The dispatch of a thread goes on to a point. -/
def moveTo
    (caller : Caller)
    (point : DispatchPoint)
    (s : MasterRun) : MasterRun :=
  { s with
    dispatches := s.dispatches.map fun dispatch =>
      if dispatch.caller = caller then
        { dispatch with point := point }
      else dispatch }

/- It returns. -/
def finish (caller : Caller) (s : MasterRun) : MasterRun :=
  { s with
    dispatches := s.dispatches.filter fun dispatch =>
      dispatch.caller ≠ caller }

def setActivity
    (state : MasterState)
    (activity : Option Nat)
    (s : MasterRun) : MasterRun :=
  { s with
    activity := fun other =>
      if other = state then activity else s.activity other }

def record
    (op : LedgerOp Nat)
    (s : MasterRun) : MasterRun :=
  { s with history := s.history ++ [op] }

/- `current_state_ptr->react(event)`. -/
def react
    (caller : Caller)
    (event : Event)
    (s : MasterRun) : MasterRun :=
  match (masterFsm.dispatch s.current event).2 with
  | .stays => s.finish caller
  | .transits target => s.moveTo caller (.exiting target)
  | .exits => { s with exited := true }

/-
  `current_state_ptr->exit()`, which in an activity begins
  with `_runnable->stop()`.
-/
def exit
    (caller : Caller)
    (target : MasterState)
    (s : MasterRun) : MasterRun :=
  match masterFsm.kind s.current with
  | .activity =>
      match s.activity s.current with
      | some activity =>
          (s.record (.use activity)).moveTo caller
            (.joining s.current activity target)
      | none => { s with faulted := true }
  | _ => s.moveTo caller (.updating target)

/- `delete(_runnable)`, which may be null. -/
def deleteActivity
    (caller : Caller)
    (state target : MasterState)
    (s : MasterRun) : MasterRun :=
  match s.activity state with
  | some activity =>
      (s.record (.release activity)).moveTo caller
        (.clearing state target)
  | none => s.moveTo caller (.clearing state target)

/- `current_state_ptr->entry()`. -/
def entry (caller : Caller) (s : MasterRun) : MasterRun :=
  if masterFsm.kind s.current = .activity ∧
      s.activity s.current = none then
    { ((s.record (.acquire s.created)).setActivity s.current
        (some s.created)).finish caller with
      created := s.created + 1 }
  else
    s.finish caller

/- The next step of a dispatch, unless it has to wait. -/
def advance
    (s : MasterRun)
    (dispatch : Dispatch) : Option MasterRun :=
  match dispatch.point with
  | .called => some (s.react dispatch.caller dispatch.event)
  | .exiting target => some (s.exit dispatch.caller target)
  | .joining state activity target =>
      if activity ∈ s.ended then
        some
          (s.moveTo dispatch.caller (.deleting state target))
      else none
  | .deleting state target =>
      some (s.deleteActivity dispatch.caller state target)
  | .clearing state target =>
      some
        ((s.setActivity state none).moveTo dispatch.caller
          (.updating target))
  | .updating target =>
      some
        { s.moveTo dispatch.caller .entering with
          current := target }
  | .entering => some (s.entry dispatch.caller)

end MasterRun

inductive MasterLabel where
  /- A thread calls `dispatch`. -/
  | call (caller : Caller) (event : Event)
  /- Its dispatch makes a step. -/
  | go (caller : Caller)
  /- The thread of an activity ends. -/
  | endThread (activity : Nat)
  deriving DecidableEq, Repr

namespace MasterRun

def step (s : MasterRun) (label : MasterLabel) :
    Option MasterRun :=
  if s.exited = true ∨ s.faulted = true then none
  else
    match label with
    | .call caller event =>
        match s.dispatchOf caller with
        | none => some (s.call caller event)
        | some _ => none
    | .go caller =>
        match s.dispatchOf caller with
        | some dispatch => s.advance dispatch
        | none => none
    | .endThread activity =>
        if activity < s.created ∧ activity ∉ s.ended then
          some { s with ended := s.ended ++ [activity] }
        else none

------------------------------------------------------------
-- Run To Completion
------------------------------------------------------------

/- No event is reacted to while another is in a transition. -/
def Serial (s : MasterRun) : MasterLabel → Prop
  | .go caller =>
      ∀ dispatch ∈ s.dispatches, dispatch.caller = caller →
        dispatch.point = .called →
        ∀ other ∈ s.dispatches, other.point = .called
  | _ => True

instance (s : MasterRun) : DecidablePred s.Serial
  | .call _ _ => .isTrue trivial
  | .go _ => inferInstanceAs (Decidable (∀ _ ∈ _, _ → _ → _))
  | .endThread _ => .isTrue trivial

/-
  At most one runnable is alive, and every other one has
  been stopped once and deleted once.
-/
def Tidy (s : MasterRun) : Prop :=
  s.faulted = false ∧
    ∃ l, Ledger.account s.history = some l ∧
      l.live.length ≤ 1 ∧
      ∀ activity, .acquire activity ∈ s.history →
        activity ∉ l.live →
        s.history.count (.use activity) = 1 ∧
          s.history.count (.release activity) = 1

/- The event makes no transition in the state. -/
def Inert (state : MasterState) (event : Event) : Prop :=
  (masterFsm.dispatch state event).2.isTransit = false

instance (state : MasterState) (event : Event) :
    Decidable (Inert state event) := by
  unfold Inert
  infer_instance

/- All calls that are being made are without effect. -/
def AllInert (s : MasterRun) : Prop :=
  ∀ dispatch ∈ s.dispatches,
    dispatch.point = .called ∧ Inert s.current dispatch.event

instance (s : MasterRun) : Decidable s.AllInert := by
  unfold AllInert
  infer_instance

/-
  A call is made while no other is, or while all that are,
  and the call itself, are without effect.
-/
def Alone (s : MasterRun) : MasterLabel → Prop
  | .call _ event =>
      s.dispatches = [] ∨
        s.AllInert ∧ Inert s.current event
  | _ => True

instance (s : MasterRun) : DecidablePred s.Alone
  | .call _ _ => inferInstanceAs (Decidable (_ ∨ _ ∧ _))
  | .go _ => .isTrue trivial
  | .endThread _ => .isTrue trivial

end MasterRun

end ModemTester

------------------------------------------------------------
-- Books Of Runnables
------------------------------------------------------------

namespace ModemTester

namespace MasterRun

variable {s s' : MasterRun}
variable {activity : Nat}

/-
  The history leaves at most the owner alive, which has been
  stopped `stops` times; those deleted were stopped once.
-/
structure Books
    (s : MasterRun)
    (owner : Option Nat)
    (stops : Nat) : Prop where
  account : ∃ released,
    Ledger.account s.history = some ⟨owner.toList, released⟩
  acquired : ∀ activity, .acquire activity ∈ s.history →
    activity < s.created
  used : ∀ activity, .use activity ∈ s.history →
    activity < s.created
  released : ∀ activity, .release activity ∈ s.history →
    s.history.count (.use activity) = 1
  stops : ∀ activity ∈ owner,
    s.history.count (.use activity) = stops

theorem books_start : Books start none 0 := by
  constructor
  · exact ⟨[], rfl⟩
  · simp [start]
  · simp [start]
  · simp [start]
  · simp

theorem Books.not_released
    {stops : Nat}
    (hBooks : s.Books (some activity) stops) :
    .release activity ∉ s.history := by
  intro hRelease
  rcases hBooks.account with ⟨released, hAccount⟩
  exact (Ledger.agrees_of_account hAccount).not_live_of_release
    hRelease (by simp)

theorem Books.tidy
    {owner : Option Nat}
    {stops : Nat}
    (hBooks : s.Books owner stops)
    (hFault : s.faulted = false) :
    s.Tidy := by
  rcases hBooks.account with ⟨released, hAccount⟩
  refine ⟨hFault, _, hAccount, ?_, ?_⟩
  · cases owner with
    | none => simp
    | some activity => simp
  · intro activity hAcquired hNot
    have hCount :=
      (Ledger.agrees_of_account hAccount).count_release_of_not_live
        hAcquired hNot
    exact ⟨hBooks.released activity
      (List.count_pos_iff.mp (by omega)), hCount⟩

/- The owner is stopped. -/
theorem Books.stop
    (hBooks : s.Books (some activity) 0) :
    Books (s.record (.use activity)) (some activity) 1 := by
  rcases hBooks.account with ⟨released, hAccount⟩
  have hAcquired : activity < s.created := by
    apply hBooks.acquired
    rw [(Ledger.agrees_of_account hAccount).acquired]
    exact .inl (by simp)
  refine ⟨⟨released, ?_⟩, ?_, ?_, ?_, ?_⟩
  · rw [record, Ledger.account_append hAccount]
    simp [StepSystem.run, Ledger.apply]
  · intro other hMem
    apply hBooks.acquired
    simpa [record] using hMem
  · intro other hMem
    rcases List.mem_append.mp hMem with hOld | hNew
    · exact hBooks.used other hOld
    · rw [List.mem_singleton, LedgerOp.use.injEq] at hNew
      exact hNew ▸ hAcquired
  · intro other hMem
    have hRelease : .release other ∈ s.history := by
      simpa [record] using hMem
    have hNe : activity ≠ other := by
      rintro rfl
      exact hBooks.not_released hRelease
    simp [record, List.count_append, hNe,
      hBooks.released other hRelease]
  · intro other hOther
    cases hOther
    simp [record, List.count_append, hBooks.stops]

/- The owner, which was stopped, is deleted. -/
theorem Books.delete
    (hBooks : s.Books (some activity) 1) :
    Books (s.record (.release activity)) none 0 := by
  rcases hBooks.account with ⟨released, hAccount⟩
  refine ⟨⟨released ++ [activity], ?_⟩, ?_, ?_, ?_, by simp⟩
  · rw [record, Ledger.account_append hAccount]
    simp [StepSystem.run, Ledger.apply]
  · intro other hMem
    apply hBooks.acquired
    simpa [record] using hMem
  · intro other hMem
    apply hBooks.used
    simpa [record] using hMem
  · intro other hMem
    have hCount : (s.record (.release activity)).history.count
        (.use other) = s.history.count (.use other) := by
      simp [record, List.count_append]
    rw [hCount]
    rcases List.mem_append.mp hMem with hOld | hNew
    · exact hBooks.released other hOld
    · rw [List.mem_singleton, LedgerOp.release.injEq] at hNew
      exact hBooks.stops other (by simp [hNew])

/- A new owner is created. -/
theorem Books.create
    (hBooks : s.Books none 0) :
    Books
      { s.record (.acquire s.created) with
        created := s.created + 1 }
      (some s.created) 0 := by
  rcases hBooks.account with ⟨released, hAccount⟩
  have hAgrees := Ledger.agrees_of_account hAccount
  have hFresh : s.created ∉ released := by
    intro hMem
    have hAcquired := (hAgrees.acquired s.created).mpr
      (.inr hMem)
    have hLt := hBooks.acquired _ hAcquired
    omega
  refine ⟨⟨released, ?_⟩, ?_, ?_, ?_, ?_⟩
  · simp only [record, Ledger.account_append hAccount]
    simp [StepSystem.run, Ledger.apply, hFresh]
  · intro other hMem
    rcases List.mem_append.mp hMem with hOld | hNew
    · exact Nat.lt_succ_of_lt (hBooks.acquired other hOld)
    · rw [List.mem_singleton, LedgerOp.acquire.injEq] at hNew
      exact hNew ▸ Nat.lt_succ_self _
  · intro other hMem
    have hOld : .use other ∈ s.history := by
      simpa [record] using hMem
    exact Nat.lt_succ_of_lt (hBooks.used other hOld)
  · intro other hMem
    have hOld : .release other ∈ s.history := by
      simpa [record] using hMem
    have hOne := hBooks.released other hOld
    simpa [record, List.count_append] using hOne
  · intro other hOther
    cases hOther
    have hNone : .use s.created ∉ s.history := by
      intro hMem
      have hLt := hBooks.used _ hMem
      omega
    simp [record, List.count_append,
      List.count_eq_zero.mpr hNone]

------------------------------------------------------------
-- One Transition At A Time
------------------------------------------------------------

/- Only the current state may have a runnable. -/
def OnlyCurrent
    (s : MasterRun)
    (owner : Option Nat) : Prop :=
  s.activity s.current = owner ∧
    ∀ state, state ≠ s.current → s.activity state = none

/- Between transitions an activity has its runnable. -/
structure Steady (s : MasterRun) : Prop where
  owner : ∃ owner, s.OnlyCurrent owner ∧ s.Books owner 0 ∧
    (masterFsm.kind s.current = .activity ↔ owner ≠ none)

/- What holds at each point of the one dispatch. -/
def AtPoint (s : MasterRun) : DispatchPoint → Prop
  | .called => s.Steady
  | .exiting _ => s.Steady
  | .joining state activity _ =>
      state = s.current ∧ s.OnlyCurrent (some activity) ∧
        s.Books (some activity) 1
  | .deleting state _ =>
      state = s.current ∧ ∃ activity,
        s.OnlyCurrent (some activity) ∧
          s.Books (some activity) 1
  | .clearing state _ =>
      state = s.current ∧ s.Books none 0 ∧
        ∀ other, other ≠ s.current → s.activity other = none
  | .updating _ =>
      s.Books none 0 ∧ ∀ state, s.activity state = none
  | .entering =>
      s.Books none 0 ∧ ∀ state, s.activity state = none

/-
  There is one dispatch, or all that are being made are
  without effect.
-/
structure Orderly (s : MasterRun) : Prop where
  faulted : s.faulted = false
  dispatches : (s.AllInert ∧ s.Steady) ∨
    ∃ dispatch, s.dispatches = [dispatch] ∧
      s.AtPoint dispatch.point

theorem orderly_start : Orderly start := by
  refine ⟨rfl, .inl ⟨by simp [AllInert, start], none, ?_,
    books_start, by decide⟩⟩
  exact ⟨rfl, fun _ _ => rfl⟩

theorem Orderly.tidy
    (hOrderly : s.Orderly) :
    s.Tidy := by
  have hBooks : ∃ owner stops, s.Books owner stops := by
    rcases hOrderly.dispatches with
      ⟨-, owner, -, hBooks, -⟩ | ⟨dispatch, -, hAt⟩
    · exact ⟨owner, 0, hBooks⟩
    · cases hPoint : dispatch.point with
      | called =>
          rw [hPoint] at hAt
          rcases hAt with ⟨owner, -, hBooks, -⟩
          exact ⟨owner, 0, hBooks⟩
      | exiting target =>
          rw [hPoint] at hAt
          rcases hAt with ⟨owner, -, hBooks, -⟩
          exact ⟨owner, 0, hBooks⟩
      | joining state activity target =>
          rw [hPoint] at hAt
          exact ⟨_, _, hAt.2.2⟩
      | deleting state target =>
          rw [hPoint] at hAt
          rcases hAt with ⟨-, activity, -, hBooks⟩
          exact ⟨_, _, hBooks⟩
      | clearing state target =>
          rw [hPoint] at hAt
          exact ⟨_, _, hAt.2.1⟩
      | updating target =>
          rw [hPoint] at hAt
          exact ⟨_, _, hAt.1⟩
      | entering =>
          rw [hPoint] at hAt
          exact ⟨_, _, hAt.1⟩
  rcases hBooks with ⟨owner, stops, hBooks⟩
  exact hBooks.tidy hOrderly.faulted

theorem Orderly.serial
    (hOrderly : s.Orderly)
    (label : MasterLabel) :
    s.Serial label := by
  cases label with
  | call caller event => trivial
  | endThread activity => trivial
  | go caller =>
      intro dispatch hMem _ hCalled other hOther
      rcases hOrderly.dispatches with
        ⟨hInert, -⟩ | ⟨only, hOnly, -⟩
      · exact (hInert other hOther).1
      · rw [hOnly, List.mem_singleton] at hMem hOther
        rw [hOther, ← hMem]
        exact hCalled

end MasterRun

end ModemTester

------------------------------------------------------------
-- Steps Of An Orderly Run
------------------------------------------------------------

namespace ModemTester

namespace MasterRun

variable {s s' : MasterRun}
variable {caller : Caller}
variable {dispatch : Dispatch}
variable {point : DispatchPoint}

/- The dispatches are all that may differ. -/
structure SameFsm (s s' : MasterRun) : Prop where
  current : s'.current = s.current
  activity : s'.activity = s.activity
  created : s'.created = s.created
  history : s'.history = s.history

theorem Books.of_same
    {owner : Option Nat}
    {stops : Nat}
    (hBooks : s.Books owner stops)
    (hCreated : s'.created = s.created)
    (hHistory : s'.history = s.history) :
    s'.Books owner stops := by
  constructor
  · rw [hHistory]
    exact hBooks.account
  · rw [hHistory, hCreated]
    exact hBooks.acquired
  · rw [hHistory, hCreated]
    exact hBooks.used
  · rw [hHistory]
    exact hBooks.released
  · rw [hHistory]
    exact hBooks.stops

theorem OnlyCurrent.of_same
    {owner : Option Nat}
    (hOnly : s.OnlyCurrent owner)
    (hSame : SameFsm s s') :
    s'.OnlyCurrent owner := by
  rw [OnlyCurrent, hSame.current, hSame.activity]
  exact hOnly

theorem Steady.of_same
    (hSteady : s.Steady)
    (hSame : SameFsm s s') :
    s'.Steady := by
  rcases hSteady with ⟨owner, hOnly, hBooks, hKind⟩
  refine ⟨owner, hOnly.of_same hSame,
    hBooks.of_same hSame.created hSame.history, ?_⟩
  rw [hSame.current]
  exact hKind

theorem AtPoint.of_same
    (hAt : s.AtPoint point)
    (hSame : SameFsm s s') :
    s'.AtPoint point := by
  cases point with
  | called => exact Steady.of_same hAt hSame
  | exiting target => exact Steady.of_same hAt hSame
  | joining state activity target =>
      rcases hAt with ⟨hState, hOnly, hBooks⟩
      exact ⟨hState.trans hSame.current.symm,
        hOnly.of_same hSame,
        hBooks.of_same hSame.created hSame.history⟩
  | deleting state target =>
      rcases hAt with ⟨hState, activity, hOnly, hBooks⟩
      exact ⟨hState.trans hSame.current.symm, activity,
        hOnly.of_same hSame,
        hBooks.of_same hSame.created hSame.history⟩
  | clearing state target =>
      rcases hAt with ⟨hState, hBooks, hOthers⟩
      refine ⟨hState.trans hSame.current.symm,
        hBooks.of_same hSame.created hSame.history, ?_⟩
      rw [hSame.current, hSame.activity]
      exact hOthers
  | updating target =>
      refine ⟨hAt.1.of_same hSame.created hSame.history, ?_⟩
      rw [hSame.activity]
      exact hAt.2
  | entering =>
      refine ⟨hAt.1.of_same hSame.created hSame.history, ?_⟩
      rw [hSame.activity]
      exact hAt.2

/- All calls are made between transitions. -/
theorem Orderly.steady_of_allInert
    (hOrderly : s.Orderly)
    (hInert : s.AllInert) :
    s.Steady := by
  rcases hOrderly.dispatches with ⟨-, hSteady⟩ | ⟨only, hOnly, hAt⟩
  · exact hSteady
  · have hMem : only ∈ s.dispatches := by simp [hOnly]
    rw [(hInert only hMem).1] at hAt
    exact hAt

theorem orderly_call
    {event : Event}
    (hOrderly : s.Orderly)
    (hAlone : s.Alone (.call caller event)) :
    (s.call caller event).Orderly := by
  refine ⟨hOrderly.faulted, ?_⟩
  rcases hAlone with hNone | ⟨hInert, hEvent⟩
  · have hSteady := hOrderly.steady_of_allInert
      (by simp [AllInert, hNone])
    refine .inr ⟨⟨caller, event, .called⟩,
      by simp [call, hNone], ?_⟩
    exact Steady.of_same hSteady ⟨rfl, rfl, rfl, rfl⟩
  · have hSteady := hOrderly.steady_of_allInert hInert
    refine .inl ⟨?_, hSteady.of_same ⟨rfl, rfl, rfl, rfl⟩⟩
    intro dispatch hMem
    rcases List.mem_append.mp hMem with hOld | hNew
    · exact hInert dispatch hOld
    · rw [List.mem_singleton.mp hNew]
      exact ⟨rfl, hEvent⟩

/- A call without effect returns, or ends the process. -/
theorem orderly_react_of_allInert
    (hOrderly : s.Orderly)
    (hInert : s.AllInert)
    (hMem : dispatch ∈ s.dispatches) :
    (s.react dispatch.caller dispatch.event).Orderly := by
  have hSteady := hOrderly.steady_of_allInert hInert
  have hNot := (hInert dispatch hMem).2
  unfold react
  split
  · refine ⟨hOrderly.faulted, .inl
      ⟨?_, hSteady.of_same ⟨rfl, rfl, rfl, rfl⟩⟩⟩
    intro other hOther
    exact hInert other (List.mem_of_mem_filter hOther)
  · rename_i target hTransits
    rw [Inert, hTransits] at hNot
    cases hNot
  · exact ⟨hOrderly.faulted, .inl
      ⟨hInert, hSteady.of_same ⟨rfl, rfl, rfl, rfl⟩⟩⟩

theorem dispatches_moveTo
    (hOnly : s.dispatches = [dispatch])
    (point : DispatchPoint) :
    (s.moveTo dispatch.caller point).dispatches =
      [{ dispatch with point := point }] := by
  simp [moveTo, hOnly]

theorem dispatches_finish
    (hOnly : s.dispatches = [dispatch]) :
    (s.finish dispatch.caller).dispatches = [] := by
  simp [finish, hOnly]

/- The one dispatch goes on to a point. -/
theorem orderly_moveTo
    (hFault : s.faulted = false)
    (hOnly : s.dispatches = [dispatch])
    (hAt : (s.moveTo dispatch.caller point).AtPoint point) :
    (s.moveTo dispatch.caller point).Orderly :=
  ⟨hFault, .inr ⟨_, dispatches_moveTo hOnly point, hAt⟩⟩

theorem orderly_finish
    (hFault : s.faulted = false)
    (hOnly : s.dispatches = [dispatch])
    (hSteady : s.Steady) :
    (s.finish dispatch.caller).Orderly := by
  refine ⟨hFault, .inl
    ⟨?_, hSteady.of_same ⟨rfl, rfl, rfl, rfl⟩⟩⟩
  simp [AllInert, dispatches_finish hOnly]

theorem orderly_react
    (hFault : s.faulted = false)
    (hOnly : s.dispatches = [dispatch])
    (hPoint : dispatch.point = .called)
    (hSteady : s.Steady) :
    (s.react dispatch.caller dispatch.event).Orderly := by
  unfold react
  split
  · exact orderly_finish hFault hOnly hSteady
  · exact orderly_moveTo hFault hOnly
      (Steady.of_same hSteady ⟨rfl, rfl, rfl, rfl⟩)
  · refine ⟨hFault, .inr ⟨dispatch, hOnly, ?_⟩⟩
    rw [hPoint]
    exact Steady.of_same hSteady ⟨rfl, rfl, rfl, rfl⟩

theorem orderly_exit
    (hFault : s.faulted = false)
    (hOnly : s.dispatches = [dispatch])
    (hSteady : s.Steady)
    (target : MasterState) :
    (s.exit dispatch.caller target).Orderly := by
  rcases hSteady with ⟨owner, hCurrent, hBooks, hKind⟩
  unfold exit
  split
  · rename_i hActivity
    have hSome := hKind.mp hActivity
    split
    · rename_i activity hOwner
      rw [hCurrent.1] at hOwner
      subst hOwner
      exact orderly_moveTo hFault hOnly
        ⟨rfl, hCurrent, hBooks.stop.of_same rfl rfl⟩
    · rename_i hOwner
      rw [hCurrent.1] at hOwner
      exact absurd hOwner hSome
  · rename_i hOther
    have hNone : owner = none := by
      by_contra hSome
      exact hOther (hKind.mpr hSome)
    subst hNone
    refine orderly_moveTo hFault hOnly
      ⟨hBooks.of_same rfl rfl, ?_⟩
    intro state
    by_cases hState : state = s.current
    · rw [hState]
      exact hCurrent.1
    · exact hCurrent.2 state hState

theorem orderly_deleteActivity
    {state target : MasterState}
    (hFault : s.faulted = false)
    (hOnly : s.dispatches = [dispatch])
    (hAt : s.AtPoint (.deleting state target)) :
    (s.deleteActivity dispatch.caller state target).Orderly := by
  rcases hAt with ⟨hState, activity, hCurrent, hBooks⟩
  unfold deleteActivity
  split
  · rename_i other hOther
    rw [hState, hCurrent.1, Option.some.injEq] at hOther
    subst hOther
    exact orderly_moveTo hFault hOnly
      ⟨hState, hBooks.delete.of_same rfl rfl, hCurrent.2⟩
  · rename_i hOther
    rw [hState, hCurrent.1] at hOther
    cases hOther

theorem orderly_entry
    (hFault : s.faulted = false)
    (hOnly : s.dispatches = [dispatch])
    (hAt : s.AtPoint .entering) :
    (s.entry dispatch.caller).Orderly := by
  rcases hAt with ⟨hBooks, hNone⟩
  unfold entry
  split
  · rename_i hActivity
    have hDone : s.dispatches.filter (fun other =>
        other.caller ≠ dispatch.caller) = [] := by
      simp [hOnly]
    refine ⟨hFault, .inl ⟨?_, some s.created, ⟨?_, ?_⟩,
      hBooks.create.of_same rfl rfl, ?_⟩⟩
    · intro other hMem
      have hMem' : other ∈ s.dispatches.filter (fun other =>
          other.caller ≠ dispatch.caller) := hMem
      rw [hDone] at hMem'
      cases hMem'
    · simp [finish, setActivity, record]
    · intro state hState
      have hNe : state ≠ s.current := hState
      simp [finish, setActivity, record, hNe, hNone state]
    · simpa [finish, setActivity, record] using hActivity.1
  · rename_i hNot
    refine orderly_finish hFault hOnly
      ⟨none, ⟨hNone _, fun state _ => hNone state⟩, hBooks, ?_⟩
    simp only [ne_eq, not_true_eq_false, iff_false]
    intro hActivity
    exact hNot ⟨hActivity, hNone _⟩

/- The one dispatch makes its next step. -/
theorem orderly_advance
    (hFault : s.faulted = false)
    (hOnly : s.dispatches = [dispatch])
    (hAt : s.AtPoint dispatch.point)
    (hStep : s.advance dispatch = some s') :
    s'.Orderly := by
  unfold advance at hStep
  split at hStep
  · rename_i hPoint
    cases hStep
    rw [hPoint] at hAt
    exact orderly_react hFault hOnly hPoint hAt
  · rename_i target hPoint
    cases hStep
    rw [hPoint] at hAt
    exact orderly_exit hFault hOnly hAt target
  · rename_i state activity target hPoint
    rw [hPoint] at hAt
    split at hStep
    · cases hStep
      rcases hAt with ⟨hState, hCurrent, hBooks⟩
      exact orderly_moveTo hFault hOnly
        ⟨hState, activity, hCurrent, hBooks.of_same rfl rfl⟩
    · cases hStep
  · rename_i state target hPoint
    cases hStep
    rw [hPoint] at hAt
    exact orderly_deleteActivity hFault hOnly hAt
  · rename_i state target hPoint
    cases hStep
    rw [hPoint] at hAt
    rcases hAt with ⟨hState, hBooks, hOthers⟩
    refine orderly_moveTo hFault hOnly
      ⟨hBooks.of_same rfl rfl, ?_⟩
    intro other
    by_cases hOther : other = state
    · simp [moveTo, setActivity, hOther]
    · simp only [moveTo, setActivity, hOther, if_false]
      exact hOthers other (hState ▸ hOther)
  · rename_i target hPoint
    cases hStep
    rw [hPoint] at hAt
    rcases hAt with ⟨hBooks, hNone⟩
    refine ⟨hFault, .inr ⟨_, dispatches_moveTo hOnly .entering,
      hBooks.of_same rfl rfl, hNone⟩⟩
  · rename_i hPoint
    cases hStep
    rw [hPoint] at hAt
    exact orderly_entry hFault hOnly hAt

theorem Orderly.step
    {label : MasterLabel}
    (hOrderly : s.Orderly)
    (hAlone : s.Alone label)
    (hStep : MasterRun.step s label = some s') :
    s'.Orderly := by
  unfold MasterRun.step at hStep
  split at hStep
  · cases hStep
  · cases label with
    | call caller event =>
        simp only at hStep
        split at hStep
        · cases hStep
          exact orderly_call hOrderly hAlone
        · cases hStep
    | endThread activity =>
        simp only [Option.ite_none_right_eq_some,
          Option.some.injEq] at hStep
        rcases hStep with ⟨-, rfl⟩
        refine ⟨hOrderly.faulted, ?_⟩
        rcases hOrderly.dispatches with
          ⟨hInert, hSteady⟩ | ⟨only, hOnly, hAt⟩
        · exact .inl
            ⟨hInert, hSteady.of_same ⟨rfl, rfl, rfl, rfl⟩⟩
        · exact .inr ⟨only, hOnly,
            hAt.of_same ⟨rfl, rfl, rfl, rfl⟩⟩
    | go caller =>
        simp only at hStep
        split at hStep
        · rename_i dispatch hFind
          have hMem := List.mem_of_find?_eq_some hFind
          rcases hOrderly.dispatches with
            ⟨hInert, hSteady⟩ | ⟨only, hOnly, hAt⟩
          · rw [advance, (hInert dispatch hMem).1,
              Option.some.injEq] at hStep
            subst hStep
            exact orderly_react_of_allInert hOrderly hInert hMem
          · rw [hOnly, List.mem_singleton] at hMem
            subst hMem
            exact orderly_advance hOrderly.faulted hOnly hAt
              hStep
        · cases hStep

------------------------------------------------------------
-- Run To Completion
------------------------------------------------------------

open StepSystem

/-
  Transitions run to completion, and runnables of activities
  are stopped and deleted once each, in every run whose
  calls do not overlap unless they have no effect.
-/
theorem transitions_run_to_completion
    {labels : List MasterLabel}
    (hAlone : Along step Alone start labels) :
    Along step Serial start labels ∧
      Throughout step Tidy start labels := by
  constructor
  · exact along_of_along
      (fun _ _ _ hOrderly hAlone hStep =>
        hOrderly.step hAlone hStep)
      (fun _ label _ hOrderly _ _ => hOrderly.serial label)
      orderly_start hAlone
  · exact throughout_of_along
      (fun _ _ _ hOrderly hAlone hStep =>
        hOrderly.step hAlone hStep)
      (fun _ hOrderly => hOrderly.tidy) orderly_start hAlone

/- The pool starts a test, and the wire ends it. -/
theorem runs_to_completion_in_availabilityMode :
    Along step Serial start
        [.call (.runnable 0) .availabilityModeCommand,
          .go (.runnable 0), .go (.runnable 0),
          .go (.runnable 0), .go (.runnable 0),
          .call .io .remoteAck, .go .io, .go .io, .go .io,
          .go .io, .call .io .endModeCommand, .go .io, .go .io,
          .endThread 0, .go .io, .go .io, .go .io, .go .io,
          .go .io] ∧
      Throughout step Tidy start
        [.call (.runnable 0) .availabilityModeCommand,
          .go (.runnable 0), .go (.runnable 0),
          .go (.runnable 0), .go (.runnable 0),
          .call .io .remoteAck, .go .io, .go .io, .go .io,
          .go .io, .call .io .endModeCommand, .go .io, .go .io,
          .endThread 0, .go .io, .go .io, .go .io, .go .io,
          .go .io] :=
  transitions_run_to_completion (by decide)

/- A call that is made is there to be reacted to. -/
theorem dispatchOf_call
    {event : Event}
    (hNone : s.dispatchOf caller = none) :
    (s.call caller event).dispatchOf caller =
      some ⟨caller, event, .called⟩ := by
  unfold dispatchOf at hNone ⊢
  simp [call, List.find?_append, hNone]

theorem caller_ne_of_dispatchOf
    (hNone : s.dispatchOf caller = none)
    (hMem : dispatch ∈ s.dispatches) :
    dispatch.caller ≠ caller := by
  intro hSame
  have hAll := List.find?_eq_none.mp hNone dispatch hMem
  exact hAll (decide_eq_true hSame)

theorem caller_of_dispatchOf
    (hFind : s.dispatchOf caller = some dispatch) :
    dispatch.caller = caller := by
  simpa using List.find?_some hFind

theorem dispatchOf_moveTo (other : Caller) :
    (s.moveTo caller point).dispatchOf other =
      (s.dispatchOf other).map fun dispatch =>
        if dispatch.caller = caller then
          { dispatch with point := point }
        else dispatch := by
  have hSame : ((fun dispatch : Dispatch =>
      decide (dispatch.caller = other)) ∘
        fun dispatch : Dispatch =>
          if dispatch.caller = caller then
            { dispatch with point := point }
          else dispatch) =
      fun dispatch => decide (dispatch.caller = other) := by
    funext dispatch
    simp only [Function.comp_apply]
    split
    · rfl
    · rfl
  rw [dispatchOf, moveTo, List.find?_map, hSame, dispatchOf]

/- A dispatch that goes on leaves the others. -/
theorem dispatchOf_moveTo_of_ne
    {other : Caller}
    (hNe : other ≠ caller) :
    (s.moveTo caller point).dispatchOf other =
      s.dispatchOf other := by
  rw [dispatchOf_moveTo]
  cases hFind : s.dispatchOf other with
  | none => rfl
  | some dispatch =>
      have hCaller := caller_of_dispatchOf hFind
      rw [Option.map_some, if_neg (hCaller ▸ hNe)]

theorem dispatchOf_moveTo_self
    (hFind : s.dispatchOf caller = some dispatch) :
    (s.moveTo caller point).dispatchOf caller =
      some { dispatch with point := point } := by
  rw [dispatchOf_moveTo, hFind, Option.map_some,
    if_pos (caller_of_dispatchOf hFind)]

theorem dispatchOf_finish_of_ne
    {other : Caller}
    (hNe : other ≠ caller) :
    (s.finish caller).dispatchOf other =
      s.dispatchOf other := by
  rw [dispatchOf, finish, List.find?_filter, dispatchOf]
  congr 1
  funext dispatch
  by_cases hOther : dispatch.caller = other
  · simp [hOther, hNe]
  · simp [hOther]

theorem dispatchOf_finish_self :
    (s.finish caller).dispatchOf caller = none := by
  simp [dispatchOf, finish]

theorem step_go_of_called
    (hRuns : ¬ (s.exited = true ∨ s.faulted = true))
    (hFind : s.dispatchOf caller = some dispatch)
    (hCalled : dispatch.point = .called) :
    step s (.go caller) =
      some (s.react dispatch.caller dispatch.event) := by
  simp only [step, hRuns, if_false, hFind, advance, hCalled]

/- The one that has an effect is in its transition. -/
theorem react_of_not_inert
    {event : Event}
    (hNot : ¬ Inert s.current event) :
    ∃ target, s.react caller event =
      s.moveTo caller (.exiting target) := by
  unfold react
  unfold Inert at hNot
  split
  · rename_i hStays
    rw [hStays] at hNot
    exact absurd rfl hNot
  · rename_i target hTransits
    exact ⟨target, rfl⟩
  · rename_i hExits
    rw [hExits] at hNot
    exact absurd rfl hNot

/- Two calls that are made at once, and one has an effect. -/
theorem not_along_of_two
    (first second : Dispatch)
    (hRuns : ¬ (s.exited = true ∨ s.faulted = true))
    (hFirst : s.dispatchOf first.caller = some first)
    (hSecond : s.dispatchOf second.caller = some second)
    (hCallers : first.caller ≠ second.caller)
    (hFirstCalled : first.point = .called)
    (hSecondCalled : second.point = .called)
    (hNot : ¬ Inert s.current first.event) :
    ¬ Along step Serial s
      [.go first.caller, .go second.caller] := by
  have hTransits : ∃ target, s.react first.caller first.event =
      s.moveTo first.caller (.exiting target) :=
    react_of_not_inert hNot
  rcases hTransits with ⟨target, hReact⟩
  have hStep := step_go_of_called hRuns hFirst hFirstCalled
  rw [hReact] at hStep
  have hFind : (s.moveTo first.caller
      (.exiting target)).dispatchOf second.caller =
        some second :=
    (dispatchOf_moveTo_of_ne hCallers.symm).trans hSecond
  have hStep' := step_go_of_called
    (s := s.moveTo first.caller (.exiting target)) hRuns hFind
    hSecondCalled
  rw [along_cons_of_step hStep, along_cons_of_step hStep']
  rintro ⟨-, hSerial, -⟩
  have hMem := List.mem_of_find?_eq_some hFind
  have hFirstMem := List.mem_of_find?_eq_some hFirst
  have hExiting :
      { first with point := .exiting target } ∈
        (s.moveTo first.caller
          (.exiting target)).dispatches := by
    refine List.mem_map.mpr ⟨first, hFirstMem, ?_⟩
    simp
  have hCalled := hSerial second hMem rfl hSecondCalled _
    hExiting
  cases hCalled

/-
  The condition is exact: after a call that breaks it, the
  dispatches that are being made can go on so that one is
  reacted to while another is in its transition.
-/
theorem may_fail_of_not_alone
    {event : Event}
    (hOrderly : s.Orderly)
    (hNot : ¬ s.Alone (.call caller event))
    (hStep : step s (.call caller event) = some s') :
    ∃ callers : List Caller,
      ¬ Along step Serial s' (callers.map .go) := by
  unfold step at hStep
  split at hStep
  · cases hStep
  rename_i hRuns
  simp only at hStep
  split at hStep
  · rename_i hNone
    cases hStep
    have hNew : (s.call caller event).dispatchOf caller =
        some (⟨caller, event, .called⟩ : Dispatch) :=
      dispatchOf_call hNone
    simp only [Alone, not_or] at hNot
    rcases hOrderly.dispatches with
      ⟨hInert, -⟩ | ⟨only, hOnly, -⟩
    · -- The new call has an effect, and another is made.
      have hEvent : ¬ Inert s.current event :=
        fun hEvent => hNot.2 ⟨hInert, hEvent⟩
      rcases List.exists_cons_of_ne_nil hNot.1 with
        ⟨first, rest, hFirst⟩
      have hMem : first ∈ s.dispatches := by simp [hFirst]
      have hOld : (s.call caller event).dispatchOf
          first.caller = some first := by
        simp [dispatchOf, call, hFirst]
      exact ⟨[caller, first.caller], not_along_of_two
        ⟨caller, event, .called⟩ first hRuns hNew hOld
        (caller_ne_of_dispatchOf hNone hMem).symm rfl
        (hInert first hMem).1 hEvent⟩
    · have hMem : only ∈ s.dispatches := by simp [hOnly]
      have hOld : (s.call caller event).dispatchOf
          only.caller = some only := by
        simp [dispatchOf, call, hOnly]
      have hCallers := caller_ne_of_dispatchOf hNone hMem
      by_cases hCalled : only.point = .called
      · by_cases hInert : Inert s.current only.event
        · have hAll : s.AllInert := by
            intro dispatch hDispatch
            rw [hOnly, List.mem_singleton] at hDispatch
            exact hDispatch ▸ ⟨hCalled, hInert⟩
          exact ⟨[caller, only.caller], not_along_of_two
            ⟨caller, event, .called⟩ only hRuns hNew hOld
            hCallers.symm rfl hCalled
            fun hEvent => hNot.2 ⟨hAll, hEvent⟩⟩
        · exact ⟨[only.caller, caller], not_along_of_two
            only ⟨caller, event, .called⟩ hRuns hOld hNew
            hCallers hCalled rfl hInert⟩
      · -- The transition that is being made is interrupted.
        refine ⟨[caller], ?_⟩
        rw [List.map_singleton,
          along_cons_of_step (step_go_of_called
            (s := s.call caller event) hRuns hNew rfl)]
        rintro ⟨hSerial, -⟩
        exact hCalled (hSerial _
          (List.mem_of_find?_eq_some hNew) rfl rfl only
          (List.mem_append_left _ hMem))
  · cases hStep

/-
  The script and the wire end the test at once. Both stop
  the pinger, and both delete it.
-/
theorem stopped_twice :
    ¬ Along step Serial start
        [.call (.runnable 0) .availabilityModeCommand,
          .go (.runnable 0), .go (.runnable 0),
          .go (.runnable 0), .go (.runnable 0),
          .call .io .remoteAck, .go .io, .go .io, .go .io,
          .go .io, .call (.runnable 1) .endModeCommand,
          .go (.runnable 1), .go (.runnable 1),
          .call .io .endModeCommand, .go .io] ∧
      ∃ s, run step start
        [.call (.runnable 0) .availabilityModeCommand,
          .go (.runnable 0), .go (.runnable 0),
          .go (.runnable 0), .go (.runnable 0),
          .call .io .remoteAck, .go .io, .go .io, .go .io,
          .go .io, .call (.runnable 1) .endModeCommand,
          .go (.runnable 1), .go (.runnable 1),
          .call .io .endModeCommand, .go .io, .go .io,
          .endThread 0, .go (.runnable 1), .go .io,
          .go (.runnable 1), .go .io] = some s ∧
      s.history.count (.use 0) = 2 ∧
      s.history.count (.release 0) = 2 ∧ ¬ s.Tidy := by
  refine ⟨by decide, _, rfl, rfl, rfl, ?_⟩
  rintro ⟨-, l, hAccount, -⟩
  cases hAccount

end MasterRun

end ModemTester
