import ModemTester.Library.StepSystem
import Mathlib.Data.List.Nodup
import Mathlib.Data.List.Range
import Mathlib.Data.List.Count
import Mathlib.Logic.Function.Basic

/-
  The pool of runnables (`RunnablePool.cpp`, `Runnable.cpp`,
  `DispatchingRunnable.h`).

  Runnables are added by any thread, each run on a thread of
  its own, and the collector stops, deletes, nulls and
  erases them in rounds. The sections under `_mut` exclude
  one another; inside its section the collector makes
  several steps, since a join waits for a thread that needs
  no lock. Nothing in `lifecycle` asks for `_stopRequested`,
  so a runnable that is stopped before its thread has begun
  is run all the same.

  Runnables are named by the order in which they are added.

  Key definitions include:
    * `RunnablePool`
    * `RunnablePool.addAndStartRunnable`
    * `RunnablePool.lifecycle`
    * `RunnablePool.collect`
    * `RunnablePool.RunsOnce`

  Main declarations:
    * `RunnablePool.Lawful.step`
    * `RunnablePool.added_of_run`
    * `RunnablePool.runsOnce_of_run`
-/

------------------------------------------------------------
-- Runnables And Their Threads
------------------------------------------------------------

namespace ModemTester

/-
  How far `Runnable::lifecycle` is on a thread: not begun,
  in `(*this)()`, returned from it, or at its end.
-/
inductive Lifecycle where
  | created
  | running
  | returned
  | ended
  deriving DecidableEq, Repr

/- A thread, with the runnable that it was bound to. -/
structure PoolThread where
  runnable : Nat
  stage : Lifecycle

/- The members of a `Runnable`. -/
structure PooledRunnable where
  running : Bool
  thr : Option Nat
  stopRequested : Bool

/-
  Where `operator()` of the pool is: asleep, or under the
  lock with its iterator at an index of the vector.
-/
inductive CollectorAt where
  | sleeping
  /- At the loop condition. -/
  | visiting (index : Nat)
  /- In `stop()`, at `if (_thr)`. -/
  | stopping (index id : Nat)
  /- At `delete (*it)`. -/
  | deleting (index id : Nat)
  /- At `*it=nullptr`. -/
  | clearing (index id : Nat)
  /- At `std::remove_if`. -/
  | compacting
  deriving DecidableEq, Repr

/-
  `executions` are the bodies begun, `joined` the runnables
  whose thread has been joined, and `deleted` those that
  were deleted, all in order. `faulted` tells that a null or
  deleted runnable has been used.
-/
structure RunnablePool where
  runnables : List (Option Nat)
  added : Nat
  objects : Nat → PooledRunnable
  started : Nat
  threads : Nat → PoolThread
  executions : List Nat
  joined : List Nat
  deleted : List Nat
  collector : CollectorAt
  faulted : Bool

/- A step of the pool. -/
inductive PoolMove where
  /- Some thread calls `addAndStartRunnable`. -/
  | add
  /- A thread goes on in `lifecycle`. -/
  | lifecycle (thread : Nat)
  /- The collector goes on. -/
  | collect
  deriving DecidableEq, Repr

namespace RunnablePool

def start : RunnablePool where
  runnables := []
  added := 0
  objects := fun _ => ⟨false, none, false⟩
  started := 0
  threads := fun _ => ⟨0, .created⟩
  executions := []
  joined := []
  deleted := []
  collector := .sleeping
  faulted := false

/- A null or deleted runnable is used. -/
def fault (s : RunnablePool) : RunnablePool :=
  { s with faulted := true }

/- `push_back` and `start` under the lock. -/
def addAndStartRunnable (s : RunnablePool) :
    Option RunnablePool :=
  match s.collector with
  | .sleeping =>
      some
        { s with
          runnables := s.runnables ++ [some s.added]
          added := s.added + 1
          objects := Function.update s.objects s.added
            ⟨false, some s.started, false⟩
          started := s.started + 1
          threads := Function.update s.threads s.started
            ⟨s.added, .created⟩ }
  | _ => none

/- `Runnable::lifecycle`, one member call after another. -/
def lifecycle (s : RunnablePool) (thread : Nat) :
    Option RunnablePool :=
  let id := (s.threads thread).runnable
  if s.started ≤ thread then
    none
  else
    match (s.threads thread).stage with
    | .created =>
        if id ∈ s.deleted then some s.fault
        else
          some
            { s with
              objects := Function.update s.objects id
                { s.objects id with running := true }
              threads := Function.update s.threads thread
                ⟨id, .running⟩
              executions := s.executions ++ [id] }
    | .running =>
        if id ∈ s.deleted then some s.fault
        else
          some
            { s with
              objects := Function.update s.objects id
                { s.objects id with running := false }
              threads := Function.update s.threads thread
                ⟨id, .returned⟩ }
    | .returned =>
        if id ∈ s.deleted then some s.fault
        else
          some
            { s with
              threads := Function.update s.threads thread
                ⟨id, .ended⟩ }
    | .ended => none

/- `RunnablePool::operator()`. -/
def collect (s : RunnablePool) : Option RunnablePool :=
  match s.collector with
  | .sleeping => some { s with collector := .visiting 0 }
  | .visiting index =>
      match s.runnables[index]? with
      | none => some { s with collector := .compacting }
      | some none => some s.fault
      | some (some id) =>
          if id ∈ s.deleted then some s.fault
          else
            some
              { s with
                objects := Function.update s.objects id
                  { s.objects id with stopRequested := true }
                collector := .stopping index id }
  | .stopping index id =>
      match (s.objects id).thr with
      | none =>
          some { s with collector := .deleting index id }
      | some thread =>
          if (s.threads thread).stage = .ended then
            some
              { s with
                objects := Function.update s.objects id
                  { s.objects id with thr := none }
                joined := s.joined ++ [id]
                collector := .deleting index id }
          else none
  | .deleting index id =>
      if id ∈ s.deleted then some s.fault
      else
        some
          { s with
            deleted := s.deleted ++ [id]
            collector := .clearing index id }
  | .clearing index _ =>
      some
        { s with
          runnables := s.runnables.set index none
          collector := .visiting (index + 1) }
  | .compacting =>
      some
        { s with
          runnables := s.runnables.filter Option.isSome
          collector := .sleeping }

def step (s : RunnablePool) (move : PoolMove) :
    Option RunnablePool :=
  if s.faulted = true then none
  else
    match move with
    | .add => s.addAndStartRunnable
    | .lifecycle thread => s.lifecycle thread
    | .collect => s.collect

/-
  A call can be made when the lock is free, no body is begun
  twice, a thread that has ended has run its body, and a
  body that has not begun can begin at once; what was
  deleted was deleted once, after its thread had ended;
  nothing else has left the vector; and outside the lock the
  vector holds each runnable that is alive once, and nothing
  else.
-/
structure RunsOnce (s : RunnablePool) : Prop where
  sound : s.faulted = false
  accepts : s.collector = .sleeping →
    ∃ s', s.step .add = some s'
  executed : ∀ id < s.added, s.executions.count id ≤ 1
  settled : ∀ id < s.added,
    (s.threads id).runnable = id ∧
      ((s.threads id).stage = .ended →
        s.executions.count id = 1)
  begins : ∀ id < s.added, s.executions.count id = 0 →
    ∃ s', s.step (.lifecycle id) = some s' ∧
      s'.executions.count id = 1
  deleted : ∀ id, s.deleted.count id ≤ 1
  finished : ∀ id ∈ s.deleted,
    id < s.added ∧ (s.threads id).stage = .ended
  kept : ∀ id < s.added, some id ∈ s.runnables ∨
    (id ∈ s.joined ∧ id ∈ s.deleted)
  unlocked : s.collector = .sleeping →
    none ∉ s.runnables ∧
      (∀ id ∈ s.deleted, some id ∉ s.runnables) ∧
      s.runnables.Nodup

------------------------------------------------------------
-- The Invariant
------------------------------------------------------------

/-
  What the collector has done of its round: nulled elements,
  the one in hand, and `fresh` ones, none of them joined.
  Those in hand and fresh are what is not deleted.
-/
def Placed (s : RunnablePool) (fresh : List Nat) : Prop :=
  match s.collector with
  | .sleeping =>
      s.runnables = fresh.map some ∧
        (s.deleted ++ fresh).Perm (List.range s.added)
  | .visiting index =>
      s.runnables =
          List.replicate index none ++ fresh.map some ∧
        (s.deleted ++ fresh).Perm (List.range s.added)
  | .stopping index id =>
      s.runnables =
          List.replicate index none ++
            some id :: fresh.map some ∧
        (s.deleted ++ id :: fresh).Perm
          (List.range s.added) ∧
        id ∉ s.joined
  | .deleting index id =>
      s.runnables =
          List.replicate index none ++
            some id :: fresh.map some ∧
        (s.deleted ++ id :: fresh).Perm
          (List.range s.added) ∧
        id ∈ s.joined
  | .clearing index id =>
      s.runnables =
          List.replicate index none ++
            some id :: fresh.map some ∧
        (s.deleted ++ fresh).Perm (List.range s.added)
  | .compacting =>
      fresh = [] ∧
        (∃ count, s.runnables = List.replicate count none) ∧
        s.deleted.Perm (List.range s.added)

structure Lawful (s : RunnablePool) : Prop where
  sound : s.faulted = false
  /- `start` has been called once for each runnable. -/
  started : s.started = s.added
  own : ∀ id < s.added, (s.threads id).runnable = id
  executed : ∀ id, s.executions.count id =
    if id < s.added ∧ (s.threads id).stage ≠ .created then 1
    else 0
  handle : ∀ id < s.added,
    (s.objects id).thr =
      if id ∈ s.joined then none else some id
  ended : ∀ id ∈ s.joined,
    id < s.added ∧ (s.threads id).stage = .ended
  gone : ∀ id ∈ s.deleted, id ∈ s.joined
  placed : ∃ fresh, (∀ id ∈ fresh, id ∉ s.joined) ∧
    s.Placed fresh

theorem Lawful.start : Lawful start where
  sound := rfl
  started := rfl
  own id hId := absurd hId (Nat.not_lt_zero id)
  executed id := by simp [RunnablePool.start]
  handle id hId := absurd hId (Nat.not_lt_zero id)
  ended := by simp [RunnablePool.start]
  gone := by simp [RunnablePool.start]
  placed := ⟨[], by simp, rfl, List.Perm.refl _⟩

------------------------------------------------------------
-- Adding And Running
------------------------------------------------------------

/- What is not deleted is still in the vector. -/
theorem Placed.exists_rest
    {s : RunnablePool}
    {fresh : List Nat}
    (hPlaced : s.Placed fresh) :
    ∃ rest, (s.deleted ++ rest).Perm (List.range s.added) ∧
      ∀ id ∈ rest, some id ∈ s.runnables := by
  unfold Placed at hPlaced
  cases hAt : s.collector with
  | sleeping | visiting index =>
      rw [hAt] at hPlaced
      rcases hPlaced with ⟨hVector, hPerm⟩
      refine ⟨fresh, hPerm, ?_⟩
      intro id hId
      simp [hVector, hId]
  | stopping index id | deleting index id =>
      rw [hAt] at hPlaced
      rcases hPlaced with ⟨hVector, hPerm, -⟩
      refine ⟨id :: fresh, hPerm, ?_⟩
      intro other hOther
      rcases List.mem_cons.mp hOther with rfl | hFresh
      · simp [hVector]
      · simp [hVector, hFresh]
  | clearing index id =>
      rw [hAt] at hPlaced
      rcases hPlaced with ⟨hVector, hPerm⟩
      refine ⟨fresh, hPerm, ?_⟩
      intro other hOther
      simp [hVector, hOther]
  | compacting =>
      rw [hAt] at hPlaced
      rcases hPlaced with ⟨-, -, hPerm⟩
      exact ⟨[], by rwa [List.append_nil], by simp⟩

theorem Lawful.nodup_deleted
    {s : RunnablePool}
    (hLawful : s.Lawful) :
    s.deleted.Nodup := by
  rcases hLawful.placed with ⟨fresh, -, hPlaced⟩
  rcases hPlaced.exists_rest with ⟨rest, hPerm, -⟩
  have hNodup : (s.deleted ++ rest).Nodup :=
    hPerm.nodup_iff.mpr List.nodup_range
  exact (List.nodup_append.mp hNodup).1

theorem Lawful.addAndStartRunnable
    {s s' : RunnablePool}
    (hLawful : s.Lawful)
    (hStep : s.addAndStartRunnable = some s') :
    s'.Lawful := by
  unfold RunnablePool.addAndStartRunnable at hStep
  cases hAt : s.collector with
  | visiting | stopping | deleting | clearing | compacting =>
      simp only [hAt] at hStep
      cases hStep
  | sleeping =>
      simp only [hAt, Option.some.injEq] at hStep
      subst hStep
      have hStarted := hLawful.started
      have hNew : s.added ∉ s.joined := fun hJoined =>
        lt_irrefl _ (hLawful.ended _ hJoined).1
      refine ⟨hLawful.sound, ?_, ?_, ?_, ?_, ?_,
        hLawful.gone, ?_⟩
      · simp only [hStarted]
      · intro id hId
        simp only at hId ⊢
        by_cases hSame : id = s.added
        · rw [hSame, hStarted, Function.update_self]
        · rw [hStarted, Function.update_of_ne hSame]
          exact hLawful.own id (by omega)
      · intro id
        simp only [hLawful.executed id, hStarted]
        by_cases hSame : id = s.added
        · simp [hSame]
        · have hLt : id < s.added + 1 ↔ id < s.added := by
            omega
          simp [hSame, hLt]
      · intro id hId
        simp only at hId ⊢
        by_cases hSame : id = s.added
        · rw [hSame, Function.update_self, if_neg hNew,
            hStarted]
        · rw [Function.update_of_ne hSame]
          exact hLawful.handle id (by omega)
      · intro id hJoined
        rcases hLawful.ended id hJoined with ⟨hLt, hEnded⟩
        have hNe : id ≠ s.added := Nat.ne_of_lt hLt
        refine ⟨Nat.lt_succ_of_lt hLt, ?_⟩
        simp only [hStarted, Function.update_of_ne hNe]
        exact hEnded
      · rcases hLawful.placed with ⟨fresh, hFresh, hPlaced⟩
        simp only [Placed, hAt] at hPlaced
        refine ⟨fresh ++ [s.added], ?_, ?_⟩
        · intro id hId
          rcases List.mem_append.mp hId with hOld | hLast
          · exact hFresh id hOld
          · rw [List.mem_singleton.mp hLast]
            exact hNew
        · simp only [Placed]
          constructor
          · rw [hPlaced.1, List.map_append, List.map_singleton]
          · rw [← List.append_assoc, List.range_succ]
            exact hPlaced.2.append_right _

/- A thread that goes on in its runnable keeps the rest. -/
theorem Lawful.advance
    {s : RunnablePool}
    {objects : Nat → PooledRunnable}
    {thread : Nat}
    {stage : Lifecycle}
    {executions : List Nat}
    (hLawful : s.Lawful)
    (hThread : thread < s.added)
    (hAlive : (s.threads thread).stage ≠ .ended)
    (hObjects : ∀ id,
      (objects id).thr = (s.objects id).thr)
    (hStage : stage ≠ .created)
    (hExecuted : ∀ id, executions.count id =
      s.executions.count id +
        if id = thread ∧
          (s.threads thread).stage = .created then 1 else 0) :
    Lawful
      { s with
        objects := objects
        threads := Function.update s.threads thread
          ⟨thread, stage⟩
        executions := executions } where
  sound := hLawful.sound
  started := hLawful.started
  own id hId := by
    simp only at hId ⊢
    by_cases hSame : id = thread
    · rw [hSame, Function.update_self]
    · rw [Function.update_of_ne hSame]
      exact hLawful.own id hId
  executed id := by
    simp only [hExecuted, hLawful.executed id]
    by_cases hSame : id = thread
    · subst hSame
      by_cases hCreated :
          (s.threads id).stage = .created
      · simp [hCreated, hThread, hStage]
      · simp [hCreated, hThread, hStage]
    · simp [hSame]
  handle id hId := by
    simp only [hObjects]
    exact hLawful.handle id hId
  ended id hJoined := by
    rcases hLawful.ended id hJoined with ⟨hLt, hEnded⟩
    have hNe : id ≠ thread := by
      rintro rfl
      exact hAlive hEnded
    refine ⟨hLt, ?_⟩
    simp only [Function.update_of_ne hNe]
    exact hEnded
  gone := hLawful.gone
  placed := hLawful.placed

theorem Lawful.lifecycle
    {s s' : RunnablePool}
    {thread : Nat}
    (hLawful : s.Lawful)
    (hStep : s.lifecycle thread = some s') :
    s'.Lawful := by
  unfold RunnablePool.lifecycle at hStep
  simp only at hStep
  split at hStep
  · cases hStep
  rename_i hStarted
  rw [hLawful.started, not_le] at hStarted
  rw [hLawful.own thread hStarted] at hStep
  have hAlive : (s.threads thread).stage ≠ .ended →
      thread ∉ s.deleted := fun hNot hDeleted =>
    hNot (hLawful.ended thread
      (hLawful.gone thread hDeleted)).2
  cases hAt : (s.threads thread).stage with
  | created =>
      have hNot := hAlive (by simp [hAt])
      simp only [hAt, if_neg hNot, Option.some.injEq] at hStep
      subst hStep
      refine hLawful.advance hStarted (by simp [hAt]) ?_
        (by simp) ?_
      · intro id
        by_cases hSame : id = thread
        · subst hSame
          simp
        · simp [Function.update_of_ne hSame]
      · intro id
        by_cases hSame : id = thread
        · simp [hSame, hAt]
        · simp [hSame, Ne.symm hSame]
  | running =>
      have hNot := hAlive (by simp [hAt])
      simp only [hAt, if_neg hNot, Option.some.injEq] at hStep
      subst hStep
      refine hLawful.advance hStarted (by simp [hAt]) ?_
        (by simp) (by simp [hAt])
      intro id
      by_cases hSame : id = thread
      · subst hSame
        simp
      · simp [Function.update_of_ne hSame]
  | returned =>
      have hNot := hAlive (by simp [hAt])
      simp only [hAt, if_neg hNot, Option.some.injEq] at hStep
      subst hStep
      exact hLawful.advance hStarted (by simp [hAt])
        (fun _ => rfl) (by simp) (by simp [hAt])
  | ended =>
      simp only [hAt] at hStep
      cases hStep

------------------------------------------------------------
-- Collecting
------------------------------------------------------------

/- The element at the iterator. -/
theorem getElem?_replicate_append
    (index : Nat)
    (rest : List (Option Nat)) :
    (List.replicate index none ++ rest)[index]? =
      rest.head? := by
  rw [List.getElem?_append_right (by simp)]
  simp [List.head?_eq_getElem?]

/- Nulling it. -/
theorem set_replicate_append
    (index id : Nat)
    (rest : List (Option Nat)) :
    (List.replicate index none ++ some id :: rest).set index
        none =
      List.replicate (index + 1) none ++ rest := by
  rw [List.set_append_right _ _ (by simp)]
  simp [List.replicate_succ']

/- A round that only moves on keeps everything but its place. -/
theorem Lawful.moveOn
    {s : RunnablePool}
    {at' : CollectorAt}
    {runnables : List (Option Nat)}
    (hLawful : s.Lawful)
    (hPlaced : ∃ fresh, (∀ id ∈ fresh, id ∉ s.joined) ∧
      ({ s with runnables := runnables, collector := at' } :
        RunnablePool).Placed fresh) :
    Lawful
      { s with runnables := runnables, collector := at' } where
  sound := hLawful.sound
  started := hLawful.started
  own := hLawful.own
  executed := hLawful.executed
  handle := hLawful.handle
  ended := hLawful.ended
  gone := hLawful.gone
  placed := hPlaced

/- `stop()` begins on a runnable that has not been joined. -/
theorem Lawful.visit
    {s s' : RunnablePool}
    {index : Nat}
    (hLawful : s.Lawful)
    (hAt : s.collector = .visiting index)
    (hStep : s.collect = some s') :
    s'.Lawful := by
  rcases hLawful.placed with ⟨fresh, hFresh, hPlaced⟩
  simp only [Placed, hAt] at hPlaced
  rcases hPlaced with ⟨hVector, hPerm⟩
  have hElement : s.runnables[index]? =
      (fresh.map some).head? := by
    rw [hVector, getElem?_replicate_append]
  simp only [RunnablePool.collect, hAt, hElement] at hStep
  cases fresh with
  | nil =>
      simp only [List.map_nil, List.head?_nil,
        Option.some.injEq] at hStep
      subst hStep
      refine hLawful.moveOn ⟨[], by simp, rfl, ?_, ?_⟩
      · exact ⟨index, by simpa using hVector⟩
      · rwa [List.append_nil] at hPerm
  | cons id fresh =>
      have hNew := hFresh id List.mem_cons_self
      have hAlive : id ∉ s.deleted := fun hDeleted =>
        hNew (hLawful.gone id hDeleted)
      simp only [List.map_cons, List.head?_cons,
        if_neg hAlive, Option.some.injEq] at hStep
      subst hStep
      refine ⟨hLawful.sound, hLawful.started, hLawful.own,
        hLawful.executed, ?_, hLawful.ended, hLawful.gone,
        ?_⟩
      · intro other hOther
        simp only at hOther ⊢
        rw [← hLawful.handle other hOther]
        by_cases hSame : other = id
        · subst hSame
          rw [Function.update_self]
        · rw [Function.update_of_ne hSame]
      · refine ⟨fresh, ?_, ?_⟩
        · intro other hOther
          exact hFresh other (List.mem_cons_of_mem _ hOther)
        · simp only [Placed]
          exact ⟨hVector, hPerm, hNew⟩

/- The join ends when the thread has. -/
theorem Lawful.stop
    {s s' : RunnablePool}
    {index id : Nat}
    (hLawful : s.Lawful)
    (hAt : s.collector = .stopping index id)
    (hStep : s.collect = some s') :
    s'.Lawful := by
  rcases hLawful.placed with ⟨fresh, hFresh, hPlaced⟩
  simp only [Placed, hAt] at hPlaced
  rcases hPlaced with ⟨hVector, hPerm, hNew⟩
  have hNodup : (s.deleted ++ id :: fresh).Nodup :=
    hPerm.nodup_iff.mpr List.nodup_range
  have hOnce := (List.nodup_cons.mp
    (List.nodup_append.mp hNodup).2.1).1
  have hId : id < s.added :=
    List.mem_range.mp (hPerm.subset
      (List.mem_append_right _ List.mem_cons_self))
  have hThr := hLawful.handle id hId
  rw [if_neg hNew] at hThr
  simp only [RunnablePool.collect, hAt, hThr] at hStep
  split at hStep
  · rename_i hEnded
    rw [Option.some.injEq] at hStep
    subst hStep
    refine ⟨hLawful.sound, hLawful.started, hLawful.own,
      hLawful.executed, ?_, ?_, ?_, ?_⟩
    · intro other hOther
      simp only [List.mem_append, List.mem_singleton]
      by_cases hSame : other = id
      · simp [hSame]
      · rw [Function.update_of_ne hSame,
          hLawful.handle other hOther]
        simp [hSame]
    · intro other hOther
      simp only [List.mem_append, List.mem_singleton]
        at hOther
      rcases hOther with hOld | rfl
      · exact hLawful.ended other hOld
      · exact ⟨hId, hEnded⟩
    · intro other hOther
      exact List.mem_append_left _ (hLawful.gone other hOther)
    · refine ⟨fresh, ?_, ?_⟩
      · intro other hOther
        rw [List.mem_append, List.mem_singleton]
        rintro (hOld | rfl)
        · exact hFresh other hOther hOld
        · exact hOnce hOther
      · simp only [Placed]
        exact ⟨hVector, hPerm,
          List.mem_append_right _ List.mem_cons_self⟩
  · cases hStep

theorem Lawful.delete
    {s s' : RunnablePool}
    {index id : Nat}
    (hLawful : s.Lawful)
    (hAt : s.collector = .deleting index id)
    (hStep : s.collect = some s') :
    s'.Lawful := by
  rcases hLawful.placed with ⟨fresh, hFresh, hPlaced⟩
  simp only [Placed, hAt] at hPlaced
  rcases hPlaced with ⟨hVector, hPerm, hJoined⟩
  have hNodup : (s.deleted ++ id :: fresh).Nodup :=
    hPerm.nodup_iff.mpr List.nodup_range
  have hAlive : id ∉ s.deleted := fun hDeleted =>
    (List.nodup_append.mp hNodup).2.2 id hDeleted id
      List.mem_cons_self rfl
  simp only [RunnablePool.collect, hAt, if_neg hAlive,
    Option.some.injEq] at hStep
  subst hStep
  refine ⟨hLawful.sound, hLawful.started, hLawful.own,
    hLawful.executed, hLawful.handle, hLawful.ended, ?_,
    fresh, hFresh, ?_⟩
  · intro other hOther
    simp only [List.mem_append, List.mem_singleton] at hOther
    rcases hOther with hOld | rfl
    · exact hLawful.gone other hOld
    · exact hJoined
  · simp only [Placed]
    refine ⟨hVector, ?_⟩
    rwa [List.append_assoc, List.singleton_append]

theorem Lawful.collect
    {s s' : RunnablePool}
    (hLawful : s.Lawful)
    (hStep : s.collect = some s') :
    s'.Lawful := by
  cases hAt : s.collector with
  | visiting index => exact hLawful.visit hAt hStep
  | stopping index id => exact hLawful.stop hAt hStep
  | deleting index id => exact hLawful.delete hAt hStep
  | sleeping =>
      rcases hLawful.placed with ⟨fresh, hFresh, hPlaced⟩
      simp only [Placed, hAt] at hPlaced
      simp only [RunnablePool.collect, hAt,
        Option.some.injEq] at hStep
      subst hStep
      exact hLawful.moveOn ⟨fresh, hFresh, hPlaced⟩
  | clearing index id =>
      rcases hLawful.placed with ⟨fresh, hFresh, hPlaced⟩
      simp only [Placed, hAt] at hPlaced
      simp only [RunnablePool.collect, hAt, hPlaced.1,
        set_replicate_append, Option.some.injEq] at hStep
      subst hStep
      exact hLawful.moveOn ⟨fresh, hFresh, rfl, hPlaced.2⟩
  | compacting =>
      rcases hLawful.placed with ⟨fresh, hFresh, hPlaced⟩
      simp only [Placed, hAt] at hPlaced
      rcases hPlaced with ⟨rfl, ⟨count, hVector⟩, hPerm⟩
      have hEmpty : s.runnables.filter Option.isSome = [] := by
        rw [hVector, List.filter_eq_nil_iff]
        intro element hElement
        simp [List.eq_of_mem_replicate hElement]
      simp only [RunnablePool.collect, hAt, hEmpty,
        Option.some.injEq] at hStep
      subst hStep
      refine hLawful.moveOn ⟨[], by simp, rfl, ?_⟩
      rwa [List.append_nil]

------------------------------------------------------------
-- Every Run
------------------------------------------------------------

theorem Lawful.step
    {s s' : RunnablePool}
    {move : PoolMove}
    (hLawful : s.Lawful)
    (hStep : s.step move = some s') :
    s'.Lawful := by
  have hSound : ¬ s.faulted = true := by
    simp [hLawful.sound]
  unfold RunnablePool.step at hStep
  rw [if_neg hSound] at hStep
  cases move with
  | add => exact hLawful.addAndStartRunnable hStep
  | lifecycle thread => exact hLawful.lifecycle hStep
  | collect => exact hLawful.collect hStep

/- A runnable that is not run yet has a thread to run it. -/
theorem Lawful.begins
    {s : RunnablePool}
    {id : Nat}
    (hLawful : s.Lawful)
    (hId : id < s.added)
    (hNone : s.executions.count id = 0) :
    ∃ s', s.step (.lifecycle id) = some s' ∧
      s'.executions.count id = 1 := by
  have hCreated : (s.threads id).stage = .created := by
    by_contra hNot
    rw [hLawful.executed id, if_pos ⟨hId, hNot⟩] at hNone
    cases hNone
  have hAlive : id ∉ s.deleted := by
    intro hDeleted
    have hEnded := (hLawful.ended id
      (hLawful.gone id hDeleted)).2
    rw [hCreated] at hEnded
    cases hEnded
  have hStarted : ¬ s.started ≤ id := by
    rw [hLawful.started]
    exact not_le.mpr hId
  simp only [RunnablePool.step, hLawful.sound,
    RunnablePool.lifecycle, hLawful.own id hId, hCreated,
    if_neg hAlive, if_neg hStarted]
  exact ⟨_, rfl, by simp [hNone]⟩

theorem Lawful.runsOnce
    {s : RunnablePool}
    (hLawful : s.Lawful) :
    s.RunsOnce where
  sound := hLawful.sound
  accepts hAt := by
    simp only [RunnablePool.step, hLawful.sound,
      RunnablePool.addAndStartRunnable, hAt]
    exact ⟨_, rfl⟩
  executed id _ := by
    rw [hLawful.executed id]
    split <;> decide
  settled id hId := by
    refine ⟨hLawful.own id hId, ?_⟩
    intro hEnded
    rw [hLawful.executed id, if_pos ⟨hId, by simp [hEnded]⟩]
  begins id hId hNone := hLawful.begins hId hNone
  deleted id :=
    List.nodup_iff_count_le_one.mp hLawful.nodup_deleted id
  finished id hDeleted :=
    hLawful.ended id (hLawful.gone id hDeleted)
  kept id hId := by
    rcases hLawful.placed with ⟨fresh, -, hPlaced⟩
    rcases hPlaced.exists_rest with ⟨rest, hPerm, hRest⟩
    have hMem : id ∈ s.deleted ++ rest :=
      hPerm.symm.subset (List.mem_range.mpr hId)
    rcases List.mem_append.mp hMem with hDeleted | hHere
    · exact Or.inr ⟨hLawful.gone id hDeleted, hDeleted⟩
    · exact Or.inl (hRest id hHere)
  unlocked hAt := by
    rcases hLawful.placed with ⟨fresh, -, hPlaced⟩
    simp only [Placed, hAt] at hPlaced
    have hNodup : (s.deleted ++ fresh).Nodup :=
      hPlaced.2.nodup_iff.mpr List.nodup_range
    rcases List.nodup_append.mp hNodup with
      ⟨-, hFresh, hApart⟩
    rw [hPlaced.1]
    refine ⟨by simp, ?_, ?_⟩
    · intro id hDeleted hMem
      rcases List.mem_map.mp hMem with ⟨other, hOther, hSame⟩
      rw [Option.some.injEq] at hSame
      exact hApart id hDeleted other hOther hSame.symm
    · exact hFresh.map fun _ _ hSame =>
        Option.some.inj hSame

/- Nothing but a call counts as an addition. -/
theorem added_of_step
    {s s' : RunnablePool}
    {move : PoolMove}
    (hStep : s.step move = some s') :
    s'.added = s.added + [move].count .add := by
  unfold RunnablePool.step at hStep
  split at hStep
  · cases hStep
  cases move with
  | add =>
      simp only [RunnablePool.addAndStartRunnable] at hStep
      split at hStep
      · simp only [Option.some.injEq] at hStep
        subst hStep
        rfl
      · cases hStep
  | lifecycle thread =>
      simp only [RunnablePool.lifecycle] at hStep
      repeat' split at hStep
      all_goals (cases hStep <;> rfl)
  | collect =>
      simp only [RunnablePool.collect] at hStep
      repeat' split at hStep
      all_goals (cases hStep <;> rfl)

/- What has been added is what the run has called for. -/
theorem added_of_run
    {s : RunnablePool}
    {moves : List PoolMove}
    (hRun : StepSystem.run step start moves = some s) :
    s.added = moves.count .add :=
  StepSystem.run_invariant_history
    (H := fun done s => s.added = done.count .add)
    (fun done move s s' _ hAdded hStep => by
      rw [added_of_step hStep, hAdded, List.count_append])
    rfl hRun

/-
  Wherever a run of the pool may lead, every call of the run
  has added a runnable, and every one of them is run and
  deleted as it should be.
-/
theorem runsOnce_of_run
    {s : RunnablePool}
    {moves : List PoolMove}
    (hRun : StepSystem.run step start moves = some s) :
    s.added = moves.count .add ∧ s.RunsOnce := by
  have hLawful : s.Lawful :=
    StepSystem.run_invariant
      (fun _ _ _ hLawful hStep => hLawful.step hStep)
      Lawful.start hRun
  exact ⟨added_of_run hRun, hLawful.runsOnce⟩

/-
  Three calls and a round of the collector, which waits for
  the first runnable and finds the second one added before
  its thread has begun.
-/
def roundMoves : List PoolMove :=
  [.add, .lifecycle 0, .add, .collect, .collect,
    .lifecycle 0, .lifecycle 0, .collect, .collect, .collect,
    .collect, .lifecycle 1, .lifecycle 1, .lifecycle 1,
    .collect, .collect, .collect, .collect, .collect, .add]

theorem runsOnce_of_run_roundMoves :
    ∃ s, StepSystem.run step start roundMoves = some s ∧
      s.executions = [0, 1] ∧ s.deleted = [0, 1] ∧
      s.runnables = [some 2] ∧
      s.added = roundMoves.count .add ∧ s.RunsOnce := by
  refine ⟨_, rfl, by decide, by decide, by decide, ?_⟩
  exact @runsOnce_of_run _ roundMoves rfl

end RunnablePool

end ModemTester
