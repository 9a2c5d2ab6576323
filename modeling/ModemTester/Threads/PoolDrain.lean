import Mathlib.Algebra.Order.BigOperators.Group.Finset
import ModemTester.Threads.RunnablePool

/-
  The pool gets done with what it is given.

  As long as bodies return, nothing in the pool can wait for
  ever: a thread can always go on in `lifecycle`, and once
  all have ended the collector can finish its round and make
  another, after which nothing is left.

  Key definitions include:
    * `RunnablePool.threadWork`
    * `RunnablePool.roundWork`

  Main declarations:
    * `RunnablePool.can_drain`
-/

------------------------------------------------------------
-- Work Left
------------------------------------------------------------

namespace ModemTester

/- The member calls left in `lifecycle`. -/
def Lifecycle.left : Lifecycle → Nat
  | .created => 3
  | .running => 2
  | .returned => 1
  | .ended => 0

namespace RunnablePool

/- What the threads have left to do. -/
def threadWork (s : RunnablePool) : Nat :=
  ∑ id ∈ Finset.range s.added, (s.threads id).stage.left

/- What the collector has left, a round to come included. -/
def roundWork (s : RunnablePool) : Nat :=
  match s.collector with
  | .sleeping =>
      if s.runnables = [] then 0
      else 4 * s.runnables.length + 3
  | .visiting index => 4 * (s.runnables.length - index) + 2
  | .stopping index _ => 4 * (s.runnables.length - index) + 1
  | .deleting index _ => 4 * (s.runnables.length - index)
  | .clearing index _ => 4 * (s.runnables.length - index) - 1
  | .compacting => 1

/- Asleep, with nothing in the vector. -/
def Idle (s : RunnablePool) : Prop :=
  s.collector = .sleeping ∧ s.runnables = []

variable {s s' : RunnablePool}

/- A thread that has not ended can go on. -/
theorem Lawful.exists_lifecycle
    {id : Nat}
    (hLawful : s.Lawful)
    (hId : id < s.added)
    (hAlive : (s.threads id).stage ≠ .ended) :
    ∃ s', s.step (.lifecycle id) = some s' ∧
      s'.added = s.added ∧
      s'.collector = s.collector ∧
      s'.runnables = s.runnables ∧
      (s'.threads id).stage.left <
        (s.threads id).stage.left ∧
      ∀ other, other ≠ id →
        s'.threads other = s.threads other := by
  have hStarted : ¬ s.started ≤ id := by
    rw [hLawful.started]
    exact not_le.mpr hId
  have hNot : id ∉ s.deleted := fun hDeleted =>
    hAlive (hLawful.ended id (hLawful.gone id hDeleted)).2
  cases hAt : (s.threads id).stage with
  | ended => exact absurd hAt hAlive
  | created | running | returned =>
      simp only [RunnablePool.step, hLawful.sound,
        RunnablePool.lifecycle, hLawful.own id hId, hAt,
        if_neg hNot, if_neg hStarted]
      refine ⟨_, rfl, rfl, rfl, rfl, ?_, ?_⟩
      · simp [Lifecycle.left]
      · intro other hOther
        exact Function.update_of_ne hOther _ _

theorem threadWork_lt
    {id : Nat}
    (hId : id < s.added)
    (hAdded : s'.added = s.added)
    (hLess : (s'.threads id).stage.left <
      (s.threads id).stage.left)
    (hOthers : ∀ other, other ≠ id →
      s'.threads other = s.threads other) :
    s'.threadWork < s.threadWork := by
  rw [threadWork, threadWork, hAdded]
  refine Finset.sum_lt_sum ?_
    ⟨id, Finset.mem_range.mpr hId, hLess⟩
  intro other _
  by_cases hSame : other = id
  · rw [hSame]
    exact hLess.le
  · rw [hOthers other hSame]

/- With all threads at their end, so can the collector. -/
theorem Lawful.exists_collect
    (hLawful : s.Lawful)
    (hEnded : ∀ id < s.added, (s.threads id).stage = .ended)
    (hBusy : ¬ s.Idle) :
    ∃ s', s.step .collect = some s' ∧
      s'.added = s.added ∧ s'.threads = s.threads ∧
      s'.roundWork < s.roundWork := by
  rcases hLawful.placed with ⟨fresh, hFresh, hPlaced⟩
  simp only [RunnablePool.step, hLawful.sound, if_false,
    Bool.false_eq_true]
  unfold Placed at hPlaced
  cases hAt : s.collector with
  | sleeping =>
      have hSome : s.runnables ≠ [] := fun hNil =>
        hBusy ⟨hAt, hNil⟩
      simp only [RunnablePool.collect, hAt]
      refine ⟨_, rfl, rfl, rfl, ?_⟩
      simp [roundWork, hAt, hSome]
  | visiting index =>
      rw [hAt] at hPlaced
      have hElement : s.runnables[index]? =
          (fresh.map some).head? := by
        rw [hPlaced.1, getElem?_replicate_append]
      cases fresh with
      | nil =>
          simp only [RunnablePool.collect, hAt, hElement]
          refine ⟨_, rfl, rfl, rfl, ?_⟩
          simp [roundWork, hAt]
      | cons id fresh =>
          have hAlive : id ∉ s.deleted := fun hDeleted =>
            hFresh id List.mem_cons_self
              (hLawful.gone id hDeleted)
          simp only [RunnablePool.collect, hAt, hElement,
            List.map_cons, List.head?_cons, if_neg hAlive]
          refine ⟨_, rfl, rfl, rfl, ?_⟩
          simp [roundWork, hAt]
  | stopping index id =>
      rw [hAt] at hPlaced
      rcases hPlaced with ⟨hVector, hPerm, hNew⟩
      have hId : id < s.added :=
        List.mem_range.mp (hPerm.subset
          (List.mem_append_right _ List.mem_cons_self))
      have hThr := hLawful.handle id hId
      rw [if_neg hNew] at hThr
      simp only [RunnablePool.collect, hAt, hThr,
        hEnded id hId, if_true]
      refine ⟨_, rfl, rfl, rfl, ?_⟩
      simp [roundWork, hAt]
  | deleting index id =>
      rw [hAt] at hPlaced
      rcases hPlaced with ⟨hVector, hPerm, hJoined⟩
      have hNodup : (s.deleted ++ id :: fresh).Nodup :=
        hPerm.nodup_iff.mpr List.nodup_range
      have hAlive : id ∉ s.deleted := fun hDeleted =>
        (List.nodup_append.mp hNodup).2.2 id hDeleted id
          List.mem_cons_self rfl
      have hIndex : index < s.runnables.length := by
        rw [hVector, List.length_append, List.length_replicate,
          List.length_cons]
        omega
      simp only [RunnablePool.collect, hAt, if_neg hAlive]
      refine ⟨_, rfl, rfl, rfl, ?_⟩
      simp only [roundWork, hAt]
      omega
  | clearing index id =>
      rw [hAt] at hPlaced
      have hIndex : index < s.runnables.length := by
        rw [hPlaced.1, List.length_append,
          List.length_replicate, List.length_cons]
        omega
      simp only [RunnablePool.collect, hAt]
      refine ⟨_, rfl, rfl, rfl, ?_⟩
      simp only [roundWork, hAt, List.length_set]
      omega
  | compacting =>
      rw [hAt] at hPlaced
      rcases hPlaced with ⟨rfl, ⟨count, hVector⟩, hPerm⟩
      have hEmpty : s.runnables.filter Option.isSome = [] := by
        rw [hVector, List.filter_eq_nil_iff]
        intro element hElement
        simp [List.eq_of_mem_replicate hElement]
      simp only [RunnablePool.collect, hAt, hEmpty]
      refine ⟨_, rfl, rfl, rfl, ?_⟩
      simp [roundWork, hAt]

/- An idle pool has seen to all that it was given. -/
theorem Lawful.done_of_idle
    (hLawful : s.Lawful)
    (hIdle : s.Idle)
    {id : Nat}
    (hId : id < s.added) :
    s.executions.count id = 1 ∧ s.deleted.count id = 1 := by
  rcases hLawful.placed with ⟨fresh, -, hPlaced⟩
  simp only [Placed, hIdle.1, hIdle.2] at hPlaced
  have hNone : fresh = [] :=
    List.map_eq_nil_iff.mp hPlaced.1.symm
  rw [hNone, List.append_nil] at hPlaced
  have hDeleted : id ∈ s.deleted :=
    hPlaced.2.symm.subset (List.mem_range.mpr hId)
  have hEnded :=
    (hLawful.ended id (hLawful.gone id hDeleted)).2
  constructor
  · rw [hLawful.executed id, if_pos ⟨hId, by simp [hEnded]⟩]
  · exact List.count_eq_one_of_mem hLawful.nodup_deleted
      hDeleted

/-
  From every state of the pool, if no more is added, its
  threads and its collector can go on until the vector is
  empty and everything that the run has called for has run
  and was deleted, once.
-/
theorem can_drain
    {moves : List PoolMove}
    (hRun : StepSystem.run step start moves = some s) :
    s.added = moves.count .add ∧ ∃ moves' s',
      StepSystem.Along step (fun _ move => move ≠ .add)
        s moves' ∧
      StepSystem.run step s moves' = some s' ∧
      s'.Idle ∧ s'.added = s.added ∧
      ∀ id < s.added, s'.executions.count id = 1 ∧
        s'.deleted.count id = 1 := by
  have hLawful : s.Lawful :=
    StepSystem.run_invariant
      (fun _ _ _ hLawful hStep => hLawful.step hStep)
      Lawful.start hRun
  have hProgress : ∀ t : RunnablePool,
      t.Lawful ∧ t.added = s.added → ¬ t.Idle →
      ∃ move t', move ≠ PoolMove.add ∧
        t.step move = some t' ∧
        (t'.Lawful ∧ t'.added = s.added) ∧
        t'.threadWork + t'.roundWork <
          t.threadWork + t.roundWork := by
    rintro t ⟨hLawful, hAdded⟩ hBusy
    by_cases hEnded : ∀ id < t.added,
        (t.threads id).stage = .ended
    · rcases hLawful.exists_collect hEnded hBusy with
        ⟨t', hStep, hSame, hThreads, hLess⟩
      have hWork : t'.threadWork = t.threadWork := by
        rw [threadWork, threadWork, hSame, hThreads]
      exact ⟨.collect, t', by simp, hStep,
        ⟨hLawful.step hStep, hSame.trans hAdded⟩, by omega⟩
    · push Not at hEnded
      rcases hEnded with ⟨id, hId, hAlive⟩
      rcases hLawful.exists_lifecycle hId hAlive with
        ⟨t', hStep, hSame, hAt, hVector, hLess, hOthers⟩
      have hWork := threadWork_lt hId hSame hLess hOthers
      have hRound : t'.roundWork = t.roundWork := by
        rw [roundWork, roundWork, hAt, hVector]
      exact ⟨.lifecycle id, t', by simp, hStep,
        ⟨hLawful.step hStep, hSame.trans hAdded⟩, by omega⟩
  rcases StepSystem.exists_run_of_decreasing
      (fun t : RunnablePool => t.threadWork + t.roundWork)
      hProgress ⟨hLawful, rfl⟩ with
    ⟨moves', s', hMoves, hRun', ⟨hLawful', hAdded⟩, hIdle⟩
  refine ⟨added_of_run hRun, moves', s', hMoves, hRun',
    hIdle, hAdded, ?_⟩
  intro id hId
  exact hLawful'.done_of_idle hIdle (hAdded ▸ hId)

/- Two runnables, one of them about to be joined. -/
theorem can_drain_in_round :
    ∃ s, StepSystem.run step start
        [.add, .lifecycle 0, .add, .collect, .collect] =
          some s ∧
      s.collector = .stopping 0 0 ∧
      s.added = List.count PoolMove.add
        [.add, .lifecycle 0, .add, .collect, .collect] ∧
      ∃ moves' s',
        StepSystem.Along step (fun _ move => move ≠ .add)
          s moves' ∧
        StepSystem.run step s moves' = some s' ∧
        s'.Idle ∧ s'.added = s.added ∧
        ∀ id < s.added, s'.executions.count id = 1 ∧
          s'.deleted.count id = 1 := by
  refine ⟨_, rfl, rfl, ?_⟩
  exact @can_drain _
    [.add, .lifecycle 0, .add, .collect, .collect] rfl

end RunnablePool

end ModemTester
