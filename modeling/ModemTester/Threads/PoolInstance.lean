import Mathlib.Logic.Function.Basic
import ModemTester.Library.StepSystem

/-
  The one pool there should be (`RunnablePool::getInstance`).

  The scripts, the controller and the thread of a throughput
  test all ask for the pool, and `getInstance` holds no lock
  while it compares `_instance` with null, constructs a pool,
  assigns it, and reads `_instance` again to return it. A
  caller that finds null while another one is between its
  comparison and its assignment makes a second pool, with a
  collector and a lock of its own. This is the only way.

  Pools are numbered as they are constructed.

  Key definitions include:
    * `PoolInstance`
    * `PoolInstance.step`
    * `PoolInstance.Exclusive`

  Main declarations:
    * `PoolInstance.made_once_iff`
-/

------------------------------------------------------------
-- Getting The Instance
------------------------------------------------------------

namespace ModemTester

/- Where a thread is in its call of `getInstance`. -/
inductive CallerPoint where
  | outside
  | foundNull
  | constructed (pool : Nat)
  | returning
  deriving DecidableEq, Repr

/- `current` is `_instance`. -/
structure PoolInstance (ι : Type) where
  current : Option Nat
  pools : Nat
  point : ι → CallerPoint
  returned : List (Option Nat)

inductive InstanceLabel (ι : Type) where
  | compare (caller : ι)
  | construct (caller : ι)
  | assign (caller : ι)
  | leave (caller : ι)
  deriving DecidableEq, Repr

namespace PoolInstance

variable {ι : Type} [DecidableEq ι]

def start : PoolInstance ι where
  current := none
  pools := 0
  point := fun _ => .outside
  returned := []

def moveTo
    (s : PoolInstance ι)
    (caller : ι)
    (point : CallerPoint) : PoolInstance ι :=
  { s with point := Function.update s.point caller point }

def step (s : PoolInstance ι) :
    InstanceLabel ι → Option (PoolInstance ι)
  | .compare caller =>
      if s.point caller = .outside then
        match s.current with
        | none => some (s.moveTo caller .foundNull)
        | some _ => some (s.moveTo caller .returning)
      else
        none
  | .construct caller =>
      if s.point caller = .foundNull then
        some
          { s.moveTo caller (.constructed s.pools) with
            pools := s.pools + 1 }
      else
        none
  | .assign caller =>
      match s.point caller with
      | .constructed pool =>
          some
            { s.moveTo caller .returning with
              current := some pool }
      | _ => none
  | .leave caller =>
      if s.point caller = .returning then
        some
          { s.moveTo caller .outside with
            returned := s.returned ++ [s.current] }
      else
        none

/- Between the comparison that found null and the assignment. -/
def Inside (s : PoolInstance ι) (caller : ι) : Prop :=
  s.point caller = .foundNull ∨
    ∃ pool, s.point caller = .constructed pool

/- Nobody finds null while somebody is making the pool. -/
def Exclusive (s : PoolInstance ι) : InstanceLabel ι → Prop
  | .compare _ => s.current = none → ∀ other, ¬ s.Inside other
  | _ => True

variable {s s' : PoolInstance ι}
variable {label : InstanceLabel ι}

/- The steps, one constructor for each way to move. -/
inductive Moves (s : PoolInstance ι) :
    InstanceLabel ι → PoolInstance ι → Prop where
  | findNull
      {caller : ι}
      (hPoint : s.point caller = .outside)
      (hNull : s.current = none) :
      Moves s (.compare caller) (s.moveTo caller .foundNull)
  | findPool
      {caller : ι}
      {pool : Nat}
      (hPoint : s.point caller = .outside)
      (hPool : s.current = some pool) :
      Moves s (.compare caller) (s.moveTo caller .returning)
  | construct
      {caller : ι}
      (hPoint : s.point caller = .foundNull) :
      Moves s (.construct caller)
        { s.moveTo caller (.constructed s.pools) with
          pools := s.pools + 1 }
  | assign
      {caller : ι}
      {pool : Nat}
      (hPoint : s.point caller = .constructed pool) :
      Moves s (.assign caller)
        { s.moveTo caller .returning with
          current := some pool }
  | leave
      {caller : ι}
      (hPoint : s.point caller = .returning) :
      Moves s (.leave caller)
        { s.moveTo caller .outside with
          returned := s.returned ++ [s.current] }

theorem moves_of_step
    (hStep : step s label = some s') :
    Moves s label s' := by
  cases label with
  | compare caller =>
      simp only [step] at hStep
      split at hStep
      · rename_i hPoint
        split at hStep
        · rename_i hNull
          cases hStep
          exact .findNull hPoint hNull
        · rename_i pool hPool
          cases hStep
          exact .findPool hPoint hPool
      · cases hStep
  | construct caller =>
      simp only [step] at hStep
      split at hStep
      · rename_i hPoint
        cases hStep
        exact .construct hPoint
      · cases hStep
  | assign caller =>
      simp only [step] at hStep
      split at hStep
      · rename_i pool hPoint
        cases hStep
        exact .assign hPoint
      · cases hStep
  | leave caller =>
      simp only [step] at hStep
      split at hStep
      · rename_i hPoint
        cases hStep
        exact .leave hPoint
      · cases hStep

@[simp] theorem moveTo_pools
    (caller : ι)
    (point : CallerPoint) :
    (s.moveTo caller point).pools = s.pools := rfl

@[simp] theorem moveTo_point_self
    (caller : ι)
    (point : CallerPoint) :
    (s.moveTo caller point).point caller = point :=
  Function.update_self ..

theorem moveTo_point_of_ne
    {caller other : ι}
    (point : CallerPoint)
    (hOther : other ≠ caller) :
    (s.moveTo caller point).point other = s.point other :=
  Function.update_of_ne hOther ..

/- A caller is where it was, unless it has moved. -/
theorem point_moveTo
    {caller other : ι}
    {point there : CallerPoint}
    (hThere : (s.moveTo caller point).point other = there) :
    other = caller ∧ point = there ∨
      other ≠ caller ∧ s.point other = there := by
  by_cases hSame : other = caller
  · subst hSame
    rw [moveTo_point_self] at hThere
    exact .inl ⟨rfl, hThere⟩
  · rw [moveTo_point_of_ne point hSame] at hThere
    exact .inr ⟨hSame, hThere⟩

------------------------------------------------------------
-- What Is Returned
------------------------------------------------------------

/- Every number of a pool is one of a pool that was made. -/
structure Known (s : PoolInstance ι) : Prop where
  constructed : ∀ caller pool,
    s.point caller = .constructed pool → pool < s.pools
  current : ∀ pool, s.current = some pool → pool < s.pools
  returning : ∀ caller,
    s.point caller = .returning → s.current ≠ none
  returned : ∀ answer ∈ s.returned,
    ∃ pool, answer = some pool ∧ pool < s.pools

omit [DecidableEq ι] in
theorem known_start : Known (start : PoolInstance ι) := by
  constructor <;> simp [start]

/- A caller that moves on without a pool of its own. -/
theorem Known.moveTo
    {caller : ι}
    {point : CallerPoint}
    (hKnown : Known s)
    (hPoint : ∀ pool, point ≠ .constructed pool)
    (hCurrent : point = .returning → s.current ≠ none) :
    Known (s.moveTo caller point) := by
  refine ⟨?_, hKnown.current, ?_, hKnown.returned⟩
  · intro other pool hThere
    rcases point_moveTo hThere with ⟨-, hNew⟩ | ⟨-, hOld⟩
    · exact absurd hNew (hPoint pool)
    · exact hKnown.constructed other pool hOld
  · intro other hThere
    rcases point_moveTo hThere with ⟨-, hNew⟩ | ⟨-, hOld⟩
    · exact hCurrent hNew
    · exact hKnown.returning other hOld

theorem Known.step
    (hKnown : Known s)
    (hStep : PoolInstance.step s label = some s') :
    Known s' := by
  cases moves_of_step hStep with
  | findNull hPoint hNull =>
      exact hKnown.moveTo (by simp) (by simp)
  | findPool hPoint hPool =>
      exact hKnown.moveTo (by simp) (by simp [hPool])
  | construct hPoint =>
      refine ⟨?_, ?_, ?_, ?_⟩
      · intro other pool hThere
        rcases point_moveTo hThere with
          ⟨-, hNew⟩ | ⟨-, hOld⟩
        · cases hNew
          exact Nat.lt_succ_self _
        · exact Nat.lt_succ_of_lt
            (hKnown.constructed other pool hOld)
      · intro pool hPool
        exact Nat.lt_succ_of_lt (hKnown.current pool hPool)
      · intro other hThere
        rcases point_moveTo hThere with
          ⟨-, hNew⟩ | ⟨-, hOld⟩
        · cases hNew
        · exact hKnown.returning other hOld
      · intro answer hAnswer
        rcases hKnown.returned answer hAnswer with
          ⟨pool, hPool, hLess⟩
        exact ⟨pool, hPool, Nat.lt_succ_of_lt hLess⟩
  | @assign caller pool hPoint =>
      refine ⟨?_, ?_, by simp, hKnown.returned⟩
      · intro other pool' hThere
        rcases point_moveTo hThere with
          ⟨-, hNew⟩ | ⟨-, hOld⟩
        · cases hNew
        · exact hKnown.constructed other pool' hOld
      · rintro pool' ⟨⟩
        exact hKnown.constructed caller pool hPoint
  | @leave caller hPoint =>
      have hNext : Known (s.moveTo caller .outside) :=
        hKnown.moveTo (by simp) (by simp)
      refine ⟨hNext.constructed, hNext.current,
        hNext.returning, ?_⟩
      intro answer hAnswer
      rcases List.mem_append.mp hAnswer with hOld | hNew
      · exact hKnown.returned answer hOld
      · rcases Option.ne_none_iff_exists'.mp
          (hKnown.returning caller hPoint) with ⟨pool, hPool⟩
        rw [List.mem_singleton.mp hNew]
        exact ⟨pool, hPool, hKnown.current pool hPool⟩

------------------------------------------------------------
-- One Pool
------------------------------------------------------------

/- One caller at most makes a pool, and there is no other. -/
structure Single (s : PoolInstance ι) : Prop where
  pools : s.pools ≤ 1
  alone : ∀ caller other,
    s.Inside caller → s.Inside other → caller = other
  foundNull : ∀ caller,
    s.point caller = .foundNull → s.pools = 0
  unassigned : s.current = none → s.pools = 1 →
    ∃ caller pool, s.point caller = .constructed pool

omit [DecidableEq ι] in
theorem single_start : Single (start : PoolInstance ι) := by
  constructor <;> simp [start, Inside]

/- A caller is inside as it was, unless it has moved. -/
theorem inside_moveTo
    {caller other : ι}
    {point : CallerPoint}
    (hInside : (s.moveTo caller point).Inside other) :
    other = caller ∧
        (point = .foundNull ∨ ∃ pool, point = .constructed pool) ∨
      other ≠ caller ∧ s.Inside other := by
  rcases hInside with hNull | ⟨pool, hMade⟩
  · rcases point_moveTo hNull with
      ⟨hSame, hNew⟩ | ⟨hOther, hOld⟩
    · exact .inl ⟨hSame, .inl hNew⟩
    · exact .inr ⟨hOther, .inl hOld⟩
  · rcases point_moveTo hMade with
      ⟨hSame, hNew⟩ | ⟨hOther, hOld⟩
    · exact .inl ⟨hSame, .inr ⟨pool, hNew⟩⟩
    · exact .inr ⟨hOther, .inr ⟨pool, hOld⟩⟩

/- Coming and going makes no pool. -/
theorem Single.moveTo_outside
    {caller : ι}
    {point : CallerPoint}
    (hSingle : Single s)
    (hWas : ¬ s.Inside caller)
    (hPoint : point = .outside ∨ point = .returning) :
    Single (s.moveTo caller point) := by
  have hOld : ∀ other, (s.moveTo caller point).Inside other →
      s.Inside other := by
    intro other hOther
    rcases inside_moveTo hOther with
      ⟨-, rfl | ⟨pool, rfl⟩⟩ | ⟨-, hInside⟩
    · rcases hPoint with hEmpty | hEmpty <;> cases hEmpty
    · rcases hPoint with hEmpty | hEmpty <;> cases hEmpty
    · exact hInside
  refine ⟨hSingle.pools, ?_, ?_, ?_⟩
  · intro other third hOther hThird
    exact hSingle.alone other third (hOld other hOther)
      (hOld third hThird)
  · intro other hThere
    rcases point_moveTo hThere with
      ⟨-, rfl⟩ | ⟨-, hBefore⟩
    · rcases hPoint with hEmpty | hEmpty <;> cases hEmpty
    · exact hSingle.foundNull other hBefore
  · intro hNull hOne
    rcases hSingle.unassigned hNull hOne with
      ⟨other, pool, hMade⟩
    refine ⟨other, pool, ?_⟩
    rw [moveTo_point_of_ne point, hMade]
    rintro rfl
    exact hWas (.inr ⟨pool, hMade⟩)

theorem Single.step
    (hSingle : Single s)
    (hExclusive : s.Exclusive label)
    (hStep : PoolInstance.step s label = some s') :
    Single s' := by
  have hWhole := hSingle
  rcases hSingle with
    ⟨hPools, hAlone, hFoundNull, hUnassigned⟩
  cases moves_of_step hStep with
  | @findNull caller hPoint hNull =>
      have hNobody := hExclusive hNull
      have hNone : s.pools = 0 := by
        by_contra hSome
        rcases hUnassigned hNull (by omega) with
          ⟨other, pool, hMade⟩
        exact hNobody other (.inr ⟨pool, hMade⟩)
      refine ⟨hPools, ?_, fun _ _ => hNone, ?_⟩
      · intro other third hOther hThird
        rcases inside_moveTo hOther with
          ⟨rfl, -⟩ | ⟨-, hOld⟩
        · rcases inside_moveTo hThird with
            ⟨rfl, -⟩ | ⟨-, hOld⟩
          · rfl
          · exact absurd hOld (hNobody third)
        · exact absurd hOld (hNobody other)
      · intro _ hOne
        rw [moveTo_pools, hNone] at hOne
        cases hOne
  | @findPool caller pool hPoint hPool =>
      exact hWhole.moveTo_outside (by simp [Inside, hPoint])
        (.inr rfl)
  | @construct caller hPoint =>
      have hNone := hFoundNull caller hPoint
      have hInside : s.Inside caller := .inl hPoint
      have hOnly : ∀ other,
          ({ s.moveTo caller (.constructed s.pools) with
            pools := s.pools + 1 } :
              PoolInstance ι).Inside other →
          other = caller := by
        intro other hOther
        rcases inside_moveTo (s := s) hOther with
          ⟨hSame, -⟩ | ⟨-, hOld⟩
        · exact hSame
        · exact hAlone other caller hOld hInside
      refine ⟨?_, ?_, ?_, ?_⟩
      · simp only [hNone]
        omega
      · intro other third hOther hThird
        rw [hOnly other hOther, hOnly third hThird]
      · intro other hThere
        rcases point_moveTo hThere with
          ⟨-, hNew⟩ | ⟨hOther, hOld⟩
        · cases hNew
        · exact absurd (hAlone other caller (.inl hOld)
            hInside) hOther
      · intro _ _
        exact ⟨caller, s.pools, moveTo_point_self ..⟩
  | @assign caller pool hPoint =>
      have hInside : s.Inside caller := .inr ⟨pool, hPoint⟩
      have hNobody : ∀ other,
          ¬ (s.moveTo caller .returning).Inside other := by
        intro other hOther
        rcases inside_moveTo hOther with
          ⟨-, hNull | ⟨_, hMade⟩⟩ | ⟨hNot, hOld⟩
        · cases hNull
        · cases hMade
        · exact hNot (hAlone other caller hOld hInside)
      refine ⟨hPools, ?_, ?_, by simp⟩
      · intro other third hOther
        exact absurd hOther (hNobody other)
      · intro other hThere
        exact absurd (.inl hThere) (hNobody other)
  | @leave caller hPoint =>
      have hNext : Single (s.moveTo caller .outside) :=
        hWhole.moveTo_outside (by simp [Inside, hPoint])
          (.inl rfl)
      exact ⟨hNext.pools, hNext.alone, hNext.foundNull,
        hNext.unassigned⟩

/- A second pool was made, or is about to be. -/
def Doubled (s : PoolInstance ι) : Prop :=
  2 ≤ s.pools ∨
    (1 ≤ s.pools ∧ ∃ caller, s.point caller = .foundNull) ∨
    ∃ caller other, caller ≠ other ∧
      s.point caller = .foundNull ∧
      s.point other = .foundNull

/- Finding null while somebody is inside leads there. -/
theorem doubled_of_not_exclusive
    (hKnown : Known s)
    (hNot : ¬ s.Exclusive label)
    (hStep : step s label = some s') :
    Doubled s' := by
  cases moves_of_step hStep with
  | @findNull caller hPoint hNull =>
      simp only [Exclusive, not_forall, not_not] at hNot
      rcases hNot with ⟨-, other, hInside⟩
      have hOther : other ≠ caller := by
        rintro rfl
        simp [Inside, hPoint] at hInside
      rcases hInside with hFound | ⟨pool, hMade⟩
      · refine .inr (.inr ⟨caller, other, hOther.symm,
          moveTo_point_self .., ?_⟩)
        rw [moveTo_point_of_ne _ hOther, hFound]
      · exact .inr (.inl
          ⟨Nat.one_le_of_lt (hKnown.constructed other pool hMade),
            caller, moveTo_point_self ..⟩)
  | findPool hPoint hPool =>
      exact absurd (fun hNull => by
        rw [hPool] at hNull
        cases hNull) hNot
  | construct | assign | leave => exact absurd trivial hNot

/- Who has found null goes on to make a pool. -/
theorem foundNull_of_moves
    {caller : ι}
    (hMoves : Moves s label s')
    (hFound : s.point caller = .foundNull) :
    s'.point caller = .foundNull ∧ s.pools ≤ s'.pools ∨
      s'.pools = s.pools + 1 ∧
        ∀ other, other ≠ caller →
          s'.point other = s.point other := by
  cases hMoves with
  | @construct mover hPoint =>
      by_cases hSame : caller = mover
      · subst hSame
        exact .inr ⟨rfl, fun other hOther =>
          moveTo_point_of_ne _ hOther⟩
      · refine .inl ⟨?_, Nat.le_succ _⟩
        exact (moveTo_point_of_ne _ hSame).trans hFound
  | @findNull mover hPoint | @findPool mover pool hPoint
  | @assign mover pool hPoint | @leave mover hPoint =>
      have hOther : caller ≠ mover := by
        rintro rfl
        rw [hFound] at hPoint
        cases hPoint
      refine .inl ⟨?_, Nat.le_refl _⟩
      exact (moveTo_point_of_ne _ hOther).trans hFound

theorem pools_le_of_moves
    (hMoves : Moves s label s') :
    s.pools ≤ s'.pools := by
  cases hMoves with
  | construct => exact Nat.le_succ _
  | findNull | findPool | assign | leave => exact Nat.le_refl _

theorem Doubled.step
    (hDoubled : Doubled s)
    (hStep : PoolInstance.step s label = some s') :
    Doubled s' := by
  have hMoves := moves_of_step hStep
  have hPools := pools_le_of_moves hMoves
  rcases hDoubled with hTwo | ⟨hOne, caller, hFound⟩ |
    ⟨caller, other, hNot, hFound, hFound'⟩
  · exact .inl (Nat.le_trans hTwo hPools)
  · rcases foundNull_of_moves hMoves hFound with
      ⟨hStill, -⟩ | ⟨hMade, -⟩
    · exact .inr (.inl ⟨Nat.le_trans hOne hPools, caller,
        hStill⟩)
    · exact .inl (by omega)
  · rcases foundNull_of_moves hMoves hFound with
      ⟨hStill, -⟩ | ⟨hMade, hOthers⟩
    · rcases foundNull_of_moves hMoves hFound' with
        ⟨hStill', -⟩ | ⟨hMade, -⟩
      · exact .inr (.inr ⟨caller, other, hNot, hStill,
          hStill'⟩)
      · exact .inr (.inl ⟨by omega, caller, hStill⟩)
    · refine .inr (.inl ⟨by omega, other, ?_⟩)
      rw [hOthers other hNot.symm, hFound']

/-
  At any moment at which nobody has just found null: there is
  at most one pool if and only if nobody found null while
  somebody else was making it. What is returned is never
  null, and always the number of a pool that was made, so
  that with one pool all callers have the same.
-/
theorem made_once_iff
    {labels : List (InstanceLabel ι)}
    (hRun : StepSystem.run step start labels = some s)
    (hSettled : ∀ caller, s.point caller ≠ .foundNull) :
    (s.pools ≤ 1 ↔
        StepSystem.Along step Exclusive start labels) ∧
      ∀ answer ∈ s.returned,
        ∃ pool, answer = some pool ∧ pool < s.pools := by
  have hKnown : Known s :=
    StepSystem.run_invariant
      (fun _ _ _ hKnown hStep => hKnown.step hStep)
      known_start hRun
  refine ⟨⟨?_, ?_⟩, hKnown.returned⟩
  · intro hOne
    refine StepSystem.along_of_run (D := Doubled)
      (fun _ _ _ hKnown _ hStep => hKnown.step hStep)
      (fun _ _ _ hKnown hNot hStep =>
        doubled_of_not_exclusive hKnown hNot hStep)
      (fun _ _ _ hDoubled hStep => hDoubled.step hStep)
      known_start hRun ?_
    rintro (hTwo | ⟨-, caller, hFound⟩ |
      ⟨caller, -, -, hFound, -⟩)
    · omega
    · exact hSettled caller hFound
    · exact hSettled caller hFound
  · intro hExclusive
    have hSingle : Single s :=
      StepSystem.run_invariant_along
        (fun _ _ _ hSingle hOk hStep => hSingle.step hOk hStep)
        single_start hExclusive hRun
    exact hSingle.pools

/- Two threads find null; both return the second pool. -/
theorem made_once_iff_of_race :
    ∃ s : PoolInstance Bool,
      StepSystem.run step start
        [.compare true, .compare false, .construct true,
          .assign true, .construct false, .assign false,
          .leave true, .leave false] = some s ∧
      s.pools = 2 ∧
      s.returned = [some 1, some 1] ∧
      (s.pools ≤ 1 ↔
        StepSystem.Along step Exclusive start
          [.compare true, .compare false, .construct true,
            .assign true, .construct false, .assign false,
            .leave true, .leave false]) := by
  refine ⟨_, rfl, rfl, rfl, ?_⟩
  exact (@made_once_iff Bool _ _
    [.compare true, .compare false, .construct true,
      .assign true, .construct false, .assign false,
      .leave true, .leave false] rfl (by decide)).1

end PoolInstance

end ModemTester
