import ModemTester.Library.StepSystem
import Mathlib.Data.List.Count
import Mathlib.Data.List.Nodup

/-
  Ledgers of resources that are acquired, used and released.

  A history of operations is legal when every resource is
  acquired once, used only while it is held, and released
  only while it is held. Legality is a run of a small step
  system, so what holds of a ledger at every moment of a
  history is a condition `Throughout` that run.

  Key definitions include:
    * `LedgerOp`
    * `Ledger.apply`
    * `Ledger.account`
    * `Ledger.Legal`
    * `Ledger.Agrees`

  The rules used by clients are:
    * `account_append`
    * `agrees_of_account`
    * `Agrees.count_release_of_not_live`
    * `settled_iff`
    * `account_use_of_released`
    * `account_release_of_released`
    * `throughout_release_all`
    * `throughout_acquire_all`
-/

------------------------------------------------------------
-- Operations
------------------------------------------------------------

inductive LedgerOp (κ : Type) where
  | acquire (key : κ)
  | use (key : κ)
  | release (key : κ)
  deriving DecidableEq, Repr

/- The resources held, and those already released. -/
structure Ledger (κ : Type) where
  live : List κ
  released : List κ
  deriving DecidableEq, Repr

namespace Ledger

variable {κ : Type} [DecidableEq κ]

def empty : Ledger κ :=
  ⟨[], []⟩

/- One operation; an illegal one is refused. -/
def apply (l : Ledger κ) : LedgerOp κ → Option (Ledger κ)
  | .acquire key =>
      if key ∉ l.live ∧ key ∉ l.released then
        some { l with live := l.live ++ [key] }
      else
        none
  | .use key =>
      if key ∈ l.live then some l else none
  | .release key =>
      if key ∈ l.live then
        some ⟨l.live.erase key, l.released ++ [key]⟩
      else
        none

/- The ledger after a history, unless it is illegal. -/
def account (ops : List (LedgerOp κ)) : Option (Ledger κ) :=
  StepSystem.run apply empty ops

def Legal (ops : List (LedgerOp κ)) : Prop :=
  (account ops).isSome = true

instance (ops : List (LedgerOp κ)) : Decidable (Legal ops) :=
  inferInstanceAs (Decidable (_ = true))

theorem legal_of_account
    {ops : List (LedgerOp κ)}
    {l : Ledger κ}
    (hAccount : account ops = some l) :
    Legal ops := by
  simp [Legal, hAccount]

/- The rest of a history goes on from the ledger so far. -/
theorem account_append
    {ops : List (LedgerOp κ)}
    {l : Ledger κ}
    (hAccount : account ops = some l)
    (more : List (LedgerOp κ)) :
    account (ops ++ more) = StepSystem.run apply l more :=
  StepSystem.run_append hAccount

------------------------------------------------------------
-- What A Ledger Says About Its History
------------------------------------------------------------

/-
  A resource is acquired in the history when it is held or
  has been released, never twice, and the released ones are
  those the history releases.
-/
structure Agrees
    (l : Ledger κ)
    (ops : List (LedgerOp κ)) : Prop where
  nodup : (l.live ++ l.released).Nodup
  acquired : ∀ key, .acquire key ∈ ops ↔
    key ∈ l.live ∨ key ∈ l.released
  count_release : ∀ key,
    ops.count (.release key) = l.released.count key

theorem Agrees.apply
    {l l' : Ledger κ}
    {ops : List (LedgerOp κ)}
    {op : LedgerOp κ}
    (hAgrees : l.Agrees ops)
    (hApply : l.apply op = some l') :
    l'.Agrees (ops ++ [op]) := by
  have hNodup := List.nodup_append.mp hAgrees.nodup
  cases op with
  | acquire key =>
      simp only [Ledger.apply] at hApply
      split at hApply
      · rename_i hFresh
        cases hApply
        refine ⟨?_, ?_, ?_⟩
        · rw [List.append_assoc, List.singleton_append,
            List.nodup_middle, List.nodup_cons]
          exact ⟨by simp [hFresh], hAgrees.nodup⟩
        · intro other
          simp only [List.mem_append, List.mem_singleton,
            LedgerOp.acquire.injEq, hAgrees.acquired other]
          tauto
        · intro other
          rw [List.count_append, hAgrees.count_release other]
          simp
      · cases hApply
  | use key =>
      simp only [Ledger.apply] at hApply
      split at hApply
      · cases hApply
        refine ⟨hAgrees.nodup, ?_, ?_⟩
        · intro other
          simp [hAgrees.acquired other]
        · intro other
          rw [List.count_append, hAgrees.count_release other]
          simp
      · cases hApply
  | release key =>
      simp only [Ledger.apply] at hApply
      split at hApply
      · rename_i hLive
        cases hApply
        refine ⟨?_, ?_, ?_⟩
        · have hPerm : (l.live.erase key ++
              (l.released ++ [key])).Perm
                (l.live ++ l.released) := by
            rw [← List.append_assoc]
            refine List.perm_append_singleton _ _ |>.trans ?_
            rw [← List.cons_append]
            exact (List.perm_cons_erase hLive).symm.append_right
              _
          exact hPerm.nodup_iff.mpr hAgrees.nodup
        · intro other
          simp only [List.mem_append, List.mem_singleton,
            reduceCtorEq, or_false, hAgrees.acquired other]
          by_cases hSame : other = key
          · simp [hSame, hLive]
          · rw [List.mem_erase_of_ne hSame]
            simp [hSame]
        · intro other
          rw [List.count_append, List.count_append,
            hAgrees.count_release other]
          by_cases hSame : other = key
          · simp [hSame]
          · have hNe : key ≠ other := fun hEq => hSame hEq.symm
            simp [hNe]
      · cases hApply

theorem Agrees.run
    {l l' : Ledger κ}
    {ops more : List (LedgerOp κ)}
    (hAgrees : l.Agrees ops)
    (hRun : StepSystem.run Ledger.apply l more = some l') :
    l'.Agrees (ops ++ more) := by
  induction more generalizing l ops with
  | nil =>
      cases hRun
      rwa [List.append_nil]
  | cons op more ih =>
      rcases StepSystem.exists_step_of_run_cons hRun with
        ⟨after, hApply, hRest⟩
      have hNext := ih (hAgrees.apply hApply) hRest
      rwa [List.append_assoc] at hNext

theorem agrees_of_account
    {ops : List (LedgerOp κ)}
    {l : Ledger κ}
    (hAccount : account ops = some l) :
    l.Agrees ops := by
  have hEmpty : (empty : Ledger κ).Agrees [] :=
    ⟨by simp [empty], by simp [empty], by simp [empty]⟩
  exact hEmpty.run hAccount

/- What is no longer held was released exactly once. -/
theorem Agrees.count_release_of_not_live
    {l : Ledger κ}
    {ops : List (LedgerOp κ)}
    {key : κ}
    (hAgrees : l.Agrees ops)
    (hAcquired : .acquire key ∈ ops)
    (hNot : key ∉ l.live) :
    ops.count (.release key) = 1 := by
  have hReleased : key ∈ l.released :=
    ((hAgrees.acquired key).mp hAcquired).resolve_left hNot
  rw [hAgrees.count_release key]
  exact List.count_eq_one_of_mem
    (List.nodup_append.mp hAgrees.nodup).2.1 hReleased

/- What was released is not held. -/
theorem Agrees.not_live_of_release
    {l : Ledger κ}
    {ops : List (LedgerOp κ)}
    {key : κ}
    (hAgrees : l.Agrees ops)
    (hRelease : .release key ∈ ops) :
    key ∉ l.live := by
  intro hLive
  have hCount := List.count_pos_iff.mpr hRelease
  rw [hAgrees.count_release key] at hCount
  exact (List.nodup_append.mp hAgrees.nodup).2.2 key hLive key
    (List.count_pos_iff.mp hCount) rfl

/-
  Nothing is left exactly when all was released once and
  nothing done to what was gone.
-/
theorem settled_iff
    {ops : List (LedgerOp κ)} :
    (∃ released, account ops = some ⟨[], released⟩) ↔
      Legal ops ∧ ∀ key, .acquire key ∈ ops →
        ops.count (.release key) = 1 := by
  constructor
  · rintro ⟨released, hAccount⟩
    refine ⟨legal_of_account hAccount, ?_⟩
    intro key hAcquired
    exact (agrees_of_account hAccount).count_release_of_not_live
      hAcquired List.not_mem_nil
  · rintro ⟨hLegal, hOnce⟩
    rcases Option.isSome_iff_exists.mp hLegal with
      ⟨⟨live, released⟩, hAccount⟩
    have hAgrees := agrees_of_account hAccount
    cases live with
    | nil => exact ⟨released, hAccount⟩
    | cons key live =>
        have hCount := hOnce key
          ((hAgrees.acquired key).mpr
            (.inl List.mem_cons_self))
        have hRelease : .release key ∈ ops :=
          List.count_pos_iff.mp (by omega)
        exact absurd List.mem_cons_self
          (hAgrees.not_live_of_release hRelease)

/- A history stays illegal. -/
theorem account_append_of_none
    {ops : List (LedgerOp κ)}
    (hIllegal : account ops = none)
    (more : List (LedgerOp κ)) :
    account (ops ++ more) = none :=
  StepSystem.run_append_of_none hIllegal

/- Nothing may be done to what was released. -/
theorem account_use_of_released
    {ops more : List (LedgerOp κ)}
    {key : κ}
    (hRelease : .release key ∈ ops) :
    account (ops ++ .use key :: more) = none := by
  cases hAccount : account ops with
  | none => exact account_append_of_none hAccount _
  | some l =>
      have hNot := (agrees_of_account hAccount).not_live_of_release
        hRelease
      rw [account_append hAccount]
      simp [StepSystem.run, apply, hNot]

theorem account_release_of_released
    {ops more : List (LedgerOp κ)}
    {key : κ}
    (hRelease : .release key ∈ ops) :
    account (ops ++ .release key :: more) = none := by
  cases hAccount : account ops with
  | none => exact account_append_of_none hAccount _
  | some l =>
      have hNot := (agrees_of_account hAccount).not_live_of_release
        hRelease
      rw [account_append hAccount]
      simp [StepSystem.run, apply, hNot]

------------------------------------------------------------
-- Releasing And Acquiring Many
------------------------------------------------------------

variable {P : Ledger κ → Prop}

/- All that is held is released, one after the other. -/
theorem throughout_release_all
    {live released : List κ}
    (hHolds : ∀ front back, live = front ++ back →
      P ⟨back, released ++ front⟩) :
    StepSystem.run apply ⟨live, released⟩
        (live.flatMap fun key => [.use key, .release key]) =
          some ⟨[], released ++ live⟩ ∧
      StepSystem.Throughout apply P ⟨live, released⟩
        (live.flatMap fun key =>
          [.use key, .release key]) := by
  induction live generalizing released with
  | nil =>
      refine ⟨by simp, ?_⟩
      simpa [StepSystem.Throughout] using hHolds [] [] rfl
  | cons key live ih =>
      have hUse : apply ⟨key :: live, released⟩ (.use key) =
          some ⟨key :: live, released⟩ := by
        simp [apply]
      have hRelease :
          apply ⟨key :: live, released⟩ (.release key) =
            some ⟨live, released ++ [key]⟩ := by
        simp [apply]
      have hRest := @ih (released ++ [key])
        (by
          intro front back hSplit
          have hNext := hHolds (key :: front) back
            (by rw [hSplit, List.cons_append])
          rwa [List.append_assoc, List.singleton_append])
      have hNow : P ⟨key :: live, released⟩ := by
        simpa using hHolds [] (key :: live) rfl
      rw [List.flatMap_cons, List.cons_append,
        List.cons_append, List.nil_append,
        StepSystem.run_cons_of_step hUse,
        StepSystem.run_cons_of_step hRelease,
        StepSystem.throughout_cons_of_step hUse,
        StepSystem.throughout_cons_of_step hRelease]
      refine ⟨?_, hNow, hNow, hRest.2⟩
      rw [hRest.1, List.append_assoc, List.singleton_append]

/- New resources are acquired and used at once. -/
theorem throughout_acquire_all
    {keys live released : List κ}
    (hNodup : keys.Nodup)
    (hFresh : ∀ key ∈ keys, key ∉ live ∧ key ∉ released)
    (hHolds : ∀ front back, keys = front ++ back →
      P ⟨live ++ front, released⟩) :
    StepSystem.run apply ⟨live, released⟩
        (keys.flatMap fun key =>
          [.acquire key, .use key, .use key]) =
          some ⟨live ++ keys, released⟩ ∧
      StepSystem.Throughout apply P ⟨live, released⟩
        (keys.flatMap fun key =>
          [.acquire key, .use key, .use key]) := by
  induction keys generalizing live with
  | nil =>
      refine ⟨by simp, ?_⟩
      simpa [StepSystem.Throughout] using hHolds [] [] rfl
  | cons key keys ih =>
      have hKey := hFresh key List.mem_cons_self
      have hAcquire : apply ⟨live, released⟩ (.acquire key) =
          some ⟨live ++ [key], released⟩ := by
        simp [apply, hKey]
      have hUse : apply ⟨live ++ [key], released⟩ (.use key) =
          some ⟨live ++ [key], released⟩ := by
        simp [apply]
      rw [List.nodup_cons] at hNodup
      have hRest := @ih (live ++ [key]) hNodup.2
        (by
          intro other hOther
          have hOld := hFresh other
            (List.mem_cons_of_mem key hOther)
          refine ⟨?_, hOld.2⟩
          intro hMem
          rcases List.mem_append.mp hMem with hLive | hSame
          · exact hOld.1 hLive
          · rw [List.mem_singleton.mp hSame] at hOther
            exact hNodup.1 hOther)
        (by
          intro front back hSplit
          have hNext := hHolds (key :: front) back
            (by rw [hSplit, List.cons_append])
          rwa [List.append_assoc, List.singleton_append])
      have hNow : P ⟨live, released⟩ := by
        simpa using hHolds [] (key :: keys) rfl
      have hThen : P ⟨live ++ [key], released⟩ :=
        hHolds [key] keys rfl
      rw [List.flatMap_cons, List.cons_append,
        List.cons_append, List.cons_append, List.nil_append,
        StepSystem.run_cons_of_step hAcquire,
        StepSystem.run_cons_of_step hUse,
        StepSystem.run_cons_of_step hUse,
        StepSystem.throughout_cons_of_step hAcquire,
        StepSystem.throughout_cons_of_step hUse,
        StepSystem.throughout_cons_of_step hUse]
      refine ⟨?_, hNow, hThen, hThen, hRest.2⟩
      rw [hRest.1, List.append_assoc, List.singleton_append]

end Ledger
