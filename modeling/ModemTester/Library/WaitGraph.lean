import Mathlib.Logic.Relation

/-
  Graphs of parties of which each waits for at most one
  other.

  The graph is the function `awaits`, from a party to the
  one it waits for. A cycle of parties each waiting for the
  next is a party that waits, through others, for itself.

  Key definitions include:
    * `WaitGraph.Awaits`
    * `WaitGraph.Cyclic`

  The rules used by clients are:
    * `WaitGraph.not_cyclic_of_rank`
    * `WaitGraph.cyclic_of_self`
    * `WaitGraph.cyclic_of_triangle`
-/

------------------------------------------------------------
-- Cycles
------------------------------------------------------------

namespace WaitGraph

variable {π : Type}
variable {awaits : π → Option π}
variable {p q r : π}

def Awaits (awaits : π → Option π) (p q : π) : Prop :=
  awaits p = some q

def Cyclic (awaits : π → Option π) : Prop :=
  ∃ p, Relation.TransGen (Awaits awaits) p p

/-
  A rank that falls along the graph. Along any path it falls
  too, so that no path returns.
-/
theorem not_cyclic_of_rank
    (rank : π → Nat)
    (hFalls : ∀ p q, awaits p = some q → rank q < rank p) :
    ¬ Cyclic awaits := by
  have hPath : ∀ p q, Relation.TransGen (Awaits awaits) p q →
      rank q < rank p := by
    intro p q hPath
    induction hPath with
    | single hEdge => exact hFalls _ _ hEdge
    | tail _ hEdge ih => exact Nat.lt_trans (hFalls _ _ hEdge) ih
  rintro ⟨p, hCycle⟩
  exact Nat.lt_irrefl _ (hPath p p hCycle)

theorem cyclic_of_self (hSelf : awaits p = some p) :
    Cyclic awaits :=
  ⟨p, .single hSelf⟩

theorem cyclic_of_triangle
    (hFirst : awaits p = some q)
    (hSecond : awaits q = some r)
    (hThird : awaits r = some p) :
    Cyclic awaits :=
  ⟨p, .tail (.tail (.single hFirst) hSecond) hThird⟩

end WaitGraph
