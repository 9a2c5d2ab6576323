import Mathlib.Data.List.Sublists

/-
  Readers behind a channel that keeps order and may lose.

  A reader is a state and a function `next` that tells what
  reading one item makes of it. What a reader may become
  depends on which items of the channel arrive: any sublist
  of them, in order.

  Key definitions include:
    * `Avoids`

  The rules used by clients are:
    * `avoids_of_cons`
    * `avoids_of_sublist`
    * `avoids_append`
-/

------------------------------------------------------------
-- Readers And What They May Become
------------------------------------------------------------

namespace LossyChannel

variable {σ α : Type}

/-
  Whatever the channel loses, the reader never becomes bad
  on what it holds now.
-/
def Avoids
    (next : σ → α → σ)
    (bad : σ → Prop)
    (s : σ)
    (channel : List α) : Prop :=
  ∀ kept : List α,
    kept.Sublist channel → ¬ bad (kept.foldl next s)

variable {next : σ → α → σ}
variable {bad : σ → Prop}
variable {s : σ}
variable {item : α}
variable {channel channel' more : List α}

theorem avoids_iff_forall_sublists :
    Avoids next bad s channel ↔
      ∀ kept ∈ channel.sublists,
        ¬ bad (kept.foldl next s) := by
  simp only [Avoids, List.mem_sublists]

instance
    (next : σ → α → σ)
    (bad : σ → Prop)
    [DecidablePred bad]
    (s : σ)
    (channel : List α) :
    Decidable (Avoids next bad s channel) :=
  decidable_of_iff _ avoids_iff_forall_sublists.symm

theorem exists_of_not_avoids
    (hBad : ¬ Avoids next bad s channel) :
    ∃ kept : List α, kept.Sublist channel ∧
      bad (kept.foldl next s) := by
  simpa [Avoids] using hBad

/- Losing everything leaves the reader as it is. -/
theorem not_bad_of_avoids
    (hAvoids : Avoids next bad s channel) :
    ¬ bad s :=
  hAvoids [] (List.nil_sublist channel)

theorem avoids_nil
    (hGood : ¬ bad s) :
    Avoids next bad s [] := by
  intro kept hKept
  rw [List.sublist_nil.mp hKept]
  exact hGood

/- Reading the first item. -/
theorem avoids_of_cons
    (hAvoids : Avoids next bad s (item :: channel)) :
    Avoids next bad (next s item) channel := by
  intro kept hKept
  exact hAvoids (item :: kept) (hKept.cons_cons item)

/- Losing items. -/
theorem avoids_of_sublist
    (hSublist : channel'.Sublist channel)
    (hAvoids : Avoids next bad s channel) :
    Avoids next bad s channel' := by
  intro kept hKept
  exact hAvoids kept (hKept.trans hSublist)

/- Items that never make a good reader bad. -/
theorem not_bad_foldl
    {kept : List α}
    (hKeeps : ∀ s item, item ∈ kept → ¬ bad s →
      ¬ bad (next s item))
    (hGood : ¬ bad s) :
    ¬ bad (kept.foldl next s) := by
  induction kept generalizing s with
  | nil => exact hGood
  | cons item kept ih =>
      apply ih
      · intro s' other hOther
        exact hKeeps s' other (List.mem_cons_of_mem _ hOther)
      · exact hKeeps s item List.mem_cons_self hGood

/- Writing such items. -/
theorem avoids_append
    (hAvoids : Avoids next bad s channel)
    (hKeeps : ∀ s item, item ∈ more → ¬ bad s →
      ¬ bad (next s item)) :
    Avoids next bad s (channel ++ more) := by
  intro kept hKept
  rcases List.sublist_append_iff.mp hKept with
    ⟨front, back, rfl, hFront, hBack⟩
  rw [List.foldl_append]
  apply not_bad_foldl _ (hAvoids front hFront)
  intro s' other hOther
  exact hKeeps s' other (hBack.subset hOther)

end LossyChannel
