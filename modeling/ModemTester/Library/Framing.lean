import Mathlib.Data.List.Basic

/-
  Streams that carry frames among single items.

  An item may be tagged as item `i` of frame `k`. In a
  framed stream every such item is followed by the rest of
  its frame, so that a reader who starts at the first item
  of a frame reads that frame. A stream whose first frames
  have been read in part is framed as well.

  Key definitions include:
    * `Framing`
    * `Framing.Framed`

  The rules used by clients are:
    * `Framing.framed_append`
    * `Framing.framed_frame`
    * `Framing.framed_mono`
    * `Framing.take_of_framed`
-/

------------------------------------------------------------
-- Framed Streams
------------------------------------------------------------

namespace ModemTester

/- How items are tagged, and what the frames are. -/
structure Framing (α κ : Type) where
  tag : α → Option (κ × Nat)
  frame : κ → Option (List α)

namespace Framing

variable {α κ : Type}
variable {F : Framing α κ}
variable {front back frame : List α}
variable {item : α}
variable {k : κ}

def Framed (F : Framing α κ) : List α → Prop
  | [] => True
  | item :: rest =>
      (∀ k i, F.tag item = some (k, i) →
        ∃ frame, F.frame k = some frame ∧
          frame.drop i <+: item :: rest) ∧
        F.Framed rest

@[simp] theorem framed_nil : F.Framed [] := trivial

/- What is left of a framed stream is framed. -/
theorem framed_of_append
    (hFramed : F.Framed (front ++ back)) :
    F.Framed back := by
  induction front with
  | nil => exact hFramed
  | cons item rest ih => exact ih hFramed.2

theorem framed_append
    (hFront : F.Framed front)
    (hBack : F.Framed back) :
    F.Framed (front ++ back) := by
  induction front with
  | nil => exact hBack
  | cons item rest ih =>
      refine ⟨?_, ih hFront.2⟩
      intro k i hTag
      rcases hFront.1 k i hTag with ⟨frame, hFrame, hPrefix⟩
      refine ⟨frame, hFrame, ?_⟩
      exact hPrefix.trans (List.prefix_append _ back)

/- Single items are framed. -/
theorem framed_of_untagged
    (hUntagged : ∀ item ∈ back, F.tag item = none) :
    F.Framed back := by
  induction back with
  | nil => exact framed_nil
  | cons item rest ih =>
      refine ⟨?_, ih fun other hOther =>
        hUntagged other (List.mem_cons_of_mem _ hOther)⟩
      intro k i hTag
      rw [hUntagged item List.mem_cons_self] at hTag
      cases hTag

/- New frames do not matter to the old ones. -/
theorem framed_mono
    {G : Framing α κ}
    (hTag : G.tag = F.tag)
    (hFrame : ∀ k frame, F.frame k = some frame →
      G.frame k = some frame)
    (hFramed : F.Framed back) :
    G.Framed back := by
  induction back with
  | nil => exact framed_nil
  | cons item rest ih =>
      refine ⟨?_, ih hFramed.2⟩
      intro k i hItem
      rw [hTag] at hItem
      rcases hFramed.1 k i hItem with ⟨frame, hOld, hPrefix⟩
      exact ⟨frame, hFrame k frame hOld, hPrefix⟩

/- A frame whose items carry their own tags is framed. -/
theorem framed_frame
    (hFrame : F.frame k = some frame)
    (hTags : ∀ i item, frame[i]? = some item →
      F.tag item = some (k, i)) :
    F.Framed frame := by
  have hDrop : ∀ rest n, frame.drop n = rest →
      F.Framed rest := by
    intro rest
    induction rest with
    | nil => intro n _; exact framed_nil
    | cons item rest ih =>
        intro n hRest
        have hItem : frame[n]? = some item := by
          have hHead := congrArg List.head? hRest
          rwa [List.head?_drop, List.head?_cons] at hHead
        refine ⟨?_, ih (n + 1) ?_⟩
        · intro k' i hTag
          rw [hTags n item hItem, Option.some.injEq,
            Prod.mk.injEq] at hTag
          rcases hTag with ⟨rfl, rfl⟩
          exact ⟨frame, hFrame, [],
            (List.append_nil _).trans hRest⟩
        · rw [← List.drop_drop, hRest, List.drop_one,
            List.tail_cons]
  exact hDrop frame 0 List.drop_zero

/- At the first item of a frame that frame is read. -/
theorem take_of_framed
    {stream : List α}
    (hFramed : F.Framed stream)
    (hHead : stream.head? = some item)
    (hTag : F.tag item = some (k, 0)) :
    ∃ frame, F.frame k = some frame ∧
      stream.take frame.length = frame := by
  cases stream with
  | nil => cases hHead
  | cons first rest =>
      rw [List.head?_cons, Option.some.injEq] at hHead
      subst hHead
      rcases hFramed.1 k 0 hTag with ⟨frame, hFrame, hPrefix⟩
      rw [List.drop_zero] at hPrefix
      exact ⟨frame, hFrame,
        (List.prefix_iff_eq_take.mp hPrefix).symm⟩

end Framing

end ModemTester
