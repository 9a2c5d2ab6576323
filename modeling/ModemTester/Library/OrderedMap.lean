import Mathlib.Algebra.BigOperators.Group.List.Basic
import Mathlib.Algebra.Order.BigOperators.Group.List
import Mathlib.Algebra.Order.Group.Nat
import Mathlib.Data.Finset.Card
import Mathlib.Data.Finset.Dedup
import Mathlib.Data.Fintype.Card

/-
  Maps kept in key order, as `std::map` keeps them.

  A map is the list of its entries together with the proof
  that the keys ascend strictly, so a map with two entries
  for one key, or out of order, cannot be built. Operations
  that a program performs through iterators are given by the
  key that the iterator stands on.

  Key definitions include:
    * `OrderedMap`
    * `OrderedMap.find?`
    * `OrderedMap.assign`
    * `OrderedMap.distance`
    * `OrderedMap.eraseThrough`
    * `OrderedMap.keys`
    * `OrderedMap.first?`
    * `OrderedMap.last?`
    * `OrderedMap.total`
-/

------------------------------------------------------------
-- Maps And Their Operations
------------------------------------------------------------

structure OrderedMap (α β : Type) [LinearOrder α] where
  entries : List (α × β)
  sorted : entries.Pairwise fun a b => a.1 < b.1

namespace OrderedMap

variable {α β : Type} [LinearOrder α]

def empty : OrderedMap α β :=
  ⟨[], List.Pairwise.nil⟩

/- The entries in front of `key`. -/
def below (m : OrderedMap α β) (key : α) : List (α × β) :=
  m.entries.filter fun entry => entry.1 < key

/- The entries behind `key`. -/
def above (m : OrderedMap α β) (key : α) : List (α × β) :=
  m.entries.filter fun entry => key < entry.1

/- `find`, with the value found. -/
def find? (m : OrderedMap α β) (key : α) : Option β :=
  (m.entries.find? fun entry => entry.1 = key).map Prod.snd

/- `size`. -/
def size (m : OrderedMap α β) : Nat :=
  m.entries.length

/- `std::distance(begin, find(key))`. -/
def distance (m : OrderedMap α β) (key : α) : Nat :=
  (m.below key).length

theorem pairwise_above
    (m : OrderedMap α β)
    (key : α) :
    (m.above key).Pairwise fun a b => a.1 < b.1 :=
  m.sorted.filter _

/- `erase(begin, find(key))`, then `erase` at `key`. -/
def eraseThrough
    (m : OrderedMap α β)
    (key : α) : OrderedMap α β :=
  ⟨m.above key, m.pairwise_above key⟩

theorem pairwise_assign
    (m : OrderedMap α β)
    (key : α)
    (value : β) :
    (m.below key ++ (key, value) :: m.above key).Pairwise
      fun a b => a.1 < b.1 := by
  rw [List.pairwise_append, List.pairwise_cons]
  refine ⟨m.sorted.filter _, ⟨?_, m.pairwise_above key⟩, ?_⟩
  · intro entry hAbove
    simpa using (List.mem_filter.mp hAbove).2
  · intro entry hBelow other hOther
    have hLt : entry.1 < key := by
      simpa using (List.mem_filter.mp hBelow).2
    rcases List.mem_cons.mp hOther with rfl | hAbove
    · exact hLt
    · have hGt : key < other.1 := by
        simpa using (List.mem_filter.mp hAbove).2
      exact hLt.trans hGt

/- `m[key] = value`. -/
def assign
    (m : OrderedMap α β)
    (key : α)
    (value : β) : OrderedMap α β :=
  ⟨m.below key ++ (key, value) :: m.above key,
    m.pairwise_assign key value⟩

/- The keys present. -/
def keys (m : OrderedMap α β) : Finset α :=
  (m.entries.map Prod.fst).toFinset

/- No key occurs twice. -/
theorem nodup_map_fst (m : OrderedMap α β) :
    (m.entries.map Prod.fst).Nodup := by
  rw [List.Nodup, List.pairwise_map]
  exact m.sorted.imp fun hLt => hLt.ne

------------------------------------------------------------
-- Lookup
------------------------------------------------------------

/- An entry is found under its key and under no other. -/
theorem find?_eq_some_iff
    (m : OrderedMap α β)
    (key : α)
    (value : β) :
    m.find? key = some value ↔ (key, value) ∈ m.entries := by
  unfold find?
  constructor
  · intro hFind
    rcases Option.map_eq_some_iff.mp hFind with
      ⟨entry, hEntry, hValue⟩
    have hKey : entry.1 = key := by
      simpa using List.find?_some hEntry
    have hMem := List.mem_of_find?_eq_some hEntry
    rwa [← hKey, ← hValue]
  · intro hMem
    cases hEntry :
        m.entries.find? fun entry => entry.1 = key with
    | none =>
        rw [List.find?_eq_none] at hEntry
        exact absurd (hEntry _ hMem) (by simp)
    | some entry =>
        have hKey : entry.1 = key := by
          simpa using List.find?_some hEntry
        have hEntryMem := List.mem_of_find?_eq_some hEntry
        rw [List.inj_on_of_nodup_map m.nodup_map_fst
          hEntryMem hMem hKey]
        rfl

/- The keys present are those that `find` finds. -/
theorem mem_keys_iff
    (m : OrderedMap α β)
    (key : α) :
    key ∈ m.keys ↔ ∃ value, m.find? key = some value := by
  simp [keys, find?_eq_some_iff]

theorem find?_eq_none_iff
    (m : OrderedMap α β)
    (key : α) :
    m.find? key = none ↔ key ∉ m.keys := by
  rw [mem_keys_iff]
  cases m.find? key <;> simp

@[simp] theorem find?_assign_self
    (m : OrderedMap α β)
    (key : α)
    (value : β) :
    (m.assign key value).find? key = some value := by
  rw [find?_eq_some_iff]
  simp [assign]

/- Assigning under one key leaves the others alone. -/
theorem find?_assign_of_ne
    (m : OrderedMap α β)
    {key other : α}
    (value : β)
    (hNe : other ≠ key) :
    (m.assign key value).find? other = m.find? other := by
  apply Option.ext
  intro found
  rw [find?_eq_some_iff, find?_eq_some_iff]
  simp only [assign, below, above, List.mem_append,
    List.mem_cons, List.mem_filter, Prod.mk.injEq, hNe,
    false_and, false_or, decide_eq_true_eq]
  constructor
  · rintro (⟨hMem, -⟩ | ⟨hMem, -⟩) <;> exact hMem
  · intro hMem
    rcases lt_or_gt_of_ne hNe with hLt | hGt
    · exact Or.inl ⟨hMem, hLt⟩
    · exact Or.inr ⟨hMem, hGt⟩

theorem find?_eraseThrough
    (m : OrderedMap α β)
    (key other : α) :
    (m.eraseThrough key).find? other =
      if key < other then m.find? other else none := by
  apply Option.ext
  intro found
  rw [find?_eq_some_iff]
  simp only [eraseThrough, above, List.mem_filter,
    decide_eq_true_eq]
  by_cases hLt : key < other
  · simp [hLt, find?_eq_some_iff]
  · simp [hLt]

@[simp] theorem keys_empty :
    (empty : OrderedMap α β).keys = ∅ := rfl

theorem keys_assign
    (m : OrderedMap α β)
    (key : α)
    (value : β) :
    (m.assign key value).keys = insert key m.keys := by
  ext other
  rw [Finset.mem_insert, mem_keys_iff, mem_keys_iff]
  by_cases hSame : other = key
  · subst hSame
    simp
  · rw [find?_assign_of_ne m value hSame]
    simp [hSame]

theorem keys_eraseThrough
    (m : OrderedMap α β)
    (key : α) :
    (m.eraseThrough key).keys =
      m.keys.filter fun other => key < other := by
  ext other
  rw [Finset.mem_filter, mem_keys_iff, mem_keys_iff,
    find?_eraseThrough]
  by_cases hLt : key < other <;> simp [hLt]

------------------------------------------------------------
-- Counting
------------------------------------------------------------

theorem card_keys (m : OrderedMap α β) :
    m.keys.card = m.size := by
  rw [keys, List.toFinset_card_of_nodup m.nodup_map_fst]
  simp [size]

/- The distance to a key counts the smaller keys. -/
theorem distance_eq_card
    (m : OrderedMap α β)
    (key : α) :
    m.distance key =
      (m.keys.filter fun other => other < key).card := by
  have hKeys :
      (m.keys.filter fun other => other < key) =
        ((m.below key).map Prod.fst).toFinset := by
    ext other
    simp [keys, below]
  have hNodup : ((m.below key).map Prod.fst).Nodup :=
    m.nodup_map_fst.sublist (List.filter_sublist.map _)
  rw [hKeys, List.toFinset_card_of_nodup hNodup]
  simp [distance]

/- The keys split at `key` into smaller, equal and larger. -/
theorem size_eq_of_mem
    (m : OrderedMap α β)
    {key : α}
    (hMem : key ∈ m.keys) :
    m.size =
      m.distance key + 1 + (m.eraseThrough key).size := by
  have hSplit : m.keys =
      (m.keys.filter fun other => other < key) ∪
        insert key
          (m.keys.filter fun other => key < other) := by
    ext other
    simp only [Finset.mem_union, Finset.mem_filter,
      Finset.mem_insert]
    constructor
    · intro hOther
      rcases lt_trichotomy other key with hLt | hEq | hGt
      · exact Or.inl ⟨hOther, hLt⟩
      · exact Or.inr (Or.inl hEq)
      · exact Or.inr (Or.inr ⟨hOther, hGt⟩)
    · rintro (⟨hOther, -⟩ | rfl | ⟨hOther, -⟩)
      · exact hOther
      · exact hMem
      · exact hOther
  have hDisjoint : Disjoint
      (m.keys.filter fun other => other < key)
      (insert key
        (m.keys.filter fun other => key < other)) := by
    rw [Finset.disjoint_left]
    intro other hBelow hRest
    have hLt := (Finset.mem_filter.mp hBelow).2
    rcases Finset.mem_insert.mp hRest with rfl | hAbove
    · exact lt_irrefl _ hLt
    · exact lt_asymm hLt (Finset.mem_filter.mp hAbove).2
  have hCard := congrArg Finset.card hSplit
  rw [Finset.card_union_of_disjoint hDisjoint,
    Finset.card_insert_of_notMem (by simp),
    ← keys_eraseThrough, ← distance_eq_card, card_keys,
    card_keys] at hCard
  omega

/- Assigning adds an entry unless the key was present. -/
theorem size_assign
    (m : OrderedMap α β)
    (key : α)
    (value : β) :
    (m.assign key value).size =
      if key ∈ m.keys then m.size else m.size + 1 := by
  rw [← card_keys, keys_assign, Finset.card_insert_eq_ite,
    card_keys]

/- A map has no more entries than there are keys. -/
theorem size_le_card
    [Fintype α]
    (m : OrderedMap α β) :
    m.size ≤ Fintype.card α := by
  rw [← card_keys]
  exact Finset.card_le_univ _

------------------------------------------------------------
-- Ends And Totals
------------------------------------------------------------

/- The entry at `begin()`. -/
def first? (m : OrderedMap α β) : Option (α × β) :=
  m.entries.head?

/- The entry at `std::prev(end())`. -/
def last? (m : OrderedMap α β) : Option (α × β) :=
  m.entries.getLast?

/- The sum of the values. -/
def total [AddCommMonoid β] (m : OrderedMap α β) : β :=
  (m.entries.map Prod.snd).sum

/- A key behind all others is assigned at the end. -/
theorem entries_assign_of_above
    {m : OrderedMap α β}
    {key : α}
    (value : β)
    (hAbove : ∀ entry ∈ m.entries, entry.1 < key) :
    (m.assign key value).entries =
      m.entries ++ [(key, value)] := by
  have hBelow : m.below key = m.entries :=
    List.filter_eq_self.mpr fun entry hEntry =>
      decide_eq_true (hAbove entry hEntry)
  have hNone : m.above key = [] :=
    List.filter_eq_nil_iff.mpr fun entry hEntry => by
      simpa using (hAbove entry hEntry).le
  simp only [assign, hBelow, hNone]

/- The last entry of a map has the largest key. -/
theorem le_of_last?
    {m : OrderedMap α β}
    {last entry : α × β}
    (hLast : m.last? = some last)
    (hMem : entry ∈ m.entries) :
    entry.1 ≤ last.1 := by
  rcases List.getLast?_eq_some_iff.mp hLast with
    ⟨front, hFront⟩
  have hSorted := m.sorted
  rw [hFront, List.pairwise_append] at hSorted
  rw [hFront, List.mem_append, List.mem_singleton] at hMem
  rcases hMem with hOld | rfl
  · exact (hSorted.2.2 entry hOld last
      List.mem_cons_self).le
  · exact le_rfl

/- Assigning moves the end only to a key not below it. -/
theorem last?_assign
    (m : OrderedMap α β)
    (key : α)
    (value : β) :
    (m.assign key value).last? =
      match m.last? with
      | none => some (key, value)
      | some last =>
          if last.1 ≤ key then some (key, value)
          else some last := by
  have hAssign : (m.assign key value).last? =
      (m.above key).getLast?.or (some (key, value)) := by
    simp only [last?, assign, List.getLast?_append,
      List.getLast?_cons]
    cases (m.above key).getLast? <;> rfl
  rw [hAssign]
  cases hLast : m.last? with
  | none =>
      have hNil : m.entries = [] :=
        List.getLast?_eq_none_iff.mp hLast
      simp [above, hNil]
  | some last =>
      by_cases hLe : last.1 ≤ key
      · have hNil : m.above key = [] :=
          List.filter_eq_nil_iff.mpr fun entry hEntry => by
            simpa using (le_of_last? hLast hEntry).trans hLe
        simp [hNil, hLe]
      · rcases List.getLast?_eq_some_iff.mp hLast with
          ⟨front, hFront⟩
        have hGt : key < last.1 := lt_of_not_ge hLe
        simp [above, hFront, hLe, hGt]

/- The values under one key sum to the one found there. -/
theorem sum_filter_key
    [AddCommMonoid β]
    (m : OrderedMap α β)
    (key : α) :
    ((m.entries.filter fun entry => entry.1 = key).map
        Prod.snd).sum =
      (m.find? key).getD 0 := by
  obtain ⟨entries, hSorted⟩ := m
  simp only [find?]
  induction entries with
  | nil => rfl
  | cons entry entries ih =>
      have hRest := List.pairwise_cons.mp hSorted
      by_cases hKey : entry.1 = key
      · have hNone : (entries.filter fun other =>
            other.1 = key) = [] := by
          refine List.filter_eq_nil_iff.mpr ?_
          intro other hOther
          have hLt := hRest.1 other hOther
          rw [hKey] at hLt
          simpa using hLt.ne'
        simp [hKey, hNone]
      · simpa [hKey] using ih hRest.2

/- Assigning replaces the value found in the total. -/
theorem total_assign
    [AddCommMonoid β]
    (m : OrderedMap α β)
    (key : α)
    (value : β) :
    (m.assign key value).total + (m.find? key).getD 0 =
      m.total + value := by
  have hSplit : ∀ entries : List (α × β),
      (entries.map Prod.snd).sum =
        ((entries.filter fun entry =>
            entry.1 < key).map Prod.snd).sum +
          ((entries.filter fun entry =>
            entry.1 = key).map Prod.snd).sum +
          ((entries.filter fun entry =>
            key < entry.1).map Prod.snd).sum := by
    intro entries
    induction entries with
    | nil => simp
    | cons entry entries ih =>
        rcases lt_trichotomy entry.1 key with
          hLt | hEq | hGt
        · simp [ih, hLt, hLt.ne, hLt.not_gt, add_assoc]
        · simp [ih, hEq, add_left_comm, add_assoc]
        · simp [ih, hGt, hGt.ne', hGt.not_gt, add_assoc,
            add_left_comm]
  have hTotal := hSplit m.entries
  rw [sum_filter_key] at hTotal
  simp only [total, hTotal, assign, below, above,
    List.map_append, List.map_cons, List.sum_append,
    List.sum_cons]
  ac_rfl

/- No value exceeds the total. -/
theorem snd_le_total
    {m : OrderedMap α Nat}
    {entry : α × Nat}
    (hMem : entry ∈ m.entries) :
    entry.2 ≤ m.total :=
  List.le_sum_of_mem (List.mem_map_of_mem hMem)

end OrderedMap
