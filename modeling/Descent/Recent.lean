/-
# Recent items

A memory of limited capacity that keeps the items it was given last, the newest
first.

* `pushRecent` : taking up an item;
* `length_pushRecent_le` : the capacity is respected;
* `pushRecent_take` : the items kept are the last ones pushed.
-/

namespace Descent

variable {β : Type}

/-- Takes up an item.  A memory that is exactly full gives up its oldest one. -/
def pushRecent (capacity : Nat) (item : β) (kept : List β) : List β :=
  item :: if kept.length = capacity then kept.dropLast else kept

/-- The newest item comes first. -/
theorem head?_pushRecent (capacity : Nat) (item : β) (kept : List β) :
    (pushRecent capacity item kept).head? = some item := by
  rfl

/-- A memory holds the item that was pushed and nothing that it did not hold before. -/
theorem mem_pushRecent {capacity : Nat} {item v : β} {kept : List β}
    (h : v ∈ pushRecent capacity item kept) : v = item ∨ v ∈ kept := by
  unfold pushRecent at h
  rcases List.mem_cons.mp h with rfl | h
  · left; rfl
  · right
    split at h
    · exact List.dropLast_subset _ h
    · exact h

/-- Recent items can be changed before or after they are taken up. -/
theorem pushRecent_map {γ : Type} (f : β → γ) (capacity : Nat) (item : β) (kept : List β) :
    pushRecent capacity (f item) (kept.map f) = (pushRecent capacity item kept).map f := by
  unfold pushRecent
  rw [List.length_map, List.map_cons]
  split
  · rw [List.map_dropLast]
  · rfl

/-- A memory with room for an item never holds more than its capacity. -/
theorem length_pushRecent_le {capacity : Nat} (item : β) {kept : List β}
    (hpos : 0 < capacity) (hkept : kept.length ≤ capacity) :
    (pushRecent capacity item kept).length ≤ capacity := by
  unfold pushRecent
  split
  · simp only [List.length_cons, List.length_dropLast]
    omega
  · simp only [List.length_cons]
    omega

/-- Within its capacity a memory holds the last items pushed. -/
theorem pushRecent_eq_take {capacity : Nat} (item : β) {kept : List β}
    (hpos : 0 < capacity) (hkept : kept.length ≤ capacity) :
    pushRecent capacity item kept = (item :: kept).take capacity := by
  obtain ⟨m, rfl⟩ : ∃ m, capacity = m + 1 := ⟨capacity - 1, by omega⟩
  unfold pushRecent
  rw [List.take_succ_cons]
  split
  · next h => rw [List.dropLast_eq_take, h, Nat.add_sub_cancel]
  · next h => rw [List.take_of_length_le (by omega)]

/-- A memory that holds the last items pushed does so after another one. -/
theorem pushRecent_take {capacity : Nat} (hpos : 0 < capacity) (item : β) (pushed : List β) :
    pushRecent capacity item (pushed.take capacity) = (item :: pushed).take capacity := by
  rw [pushRecent_eq_take item hpos (List.length_take_le _ _)]
  obtain ⟨m, rfl⟩ : ∃ m, capacity = m + 1 := ⟨capacity - 1, by omega⟩
  rw [List.take_succ_cons, List.take_succ_cons, List.take_take, Nat.min_eq_left (Nat.le_succ m)]

end Descent
