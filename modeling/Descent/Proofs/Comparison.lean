/-
# Laws of comparison

What can be said about comparisons without rounding: among the values that are
numbers they are those of a total order, in which several values may be
equivalent, and whatever is not a number compares with nothing.

* `OrderedScalar` : the laws;
* `OrderedScalar.le_of_not_lt` : numbers can be compared;
* `OrderedScalar.not_lt_larger`, … : the extremes of two scalars.
-/
import Descent.Scalar

namespace Descent

open Scalar

/-- The laws of comparison. -/
class OrderedScalar (α : Type) [Scalar α] : Prop where
  /-- The order is transitive. -/
  le_trans {a b c : α} : a ≤ b → b ≤ c → a ≤ c
  /-- Numbers can be compared. -/
  le_total {a b : α} : isNaN a = false → isNaN b = false → a ≤ b ∨ b ≤ a
  /-- Less means at most and not at least. -/
  lt_iff {a b : α} : a < b ↔ a ≤ b ∧ ¬ b ≤ a
  /-- What is at most anything is a number. -/
  isNaN_left {a b : α} : a ≤ b → isNaN a = false
  /-- What is at least anything is a number. -/
  isNaN_right {a b : α} : a ≤ b → isNaN b = false
  /-- What is finite is a number. -/
  isNaN_of_isFinite {a : α} : isFinite a = true → isNaN a = false

namespace OrderedScalar

variable {α : Type} [Scalar α] [OrderedScalar α] {a b c : α}

/-! ## Order -/

theorem le_refl (ha : isNaN a = false) : a ≤ a := by
  rcases le_total ha ha with h | h
  · exact h
  · exact h

theorem le_of_lt (h : a < b) : a ≤ b := (lt_iff.mp h).1

theorem not_lt_self : ¬ a < a := by
  intro h
  obtain ⟨hle, hnot⟩ := lt_iff.mp h
  exact hnot hle

theorem not_lt_of_le (h : a ≤ b) : ¬ b < a := by
  intro hlt
  exact (lt_iff.mp hlt).2 h

theorem le_of_not_lt (ha : isNaN a = false) (hb : isNaN b = false) (h : ¬ a < b) : b ≤ a := by
  rcases le_total ha hb with hab | hba
  · by_cases hba : b ≤ a
    · exact hba
    · exact absurd (lt_iff.mpr ⟨hab, hba⟩) h
  · exact hba

theorem lt_of_lt_of_le (hab : a < b) (hbc : b ≤ c) : a < c := by
  obtain ⟨hle, hnot⟩ := lt_iff.mp hab
  refine lt_iff.mpr ⟨le_trans hle hbc, ?_⟩
  intro hca
  exact hnot (le_trans hbc hca)

theorem lt_of_le_of_lt (hab : a ≤ b) (hbc : b < c) : a < c := by
  obtain ⟨hle, hnot⟩ := lt_iff.mp hbc
  refine lt_iff.mpr ⟨le_trans hab hle, ?_⟩
  intro hca
  exact hnot (le_trans hca hab)

theorem lt_of_not_le (ha : isNaN a = false) (hb : isNaN b = false) (h : ¬ a ≤ b) : b < a :=
  lt_iff.mpr ⟨(le_total ha hb).resolve_left h, h⟩

/-- What is not less than a number at least zero is not negative. -/
theorem not_neg_of_not_lt (hb : 0 ≤ b) (h : ¬ a < b) : ¬ a < 0 := by
  intro hneg
  exact h (lt_of_lt_of_le hneg hb)

/-! ## Extremes -/

omit [OrderedScalar α] in
/-- The smaller of two scalars is one of them. -/
theorem smaller_eq_or (a b : α) : smaller a b = a ∨ smaller a b = b := by
  unfold smaller
  split
  · right; rfl
  · split
    · right; rfl
    · left; rfl

omit [OrderedScalar α] in
/-- The larger of two scalars is one of them. -/
theorem larger_eq_or (a b : α) : larger a b = a ∨ larger a b = b := by
  unfold larger
  split
  · right; rfl
  · split
    · right; rfl
    · left; rfl

omit [OrderedScalar α] in
/-- The larger of a scalar and a number is a number. -/
theorem isNaN_larger (a : α) (hb : isNaN b = false) : isNaN (larger a b) = false := by
  unfold larger
  split
  · exact hb
  · next ha =>
    split
    · exact hb
    · exact (Bool.not_eq_true _).mp ha

omit [OrderedScalar α] in
/-- A scalar moved between two numbers is a number. -/
theorem isNaN_smaller_larger (a : α) (hb : isNaN b = false) (hc : isNaN c = false) :
    isNaN (smaller (larger a b) c) = false := by
  rcases smaller_eq_or (larger a b) c with h | h
  · rw [h]
    exact isNaN_larger a hb
  · rw [h]
    exact hc

/-- The larger of two scalars is not less than the second one. -/
theorem not_lt_larger (a b : α) : ¬ larger a b < b := by
  intro hlt
  unfold larger at hlt
  split at hlt
  · exact not_lt_self hlt
  · split at hlt
    · exact not_lt_self hlt
    · next hle => exact hle (le_of_lt hlt)

/-- At most the larger of two scalars is at most one of them. -/
theorem le_larger_iff {a b v : α} (ha : isNaN a = false) :
    v ≤ larger a b ↔ v ≤ a ∨ v ≤ b := by
  by_cases hle : a ≤ b
  · rw [larger_eq_right hle]
    exact ⟨.inr, fun h => h.elim (fun hv => le_trans hv hle) id⟩
  · rw [larger_eq_left ha hle]
    refine ⟨.inl, fun h => h.elim id ?_⟩
    intro hv
    rcases le_total ha (isNaN_right hv) with h | h
    · exact absurd h hle
    · exact le_trans hv h

theorem le_larger (ha : isNaN a = false) (hb : isNaN b = false) : b ≤ larger a b :=
  (le_larger_iff ha).mpr (.inr (le_refl hb))

theorem le_larger_left (ha : isNaN a = false) : a ≤ larger a b :=
  (le_larger_iff ha).mpr (.inl (le_refl ha))

/-- The smaller of two numbers is at most each of them. -/
theorem smaller_le (ha : isNaN a = false) (hb : isNaN b = false) :
    smaller a b ≤ a ∧ smaller a b ≤ b := by
  by_cases hle : b ≤ a
  · rw [smaller_eq_right hle]
    exact ⟨hle, le_refl hb⟩
  · rw [smaller_eq_left ha hle]
    exact ⟨le_refl ha, (le_total ha hb).resolve_right hle⟩

/-- One of two numbers is at most the smaller or at least the larger one. -/
theorem le_smaller_or_larger_le (ha : isNaN a = false) (hb : isNaN b = false)
    (hc : c = a ∨ c = b) : c ≤ smaller a b ∨ larger a b ≤ c := by
  have hleast {v : α} (hva : v ≤ a) (hvb : v ≤ b) : v ≤ smaller a b := by
    rcases smaller_eq_or a b with h | h
    · rwa [h]
    · rwa [h]
  have hgreatest {v : α} (hva : a ≤ v) (hvb : b ≤ v) : larger a b ≤ v := by
    rcases larger_eq_or a b with h | h
    · rwa [h]
    · rwa [h]
  rcases hc with rfl | rfl
  · rcases le_total ha hb with h | h
    · exact .inl (hleast (le_refl ha) h)
    · exact .inr (hgreatest (le_refl ha) h)
  · rcases le_total ha hb with h | h
    · exact .inr (hgreatest h (le_refl hb))
    · exact .inl (hleast h (le_refl hb))

/-- A number moved between two others that are in order lies between them. -/
theorem smaller_larger_mem {v low high : α} (hv : low ≤ v) (hhigh : low ≤ high) :
    low ≤ smaller (larger v low) high ∧ smaller (larger v low) high ≤ high := by
  have hlow := isNaN_left hv
  have hhighest := isNaN_right hhigh
  have hbelow : low ≤ larger v low := le_larger (isNaN_right hv) hlow
  by_cases hle : high ≤ larger v low
  · rw [smaller_eq_right hle]
    exact ⟨hhigh, le_refl hhighest⟩
  · rw [smaller_eq_left (isNaN_right hbelow) hle]
    rcases le_total (isNaN_right hbelow) hhighest with h | h
    · exact ⟨hbelow, h⟩
    · exact absurd h hle

end OrderedScalar

end Descent
