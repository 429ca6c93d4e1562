/-
# The projected path

In exact arithmetic the path of a point of a box that moves along a direction, and is projected
onto the box, is straight at first, then loses one component after another to the bounds, and
comes to rest if all components that move are bounded ahead.  The step limits of the direction are
the steps at which it stops being straight and at which it comes to rest.

* `Interval.Path`, `Interval.path_reach` : the path of one component;
* `StepLimits.Summarizes` : the limits are the least and the greatest reach;
* `Box.straight_iff`, `Box.rests_iff` : where the path of a point is straight, and where it rests;
* `Box.describes_stepLimits` : the path between and beyond the limits.
-/
import Mathlib
import Descent.Proofs.Symmetry.Boxes

namespace Descent

open Scalar ExactScalar StrictScalar

variable {α : Type} [Scalar α] [ExactScalar α] {n : Nat}

/-! ## One component -/

namespace Interval

/-- The path of a real number that moves from an interval, by how far it reaches. -/
inductive Path (I : Interval α) (x d : ℝ) : Reach α → Prop
  /-- It does not move. -/
  | still (hd : d = 0) (hclamp : I.clamp (ofReal x) = ofReal x) : Path I x d .still
  /-- It stops after a step, and is blocked there if the step is zero. -/
  | within {σ : ℝ} (hd : d ≠ 0) (hσ : 0 ≤ σ)
    (hclamp : ∀ t, 0 ≤ t → I.clamp (ofReal (x + t * d)) = ofReal (x + min t σ * d))
    (hvelocity : I.projectVelocity (ofReal x) (ofReal d) = ofReal (if σ = 0 then 0 else d)) :
    Path I x d (.within (ofReal σ))
  /-- It never stops. -/
  | unlimited (hd : d ≠ 0) (hclamp : ∀ t, 0 ≤ t → I.clamp (ofReal (x + t * d)) = ofReal (x + t * d))
    (hvelocity : I.projectVelocity (ofReal x) (ofReal d) = ofReal d) : Path I x d .unlimited

variable {I : Interval α} {x d : ℝ} {r : Reach α}

/-- Values above one of an interval are moved down to its upper end, if it has one. -/
theorem clamp_above (h : I.contains (ofReal x) = true) :
    (I.upper = none ∧ ∀ y, x ≤ y → I.clamp (ofReal y) = ofReal y) ∨
      ∃ hi, I.upper = some (ofReal hi) ∧ x ≤ hi ∧
        ∀ y, x ≤ y → I.clamp (ofReal y) = ofReal (min y hi) := by
  obtain ⟨hlower, hupper⟩ := between_of_contains h
  have hclamp (y : ℝ) (hy : x ≤ y) : I.clamp (ofReal y) = I.clampUpper (ofReal y) := by
    refine clamp_eq_clampUpper fun lo hlo => OrderedScalar.not_lt_of_le ?_
    exact OrderedScalar.le_trans (hlower lo hlo) (ofReal_le_ofReal.mpr hy)
  cases hhi : I.upper with
  | none =>
    refine .inl ⟨rfl, fun y hy => ?_⟩
    rw [hclamp y hy, clampUpper, hhi]
  | some a =>
    obtain ⟨x', hi, hx, rfl, hle⟩ := le_iff.mp (hupper a hhi)
    cases ofReal_injective hx
    refine .inr ⟨hi, rfl, hle, fun y hy => ?_⟩
    rw [hclamp y hy, clampUpper, hhi]
    rcases lt_or_ge hi y with hlt | hge
    · exact (if_pos (ofReal_lt_ofReal.mpr hlt)).trans (by rw [min_eq_right hlt.le])
    · refine (if_neg ?_).trans (by rw [min_eq_left hge])
      rwa [ofReal_lt_ofReal, not_lt]

theorem min_move {t hi : ℝ} (hd : 0 < d) : min (x + t * d) hi = x + min t ((hi - x) / d) * d := by
  have hend : (hi - x) / d * d = hi - x := div_mul_cancel₀ _ hd.ne'
  rcases le_total t ((hi - x) / d) with h | h
  · have := mul_le_mul_of_nonneg_right h hd.le
    rw [min_eq_left h, min_eq_left (by linarith)]
  · have := mul_le_mul_of_nonneg_right h hd.le
    rw [min_eq_right h, min_eq_right (by linarith), hend]
    ring

variable [StrictScalar α]

/-- The path of a component that moves up. -/
theorem path_reach_of_pos (h : I.contains (ofReal x) = true) (hd : 0 < d) :
    I.Path x d (I.reach (ofReal x) (ofReal d)) := by
  have hpos : (0 : α) < ofReal d := zero_lt_ofReal.mpr hd
  have hneg : ¬ (ofReal d : α) < 0 := by
    rw [ofReal_lt_zero]
    exact hd.not_gt
  have hforth (t : ℝ) (ht : 0 ≤ t) : x ≤ x + t * d := by
    linarith [mul_nonneg ht hd.le]
  have hvelocity : I.projectVelocity (ofReal x) (ofReal d) =
      if I.atUpper (ofReal x) = true then 0 else ofReal d := by
    rw [projectVelocity, decide_eq_false hneg, decide_eq_true hpos, Bool.and_false, Bool.and_true,
      Bool.false_or]
  rcases clamp_above h with ⟨hhi, hclamp⟩ | ⟨hi, hhi, hle, hclamp⟩
  · have hfree : I.atUpper (ofReal x) = false := by simp [atUpper, hhi]
    have hreach : I.reach (ofReal x) (ofReal d) = .unlimited := by
      simp [reach, hneg, hpos, hhi, hfree]
    rw [hreach]
    refine .unlimited hd.ne' (fun t ht => hclamp _ (hforth t ht)) ?_
    rw [hvelocity, hfree, if_neg Bool.false_ne_true]
  · have hreach : I.reach (ofReal x) (ofReal d) = .within (ofReal ((hi - x) / d)) := by
      rw [reach, if_neg hneg, if_pos hpos, hhi, ofReal_div _ hd.ne', ofReal_sub]
    rw [hreach]
    refine .within hd.ne' (div_nonneg (sub_nonneg.mpr hle) hd.le) ?_ ?_
    · intro t ht
      rw [hclamp _ (hforth t ht), min_move hd]
    · have hat : I.atUpper (ofReal x) = decide (hi ≤ x) := by
        rw [atUpper, hhi]
        simp
      rw [hvelocity, hat]
      by_cases hend : hi ≤ x
      · have hzero : (hi - x) / d = 0 := by rw [le_antisymm hend hle, sub_self, zero_div]
        rw [decide_eq_true hend, if_pos rfl, if_pos hzero, ofReal_zero]
      · have hne : (hi - x) / d ≠ 0 := div_ne_zero (by linarith [not_le.mp hend]) hd.ne'
        rw [decide_eq_false hend, if_neg Bool.false_ne_true, if_neg hne]

/-- The path of the mirror image is that of the component. -/
theorem Path.of_mirror (hI : I.Valid) (h : (I.mirror true).Path (-x) (-d) r) : I.Path x d r := by
  have hclamp {t y : ℝ} (hy : (I.mirror true).clamp (ofReal (-x + t * -d)) = ofReal (-y)) :
      I.clamp (ofReal (x + t * d)) = ofReal y := by
    have hmirror : (I.mirror true).clamp (-ofReal (x + t * d)) = -I.clamp (ofReal (x + t * d)) :=
      clamp_mirror true I _ hI
    have hpoint : -(x + t * d) = -x + t * -d := by ring
    rw [← ofReal_neg, hpoint, hy, ofReal_neg] at hmirror
    rw [← StrictScalar.neg_neg (I.clamp _), ← hmirror, StrictScalar.neg_neg]
  have hvelocity {v : ℝ}
      (hv : (I.mirror true).projectVelocity (ofReal (-x)) (ofReal (-d)) = ofReal (-v)) :
      I.projectVelocity (ofReal x) (ofReal d) = ofReal v := by
    have hmirror : (I.mirror true).projectVelocity (-ofReal x) (-ofReal d) =
        -I.projectVelocity (ofReal x) (ofReal d) := projectVelocity_mirror true I _ _
    rw [← ofReal_neg, ← ofReal_neg, hv, ofReal_neg] at hmirror
    rw [← StrictScalar.neg_neg (I.projectVelocity _ _), ← hmirror, StrictScalar.neg_neg]
  cases h with
  | still hd hkept =>
    have hkept' : (I.mirror true).clamp (ofReal (-x + 0 * -d)) = ofReal (-x) := by
      rwa [zero_mul, add_zero]
    have hclamped := hclamp hkept'
    rw [zero_mul, add_zero] at hclamped
    exact .still (neg_eq_zero.mp hd) hclamped
  | @within σ hd hσ hpath hblocked =>
    refine .within (neg_ne_zero.mp hd) hσ (fun t ht => hclamp ?_) (hvelocity ?_)
    · rw [hpath t ht]
      exact congrArg ofReal (by ring)
    · rw [hblocked]
      exact congrArg ofReal (by split <;> simp)
  | unlimited hd hpath hfree =>
    refine .unlimited (neg_ne_zero.mp hd) (fun t ht => hclamp ?_) (hvelocity hfree)
    rw [hpath t ht]
    exact congrArg ofReal (by ring)

/-- **The path of one component.**  It goes as far as the reach says. -/
theorem path_reach (hI : I.Valid) (h : I.contains (ofReal x) = true) (d : ℝ) :
    I.Path x d (I.reach (ofReal x) (ofReal d)) := by
  rcases lt_trichotomy d 0 with hd | rfl | hd
  · have hreach : (I.mirror true).reach (-ofReal x) (-ofReal d) = I.reach (ofReal x) (ofReal d) :=
      reach_mirror true I _ _
    have hcontains : (I.mirror true).contains (-ofReal x) = true :=
      (contains_mirror true I _).trans h
    rw [← ofReal_neg] at hcontains
    rw [← ofReal_neg, ← ofReal_neg] at hreach
    rw [← hreach]
    exact .of_mirror hI (path_reach_of_pos hcontains (neg_pos.mpr hd))
  · have hreach : I.reach (ofReal x) (ofReal 0) = .still := by
      simp [reach]
    rw [hreach]
    exact .still rfl (clamp_of_contains h)
  · exact path_reach_of_pos h hd

omit [StrictScalar α] in
/-- The path of a component is straight up to its reach, unless it is blocked from the start. -/
theorem Path.straight_iff (h : I.Path x d r) {t : ℝ} (ht : 0 ≤ t) :
    I.clamp (ofReal (x + t * d)) =
        ofReal x + ofReal t * I.projectVelocity (ofReal x) (ofReal d) ↔
      ∀ σ : ℝ, r = .within (ofReal σ) → 0 < σ → t ≤ σ := by
  cases h with
  | still hd hclamp =>
    have hvelocity : I.projectVelocity (ofReal x) (ofReal d) = 0 := by
      rw [hd, projectVelocity, ofReal_zero, ite_self]
    rw [hvelocity, hd, mul_zero, add_zero, hclamp, ← ofReal_zero, ← ofReal_mul, mul_zero,
      ← ofReal_add, add_zero]
    simp
  | @within ρ hd hρ hclamp hvelocity =>
    rw [hclamp t ht, hvelocity, ← ofReal_mul, ← ofReal_add, ofReal_injective.eq_iff]
    constructor
    · rintro heq σ hσ hpos
      cases ofReal_injective (Reach.within.inj hσ)
      rw [if_neg hpos.ne', add_right_inj, mul_left_inj' hd, min_eq_left_iff] at heq
      exact heq
    · intro hle
      split
      · next hzero => rw [hzero, min_eq_right ht, zero_mul, mul_zero]
      · next hne => rw [min_eq_left (hle ρ rfl (hρ.lt_of_ne' hne))]
  | unlimited hd hclamp hvelocity =>
    rw [hclamp t ht, hvelocity, ← ofReal_mul, ← ofReal_add]
    simp

omit [StrictScalar α] in
/-- The path of a component rests from its reach on. -/
theorem Path.rests_iff (h : I.Path x d r) {m : ℝ} (hm : 0 ≤ m) :
    (∀ t, m ≤ t → I.clamp (ofReal (x + t * d)) = I.clamp (ofReal (x + m * d))) ↔
      r ≠ .unlimited ∧ ∀ σ : ℝ, r = .within (ofReal σ) → σ ≤ m := by
  cases h with
  | still hd hclamp => simp [hd]
  | @within ρ hd hρ hclamp hvelocity =>
    constructor
    · intro hrests
      refine ⟨by simp, fun σ hσ => ?_⟩
      cases ofReal_injective (Reach.within.inj hσ)
      have hend := hrests (max m ρ) (le_max_left m ρ)
      rw [hclamp _ (hm.trans (le_max_left m ρ)), hclamp m hm, ofReal_injective.eq_iff,
        add_right_inj, mul_left_inj' hd, min_eq_right (le_max_right m ρ), eq_comm,
        min_eq_right_iff] at hend
      exact hend
    · rintro ⟨-, hle⟩ t ht
      have hρm := hle ρ rfl
      rw [hclamp t (hm.trans ht), hclamp m hm, min_eq_right hρm, min_eq_right (hρm.trans ht)]
  | unlimited hd hclamp hvelocity =>
    constructor
    · intro hrests
      have hnext := hrests (m + 1) (by linarith)
      rw [hclamp _ (by linarith), hclamp m hm, ofReal_injective.eq_iff, add_right_inj,
        mul_left_inj' hd] at hnext
      linarith
    · rintro ⟨hne, -⟩
      exact absurd rfl hne

end Interval

/-! ## Step limits -/

namespace StepLimits

/-- The limits of a path whose components reach so far. -/
structure Summarizes (limits : StepLimits α) (reaches : List (Reach α)) : Prop where
  /-- The first limit is the least positive step at which a component stops, if any does. -/
  first : ∃ first : Option ℝ, limits.first = first.map ofReal ∧ (∀ h ∈ first, 0 < h) ∧
    ∀ t, (∀ h ∈ first, t ≤ h) ↔ ∀ σ : ℝ, .within (ofReal σ) ∈ reaches → 0 < σ → t ≤ σ
  /-- The last limit is the greatest of all these steps, if every component stops. -/
  last : ∃ last : Option ℝ, limits.last = last.map ofReal ∧
    ∀ m, (∃ l ∈ last, l ≤ m) ↔
      0 ≤ m ∧ .unlimited ∉ reaches ∧ ∀ σ : ℝ, .within (ofReal σ) ∈ reaches → σ ≤ m

/-- Where nothing moves there is nothing to meet. -/
theorem summarizes_still : (still : StepLimits α).Summarizes [] where
  first := ⟨none, rfl, by simp, by simp⟩
  last := ⟨some 0, by rw [still, Option.map_some, ofReal_zero], by simp⟩

variable {limits : StepLimits α} {reaches : List (Reach α)}

/-- One more component that does not move changes nothing. -/
theorem Summarizes.add_still (h : limits.Summarizes reaches) :
    (limits.add .still).Summarizes (reaches ++ [.still]) := by
  obtain ⟨⟨first, hfirst, hpos, hmeet⟩, last, hlast, hrest⟩ := h
  exact ⟨⟨first, hfirst, hpos, by simpa using hmeet⟩, last, hlast, by simpa using hrest⟩

/-- One more component that never stops leaves no last step. -/
theorem Summarizes.add_unlimited (h : limits.Summarizes reaches) :
    (limits.add .unlimited).Summarizes (reaches ++ [.unlimited]) := by
  obtain ⟨⟨first, hfirst, hpos, hmeet⟩, -⟩ := h
  exact ⟨⟨first, hfirst, hpos, by simpa using hmeet⟩, none, rfl, by simp⟩

/-- One more component that stops after a step. -/
theorem Summarizes.add_within (h : limits.Summarizes reaches) (σ : ℝ) :
    (limits.add (.within (ofReal σ))).Summarizes (reaches ++ [.within (ofReal σ)]) := by
  obtain ⟨⟨first, hfirst, hpos, hmeet⟩, last, hlast, hrest⟩ := h
  have hmem (ρ : ℝ) : .within (ofReal ρ) ∈ reaches ++ [Reach.within (ofReal σ : α)] ↔
      .within (ofReal ρ) ∈ reaches ∨ ρ = σ := by
    rw [List.mem_append, List.mem_singleton, Reach.within.injEq, ofReal_injective.eq_iff]
  constructor
  · by_cases hσ : 0 < σ
    · refine ⟨some (first.elim σ (min · σ)), ?_, ?_, fun t => ?_⟩
      · show meet limits.first (ofReal σ) = _
        rw [hfirst]
        cases first with
        | none => exact meet_none hσ
        | some y => exact meet_ofReal hσ y
      · cases first with
        | none => simpa using hσ
        | some y => simpa using ⟨hpos y rfl, hσ⟩
      · have hsplit : (∀ h ∈ some (first.elim σ (min · σ)), t ≤ h) ↔
            (∀ h ∈ first, t ≤ h) ∧ t ≤ σ := by
          cases first <;> simp
        simp only [hsplit, hmeet, hmem, or_imp, forall_and, forall_eq, hσ, true_imp_iff]
    · refine ⟨first, ?_, hpos, fun t => ?_⟩
      · show meet limits.first (ofReal σ) = _
        rw [meet_of_not_pos _ (by rwa [zero_lt_ofReal]), hfirst]
      · simp only [hmeet, hmem, or_imp, forall_and, forall_eq, hσ, false_imp_iff, and_true]
  · refine ⟨last.map (max · σ), ?_, fun m => ?_⟩
    · show stretch limits.last (ofReal σ) = _
      rw [hlast]
      cases last with
      | none => rfl
      | some z => exact stretch_ofReal z σ
    · have hsplit : (∃ l ∈ last.map (max · σ), l ≤ m) ↔ (∃ l ∈ last, l ≤ m) ∧ σ ≤ m := by
        cases last <;> simp
      have hunlimited : .unlimited ∉ reaches ++ [Reach.within (ofReal σ : α)] ↔
          .unlimited ∉ reaches := by simp
      simp only [hsplit, hrest, hunlimited, hmem, or_imp, forall_and, forall_eq, and_assoc]

theorem Summarizes.exists_first (h : limits.Summarizes reaches) {a : α}
    (ha : limits.first = some a) : ∃ first : ℝ, a = ofReal first ∧ 0 < first := by
  obtain ⟨⟨first, hfirst, hpos, -⟩, -⟩ := h
  rw [hfirst, Option.map_eq_some_iff] at ha
  obtain ⟨t, hmem, rfl⟩ := ha
  exact ⟨t, rfl, hpos t hmem⟩

theorem Summarizes.exists_last (h : limits.Summarizes reaches) {a : α}
    (ha : limits.last = some a) : ∃ last : ℝ, a = ofReal last ∧ 0 ≤ last := by
  obtain ⟨-, last, hlast, hrest⟩ := h
  rw [hlast, Option.map_eq_some_iff] at ha
  obtain ⟨l, hmem, rfl⟩ := ha
  exact ⟨l, rfl, ((hrest l).mp ⟨l, hmem, le_rfl⟩).1⟩

/-- The limits of a path summarize how far its components reach. -/
theorem summarizes_foldl (hreal : ∀ a, .within a ∈ reaches → ∃ σ : ℝ, a = ofReal σ) :
    (reaches.foldl add (still : StepLimits α)).Summarizes reaches := by
  induction reaches using List.reverseRecOn with
  | nil => exact summarizes_still
  | append_singleton reaches r ih =>
    have hih := ih fun a ha => hreal a (List.mem_append_left _ ha)
    rw [List.foldl_concat]
    cases r with
    | still => exact hih.add_still
    | unlimited => exact hih.add_unlimited
    | within a =>
      obtain ⟨σ, rfl⟩ := hreal a (List.mem_append_right _ (List.mem_singleton_self _))
      exact hih.add_within σ

end StepLimits

/-! ## Points of a box -/

/-- The projected path of a point that moves along a direction. -/
def Box.path (box : Box α n) (x d : Vector α n) (t : ℝ) : Vector α n :=
  box.project (axpy (ofReal t) d x)

/-- What the limits of a projected path say about it. -/
structure StepLimits.Describes (limits : StepLimits α) (box : Box α n) (x d : Vector α n) :
    Prop where
  /-- Up to the first limit the path follows the projected direction. -/
  straight : ∀ t, 0 ≤ t → (∀ first, limits.first = some first → ofReal t ≤ first) →
    box.path x d t = axpy (ofReal t) (box.projectDirection x d) x
  /-- Beyond the first limit it no longer does. -/
  bent : ∀ first, limits.first = some first → ∀ t, first < ofReal t →
    box.path x d t ≠ axpy (ofReal t) (box.projectDirection x d) x
  /-- The last limit is the least step from which on the path rests. -/
  rests : ∀ last, limits.last = some last → ∃ l : ℝ, last = ofReal l ∧
    IsLeast {m | 0 ≤ m ∧ ∀ t, m ≤ t → box.path x d t = box.path x d m} l
  /-- Without a last limit it never rests. -/
  restless : limits.last = none → ∀ m, 0 ≤ m → ∃ t, m ≤ t ∧ box.path x d t ≠ box.path x d m

namespace Box

variable [StrictScalar α] {box : Box α n} {x : Vector α n}

omit [StrictScalar α] in
/-- The points of a box have finite components. -/
theorem exists_ofReals_of_contains (hx : box.contains x = true) :
    ∃ X : Vector ℝ n, x = ofReals X := by
  refine exists_ofReals fun i hi => ?_
  have hside := Interval.isNaN_of_contains ((contains_iff box x).mp hx i hi)
  rwa [isNaN_eq, Bool.not_eq_false'] at hside

/-- The components of a point of a box move as far as they reach. -/
theorem path_component (hbox : box.Valid) {X : Vector ℝ n}
    (hx : box.contains (ofReals X) = true) (d : Vector ℝ n) (i : Nat) (hi : i < n) :
    box.sides[i].Path X[i] d[i] (box.reaches (ofReals X) (ofReals d))[i] := by
  have hside := (contains_iff box _).mp hx i hi
  rw [getElem_ofReals] at hside
  rw [getElem_reaches, getElem_ofReals, getElem_ofReals]
  exact Interval.path_reach (hbox.sides i hi) hside d[i]

/-- The limits of a path from a point of a box. -/
theorem summarizes_stepLimits (hbox : box.Valid) (hx : box.contains x = true) (d : Vector ℝ n) :
    (box.stepLimits x (ofReals d)).Summarizes (box.reaches x (ofReals d)).toList := by
  obtain ⟨X, rfl⟩ := exists_ofReals_of_contains hx
  rw [stepLimits_eq]
  refine StepLimits.summarizes_foldl fun a ha => ?_
  rw [Vector.mem_toList_iff, Vector.mem_iff_getElem] at ha
  obtain ⟨i, hi, heq⟩ := ha
  have hpath := path_component hbox hx d i hi
  rw [heq] at hpath
  cases hpath with
  | within => exact ⟨_, rfl⟩

/-- **Where the path is straight.**  The projected path follows the projected direction up to the
first limit and leaves it there. -/
theorem straight_iff (hbox : box.Valid) (hx : box.contains x = true) (d : Vector ℝ n) {t : ℝ}
    (ht : 0 ≤ t) :
    box.path x (ofReals d) t = axpy (ofReal t) (box.projectDirection x (ofReals d)) x ↔
      ∀ first ∈ (box.stepLimits x (ofReals d)).first, ¬ first < ofReal t := by
  obtain ⟨X, rfl⟩ := exists_ofReals_of_contains hx
  obtain ⟨⟨first, hfirst, -, hmeet⟩, -⟩ := summarizes_stepLimits hbox hx d
  have hlimit : (∀ first ∈ (box.stepLimits (ofReals X) (ofReals d)).first, ¬ first < ofReal t) ↔
      ∀ h ∈ first, t ≤ h := by
    rw [hfirst]
    cases first <;> simp
  rw [hlimit, hmeet, path, Vector.ext_iff]
  have hcomponent (i : Nat) (hi : i < n) :=
    (path_component hbox hx d i hi).straight_iff ht
  have hfinite (i : Nat) (hi : i < n) : isFinite (ofReals X : Vector α n)[i] = true := by
    rw [getElem_ofReals, isFinite_ofReal]
  simp only [hbox.getElem_project, getElem_axpy, hbox.getElem_projectDirection_of_finite hfinite,
    getElem_ofReals, ← ofReal_mul, ← ofReal_add] at hcomponent ⊢
  simp only [hcomponent, Vector.mem_toList_iff, Vector.mem_iff_getElem]
  constructor
  · rintro hall σ ⟨i, hi, heq⟩
    exact hall i hi σ heq
  · intro hall i hi σ heq
    exact hall σ ⟨i, hi, heq⟩

/-- **Where the path rests.**  The projected path comes to rest at the last limit, if there is
one. -/
theorem rests_iff (hbox : box.Valid) (hx : box.contains x = true) (d : Vector ℝ n) {m : ℝ}
    (hm : 0 ≤ m) :
    (∀ t, m ≤ t → box.path x (ofReals d) t = box.path x (ofReals d) m) ↔
      ∃ last ∈ (box.stepLimits x (ofReals d)).last, last ≤ ofReal m := by
  obtain ⟨X, rfl⟩ := exists_ofReals_of_contains hx
  obtain ⟨-, last, hlast, hrest⟩ := summarizes_stepLimits hbox hx d
  have hlimit : (∃ last ∈ (box.stepLimits (ofReals X) (ofReals d)).last, last ≤ ofReal m) ↔
      ∃ l ∈ last, l ≤ m := by
    rw [hlast]
    cases last <;> simp
  rw [hlimit, hrest]
  have hcomponent (i : Nat) (hi : i < n) := (path_component hbox hx d i hi).rests_iff hm
  simp only [path, Vector.ext_iff, hbox.getElem_project, getElem_axpy, getElem_ofReals,
    ← ofReal_mul, ← ofReal_add, Vector.mem_toList_iff, Vector.mem_iff_getElem]
  constructor
  · intro hrests
    have hall (i : Nat) (hi : i < n) := (hcomponent i hi).mp fun t ht => hrests t ht i hi
    refine ⟨hm, ?_, ?_⟩
    · rintro ⟨i, hi, heq⟩
      exact (hall i hi).1 heq
    · rintro σ ⟨i, hi, heq⟩
      exact (hall i hi).2 σ heq
  · rintro ⟨-, hlimited, hreached⟩ t ht i hi
    have hends := (hcomponent i hi).mpr
      ⟨fun heq => hlimited ⟨i, hi, heq⟩, fun σ heq => hreached σ ⟨i, hi, heq⟩⟩
    exact hends t ht

/-- **The limits of a path.**  They say where it is straight and where it rests. -/
theorem describes_stepLimits (hbox : box.Valid) (hx : box.contains x = true) (d : Vector ℝ n) :
    (box.stepLimits x (ofReals d)).Describes box x (ofReals d) where
  straight t ht hle := by
    rw [straight_iff hbox hx d ht]
    intro first hfirst
    exact OrderedScalar.not_lt_of_le (hle first hfirst)
  bent first hfirst t hlt := by
    obtain ⟨h, rfl, hpos⟩ := (summarizes_stepLimits hbox hx d).exists_first hfirst
    have ht : 0 < t := hpos.trans (ofReal_lt_ofReal.mp hlt)
    rw [Ne, straight_iff hbox hx d ht.le]
    intro hstraight
    exact hstraight (ofReal h) hfirst hlt
  rests last hlast := by
    obtain ⟨l, rfl, hl⟩ := (summarizes_stepLimits hbox hx d).exists_last hlast
    have hrests := (rests_iff hbox hx d hl).mpr ⟨ofReal l, hlast, by simp⟩
    refine ⟨l, rfl, ⟨hl, hrests⟩, ?_⟩
    rintro m ⟨hm, hrests⟩
    obtain ⟨last, hmem, hle⟩ := (rests_iff hbox hx d hm).mp hrests
    cases hlast.symm.trans hmem
    exact ofReal_le_ofReal.mp hle
  restless hlast m hm := by
    by_contra! hrests
    obtain ⟨last, hmem, -⟩ := (rests_iff hbox hx d hm).mp hrests
    rw [hlast] at hmem
    cases hmem

end Box

end Descent
