/-
# Damped pairs

With damping a variable metric keeps something of every displacement.  In exact arithmetic a
gradient change that shows no positive curvature is blended with the one that the size of the
newest pair predicts, and the curvature of the blend is a fifth of the predicted one, whatever
pairs have been kept before, damped ones among them.

* `CurvaturePair.Valid.exists_reals` : what is kept is of real numbers;
* `exists_newestInverseSize` : the size that the newest pair suggests is positive;
* `dampingWeight`, `dot_damped` : the blend and its curvature;
* `Metric.length_pairs_after` : a metric within its capacity;
* `Metric.damping_keeps_displacements` : what a damping metric keeps, and another one does not.
-/
import Mathlib
import Descent.Direction.Metric
import Descent.Proofs.Exact.Conjugate

namespace Descent

open Scalar ExactScalar StrictScalar Matrix

variable {α : Type} [Scalar α] {n : Nat}

/-! ## The size of the newest pair -/

section Sizes

variable [ExactScalar α]

/-- A valid pair is of real numbers. -/
theorem CurvaturePair.Valid.exists_reals {p : CurvaturePair α n} (h : p.Valid) :
    ∃ s y : Vector ℝ n, p.s = ofReals s ∧ p.y = ofReals y ∧ 0 < dot s y := by
  obtain ⟨s, hs⟩ := exists_ofReals fun i hi => (isFinite_of_isFinite_dot h.finite i hi).1
  obtain ⟨y, hy⟩ := exists_ofReals fun i hi => (isFinite_of_isFinite_dot h.finite i hi).2
  have hpos := h.pos
  rw [hs, hy, dot_ofReals, zero_lt_ofReal] at hpos
  exact ⟨s, y, hs, hy, hpos⟩

/-- A gradient change of positive curvature is not zero. -/
theorem dot_self_pos_of_dot_pos {s y : Vector ℝ n} (h : 0 < dot s y) : 0 < dot y y := by
  rw [dot_self_pos_iff]
  rintro rfl
  simp [dot_eq, dotProduct, coords, zeros] at h

/-- The size that a valid pair suggests. -/
theorem CurvaturePair.Valid.exists_inverseSize {p : CurvaturePair α n} (h : p.Valid) :
    ∃ γ : ℝ, 0 < γ ∧ p.inverseSize .whole = ofReal γ ∧ dot p.s p.y / dot p.y p.y = ofReal γ := by
  obtain ⟨s, y, hs, hy, hpos⟩ := h.exists_reals
  have hsquare := dot_self_pos_of_dot_pos hpos
  refine ⟨dot s y / dot y y, div_pos hpos hsquare, ?_, ?_⟩
  · have hproduct : 1 / dot s y * dot y y ≠ 0 :=
      (mul_pos (one_div_pos.mpr hpos) hsquare).ne'
    rw [inverseSize, inverseCurvature, Support.inner, h.inverse, hs, hy, dot_ofReals, dot_ofReals,
      ← ofReal_one, ← ofReal_div 1 hpos.ne', ← ofReal_mul, ← ofReal_div 1 hproduct]
    congr 1
    field_simp
  · rw [hs, hy, dot_ofReals, dot_ofReals, ofReal_div _ hsquare.ne']

/-- The size that the newest of valid pairs suggests is a positive real number. -/
theorem exists_newestInverseSize {pairs : List (CurvaturePair α n)} (h : ∀ p ∈ pairs, p.Valid) :
    ∃ γ : ℝ, 0 < γ ∧ newestInverseSize pairs = ofReal γ ∧ (pairs = [] → γ = 1) ∧
      ∀ p ∈ pairs.head?, dot p.s p.y / dot p.y p.y = ofReal γ := by
  cases pairs with
  | nil => exact ⟨1, one_pos, ofReal_one.symm, fun _ => rfl, nofun⟩
  | cons p older =>
    obtain ⟨γ, hγ, hsize, hquotient⟩ := (h p List.mem_cons_self).exists_inverseSize
    refine ⟨γ, hγ, ?_, nofun, ?_⟩
    · rw [newestInverseSize, hsize]
      exact if_pos ⟨isFinite_ofReal γ, zero_lt_ofReal.mpr hγ⟩
    · rintro q ⟨⟩
      exact hquotient

end Sizes

/-! ## The blend -/

/-- The weight of a gradient change in its blend with the predicted one. -/
noncomputable def dampingWeight (γ : ℝ) (s y : Vector ℝ n) : ℝ :=
  0.8 * (dot s s / γ) / (dot s s / γ - dot s y)

/-- The blend of a gradient change with the predicted one. -/
noncomputable def damped (γ : ℝ) (s y : Vector ℝ n) : Vector ℝ n :=
  axpy ((1 - dampingWeight γ s y) / γ) s (scale (dampingWeight γ s y) y)

section Blends

variable {γ : ℝ} {s y : Vector ℝ n}

/-- Without positive curvature the predicted one exceeds it. -/
theorem predicted_sub_pos (hγ : 0 < γ) (hs : s ≠ zeros n) (hcurvature : dot s y ≤ 0) :
    0 < dot s s / γ - dot s y := by
  have hpredicted : 0 < dot s s / γ := div_pos (dot_self_pos_iff.mpr hs) hγ
  linarith

/-- The gradient change takes part in the blend, with at most four fifths. -/
theorem dampingWeight_bounds (hγ : 0 < γ) (hs : s ≠ zeros n) (hcurvature : dot s y ≤ 0) :
    0 < dampingWeight γ s y ∧ dampingWeight γ s y ≤ 0.8 := by
  have hpredicted : 0 < dot s s / γ := div_pos (dot_self_pos_iff.mpr hs) hγ
  have hexcess := predicted_sub_pos hγ hs hcurvature
  constructor
  · exact div_pos (mul_pos (by norm_num) hpredicted) hexcess
  · rw [dampingWeight, div_le_iff₀ hexcess]
    linarith

/-- The curvature of the blend is a fifth of the predicted one. -/
theorem dot_damped (hγ : 0 < γ) (hs : s ≠ zeros n) (hcurvature : dot s y ≤ 0) :
    dot s (damped γ s y) = 0.2 * dot s s / γ := by
  have hexcess := predicted_sub_pos hγ hs hcurvature
  have hweight : dampingWeight γ s y * (dot s s / γ - dot s y) = 0.8 * (dot s s / γ) :=
    div_mul_cancel₀ _ hexcess.ne'
  have hexpand : dot s (damped γ s y) =
      (1 - dampingWeight γ s y) / γ * dot s s + dampingWeight γ s y * dot s y := by
    rw [damped, dot_eq, coords_axpy, coords_scale, dotProduct_add, dotProduct_smul,
      dotProduct_smul, ← dot_eq, ← dot_eq, smul_eq_mul, smul_eq_mul, add_comm]
  calc dot s (damped γ s y)
      = dot s s / γ - dampingWeight γ s y * (dot s s / γ - dot s y) := by
        rw [hexpand]
        ring
    _ = 0.2 * dot s s / γ := by
        rw [hweight]
        ring

variable [ExactScalar α] [StrictScalar α]

/-- What a metric damps is the blend of real numbers. -/
theorem damp_ofReals {pairs : List (CurvaturePair α n)} (hsize : newestInverseSize pairs = ofReal γ)
    (hγ : 0 < γ) (hs : s ≠ zeros n) (hcurvature : dot s y ≤ 0) :
    damp pairs (ofReals s) (ofReals y) = ofReals (damped γ s y) := by
  have hexcess := predicted_sub_pos hγ hs hcurvature
  have hweight : 0.8 * (dot (ofReals s : Vector α n) (ofReals s) / ofReal γ) /
      (dot (ofReals s : Vector α n) (ofReals s) / ofReal γ - dot (ofReals s) (ofReals y)) =
        ofReal (dampingWeight γ s y) := by
    rw [dampingWeight, dot_ofReals, dot_ofReals, ofReal_div _ hexcess.ne', ofReal_mul, ofReal_sub,
      ofReal_div _ hγ.ne', ofReal_ofScientific]
  have hshare : (1 - ofReal (dampingWeight γ s y)) / ofReal γ =
      (ofReal ((1 - dampingWeight γ s y) / γ) : α) := by
    rw [ofReal_div _ hγ.ne', ofReal_sub, ofReal_one]
  unfold damp
  dsimp only
  rw [hsize, hweight, hshare]
  ext i hi
  simp only [damped, getElem_axpy, getElem_scale, getElem_ofReals, ofReal_add, ofReal_mul]

end Blends

/-! ## What is kept -/

namespace Metric

/-- A request leaves a metric within its capacity. -/
theorem length_pairs_perform {c : Config α} (hmemory : 0 < c.memory) {m : Metric α n}
    (hm : m.pairs.length ≤ c.memory) (request : Request α n) :
    (m.perform c request).pairs.length ≤ c.memory := by
  cases request with
  | update s y =>
    show (learn c m.pairs s y).length ≤ c.memory
    unfold learn
    split
    · exact length_pushRecent_le _ hmemory hm
    · exact hm
  | compute box x g pg => exact hm
  | steepest pg => exact hm
  | reset => exact Nat.zero_le _

/-- Whatever was asked, a metric stays within its capacity. -/
theorem length_pairs_after {c : Config α} (hmemory : 0 < c.memory) (requests : List (Request α n)) :
    (after c requests).pairs.length ≤ c.memory := by
  induction requests using List.reverseRecOn with
  | nil => exact Nat.zero_le _
  | append_singleton requests request ih =>
    rw [after, List.foldl_concat]
    exact length_pairs_perform hmemory ih request

/-- Without damping nothing is kept of a gradient change without positive curvature. -/
theorem perform_update_of_not_pos {c : Config α} (hpowell : c.powell = false) (m : Metric α n)
    {s y : Vector α n} (hcurvature : ¬ 0 < dot s y) :
    admit? c m.pairs s y = none ∧ m.perform c (.update s y) = m := by
  have hnone : admit? c m.pairs s y = none := by
    rw [admit?, if_neg hcurvature, hpowell]
    rfl
  refine ⟨hnone, ?_⟩
  rw [perform, learn, hnone]

variable [ExactScalar α]

/-- A pair whose curvature is a positive real number passes the test. -/
theorem exists_positivePair? {s y : Vector ℝ n} (h : 0 < dot s y) :
    ∃ pair : CurvaturePair α n, positivePair? (ofReals s) (ofReals y) = some pair ∧
      pair.s = ofReals s ∧ pair.y = ofReals y := by
  have hcurvature : dot (ofReals s : Vector α n) (ofReals y) = ofReal (dot s y) := dot_ofReals s y
  refine ⟨⟨ofReals s, ofReals y, _⟩, if_pos ?_, rfl, rfl⟩
  rw [hcurvature]
  exact ⟨zero_lt_ofReal.mpr h, isFinite_ofReal _⟩

variable [StrictScalar α]

/-- **Damping keeps every displacement.**  In exact arithmetic and with room for a pair, whatever
was asked before:

* a metric that damps keeps a pair for every displacement other than zero, the newest one of its
  memory.  Where the curvature is positive it is the pair that was offered.  Elsewhere the
  gradient change is blended with `s/γ`, with a weight of at most four fifths, where `γ` is the
  size that the newest pair suggests, or one; the curvature is then a fifth of `s·s/γ`;
* a metric that does not damp keeps nothing where the curvature is not positive, and stays as it
  is. -/
theorem damping_keeps_displacements (c : Config α) (hmemory : 1 ≤ c.memory) :
    (c.powell = true → ∀ (requests : List (Request α n)) (s y : Vector ℝ n), s ≠ zeros n →
      let m := after c requests
      ∃ (γ : ℝ) (pair : CurvaturePair α n),
        0 < γ ∧ (m.pairs = [] → γ = 1) ∧
        (∀ p ∈ m.pairs.head?, dot p.s p.y / dot p.y p.y = ofReal γ) ∧
        admit? c m.pairs (ofReals s) (ofReals y) = some pair ∧
        (m.perform c (.update (ofReals s) (ofReals y))).pairs = (pair :: m.pairs).take c.memory ∧
        pair.s = ofReals s ∧ pair.ρ = 1 / dot pair.s pair.y ∧
        (0 < dot s y → pair.y = ofReals y) ∧
        (dot s y ≤ 0 → ∃ (θ : ℝ) (blend : Vector ℝ n), 0 < θ ∧ θ ≤ 0.8 ∧
          blend = axpy ((1 - θ) / γ) s (scale θ y) ∧ pair.y = ofReals blend ∧
          dot s blend = 0.2 * dot s s / γ ∧ 0 < dot s blend)) ∧
    (c.powell = false → ∀ (m : Metric α n) (s y : Vector α n), ¬ 0 < dot s y →
      admit? c m.pairs s y = none ∧ m.perform c (.update s y) = m) := by
  constructor
  · intro hpowell requests s y hs m
    obtain ⟨γ, hγ, hsize, hfresh, hnewest⟩ :=
      exists_newestInverseSize (valid_of_mem_after c requests)
    have hkept {pair : CurvaturePair α n}
        (h : admit? c m.pairs (ofReals s) (ofReals y) = some pair) :
        (m.perform c (.update (ofReals s) (ofReals y))).pairs =
          (pair :: m.pairs).take c.memory := by
      show learn c m.pairs (ofReals s) (ofReals y) = _
      rw [learn, h]
      exact pushRecent_eq_take pair hmemory (length_pairs_after hmemory requests)
    have hcurvature : dot (ofReals s : Vector α n) (ofReals y) = ofReal (dot s y) :=
      dot_ofReals s y
    rcases lt_or_ge 0 (dot s y) with hpos | hnonpos
    · obtain ⟨pair, hpair, hs', hy'⟩ := exists_positivePair? (α := α) hpos
      have hadmitted : admit? c m.pairs (ofReals s) (ofReals y) = some pair := by
        rw [admit?, hcurvature, if_pos (zero_lt_ofReal.mpr hpos), hpair]
      exact ⟨γ, pair, hγ, hfresh, hnewest, hadmitted, hkept hadmitted, hs',
        (valid_of_admit? hadmitted).2.inverse, fun _ => hy', fun h => absurd hpos h.not_gt⟩
    · have hdot := dot_damped hγ hs hnonpos
      have hdamped : 0 < dot s (damped γ s y) := by
        rw [hdot]
        exact div_pos (mul_pos (by norm_num) (dot_self_pos_iff.mpr hs)) hγ
      obtain ⟨hweight, hmost⟩ := dampingWeight_bounds hγ hs hnonpos
      obtain ⟨pair, hpair, hs', hy'⟩ := exists_positivePair? (α := α) hdamped
      have hnot : ¬ 0 < dot (ofReals s : Vector α n) (ofReals y) := by
        rw [hcurvature, zero_lt_ofReal]
        exact hnonpos.not_gt
      have hadmitted : admit? c m.pairs (ofReals s) (ofReals y) = some pair := by
        rw [admit?, if_neg hnot, if_pos hpowell, damp_ofReals hsize hγ hs hnonpos, hpair]
      exact ⟨γ, pair, hγ, hfresh, hnewest, hadmitted, hkept hadmitted, hs',
        (valid_of_admit? hadmitted).2.inverse, fun h => absurd h hnonpos.not_gt,
        fun _ => ⟨dampingWeight γ s y, damped γ s y, hweight, hmost, rfl, hy', hdot, hdamped⟩⟩
  · intro hpowell m s y hcurvature
    exact perform_update_of_not_pos hpowell m hcurvature

/-- On the line, a metric that damps, offered the opposite of its displacement twice: the curvature
that it keeps is a fifth first and then a fifth of that.  Another one keeps nothing. -/
theorem opposite_change_damped :
    let damping : Config ℝ := { powell := true }
    let opposed : Request ℝ 1 := .update #v[1] #v[-1]
    (∃ first second, (after damping [opposed, opposed]).pairs = [second, first] ∧
      dot first.s first.y = 1 / 5 ∧ dot second.s second.y = 1 / 25) ∧
    (new 1).perform ({} : Config ℝ) opposed = new 1 := by
  intro damping opposed
  have hunit : (#v[1] : Vector ℝ 1) ≠ zeros 1 := by
    rw [← dot_self_pos_iff]
    norm_num [dot_eq, dotProduct, coords]
  have hopposed : dot (#v[1] : Vector ℝ 1) #v[-1] ≤ 0 := by
    norm_num [dot_eq, dotProduct, coords]
  have hline (v : Vector ℝ 1) : dot #v[1] v = v[0] := by
    simp [dot_eq, dotProduct, coords]
  have hsquare (v : Vector ℝ 1) : dot v v = v[0] * v[0] := by
    simp [dot_eq, dotProduct, coords]
  constructor
  · obtain ⟨hkeeps, -⟩ := damping_keeps_displacements (α := ℝ) (n := 1) damping (by decide)
    simp only [ofReals_real] at hkeeps
    obtain ⟨γ, first, -, hγ, -, -, hfirst, hs, -, -, hblend⟩ :=
      hkeeps rfl [] #v[1] #v[-1] hunit
    obtain ⟨-, blend, -, -, -, hy, hcurvature, -⟩ := hblend hopposed
    have hfifth : blend[0] = 1 / 5 := by
      rw [← hline, hcurvature, hγ rfl, hline]
      norm_num
    have hkept : (after damping [opposed]).pairs = [first] := hfirst
    -- the size that the damped pair suggests is five
    obtain ⟨δ, second, -, -, hδ, -, hsecond, hs', -, -, hblend'⟩ :=
      hkeeps rfl [opposed] #v[1] #v[-1] hunit
    obtain ⟨-, blend', -, -, -, hy', hcurvature', -⟩ := hblend' hopposed
    have hfive : ofReal δ = (5 : ℝ) := by
      rw [← hδ first (by rw [hkept]; rfl), hs, hy, hline, hsquare, hfifth]
      norm_num
    refine ⟨first, second, ?_, ?_, ?_⟩
    · rw [hkept] at hsecond
      exact hsecond
    · rw [hs, hy, hline, hfifth]
    · rw [hs', hy', hcurvature', show δ = 5 from hfive, hline]
      norm_num
  · exact ((damping_keeps_displacements (α := ℝ) (n := 1) {} (by decide)).2 rfl (new 1) #v[1]
      #v[-1] hopposed.not_gt).2

end Metric

end Descent
