/-
# A bracket shrinks until the search ends

Once the search that brackets has enclosed an acceptable step, no answer whatever keeps it
going: in exact arithmetic the width of the bracket and the width one round before, taken
together, fall by a factor in every round, and a bracket that is too narrow ends the search.

* `Run.Ends` : the search ends, whatever it is told;
* `Setup`, `Setup.Describes` : the real numbers that a search is set up with;
* `Enclosed` : a bracket between two real numbers, with a step to try;
* `Credit` : a bound for the product of the two widths, which every round lowers;
* `Enclosed.ends` : a search with a bracket ends.
-/
import Mathlib
import Descent.Proofs.Bracketing
import Descent.Proofs.Exact.Strict

namespace Descent

open Scalar ExactScalar StrictScalar

/-! ## Searches that end -/

/-- A search that is over after some finite answers, whatever these are. -/
inductive Run.Ends {α : Type} [Scalar α] (c : Config α) : Run α → Prop
  /-- Every answer ends the search or leads to one that ends. -/
  | intro {run : Run α}
      (h : ∀ value slope run', isFinite value = true → isFinite slope = true →
        run.answer c value slope = .next run' → Run.Ends c run') : Run.Ends c run

/-- The real numbers that a search is set up with. -/
structure Setup where
  /-- The value at step zero. -/
  value : ℝ
  /-- The slope at step zero. -/
  slope : ℝ
  /-- The least step. -/
  least : ℝ
  /-- The greatest step. -/
  greatest : ℝ
  /-- The fraction of the predicted decrease that suffices. -/
  sufficient : ℝ
  /-- The fraction of the initial slope that is small. -/
  flat : ℝ
  /-- The relative width below which a bracket is too narrow. -/
  narrow : ℝ
  slope_neg : slope < 0
  least_pos : 0 < least
  least_le : least ≤ greatest
  sufficient_pos : 0 < sufficient
  sufficient_lt : sufficient < flat
  narrow_pos : 0 < narrow

variable {α : Type} [Scalar α] [ExactScalar α]

/-- A search is set up with these numbers. -/
structure Setup.Describes (S : Setup) (c : Config α) (frame : Frame α) : Prop where
  cubic : c.lineSearch = .cubic
  value : frame.value = ofReal S.value
  slope : frame.slope = ofReal S.slope
  minStep : frame.minStep = ofReal S.least
  maxStep : frame.maxStep = ofReal S.greatest
  sufficient : c.sftol = ofReal S.sufficient
  flat : c.curvatureTolerance = ofReal S.flat
  narrow : c.sxtol = ofReal S.narrow

/-! ## Brackets between real numbers -/

/-- The two ends lie at real numbers, in either order. -/
inductive Span.Between (span : Span α) (lo hi : ℝ) : Prop where
  /-- The best step is the lower end. -/
  | below (best : span.best.position = ofReal lo) (other : span.other.position = ofReal hi)
  /-- The best step is the upper end. -/
  | above (best : span.best.position = ofReal hi) (other : span.other.position = ofReal lo)

namespace Span.Between

variable {span : Span α} {lo hi : ℝ}

/-- The best step is one of the ends. -/
theorem best_eq (h : span.Between lo hi) :
    span.best.position = ofReal lo ∨ span.best.position = ofReal hi := by
  cases h with
  | below hbest _ => exact .inl hbest
  | above hbest _ => exact .inr hbest

/-- The lower end is the smaller one. -/
theorem smaller_eq (h : span.Between lo hi) (hlt : lo < hi) :
    smaller span.best.position span.other.position = ofReal lo := by
  cases h with
  | below hbest hother => rw [hbest, hother, smaller_ofReal, min_eq_left hlt.le]
  | above hbest hother => rw [hbest, hother, smaller_ofReal, min_eq_right hlt.le]

/-- The upper end is the larger one. -/
theorem larger_eq (h : span.Between lo hi) (hlt : lo < hi) :
    larger span.best.position span.other.position = ofReal hi := by
  cases h with
  | below hbest hother => rw [hbest, hother, larger_ofReal, max_eq_right hlt.le]
  | above hbest hother => rw [hbest, hother, larger_ofReal, max_eq_left hlt.le]

/-- A trial inside a bracket becomes one of its ends. -/
theorem moves {position t : Span α} {s : ℝ} (h : position.Between lo hi)
    (hbracketed : position.bracketed = true) (hmoves : position.Moves (ofReal s) t) :
    t.bracketed = true ∧ (t.Between lo s ∨ t.Between s hi) := by
  rcases hmoves with ⟨hspan, hbest, hother⟩ | ⟨hspan, hbest, hother⟩ | ⟨hspan, hbest, hother⟩
  · refine ⟨hspan, ?_⟩
    rcases h with ⟨hb, ho⟩ | ⟨hb, ho⟩
    · exact .inl (.below (hbest.trans hb) hother)
    · exact .inr (.above (hbest.trans hb) hother)
  · refine ⟨hspan, ?_⟩
    rcases h with ⟨hb, ho⟩ | ⟨hb, ho⟩
    · exact .inl (.above hbest (hother.trans hb))
    · exact .inr (.below hbest (hother.trans hb))
  · refine ⟨hspan.trans hbracketed, ?_⟩
    rcases h with ⟨hb, ho⟩ | ⟨hb, ho⟩
    · exact .inr (.below hbest (hother.trans ho))
    · exact .inl (.above hbest (hother.trans ho))

variable [StrictScalar α]

/-- The distance of the ends. -/
theorem width_eq (h : span.Between lo hi) (hlt : lo < hi) :
    Scalar.abs (span.other.position - span.best.position) = ofReal (hi - lo) := by
  cases h with
  | below hbest hother =>
    rw [hbest, hother, ← ofReal_sub, ← ofReal_abs, abs_of_pos (sub_pos.mpr hlt)]
  | above hbest hother =>
    rw [hbest, hother, ← ofReal_sub, ← ofReal_abs, abs_sub_comm, abs_of_pos (sub_pos.mpr hlt)]

/-- The step midway between the ends. -/
theorem midpoint_eq (h : span.Between lo hi) :
    span.best.position + 0.5 * (span.other.position - span.best.position) =
      ofReal ((lo + hi) / 2) := by
  cases h with
  | below hbest hother =>
    rw [hbest, hother, literal_eq, ← ofReal_sub, ← ofReal_mul, ← ofReal_add]
    refine congrArg ofReal ?_
    push_cast
    ring
  | above hbest hother =>
    rw [hbest, hother, literal_eq, ← ofReal_sub, ← ofReal_mul, ← ofReal_add]
    refine congrArg ofReal ?_
    push_cast
    ring

end Span.Between

/-- A search with a bracket between two real numbers and a step to try; the last number is the
width of the bracket one round before. -/
structure Enclosed (S : Setup) (c : Config α) (run : Run α) (lo s hi before : ℝ) : Prop where
  describes : S.Describes c run.frame
  bracketed : run.bracket.span.bracketed = true
  between : run.bracket.span.Between lo hi
  low : run.bracket.low = ofReal lo
  high : run.bracket.high = ofReal hi
  width : run.bracket.width = ofReal (hi - lo)
  previousWidth : run.bracket.previousWidth = ofReal before
  step : run.step = ofReal s
  /-- A step that is not inside the bracket ends the search. -/
  placed : s = lo ∨ s = hi ∨ S.least ≤ s
  lower : lo = 0 ∨ S.least ≤ lo
  upper : hi ≤ S.greatest

/-- A step inside a bracket that has not shrunk by a third in two rounds lies midway, unless it
had to be moved into the range of steps. -/
def Halves (S : Setup) (before lo s hi : ℝ) : Prop :=
  s = lo ∨ s = hi ∨
    (33 / 50 * before ≤ hi - lo → s = min (max ((lo + hi) / 2) S.least) S.greatest)

section Enclosed

variable [StrictScalar α] {S : Setup} {c : Config α} {run run' : Run α}
  {lo s hi before : ℝ}

/-- The range after a round that has put the ends at two real numbers. -/
theorem enclosed_of_settle {frame : Frame α} {b b' : Bracket α} {early : Bool} {span : Span α}
    {proposed reference step : α} {trials : Nat} (hS : S.Describes c frame)
    (hspan : span.bracketed = true)
    (hends : span.Between lo hi) (hlt : lo < hi) (hlower : lo = 0 ∨ S.least ≤ lo)
    (hupper : hi ≤ S.greatest) {width : ℝ} (hwidth : b.width = ofReal width)
    (hbefore : b.previousWidth = ofReal before)
    (h : b.settle c.sxtol frame early span proposed = .next b' step) :
    ∃ s, Enclosed S c { frame, reference, step, trials, bracket := b' } lo s hi
        width ∧
      Halves S before lo s hi := by
  obtain ⟨hb', hstep⟩ := Bracket.settle_bracketed hspan h
  have henclosed (s : ℝ) (hs : step = ofReal s) (hplaced : s = lo ∨ s = hi ∨ S.least ≤ s) :
      Enclosed S c { frame, reference, step, trials, bracket := b' } lo s hi
        width := by
    rw [hb']
    exact ⟨hS, hspan, hends, hends.smaller_eq hlt, hends.larger_eq hlt, hends.width_eq hlt, hwidth,
      hs, hplaced, hlower, hupper⟩
  rcases hstep with rfl | hstep
  · -- the search falls back to the best step
    rcases hends.best_eq with hbest | hbest
    · exact ⟨lo, henclosed lo hbest (.inl rfl), .inl rfl⟩
    · exact ⟨hi, henclosed hi hbest (.inr (.inl rfl)), .inr (.inl rfl)⟩
  · rw [hS.minStep, hS.maxStep] at hstep
    by_cases hhalve : 33 / 50 * before ≤ hi - lo
    · have hmid : b.halved span proposed = ofReal ((lo + hi) / 2) := by
        rw [Bracket.halved, if_pos, hends.midpoint_eq]
        rw [hbefore, hends.width_eq hlt, literal_eq, ← ofReal_mul, ofReal_le_ofReal]
        norm_num
        exact hhalve
      rw [hmid, larger_ofReal, smaller_ofReal] at hstep
      exact ⟨_, henclosed _ hstep (.inr (.inr (le_min (le_max_right _ _) S.least_le))),
        .inr (.inr fun _ => rfl)⟩
    · obtain ⟨s, hs, hleast, -⟩ := exists_clamped (b.halved span proposed) S.least_le
      exact ⟨s, henclosed s (hstep.trans hs) (.inr (.inr hleast)),
        .inr (.inr fun h => absurd h hhalve)⟩

/-- **A round inside a bracket.**  Where another round follows, the step lay inside the bracket,
which was wide enough, and has become one of its ends. -/
theorem Enclosed.next (h : Enclosed S c run lo s hi before) {value slope : α}
    (hanswer : run.answer c value slope = .next run') :
    lo < s ∧ s < hi ∧ S.least ≤ s ∧ S.narrow * hi < hi - lo ∧
      ∃ lo' s' hi', (lo' = lo ∧ hi' = s ∨ lo' = s ∧ hi' = hi) ∧
        Enclosed S c run' lo' s' hi' (hi - lo) ∧ Halves S before lo' s' hi' := by
  obtain ⟨b', step, hround, rfl⟩ := Run.answer_eq_next h.describes.cubic hanswer
  obtain ⟨hproceeds, hsettle⟩ := Bracket.advance_eq_next hround
  have hlo : lo < s := by
    have habove := hproceeds.above h.bracketed
    rwa [h.step, h.low, ofReal_le_ofReal, not_le] at habove
  have hhi : s < hi := by
    have hbelow := hproceeds.below h.bracketed
    rwa [h.step, h.high, ofReal_le_ofReal, not_le] at hbelow
  have hwide : S.narrow * hi < hi - lo := by
    have hwide := hproceeds.wide h.bracketed
    rwa [h.low, h.high, h.describes.narrow, ← ofReal_sub, ← ofReal_mul, ofReal_le_ofReal,
      not_le] at hwide
  -- the step is admissible, since it is not one of the ends
  have hleast : S.least ≤ s := by
    rcases h.placed with hs | hs | hs
    · exact absurd hs hlo.ne'
    · exact absurd hs hhi.ne
    · exact hs
  refine ⟨hlo, hhi, hleast, hwide, ?_⟩
  have hmoves := run.bracket.moves_refine
    (run.bracket.tilts c run.frame ⟨run.step, value, slope⟩) (run.frame.incline c)
    ⟨run.step, value, slope⟩
  dsimp only at hmoves
  rw [h.step] at hmoves hsettle
  obtain ⟨hspan, hends | hends⟩ := h.between.moves h.bracketed hmoves
  · obtain ⟨s', henclosed, hhalves⟩ := enclosed_of_settle h.describes hspan hends hlo h.lower
      (hhi.le.trans h.upper) h.width h.previousWidth hsettle
    exact ⟨lo, s', s, .inl ⟨rfl, rfl⟩, henclosed, hhalves⟩
  · obtain ⟨s', henclosed, hhalves⟩ := enclosed_of_settle h.describes hspan hends hhi
      (.inr hleast) h.upper h.width h.previousWidth hsettle
    exact ⟨s, s', hi, .inr ⟨rfl, rfl⟩, henclosed, hhalves⟩

/-- A step that is not inside the bracket ends the search. -/
theorem Enclosed.ends_of_outside (h : Enclosed S c run lo s hi before) (hs : s ≤ lo ∨ hi ≤ s) :
    run.Ends c := by
  refine .intro fun value slope run' _ _ hanswer => ?_
  obtain ⟨hlo, hhi, -⟩ := h.next hanswer
  rcases hs with hs | hs
  · exact absurd hlo (not_lt.mpr hs)
  · exact absurd hhi (not_lt.mpr hs)

/-! ## The widths of a bracket -/

/-- A bound for the product of the width of a bracket and the one before; a step midway stands for
the progress that it will make. -/
def Credit (lo s hi before bound : ℝ) : Prop :=
  (hi - lo) * before ≤ bound ∨ (2 * s = lo + hi ∧ 7 / 10 * ((hi - lo) * before) ≤ bound)

/-- A bracket that is wide enough and lies above the least step needs a positive bound. -/
theorem Credit.floor {bound : ℝ} (h : Credit lo s hi before bound) {narrow least : ℝ}
    (hnarrow : 0 < narrow) (hleast : 0 < least) (hhi : least ≤ hi) (hwide : narrow * hi < hi - lo)
    (hwidth : hi - lo ≤ before) : 7 / 10 * (narrow * least) ^ 2 ≤ bound := by
  have hgap : narrow * least ≤ hi - lo :=
    (mul_le_mul_of_nonneg_left hhi hnarrow.le).trans hwide.le
  have hpos : 0 < narrow * least := mul_pos hnarrow hleast
  have hsquare : (narrow * least) ^ 2 ≤ (hi - lo) * before := by
    rw [pow_two]
    exact mul_le_mul hgap (hgap.trans hwidth) hpos.le (hpos.le.trans hgap)
  have hnonneg : 0 ≤ (narrow * least) ^ 2 := sq_nonneg _
  rcases h with h | ⟨-, h⟩
  · linarith
  · linarith

/-- **A round lowers the credit**, unless a step midway had to be moved up to the least step. -/
theorem Credit.shrink {bound lo' s' hi' : ℝ} (h : Credit lo s hi before bound) (hlo : lo < s)
    (hhi : s < hi) (hwidth : hi - lo ≤ before)
    (hpart : lo' = lo ∧ hi' = s ∨ lo' = s ∧ hi' = hi) (hhalves : Halves S before lo' s' hi')
    (hlower : lo' = 0 ∨ S.least ≤ lo') (hupper : hi' ≤ S.greatest) :
    s' = lo' ∨ s' = hi' ∨ Credit lo' s' hi' (hi - lo) (18 / 25 * bound) ∨
      (lo' = 0 ∧ s' = S.least) := by
  have hpos : 0 < hi - lo := sub_pos.mpr (hlo.trans hhi)
  have hpos' : 0 < hi' - lo' := by rcases hpart with ⟨rfl, rfl⟩ | ⟨rfl, rfl⟩ <;> linarith
  have hless : hi' - lo' ≤ hi - lo := by rcases hpart with ⟨rfl, rfl⟩ | ⟨rfl, rfl⟩ <;> linarith
  have hproduct : (hi' - lo') * (hi - lo) ≤ (hi - lo) * before := by
    rw [mul_comm]
    exact mul_le_mul_of_nonneg_left (hless.trans hwidth) hpos.le
  rcases h with hbound | ⟨hmid, hbound⟩
  · by_cases hhalve : 33 / 50 * before ≤ hi' - lo'
    · rcases hhalves with hs | hs | hs
      · exact .inl hs
      · exact .inr (.inl hs)
      · have hs' := hs hhalve
        have hmax : (lo' + hi') / 2 ≤ S.greatest := by linarith
        rcases le_or_gt S.least ((lo' + hi') / 2) with hle | hgt
        · -- the step lies midway
          rw [max_eq_left hle, min_eq_left hmax] at hs'
          refine .inr (.inr (.inl (.inr ⟨by linarith, ?_⟩)))
          nlinarith
        · -- the step was moved up
          rw [max_eq_right hgt.le, min_eq_left S.least_le] at hs'
          rcases hlower with hzero | hleast
          · exact .inr (.inr (.inr ⟨hzero, hs'⟩))
          · linarith
    · -- the bracket has shrunk by a third in two rounds
      refine .inr (.inr (.inl (.inl ?_)))
      rw [not_le] at hhalve
      have hlt : (hi' - lo') * (hi - lo) ≤ 33 / 50 * ((hi - lo) * before) := by
        have := mul_le_mul_of_nonneg_right hhalve.le hpos.le
        linarith
      nlinarith
  · -- the step that lay midway has halved the bracket
    refine .inr (.inr (.inl (.inl ?_)))
    have hhalf : hi' - lo' = (hi - lo) / 2 := by
      rcases hpart with ⟨rfl, rfl⟩ | ⟨rfl, rfl⟩ <;> linarith
    have hsquare : (hi - lo) * (hi - lo) ≤ (hi - lo) * before :=
      mul_le_mul_of_nonneg_left hwidth hpos.le
    have hnonneg : 0 ≤ (hi - lo) * (hi - lo) := mul_self_nonneg _
    rw [hhalf]
    linarith

/-! ## The end -/

/-- What is above a bound that falls by a factor in each round. -/
theorem exists_rounds (bound : ℝ) {floor : ℝ} (h : 0 < floor) :
    ∃ rounds : Nat, bound * (18 / 25) ^ rounds < floor := by
  rcases le_or_gt bound 0 with hneg | hpos
  · exact ⟨0, by rw [pow_zero, mul_one]; exact hneg.trans_lt h⟩
  · have hratio : (18 / 25 : ℝ) < 1 := by norm_num
    obtain ⟨rounds, hrounds⟩ := exists_pow_lt_of_lt_one (div_pos h hpos) hratio
    refine ⟨rounds, ?_⟩
    rw [lt_div_iff₀ hpos] at hrounds
    linarith

/-- The width below which the credit cannot fall while the search goes on. -/
noncomputable def Setup.floor (S : Setup) : ℝ :=
  7 / 10 * (S.narrow * S.least) ^ 2

theorem Setup.floor_pos (S : Setup) : 0 < S.floor :=
  mul_pos (by norm_num) (pow_pos (mul_pos S.narrow_pos S.least_pos) 2)

/-- A search ends after as many rounds as its credit allows.  A bracket that begins at zero may
need a step of its own, the least one. -/
theorem Enclosed.ends_of_rounds (rounds : Nat) :
    ∀ {run : Run α} {lo s hi before bound : ℝ}, Enclosed S c run lo s hi before →
      (lo = 0 → ∀ {run : Run α} {hi before : ℝ}, Enclosed S c run 0 S.least hi before →
        run.Ends c) →
      hi - lo ≤ before → Credit lo s hi before bound →
      bound * (18 / 25) ^ rounds < S.floor → run.Ends c := by
  induction rounds with
  | zero =>
    intro run lo s hi before bound h _ hwidth hcredit hbound
    refine .intro fun value slope run' _ _ hanswer => ?_
    obtain ⟨hlo, hhi, hleast, hwide, -⟩ := h.next hanswer
    have hfloor := hcredit.floor S.narrow_pos S.least_pos (hleast.trans hhi.le) hwide hwidth
    rw [pow_zero, mul_one] at hbound
    exact absurd hfloor (not_le.mpr hbound)
  | succ rounds ih =>
    intro run lo s hi before bound h hexit hwidth hcredit hbound
    refine .intro fun value slope run' _ _ hanswer => ?_
    obtain ⟨hlo, hhi, hleast, -, lo', s', hi', hpart, h', hhalves⟩ := h.next hanswer
    have hwidth' : hi' - lo' ≤ hi - lo := by
      rcases hpart with ⟨rfl, rfl⟩ | ⟨rfl, rfl⟩ <;> linarith
    -- a bracket that has left zero does not come back to it
    have hzero : lo' = 0 → lo = 0 := by
      intro hzero
      rcases hpart with ⟨rfl, -⟩ | ⟨rfl, -⟩
      · exact hzero
      · exact absurd hleast (not_le.mpr (hzero ▸ S.least_pos))
    rcases hcredit.shrink hlo hhi hwidth hpart hhalves h'.lower h'.upper with
      hs | hs | hcredit' | ⟨rfl, rfl⟩
    · exact h'.ends_of_outside (.inl hs.le)
    · exact h'.ends_of_outside (.inr hs.ge)
    · refine ih h' (fun h => hexit (hzero h)) hwidth' hcredit' ?_
      rw [pow_succ] at hbound
      linarith
    · exact hexit (hzero rfl) h'

/-- A search that has a way out at the least step ends. -/
theorem Enclosed.ends_of_exit (h : Enclosed S c run lo s hi before)
    (hexit : lo = 0 → ∀ {run : Run α} {hi before : ℝ}, Enclosed S c run 0 S.least hi before →
      run.Ends c)
    (hwidth : hi - lo ≤ before) : run.Ends c := by
  obtain ⟨rounds, hrounds⟩ := exists_rounds ((hi - lo) * before) S.floor_pos
  exact h.ends_of_rounds rounds hexit hwidth (.inl le_rfl) hrounds

/-- A search whose bracket begins at zero ends after the least step has been tried. -/
theorem Enclosed.ends_at_least (h : Enclosed S c run 0 S.least hi before) : run.Ends c := by
  refine .intro fun value slope run' _ _ hanswer => ?_
  obtain ⟨hlo, hhi, -, -, lo', s', hi', hpart, h', -⟩ := h.next hanswer
  rcases hpart with ⟨rfl, rfl⟩ | ⟨rfl, rfl⟩
  · -- there is no admissible step below the least one
    rcases h'.placed with hs | hs | hs
    · exact h'.ends_of_outside (.inl hs.le)
    · exact h'.ends_of_outside (.inr hs.ge)
    · exact h'.ends_of_outside (.inr hs)
  · refine h'.ends_of_exit (fun hzero => ?_) (by linarith)
    exact absurd hzero S.least_pos.ne'

/-- **A search with a bracket ends.** -/
theorem Enclosed.ends (h : Enclosed S c run lo s hi before) : run.Ends c := by
  refine .intro fun value slope run' _ _ hanswer => ?_
  obtain ⟨hlo, hhi, -, -, lo', s', hi', hpart, h', -⟩ := h.next hanswer
  -- after one round the width before is that of a bracket around the new one
  refine h'.ends_of_exit (fun _ => Enclosed.ends_at_least) ?_
  rcases hpart with ⟨rfl, rfl⟩ | ⟨rfl, rfl⟩ <;> linarith

end Enclosed

end Descent
