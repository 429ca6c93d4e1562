/-
# The bracketing search ends

No limit on the number of trials is needed for the search that brackets: in exact arithmetic it
ends whatever it is told, be it the values of a function or not.  As long as there is no
bracket every step is the best one so far and the steps grow, each time by more than before,
until the greatest one is reached.

* `exists_stepAfterFlattening`, `exists_nextStep` : the next step lies ahead;
* `Unenclosed` : a search without a bracket;
* `Unenclosed.next`, `Unenclosed.ends` : it finds a bracket or comes to an end;
* `LineSearch.answered` : a search that is told one answer after another;
* `LineSearch.answered_cases` : what its run keeps from answer to answer;
* `LineSearch.cubic_search_ends` : after some of them it is over.
-/
import Mathlib
import Descent.Proofs.Shrinking

namespace Descent

open Scalar ExactScalar StrictScalar

variable {α : Type} [Scalar α] [ExactScalar α] [StrictScalar α]

/-! ## Steps without a bracket -/

/-- The zero of the secant lies ahead of a trial whose slope is negative and less steep. -/
theorem secant_ahead {x v d t f g : ℝ} (hxt : x < t) (hdg : d < g) (hg : g < 0) :
    ∃ p, Sample.secant (⟨ofReal x, ofReal v, ofReal d⟩ : Sample α) ⟨ofReal t, ofReal f, ofReal g⟩ =
      ofReal p ∧ t < p := by
  refine ⟨t + g / (g - d) * (x - t), ?_, ?_⟩
  · simp only [Sample.secant, ← ofReal_sub, ← ofReal_div _ (sub_pos.mpr hdg).ne', ← ofReal_mul,
      ← ofReal_add]
  · have hquotient : g / (g - d) < 0 := div_neg_of_neg_of_pos hg (sub_pos.mpr hdg)
    have := mul_pos_of_neg_of_neg hquotient (sub_neg.mpr hxt)
    linarith

/-- A multiple of a step backwards with a negative factor, or else the end of the range, lies
ahead. -/
theorem cubic_ahead {x t high : ℝ} (hxt : x < t) (hhigh : t < high) (r : α) (valid : Bool) :
    ∃ p : ℝ, (if decide (r < 0) && valid then ofReal t + r * (ofReal x - ofReal t)
      else (ofReal high : α)) = ofReal p ∧ t < p := by
  split
  · next h =>
    obtain ⟨hr, -⟩ := (Bool.and_eq_true _ _).mp h
    obtain ⟨ρ, -, rfl, -⟩ := lt_iff.mp (of_decide_eq_true hr)
    refine ⟨t + ρ * (x - t), by rw [ofReal_add, ofReal_mul, ofReal_sub], ?_⟩
    have hρ : ρ < 0 := ofReal_lt_zero.mp (of_decide_eq_true hr)
    have := mul_pos_of_neg_of_neg hρ (sub_neg.mpr hxt)
    linarith
  · exact ⟨high, rfl, hhigh⟩

omit [ExactScalar α] [StrictScalar α] in
/-- Without a bracket the step after a slope that has become less steep is one of two candidates,
moved into the range. -/
theorem stepAfterFlattening_open {span : Span α} (hspan : span.bracketed = false)
    (trial : Sample α) (low high : α) :
    ∃ r valid candidate,
      (candidate = (if decide (r < 0) && valid then
          trial.position + r * (span.best.position - trial.position)
        else Span.rangeEnd span.best trial low high) ∨
        candidate = Sample.secant span.best trial) ∧
      span.stepAfterFlattening trial low high = larger (smaller candidate high) low := by
  unfold Span.stepAfterFlattening
  rw [hspan]
  exact ⟨_, _, _, ite_eq_or_eq _ _ _, rfl⟩

omit [StrictScalar α] in
/-- Ahead of a trial with a negative slope the range ends at its upper end. -/
theorem rangeEnd_ahead {x t : ℝ} (hxt : x < t) {best trial : Sample α}
    (hbest : best.position = ofReal x) (htrial : trial.position = ofReal t) (low high : α) :
    Span.rangeEnd best trial low high = high := by
  rw [Span.rangeEnd, hbest, htrial, if_pos (ofReal_lt_ofReal.mpr hxt)]

/-- Without a bracket the step after a trial whose slope has become less steep lies ahead of the
trial, and not below the range. -/
theorem exists_stepAfterFlattening {span : Span α} {x v d t f g low high : ℝ}
    (hspan : span.bracketed = false) (hbest : span.best = ⟨ofReal x, ofReal v, ofReal d⟩)
    (hxt : x < t) (hdg : d < g) (hg : g < 0) (hhigh : t < high) :
    ∃ p, span.stepAfterFlattening ⟨ofReal t, ofReal f, ofReal g⟩ (ofReal low) (ofReal high) =
      ofReal p ∧ t < p ∧ low ≤ p := by
  obtain ⟨r, valid, candidate, hcandidate, hstep⟩ := stepAfterFlattening_open hspan
    (⟨ofReal t, ofReal f, ofReal g⟩ : Sample α) (ofReal low) (ofReal high)
  obtain ⟨q, hq, htq⟩ : ∃ q : ℝ, candidate = ofReal q ∧ t < q := by
    rw [rangeEnd_ahead hxt (by rw [hbest]) rfl, hbest] at hcandidate
    rcases hcandidate with hcandidate | hcandidate
    · rw [hcandidate]
      exact cubic_ahead hxt hhigh r valid
    · rw [hcandidate]
      exact secant_ahead hxt hdg hg
  refine ⟨max (min q high) low, ?_, lt_max_of_lt_left (lt_min htq hhigh), le_max_right _ _⟩
  rw [hstep, hq, smaller_ofReal, larger_ofReal]

/-- The slope agreement with a best step that descends. -/
theorem slopeAgreement_eq {span : Span α} {x v d g : ℝ}
    (hbest : span.best = ⟨ofReal x, ofReal v, ofReal d⟩) (hd : d < 0) {trial : Sample α}
    (htrial : trial.slope = ofReal g) : span.slopeAgreement trial = ofReal (-g) := by
  rw [Span.slopeAgreement, hbest, htrial, ← ofReal_abs, abs_of_neg hd,
    ← ofReal_div _ (neg_ne_zero.mpr hd.ne), div_neg, div_self hd.ne, ← ofReal_mul]
  rw [mul_neg, mul_one]

/-- Without a bracket the step after a trial that descends without a higher value lies ahead of
the trial, and not below the range. -/
theorem exists_nextStep {span : Span α} {x v d t f g low high : ℝ}
    (hspan : span.bracketed = false) (hbest : span.best = ⟨ofReal x, ofReal v, ofReal d⟩)
    (hd : d < 0) (hxt : x < t) (hfv : f ≤ v) (hg : g < 0) (horder : low ≤ high)
    (hhigh : t < high) :
    ∃ p, span.nextStep ⟨ofReal t, ofReal f, ofReal g⟩ (ofReal low) (ofReal high) = ofReal p ∧
      t < p ∧ low ≤ p := by
  have hrise : ¬ span.best.value < ofReal f := by
    rw [hbest, ofReal_lt_ofReal]
    exact not_lt.mpr hfv
  have hturn : ¬ span.slopeAgreement (⟨ofReal t, ofReal f, ofReal g⟩ : Sample α) < 0 := by
    rw [slopeAgreement_eq hbest hd rfl, ofReal_lt_zero]
    linarith
  rw [Span.nextStep, if_neg hrise, if_neg hturn]
  by_cases hflat : d < g
  · rw [if_pos]
    · exact exists_stepAfterFlattening hspan hbest hxt hflat hg hhigh
    · rw [hbest, ← ofReal_abs, ← ofReal_abs, abs_of_neg hg, abs_of_neg hd, ofReal_lt_ofReal]
      linarith
  · rw [if_neg]
    · -- the range ends ahead of the trial
      refine ⟨high, ?_, hhigh, horder⟩
      rw [Span.stepAfterSteepening, hspan]
      exact rangeEnd_ahead hxt (by rw [hbest]) rfl _ _
    · rw [hbest, ← ofReal_abs, ← ofReal_abs, abs_of_neg hg, abs_of_neg hd, ofReal_lt_ofReal]
      linarith

/-! ## Searches without a bracket -/

/-- A search without a bracket: the best step is the one tried last, it has decreased
sufficiently and descends, and the next step lies ahead of it. -/
structure Unenclosed (S : Setup) (c : Config α) (run : Run α) (x t low high : ℝ) : Prop where
  describes : S.Describes c run.frame
  early : run.bracket.early = true
  bracketed : run.bracket.span.bracketed = false
  best : ∃ v d : ℝ, run.bracket.span.best = ⟨ofReal x, ofReal v, ofReal d⟩ ∧ d < 0 ∧
    v ≤ S.value + x * (S.sufficient * S.slope)
  lowEnd : run.bracket.low = ofReal low
  highEnd : run.bracket.high = ofReal high
  widths : ∃ width before : ℝ,
    run.bracket.width = ofReal width ∧ run.bracket.previousWidth = ofReal before
  step : run.step = ofReal t
  ahead : x < t
  least : S.least ≤ t
  greatest : t ≤ S.greatest
  range : low ≤ high
  room : t < high
  origin : x = 0 ∨ S.least ≤ x

variable {S : Setup} {c : Config α} {run run' : Run α} {x t low high : ℝ}

omit [StrictScalar α] in
/-- The line of sufficient decrease in real numbers. -/
theorem Setup.Describes.target_eq {frame : Frame α} (h : S.Describes c frame) (t : ℝ) :
    frame.target c (ofReal t) = ofReal (S.value + t * (S.sufficient * S.slope)) := by
  rw [Frame.target, Frame.incline, h.value, h.slope, h.sufficient, ofReal_add, ofReal_mul,
    ofReal_mul]

omit [StrictScalar α] in
theorem Setup.Describes.incline_eq {frame : Frame α} (h : S.Describes c frame) :
    frame.incline c = ofReal (S.sufficient * S.slope) := by
  rw [Frame.incline, h.slope, h.sufficient, ofReal_mul]

omit [StrictScalar α] in
/-- A bracket that a trial ahead of the best step has closed lies between the two. -/
theorem between_of_moves {span span' : Span α} (hspan : span.bracketed = false)
    (hbest : span.best.position = ofReal x) (hmoves : span.Moves (ofReal t) span')
    (hspan' : span'.bracketed = true) : span'.Between x t := by
  rcases hmoves with ⟨-, hb, ho⟩ | ⟨-, hb, ho⟩ | ⟨hsame, -, -⟩
  · exact .below (hb.trans hbest) ho
  · exact .above hb (ho.trans hbest)
  · rw [hsame, hspan] at hspan'
    cases hspan'

/-- A trial that leaves a search without a bracket. -/
structure Unenclosed.Passes (S : Setup) (c : Config α) (run : Run α) (t f g : ℝ) : Prop where
  span : (run.bracket.refine (run.bracket.tilts c run.frame ⟨ofReal t, ofReal f, ofReal g⟩)
    (run.frame.incline c) ⟨ofReal t, ofReal f, ofReal g⟩).1 =
      { run.bracket.span with best := ⟨ofReal t, ofReal f, ofReal g⟩ }
  proposed : (run.bracket.refine (run.bracket.tilts c run.frame ⟨ofReal t, ofReal f, ofReal g⟩)
    (run.frame.incline c) ⟨ofReal t, ofReal f, ofReal g⟩).2 =
      run.bracket.span.nextStep ⟨ofReal t, ofReal f, ofReal g⟩ run.bracket.low run.bracket.high
  early : run.bracket.staysEarly c run.frame ⟨ofReal t, ofReal f, ofReal g⟩ = true
  notHigher : ¬ run.bracket.span.best.value < ofReal f
  sufficient : f ≤ S.value + t * (S.sufficient * S.slope)
  descends : g < 0
  notGreatest : t ≠ S.greatest

/-- Where the function less the line is looked at, it is higher at the trial. -/
theorem Unenclosed.bracketed_of_tilts (h : Unenclosed S c run x t low high) {f g : ℝ}
    (htilts : run.bracket.tilts c run.frame ⟨ofReal t, ofReal f, ofReal g⟩ = true) :
    (run.bracket.refine true (run.frame.incline c)
      ⟨ofReal t, ofReal f, ofReal g⟩).1.bracketed = true := by
  obtain ⟨v, d, hbest, hd, hv⟩ := h.best
  simp only [Bracket.tilts, Bool.and_eq_true, decide_eq_true_eq] at htilts
  have habove : S.value + t * (S.sufficient * S.slope) < f := by
    have := htilts.2
    rwa [h.describes.target_eq t, ofReal_lt_ofReal] at this
  simp only [Bracket.refine, if_true, Span.untilt]
  rw [Span.update, if_pos]
  simp only [Span.tilt, Sample.tilt, hbest, h.describes.incline_eq, ← ofReal_mul, ← ofReal_sub,
    ofReal_lt_ofReal]
  linarith

omit [StrictScalar α] in
/-- Where it is not, and the trial is not higher, the trial has decreased sufficiently. -/
theorem Unenclosed.sufficient_of_not_tilts (h : Unenclosed S c run x t low high) {f g : ℝ}
    (htilts : run.bracket.tilts c run.frame ⟨ofReal t, ofReal f, ofReal g⟩ = false)
    (hrise : ¬ run.bracket.span.best.value < ofReal f) :
    f ≤ S.value + t * (S.sufficient * S.slope) := by
  obtain ⟨v, d, hbest, hd, hv⟩ := h.best
  by_contra hnot
  rw [hbest, ofReal_lt_ofReal, not_lt] at hrise
  simp [Bracket.tilts, Bracket.staysEarly, h.early, hbest, h.describes.target_eq t, hrise,
    not_le.mp hnot] at htilts
  exact hnot htilts.1

/-- A trial that has decreased sufficiently without ending the search is steep. -/
theorem Unenclosed.steep_of_proceeds (h : Unenclosed S c run x t low high) {f g : ℝ}
    (hproceeds :
      run.bracket.Proceeds c run.frame (⟨ofReal t, ofReal f, ofReal g⟩ : Sample α))
    (hsufficient : f ≤ S.value + t * (S.sufficient * S.slope)) :
    S.flat * -S.slope < |g| := by
  have hnot := hproceeds.notConverged (by rwa [h.describes.target_eq t, ofReal_le_ofReal])
  rwa [h.describes.flat, h.describes.slope, ← ofReal_neg, ← ofReal_mul, ← ofReal_abs,
    ofReal_le_ofReal, not_le] at hnot

/-- A steep trial at which the slope has not turned descends more than the line. -/
theorem Unenclosed.descends_of_steep (h : Unenclosed S c run x t low high) {f g : ℝ}
    (hturn : ¬ run.bracket.span.slopeAgreement (⟨ofReal t, ofReal f, ofReal g⟩ : Sample α) < 0)
    (hsteep : S.flat * -S.slope < |g|) : g < 0 ∧ g ≤ S.sufficient * S.slope := by
  obtain ⟨v, d, hbest, hd, hv⟩ := h.best
  have hslope : 0 < -S.slope := neg_pos.mpr S.slope_neg
  have hg : g < 0 := by
    rw [slopeAgreement_eq hbest hd rfl, ofReal_lt_zero, neg_lt_zero, not_lt] at hturn
    have hpos := (mul_pos (S.sufficient_pos.trans S.sufficient_lt) hslope).trans hsteep
    exact lt_of_le_of_ne hturn (abs_pos.mp hpos)
  have hflat := mul_lt_mul_of_pos_right S.sufficient_lt hslope
  rw [abs_of_neg hg] at hsteep
  exact ⟨hg, by linarith⟩

/-- A trial closes a bracket, or has decreased sufficiently and descends too steeply to stop
there. -/
theorem Unenclosed.refine_cases (h : Unenclosed S c run x t low high) {f g : ℝ}
    (hproceeds :
      run.bracket.Proceeds c run.frame (⟨ofReal t, ofReal f, ofReal g⟩ : Sample α)) :
    (run.bracket.refine (run.bracket.tilts c run.frame ⟨ofReal t, ofReal f, ofReal g⟩)
      (run.frame.incline c) ⟨ofReal t, ofReal f, ofReal g⟩).1.bracketed = true ∨
    Unenclosed.Passes S c run t f g := by
  cases htilts : run.bracket.tilts c run.frame ⟨ofReal t, ofReal f, ofReal g⟩ with
  | true => exact .inl (h.bracketed_of_tilts htilts)
  | false =>
    have hrefine : run.bracket.refine false (run.frame.incline c)
        ⟨ofReal t, ofReal f, ofReal g⟩ =
          (run.bracket.span.update ⟨ofReal t, ofReal f, ofReal g⟩,
            run.bracket.span.nextStep ⟨ofReal t, ofReal f, ofReal g⟩ run.bracket.low
              run.bracket.high) := rfl
    rw [hrefine]
    rcases run.bracket.span.update_cases ⟨ofReal t, ofReal f, ofReal g⟩ with
      ⟨-, hupdate⟩ | ⟨-, -, hupdate⟩ | ⟨hrise, hturn, hupdate⟩
    · left
      rw [hupdate]
    · left
      rw [hupdate]
    · right
      have hsufficient := h.sufficient_of_not_tilts htilts hrise
      obtain ⟨hg, hincline⟩ :=
        h.descends_of_steep hturn (h.steep_of_proceeds hproceeds hsufficient)
      refine ⟨?_, ?_, ?_, hrise, hsufficient, hg, ?_⟩
      · rw [htilts, hrefine, hupdate]
      · rw [htilts, hrefine]
      · simp [Bracket.staysEarly, h.early, hg]
      · rintro rfl
        have hbelow := hproceeds.notGreatest
          (by rwa [h.describes.target_eq, ofReal_le_ofReal])
          (by rwa [h.describes.incline_eq, ofReal_le_ofReal])
        rw [beq_iff.mpr ⟨S.greatest, rfl, h.describes.maxStep⟩] at hbelow
        cases hbelow

/-- **A round without a bracket.**  Where another round follows, either the best step and the
trial form a bracket, or the steps go on ahead of the trial. -/
theorem Unenclosed.next (h : Unenclosed S c run x t low high) {f g : ℝ}
    (hanswer : run.answer c (ofReal f) (ofReal g) = .next run') :
    (∃ s before, Enclosed S c run' x s t before) ∨
      ∃ p, t < p ∧ low ≤ p ∧ t < S.greatest ∧
        Unenclosed S c run' t (min p S.greatest) (p + 11 / 10 * (p - t)) (p + 4 * (p - t)) := by
  obtain ⟨b', step, hround, rfl⟩ := Run.answer_eq_next h.describes.cubic hanswer
  obtain ⟨hproceeds, hsettle⟩ := Bracket.advance_eq_next hround
  rw [h.step] at hproceeds hsettle
  obtain ⟨v, d, hbest, hd, -⟩ := h.best
  obtain ⟨width, before, hwidth, hbefore⟩ := h.widths
  rcases h.refine_cases hproceeds with hspan | hpass
  · left
    have hmoves := run.bracket.moves_refine
      (run.bracket.tilts c run.frame ⟨ofReal t, ofReal f, ofReal g⟩) (run.frame.incline c)
      ⟨ofReal t, ofReal f, ofReal g⟩
    have hends := between_of_moves h.bracketed (by rw [hbest]) hmoves hspan
    obtain ⟨s, henclosed, -⟩ := enclosed_of_settle h.describes hspan hends h.ahead h.origin
      h.greatest hwidth hbefore hsettle
    exact ⟨s, width, henclosed⟩
  · right
    have hfv : f ≤ v := by
      have := hpass.notHigher
      rwa [hbest, ofReal_lt_ofReal, not_lt] at this
    obtain ⟨p, hp, htp, hlow⟩ := exists_nextStep (f := f) h.bracketed hbest hd h.ahead hfv
      hpass.descends h.range h.room
    rw [hpass.span, hpass.proposed, h.lowEnd, h.highEnd, hp] at hsettle
    have hopen : ({ run.bracket.span with best := ⟨ofReal t, ofReal f, ofReal g⟩ } :
        Span α).bracketed = false := h.bracketed
    obtain ⟨rfl, rfl⟩ := Bracket.settle_open hopen hsettle
    have hgreatest : t < S.greatest := lt_of_le_of_ne h.greatest hpass.notGreatest
    have hstep : smaller (larger (ofReal p) run.frame.minStep) run.frame.maxStep =
        (ofReal (min p S.greatest) : α) := by
      rw [h.describes.minStep, h.describes.maxStep, larger_ofReal, smaller_ofReal,
        max_eq_left (h.least.trans htp.le)]
    have hlowEnd : (ofReal p : α) + 1.1 * (ofReal p - ofReal t) =
        ofReal (p + 11 / 10 * (p - t)) := by
      rw [literal_eq, ← ofReal_sub, ← ofReal_mul, ← ofReal_add]
      norm_num
    have hhighEnd : (ofReal p : α) + 4.0 * (ofReal p - ofReal t) = ofReal (p + 4 * (p - t)) := by
      rw [literal_eq, ← ofReal_sub, ← ofReal_mul, ← ofReal_add]
      norm_num
    refine ⟨p, htp, hlow, hgreatest, ?_⟩
    exact
      { describes := h.describes
        early := hpass.early
        bracketed := h.bracketed
        best := ⟨f, g, rfl, hpass.descends, hpass.sufficient⟩
        lowEnd := hlowEnd
        highEnd := hhighEnd
        widths := ⟨width, before, hwidth, hbefore⟩
        step := hstep
        ahead := lt_min htp hgreatest
        least := h.least.trans (lt_min htp hgreatest).le
        greatest := min_le_right _ _
        range := by linarith
        room := (min_le_left _ _).trans_lt (by linarith)
        origin := .inr h.least }

/-! ## The end -/

/-- Steps that grow by more than a fixed amount reach the greatest one. -/
theorem Unenclosed.ends_of_rounds {gain : ℝ} (hgain : 0 < gain) (rounds : Nat) :
    ∀ {run : Run α} {x t low high : ℝ}, Unenclosed S c run x t low high → t + gain ≤ low →
      S.greatest ≤ t + rounds * gain → run.Ends c := by
  induction rounds with
  | zero =>
    intro run x t low high h _ hreach
    refine .intro fun value slope run' hvalue hslope hanswer => ?_
    obtain ⟨f, rfl⟩ := isFinite_iff.mp hvalue
    obtain ⟨g, rfl⟩ := isFinite_iff.mp hslope
    rcases h.next hanswer with ⟨s, before, h'⟩ | ⟨p, -, -, hgreatest, -⟩
    · exact h'.ends
    · rw [Nat.cast_zero, zero_mul, add_zero] at hreach
      exact absurd hgreatest (not_lt.mpr hreach)
  | succ rounds ih =>
    intro run x t low high h hlow hreach
    refine .intro fun value slope run' hvalue hslope hanswer => ?_
    obtain ⟨f, rfl⟩ := isFinite_iff.mp hvalue
    obtain ⟨g, rfl⟩ := isFinite_iff.mp hslope
    rcases h.next hanswer with ⟨s, before, h'⟩ | ⟨p, htp, hp, hgreatest, h'⟩
    · exact h'.ends
    · have hnonneg : 0 ≤ (rounds : ℝ) * gain := mul_nonneg (Nat.cast_nonneg _) hgain.le
      refine ih h' ?_ ?_
      · have := min_le_left p S.greatest
        linarith
      · push_cast at hreach
        rcases min_cases p S.greatest with ⟨hmin, -⟩ | ⟨hmin, -⟩
        · rw [hmin]
          linarith
        · rw [hmin]
          linarith

/-- **A search without a bracket ends.** -/
theorem Unenclosed.ends (h : Unenclosed S c run x t low high) : run.Ends c := by
  refine .intro fun value slope run' hvalue hslope hanswer => ?_
  obtain ⟨f, rfl⟩ := isFinite_iff.mp hvalue
  obtain ⟨g, rfl⟩ := isFinite_iff.mp hslope
  rcases h.next hanswer with ⟨s, before, h'⟩ | ⟨p, htp, -, -, h'⟩
  · exact h'.ends
  · -- from now on every step grows by at least as much as this one
    have hgain : 0 < p - t := sub_pos.mpr htp
    obtain ⟨rounds, hrounds⟩ := exists_nat_ge ((S.greatest - min p S.greatest) / (p - t))
    refine h'.ends_of_rounds hgain rounds ?_ ?_
    · have := min_le_left p S.greatest
      linarith
    · rw [div_le_iff₀ hgain] at hrounds
      linarith

/-! ## From the start -/

/-- A search that starts with a step in the range has no bracket yet. -/
theorem unenclosed_start (S : Setup) {frame : Frame α} (hS : S.Describes c frame) {t : ℝ}
    (hleast : S.least ≤ t) (hgreatest : t ≤ S.greatest) (reference : α) (trials : Nat) :
    Unenclosed S c
      { frame, reference, step := ofReal t, trials, bracket := .start frame (ofReal t) }
      0 t 0 (5 * t) where
  describes := hS
  early := rfl
  bracketed := rfl
  best := by
    refine ⟨S.value, S.slope, ?_, S.slope_neg, by rw [zero_mul, add_zero]⟩
    rw [← hS.value, ← hS.slope, ofReal_zero]
    rfl
  lowEnd := ofReal_zero.symm
  highEnd := by
    show (ofReal t : α) + 4.0 * ofReal t = ofReal (5 * t)
    rw [literal_eq, ← ofReal_mul, ← ofReal_add]
    refine congrArg ofReal ?_
    push_cast
    ring
  widths := by
    refine ⟨S.greatest - S.least, 2 * (S.greatest - S.least), ?_, ?_⟩
    · show frame.maxStep - frame.minStep = _
      rw [hS.maxStep, hS.minStep, ofReal_sub]
    · show 2.0 * (frame.maxStep - frame.minStep) = _
      rw [hS.maxStep, hS.minStep, literal_eq, ← ofReal_sub, ← ofReal_mul]
      norm_num
  step := rfl
  ahead := S.least_pos.trans_le hleast
  least := hleast
  greatest := hgreatest
  range := by linarith [S.least_pos]
  room := by linarith [S.least_pos]
  origin := .inl rfl

namespace LineSearch

omit [ExactScalar α] [StrictScalar α] in
/-- The search after a number of answers, each a value and a slope. -/
def answered (s : LineSearch α) (answers : Nat → α × α) : Nat → LineSearch α
  | 0 => s
  | k + 1 => (s.answered answers k).iterate (answers k).1 (answers k).2

omit [ExactScalar α] [StrictScalar α] in
theorem answered_succ (s : LineSearch α) (answers : Nat → α × α) (k : Nat) :
    s.answered answers (k + 1) =
      (s.iterate (answers 0).1 (answers 0).2).answered (fun j => answers (j + 1)) k := by
  induction k with
  | zero => rfl
  | succ k ih => rw [answered, ih, answered]

omit [ExactScalar α] [StrictScalar α] in
/-- A search that goes on after an answer has another run. -/
theorem iterate_cases {s : LineSearch α} {run : Run α} (hstate : s.state = .running run)
    (value slope : α) :
    (s.iterate value slope).status ≠ .search ∨
      ∃ run', run.answer s.config value slope = .next run' ∧
        s.iterate value slope = { s with state := .running run' } := by
  unfold iterate
  rw [hstate]
  dsimp only
  split
  · next run' hanswer => exact .inr ⟨run', hanswer, rfl⟩
  · left
    rintro ⟨⟩
  · left
    rintro ⟨⟩
  · left
    rintro ⟨⟩

omit [ExactScalar α] [StrictScalar α] in
/-- What a run has to begin with, and keeps with every answer that it goes on from, it has as long
as the search is not over. -/
theorem answered_cases {P : Nat → Run α → Prop} {s : LineSearch α} {run : Run α}
    (hstate : s.state = .running run) (hstart : P 0 run)
    (hnext : ∀ k run run' value slope, P k run →
      run.answer s.config value slope = .next run' → P (k + 1) run')
    (answers : Nat → α × α) (k : Nat) :
    (s.answered answers k).status ≠ .search ∨
      ∃ run', s.answered answers k = { s with state := .running run' } ∧ P k run' := by
  induction k with
  | zero => exact .inr ⟨run, by rw [answered, ← hstate], hstart⟩
  | succ k ih =>
    rcases ih with hended | ⟨run', hrunning, hP⟩
    · left
      rwa [answered, iterate_ended _ hended]
    · rw [answered, hrunning]
      rcases iterate_cases (s := { s with state := .running run' }) rfl (answers k).1
        (answers k).2 with hended | ⟨run'', hanswer, hiterate⟩
      · exact .inl hended
      · exact .inr ⟨run'', hiterate, hnext k run' run'' _ _ hP hanswer⟩

omit [ExactScalar α] [StrictScalar α] in
/-- A search whose run ends is over after some answers. -/
theorem exists_status_ne_search {run : Run α} (h : run.Ends c) :
    ∀ (s : LineSearch α) (answers : Nat → α × α), s.config = c → s.state = .running run →
      (∀ k, isFinite (answers k).1 = true ∧ isFinite (answers k).2 = true) →
      ∃ k, (s.answered answers k).status ≠ .search := by
  induction h with
  | intro _ ih =>
    intro s answers hconfig hstate hfinite
    rcases iterate_cases hstate (answers 0).1 (answers 0).2 with hended | ⟨run', hanswer, hnext⟩
    · exact ⟨1, hended⟩
    · rw [hconfig] at hanswer
      obtain ⟨k, hk⟩ := ih _ _ run' (hfinite 0).1 (hfinite 0).2 hanswer
        { s with state := .running run' } (fun j => answers (j + 1)) hconfig rfl
        (fun k => hfinite (k + 1))
      refine ⟨k + 1, ?_⟩
      rw [answered_succ, hnext]
      exact hk

/-- **The bracketing search ends.**  In exact arithmetic a search that brackets, started along a
direction of descent with a positive step and a range of positive steps, starts, and after
finitely many answers it is over, whatever finite values and slopes it is told and however many
trials it may make. -/
theorem cubic_search_ends (s₀ : LineSearch α) (value slope step minStep maxStep : α)
    (hcubic : s₀.config.lineSearch = .cubic) (hsftol : 0 < s₀.config.sftol)
    (hsgtol : s₀.config.sftol < s₀.config.curvatureTolerance) (hsxtol : 0 < s₀.config.sxtol)
    (hvalue : isFinite value = true) (hslope : slope < 0) (hstep : 0 < step)
    (hleast : 0 < minStep) (hrange : minStep ≤ maxStep) :
    ∃ s, s₀.start value slope step minStep maxStep = .ok s ∧ s.status = .search ∧
      ∀ answers : Nat → α × α,
        (∀ k, isFinite (answers k).1 = true ∧ isFinite (answers k).2 = true) →
        ∃ k, (s.answered answers k).status ≠ .search := by
  obtain ⟨f, rfl⟩ := isFinite_iff.mp hvalue
  obtain ⟨d, -, rfl, -⟩ := lt_iff.mp hslope
  obtain ⟨least, greatest, rfl, rfl, hle⟩ := le_iff.mp hrange
  obtain ⟨sufficient, flat, hsufficient, hflat, hlt⟩ := lt_iff.mp hsgtol
  obtain ⟨narrow, hnarrow, hpos⟩ := exists_of_pos hsxtol
  rw [hsufficient, zero_lt_ofReal] at hsftol
  let S : Setup :=
    { value := f, slope := d, least, greatest, sufficient, flat, narrow
      slope_neg := ofReal_lt_zero.mp hslope
      least_pos := zero_lt_ofReal.mp hleast
      least_le := hle
      sufficient_pos := hsftol
      sufficient_lt := hlt
      narrow_pos := hpos }
  have hS : S.Describes s₀.config ⟨ofReal f, ofReal d, ofReal least, ofReal greatest⟩ :=
    ⟨hcubic, rfl, rfl, rfl, rfl, hsufficient, hflat, hnarrow⟩
  obtain ⟨t, ht, hleast', hgreatest'⟩ := exists_clamped step hle
  have hends := (unenclosed_start S hS hleast' hgreatest' (ofReal f) 0).ends
  refine ⟨{ s₀ with state := .running _ }, ?_, rfl, fun answers hfinite =>
    exists_status_ne_search hends _ answers rfl rfl hfinite⟩
  have hrefused : ¬ (¬ (0 : α) ≤ ofReal least ∨ ¬ (ofReal least : α) ≤ ofReal greatest ∨
      ¬ 0 < step) := by
    rw [zero_lt_ofReal] at hleast
    simp [hleast.le, hle, hstep]
  have hsearch : ¬ s₀.config.lineSearch = .nonmonotone := by
    rw [hcubic]
    decide
  unfold start Run.start
  rw [if_neg (not_not.mpr hslope), if_neg hrefused]
  dsimp only
  rw [if_neg hsearch, ht]
  rfl

/-- Settings for a search that brackets. -/
noncomputable def plainCubic : LineSearch ℝ where
  config := { lineSearch := .cubic, sftol := 0.25, sgtol := some 0.5, sxtol := 0.125 }

/-- A search over the real numbers that is told the values of a function without a minimum. -/
theorem falling_search_ends :
    ∃ s, plainCubic.start 0 (-1) 1 (1 / 2) 3 = .ok s ∧ s.status = .search ∧
      ∃ k, (s.answered (fun k => (-(k : ℝ), -1)) k).status ≠ .search := by
  have hsftol : (0 : ℝ) < 0.25 := by norm_num
  have hsgtol : (0.25 : ℝ) < 0.5 := by norm_num
  have hsxtol : (0 : ℝ) < 0.125 := by norm_num
  obtain ⟨s, hs, hsearch, hends⟩ := cubic_search_ends plainCubic 0 (-1) 1 (1 / 2) 3 rfl hsftol
    hsgtol hsxtol rfl (by norm_num) one_pos (by norm_num) (by norm_num)
  exact ⟨s, hs, hsearch, hends _ fun _ => ⟨rfl, rfl⟩⟩

end LineSearch

end Descent
