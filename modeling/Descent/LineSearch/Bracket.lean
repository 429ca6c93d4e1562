/-
# Bracketing a step

The line search that looks for a step with sufficient decrease and a small slope.
It keeps the best step seen so far and another one that, once the two enclose an
acceptable step, is the far end of a bracket.  The next trial is the minimizer of
a cubic or a parabola through what is known, kept within a range.

* `Sample` : the function and its slope at one step;
* `Span.update`, `Span.nextStep` : what a sample does to the two ends, and where
  to look next;
* `Bracket.advance` : one round of the search.
-/
import Descent.Config
import Descent.LineSearch.StopReason

namespace Descent

open Scalar

/-! ## Samples -/

/-- The value and slope of a function of one variable at a position. -/
structure Sample (α : Type) where
  position : α
  value : α
  slope : α
  deriving DecidableEq, Repr

variable {α : Type} [Scalar α]

namespace Sample

/-- The sample of the function less a line of the given slope through zero. -/
def tilt (incline : α) (s : Sample α) : Sample α :=
  { position := s.position
    value := s.value - s.position * incline
    slope := s.slope - incline }

/-- The sample of the function plus a line of the given slope through zero. -/
def untilt (incline : α) (s : Sample α) : Sample α :=
  { position := s.position
    value := s.value + s.position * incline
    slope := s.slope + incline }

/-! ## Interpolation -/

/-- The slope sum of the cubic through two samples. -/
def cubicSum (a b : Sample α) (slope₁ slope₂ : α) : α :=
  3.0 * (a.value - b.value) / (b.position - a.position) + slope₁ + slope₂

/-- The greatest magnitude among a slope sum and two slopes. -/
def slopeScale (sum slope₁ slope₂ : α) : α :=
  larger (larger (abs sum) (abs slope₁)) (abs slope₂)

/-- The discriminant of the slope of a cubic, in units of the scale squared. -/
def discriminant (sum slope₁ slope₂ : α) : α :=
  let s := slopeScale sum slope₁ slope₂
  sum / s * (sum / s) - slope₁ / s * (slope₂ / s)

/-- The square root of the discriminant. -/
def radius (sum slope₁ slope₂ : α) : α :=
  slopeScale sum slope₁ slope₂ * sqrt (discriminant sum slope₁ slope₂)

/-- The square root of the discriminant, or zero where it would be negative. -/
def clippedRadius (sum slope₁ slope₂ : α) : α :=
  slopeScale sum slope₁ slope₂ * sqrt (larger 0 (discriminant sum slope₁ slope₂))

/-- The zero of the line through the slopes of two samples. -/
def secant (best trial : Sample α) : α :=
  trial.position +
    trial.slope / (trial.slope - best.slope) * (best.position - trial.position)

end Sample

/-! ## Ends -/

/-- The two steps that a search keeps. -/
structure Span (α : Type) where
  /-- The step with the least function value so far. -/
  best : Sample α
  /-- The other end. -/
  other : Sample α
  /-- The two ends enclose an acceptable step. -/
  bracketed : Bool
  deriving DecidableEq, Repr

namespace Span

open Sample

/-- The span of the function less a line. -/
def tilt (incline : α) (s : Span α) : Span α :=
  { s with best := s.best.tilt incline, other := s.other.tilt incline }

/-- The span of the function plus a line. -/
def untilt (incline : α) (s : Span α) : Span α :=
  { s with best := s.best.untilt incline, other := s.other.untilt incline }

/-- The slope at the trial, measured towards descent at the best step. -/
def slopeAgreement (s : Span α) (trial : Sample α) : α :=
  trial.slope * (s.best.slope / abs s.best.slope)

/-- The ends after a trial.  A higher value closes the bracket at the trial, a
slope of the other sign closes it at the best step. -/
def update (s : Span α) (trial : Sample α) : Span α :=
  if s.best.value < trial.value then
    { s with other := trial, bracketed := true }
  else if s.slopeAgreement trial < 0 then
    { best := trial, other := s.best, bracketed := true }
  else
    { s with best := trial }

/-! ## The next trial -/

/-- The next trial after a higher value: the minimizer of the cubic where it lies
closer to the best step than that of the parabola, and midway between the two
otherwise. -/
def stepAfterRise (best trial : Sample α) : α :=
  let sum := cubicSum best trial best.slope trial.slope
  let root := radius sum best.slope trial.slope
  let γ := if trial.position < best.position then -root else root
  let p := (γ - best.slope) + sum
  let q := ((γ - best.slope) + γ) + trial.slope
  let r := p / q
  let cubic := best.position + r * (trial.position - best.position)
  let parabola :=
    best.position +
      best.slope / ((best.value - trial.value) / (trial.position - best.position) + best.slope)
        / 2.0 * (trial.position - best.position)
  if abs (cubic - best.position) < abs (parabola - best.position) then cubic
  else cubic + (parabola - cubic) / 2.0

/-- The next trial after the slope has changed its sign: of the minimizer of the
cubic and the zero of the secant the one farther from the trial. -/
def stepAfterTurn (best trial : Sample α) : α :=
  let sum := cubicSum best trial best.slope trial.slope
  let root := radius sum best.slope trial.slope
  let γ := if best.position < trial.position then -root else root
  let p := (γ - trial.slope) + sum
  let q := ((γ - trial.slope) + γ) + best.slope
  let r := p / q
  let cubic := trial.position + r * (best.position - trial.position)
  let line := secant best trial
  if abs (line - trial.position) < abs (cubic - trial.position) then cubic else line

/-- The end of the range that lies beyond the trial. -/
def rangeEnd (best trial : Sample α) (low high : α) : α :=
  if best.position < trial.position then high else low

/-- The next trial after the slope has become less steep.  The cubic counts only
where its minimizer lies beyond the trial; inside a bracket the nearer candidate
is taken and kept away from the far end, otherwise the farther one, kept in the
range. -/
def stepAfterFlattening (s : Span α) (trial : Sample α) (low high : α) : α :=
  let best := s.best
  let sum := cubicSum best trial best.slope trial.slope
  let root := clippedRadius sum best.slope trial.slope
  let γ := if best.position < trial.position then -root else root
  let p := (γ - trial.slope) + sum
  let q := (γ + (best.slope - trial.slope)) + γ
  let r := p / q
  let cubic :=
    if decide (r < 0) && !(γ == 0) then trial.position + r * (best.position - trial.position)
    else rangeEnd best trial low high
  let line := secant best trial
  if s.bracketed then
    let candidate :=
      if abs (cubic - trial.position) < abs (line - trial.position) then cubic else line
    let limit := trial.position + 0.66 * (s.other.position - trial.position)
    if best.position < trial.position then smaller candidate limit else larger candidate limit
  else
    let candidate :=
      if abs (line - trial.position) < abs (cubic - trial.position) then cubic else line
    larger (smaller candidate high) low

/-- The next trial while the slope does not become less steep: the minimizer of
the cubic through the trial and the far end of the bracket, or the end of the
range where there is no bracket. -/
def stepAfterSteepening (s : Span α) (trial : Sample α) (low high : α) : α :=
  if s.bracketed then
    let other := s.other
    let sum := cubicSum trial other other.slope trial.slope
    let root := radius sum other.slope trial.slope
    let γ := if other.position < trial.position then -root else root
    let p := (γ - trial.slope) + sum
    let q := ((γ - trial.slope) + γ) + other.slope
    let r := p / q
    trial.position + r * (other.position - trial.position)
  else rangeEnd s.best trial low high

/-- The next trial, before it is kept within the admissible steps. -/
def nextStep (s : Span α) (trial : Sample α) (low high : α) : α :=
  if s.best.value < trial.value then stepAfterRise s.best trial
  else if s.slopeAgreement trial < 0 then stepAfterTurn s.best trial
  else if abs trial.slope < abs s.best.slope then s.stepAfterFlattening trial low high
  else s.stepAfterSteepening trial low high

end Span

/-! ## Rounds -/

/-- What a search knows before its first trial. -/
structure Frame (α : Type) where
  /-- The function value at step zero. -/
  value : α
  /-- The slope at step zero. -/
  slope : α
  /-- The least admissible step. -/
  minStep : α
  /-- The greatest admissible step. -/
  maxStep : α
  deriving DecidableEq, Repr

/-- What a search has learned from its trials. -/
structure Bracket (α : Type) where
  /-- The ends. -/
  span : Span α
  /-- No trial has had both sufficient decrease and a rising slope. -/
  early : Bool
  /-- The lower end of the range for the next trial. -/
  low : α
  /-- The upper end of the range for the next trial. -/
  high : α
  /-- The width of the bracket. -/
  width : α
  /-- The width of the bracket one round before. -/
  previousWidth : α
  deriving DecidableEq, Repr

/-- The outcome of a round. -/
inductive Round (α : Type) where
  /-- Another trial is needed, at this step. -/
  | next (bracket : Bracket α) (step : α)
  /-- The step has sufficient decrease and a small slope. -/
  | converged
  /-- No better step can be found. -/
  | stopped (reason : StopReason)

namespace Bracket

/-- What is known before the first trial, which is at the given step. -/
def start (frame : Frame α) (step : α) : Bracket α :=
  let origin : Sample α := ⟨0, frame.value, frame.slope⟩
  let width := frame.maxStep - frame.minStep
  { span := ⟨origin, origin, false⟩
    early := true
    low := 0
    high := step + 4.0 * step
    width
    previousWidth := 2.0 * width }

/-- The bracket is narrower than the tolerance relative to its upper end. -/
def isNarrow (sxtol low high : α) : Bool :=
  decide (high - low ≤ sxtol * high)

/-- The ends after a trial and the step proposed next.  Early in the search, where
a value is lower but not low enough, the function is compared less the line of
sufficient decrease. -/
def refine (b : Bracket α) (tilted : Bool) (incline : α) (trial : Sample α) : Span α × α :=
  if tilted then
    let span := b.span.tilt incline
    let trial := trial.tilt incline
    ((span.update trial).untilt incline, span.nextStep trial b.low b.high)
  else
    (b.span.update trial, b.span.nextStep trial b.low b.high)

/-- The bracket with new ends, and the step to try next.  A bracket that has not
shrunk by a third in two rounds is halved; without a bracket the range moves
ahead; a step that the range has no room for falls back to the best one. -/
def settle (sxtol : α) (frame : Frame α) (b : Bracket α) (early : Bool) (span : Span α)
    (proposed : α) : Round α :=
  let best := span.best.position
  let other := span.other.position
  if span.bracketed then
    let gap := abs (other - best)
    let halved := if 0.66 * b.previousWidth ≤ gap then best + 0.5 * (other - best) else proposed
    let low := smaller best other
    let high := larger best other
    let step := smaller (larger halved frame.minStep) frame.maxStep
    let stuck := decide (step ≤ low) || decide (high ≤ step) || isNarrow sxtol low high
    .next { span, early, low, high, width := gap, previousWidth := b.width }
      (if stuck then best else step)
  else
    let low := proposed + 1.1 * (proposed - best)
    let high := proposed + 4.0 * (proposed - best)
    .next { b with span, early, low, high }
      (smaller (larger proposed frame.minStep) frame.maxStep)

/-- One round of the search: the trial meets the conditions, or leaves no room for
a better one, or sharpens the bracket. -/
def advance (c : Config α) (frame : Frame α) (b : Bracket α) (trial : Sample α) : Round α :=
  let incline := c.sftol * frame.slope
  let target := frame.value + trial.position * incline
  let step := trial.position
  let sufficient := decide (trial.value ≤ target)
  let early := b.early && !(sufficient && decide (0 ≤ trial.slope))
  if sufficient && decide (abs trial.slope ≤ c.curvatureTolerance * -frame.slope) then
    .converged
  else if b.span.bracketed && (decide (step ≤ b.low) || decide (b.high ≤ step)) then
    .stopped .roundingErrors
  else if b.span.bracketed && isNarrow c.sxtol b.low b.high then
    .stopped .narrowBracket
  else if step == frame.maxStep && sufficient && decide (trial.slope ≤ incline) then
    .stopped .atMaximumStep
  else if step == frame.minStep &&
      (decide (target < trial.value) || decide (incline ≤ trial.slope)) then
    .stopped .atMinimumStep
  else
    let tilted :=
      early && decide (trial.value ≤ b.span.best.value) && decide (target < trial.value)
    let (span, proposed) := b.refine tilted incline trial
    b.settle c.sxtol frame early span proposed

end Bracket

end Descent
