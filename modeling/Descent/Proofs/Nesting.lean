/-
# Nested brackets

Once the search that brackets has enclosed a step, its bracket only shrinks, whatever it is told
and wherever the interpolation leads.  Nothing is used of the arithmetic but the order of numbers:
a round that another one follows has tested that its trial lies strictly inside the bracket, and
the trial then takes the place of one of the ends.

* `Span.Moves.nested` : the ends after a round;
* `Bracket.Encloses` : a trial strictly inside a bracket;
* `Run.Keeps` : a property of all steps and ends;
* `Run.Inside` : a bracket inside another one;
* `Run.Ordered`, `Run.Ordered.next` : what a search preserves;
* `LineSearch.brackets_nest` : the brackets of a search.
-/
import Descent.Proofs.Acceptance
import Descent.Proofs.Binary.Laws

namespace Descent

open Scalar OrderedScalar

variable {α : Type} [Scalar α]

/-! ## Ends -/

namespace Span

/-- The lesser end. -/
def least (s : Span α) : α :=
  smaller s.best.position s.other.position

/-- The greater end. -/
def greatest (s : Span α) : α :=
  larger s.best.position s.other.position

/-- What both ends have, the lesser and the greater one have. -/
theorem least_and_greatest {P : α → Prop} {s : Span α} (hbest : P s.best.position)
    (hother : P s.other.position) : P s.least ∧ P s.greatest := by
  constructor
  · rcases smaller_eq_or s.best.position s.other.position with heq | heq
    · rwa [least, heq]
    · rwa [least, heq]
  · rcases larger_eq_or s.best.position s.other.position with heq | heq
    · rwa [greatest, heq]
    · rwa [greatest, heq]

omit [Scalar α] in
/-- One of the ends stays, and the trial takes the place of the other one. -/
theorem Moves.exists_stay {s t : Span α} {position : α} (h : s.Moves position t) :
    ∃ stay, (stay = s.best.position ∨ stay = s.other.position) ∧
      (t.best.position = stay ∧ t.other.position = position ∨
        t.best.position = position ∧ t.other.position = stay) := by
  rcases h with ⟨-, hbest, hother⟩ | ⟨-, hbest, hother⟩ | ⟨-, hbest, hother⟩
  · exact ⟨_, .inl rfl, .inl ⟨hbest, hother⟩⟩
  · exact ⟨_, .inl rfl, .inr ⟨hbest, hother⟩⟩
  · exact ⟨_, .inr rfl, .inr ⟨hbest, hother⟩⟩

/-- A trial strictly between the ends leaves ends that are as close or closer, one of them
closer. -/
theorem Moves.nested [OrderedScalar α] {s t : Span α} {position : α} (h : s.Moves position t)
    (hbest : isNaN s.best.position = false) (hother : isNaN s.other.position = false)
    (hleast : s.least < position) (hgreatest : position < s.greatest) :
    s.least ≤ t.least ∧ t.greatest ≤ s.greatest ∧
      (s.least < t.least ∨ t.greatest < s.greatest) := by
  obtain ⟨stay, hstay, hends⟩ := h.exists_stay
  have hposition : isNaN position = false := isNaN_right (le_of_lt hleast)
  obtain ⟨hnumber, hlow, hhigh⟩ : isNaN stay = false ∧ s.least ≤ stay ∧ stay ≤ s.greatest := by
    have hle := smaller_le hbest hother
    rcases hstay with rfl | rfl
    · exact ⟨hbest, hle.1, le_larger_left hbest⟩
    · exact ⟨hother, hle.2, le_larger hbest hother⟩
  have hnew {P : α → Prop} (hstay : P stay) (htrial : P position) : P t.least ∧ P t.greatest := by
    rcases hends with ⟨hbest, hother⟩ | ⟨hbest, hother⟩
    · exact least_and_greatest (by rwa [hbest]) (by rwa [hother])
    · exact least_and_greatest (by rwa [hbest]) (by rwa [hother])
  refine ⟨(hnew (P := (s.least ≤ ·)) hlow (le_of_lt hleast)).1,
    (hnew (P := (· ≤ s.greatest)) hhigh (le_of_lt hgreatest)).2, ?_⟩
  rcases le_total hnumber hposition with hle | hle
  · -- the end that stays is the lesser one
    exact .inr (hnew (P := (· < s.greatest)) (lt_of_le_of_lt hle hgreatest) hgreatest).2
  · exact .inl (hnew (P := (s.least < ·)) (lt_of_lt_of_le hleast hle) hleast).1

end Span

/-! ## Ranges -/

namespace Bracket

/-- The next step is the best one or has been moved into the range of steps. -/
theorem step_cases {sxtol : α} {frame : Frame α} {b b' : Bracket α} {early : Bool}
    {span : Span α} {proposed step : α}
    (h : b.settle sxtol frame early span proposed = .next b' step) :
    step = b'.span.best.position ∨
      ∃ v, step = smaller (larger v frame.minStep) frame.maxStep := by
  rw [span_of_settle h]
  cases hspan : span.bracketed with
  | true => exact (settle_bracketed hspan h).2.imp_right fun hstep => ⟨_, hstep⟩
  | false => exact .inr ⟨_, (settle_open hspan h).2⟩

/-- The range is the bracket, and a step lies strictly inside or is the best one. -/
structure Encloses (b : Bracket α) (step : α) : Prop where
  low : b.low = b.span.least
  high : b.high = b.span.greatest
  step : step = b.span.best.position ∨ b.low < step ∧ step < b.high

/-- Where a round has found a bracket or kept it, the range is the bracket. -/
theorem encloses_of_settle [OrderedScalar α] {sxtol : α} {frame : Frame α} {b b' : Bracket α}
    {early : Bool} {span : Span α} {proposed step : α} (hstep : isNaN step = false)
    (hbest : isNaN b'.span.best.position = false) (hother : isNaN b'.span.other.position = false)
    (hbracketed : b'.span.bracketed = true)
    (h : b.settle sxtol frame early span proposed = .next b' step) : b'.Encloses step := by
  rw [span_of_settle h] at hbest hother hbracketed
  obtain ⟨rfl, -⟩ := settle_bracketed hbracketed h
  refine ⟨rfl, rfl, ?_⟩
  rcases step_of_settle hbracketed rfl h with ⟨rfl, hlow, hhigh⟩ | ⟨heq, -⟩
  · obtain ⟨hleast, hgreatest⟩ := Span.least_and_greatest (P := (isNaN · = false)) hbest hother
    exact .inr ⟨lt_of_not_le hstep hleast hlow, lt_of_not_le hgreatest hstep hhigh⟩
  · exact .inl heq

end Bracket

/-! ## Rounds -/

namespace Run

/-- The step to evaluate and the two ends have a property. -/
structure Keeps (P : α → Prop) (run : Run α) : Prop where
  step : P run.step
  best : P run.bracket.span.best.position
  other : P run.bracket.span.other.position

/-- The trial of a round becomes an end of the bracket after it. -/
theorem moves_of_next {c : Config α} (hcubic : c.lineSearch = .cubic) {run run' : Run α}
    {value slope : α} (h : run.answer c value slope = .next run') :
    run.bracket.span.Moves run.step run'.bracket.span := by
  obtain ⟨b', step, hround, rfl⟩ := answer_eq_next hcubic h
  dsimp only
  rw [Bracket.span_of_settle (Bracket.advance_eq_next hround).2]
  exact run.bracket.moves_refine _ _ ⟨run.step, value, slope⟩

/-- What every step has that is moved into the range of steps, the steps of a search go on
having. -/
theorem Keeps.next {P : α → Prop} {c : Config α} (hcubic : c.lineSearch = .cubic)
    {run run' : Run α} {value slope : α} (h : run.Keeps P)
    (hrange : ∀ v, P (smaller (larger v run.frame.minStep) run.frame.maxStep))
    (hanswer : run.answer c value slope = .next run') : run'.Keeps P := by
  obtain ⟨stay, hstay, hends⟩ := (moves_of_next hcubic hanswer).exists_stay
  have hstay : P stay := by
    rcases hstay with rfl | rfl
    · exact h.best
    · exact h.other
  obtain ⟨hbest, hother⟩ : P run'.bracket.span.best.position ∧
      P run'.bracket.span.other.position := by
    rcases hends with ⟨hbest, hother⟩ | ⟨hbest, hother⟩
    · rw [hbest, hother]
      exact ⟨hstay, h.step⟩
    · rw [hbest, hother]
      exact ⟨h.step, hstay⟩
  refine ⟨?_, hbest, hother⟩
  obtain ⟨b', step, hround, rfl⟩ := answer_eq_next hcubic hanswer
  rcases Bracket.step_cases (Bracket.advance_eq_next hround).2 with hstep | ⟨v, hstep⟩
  · dsimp only
    rwa [hstep]
  · dsimp only
    rw [hstep]
    exact hrange v

/-- The bracket of another run lies inside and is smaller. -/
structure Inside (run run' : Run α) : Prop where
  bracketed : run'.bracket.span.bracketed = true
  low : run.bracket.low ≤ run'.bracket.low
  high : run'.bracket.high ≤ run.bracket.high
  shrinks : run.bracket.low < run'.bracket.low ∨ run'.bracket.high < run.bracket.high

/-- The step that a run evaluates is an end of a bracket. -/
def IsEndOf (run : Run α) (span : Span α) : Prop :=
  run.step = span.best.position ∨ run.step = span.other.position

variable [OrderedScalar α]

theorem Inside.trans {run run' run'' : Run α} (h : run.Inside run') (h' : run'.Inside run'') :
    run.Inside run'' := by
  refine ⟨h'.bracketed, le_trans h.low h'.low, le_trans h'.high h.high, ?_⟩
  rcases h.shrinks with hlow | hhigh
  · exact .inl (lt_of_lt_of_le hlow h'.low)
  · exact .inr (lt_of_le_of_lt h'.high hhigh)

/-- What a search preserves: its steps are numbers, and so are the ends of the range of steps;
inside a bracket its range is the bracket. -/
structure Ordered (run : Run α) : Prop where
  least : isNaN run.frame.minStep = false
  greatest : isNaN run.frame.maxStep = false
  numbers : run.Keeps (isNaN · = false)
  encloses : run.bracket.span.bracketed = true → run.bracket.Encloses run.step

/-- A search starts without a bracket, at a number. -/
theorem ordered_start {c : Config α} {recent : List α} {value slope step minStep maxStep : α}
    {run : Run α} (h : start c recent value slope step minStep maxStep = .ok run) :
    run.Ordered := by
  obtain ⟨-, hleast, hrange, -, rfl⟩ := start_eq_ok_iff.mp h
  have hzero : isNaN (0 : α) = false := isNaN_left hleast
  have hmin := isNaN_left hrange
  have hmax := isNaN_right hrange
  refine ⟨hmin, hmax, ⟨isNaN_smaller_larger step hmin hmax, hzero, hzero⟩, ?_⟩
  rintro ⟨⟩

/-- An end of the bracket does not lie strictly inside. -/
theorem Ordered.not_between_of_end {run : Run α} (h : run.Ordered)
    (hbracketed : run.bracket.span.bracketed = true) (hend : run.IsEndOf run.bracket.span) :
    ¬ (run.bracket.low < run.step ∧ run.step < run.bracket.high) := by
  rintro ⟨habove, hbelow⟩
  rw [(h.encloses hbracketed).low] at habove
  rw [(h.encloses hbracketed).high] at hbelow
  rcases le_smaller_or_larger_le h.numbers.best h.numbers.other hend with hle | hle
  · exact not_lt_of_le hle habove
  · exact not_lt_of_le hle hbelow

/-- A trial inside a bracket that another round follows lies strictly between the ends. -/
theorem Ordered.between {c : Config α} (hcubic : c.lineSearch = .cubic) {run run' : Run α}
    (h : run.Ordered) (hbracketed : run.bracket.span.bracketed = true) {value slope : α}
    (hanswer : run.answer c value slope = .next run') :
    run.bracket.low < run.step ∧ run.step < run.bracket.high := by
  obtain ⟨b', step, hround, -⟩ := answer_eq_next hcubic hanswer
  obtain ⟨hproceeds, -⟩ := Bracket.advance_eq_next hround
  obtain ⟨hleast, hgreatest⟩ :=
    Span.least_and_greatest (P := (isNaN · = false)) h.numbers.best h.numbers.other
  rw [← (h.encloses hbracketed).low] at hleast
  rw [← (h.encloses hbracketed).high] at hgreatest
  exact ⟨lt_of_not_le h.numbers.step hleast (hproceeds.above hbracketed),
    lt_of_not_le hgreatest h.numbers.step (hproceeds.below hbracketed)⟩

/-- A search that goes on keeps its steps numbers, and inside a bracket its range the bracket. -/
theorem Ordered.next {c : Config α} (hcubic : c.lineSearch = .cubic) {run run' : Run α}
    (h : run.Ordered) {value slope : α} (hanswer : run.answer c value slope = .next run') :
    run'.Ordered := by
  have hframe := (kept_of_next hanswer).1
  have hnumbers : run'.Keeps (isNaN · = false) :=
    h.numbers.next hcubic (fun v => isNaN_smaller_larger v h.least h.greatest) hanswer
  refine ⟨hframe ▸ h.least, hframe ▸ h.greatest, hnumbers, fun hbracketed => ?_⟩
  obtain ⟨b', step, hround, rfl⟩ := answer_eq_next hcubic hanswer
  exact Bracket.encloses_of_settle hnumbers.step hnumbers.best hnumbers.other hbracketed
    (Bracket.advance_eq_next hround).2

/-- **Rounds inside a bracket.**  Where another round follows, the bracket stays and shrinks. -/
theorem Ordered.inside_next {c : Config α} (hcubic : c.lineSearch = .cubic) {run run' : Run α}
    (h : run.Ordered) (hbracketed : run.bracket.span.bracketed = true) {value slope : α}
    (hanswer : run.answer c value slope = .next run') : run.Inside run' := by
  have hmoves := moves_of_next hcubic hanswer
  have hbracketed' : run'.bracket.span.bracketed = true := by
    cases hmoves with
    | rise hclosed => exact hclosed
    | turn hclosed => exact hclosed
    | pass hkept => rw [hkept, hbracketed]
  have hencloses := h.encloses hbracketed
  have hencloses' := (h.next hcubic hanswer).encloses hbracketed'
  obtain ⟨habove, hbelow⟩ := h.between hcubic hbracketed hanswer
  rw [hencloses.low] at habove
  rw [hencloses.high] at hbelow
  obtain ⟨hlow, hhigh, hshrinks⟩ :=
    hmoves.nested h.numbers.best h.numbers.other habove hbelow
  rw [← hencloses.low, ← hencloses'.low] at hlow hshrinks
  rw [← hencloses.high, ← hencloses'.high] at hhigh hshrinks
  exact ⟨hbracketed', hlow, hhigh, hshrinks⟩

end Run

/-! ## Searches -/

namespace LineSearch

variable {s : LineSearch α} {answers : Nat → α × α}

theorem answered_config (s : LineSearch α) (answers : Nat → α × α) (k : Nat) :
    (s.answered answers k).config = s.config := by
  induction k with
  | zero => rfl
  | succ k ih =>
    rw [answered, (iterate_keeps _ _ _).1]
    exact ih

/-- A search that is not over after an answer was not over before. -/
theorem exists_of_answered {k : Nat} {run' : Run α}
    (h : (s.answered answers (k + 1)).state = .running run') :
    ∃ run, (s.answered answers k).state = .running run ∧
      run.answer s.config (answers k).1 (answers k).2 = .next run' := by
  obtain ⟨run, hrun, hanswer⟩ := exists_of_iterate h
  rw [answered_config] at hanswer
  exact ⟨run, hrun, hanswer⟩

variable [OrderedScalar α]

/-- A search has the properties that rounds preserve after any number of answers. -/
theorem ordered_answered (hcubic : s.config.lineSearch = .cubic)
    (hstart : ∀ run, s.state = .running run → run.Ordered) (k : Nat) :
    ∀ run, (s.answered answers k).state = .running run → run.Ordered := by
  induction k with
  | zero => exact hstart
  | succ k ih =>
    intro run' hrun'
    obtain ⟨run, hrun, hanswer⟩ := exists_of_answered hrun'
    exact (ih run hrun).next hcubic hanswer

/-- A bracket lies inside all those before it. -/
theorem inside_answered (hcubic : s.config.lineSearch = .cubic)
    (hstart : ∀ run, s.state = .running run → run.Ordered) {j : Nat} {run : Run α}
    (hrun : (s.answered answers j).state = .running run)
    (hbracketed : run.bracket.span.bracketed = true) (n : Nat) :
    ∀ run', (s.answered answers (j + n + 1)).state = .running run' → run.Inside run' := by
  induction n with
  | zero =>
    intro run' hrun'
    obtain ⟨run₀, hrun₀, hanswer⟩ := exists_of_answered (k := j) hrun'
    rw [hrun] at hrun₀
    cases hrun₀
    exact (ordered_answered hcubic hstart j run hrun).inside_next hcubic hbracketed hanswer
  | succ n ih =>
    intro run' hrun'
    obtain ⟨run₁, hrun₁, hanswer⟩ := exists_of_answered hrun'
    have hinside := ih run₁ hrun₁
    have hordered := ordered_answered hcubic hstart _ run₁ hrun₁
    exact hinside.trans (hordered.inside_next hcubic hinside.bracketed hanswer)

/-- **Brackets only shrink.**  A search that brackets has been started and is told one answer after
another, whatever they are; nothing is assumed of the arithmetic but the order of numbers.

* While it goes on inside a bracket, the range of its steps is the bracket, and the next step lies
  strictly inside or is the best one.  After an answer about a step that does not lie strictly
  inside, such as an end of the bracket, the search is over.
* A bracket that an answer leaves has the step that the answer was about as one of its ends.
* Once there is a bracket, there is one as long as the search goes on, and it lies inside the one
  before and is smaller. -/
theorem brackets_nest {s₀ s : LineSearch α} (hcubic : s₀.config.lineSearch = .cubic)
    {value slope step minStep maxStep : α}
    (hstart : s₀.start value slope step minStep maxStep = .ok s) (answers : Nat → α × α) :
    (∀ k run, (s.answered answers k).state = .running run → run.bracket.span.bracketed = true →
      run.bracket.low = smaller run.bracket.span.best.position run.bracket.span.other.position ∧
      run.bracket.high = larger run.bracket.span.best.position run.bracket.span.other.position ∧
      (run.step = run.bracket.span.best.position ∨
        run.bracket.low < run.step ∧ run.step < run.bracket.high) ∧
      (run.step ≤ run.bracket.low ∨ run.bracket.high ≤ run.step ∨
          run.step = run.bracket.span.best.position ∨
          run.step = run.bracket.span.other.position →
        ∀ value slope, ((s.answered answers k).iterate value slope).status ≠ .search)) ∧
    (∀ k run run', (s.answered answers k).state = .running run →
      (s.answered answers (k + 1)).state = .running run' → run'.bracket.span.bracketed = true →
      run.step = run'.bracket.span.best.position ∨ run.step = run'.bracket.span.other.position) ∧
    (∀ j k run run', j < k → (s.answered answers j).state = .running run →
      (s.answered answers k).state = .running run' → run.bracket.span.bracketed = true →
      run'.bracket.span.bracketed = true ∧ run.bracket.low ≤ run'.bracket.low ∧
        run'.bracket.high ≤ run.bracket.high ∧
        (run.bracket.low < run'.bracket.low ∨ run'.bracket.high < run.bracket.high)) := by
  obtain ⟨first, hfirst, hs⟩ := start_eq_ok_iff.mp hstart
  have hcubic : s.config.lineSearch = .cubic := by
    rw [hs]
    exact hcubic
  have hstart : ∀ run, s.state = .running run → run.Ordered := by
    rw [hs]
    rintro run ⟨⟩
    exact Run.ordered_start hfirst
  refine ⟨?_, ?_, ?_⟩
  · intro k run hrun hbracketed
    have hordered := ordered_answered hcubic hstart k run hrun
    obtain ⟨hlow, hhigh, hstep⟩ := hordered.encloses hbracketed
    refine ⟨hlow, hhigh, hstep, fun hend value slope => ?_⟩
    rcases iterate_cases hrun value slope with hended | ⟨run', hanswer, -⟩
    · exact hended
    · -- another round would have its trial strictly inside
      rw [answered_config] at hanswer
      have hbetween := hordered.between hcubic hbracketed hanswer
      rcases hend with hle | hle | hend
      · exact absurd hbetween.1 (not_lt_of_le hle)
      · exact absurd hbetween.2 (not_lt_of_le hle)
      · exact absurd hbetween (hordered.not_between_of_end hbracketed hend)
  · intro k run run' hrun hrun' hbracketed
    obtain ⟨run₀, hrun₀, hanswer⟩ := exists_of_answered hrun'
    rw [hrun] at hrun₀
    cases hrun₀
    cases Run.moves_of_next hcubic hanswer with
    | rise _ _ hother => exact .inr hother.symm
    | turn _ hbest _ => exact .inl hbest.symm
    | pass _ hbest _ => exact .inl hbest.symm
  · intro j k run run' hlt hrun hrun' hbracketed
    obtain ⟨n, rfl⟩ := Nat.exists_eq_add_of_lt hlt
    obtain ⟨hbracketed', hlow, hhigh, hshrinks⟩ :=
      inside_answered hcubic hstart hrun hbracketed n run' hrun'
    exact ⟨hbracketed', hlow, hhigh, hshrinks⟩

/-! ## A search that is told nothing -/

/-- A line search in double precision. -/
def doubleCubic : LineSearch Float where
  config := { lineSearch := .cubic }

/-- A higher value, and then nothing but undefined ones. -/
def undefinedAfterRise : Nat → Float × Float
  | 0 => (1, 1)
  | _ => (0 / 0, 0 / 0)

/-- The higher value closes a bracket, the first undefined answer shrinks it and makes the search
fall back to the best step, and the second one ends it. -/
theorem undefined_answers_shrink : ∃ s run run',
    doubleCubic.start 0 (-1) 1 0 4 = .ok s ∧
      (s.answered undefinedAfterRise 1).state = .running run ∧
      (s.answered undefinedAfterRise 2).state = .running run' ∧
      (run.bracket.low < run'.bracket.low ∨ run'.bracket.high < run.bracket.high) ∧
      (s.answered undefinedAfterRise 3).status ≠ .search := by
  have hany : (doubleCubic.start 0 (-1) 1 0 4).toOption.any (fun s =>
      match (s.answered undefinedAfterRise 1).state, (s.answered undefinedAfterRise 2).state with
      | .running run, .running run' =>
        run.bracket.span.bracketed && decide (run'.step ≤ run'.bracket.low)
      | _, _ => false) = true := by
    decide +kernel
  obtain ⟨s, hstart, hcheck⟩ := exists_ok_of_any hany
  obtain ⟨hinside, -, hnested⟩ := brackets_nest rfl hstart undefinedAfterRise
  split at hcheck
  · next run run' hrun hrun' =>
    obtain ⟨hbracketed, hstuck⟩ := (Bool.and_eq_true _ _).mp hcheck
    obtain ⟨hbracketed', -, -, hshrinks⟩ := hnested 1 2 run run' one_lt_two hrun hrun' hbracketed
    obtain ⟨-, -, -, hends⟩ := hinside 2 run' hrun' hbracketed'
    exact ⟨s, run, run', hstart, hrun, hrun', hshrinks,
      hends (.inl (of_decide_eq_true hstuck)) _ _⟩
  · cases hcheck

end LineSearch

end Descent
