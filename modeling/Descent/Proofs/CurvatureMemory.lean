/-
# The curvature memory

What the variable metric remembers of a run.  The accepted steps and the falls back on
steepest descent are read off the exchanges; from these alone, and with nothing ever
evicted, it is said which steps a pair is kept of.  The pairs that the run holds are the
last ones of those.  Nothing is assumed about the arithmetic.

* `Stride` : an accepted step, with all that decides whether a pair is kept of it;
* `Stride.Qualifies`, `qualifyingPairs` : the steps that qualify, and their pairs;
* `Optimizer.events` : the strides and fallbacks of a series of calls;
* `Solver.Remembers` : the pairs held are the last ones that qualified;
* `Optimizer.holds_last_pairs` : so it is after any series of calls.
-/
import Descent.Proofs.AcceptedPoint

namespace Descent

open Scalar

variable {α : Type} [Scalar α] {n : Nat}

/-! ## Strides -/

/-- An accepted step. -/
structure Stride (α : Type) (n : Nat) where
  /-- The accepted point that it leaves. -/
  base : Point α n
  /-- The direction of the search. -/
  direction : Vector α n
  /-- The step along the direction. -/
  length : α
  /-- The accepted point that it reaches. -/
  point : Point α n

namespace Stride

/-- The displacement between the two points. -/
def displacement (stride : Stride α n) : Vector α n :=
  difference stride.point.x stride.base.x

/-- The change of the gradient between the two points. -/
def change (stride : Stride α n) : Vector α n :=
  difference stride.point.g stride.base.g

/-- The step is longer than the first one at which its direction meets a bound. -/
def Overshoots (box : Box α n) (stride : Stride α n) : Prop :=
  ∃ hit ∈ (box.stepLimits stride.base.x stride.direction).first, hit < stride.length

instance (box : Box α n) (stride : Stride α n) : Decidable (stride.Overshoots box) :=
  inferInstanceAs (Decidable (∃ hit ∈ _, hit < stride.length))

end Stride

/-- The step of the given length along the direction of a search. -/
def Trial.stride (trial : Trial α n) (length : α) (point : Point α n) : Stride α n :=
  { base := trial.base, direction := trial.direction, length, point }

/-- The inner product of a displacement and a gradient change is positive and finite. -/
def Curved (s y : Vector α n) : Prop :=
  0 < dot s y ∧ isFinite (dot s y) = true

instance (s y : Vector α n) : Decidable (Curved s y) :=
  inferInstanceAs (Decidable (_ ∧ _))

namespace Stride

/-- The step qualifies, where the given pairs are kept already: it does not overshoot, and
the gradient change is curved, or it is not even positive and damping makes it so. -/
def Qualifies (c : Config α) (box : Box α n) (kept : List (CurvaturePair α n))
    (stride : Stride α n) : Prop :=
  ¬ stride.Overshoots box ∧
    (Curved stride.displacement stride.change ∨
      (c.powell = true ∧ ¬ 0 < dot stride.displacement stride.change) ∧
        Curved stride.displacement (damp kept stride.displacement stride.change))

instance (c : Config α) (box : Box α n) (kept : List (CurvaturePair α n)) (stride : Stride α n) :
    Decidable (stride.Qualifies c box kept) :=
  inferInstanceAs (Decidable (_ ∧ _))

/-- The gradient change of the pair: damped unless it is positive as it is. -/
def pairedChange (kept : List (CurvaturePair α n)) (stride : Stride α n) : Vector α n :=
  if 0 < dot stride.displacement stride.change then stride.change
  else damp kept stride.displacement stride.change

/-- The pair that is kept of a step that qualifies. -/
def pair (kept : List (CurvaturePair α n)) (stride : Stride α n) : CurvaturePair α n :=
  { s := stride.displacement
    y := stride.pairedChange kept
    ρ := 1 / dot stride.displacement (stride.pairedChange kept) }

end Stride

/-- The pairs of the steps that qualify, when no pair is ever evicted.  The steps and the
pairs are given newest first. -/
def qualifyingPairs (c : Config α) (box : Box α n) : List (Stride α n) → List (CurvaturePair α n)
  | [] => []
  | stride :: earlier =>
    let kept := qualifyingPairs c box earlier
    if stride.Qualifies c box kept then stride.pair kept :: kept else kept

/-! ## Qualifying pairs -/

/-- The gradient change of a pair is that of the step or the damped one. -/
theorem Stride.y_pair (kept : List (CurvaturePair α n)) (stride : Stride α n) :
    (stride.pair kept).y = stride.change ∨
      (stride.pair kept).y = damp kept stride.displacement stride.change := by
  unfold pair pairedChange
  dsimp only
  split
  · exact .inl rfl
  · exact .inr rfl

/-- The pair of a step that qualifies is valid. -/
theorem Stride.Qualifies.valid {c : Config α} {box : Box α n} {kept : List (CurvaturePair α n)}
    {stride : Stride α n} (h : stride.Qualifies c box kept) : (stride.pair kept).Valid := by
  have hcurved : Curved stride.displacement (stride.pairedChange kept) := by
    unfold pairedChange
    rcases h.2 with hcurved | ⟨⟨-, hflat⟩, hcurved⟩
    · rw [if_pos hcurved.1]
      exact hcurved
    · rw [if_neg hflat]
      exact hcurved
  exact ⟨hcurved.1, hcurved.2, rfl⟩

/-- Each of the pairs is that of a step that qualified when it was accepted. -/
theorem exists_stride_of_mem_qualifyingPairs {c : Config α} {box : Box α n}
    {strides : List (Stride α n)} {p : CurvaturePair α n} (h : p ∈ qualifyingPairs c box strides) :
    ∃ later stride earlier, strides = later ++ stride :: earlier ∧
      stride.Qualifies c box (qualifyingPairs c box earlier) ∧
      p = stride.pair (qualifyingPairs c box earlier) := by
  induction strides with
  | nil => cases h
  | cons stride earlier ih =>
    -- a pair that was there before is that of an earlier step
    have hold (hp : p ∈ qualifyingPairs c box earlier) :
        ∃ later stride' earlier', stride :: earlier = later ++ stride' :: earlier' ∧
          stride'.Qualifies c box (qualifyingPairs c box earlier') ∧
          p = stride'.pair (qualifyingPairs c box earlier') := by
      obtain ⟨later, stride', earlier', hsplit, hstride'⟩ := ih hp
      exact ⟨stride :: later, stride', earlier', by rw [hsplit]; rfl, hstride'⟩
    rw [qualifyingPairs] at h
    split at h
    · next hqualifies =>
      rcases List.mem_cons.mp h with hp | hp
      · exact ⟨[], stride, earlier, rfl, hqualifies, hp⟩
      · exact hold hp
    · exact hold h

/-! ## Learning -/

/-- What is admitted depends on the newest of the pairs kept and on no other. -/
theorem admit?_take (c : Config α) {capacity : Nat} (hpos : 0 < capacity)
    (kept : List (CurvaturePair α n)) (s y : Vector α n) :
    admit? c (kept.take capacity) s y = admit? c kept s y := by
  obtain ⟨m, rfl⟩ : ∃ m, capacity = m + 1 := ⟨capacity - 1, by omega⟩
  cases kept with
  | nil => rfl
  | cons newest older => rfl

theorem positivePair?_eq_ite (s y : Vector α n) :
    positivePair? s y = if Curved s y then some { s, y, ρ := 1 / dot s y } else none := by
  rfl

/-- Of a step that does not overshoot, a pair is admitted exactly if it qualifies. -/
theorem admit?_eq_ite {c : Config α} {box : Box α n} (kept : List (CurvaturePair α n))
    {stride : Stride α n} (h : ¬ stride.Overshoots box) :
    admit? c kept stride.displacement stride.change =
      if stride.Qualifies c box kept then some (stride.pair kept) else none := by
  unfold admit? Stride.Qualifies Stride.pair Stride.pairedChange
  simp only [positivePair?_eq_ite, h, not_false_eq_true, true_and]
  by_cases hpos : 0 < dot stride.displacement stride.change
  · simp only [hpos, if_true, not_true_eq_false, and_false, false_and, or_false]
  · have hflat : ¬ Curved stride.displacement stride.change := fun hcurved => hpos hcurved.1
    simp only [hpos, hflat, if_false, not_false_eq_true, and_true, false_or]
    cases c.powell with
    | true => simp only [if_true, true_and]
    | false => simp only [Bool.false_eq_true, if_false, false_and]

/-- A memory that holds the last of the qualifying pairs does so after another step, if it
learns nothing of a step that overshoots. -/
theorem learn_take {c : Config α} (hpos : 0 < c.memory) (box : Box α n)
    (earlier : List (Stride α n)) (stride : Stride α n) :
    (if stride.Overshoots box then (qualifyingPairs c box earlier).take c.memory
      else learn c ((qualifyingPairs c box earlier).take c.memory) stride.displacement
        stride.change) =
      (qualifyingPairs c box (stride :: earlier)).take c.memory := by
  rw [qualifyingPairs]
  generalize qualifyingPairs c box earlier = kept
  by_cases hover : stride.Overshoots box
  · have hnot : ¬ stride.Qualifies c box kept := fun h => h.1 hover
    rw [if_pos hover, if_neg hnot]
  · rw [if_neg hover, learn, admit?_take c hpos, admit?_eq_ite kept hover]
    by_cases hqualifies : stride.Qualifies c box kept
    · rw [if_pos hqualifies, if_pos hqualifies]
      exact pushRecent_take hpos (stride.pair kept) kept
    · rw [if_neg hqualifies, if_neg hqualifies]

/-! ## Events of a run -/

/-- What concerns the memory in an exchange. -/
inductive Event (α : Type) (n : Nat) where
  /-- A step is accepted. -/
  | stride (stride : Stride α n)
  /-- Steepest descent replaces another direction. -/
  | fallback

/-- The strides since the last fallback, newest first, after another event. -/
def Event.recount (strides : List (Stride α n)) : Event α n → List (Stride α n)
  | stride new => new :: strides
  | fallback => []

/-- The strides of a series of events since the last fallback in it, newest first. -/
def stridesSinceFallback (events : List (Event α n)) : List (Stride α n) :=
  events.foldl Event.recount []

omit [Scalar α] in
theorem stridesSinceFallback_concat (events : List (Event α n)) (event : Event α n) :
    stridesSinceFallback (events ++ [event]) = event.recount (stridesSinceFallback events) := by
  rw [stridesSinceFallback, List.foldl_append]
  rfl

omit [Scalar α] in
/-- The strides since the last fallback are among the events. -/
theorem mem_events_of_mem_strides {events : List (Event α n)} {stride : Stride α n}
    (h : stride ∈ stridesSinceFallback events) : .stride stride ∈ events := by
  induction events using List.reverseRecOn with
  | nil => cases h
  | append_singleton events event ih =>
    rw [stridesSinceFallback_concat] at h
    rw [List.mem_append]
    cases event with
    | stride new =>
      rcases List.mem_cons.mp h with rfl | hold
      · exact .inr List.mem_cons_self
      · exact .inl (ih hold)
    | fallback => cases h

namespace Box

/-- Where no component meets a bound there is no first bound. -/
theorem first_foldl_add {reaches : List (Reach α)} (h : ∀ step, .within step ∉ reaches)
    (limits : StepLimits α) : (reaches.foldl StepLimits.add limits).first = limits.first := by
  induction reaches generalizing limits with
  | nil => rfl
  | cons reach reaches ih =>
    have hrest : ∀ step, .within step ∉ reaches := by
      intro step hmem
      exact h step (List.mem_cons_of_mem reach hmem)
    rw [List.foldl_cons, ih hrest]
    cases reach with
    | still => rfl
    | unlimited => rfl
    | within step => exact absurd List.mem_cons_self (h step)

/-- Without bounds no direction meets one. -/
theorem Valid.first_stepLimits {box : Box α n} (h : box.Valid) (hbounded : box.bounded = false)
    (x d : Vector α n) : (box.stepLimits x d).first = none := by
  refine first_foldl_add ?_ .still
  intro step hmem
  rw [Vector.mem_toList_iff, Vector.mem_iff_getElem] at hmem
  obtain ⟨i, hi, heq⟩ := hmem
  rw [Vector.getElem_zipWith, Vector.getElem_zip, h.unbounded hbounded i hi] at heq
  -- an interval without ends is never left
  simp only [Interval.reach] at heq
  repeat' split at heq
  all_goals cases heq

end Box

namespace Solver

variable {c : Config α} {s s' : Solver α n}

/-- What happens between two states of a run: a line search ends with another iteration, or
an accepted point is left with another restart. -/
def event? (s s' : Solver α n) : Option (Event α n) :=
  match s.phase with
  | .searching trial =>
    if s.iterations < s'.iterations then s'.accepted?.map fun p => .stride (trial.stride s'.step p)
    else none
  | .accepted _ => if s.restarts < s'.restarts then some .fallback else none
  | _ => none

/-- Leaving a point, the variable metric keeps its pairs or falls back and forgets them. -/
theorem heading_metric_cases (s : Solver α n) (p : Point α n) {pairs : List (CurvaturePair α n)}
    (h : s.engine = .metric pairs) :
    ((s.heading c p).engine = .metric pairs ∧ (s.heading c p).restarts = 0) ∨
      ((s.heading c p).engine = .metric [] ∧ (s.heading c p).restarts = 1) := by
  have hpropose : (s.propose c p).1 = .metric pairs ∧ (s.propose c p).2.2 = false := by
    rw [propose, h]
    exact ⟨rfl, rfl⟩
  have hsteepest : (s.steepest p).1 = .metric [] := by
    rw [steepest, h]
  rcases s.heading_cases c p with ⟨hengine, hrestarts⟩ | ⟨hengine, hrestarts⟩
  · rw [hengine, hrestarts, hpropose.1, hpropose.2]
    exact .inl ⟨rfl, rfl⟩
  · rw [hengine, hrestarts, hsteepest, hpropose.2]
    exact .inr ⟨rfl, rfl⟩

/-- The first bound that is recorded for a search is the first that its direction meets. -/
theorem firstHit_stepRange (hbox : s.box.Valid) (p : Point α n) (h : Heading α n) :
    (s.stepRange c p h).firstHit = (s.box.stepLimits p.x h.direction).first := by
  unfold stepRange
  cases hbounded : s.box.bounded with
  | true => rfl
  | false =>
    rw [hbox.first_stepLimits hbounded]
    rfl

/-- The memory of the variable metric holds the last of the pairs that qualified, and a line
search knows the first bound that its direction meets. -/
structure Remembers (c : Config α) (box : Box α n) (events : List (Event α n))
    (s : Solver α n) : Prop where
  /-- The box is the one that the run began with. -/
  box_eq : s.box = box
  /-- The pairs held are the last ones. -/
  engine : s.engine =
    .metric ((qualifyingPairs c box (stridesSinceFallback events)).take c.memory)
  /-- The first bound is on record. -/
  firstHit : ∀ trial, s.phase = .searching trial →
    trial.firstHit = (box.stepLimits trial.base.x trial.direction).first

variable {box : Box α n} {events : List (Event α n)}

omit [Scalar α] in
/-- Where no step and no restart is counted, nothing happens. -/
theorem event?_eq_none (hcount : s'.iterations = s.iterations)
    (hrestarts : s'.restarts = s.restarts) : s.event? s' = none := by
  unfold event?
  cases s.phase with
  | searching trial => exact if_neg (by omega)
  | accepted p => exact if_neg (by omega)
  | opening => rfl
  | stopped last verdict => rfl

omit [Scalar α] in
/-- A stride leaves the accepted point, reaches the next one and is counted. -/
theorem accepted?_of_event? {stride : Stride α n} (h : s.event? s' = some (.stride stride)) :
    s.accepted? = some stride.base ∧ s'.accepted? = some stride.point ∧
      s.iterations < s'.iterations := by
  unfold event? at h
  cases hphase : s.phase with
  | searching trial =>
    rw [hphase] at h
    dsimp only at h
    split at h
    · next hcount =>
      rw [Option.map_eq_some_iff] at h
      obtain ⟨p, hp, hstride⟩ := h
      cases hstride
      exact ⟨accepted?_of_searching hphase, hp, hcount⟩
    · cases h
  | accepted p =>
    rw [hphase] at h
    dsimp only at h
    split at h
    · cases h
    · cases h
  | opening =>
    rw [hphase] at h
    cases h
  | stopped last verdict =>
    rw [hphase] at h
    cases h

/-- A run that goes on without a step or a restart remembers what it did. -/
theorem Remembers.keep (hs : s.Remembers c box events) (hbox : s'.box = s.box)
    (hengine : s'.engine = s.engine) (hcount : s'.iterations = s.iterations)
    (hrestarts : s'.restarts = s.restarts)
    (hphase' : ∀ trial, s'.phase = .searching trial →
      trial.firstHit = (box.stepLimits trial.base.x trial.direction).first) :
    s'.Remembers c box (events ++ (s.event? s').toList) := by
  rw [event?_eq_none hcount hrestarts, Option.toList_none, List.append_nil]
  exact ⟨hbox.trans hs.box_eq, hengine.trans hs.engine, hphase'⟩

/-- A run that takes up a step remembers it. -/
theorem Remembers.step (hs : s.Remembers c box events) (hpos : 0 < c.memory) {trial : Trial α n}
    (hphase : s.phase = .searching trial) {p : Point α n} (hpoint : s'.accepted? = some p)
    (hbox : s'.box = s.box)
    (hengine : s'.engine = learnFrom c s.engine trial (difference p.x trial.base.x)
      (difference p.g trial.base.g))
    (hcount : s'.iterations = s.iterations + 1) (hstep : s'.step = trial.run.step)
    (hphase' : ∀ trial', s'.phase ≠ .searching trial') :
    s'.Remembers c box (events ++ (s.event? s').toList) := by
  have hevent : s.event? s' = some (.stride (trial.stride trial.run.step p)) := by
    rw [event?, hphase]
    dsimp only
    rw [if_pos (by omega), hpoint, hstep]
    rfl
  have hclipped : isClipped trial = true ↔ (trial.stride trial.run.step p).Overshoots box := by
    rw [isClipped, hs.firstHit trial hphase, Option.any_eq_true]
    simp only [decide_eq_true_eq]
    rfl
  rw [hevent, Option.toList_some]
  refine ⟨hbox.trans hs.box_eq, ?_, ?_⟩
  · rw [stridesSinceFallback_concat, Event.recount, ← learn_take hpos, hengine, hs.engine,
      learnFrom]
    simp only [hclipped]
    rfl
  · intro trial' hsearching
    exact absurd hsearching (hphase' trial')

/-- A run that leaves an accepted point remembers whether it fell back. -/
theorem Remembers.depart (hs : s.Remembers c box events) {p : Point α n}
    (hphase : s.phase = .accepted p) (hbox : s'.box = s.box)
    (hengine : s'.engine = (s.heading c p).engine)
    (hrestarts : s'.restarts = s.restarts + (s.heading c p).restarts)
    (hphase' : ∀ trial, s'.phase = .searching trial →
      trial.firstHit = (box.stepLimits trial.base.x trial.direction).first) :
    s'.Remembers c box (events ++ (s.event? s').toList) := by
  have hevent : s.event? s' = if 0 < (s.heading c p).restarts then some .fallback else none := by
    rw [event?, hphase]
    simp only [hrestarts, Nat.lt_add_right_iff_pos]
  rw [hevent]
  rcases s.heading_metric_cases (c := c) p hs.engine with ⟨hkept, hnone⟩ | ⟨hempty, hone⟩
  · rw [if_neg (by omega), Option.toList_none, List.append_nil]
    exact ⟨hbox.trans hs.box_eq, hengine.trans (hkept.trans hs.engine.symm) |>.trans hs.engine,
      hphase'⟩
  · rw [if_pos (by omega), Option.toList_some]
    refine ⟨hbox.trans hs.box_eq, ?_, hphase'⟩
    rw [hengine, hempty, stridesSinceFallback_concat, Event.recount, qualifyingPairs,
      List.take_nil]

variable {x x' : Vector α n} {f : α} {g : Vector α n}

/-- A transition carries the memory on to what happens in it. -/
theorem Transition.remembers (h : Transition c s x f g s' x') (hpos : 0 < c.memory)
    (hbox : box.Valid) (hs : s.Remembers c box events) :
    s'.Remembers c box (events ++ (s.event? s').toList) := by
  have hstopped {phase : Phase α n} {last : Option (Point α n)} {verdict : Verdict α}
      (hphase : phase = .stopped last verdict) : ∀ trial, phase = .searching trial →
        trial.firstHit = (box.stepLimits trial.base.x trial.direction).first := by
    intro trial hsearch
    rw [hphase] at hsearch
    cases hsearch
  cases h with
  | project hphase hx => exact hs.keep rfl rfl rfl rfl hs.firstHit
  | idle last verdict hphase => exact hs.keep rfl rfl rfl rfl hs.firstHit
  | first hphase hx hflaw =>
    refine hs.keep rfl rfl rfl rfl ?_
    intro trial hsearch
    exact absurd hsearch (heed_settle_ne_searching c _ _ none trial)
  | retry trial run hphase hflaw hanswer hleft =>
    refine hs.keep rfl rfl rfl rfl ?_
    intro trial' hsearch
    cases hsearch
    exact hs.firstHit trial hphase
  | step trial remark hphase hflaw hanswer =>
    refine hs.step (p := ⟨x, f, g⟩) hpos hphase ?_ rfl rfl rfl rfl ?_
    · rw [accepted?, accepted?_heed, accepted?_settle]
    · intro trial'
      exact heed_settle_ne_searching c _ _ remark trial'
  | search p range run hphase hslope hleft hrange hstart =>
    refine hs.depart hphase rfl rfl rfl ?_
    intro trial hsearch
    cases hsearch
    rw [hrange, firstHit_stepRange (hs.box_eq ▸ hbox)]
    exact congrArg (fun b => (Box.stepLimits b p.x (s.heading c p).direction).first) hs.box_eq
  -- the run stops
  | flawAtFirst flaw hphase hx hflaw => exact hs.keep rfl rfl rfl rfl (hstopped rfl)
  | flawAtTrial trial flaw hphase hflaw => exact hs.keep rfl rfl rfl rfl (hstopped rfl)
  | spentAtTrial trial run hphase hflaw hanswer hspent =>
    exact hs.keep rfl rfl rfl rfl (hstopped rfl)
  | searchFailed trial step reason hphase hflaw hanswer =>
    exact hs.keep rfl rfl rfl rfl (hstopped rfl)
  | notDescent p hphase hslope => exact hs.depart hphase rfl rfl rfl (hstopped rfl)
  | spentAtPoint p hphase hslope hspent => exact hs.depart hphase rfl rfl rfl (hstopped rfl)
  | refused p range refusal hphase hslope hleft hrange hstart =>
    exact hs.depart hphase rfl rfl rfl (hstopped rfl)

/-- Leaving a point adds no pairs. -/
theorem memoryLength_heading_le (s : Solver α n) (p : Point α n) :
    (s.heading c p).engine.memoryLength ≤ s.engine.memoryLength := by
  cases hengine : s.engine with
  | conjugate last =>
    have hpropose : (s.propose c p).1.memoryLength = 0 := by
      rw [propose, hengine]
      rfl
    have hsteepest : (s.steepest p).1.memoryLength = 0 := by
      rw [steepest, hengine]
      rfl
    rcases s.heading_cases c p with ⟨h, -⟩ | ⟨h, -⟩
    · rw [h, hpropose]
      exact Nat.zero_le _
    · rw [h, hsteepest]
      exact Nat.zero_le _
  | metric pairs =>
    rcases s.heading_metric_cases (c := c) p hengine with ⟨hkept, -⟩ | ⟨hempty, -⟩
    · exact Nat.le_of_eq (congrArg Engine.memoryLength hkept)
    · rw [hempty]
      exact Nat.zero_le _

/-- An accepted step adds no pairs beyond what there is room for. -/
theorem memoryLength_learnFrom_le (hpos : 0 < c.memory) {engine : Engine α n}
    (h : engine.memoryLength ≤ c.memory) (trial : Trial α n) (s y : Vector α n) :
    (learnFrom c engine trial s y).memoryLength ≤ c.memory := by
  cases engine with
  | conjugate last => exact h
  | metric pairs =>
    rw [learnFrom]
    split
    · exact h
    · unfold learn
      split
      · next pair _ => exact length_pushRecent_le pair hpos h
      · exact h

/-- A transition leaves no more pairs than there is room for. -/
theorem Transition.memoryLength_le (h : Transition c s x f g s' x') (hpos : 0 < c.memory)
    (hs : s.memoryLength ≤ c.memory) : s'.memoryLength ≤ c.memory := by
  have hdepart (p : Point α n) : (s.heading c p).engine.memoryLength ≤ c.memory :=
    Nat.le_trans (s.memoryLength_heading_le p) hs
  cases h with
  | step trial remark hphase hflaw hanswer => exact memoryLength_learnFrom_le hpos hs trial _ _
  | notDescent p hphase hslope => exact hdepart p
  | spentAtPoint p hphase hslope hspent => exact hdepart p
  | refused p range refusal hphase hslope hleft hrange hstart => exact hdepart p
  | search p range run hphase hslope hleft hrange hstart => exact hdepart p
  | _ => exact hs

end Solver

/-! ## Series of calls -/

namespace Optimizer

/-- What happens between two states of an optimizer. -/
def event? (o o' : Optimizer α n) : Option (Event α n) :=
  o.solver?.bind fun s => o'.solver?.bind s.event?

/-- The events of a series of calls, the oldest first. -/
def events (o : Optimizer α n) (calls : List (Call α)) : List (Event α n) :=
  o.log event? calls

theorem event?_self (o : Optimizer α n) : o.event? o = none := by
  unfold event?
  cases o.solver? with
  | none => rfl
  | some s => exact Solver.event?_eq_none rfl rfl

theorem event?_of_body {o o' : Optimizer α n} {s s' : Solver α n} (h : o.body = .ok s)
    (h' : o'.body = .ok s') : o.event? o' = s.event? s' := by
  simp [event?, solver?, h, h']

/-- The points of a stride have been accepted one after the other. -/
theorem isInfix_of_mem_events {o : Optimizer α n} {s₀ : Solver α n} (hopen : o.closed = false)
    (hbody : o.body = .ok s₀) (hfresh : s₀.accepted? = none) (calls : List (Call α))
    {stride : Stride α n} (h : .stride stride ∈ o.events calls) :
    [stride.base, stride.point] <:+: o.acceptedPoints calls := by
  -- from the last call back, since its stride ends at the last point
  induction calls using List.reverseRecOn with
  | nil => cases h
  | append_singleton calls call ih =>
    rw [acceptedPoints_append]
    rw [events, log_concat, List.mem_append, Option.mem_toList] at h
    rcases h with h | h
    · exact (ih h).trans (List.prefix_append _ _).isInfix
    · have hlast := getLast?_acceptedPoints hopen hbody hfresh calls
      have hopen' : (o.after calls).closed = false := by rw [closed_after, hopen]
      rw [after_concat] at h
      rcases (o.after calls).exchange_cases call with heq | ⟨s, s', x, g, x', hs, -, -, heq, -⟩
      · rw [heq, event?_self] at h
        cases h
      · rw [heq, event?_of_body hs rfl] at h
        obtain ⟨hbase, hpoint, hcount⟩ := Solver.accepted?_of_event? h
        rw [accepted?_of_body hopen' hs, hbase, List.getLast?_eq_some_iff] at hlast
        obtain ⟨init, hinit⟩ := hlast
        have hnew : (o.after calls).newlyAccepted? ((o.after calls).exchange call).1 =
            some stride.point := by
          refine newlyAccepted?_eq_some (.inr ?_) ?_
          · rw [heq, iterations_of_body hs]
            exact hcount
          · rw [heq, accepted?_proceed hopen', hpoint]
        rw [acceptedPoints, acceptedPoints, hnew, hinit]
        exact ⟨init, [], by simp⟩

/-- A run that has begun keeps at least one pair. -/
theorem memory_pos_of_begin? {x₀ : Vector α n} {c : Config α} {bounds : Bounds α} {s : Solver α n}
    (h : begin? x₀ c bounds = .ok s) : 0 < c.memory := by
  obtain ⟨hvalid, -⟩ := begin?_eq_ok h
  obtain ⟨-, -, -, -, -, hmemory, -⟩ := Config.checks_of_validate hvalid
  rw [Nat.pos_iff_ne_zero]
  intro hzero
  rw [checkMemory, if_pos hzero] at hmemory
  cases hmemory

/-- After any series of calls a run with the variable metric remembers what it did. -/
theorem remembers_after {x₀ : Vector α n} {c : Config α} {bounds : Bounds α} {s₀ : Solver α n}
    (hbegin : begin? x₀ c bounds = .ok s₀) (hmetric : c.algorithm = .variableMetric)
    (calls : List (Call α)) :
    ∃ s, (start x₀ c bounds).after calls = (start x₀ c bounds).proceed s ∧
      s.Remembers c s₀.box ((start x₀ c bounds).events calls) := by
  have hpos := memory_pos_of_begin? hbegin
  have hbox := valid_of_begin? hbegin
  refine invariant_log event? event?_self hbegin ?_ ?_ calls
  · obtain ⟨-, -, box, -, -, rfl⟩ := begin?_eq_ok hbegin
    refine ⟨rfl, ?_, ?_⟩
    · simp only [Solver.initial, hmetric, stridesSinceFallback, List.foldl_nil, qualifyingPairs,
        List.take_nil]
    · intro trial hsearching
      cases hsearching
  · intro events s x f g s' x' htrans hs
    exact htrans.remembers hpos hbox hs

/-- Every optimizer that can be reached keeps at most as many pairs as its settings allow. -/
theorem Reachable.memoryLength_le {x₀ : Vector α n} {c : Config α} {bounds : Bounds α}
    {o : Optimizer α n} (h : Reachable x₀ c bounds o) : o.memoryLength ≤ c.memory := by
  have hrun {s : Solver α n} (hbody : o.body = .ok s) :
      0 < c.memory ∧ s.memoryLength ≤ c.memory := by
    refine h.invariant (P := fun s => 0 < c.memory ∧ s.memoryLength ≤ c.memory) ?_ ?_ hbody
    · intro s₀ hbegin
      refine ⟨memory_pos_of_begin? hbegin, ?_⟩
      obtain ⟨-, -, box, -, -, rfl⟩ := begin?_eq_ok hbegin
      unfold Solver.memoryLength Solver.initial
      cases c.algorithm with
      | conjugateGradient => exact Nat.zero_le _
      | variableMetric => exact Nat.zero_le _
    · rintro s x f g s' x' htrans ⟨hpos, hs⟩
      exact ⟨hpos, htrans.memoryLength_le hpos hs⟩
  unfold memoryLength solver?
  split
  · exact Nat.zero_le _
  · cases hbody : o.body with
    | error e => exact Nat.zero_le _
    | ok s => exact (hrun hbody).2

/-- **The curvature memory.**  After any series of calls, a run with the variable metric holds
the pairs of the last of the steps that qualify, counted from its last fallback on, and of all
of them if there is room.  Each pair consists of the displacement between two points that
were accepted one after the other and the change of the gradient between them, be it damped or
not, with positive curvature and its inverse on record; and no optimizer that can be reached
holds more pairs than its settings allow. -/
theorem holds_last_pairs {x₀ : Vector α n} {c : Config α} {bounds : Bounds α} {s₀ : Solver α n}
    (hbegin : begin? x₀ c bounds = .ok s₀) (hmetric : c.algorithm = .variableMetric)
    (calls : List (Call α)) :
    let o := (start x₀ c bounds).after calls
    let strides := stridesSinceFallback ((start x₀ c bounds).events calls)
    let qualifying := qualifyingPairs c s₀.box strides
    (∃ s pairs, o.body = .ok s ∧ s.engine = .metric pairs ∧ pairs = qualifying.take c.memory ∧
      o.memoryLength = min c.memory qualifying.length ∧
      ∀ p ∈ pairs, ∃ later stride earlier, strides = later ++ stride :: earlier ∧
        [stride.base, stride.point] <:+: (start x₀ c bounds).acceptedPoints calls ∧
        p.s = difference stride.point.x stride.base.x ∧
        (p.y = difference stride.point.g stride.base.g ∨
          p.y = damp (qualifyingPairs c s₀.box earlier) p.s
            (difference stride.point.g stride.base.g)) ∧
        0 < dot p.s p.y ∧ p.ρ = 1 / dot p.s p.y) ∧
      ∀ o', Reachable x₀ c bounds o' → o'.memoryLength ≤ c.memory := by
  intro o strides qualifying
  obtain ⟨s, hafter, hs⟩ := remembers_after hbegin hmetric calls
  have hbody : o.body = .ok s := congrArg body hafter
  have hlength : o.memoryLength = min c.memory qualifying.length := by
    have hopen : o.closed = false := closed_after _ calls
    rw [memoryLength, hopen, solver?, hbody, ← List.length_take]
    show s.engine.memoryLength = _
    rw [hs.engine]
    rfl
  refine ⟨⟨s, qualifying.take c.memory, hbody, hs.engine, rfl, hlength, ?_⟩, ?_⟩
  · intro p hp
    obtain ⟨later, stride, earlier, hsplit, hqualifies, rfl⟩ :=
      exists_stride_of_mem_qualifyingPairs (List.mem_of_mem_take hp)
    have hevent : .stride stride ∈ (start x₀ c bounds).events calls := by
      refine mem_events_of_mem_strides ?_
      show stride ∈ strides
      rw [hsplit]
      exact List.mem_append_right later List.mem_cons_self
    have hfresh : s₀.accepted? = none := Solver.accepted?_of_opening (phase_of_begin? hbegin)
    have hvalid := hqualifies.valid
    exact ⟨later, stride, earlier, hsplit, isInfix_of_mem_events rfl hbegin hfresh calls hevent,
      rfl, stride.y_pair _, hvalid.pos, hvalid.inverse⟩
  · intro o' hreachable
    exact hreachable.memoryLength_le

/-- Calls that answer with the square of a single variable and take two steps. -/
def twoSteps : List (Call Float) :=
  [⟨#[1], 1, #[2]⟩, ⟨#[1], 1, #[2]⟩, ⟨#[0.5], 0.25, #[1]⟩, ⟨#[0.5], 0.25, #[1]⟩,
    ⟨#[0.25], 0.0625, #[0.5]⟩]

/-- The variable metric with room for a single pair. -/
def shortSighted : Config Float :=
  { algorithm := .variableMetric, metric := .vmlmb, memory := 1 }

/-- Both steps qualify, and the pair of the last one is held. -/
theorem twoSteps_hold_last_pair : ∃ s₀ : Solver Float 1,
    begin? #v[1] shortSighted {} = .ok s₀ ∧
      let o := (start #v[1] shortSighted {}).after twoSteps
      let qualifying := qualifyingPairs shortSighted s₀.box
        (stridesSinceFallback ((start #v[1] shortSighted {}).events twoSteps))
      qualifying.length = 2 ∧ o.memoryLength = 1 ∧
        ∃ s, o.body = .ok s ∧ s.engine = .metric (qualifying.take 1) := by
  have hany : (begin? #v[1] shortSighted {}).toOption.any (fun s₀ : Solver Float 1 =>
      (qualifyingPairs shortSighted s₀.box (stridesSinceFallback
        ((start #v[1] shortSighted {}).events twoSteps))).length == 2) = true := by
    decide +kernel
  obtain ⟨s₀, hbegin, hcount⟩ := exists_of_any_begin? hany
  obtain ⟨⟨s, pairs, hbody, hengine, rfl, hlength, -⟩, -⟩ :=
    holds_last_pairs hbegin rfl twoSteps
  rw [beq_iff_eq] at hcount
  exact ⟨s₀, hbegin, hcount, by rw [hlength, hcount]; rfl, s, hbody, hengine⟩

end Optimizer

end Descent
