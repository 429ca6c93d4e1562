/-
# Symmetries of conversations

Whoever asks for a minimization with the coordinates in another order, some of them reflected,
or with a number added to all values, and answers accordingly, sees the same run: the same
tasks, steps and counters after every call, and the images of its points.

* `Optimizer.Mirrors` : an optimizer and its image;
* `Mirrors.exchange`, `Mirrors.converse` : they stay images of one another;
* `shifted_values` : a number added to all values;
* `mirrored_coordinates` : coordinates in another order, some of them reflected.
-/
import Mathlib
import Descent.Proofs.Conversation
import Descent.Proofs.Departure
import Descent.Proofs.InverseMatrix
import Descent.Proofs.Symmetry.Starts

namespace Descent

open Scalar ExactScalar StrictScalar

variable {α : Type} [Scalar α] {n : Nat}

namespace Optimizer

theorem status_of_error {o : Optimizer α n} {e : Failure α} (h : o.body = .error e) :
    o.status = e.startStatus := by
  rw [status, h]
  cases e <;> rfl

variable [ExactScalar α]

/-- An optimizer and its image. -/
structure Mirrors (T : Symmetry n) (o o' : Optimizer α n) : Prop where
  isOpen : o.closed = false
  isOpen' : o'.closed = false
  config : o'.config = o.config
  body : Alike (Solver.Mirrors T) o.body o'.body

variable {T : Symmetry n} {o o' : Optimizer α n}

/-- A phase and its image have the same task and status. -/
theorem task_eq_of_mirrors {phase phase' : Phase α n} (h : Phase.Mirrors T phase phase') :
    phase'.task = phase.task ∧ phase'.status = phase.status ∧
      phase'.accepted? = phase.accepted?.map T.point := by
  cases h with
  | opening => exact ⟨rfl, rfl, rfl⟩
  | searching trial => exact ⟨rfl, rfl, rfl⟩
  | accepted p => exact ⟨rfl, rfl, rfl⟩
  | stopped last htask hstatus => exact ⟨htask, hstatus, rfl⟩

/-- The image of an optimizer shows the same readings. -/
theorem Mirrors.readings (h : Mirrors T o o') : o'.readings = o.readings := by
  obtain ⟨hopen, hopen', -, hbody⟩ := h
  generalize hb : o.body = body at hbody
  generalize hb' : o'.body = body' at hbody
  cases hbody with
  | ok hs =>
    obtain ⟨htask, hstatus, haccepted⟩ := task_eq_of_mirrors hs.phase
    have hiterations := congrArg Solver.iterations hs.image
    have hevaluations := congrArg Solver.evaluations hs.image
    have hrestarts := congrArg Solver.restarts hs.image
    have hstep := congrArg Solver.step hs.image
    have hnorm := congrArg Solver.norm hs.image
    have hengine := congrArg Solver.engine hs.image
    simp only [Symmetry.solver] at hiterations hevaluations hrestarts hstep hnorm hengine
    simp only [Optimizer.readings, task, status, iterations, evaluations, restarts, step,
      gradientNorm?, memoryLength, solver?, hb, hb', hopen, hopen', Option.elim_some,
      Option.bind_some, Solver.task, Solver.status, Solver.gradientNorm?, Solver.accepted?,
      Solver.memoryLength, htask, hstatus, haccepted, hiterations, hevaluations, hrestarts, hstep,
      hnorm, hengine, T.memoryLength_engine, Option.map_map]
    rfl
  | error he =>
    have hstatus : o'.status = o.status := by
      rw [status_of_error hb, status_of_error hb', he]
    simp only [Optimizer.readings, hstatus]
    simp only [task, iterations, evaluations, restarts, step, gradientNorm?, memoryLength, solver?,
      hb, hb', hopen, hopen']

/-- Its accepted point is the image of the accepted point. -/
theorem Mirrors.accepted? (h : Mirrors T o o') : o'.accepted? = o.accepted?.map T.point := by
  obtain ⟨hopen, hopen', -, hbody⟩ := h
  generalize hb : o.body = body at hbody
  generalize hb' : o'.body = body' at hbody
  cases hbody with
  | ok hs =>
    obtain ⟨-, -, haccepted⟩ := task_eq_of_mirrors hs.phase
    rw [accepted?_of_body hopen hb, accepted?_of_body hopen' hb']
    exact haccepted
  | error he => simp [Optimizer.accepted?, solver?, hb, hb', hopen, hopen']

variable [StrictScalar α]

/-! ## Conversations -/

/-- One call to both: the image of an optimizer answers the image of a call in the same way. -/
theorem Mirrors.exchange (h : Mirrors T o o') (p : Point α n) :
    Mirrors T (o.exchange p.call).1 (o'.exchange (T.point p).call).1 ∧
      ∃ x : Vector α n, (o.exchange p.call).2 = x.toArray ∧
        (o'.exchange (T.point p).call).2 = (T.act x).toArray := by
  have htask : o'.task = o.task := congrArg Readings.task h.readings
  cases hterm : o.task.isTerminal with
  | true =>
    rw [exchange_of_isTerminal hterm, exchange_of_isTerminal (htask ▸ hterm)]
    exact ⟨h, p.x, rfl, rfl⟩
  | false =>
    obtain ⟨hopen, hopen', hconfig, hbody⟩ := h
    obtain ⟨s, hb⟩ := exists_body_of_isTerminal hterm
    obtain ⟨s', hb'⟩ := exists_body_of_isTerminal (o := o') (htask ▸ hterm)
    rw [hb, hb'] at hbody
    cases hbody with
    | ok hs =>
      have hrunning : s.task.isTerminal = false := task_of_body hb ▸ hterm
      have hrunning' : s'.task.isTerminal = false := task_of_body hb' ▸ htask ▸ hterm
      obtain ⟨hnext, hpoint⟩ := hs.advance T o.config p.x p.f p.g
      rw [exchange_of_running hopen hb hrunning, exchange_of_running hopen' hb' hrunning', hconfig]
      exact ⟨⟨hopen, hopen', hconfig, .ok hnext⟩, _, rfl, congrArg Vector.toArray hpoint⟩

/-- A caller that reports given values and gradients, each at the point handed back last. -/
def answering (answers : Nat → α × Vector α n) (k : Nat) (x : Array α) : Call α :=
  ⟨x, (answers k).1, (answers k).2.toArray⟩

/-- **Conversations.**  After any number of calls, an optimizer and its image are images of one
another, and so are the points handed back. -/
theorem Mirrors.converse (h : Mirrors T o o') (answers : Nat → α × Vector α n) (x : Vector α n)
    (k : Nat) :
    Mirrors T (o.converse (answering answers) x.toArray k).1
        (o'.converse
          (answering fun j => ((answers j).1 + ofReal T.offset, T.act (answers j).2))
          (T.act x).toArray k).1 ∧
      ∃ y : Vector α n, (o.converse (answering answers) x.toArray k).2 = y.toArray ∧
        (o'.converse
          (answering fun j => ((answers j).1 + ofReal T.offset, T.act (answers j).2))
          (T.act x).toArray k).2 = (T.act y).toArray := by
  induction k with
  | zero => exact ⟨h, x, rfl, rfl⟩
  | succ k ih =>
    obtain ⟨hk, y, hy, hy'⟩ := ih
    simp only [Optimizer.converse, hy, hy']
    exact hk.exchange ⟨y, (answers k).1, (answers k).2⟩

omit [ExactScalar α] [StrictScalar α] in
/-- One more call of a conversation with a run that goes on. -/
theorem converse_answering_succ {answers : Nat → α × Vector α n} {x : Array α} {k : Nat}
    {s s' : Solver α n} {y y' : Vector α n} (hopen : o.closed = false)
    (hnow : (o.converse (answering answers) x k).1.body = .ok s ∧
      (o.converse (answering answers) x k).2 = y.toArray)
    (hrunning : s.task.isTerminal = false)
    (hadvance : s.advance o.config y (answers k).1 (answers k).2 = (s', y')) :
    (o.converse (answering answers) x (k + 1)).1.body = .ok s' ∧
      (o.converse (answering answers) x (k + 1)).2 = y'.toArray := by
  obtain ⟨hbody, hpoint⟩ := hnow
  have hexchange := exchange_of_running ((closed_converse k).trans hopen) hbody hrunning
    ⟨y, (answers k).1, (answers k).2⟩
  rw [config_converse] at hexchange
  simp only [hadvance] at hexchange
  have hcall : answering answers k y.toArray = Point.call ⟨y, (answers k).1, (answers k).2⟩ := rfl
  rw [converse, hpoint, hcall, hexchange]
  exact ⟨rfl, rfl⟩

omit [ExactScalar α] [StrictScalar α] in
/-- A finite first answer at a point of the box makes that the accepted one. -/
theorem accepted?_after_first {x₀ : Vector α n} {c : Config α} {bounds : Bounds α}
    {s : Solver α n} (hbegin : begin? x₀ c bounds = .ok s) {x g : Vector α n} {f : α}
    (hx : s.box.contains x = true) (hflaw : flaw? f g = none) :
    ((start x₀ c bounds).after [⟨x.toArray, f, g.toArray⟩]).accepted? = some ⟨x, f, g⟩ := by
  have hfresh : ((start x₀ c bounds).after []).evaluations = 0 := by
    obtain ⟨-, -, box, -, -, rfl⟩ := begin?_eq_ok hbegin
    rw [after_nil, evaluations_of_body hbegin]
    rfl
  have hbody := after_first hbegin [] hfresh hx hflaw
  exact (accepted?_of_body (closed_after _ _) hbody).trans (Solver.accepted?_settle c _ _)

omit [ExactScalar α] [StrictScalar α] in
/-- A finite first answer makes the starting point the accepted one. -/
theorem accepted?_first {x₀ : Vector α n} {c : Config α} {bounds : Bounds α} {s : Solver α n}
    (hbegin : begin? x₀ c bounds = .ok s) (hx : s.box.contains x₀ = true)
    {answers : Nat → α × Vector α n} (hflaw : flaw? (answers 0).1 (answers 0).2 = none) :
    ((start x₀ c bounds).converse (answering answers) x₀.toArray 1).1.accepted? =
      some ⟨x₀, (answers 0).1, (answers 0).2⟩ := by
  rw [← after_callsOf]
  exact accepted?_after_first hbegin hx hflaw

/-! ## Shifted values -/

/-- The coordinates as they are, with a number added to all values. -/
def shift (d : ℝ) : Symmetry n :=
  { order := Equiv.refl _, flipped := fun _ => false, offset := d }

omit [ExactScalar α] [StrictScalar α] in
@[simp] theorem act_shift (d : ℝ) (x : Vector α n) : (shift d).act x = x := by
  ext i hi
  simp [Symmetry.getElem_act, shift, mirror]

omit [ExactScalar α] [StrictScalar α] in
@[simp] theorem box_shift (d : ℝ) (box : Box α n) : (shift d).box box = box := by
  have hsides : (shift d).sides box.sides = box.sides := by
    ext i hi
    all_goals simp [shift, Interval.mirror]
  rw [Symmetry.box, hsides]

omit [StrictScalar α] in
/-- An optimizer is its own image until it has been told a value. -/
theorem mirrors_start_shift (d : ℝ) (x₀ : Vector α n) (c : Config α) (bounds : Bounds α) :
    Mirrors (shift d) (start x₀ c bounds) (start x₀ c bounds) := by
  refine ⟨rfl, rfl, rfl, alike_refl _ ?_⟩
  intro s hs
  obtain ⟨-, -, box, hbox, -, rfl⟩ := begin?_eq_ok hs
  have himage := mirrors_initial (shift d) c (Box.valid_of_ofBounds hbox)
  rwa [box_shift] at himage

/-- **Shifted values.**  A caller that adds the same number to all values gets the same
answers to everything, the same points, and accepted points that differ in their values only. -/
theorem shifted_values (x₀ : Vector α n) (c : Config α) (bounds : Bounds α) (d : ℝ)
    (answers : Nat → α × Vector α n) (k : Nat) :
    let now := (start x₀ c bounds).converse (answering answers) x₀.toArray k
    let shifted := (start x₀ c bounds).converse
      (answering fun j => ((answers j).1 + ofReal d, (answers j).2)) x₀.toArray k
    shifted.2 = now.2 ∧ shifted.1.readings = now.1.readings ∧
      shifted.1.accepted? = now.1.accepted?.map fun p => { p with f := p.f + ofReal d } := by
  intro now shifted
  obtain ⟨hmirrors, x, hx, hx'⟩ := (mirrors_start_shift d x₀ c bounds).converse answers x₀ k
  simp only [act_shift] at hmirrors hx'
  have hpoint : (shift d).point = fun p : Point α n => { p with f := p.f + ofReal d } := by
    funext p
    simp only [Symmetry.point, act_shift]
    rfl
  refine ⟨hx'.trans hx.symm, hmirrors.readings, ?_⟩
  rw [← hpoint]
  exact hmirrors.accepted?

/-! ### On the line, with the default settings -/

namespace Line

open Solver

/-- A point with the slope one. -/
noncomputable def first : Point ℝ 1 :=
  ⟨#v[1], 1, #v[1]⟩

/-- The run that waits there. -/
noncomputable def waiting : Solver ℝ 1 :=
  { (initial {} (Box.whole 1)).takeFirst {} first with phase := .accepted first }

/-- The steps of its first search. -/
noncomputable def range : StepRange ℝ :=
  ⟨0.05, 0.05 * 1e-20, 0.05 * 1e20, none⟩

/-- That search after some trials. -/
noncomputable def search (trials : Nat) (step : ℝ) : Run ℝ :=
  { (trialDownhill first range).run with trials, step }

/-- The run in that search. -/
noncomputable def searching (trials : Nat) (step : ℝ) : Solver ℝ 1 :=
  { waiting.turn (downhill (.conjugate (some (.steepest #v[1]))) first) with
    evaluations := trials + 1
    phase := .searching { trialDownhill first range with run := search trials step } }

theorem dot_first : dot first.g first.g = 1 := by
  simp [first, dot_eq, dotProduct, coords]

theorem norm2_first : norm2 first.g = 1 := by
  rw [norm2, dot_first]
  exact Real.sqrt_one

theorem slope_search (trials : Nat) (step : ℝ) : (search trials step).frame.slope = -1 :=
  congrArg Neg.neg dot_first

theorem trialPoint_first (t : ℝ) :
    trialPoint (Box.whole 1) first (negate first.g) t = #v[1 - t] := by
  rw [trialPoint, Box.project_whole]
  simp [axpy, negate, first, sub_eq_add_neg]

/-- The run takes up its first point. -/
theorem begins : (initial {} (Box.whole 1)).advance {} #v[1] 1 #v[1] = (waiting, #v[1]) := by
  have hlong : 1e-6 < waiting.norm := lt_of_lt_of_eq (by norm_num) norm2_first.symm
  have hsettle : waiting.settle {} first = .accepted first :=
    settle_of_lt rfl rfl hlong (by decide)
  rw [advance_of_opening rfl (Box.contains_whole _) (flaw?_real _ _)]
  exact congrArg (fun phase => ({ waiting with phase }, first.x)) hsettle

/-- It leaves along the opposite of the slope. -/
theorem departs (f : ℝ) (g : Vector ℝ 1) :
    waiting.advance {} #v[1] f g = (searching 0 0.05, #v[1 - 0.05]) := by
  let h : Heading ℝ 1 := downhill (.conjugate (some (.steepest #v[1]))) first
  have hfirst : firstStep {} none (-dot first.g first.g) (norm2 first.g) (norm2 first.x) =
      0.05 := by
    show smallStep {} (norm2 first.g) (norm2 first.g) = 0.05
    rw [norm2_first, smallStep_self {} one_pos]
  have hrange : (waiting.turn h).stepRange {} first h = range := stepRange_of_unbounded rfl hfirst
  rw [advance_downhill (by decide) (by norm_num) rfl rfl rfl (one_pos.trans_eq dot_first.symm)
    (by decide) hrange (legal_of_first (by norm_num) (by norm_num)) (by norm_num [range])]
  exact congrArg (Prod.mk _) (trialPoint_first _)

/-- The value has risen at the first trial point, and the parabola gives another one. -/
theorem retries :
    (searching 0 0.05).advance {} #v[1 - 0.05] 1.05 #v[1] =
      (searching 1 0.0125, #v[1 - 0.0125]) := by
  have hrisen : (search 0 0.05).hasDecreased {} 1.05 = false := by
    rw [Run.hasDecreased, slope_search]
    norm_num [search, trialDownhill, first]
  have hshorter : (search 0 0.05).shorten {} 1.05 = 0.0125 := by
    rw [Run.shorten, if_neg (by decide), slope_search]
    norm_num [search, trialDownhill, first, larger_real, smaller_real]
  have hanswer (slope : ℝ) : (search 0 0.05).answer {} 1.05 slope = .next (search 1 0.0125) := by
    show (search 0 0.05).backtrack {} 1.05 = _
    rw [Run.backtrack, hrisen, hshorter]
    norm_num [search, trialDownhill, range, Run.isExhausted]
  rw [advance_of_next rfl (flaw?_real _ _) (hanswer _) (by decide)]
  exact congrArg (Prod.mk _) (trialPoint_first _)

/-- There the value has fallen enough. -/
theorem accepts :
    ∃ s, (searching 1 0.0125).advance {} #v[1 - 0.0125] 0.99 #v[1] = (s, #v[1 - 0.0125]) ∧
      s.accepted? = some ⟨#v[1 - 0.0125], 0.99, #v[1]⟩ ∧ s.iterations = 1 ∧ s.evaluations = 3 := by
  have hanswer (slope : ℝ) : (search 1 0.0125).answer {} 0.99 slope = .accepted none := by
    refine (Run.backtrack_eq_accepted_iff {} _ _ none).mpr ⟨rfl, ?_⟩
    rw [Run.hasDecreased, slope_search]
    norm_num [search, trialDownhill, first]
  rw [advance_of_accepted rfl (flaw?_real _ _) (hanswer _)]
  exact ⟨_, rfl, accepted?_settle {} _ _, rfl, rfl⟩

end Line

/-- On the line, values raised by two, in a search that has to shorten its step. -/
theorem raised_by_two :
    let value (k : Nat) : ℝ := [1, 1, 1.05, 0.99].getD k 0
    let now := (start #v[(1 : ℝ)] {} {}).converse (answering fun k => (value k, #v[1])) #[1] 4
    let raised :=
      (start #v[(1 : ℝ)] {} {}).converse (answering fun k => (value k + 2, #v[1])) #[1] 4
    now.1.iterations = 1 ∧ now.1.evaluations = 3 ∧
      now.1.accepted? = some ⟨#v[1 - 0.0125], 0.99, #v[1]⟩ ∧
      raised.1.accepted? = some ⟨#v[1 - 0.0125], 0.99 + 2, #v[1]⟩ ∧
      raised.2 = now.2 ∧ raised.1.readings = now.1.readings := by
  intro value now raised
  obtain ⟨s, hs, hpoint, hiterations, hevaluations⟩ := Line.accepts
  have hnow : now.1.body = .ok s ∧ now.2 = (#v[1 - 0.0125] : Vector ℝ 1).toArray := by
    -- from the last call back to the first one
    refine converse_answering_succ (k := 3) rfl ?_ rfl hs
    refine converse_answering_succ (k := 2) rfl ?_ rfl Line.retries
    refine converse_answering_succ (k := 1) rfl ?_ rfl (Line.departs _ _)
    exact converse_answering_succ (k := 0) rfl ⟨begin?_default, rfl⟩ rfl Line.begins
  have hbody : now.1.body = .ok s := hnow.1
  have hopen : now.1.closed = false := closed_converse 4
  have haccepted := (accepted?_of_body hopen hbody).trans hpoint
  obtain ⟨hback, hreadings, hraised⟩ :=
    shifted_values #v[(1 : ℝ)] {} {} 2 (fun k => (value k, #v[1])) 4
  refine ⟨(iterations_of_body hbody).trans hiterations,
    (evaluations_of_body hbody).trans hevaluations, haccepted, ?_, hback, hreadings⟩
  exact hraised.trans
    (congrArg (Option.map fun p : Point ℝ 1 => { p with f := p.f + ofReal 2 }) haccepted)

/-! ## Mirrored coordinates -/

/-- The image of an optimizer begins in the image of the bounds. -/
theorem mirrors_start (T : Symmetry n) (x₀ : Vector α n) (c : Config α) (bounds : Bounds α) :
    Mirrors T (start x₀ c bounds) (start (T.act x₀) c (T.bounds bounds)) :=
  ⟨rfl, rfl, rfl, alike_begin? T x₀ c bounds⟩

/-- **Mirrored coordinates.**  A caller that puts the coordinates in another order and reflects
some of them, in the starting point, the bounds and the gradients, gets the same answers to
everything, and the images of all points. -/
theorem mirrored_coordinates (order : Equiv.Perm (Fin n)) (flipped : Fin n → Bool)
    (x₀ : Vector α n) (c : Config α) (bounds : Bounds α) (answers : Nat → α × Vector α n)
    (k : Nat) :
    let T : Symmetry n := { order, flipped, offset := 0 }
    let now := (start x₀ c bounds).converse (answering answers) x₀.toArray k
    let mirrored := (start (T.act x₀) c (T.bounds bounds)).converse
      (answering fun j => ((answers j).1, T.act (answers j).2)) (T.act x₀).toArray k
    mirrored.1.readings = now.1.readings ∧
      (∃ x : Vector α n, now.2 = x.toArray ∧ mirrored.2 = (T.act x).toArray) ∧
      mirrored.1.accepted? = now.1.accepted?.map fun p => ⟨T.act p.x, p.f, T.act p.g⟩ := by
  intro T now mirrored
  have hmirrors := (mirrors_start T x₀ c bounds).converse answers x₀ k
  have hvalue (f : α) : f + ofReal T.offset = f := StrictScalar.add_zero f
  have hpoint : T.point = fun p : Point α n => ⟨T.act p.x, p.f, T.act p.g⟩ := by
    funext p
    simp [Symmetry.point, hvalue]
  simp only [hvalue] at hmirrors
  obtain ⟨hnow, x, hx, hx'⟩ := hmirrors
  refine ⟨hnow.readings, ⟨x, hx, hx'⟩, ?_⟩
  rw [← hpoint]
  exact hnow.accepted?

/-! ### In a strip of the plane -/

/-- The projected variable metric. -/
noncomputable def projected : Config ℝ :=
  { algorithm := .variableMetric, metric := .blmvm }

/-- A strip in the plane that is open at one end. -/
noncomputable def strip : Vector (Interval ℝ) 2 :=
  #v[⟨some 0, none⟩, ⟨some 0, some 3⟩]

theorem valid_strip (i : Nat) (hi : i < 2) : strip[i].Valid := by
  have huncrossed : strip[i].crossed = false := by
    match i with
    | 0 => rfl
    | 1 => simp [strip, Interval.crossed]
  exact ⟨fun lo _ => isNaN_real lo, fun hi _ => isNaN_real hi, huncrossed⟩

theorem contains_strip {x₁ x₂ : ℝ} (h₁ : 0 ≤ x₁) (h₂ : 0 ≤ x₂) (h₃ : x₂ ≤ 3) :
    (⟨strip, true⟩ : Box ℝ 2).contains #v[x₁, x₂] = true := by
  rw [Box.contains_iff]
  intro i hi
  match i with
  | 0 => simp [strip, Interval.contains, h₁]
  | 1 => simp [strip, Interval.contains, h₂, h₃]

theorem begin?_strip (x₀ : Vector ℝ 2) :
    begin? x₀ projected (.ofSides strip) = .ok (.initial projected ⟨strip, true⟩) := by
  have hvalid : projected.validate = .ok () := validate_default
  rw [begin?, hvalid, checkStart_real _ two_pos, Box.ofBounds, resolve_ofSides valid_strip]
  rfl

section

variable {x₁ x₂ g₁ g₂ : ℝ}

/-- Inside the strip no component of a gradient is blocked. -/
theorem effectiveGradient_strip (h₁ : 0 < x₁) (h₂ : 0 < x₂) (h₃ : x₂ < 3) :
    (⟨strip, true⟩ : Box ℝ 2).effectiveGradient #v[x₁, x₂] #v[g₁, g₂] = #v[g₁, g₂] := by
  simp [Box.effectiveGradient, Box.projectedGradient, strip, Interval.projectGradient,
    Interval.blocks, Interval.atLower, Interval.atUpper, h₁.not_ge, h₂.not_ge, h₃.not_ge]

theorem effectiveNorm_strip (h₁ : 0 < x₁) (h₂ : 0 < x₂) (h₃ : x₂ < 3) :
    (⟨strip, true⟩ : Box ℝ 2).effectiveNorm #v[x₁, x₂] #v[g₁, g₂] = norm2 #v[g₁, g₂] := by
  rw [Box.effectiveNorm_eq _ _ fun i _ => isFinite_real _, effectiveGradient_strip h₁ h₂ h₃]

theorem projectDirection_strip (h₁ : 0 < x₁) (h₂ : 0 < x₂) (h₃ : x₂ < 3) :
    (⟨strip, true⟩ : Box ℝ 2).projectDirection #v[x₁, x₂] #v[g₁, g₂] = #v[g₁, g₂] := by
  simp [Box.projectDirection, strip, Interval.projectVelocity, Interval.atLower,
    Interval.atUpper, h₁.not_ge, h₂.not_ge, h₃.not_ge]

theorem project_strip (h₂ : 0 ≤ x₂) (h₃ : x₂ ≤ 3) :
    (⟨strip, true⟩ : Box ℝ 2).project #v[x₁, x₂] = #v[max x₁ 0, x₂] := by
  have hlower : (if x₁ < 0 then 0 else x₁) = max x₁ 0 := by
    split
    · next h => exact (max_eq_right h.le).symm
    · next h => exact (max_eq_left (not_lt.mp h)).symm
  simp [Box.project, strip, Interval.clamp, Interval.clampUpper, h₂.not_gt, h₃.not_gt, hlower]

/-- Inside the strip, where steepest descent meets the open side first. -/
theorem stepLimits_strip_negate (hx : 0 < x₁) (hg₁ : 0 < g₁) (hg₂ : 0 < g₂)
    (hlt : x₁ / g₁ < x₂ / g₂) :
    (⟨strip, true⟩ : Box ℝ 2).stepLimits #v[x₁, x₂] (negate #v[g₁, g₂]) =
      ⟨some (x₁ / g₁), some (x₂ / g₂)⟩ := by
  have hpos : 0 < x₁ / g₁ := div_pos hx hg₁
  rw [negate_pair]
  simp [Box.stepLimits, strip, Interval.reach, StepLimits.add, StepLimits.still, precedes, hg₁,
    hg₂, hpos, hlt.not_gt, hlt]

/-- Inside the strip an estimate that leaves the gradient as it is proposes steepest descent. -/
theorem propose_strip {s : Solver ℝ 2} {pairs : List (CurvaturePair ℝ 2)} {f : ℝ}
    (hbox : s.box = ⟨strip, true⟩) (hengine : s.engine = .metric pairs)
    (hinverse : applyInverse .whole pairs 0 #v[g₁, g₂] = #v[g₁, g₂])
    (h₁ : 0 < x₁) (h₂ : 0 < x₂) (h₃ : x₂ < 3) :
    s.propose projected ⟨#v[x₁, x₂], f, #v[g₁, g₂]⟩ =
      (.metric pairs, negate #v[g₁, g₂], false) := by
  unfold Solver.propose
  rw [hengine, hbox]
  show (_, (⟨strip, true⟩ : Box ℝ 2).projectDirection _ (scale (-1) (applyInverse .whole pairs 0
    (Box.effectiveGradient ⟨strip, true⟩ _ _))), _) = _
  rw [effectiveGradient_strip h₁ h₂ h₃, hinverse, scale_pair, projectDirection_strip h₁ h₂ h₃,
    negate_pair, neg_one_mul, neg_one_mul]

end

namespace Strip

open Solver

/-- The first point of a run, whose values are half the square of the distance from a point
outside the strip. -/
noncomputable def first : Point ℝ 2 :=
  ⟨#v[0.5, 1], 0.625, #v[1, 0.5]⟩

/-- The second point, a twentieth of the way. -/
noncomputable def second : Point ℝ 2 :=
  ⟨#v[0.45, 0.975], 0.5640625, #v[0.95, 0.475]⟩

/-- The stride between them. -/
noncomputable def stride : Vector ℝ 2 :=
  #v[-0.05, -0.025]

/-- The metric that has learned it. -/
noncomputable def learned : Engine ℝ 2 :=
  .metric [⟨stride, stride, 1 / dot stride stride⟩]

/-- The run that waits at the first point. -/
noncomputable def waiting : Solver ℝ 2 :=
  { (initial projected ⟨strip, true⟩).takeFirst projected first with phase := .accepted first }

/-- The steps of its search. -/
noncomputable def range : StepRange ℝ :=
  ⟨0.05, 0.05 * 1e-20, 1 / 0.5, some (0.5 / 1)⟩

/-- The run in that search. -/
noncomputable def searching : Solver ℝ 2 :=
  { waiting.turn (downhill (.metric []) first) with
    phase := .searching (trialDownhill first range) }

/-- The run that waits at the second point. -/
noncomputable def arrived : Solver ℝ 2 :=
  { searching.takeStep projected (trialDownhill first range) second with
    phase := .accepted second }

theorem dot_first : dot first.g first.g = 1.25 := by
  rw [first, dot_pair]
  norm_num

theorem dot_second : dot second.g second.g = 1.128125 := by
  rw [second, dot_pair]
  norm_num

theorem dot_stride_pos : 0 < dot stride stride := by
  rw [stride, dot_pair]
  norm_num

theorem displacement_eq : difference second.x first.x = stride := by
  rw [second, first, difference_pair]
  exact congrArg₂ (fun a b => #v[a, b]) (by norm_num) (by norm_num)

theorem change_eq : difference second.g first.g = stride := by
  rw [second, first, difference_pair]
  exact congrArg₂ (fun a b => #v[a, b]) (by norm_num) (by norm_num)

theorem gradient_second : second.g = scale (-19) stride := by
  rw [second, stride, scale_pair]
  exact congrArg₂ (fun a b => #v[a, b]) (by norm_num) (by norm_num)

theorem norm_waiting : waiting.norm = norm2 first.g :=
  effectiveNorm_strip (by norm_num) (by norm_num) (by norm_num)

theorem norm_arrived : arrived.norm = norm2 second.g :=
  effectiveNorm_strip (by norm_num) (by norm_num) (by norm_num)

/-- A gradient longer than one is above the threshold. -/
theorem tolerance_lt_norm2 {g : Vector ℝ 2} (h : 1 < dot g g) : 1e-6 < norm2 g := by
  have hone : 1 < norm2 g := Real.lt_sqrt_of_sq_lt (by rwa [one_pow])
  exact lt_trans (by norm_num) hone

/-- The run takes up its first point. -/
theorem begins :
    (initial projected ⟨strip, true⟩).advance projected first.x first.f first.g =
      (waiting, first.x) := by
  have hlong : 1e-6 < norm2 first.g := tolerance_lt_norm2 (by rw [dot_first]; norm_num)
  have hsettle : waiting.settle projected first = .accepted first :=
    settle_of_lt rfl rfl (hlong.trans_eq norm_waiting.symm) (by decide)
  have hin : (⟨strip, true⟩ : Box ℝ 2).contains first.x = true :=
    contains_strip (by norm_num) (by norm_num) (by norm_num)
  rw [advance_of_opening rfl hin (flaw?_real _ _)]
  exact congrArg (fun phase => ({ waiting with phase }, first.x)) hsettle

/-- It leaves by steepest descent with a small step. -/
theorem departs (f : ℝ) (g : Vector ℝ 2) :
    waiting.advance projected first.x f g = (searching, second.x) := by
  let h : Heading ℝ 2 := downhill (.metric []) first
  have hpos : 0 < dot first.g first.g := by
    rw [dot_first]
    norm_num
  have hlong : 0 < norm2 first.g := Real.sqrt_pos.mpr hpos
  have hlength : norm2 first.x = norm2 first.g := by
    rw [norm2, norm2, first, dot_pair, dot_pair]
    norm_num
  have hfirst : firstStep projected none (-dot first.g first.g) (norm2 first.g)
      (norm2 first.x) = 0.05 := by
    show smallStep projected (norm2 first.g) (norm2 first.x) = 0.05
    rw [hlength, smallStep_self _ hlong]
    rfl
  have hlimits : (⟨strip, true⟩ : Box ℝ 2).stepLimits first.x (negate first.g) =
      ⟨some (0.5 / 1), some (1 / 0.5)⟩ :=
    stepLimits_strip_negate (by norm_num) (by norm_num) (by norm_num) (by norm_num)
  have hrange : (waiting.turn h).stepRange projected first h = range :=
    stepRange_of_last rfl hfirst hlimits (by norm_num) (by norm_num)
  have hpropose : waiting.propose projected first = (.metric [], negate first.g, false) :=
    propose_strip rfl rfl (applyInverse_nil _ _ (lt_irrefl 0)) (by norm_num) (by norm_num)
      (by norm_num)
  have hpoint : trialPoint ⟨strip, true⟩ first (negate first.g) 0.05 = second.x := by
    rw [trialPoint, first, negate_pair, axpy_pair, project_strip (by norm_num) (by norm_num)]
    exact congrArg₂ (fun a b => #v[a, b]) (by norm_num) (by norm_num)
  rw [advance_downhill (by decide) (by norm_num [projected]) rfl hpropose norm_waiting hpos
    (by decide) hrange (legal_of_first (by norm_num) (by norm_num)) (by norm_num [range])]
  exact congrArg (Prod.mk _) hpoint

/-- The second point is accepted. -/
theorem accepts :
    searching.advance projected second.x second.f second.g = (arrived, second.x) := by
  have hdecreased : (0.5640625 : ℝ) ≤ 0.625 + 1e-4 * 0.05 * -dot first.g first.g := by
    rw [dot_first]
    norm_num
  have hanswer (slope : ℝ) :
      (trialDownhill first range).run.answer projected second.f slope = .accepted none :=
    (Run.backtrack_eq_accepted_iff projected _ _ none).mpr ⟨rfl, decide_eq_true hdecreased⟩
  have hlong : 1e-6 < norm2 second.g := tolerance_lt_norm2 (by rw [dot_second]; norm_num)
  have hsettle : arrived.settle projected second = .accepted second :=
    settle_of_lt rfl rfl (hlong.trans_eq norm_arrived.symm) (by decide)
  rw [advance_of_accepted rfl (flaw?_real _ _) (hanswer _)]
  exact congrArg (fun phase => ({ arrived with phase := heed none phase }, second.x)) hsettle

/-- The stride between the points is learned. -/
theorem engine_arrived : arrived.engine = learned := by
  have hclipped : isClipped (trialDownhill first range) = false := by
    refine decide_eq_false ?_
    show ¬ (0.5 / 1 : ℝ) < 0.05
    norm_num
  have hadmit : admit? projected [] stride stride =
      some ⟨stride, stride, 1 / dot stride stride⟩ := by
    rw [admit?, if_pos dot_stride_pos]
    exact if_pos ⟨dot_stride_pos, isFinite_real _⟩
  show learnFrom projected (.metric []) _ (difference second.x first.x)
    (difference second.g first.g) = _
  rw [learnFrom, hclipped, displacement_eq, change_eq, if_neg Bool.false_ne_true, learn, hadmit]
  rfl

/-- With what was learned the next step is a whole one, and its end is moved into the strip. -/
theorem departs_again (f : ℝ) (g : Vector ℝ 2) :
    ∃ s, arrived.advance projected second.x f g = (s, #v[0, 0.5]) ∧
      s.accepted? = some second ∧ s.iterations = 1 ∧ s.memoryLength = 1 := by
  let h : Heading ℝ 2 := downhill learned second
  have hpos : 0 < dot second.g second.g := by
    rw [dot_second]
    norm_num
  have hlimits : (⟨strip, true⟩ : Box ℝ 2).stepLimits second.x (negate second.g) =
      ⟨some (0.45 / 0.95), some (0.975 / 0.475)⟩ :=
    stepLimits_strip_negate (by norm_num) (by norm_num) (by norm_num) (by norm_num)
  have hrange : (arrived.turn h).stepRange projected second h =
      ⟨1, 1 * 1e-20, 0.975 / 0.475, some (0.45 / 0.95)⟩ :=
    stepRange_of_last rfl rfl hlimits (by norm_num) (by norm_num)
  -- the gradient is a multiple of the gradient change just learned
  have hvalid : ∀ q ∈ [(⟨stride, stride, 1 / dot stride stride⟩ : CurvaturePair ℝ 2)], q.Valid :=
    List.forall_mem_singleton.mpr ⟨dot_stride_pos, isFinite_real _, rfl⟩
  have hinverse := applyInverse_scale_newest hvalid (-19)
  rw [← gradient_second] at hinverse
  have hpropose : arrived.propose projected second = (learned, negate second.g, false) :=
    propose_strip rfl engine_arrived hinverse (by norm_num) (by norm_num) (by norm_num)
  have hpoint : trialPoint ⟨strip, true⟩ second (negate second.g) 1 = #v[0, 0.5] := by
    rw [trialPoint, second, negate_pair, axpy_pair, project_strip (by norm_num) (by norm_num)]
    exact congrArg₂ (fun a b => #v[a, b]) (by norm_num) (by norm_num)
  rw [advance_downhill (by decide) (by norm_num [projected]) rfl hpropose norm_arrived hpos
    (by decide) hrange (legal_of_first (by norm_num) (by norm_num)) (by norm_num)]
  exact ⟨_, congrArg (Prod.mk _) hpoint, rfl, rfl, rfl⟩

end Strip

/-- In a strip, the coordinates exchanged and one of them reflected, along a step whose stride is
learned and another one that meets the end of the strip. -/
theorem turned_strip :
    let answer (k : Nat) : ℝ × Vector ℝ 2 :=
      if k < 2 then (0.625, #v[1, 0.5]) else (0.5640625, #v[0.95, 0.475])
    let turnedAnswer (k : Nat) : ℝ × Vector ℝ 2 :=
      if k < 2 then (0.625, #v[-0.5, 1]) else (0.5640625, #v[-0.475, 0.95])
    let turnedStrip : Vector (Interval ℝ) 2 := #v[⟨some (-3), some (-0)⟩, ⟨some 0, none⟩]
    let now := (start #v[0.5, 1] projected (.ofSides strip)).converse (answering answer) #[0.5, 1] 4
    let turned := (start #v[-1, 0.5] projected (.ofSides turnedStrip)).converse
      (answering turnedAnswer) #[-1, 0.5] 4
    now.1.iterations = 1 ∧ now.1.memoryLength = 1 ∧ now.2 = #[0, 0.5] ∧ turned.2 = #[-0.5, 0] ∧
      now.1.accepted? = some ⟨#v[0.45, 0.975], 0.5640625, #v[0.95, 0.475]⟩ ∧
      turned.1.accepted? = some ⟨#v[-0.975, 0.45], 0.5640625, #v[-0.475, 0.95]⟩ ∧
      turned.1.readings = now.1.readings := by
  intro answer turnedAnswer turnedStrip now turned
  let T : Symmetry 2 := { order := Equiv.swap 0 1, flipped := ![true, false], offset := 0 }
  have hbounds : T.bounds (.ofSides strip) = .ofSides turnedStrip := T.bounds_ofSides strip
  have hanswer : (fun j => ((answer j).1, T.act (answer j).2)) = turnedAnswer := by
    funext j
    by_cases hj : j < 2
    · simp only [answer, turnedAnswer, if_pos hj]
      rfl
    · simp only [answer, turnedAnswer, if_neg hj]
      rfl
  obtain ⟨s, hs, hpoint, hiterations, hmemory⟩ := Strip.departs_again 0.5640625 #v[0.95, 0.475]
  have hnow : now.1.body = .ok s ∧ now.2 = (#v[0, 0.5] : Vector ℝ 2).toArray := by
    -- from the last call back to the first one
    refine converse_answering_succ (k := 3) rfl ?_ rfl hs
    refine converse_answering_succ (k := 2) rfl ?_ rfl Strip.accepts
    refine converse_answering_succ (k := 1) rfl ?_ rfl (Strip.departs _ _)
    exact converse_answering_succ (k := 0) rfl ⟨begin?_strip _, rfl⟩ rfl Strip.begins
  have hbody : now.1.body = .ok s := hnow.1
  have hopen : now.1.closed = false := closed_converse 4
  have haccepted := (accepted?_of_body hopen hbody).trans hpoint
  obtain ⟨hreadings, ⟨x, hx, hx'⟩, hturned⟩ :=
    mirrored_coordinates (Equiv.swap 0 1) ![true, false] #v[0.5, 1] projected (.ofSides strip)
      answer 4
  rw [hbounds, hanswer] at hreadings hx' hturned
  have hback : x = #v[0, 0.5] := Vector.toArray_inj.mp (hx.symm.trans hnow.2)
  refine ⟨(iterations_of_body hbody).trans hiterations, ?_, hnow.2, ?_, haccepted, ?_, hreadings⟩
  · rw [memoryLength, solver?, hopen, hbody]
    exact hmemory
  · rw [hback] at hx'
    exact hx'
  · exact hturned.trans (congrArg
      (Option.map fun p : Point ℝ 2 => (⟨T.act p.x, p.f, T.act p.g⟩ : Point ℝ 2)) haccepted)

end Optimizer

end Descent
