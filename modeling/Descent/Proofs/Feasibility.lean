/-
# Feasibility

The points handed back to a caller that always passes them on.  Each component lies
in its interval or is not a number, and the latter happens exactly when a trial point
is formed from an undefined sum: an infinite step along a component that does not
move, for example.

* `Trial.IsDefined` : the displacement of a trial is a number in each component;
* `Optimizer.course` : a caller that passes every point back;
* `Solver.Transition.keeps` : what a transition does to the points of a run;
* `Optimizer.keeps_of_mem_course` : the same for all points handed back.
-/
import Descent.Proofs.AcceptedPoint
import Descent.Proofs.Binary.Laws
import Descent.Proofs.Projection

namespace Descent

open Scalar

variable {α : Type} [Scalar α] {n : Nat}

/-! ## Trial points -/

/-- The point that the line search wants to be evaluated. -/
def Trial.point (box : Box α n) (trial : Trial α n) : Vector α n :=
  Solver.trialPoint box trial.base trial.direction trial.run.step

/-- The displaced point is a number in each component. -/
def Trial.IsDefined (trial : Trial α n) : Prop :=
  ∀ i (_ : i < n), isNaN (trial.base.x[i] + trial.run.step * trial.direction[i]) = false

/-- The trial of a line search in progress is defined. -/
def Solver.IsDefined (s : Solver α n) : Prop :=
  ∀ trial, s.phase = .searching trial → trial.IsDefined

/-- Each component lies in its interval or is not a number. -/
def Box.ContainsNumbers (box : Box α n) (x : Vector α n) : Prop :=
  ∀ i (_ : i < n), isNaN x[i] = false → box.sides[i].contains x[i] = true

section Trials

variable [OrderedScalar α] {box : Box α n}

/-- A trial point lies in the box exactly if the trial is defined. -/
theorem contains_point_iff (h : box.Valid) (trial : Trial α n) :
    box.contains (trial.point box) = true ↔ trial.IsDefined := by
  rw [Trial.point, Solver.trialPoint, Box.contains_project_iff h]
  constructor
  · intro hnum i hi
    rw [← getElem_axpy]
    exact hnum i hi
  · intro hdef i hi
    rw [getElem_axpy]
    exact hdef i hi

/-- The numbers among the components of a trial point lie in their intervals. -/
theorem containsNumbers_point (h : box.Valid) (trial : Trial α n) :
    box.ContainsNumbers (trial.point box) := by
  intro i hi hnum
  rw [Trial.point, Solver.trialPoint, h.getElem_project] at hnum ⊢
  refine Interval.contains_clamp (h.sides i hi) ?_
  cases hx : isNaN (axpy trial.run.step trial.direction trial.base.x)[i] with
  | false => rfl
  | true =>
    -- clamping would have left a component that is not a number as it is
    rw [Interval.clamp_of_isNaN hx, hx] at hnum
    cases hnum

omit [OrderedScalar α] in
/-- With a finite point, step and direction a trial is defined. -/
theorem Trial.isDefined_of_finite [RoundedScalar α] {trial : Trial α n}
    (hbase : ∀ i (_ : i < n), isFinite trial.base.x[i] = true)
    (hstep : isFinite trial.run.step = true)
    (hdirection : ∀ i (_ : i < n), isFinite trial.direction[i] = true) : trial.IsDefined := by
  intro i hi
  exact RoundedScalar.isNaN_add_mul (hbase i hi) hstep (hdirection i hi)

end Trials

namespace Solver

/-! ## The points of a run -/

/-- The points that a run keeps and hands back have a property, once its opening is
over; up to then the caller's point is a number in each component. -/
structure Keeps (Good : Vector α n → Prop) (s : Solver α n) (x : Vector α n) : Prop where
  /-- At the opening the components of the point are numbers. -/
  opening : s.phase = .opening → ∀ i (_ : i < n), isNaN x[i] = false
  /-- Later the point handed back has the property. -/
  point : s.phase ≠ .opening → Good x
  /-- The accepted point has the property. -/
  accepted : ∀ p, s.accepted? = some p → Good p.x

variable {c : Config α} {s s' : Solver α n} {x x' : Vector α n} {f : α} {g : Vector α n}
  {Good : Vector α n → Prop}

/-- A transition keeps the property and hands back a point that has it, if all points
of the box and all trial points have it. -/
theorem Transition.keeps [OrderedScalar α] (h : Transition c s x f g s' x') (hbox : s.box.Valid)
    (hin : ∀ y, s.box.contains y = true → Good y) (hs : s.Keeps Good x)
    (htrial : ∀ trial, s'.phase = .searching trial → Good (trial.point s.box)) :
    s'.Keeps Good x' ∧ Good x' := by
  have hsearching (trial : Trial α n) (hphase : s.phase = .searching trial) :
      Good x ∧ Good trial.base.x := by
    have hlast := accepted?_of_searching hphase
    exact ⟨hs.point (ne_opening_of_accepted? hlast), hs.accepted trial.base hlast⟩
  have haccepted (p : Point α n) (hphase : s.phase = .accepted p) : Good p.x :=
    hs.accepted p (accepted?_of_accepted hphase)
  -- what is handed back is projected, a trial point, or one of the points kept
  have hback : Good x' := by
    cases h with
    | project hphase hx => exact hin _ ((Box.contains_project_iff hbox x).mpr (hs.opening hphase))
    | flawAtFirst flaw hphase hx hflaw => exact hin x hx
    | first hphase hx hflaw => exact hin x hx
    | flawAtTrial trial flaw hphase hflaw => exact (hsearching trial hphase).2
    | spentAtTrial trial run hphase hflaw hanswer hspent => exact (hsearching trial hphase).2
    | retry trial run hphase hflaw hanswer hmore => exact htrial _ rfl
    | step trial remark hphase hflaw hanswer => exact (hsearching trial hphase).1
    | searchFailed trial step reason hphase hflaw hanswer => exact (hsearching trial hphase).2
    | notDescent p hphase hslope => exact haccepted p hphase
    | spentAtPoint p hphase hslope hspent => exact haccepted p hphase
    | refused p range refusal hphase hslope hmore hrange hstart => exact haccepted p hphase
    | search p range run hphase hslope hmore hrange hstart => exact htrial _ rfl
    | idle last verdict hphase =>
      exact hs.point (ne_opening_of_isTerminal (isTerminal_of_stopped hphase))
  refine ⟨⟨?_, fun _ => hback, ?_⟩, hback⟩
  · intro hopening i hi
    obtain ⟨hphase, -, rfl, rfl⟩ := h.opening_cases hopening
    have hcontains := (Box.contains_project_iff hbox x).mpr (hs.opening hphase)
    rw [Box.contains_iff] at hcontains
    exact Interval.isNaN_of_contains (hcontains i hi)
  · intro p hp
    rcases h.accepted?_cases with ⟨hsame, -⟩ | ⟨htakes, -, hnew⟩
    · rw [hsame] at hp
      exact hs.accepted p hp
    · rw [hnew] at hp
      cases hp
      rcases htakes with ⟨-, hx, -⟩ | ⟨trial, -, hphase, -, -⟩
      · exact hin x hx
      · exact (hsearching trial hphase).1

/-- A trial is formed together with the point handed back for it. -/
theorem Transition.point_eq (h : Transition c s x f g s' x') {trial : Trial α n}
    (hphase : s'.phase = .searching trial) : x' = trial.point s.box := by
  cases h with
  | project hopening hx =>
    rw [hopening] at hphase
    cases hphase
  | idle last verdict hstopped =>
    rw [hstopped] at hphase
    cases hphase
  | first hopening hx hflaw =>
    exact absurd hphase (heed_settle_ne_searching c _ _ none trial)
  | step last remark hsearching hflaw hanswer =>
    exact absurd hphase (heed_settle_ne_searching c _ _ remark trial)
  | retry trial run hsearching hflaw hanswer hmore =>
    cases hphase
    rfl
  | search p range run haccepted hslope hmore hrange hstart =>
    cases hphase
    rfl
  | _ => cases hphase

end Solver

/-! ## A caller that passes every point back -/

namespace Optimizer

/-- What a caller gets from the calls that are not refused, if it always passes on the
point that it was handed last, with these values and gradients. -/
def course (o : Optimizer α n) (x : Array α) : List (α × Array α) → List (Optimizer α n × Array α)
  | [] => []
  | (f, g) :: replies =>
    match o.iterate x f g with
    | .ok (o', x') => (o', x') :: o'.course x' replies
    | .error _ => o.course x replies

/-- The trial of a line search in progress is defined. -/
def IsDefined (o : Optimizer α n) : Prop :=
  ∀ s, o.body = .ok s → s.IsDefined

/-- The point, the step and the direction of a trial in progress are finite. -/
def IsFinite (o : Optimizer α n) : Prop :=
  ∀ s trial, o.body = .ok s → s.phase = .searching trial →
    isFinite trial.run.step = true ∧
      ∀ i (_ : i < n), isFinite trial.base.x[i] = true ∧ isFinite trial.direction[i] = true

variable {o : Optimizer α n} {s : Solver α n} {x : Vector α n}

/-- The course after a first reply: the reply is refused, or the run had ended before,
or there is a transition and the course goes on from there. -/
theorem course_cons (hbody : o.body = .ok s) (x : Vector α n) (f : α) (g : Array α)
    (replies : List (α × Array α)) :
    (o.course x.toArray ((f, g) :: replies) = o.course x.toArray replies) ∨
      (s.task.isTerminal = true ∧ o.course x.toArray ((f, g) :: replies) =
        (o, x.toArray) :: o.course x.toArray replies) ∨
      ∃ (s' : Solver α n) (gs x' : Vector α n), Solver.Transition o.config s x f gs s' x' ∧
        o.course x.toArray ((f, g) :: replies) =
          (o.proceed s', x'.toArray) :: (o.proceed s').course x'.toArray replies := by
  rw [course]
  cases hiter : o.iterate x.toArray f g with
  | error e => left; rfl
  | ok next =>
    right
    obtain ⟨o', x'⟩ := next
    rcases iterate_eq_ok hiter with
      ⟨hended, rfl, rfl⟩ | ⟨s₀, s', xs, gs, xs', -, hbody', -, hxs, -, rfl, rfl, htrans⟩
    · left
      rw [task_of_body hbody] at hended
      exact ⟨hended, rfl⟩
    · right
      rw [hbody] at hbody'
      cases hbody'
      rw [Vector.toArray_inj] at hxs
      subst hxs
      exact ⟨s', gs, xs', htrans, rfl⟩

/-- Every trial on the course of a run comes with its point. -/
theorem point_eq_of_mem_course (hbody : o.body = .ok s) (replies : List (α × Array α))
    {result : Optimizer α n × Array α} (h : result ∈ o.course x.toArray replies)
    {s' : Solver α n} {trial : Trial α n} (hbody' : result.1.body = .ok s')
    (hphase : s'.phase = .searching trial) : result.2 = (trial.point s.box).toArray := by
  induction replies generalizing o s x with
  | nil => cases h
  | cons reply replies ih =>
    rcases course_cons hbody x reply.1 reply.2 replies with
      heq | ⟨hended, heq⟩ | ⟨s₁, gs, x₁, htrans, heq⟩
    · rw [heq] at h
      exact ih hbody h
    · rw [heq, List.mem_cons] at h
      rcases h with rfl | h
      · rw [hbody] at hbody'
        cases hbody'
        rw [Solver.task_of_searching hphase] at hended
        cases hended
      · exact ih hbody h
    · rw [heq, List.mem_cons] at h
      rcases h with rfl | h
      · cases hbody'
        rw [htrans.point_eq hphase]
      · rw [← htrans.box_eq]
        exact ih (o.body_proceed s₁) h

/-- The points handed back on the course of a run have a property, if all points of the
box and all trial points on the course have it. -/
theorem keeps_of_mem_course [OrderedScalar α] {Good : Vector α n → Prop} (hbody : o.body = .ok s)
    (hbox : s.box.Valid) (hin : ∀ y, s.box.contains y = true → Good y) (hs : s.Keeps Good x)
    (replies : List (α × Array α))
    (htrial : ∀ result ∈ o.course x.toArray replies, ∀ s' trial, result.1.body = .ok s' →
      s'.phase = .searching trial → Good (trial.point s.box))
    {result : Optimizer α n × Array α} (h : result ∈ o.course x.toArray replies) :
    ∃ y : Vector α n, result.2 = y.toArray ∧ Good y := by
  induction replies generalizing o s x with
  | nil => cases h
  | cons reply replies ih =>
    rcases course_cons hbody x reply.1 reply.2 replies with
      heq | ⟨hended, heq⟩ | ⟨s₁, gs, x₁, htrans, heq⟩
    · rw [heq] at h htrial
      exact ih hbody hbox hin hs htrial h
    · rw [heq] at h htrial
      rcases List.mem_cons.mp h with rfl | h
      · exact ⟨x, rfl, hs.point (Solver.ne_opening_of_isTerminal hended)⟩
      · exact ih hbody hbox hin hs (fun r hr => htrial r (List.mem_cons_of_mem _ hr)) h
    · rw [heq] at h htrial
      have hnow := htrial _ List.mem_cons_self
      obtain ⟨hkeeps, hgood⟩ := htrans.keeps hbox hin hs (fun trial => hnow s₁ trial rfl)
      rcases List.mem_cons.mp h with rfl | h
      · exact ⟨x₁, rfl, hgood⟩
      · rw [← htrans.box_eq] at hbox hin htrial
        exact ih (o.body_proceed s₁) hbox hin hkeeps
          (fun r hr => htrial r (List.mem_cons_of_mem _ hr)) h

/-- **Feasibility.**  If a run begins and its caller always passes on the point that it
was handed last, then whatever the values and gradients are, every component handed
back lies in its interval or is not a number; all points handed back lie in the box
exactly if every trial on the way is defined; and a trial with a finite point, step and
direction is defined. -/
theorem feasible_iff_isDefined [RoundedScalar α] {x₀ : Vector α n} {c : Config α}
    {bounds : Bounds α} {s₀ : Solver α n} (h : begin? x₀ c bounds = .ok s₀)
    (replies : List (α × Array α)) :
    (∀ result ∈ (start x₀ c bounds).course x₀.toArray replies,
      ∃ x : Vector α n, result.2 = x.toArray ∧ s₀.box.ContainsNumbers x) ∧
    ((∀ result ∈ (start x₀ c bounds).course x₀.toArray replies,
        ∃ x : Vector α n, result.2 = x.toArray ∧ s₀.box.contains x = true) ↔
      ∀ result ∈ (start x₀ c bounds).course x₀.toArray replies, result.1.IsDefined) ∧
    ∀ result ∈ (start x₀ c bounds).course x₀.toArray replies,
      result.1.IsFinite → result.1.IsDefined := by
  have hbox := valid_of_begin? h
  have hkeeps (Good : Vector α n → Prop) : s₀.Keeps Good x₀ := by
    refine ⟨fun _ => isNaN_of_begin? h, ?_, ?_⟩
    · intro hphase
      exact absurd (phase_of_begin? h) hphase
    · intro p hp
      rw [Solver.accepted?_of_opening (phase_of_begin? h)] at hp
      cases hp
  refine ⟨?_, ⟨?_, ?_⟩, ?_⟩
  · intro result hresult
    refine keeps_of_mem_course h hbox ?_ (hkeeps _) replies ?_ hresult
    · intro y hy i hi _
      exact (s₀.box.contains_iff y).mp hy i hi
    · intro _ _ _ trial _ _
      exact containsNumbers_point hbox trial
  · intro hall result hresult s hbody trial hphase
    obtain ⟨x, hx, hcontains⟩ := hall result hresult
    have hpoint := point_eq_of_mem_course h replies hresult hbody hphase
    rw [hx, Vector.toArray_inj] at hpoint
    rw [hpoint] at hcontains
    exact (contains_point_iff hbox trial).mp hcontains
  · intro hall result hresult
    refine keeps_of_mem_course h hbox (fun y hy => hy) (hkeeps _) replies ?_ hresult
    intro result' hresult' s trial hbody hphase
    exact (contains_point_iff hbox trial).mpr (hall result' hresult' s hbody trial hphase)
  · intro result _ hfinite s hbody trial hphase
    obtain ⟨hstep, hvectors⟩ := hfinite s trial hbody hphase
    exact Trial.isDefined_of_finite (fun i hi => (hvectors i hi).1) hstep
      (fun i hi => (hvectors i hi).2)

/-! ## A run that leaves its box -/

/-- A starting point so far away that its norm overflows. -/
def farStart : Vector Float 2 := #v[1e200, 0]

/-- Bounds between which the second component cannot move. -/
def thinBounds : Bounds Float :=
  ⟨.componentwise #[some 0, some 0], .componentwise #[some 1e300, some 0]⟩

/-- The projected variable metric with the default settings. -/
def projectedMetric : Config Float :=
  { algorithm := .variableMetric, metric := .blmvm }

/-- Two replies with a slope in the first component only. -/
def slantedReplies : List (Float × Array Float) := [(1, #[1, 0]), (1, #[1, 0])]

theorem far_begins : ∃ s₀, begin? farStart projectedMetric thinBounds = .ok s₀ := by
  have hany : (begin? farStart projectedMetric thinBounds).toOption.any (fun _ => true) = true := by
    decide +kernel
  obtain ⟨s₀, h, -⟩ := exists_of_any_begin? hany
  exact ⟨s₀, h⟩

/-- What feasibility comes down to in the run from the far starting point. -/
theorem far_feasible_iff : ∃ s₀, begin? farStart projectedMetric thinBounds = .ok s₀ ∧
    ((∀ result ∈ (start farStart projectedMetric thinBounds).course farStart.toArray slantedReplies,
        ∃ x : Vector Float 2, result.2 = x.toArray ∧ s₀.box.contains x = true) ↔
      ∀ result ∈ (start farStart projectedMetric thinBounds).course farStart.toArray slantedReplies,
        result.1.IsDefined) := by
  obtain ⟨s₀, h⟩ := far_begins
  obtain ⟨-, hiff, -⟩ := feasible_iff_isDefined h slantedReplies
  exact ⟨s₀, h, hiff⟩

/-- The run leaves its box: the first step is infinite, and multiplied with the second
component of the direction, which is zero, it is not a number. -/
theorem far_leaves_box : ∃ s₀, begin? farStart projectedMetric thinBounds = .ok s₀ ∧
    ∃ result ∈ (start farStart projectedMetric thinBounds).course farStart.toArray slantedReplies,
      ∃ x : Vector Float 2, result.2 = x.toArray ∧ s₀.box.contains x = false := by
  obtain ⟨s₀, h⟩ := far_begins
  -- the run is evaluated, and the point handed back last is outside
  have hout : (start farStart projectedMetric thinBounds).solver?.any (fun s =>
      ((start farStart projectedMetric thinBounds).course farStart.toArray slantedReplies).any
        fun result => decide (∃ h : result.2.size = 2, s.box.contains ⟨result.2, h⟩ = false)) =
      true := by
    decide +kernel
  have hs : (start farStart projectedMetric thinBounds).solver? = some s₀ := by
    rw [solver?, start, h]
  rw [hs, Option.any_some, List.any_eq_true] at hout
  obtain ⟨result, hresult, hout⟩ := hout
  obtain ⟨hsize, hout⟩ := of_decide_eq_true hout
  exact ⟨s₀, h, result, hresult, ⟨result.2, hsize⟩, rfl, hout⟩

end Optimizer

end Descent
