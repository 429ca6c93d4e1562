/-
# The accepted point

The accepted point is always what the caller reported in one call, and a run that
does not ask for another evaluation leaves the caller's vector there.  Nothing is
assumed about the arithmetic.

* `Solver.TakesUp` : the answers that are taken up;
* `Solver.Transition.accepted?_cases` : only such an answer changes the accepted
  point;
* `Solver.Transition.handedBack_eq` : the vector handed back;
* `Optimizer.exists_takesUp_of_accepted?`, `Optimizer.handedBack_eq_accepted` : the same
  for any series of calls;
* `Optimizer.acceptedPoints` : the accepted points of a series of calls;
* `Optimizer.invariant_acceptedPoints` : induction over the points accepted;
* `Optimizer.getLast?_acceptedPoints` : the accepted point is the last of them.
-/
import Descent.Proofs.Exchange

namespace Descent

open Scalar

variable {α : Type} [Scalar α] {n : Nat}

/-- The value and the gradient are finite. -/
def Point.IsFinite (p : Point α n) : Prop :=
  isFinite p.f = true ∧ ∀ i (_ : i < n), isFinite p.g[i] = true

/-- The caller reports this point with this value and gradient. -/
def Call.Reports {α : Type} {n : Nat} (call : Call α) (p : Point α n) : Prop :=
  call.x = p.x.toArray ∧ call.f = p.f ∧ call.g = p.g.toArray

/-! ## Answers that are taken up -/

namespace Solver

/-- The answers that make their point the accepted one: a first point, or a trial
point at which the line search accepts its step. -/
inductive TakesUp (c : Config α) (s : Solver α n) (p : Point α n) : Prop
  /-- A first point in the box. -/
  | first (hs : s.phase = .opening) (hx : s.box.contains p.x = true) (hflaw : flaw? p.f p.g = none)
  /-- An accepted step. -/
  | step (trial : Trial α n) (remark : Option StopReason) (hs : s.phase = .searching trial)
      (hflaw : flaw? p.f p.g = none)
      (hanswer : trial.run.answer c p.f (trialSlope trial.base p.x p.g trial.run.step) =
        .accepted remark)

variable {c : Config α} {s s' : Solver α n} {p : Point α n}

/-- Points are taken up only where an evaluation was asked for. -/
theorem TakesUp.task_eq (h : s.TakesUp c p) : s.task = .computeFG := by
  rcases h with ⟨hs, -, -⟩ | ⟨trial, remark, hs, -, -⟩
  · exact task_of_opening hs
  · exact task_of_searching hs

/-- Points that are taken up have a finite value and gradient. -/
theorem TakesUp.isFinite (h : s.TakesUp c p) : p.IsFinite := by
  have hflaw : flaw? p.f p.g = none := by
    rcases h with ⟨-, -, hflaw⟩ | ⟨trial, remark, -, hflaw, -⟩
    · exact hflaw
    · exact hflaw
  exact ⟨isFinite_value_of_flaw? hflaw, isFinite_gradient_of_flaw? hflaw⟩

variable {x x' : Vector α n} {f : α} {g : Vector α n}

/-- A transition takes up the answer, which is then the first point or counted, or it keeps
the accepted point and the count. -/
theorem Transition.accepted?_cases (h : Transition c s x f g s' x') :
    (s'.accepted? = s.accepted? ∧ s'.iterations = s.iterations) ∨
      (s.TakesUp c ⟨x, f, g⟩ ∧ (s.accepted? = none ∨ s.iterations < s'.iterations) ∧
        s'.accepted? = some ⟨x, f, g⟩) := by
  cases h with
  | first hs hx hflaw =>
    right
    exact ⟨.first hs hx hflaw, .inl (accepted?_of_opening hs), accepted?_settle c _ _⟩
  | step trial remark hs hflaw hanswer =>
    right
    refine ⟨.step trial remark hs hflaw hanswer, .inr (Nat.lt_succ_self _), ?_⟩
    rw [accepted?, accepted?_heed, accepted?_settle]
  | project hs hx => exact .inl ⟨rfl, rfl⟩
  | idle last verdict hs => exact .inl ⟨rfl, rfl⟩
  -- every other transition carries the accepted point from one phase to the next
  | flawAtFirst flaw hs hx hflaw => exact .inl ⟨(accepted?_of_opening hs).symm, rfl⟩
  | flawAtTrial trial flaw hs hflaw => exact .inl ⟨(accepted?_of_searching hs).symm, rfl⟩
  | spentAtTrial trial run hs hflaw hanswer hspent =>
    exact .inl ⟨(accepted?_of_searching hs).symm, rfl⟩
  | retry trial run hs hflaw hanswer hleft => exact .inl ⟨(accepted?_of_searching hs).symm, rfl⟩
  | searchFailed trial step reason hs hflaw hanswer =>
    exact .inl ⟨(accepted?_of_searching hs).symm, rfl⟩
  | notDescent p hs hslope => exact .inl ⟨(accepted?_of_accepted hs).symm, rfl⟩
  | spentAtPoint p hs hslope hspent => exact .inl ⟨(accepted?_of_accepted hs).symm, rfl⟩
  | refused p range refusal hs hslope hleft hrange hstart =>
    exact .inl ⟨(accepted?_of_accepted hs).symm, rfl⟩
  | search p range run hs hslope hleft hrange hstart =>
    exact .inl ⟨(accepted?_of_accepted hs).symm, rfl⟩

/-- A transition that does not ask for an evaluation hands the accepted point back. -/
theorem Transition.handedBack_eq (h : Transition c s x f g s' x')
    (hrunning : s.task.isTerminal = false) (htask : s'.task ≠ .computeFG)
    (hp : s'.accepted? = some p) : x' = p.x := by
  cases h with
  | project hs hx =>
    exact absurd (task_of_opening hs) htask
  | retry trial run hs hflaw hanswer hleft => exact absurd rfl htask
  | search q range run hs hslope hleft hrange hstart => exact absurd rfl htask
  | idle last verdict hs =>
    rw [isTerminal_of_stopped hs] at hrunning
    cases hrunning
  | first hs hx hflaw =>
    rw [accepted?, accepted?_settle] at hp
    cases hp
    rfl
  | step trial remark hs hflaw hanswer =>
    rw [accepted?, accepted?_heed, accepted?_settle] at hp
    cases hp
    rfl
  | flawAtFirst flaw hs hx hflaw => cases hp
  | flawAtTrial trial flaw hs hflaw => cases hp; rfl
  | spentAtTrial trial run hs hflaw hanswer hspent => cases hp; rfl
  | searchFailed trial step reason hs hflaw hanswer => cases hp; rfl
  | notDescent q hs hslope => cases hp; rfl
  | spentAtPoint q hs hslope hspent => cases hp; rfl
  | refused q range refusal hs hslope hleft hrange hstart => cases hp; rfl

end Solver

/-! ## Series of calls -/

namespace Optimizer

/-- The call makes its point the accepted one. -/
def TakesUp (o : Optimizer α n) (call : Call α) (p : Point α n) : Prop :=
  call.Reports p ∧ ∃ s, o.body = .ok s ∧ s.TakesUp o.config p

/-- A call takes its point up or keeps the accepted point. -/
theorem accepted?_exchange (o : Optimizer α n) (hopen : o.closed = false) (call : Call α) :
    (o.exchange call).1.accepted? = o.accepted? ∨
      ∃ p, o.TakesUp call p ∧ (o.exchange call).1.accepted? = some p := by
  rcases o.exchange_cases call with h | ⟨s, s', x, g, x', hbody, hx, hg, h, htrans⟩
  · left
    rw [h]
  · rw [h, accepted?_of_body hopen hbody, accepted?_proceed hopen s']
    rcases htrans.accepted?_cases with ⟨hsame, -⟩ | ⟨htakes, -, hnew⟩
    · exact .inl hsame
    · exact .inr ⟨⟨x, call.f, g⟩, ⟨⟨hx, rfl, hg⟩, s, hbody, htakes⟩, hnew⟩

/-- The accepted point was taken up in one of the calls. -/
theorem exists_takesUp_of_accepted? {o : Optimizer α n} (hopen : o.closed = false)
    (hfresh : o.accepted? = none) (calls : List (Call α)) {p : Point α n}
    (hp : (o.after calls).accepted? = some p) :
    ∃ earlier call later, calls = earlier ++ call :: later ∧ (o.after earlier).TakesUp call p := by
  -- from the last call back: the accepted point is that of the last call that took one up
  induction calls using List.reverseRecOn with
  | nil =>
    rw [after_nil, hfresh] at hp
    cases hp
  | append_singleton calls call ih =>
    rw [after_concat] at hp
    have hopen' : (o.after calls).closed = false := by rw [closed_after, hopen]
    rcases (o.after calls).accepted?_exchange hopen' call with hsame | ⟨q, htakes, hnew⟩
    · rw [hsame] at hp
      obtain ⟨earlier, first, later, hcalls, htakes⟩ := ih hp
      exact ⟨earlier, first, later ++ [call], by simp [hcalls], htakes⟩
    · rw [hnew] at hp
      cases hp
      exact ⟨calls, call, [], rfl, htakes⟩

/-- No point has been accepted before the first call. -/
theorem accepted?_start (x₀ : Vector α n) (c : Config α) (bounds : Bounds α) :
    (start x₀ c bounds).accepted? = none := by
  cases hs : (start x₀ c bounds).body with
  | error e => simp [accepted?, start, solver?, show begin? x₀ c bounds = .error e from hs]
  | ok s =>
    rw [accepted?_of_body rfl hs, Solver.accepted?_of_opening (phase_of_begin? hs)]

/-- A call that moves a run on without asking for an evaluation hands the accepted
point back. -/
theorem handedBack_eq_accepted {o o' : Optimizer α n} {call : Call α} {x' : Array α}
    (h : o.iterate call.x call.f call.g = .ok (o', x')) (hrunning : o.task.isTerminal = false)
    (htask : o'.task ≠ .computeFG) {p : Point α n} (hp : o'.accepted? = some p) :
    x' = p.x.toArray := by
  rcases iterate_eq_ok h with
    ⟨hterm, -⟩ | ⟨s, s', x, g, xs', hopen, -, hterm, -, -, rfl, rfl, htrans⟩
  · rw [hterm] at hrunning
    cases hrunning
  · rw [accepted?_proceed hopen s'] at hp
    rw [task_proceed] at htask
    rw [htrans.handedBack_eq hterm htask hp]

/-! ## The accepted points of a series of calls -/

/-- The point that has been accepted between two states of an optimizer: there was none
before, or another iteration has been counted. -/
def newlyAccepted? (o o' : Optimizer α n) : Option (Point α n) :=
  if o.accepted?.isNone || decide (o.iterations < o'.iterations) then o'.accepted? else none

theorem newlyAccepted?_eq_none {o o' : Optimizer α n} (hpoint : o'.accepted? = o.accepted?)
    (hcount : o'.iterations = o.iterations) : o.newlyAccepted? o' = none := by
  unfold newlyAccepted?
  rw [hpoint, hcount]
  cases o.accepted? <;> simp

/-- A point that appears first or is counted is accepted. -/
theorem newlyAccepted?_eq_some {o o' : Optimizer α n} {p : Point α n}
    (h : o.accepted? = none ∨ o.iterations < o'.iterations) (hpoint : o'.accepted? = some p) :
    o.newlyAccepted? o' = some p := by
  unfold newlyAccepted?
  rw [hpoint]
  rcases h with h | h
  · simp [h]
  · simp [h]

/-- The points accepted in a series of calls, the oldest first. -/
def acceptedPoints (o : Optimizer α n) : List (Call α) → List (Point α n)
  | [] => []
  | call :: calls =>
    (o.newlyAccepted? (o.exchange call).1).toList ++ (o.exchange call).1.acceptedPoints calls

/-- The points accepted are the notes of an observer. -/
theorem acceptedPoints_eq_log (o : Optimizer α n) (calls : List (Call α)) :
    o.acceptedPoints calls = o.log newlyAccepted? calls := by
  induction calls generalizing o with
  | nil => rfl
  | cons call calls ih => rw [acceptedPoints, log, ih]

theorem acceptedPoints_append (o : Optimizer α n) (calls more : List (Call α)) :
    o.acceptedPoints (calls ++ more) =
      o.acceptedPoints calls ++ (o.after calls).acceptedPoints more := by
  simp only [acceptedPoints_eq_log, log_append]

/-- Without a run nothing is accepted. -/
theorem acceptedPoints_of_error {o : Optimizer α n} {e : Failure α} (h : o.body = .error e)
    (calls : List (Call α)) : o.acceptedPoints calls = [] := by
  induction calls with
  | nil => rfl
  | cons call calls ih =>
    rcases o.exchange_cases call with hsame | ⟨s, s', x, g, x', hbody, -⟩
    · rw [acceptedPoints, hsame, newlyAccepted?_eq_none rfl rfl, ih]
      rfl
    · rw [h] at hbody
      cases hbody

/-- A property of the points accepted so far and of the run holds after any series of
calls, if it holds at first and every transition that accepts its point carries it on to
the longer list, and every other one keeps it. -/
theorem invariant_acceptedPoints {P : List (Point α n) → Solver α n → Prop}
    {o : Optimizer α n} {s₀ : Solver α n} (hopen : o.closed = false) (hbody : o.body = .ok s₀)
    (hinit : P [] s₀)
    (hstep : ∀ points s x f g s' x', Solver.Transition o.config s x f g s' x' → P points s →
      (s'.accepted? = s.accepted? ∧ s'.iterations = s.iterations ∧ P points s') ∨
        ((s.accepted? = none ∨ s.iterations < s'.iterations) ∧
          s'.accepted? = some ⟨x, f, g⟩ ∧ P (points ++ [⟨x, f, g⟩]) s'))
    (calls : List (Call α)) :
    ∃ s, (o.after calls).body = .ok s ∧ P (o.acceptedPoints calls) s := by
  have hlog := invariant_log newlyAccepted?
    (fun o => newlyAccepted?_eq_none rfl rfl) hbody hinit ?_ calls
  · obtain ⟨s, hafter, hs⟩ := hlog
    refine ⟨s, ?_, ?_⟩
    · rw [hafter, body_proceed]
    · rw [acceptedPoints_eq_log]
      exact hs
  · intro points s x f g s' x' htrans hs
    have hpoint := accepted?_proceed hopen s
    have hpoint' := accepted?_proceed hopen s'
    rcases hstep points s x f g s' x' htrans hs with ⟨hsame, heq, hs'⟩ | ⟨hnew, hp, hs'⟩
    · rw [newlyAccepted?_eq_none, Option.toList_none, List.append_nil]
      · exact hs'
      · rw [hpoint', hsame, hpoint]
      · exact heq
    · rw [newlyAccepted?_eq_some (p := ⟨x, f, g⟩), Option.toList_some]
      · exact hs'
      · rw [hpoint]
        exact hnew
      · rw [hpoint', hp]

/-- The accepted point is the last of the points accepted so far. -/
theorem getLast?_acceptedPoints {o : Optimizer α n} {s₀ : Solver α n} (hopen : o.closed = false)
    (hbody : o.body = .ok s₀) (hfresh : s₀.accepted? = none) (calls : List (Call α)) :
    (o.acceptedPoints calls).getLast? = (o.after calls).accepted? := by
  obtain ⟨s, hs, hlast⟩ := invariant_acceptedPoints hopen hbody
    (P := fun points s => points.getLast? = s.accepted?) hfresh.symm (by
      intro points s x f g s' x' htrans hlast
      rcases htrans.accepted?_cases with ⟨hsame, hcount⟩ | ⟨-, hnew, hp⟩
      · exact .inl ⟨hsame, hcount, hlast.trans hsame.symm⟩
      · exact .inr ⟨hnew, hp, by rw [List.getLast?_concat, hp]⟩) calls
  rw [hlast, accepted?_of_body (by rw [closed_after, hopen]) hs]

/-! ## Integrity -/

/-- **Integrity of the accepted point.**  After any series of calls, the accepted
point has a finite value and gradient, and one of the calls answered a request for
an evaluation with exactly this point, value and gradient; a further call keeps the
accepted point or takes its own point up; and a call that moves the run on without
asking for an evaluation hands the accepted point back. -/
theorem accepted_point_integrity (x₀ : Vector α n) (c : Config α) (bounds : Bounds α)
    (calls : List (Call α)) :
    (∀ p, ((start x₀ c bounds).after calls).accepted? = some p →
      p.IsFinite ∧ ∃ earlier call later, calls = earlier ++ call :: later ∧
        ((start x₀ c bounds).after earlier).task = .computeFG ∧ call.Reports p) ∧
    (∀ call, (((start x₀ c bounds).after calls).exchange call).1.accepted? =
        ((start x₀ c bounds).after calls).accepted? ∨
      ∃ p, ((start x₀ c bounds).after calls).TakesUp call p ∧
        (((start x₀ c bounds).after calls).exchange call).1.accepted? = some p) ∧
    (∀ (call : Call α) o' x',
      ((start x₀ c bounds).after calls).iterate call.x call.f call.g = .ok (o', x') →
      ((start x₀ c bounds).after calls).task.isTerminal = false → o'.task ≠ .computeFG →
      ∀ p, o'.accepted? = some p → x' = p.x.toArray) := by
  have hopen : ((start x₀ c bounds).after calls).closed = false := by
    rw [closed_after]
    rfl
  refine ⟨?_, ?_, ?_⟩
  · intro p hp
    obtain ⟨earlier, call, later, hcalls, hreports, s, hbody, htakes⟩ :=
      exists_takesUp_of_accepted? rfl (accepted?_start x₀ c bounds) calls hp
    refine ⟨htakes.isFinite, earlier, call, later, hcalls, ?_, hreports⟩
    rw [task_of_body hbody, htakes.task_eq]
  · intro call
    exact accepted?_exchange _ hopen call
  · intro call o' x' hiter hrunning htask p hp
    exact handedBack_eq_accepted hiter hrunning htask hp

end Optimizer

end Descent
