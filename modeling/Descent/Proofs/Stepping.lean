/-
# Two drivers

A problem can be minimized by a loop that answers an optimizer with a callback, or step
by step from one accepted point to the next.  The first loop turns once for every
exchange, the second is a loop of loops; they evaluate the problem at the same points in
the same order and come to the same end.

* `Problem.callback` : a problem as a callback;
* `Stepper.resume` : the rest of a run that is made step by step;
* `Stepper.endsLike_resume` : it ends like the one loop;
* `Agree` : what the ends of the two have in common;
* `Stepper.agree_run_drive` : the drivers agree.
-/
import Descent.Minimize.Stepper
import Descent.Proofs.Failures
import Descent.Proofs.Termination

namespace Descent

open Scalar

variable {σ ε α : Type}

/-- The evaluation of a problem as a callback: the objective comes first, and the gradient
is replaced only if both are there. -/
def Problem.callback (p : Problem σ ε α) : Callback σ ε α := fun x g => do
  match ← p.cost x with
  | .error e => pure (.error e, g)
  | .ok f =>
    match ← p.gradient x with
    | .error e => pure (.error e, g)
    | .ok g => pure (.ok f, g)

variable [Scalar α] {n : Nat}

/-! ## One round of the inner loop -/

theorem bind_apply {β γ : Type} {first : StateM σ β} {rest : β → StateM σ γ} {state state' : σ}
    {answer : β} (h : first state = (answer, state')) :
    (first >>= rest) state = rest answer state' := by
  show StateT.bind first rest state = _
  rw [StateT.bind, h]
  rfl

omit [Scalar α] in
/-- How a problem is evaluated: an objective that fails is the end of it, and so is a
gradient that fails. -/
theorem Problem.callback_cases (p : Problem σ ε α) (x g : Array α) (state : σ) :
    (∃ e state', p.cost x state = (.error e, state') ∧
      p.callback x g state = ((.error e, g), state')) ∨
    ∃ f state', p.cost x state = (.ok f, state') ∧
      ((∃ e state'', p.gradient x state' = (.error e, state'') ∧
        p.callback x g state = ((.error e, g), state'')) ∨
      ∃ g' state'', p.gradient x state' = (.ok g', state'') ∧
        p.callback x g state = ((.ok f, g'), state'')) := by
  rcases hcost : p.cost x state with ⟨answer, state'⟩
  cases answer with
  | error e =>
    left
    refine ⟨e, state', rfl, ?_⟩
    rw [callback, bind_apply hcost]
    rfl
  | ok f =>
    right
    refine ⟨f, state', rfl, ?_⟩
    rcases hgradient : p.gradient x state' with ⟨answer, state''⟩
    cases answer with
    | error e =>
      left
      refine ⟨e, state'', rfl, ?_⟩
      rw [callback, bind_apply hcost]
      show (p.gradient x >>= _) state' = _
      rw [bind_apply hgradient]
      rfl
    | ok g' =>
      right
      refine ⟨g', state'', rfl, ?_⟩
      rw [callback, bind_apply hcost]
      show (p.gradient x >>= _) state' = _
      rw [bind_apply hgradient]
      rfl

omit [Scalar α] in
/-- The gradients of a callback have the length of their points if those of its problem
do. -/
theorem Problem.size_of_callback (p : Problem σ ε α)
    (hp : ∀ x state g state', p.gradient x state = (.ok g, state') → g.size = x.size)
    (x g : Array α) (state : σ) (f : α) (g' : Array α) (state' : σ)
    (h : p.callback x g state = ((.ok f, g'), state')) : g'.size = x.size := by
  rcases p.callback_cases x g state with
    ⟨e, state₁, -, heq⟩ | ⟨f₁, state₁, -, ⟨e, state₂, -, heq⟩ | ⟨g₁, state₂, hgradient, heq⟩⟩
  · rw [h] at heq
    cases heq
  · rw [h] at heq
    cases heq
  · rw [h] at heq
    cases heq
    exact hp x state₁ g' state' hgradient

namespace Session

variable (p : Problem σ ε α) (fuel : Nat) (s : Session α) (calls : Calls)

/-- A session whose optimizer asks for no evaluation is left as it is. -/
theorem answerRequests_of_idle (h : s.optimizer.task ≠ .computeFG) :
    s.answerRequests p fuel calls = pure (s, calls, .ok s.optimizer.task) := by
  cases fuel with
  | zero => rw [answerRequests, if_neg h]
  | succ fuel =>
    rw [answerRequests]
    split
    · next htask => exact absurd htask h
    · rfl

/-- What follows an evaluation in a session. -/
def answerOn (f : α) (g : Array α) :
    StateM σ (Session α × Calls × Except (Interruption ε α) Task) :=
  match s.optimizer.iterate s.x f g with
  | .error e => pure ({ s with f, g }, calls, .error (.optimizer e))
  | .ok (optimizer, x) => answerRequests p fuel { s with optimizer, x, f, g } calls

variable {p s}

/-- An evaluation that fails ends the loop. -/
theorem answerRequests_of_problem (h : s.optimizer.task = .computeFG) {g g' : Array α} {e : ε}
    {state state' : σ} (hanswer : p.callback s.x g state = ((.error e, g'), state')) :
    ∃ f calls', s.answerRequests p (fuel + 1) calls state =
      (({ s with f }, calls', .error (.problem e)), state') := by
  rw [answerRequests, h]
  rcases p.callback_cases s.x g state with
    ⟨e₁, state₁, hcost, heq⟩ |
      ⟨f, state₁, hcost, ⟨e₁, state₂, hgradient, heq⟩ | ⟨g₁, state₂, -, heq⟩⟩
  · rw [hanswer] at heq
    cases heq
    exact ⟨s.f, { calls with cost := calls.cost + 1 }, bind_apply hcost⟩
  · rw [hanswer] at heq
    cases heq
    refine ⟨f, { calls with cost := calls.cost + 1, gradient := calls.gradient + 1 }, ?_⟩
    refine (bind_apply hcost).trans ?_
    exact bind_apply hgradient
  · rw [hanswer] at heq
    cases heq

/-- An evaluation of objective and gradient is counted and passed on. -/
theorem answerRequests_of_evaluation (h : s.optimizer.task = .computeFG) {f : α} {g : Array α}
    {state state' state'' : σ} (hcost : p.cost s.x state = (.ok f, state'))
    (hgradient : p.gradient s.x state' = (.ok g, state'')) :
    s.answerRequests p (fuel + 1) calls state =
      s.answerOn p fuel { cost := calls.cost + 1, gradient := calls.gradient + 1 } f g state'' := by
  rw [answerRequests, h]
  refine (bind_apply hcost).trans ?_
  refine (bind_apply hgradient).trans ?_
  unfold answerOn
  dsimp only
  cases hiter : s.optimizer.iterate s.x f g with
  | error e => rfl
  | ok next => rfl

/-- An evaluation that succeeds is passed on. -/
theorem answerRequests_of_answer (h : s.optimizer.task = .computeFG) {g g' : Array α} {f : α}
    {state state' : σ} (hanswer : p.callback s.x g state = ((.ok f, g'), state')) :
    ∃ calls', s.answerRequests p (fuel + 1) calls state = s.answerOn p fuel calls' f g' state' := by
  rcases p.callback_cases s.x g state with
    ⟨e₁, state₁, -, heq⟩ | ⟨f₁, state₁, hcost, ⟨e₁, state₂, -, heq⟩ | ⟨g₁, state₂, hgradient, heq⟩⟩
  · rw [hanswer] at heq
    cases heq
  · rw [hanswer] at heq
    cases heq
  · rw [hanswer] at heq
    cases heq
    exact ⟨_, answerRequests_of_evaluation fuel calls h hcost hgradient⟩

end Session

/-! ## Tasks and exchanges of an open optimizer -/

namespace Optimizer

/-- An optimizer asks for an evaluation or for leave, or its task is terminal. -/
theorem task_cases (o : Optimizer α n) :
    o.task = .computeFG ∨ o.task = .newX ∨ o.task.isTerminal = true := by
  cases hterm : o.task.isTerminal with
  | true => exact .inr (.inr rfl)
  | false =>
    cases hbody : o.body with
    | ok s => exact (task_of_not_isTerminal hbody hterm).imp_right .inl
    | error e =>
      rw [task, hbody] at hterm
      cases hterm

/-- An optimizer that asks for leave has an accepted point. -/
theorem exists_accepted?_of_newX {o : Optimizer α n} (hopen : o.closed = false)
    (h : o.task = .newX) : ∃ q, o.accepted? = some q := by
  cases hbody : o.body with
  | error e =>
    rw [task, hbody] at h
    cases h
  | ok s =>
    rw [task_of_body hbody] at h
    obtain ⟨q, hphase⟩ := Solver.exists_accepted_of_newX h
    exact ⟨q, (accepted?_of_body hopen hbody).trans (Solver.accepted?_of_accepted hphase)⟩

theorem closed_of_iterate {o o' : Optimizer α n} {x x' : Array α} {f : α} {g : Array α}
    (h : o.iterate x f g = .ok (o', x')) : o'.closed = o.closed := by
  rcases iterate_eq_ok h with ⟨-, rfl, -⟩ | ⟨s, s', xs, gs, xs', -, -, -, -, -, rfl, -⟩
  · rfl
  · rfl

end Optimizer

/-! ## The rest of a run -/

namespace Stepper

/-- The rest of a run that is made step by step: the requests of a session are answered,
within a number of exchanges, and a number of steps may follow. -/
def resume (p : Problem σ ε α) (fuel steps : Nat) (st : Stepper α) (s : Session α) :
    StateM σ (Stepper α × Except (Interruption ε α) (Report α)) := do
  let (s, calls, result) ← s.answerRequests p fuel st.calls
  let st := { st with session := some s, calls }
  match result.bind s.report with
  | .error e => pure (st, .error e)
  | .ok report => st.finish p steps report

/-- What the rest of a run made step by step has in common with a driven run: the
optimizer at the end, and the interruption or a report on that optimizer. -/
def EndsLike (st : Stepper α) (driven : Driven ε α n)
    (last : Stepper α × Except (Interruption ε α) (Report α)) : Prop :=
  ∃ x f g calls, last =
    ({ st with session := some { optimizer := driven.optimizer, x, f, g }, calls },
      driven.result.bind (Session.report { optimizer := driven.optimizer, x, f, g }))

variable {p : Problem σ ε α} (fuel steps : Nat) (st : Stepper α) {s s' : Session α}
  {state state' : σ} {calls : Calls}

theorem resume_of_interruption {e : Interruption ε α}
    (h : s.answerRequests p fuel st.calls state = ((s', calls, .error e), state')) :
    st.resume p fuel steps s state =
      (({ st with session := some s', calls }, .error e), state') :=
  bind_apply h

/-- A report on a run that asks for no evaluation is where the steps go on from. -/
theorem resume_of_idle (h : s.optimizer.task ≠ .computeFG) :
    st.resume p fuel steps s state =
      (match s.report (ε := ε) s.optimizer.task with
        | .error e => pure ({ st with session := some s }, .error e)
        | .ok report => finish p steps { st with session := some s } report :
          StateM σ (Stepper α × Except (Interruption ε α) (Report α))) state := by
  have hidle := congrFun (s.answerRequests_of_idle p fuel st.calls h) state
  exact bind_apply hidle

/-- A report on a terminal task says how the run has ended. -/
theorem isSome_halt_of_report {task : Task} (hterm : task.isTerminal = true) {report : Report α}
    (h : s.report (ε := ε) task = .ok report) : report.halt.isSome = true := by
  unfold Session.report at h
  split at h
  · cases h
  · next hended =>
    split at h
    · cases h
    · cases h
      cases task with
      | finalX => rfl
      | warning => rfl
      | error => exact absurd (.inl rfl) hended
      | inputError => exact absurd (.inr rfl) hended
      | _ => cases hterm

theorem finish_of_halt {report : Report α} (h : report.halt.isSome = true) :
    finish p steps st report = pure (st, .ok report) := by
  cases steps with
  | zero => rw [finish, if_pos h]
  | succ steps => rw [finish, if_pos h]

/-- At a terminal task only the report is left. -/
theorem resume_of_isTerminal (h : s.optimizer.task.isTerminal = true) :
    st.resume p fuel steps s state =
      (({ st with session := some s }, s.report s.optimizer.task), state) := by
  have hidle : s.optimizer.task ≠ .computeFG := by
    intro htask
    rw [htask] at h
    cases h
  rw [resume_of_idle fuel steps st hidle]
  cases hreport : s.report (ε := ε) s.optimizer.task with
  | error e => rfl
  | ok report =>
    dsimp only
    rw [finish_of_halt steps _ (isSome_halt_of_report h hreport)]
    rfl

/-- At an accepted point the next step begins. -/
theorem resume_of_newX (h : s.optimizer.task = .newX) {q : Point α s.dimension}
    (hq : s.optimizer.accepted? = some q) :
    st.resume p fuel (steps + 1) s state =
      match s.optimizer.iterate s.x s.f s.g with
      | .error e => (({ st with session := some s }, .error (.optimizer e)), state)
      | .ok (optimizer, x) =>
        ({ st with session := some s }).resume p st.config.exchanges steps
          { s with optimizer, x } state := by
  have hidle : s.optimizer.task ≠ .computeFG := by
    rw [h]
    decide
  have hreport : s.report (ε := ε) s.optimizer.task =
      .ok { x := q.x.toArray, f := q.f, g := q.g.toArray, halt := none } := by
    unfold Session.report
    rw [h, hq]
    rfl
  rw [resume_of_idle fuel (steps + 1) st hidle, hreport]
  dsimp only
  rw [finish]
  cases hiter : s.optimizer.iterate s.x s.f s.g with
  | error e =>
    have hdepart : s.depart (ε := ε) = .error (.optimizer e) := by
      rw [Session.depart, if_pos h, hiter]
    have hnext : next p { st with session := some s } state =
        (({ st with session := some s }, .error (.optimizer e)), state) := by
      unfold next
      dsimp only
      rw [hdepart]
      rfl
    exact bind_apply hnext
  | ok result =>
    obtain ⟨optimizer, x⟩ := result
    have hdepart : s.depart (ε := ε) = .ok { s with optimizer, x } := by
      rw [Session.depart, if_pos h, hiter]
    rcases hrest : Session.answerRequests p st.config.exchanges { s with optimizer, x } st.calls
      state with ⟨⟨s', calls, last⟩, state'⟩
    have hnext : next p { st with session := some s } state =
        (({ st with session := some s', calls }, last.bind s'.report), state') := by
      unfold next
      dsimp only
      rw [hdepart]
      exact bind_apply hrest
    refine (bind_apply hnext).trans ?_
    dsimp only [resume]
    refine Eq.trans ?_ (bind_apply hrest).symm
    cases last.bind s'.report with
    | error e => rfl
    | ok report => rfl

/-- An evaluation that succeeds is passed on. -/
theorem resume_of_answer (h : s.optimizer.task = .computeFG) {g g' : Array α} {f : α}
    (hanswer : p.callback s.x g state = ((.ok f, g'), state')) :
    ∃ calls, st.resume p (fuel + 1) steps s state =
      match s.optimizer.iterate s.x f g' with
      | .error e =>
        (({ st with session := some { s with f, g := g' }, calls }, .error (.optimizer e)), state')
      | .ok (optimizer, x) =>
        ({ st with calls }).resume p fuel steps { s with optimizer, x, f, g := g' } state' := by
  obtain ⟨calls, heq⟩ := Session.answerRequests_of_answer fuel st.calls h hanswer
  refine ⟨calls, ?_⟩
  cases hiter : s.optimizer.iterate s.x f g' with
  | error e =>
    rw [Session.answerOn, hiter] at heq
    exact resume_of_interruption (fuel + 1) steps st heq
  | ok next =>
    rw [Session.answerOn, hiter] at heq
    -- both go on from the answers to the requests that are left
    rcases hrest : Session.answerRequests p fuel
      { s with optimizer := next.1, x := next.2, f, g := g' } calls state' with ⟨last, state''⟩
    dsimp only [resume]
    rw [bind_apply hrest]
    exact bind_apply (heq.trans hrest)

/-- **The rest of a run.**  A run that is driven to its end by a callback, whatever value
and gradient came before, ends the same way when it is made step by step. -/
theorem endsLike_resume (p : Problem σ ε α) {k : Nat} (fuel steps : Nat) (st : Stepper α)
    {o : Optimizer α n} {f f₀ : α} {g g₀ : Array α} (hfuel : k ≤ fuel) (hsteps : k ≤ steps)
    (hexchanges : k ≤ st.config.exchanges) (hopen : o.closed = false)
    (hsame : o.task = .newX → f₀ = f ∧ g₀ = g) (x : Array α) (state : σ)
    (h : (o.driveFor p.callback k x f g state).1.result ≠ .error .stalled) :
    ∃ last, st.resume p fuel steps { optimizer := o, x, f := f₀, g := g₀ } state =
        (last, (o.driveFor p.callback k x f g state).2) ∧
      st.EndsLike (o.driveFor p.callback k x f g state).1 last := by
  -- every exchange uses one unit of fuel in the one loop, and one unit of fuel or one step
  -- in the other
  induction k generalizing fuel steps st o f f₀ g g₀ x state with
  | zero =>
    have hterm : o.task.isTerminal = true := by
      by_contra hterm
      rw [Optimizer.driveFor, if_neg hterm] at h
      exact h rfl
    rw [Optimizer.driveFor_of_isTerminal _ 0 hterm]
    exact ⟨_, resume_of_isTerminal fuel steps st hterm, x, f₀, g₀, st.calls, rfl⟩
  | succ k ih =>
    have hmore : k ≤ st.config.exchanges := Nat.le_of_succ_le hexchanges
    rcases o.task_cases with htask | htask | hterm
    · obtain ⟨less, rfl⟩ : ∃ less, fuel = less + 1 := ⟨fuel - 1, by omega⟩
      rcases hanswer : p.callback x g state with ⟨⟨answer, g'⟩, state'⟩
      cases answer with
      | error e =>
        rw [Optimizer.driveFor_of_problem _ k htask hanswer]
        obtain ⟨f', calls, hrequests⟩ := Session.answerRequests_of_problem less st.calls
          (s := { optimizer := o, x, f := f₀, g := g₀ }) htask hanswer
        refine ⟨_, resume_of_interruption (less + 1) steps st hrequests, ?_⟩
        exact ⟨x, f', g₀, calls, rfl⟩
      | ok f' =>
        rw [Optimizer.driveFor_of_answer _ k htask hanswer] at h ⊢
        unfold Optimizer.driveOn at h ⊢
        obtain ⟨calls, hresume⟩ := resume_of_answer less steps st
          (s := { optimizer := o, x, f := f₀, g := g₀ }) htask hanswer
        rw [hresume]
        dsimp only
        cases hiter : o.iterate x f' g' with
        | error e => exact ⟨_, rfl, x, f', g', calls, rfl⟩
        | ok next =>
          rw [hiter] at h
          have hopen' : next.1.closed = false := by rw [Optimizer.closed_of_iterate hiter, hopen]
          exact ih less steps { st with calls } (by omega) (by omega) hmore hopen'
            (fun _ => ⟨rfl, rfl⟩) next.2 state' h
    · obtain ⟨fewer, rfl⟩ : ∃ fewer, steps = fewer + 1 := ⟨steps - 1, by omega⟩
      obtain ⟨q, hq⟩ := Optimizer.exists_accepted?_of_newX hopen htask
      obtain ⟨rfl, rfl⟩ := hsame htask
      rw [Optimizer.driveFor_of_newX _ k htask] at h ⊢
      unfold Optimizer.driveOn at h ⊢
      rw [resume_of_newX fuel fewer st (s := { optimizer := o, x, f := f₀, g := g₀ }) htask hq]
      dsimp only
      cases hiter : o.iterate x f₀ g₀ with
      | error e => exact ⟨_, rfl, x, f₀, g₀, st.calls, rfl⟩
      | ok next =>
        rw [hiter] at h
        have hopen' : next.1.closed = false := by rw [Optimizer.closed_of_iterate hiter, hopen]
        exact ih st.config.exchanges fewer
          { st with session := some { optimizer := o, x, f := f₀, g := g₀ } } hmore (by omega)
          hmore hopen' (fun _ => ⟨rfl, rfl⟩) next.2 state h
    · rw [Optimizer.driveFor_of_isTerminal _ (k + 1) hterm]
      exact ⟨_, resume_of_isTerminal fuel steps st hterm, x, f₀, g₀, st.calls, rfl⟩

/-- Where a run can begin, its beginning is pursued to the first report. -/
theorem init_of_begin? (p : Problem σ ε α) (st : Stepper α) (x₀ : Vector α n) {s₀ : Solver α n}
    (h : Optimizer.begin? x₀ st.config st.bounds = .ok s₀) :
    st.init p (some x₀.toArray) =
      st.pursue p { optimizer := Optimizer.start x₀ st.config st.bounds, x := x₀.toArray, f := 0,
                    g := Array.replicate n 0 } := by
  obtain ⟨xs, rfl⟩ := x₀
  have hbuild : Optimizer.build ⟨xs, rfl⟩ st.config st.bounds =
      .ok (Optimizer.start ⟨xs, rfl⟩ st.config st.bounds) := by
    unfold Optimizer.build Optimizer.start
    rw [h]
  unfold init
  dsimp only
  rw [hbuild]

theorem init_of_begin?_eq_error (p : Problem σ ε α) (st : Stepper α) (x₀ : Vector α n)
    {e : Failure α} (h : Optimizer.begin? x₀ st.config st.bounds = .error e) (state : σ) :
    st.init p (some x₀.toArray) state = ((st, .error (.optimizer e)), state) := by
  obtain ⟨xs, rfl⟩ := x₀
  have hbuild : Optimizer.build ⟨xs, rfl⟩ st.config st.bounds = .error e := by
    unfold Optimizer.build Optimizer.start
    rw [h]
  unfold init
  dsimp only
  rw [hbuild]
  rfl

/-- A run made step by step has a beginning and a rest. -/
theorem run_of_begin? (p : Problem σ ε α) (st : Stepper α) (x₀ : Vector α n) {s₀ : Solver α n}
    (h : Optimizer.begin? x₀ st.config st.bounds = .ok s₀) {state state' : σ}
    {last : Stepper α × Except (Interruption ε α) (Report α)}
    (hlast : st.resume p st.config.exchanges st.config.exchanges
      { optimizer := Optimizer.start x₀ st.config st.bounds, x := x₀.toArray, f := 0,
        g := Array.replicate n 0 } state = (last, state')) :
    st.run p x₀.toArray state = (last.2.bind last.1.outcome, state') := by
  rcases hrequests : Session.answerRequests p st.config.exchanges
    { optimizer := Optimizer.start x₀ st.config st.bounds, x := x₀.toArray, f := 0,
      g := Array.replicate n 0 } st.calls state with ⟨⟨s, calls, result⟩, state''⟩
  have hinit : st.init p (some x₀.toArray) state =
      (({ st with session := some s, calls }, result.bind s.report), state'') := by
    rw [init_of_begin? p st x₀ h]
    exact bind_apply hrequests
  have hresume := (bind_apply hrequests).symm.trans hlast
  refine (bind_apply hinit).trans ?_
  cases hreport : result.bind s.report with
  | error e =>
    dsimp only at hresume
    rw [hreport] at hresume
    cases hresume
    rfl
  | ok report =>
    dsimp only at hresume
    rw [hreport] at hresume
    exact bind_apply hresume

/-- Where a run cannot begin, no step is made. -/
theorem run_of_begin?_eq_error (p : Problem σ ε α) (st : Stepper α) (x₀ : Vector α n)
    {e : Failure α} (h : Optimizer.begin? x₀ st.config st.bounds = .error e) (state : σ) :
    st.run p x₀.toArray state = (.error (.optimizer e), state) :=
  bind_apply (init_of_begin?_eq_error p st x₀ h state)

end Stepper

/-! ## Driven runs -/

namespace Optimizer

variable (callback : Callback σ ε α) (fuel : Nat) {o : Optimizer α n} {x : Array α} {f : α}
  {g : Array α} {state : σ}

/-- A driven run makes a series of calls. -/
theorem exists_after_driveFor (callback : Callback σ ε α) (fuel : Nat) (o : Optimizer α n)
    (x : Array α) (f : α) (g : Array α) (state : σ) :
    ∃ calls, (o.driveFor callback fuel x f g state).1.optimizer = o.after calls := by
  induction fuel generalizing o x f g state with
  | zero => exact ⟨[], rfl⟩
  | succ fuel ih =>
    have hon (f : α) (g : Array α) (state : σ) :
        ∃ calls, (o.driveOn callback fuel x f g state).1.optimizer = o.after calls := by
      unfold driveOn
      cases hiter : o.iterate x f g with
      | error e => exact ⟨[], rfl⟩
      | ok next =>
        obtain ⟨calls, hcalls⟩ := ih next.1 next.2 f g state
        refine ⟨⟨x, f, g⟩ :: calls, hcalls.trans ?_⟩
        have hexchange : o.exchange ⟨x, f, g⟩ = next := by rw [exchange, hiter]
        rw [← hexchange]
        rfl
    rcases o.task_cases with htask | htask | hterm
    · rcases hanswer : callback x g state with ⟨⟨answer, g'⟩, state'⟩
      cases answer with
      | error e =>
        rw [driveFor_of_problem _ fuel htask hanswer]
        exact ⟨[], rfl⟩
      | ok f' =>
        rw [driveFor_of_answer _ fuel htask hanswer]
        exact hon f' g' state'
    · rw [driveFor_of_newX _ fuel htask]
      exact hon f g state
    · rw [driveFor_of_isTerminal _ (fuel + 1) hterm]
      exact ⟨[], rfl⟩

/-- An open optimizer exchanges vectors of its dimension. -/
theorem exists_iterate_eq_ok (hopen : o.closed = false) (hx : x.size = n) (hg : g.size = n)
    (f : α) : ∃ o' x', o.iterate x f g = .ok (o', x') ∧ o'.closed = false ∧ x'.size = n := by
  unfold iterate
  cases hbody : o.body with
  | error e => exact ⟨o, x, by simp [hopen], hopen, hx⟩
  | ok s =>
    cases hterm : s.task.isTerminal with
    | true => exact ⟨o, x, by simp [hopen, hterm], hopen, hx⟩
    | false =>
      simp only [hopen, hterm, hx, hg, Bool.false_eq_true, if_false, dif_pos]
      exact ⟨_, _, rfl, rfl, Vector.size_toArray _⟩

/-- Driven by a callback whose gradients have the length of their points, an open
optimizer refuses nothing. -/
theorem driveFor_ne_optimizer {callback : Callback σ ε α}
    (hcallback : ∀ x g state f g' state', callback x g state = ((.ok f, g'), state') →
      g'.size = x.size)
    (fuel : Nat) (hopen : o.closed = false) (hx : x.size = n) (hg : o.task = .newX → g.size = n)
    (f : α) (state : σ) (e : Failure α) :
    (o.driveFor callback fuel x f g state).1.result ≠ .error (.optimizer e) := by
  induction fuel generalizing o x f g state with
  | zero =>
    intro h
    unfold driveFor at h
    split at h
    · cases h
    · cases h
  | succ fuel ih =>
    have hon (f : α) (g : Array α) (state : σ) (hg : g.size = n) :
        (o.driveOn callback fuel x f g state).1.result ≠ .error (.optimizer e) := by
      obtain ⟨o', x', hiter, hopen', hx'⟩ := exists_iterate_eq_ok hopen hx hg f
      unfold driveOn
      rw [hiter]
      exact ih hopen' hx' (fun _ => hg) f state
    rcases o.task_cases with htask | htask | hterm
    · rcases hanswer : callback x g state with ⟨⟨answer, g'⟩, state'⟩
      cases answer with
      | error e' =>
        rw [driveFor_of_problem _ fuel htask hanswer]
        intro h
        cases h
      | ok f' =>
        rw [driveFor_of_answer _ fuel htask hanswer]
        have hg' : g'.size = n := by rw [hcallback x g state f' g' state' hanswer, hx]
        exact hon f' g' state' hg'
    · rw [driveFor_of_newX _ fuel htask]
      exact hon f g state (hg htask)
    · rw [driveFor_of_isTerminal _ (fuel + 1) hterm]
      intro h
      cases h

end Optimizer

/-! ## The two ends -/

/-- The run has ended with a failure on record, or has never begun because of it. -/
def Driven.FailsWith (driven : Driven ε α n) (e : Failure α) : Prop :=
  (driven.result = .ok .inputError ∨ driven.result = .ok .error) ∧
    driven.optimizer.failure? = some e

/-- The run has ended at an accepted point. -/
def Driven.EndsAt (driven : Driven ε α n) (q : Point α n) : Prop :=
  (driven.result = .ok .finalX ∨ driven.result = .ok .warning) ∧
    driven.optimizer.accepted? = some q

/-- The outcome tells how the run has ended, and where. -/
structure Outcome.Describes (outcome : Outcome α) (driven : Driven ε α n) (q : Point α n) :
    Prop where
  task : driven.result = .ok outcome.task
  status : outcome.status = driven.optimizer.status
  iterations : outcome.iterations = driven.optimizer.iterations
  evaluations : outcome.evaluations = driven.optimizer.evaluations
  restarts : outcome.restarts = driven.optimizer.restarts
  x : outcome.x = q.x.toArray
  value : outcome.value = q.f
  converged : outcome.converged = true ↔ driven.result = .ok .finalX
  gradientNorm : outcome.gradientNorm = some (gradientLength q.g.toArray)

/-- What the end of a driven run and the result of a run made step by step have in
common. -/
structure Agree (driven : Driven ε α n) (result : Except (Interruption ε α) (Outcome α)) :
    Prop where
  /-- The problem fails for both, or an end is reached. -/
  ends : (∃ e, driven.result = .error (.problem e)) ∨ (∃ e, driven.FailsWith e) ∨
    ∃ q, driven.EndsAt q
  /-- A failure of the problem is the same for both. -/
  problem : ∀ e, driven.result = .error (.problem e) ↔ result = .error (.problem e)
  /-- Any other failure is the one on record, or says that the last point is not finite. -/
  failure : ∀ e, result = .error (.optimizer e) ↔
    driven.FailsWith e ∨ ∃ q, driven.EndsAt q ∧ checkStart q.x.toArray = .error e
  /-- A finite last point is described by the outcome. -/
  outcome : ∀ q, driven.EndsAt q → (∀ i (_ : i < n), isFinite q.x[i] = true) →
    ∃ outcome, result = .ok outcome ∧ outcome.Describes driven q
  /-- The steps do not go ahead of the beginning. -/
  begun : result ≠ .error notBegun

section Ends

variable {driven : Driven ε α n} {result : Except (Interruption ε α) (Outcome α)} {e : Failure α}
  {q : Point α n}

theorem Driven.FailsWith.ne_error (h : driven.FailsWith e) (i : Interruption ε α) :
    driven.result ≠ .error i := by
  intro hi
  rcases h with ⟨h | h, -⟩
  · rw [h] at hi
    cases hi
  · rw [h] at hi
    cases hi

/-- A run that ends at a point is not interrupted. -/
theorem Driven.EndsAt.ne_error (h : driven.EndsAt q) (i : Interruption ε α) :
    driven.result ≠ .error i := by
  intro hi
  rcases h with ⟨h | h, -⟩
  · rw [h] at hi
    cases hi
  · rw [h] at hi
    cases hi

/-- A run that fails does not end at a point. -/
theorem Driven.FailsWith.not_endsAt (h : driven.FailsWith e) : ¬ driven.EndsAt q := by
  rintro ⟨hq, -⟩
  rcases h with ⟨h | h, -⟩
  · rw [h] at hq
    rcases hq with hq | hq <;> cases hq
  · rw [h] at hq
    rcases hq with hq | hq <;> cases hq

/-- Two runs in which the problem fails in the same way. -/
theorem agree_of_problem {e : ε} (hdriven : driven.result = .error (.problem e))
    (hresult : result = .error (.problem e)) : Agree driven result where
  ends := .inl ⟨e, hdriven⟩
  problem := by
    intro e'
    rw [hdriven, hresult]
    constructor
    · intro h; cases h; rfl
    · intro h; cases h; rfl
  failure := by
    intro e'
    rw [hresult]
    constructor
    · intro h; cases h
    · rintro (h | ⟨q, h, -⟩)
      · exact absurd hdriven (h.ne_error _)
      · exact absurd hdriven (h.ne_error _)
  outcome := by
    intro q h
    exact absurd hdriven (h.ne_error _)
  begun := by
    rw [hresult]
    intro h
    cases h

/-- Two runs that end with a failure on record. -/
theorem agree_of_failure (hdriven : driven.FailsWith e) (he : e.isMisuse = false)
    (hresult : result = .error (.optimizer e)) : Agree driven result where
  ends := .inr (.inl ⟨e, hdriven⟩)
  problem := by
    intro e'
    rw [hresult]
    constructor
    · intro h; exact absurd h (hdriven.ne_error _)
    · intro h; cases h
  failure := by
    intro e'
    rw [hresult]
    constructor
    · intro h
      cases h
      exact .inl hdriven
    · rintro (⟨-, h⟩ | ⟨q, h, -⟩)
      · rw [hdriven.2] at h
        cases h
        rfl
      · exact absurd h hdriven.not_endsAt
  outcome := by
    intro q h
    exact absurd h hdriven.not_endsAt
  begun := by
    rw [hresult]
    intro h
    cases h
    cases he

/-- Two runs that end at the same point. -/
theorem agree_of_point (hn : 0 < n) (hdriven : driven.EndsAt q)
    (hfails : ∀ e, result = .error (.optimizer e) ↔ checkStart q.x.toArray = .error e)
    (hends : checkStart q.x.toArray = .ok () →
      ∃ outcome, result = .ok outcome ∧ outcome.Describes driven q) : Agree driven result where
  ends := .inr (.inr ⟨q, hdriven⟩)
  problem := by
    intro e
    constructor
    · intro h
      exact absurd h (hdriven.ne_error _)
    · intro h
      cases hcheck : checkStart q.x.toArray with
      | ok u =>
        obtain ⟨outcome, hresult, -⟩ := hends hcheck
        rw [hresult] at h
        cases h
      | error e' =>
        rw [(hfails e').mpr hcheck] at h
        cases h
  failure := by
    intro e
    rw [hfails e]
    constructor
    · intro h
      exact .inr ⟨q, hdriven, h⟩
    · rintro (h | ⟨q', h, hcheck⟩)
      · exact absurd hdriven h.not_endsAt
      · have hsame := h.2.symm.trans hdriven.2
        cases hsame
        exact hcheck
  outcome := by
    intro q' h hfinite
    have hsame := h.2.symm.trans hdriven.2
    cases hsame
    refine hends (checkStart_of_isFinite (by simpa using hn) ?_)
    intro v hv
    obtain ⟨i, hi, rfl⟩ := Array.getElem_of_mem hv
    exact hfinite i (by simpa using hi)
  begun := by
    intro h
    have hcheck := (hfails _).mp h
    have hmisuse := neverMisuse_checkStart q.x.toArray _ hcheck
    cases hmisuse

end Ends

/-! ## Reports and outcomes -/

section Reports

variable {s : Session α} {st : Stepper α} {task : Task}

/-- The report on a run that has failed is its failure. -/
theorem Session.report_of_failure (h : task = .error ∨ task = .inputError) {e : Failure α}
    (he : s.optimizer.failure? = some e) : s.report (ε := ε) task = .error (.optimizer e) := by
  unfold report
  rw [if_pos h, he]
  rfl

/-- The outcome of a run that has ended at a point fails as the check of the point does. -/
theorem Stepper.outcome_of_point (hst : st.session = some s) (h : task = .finalX ∨ task = .warning)
    (htask : s.optimizer.task = task) {q : Point α s.dimension}
    (hq : s.optimizer.accepted? = some q) (hf : isFinite q.f = true) :
    (s.report (ε := ε) task).bind st.outcome =
      match checkStart q.x.toArray with
      | .error e => .error (.optimizer e)
      | .ok _ => .ok
          { x := q.x.toArray, value := q.f, task, status := s.optimizer.status
            iterations := s.optimizer.iterations, evaluations := s.optimizer.evaluations
            restarts := s.optimizer.restarts, evaluationCounts := st.calls.toList
            gradientNorm := some (gradientLength q.g.toArray) } := by
  have hreport : ∃ halt, s.report (ε := ε) task =
      .ok { x := q.x.toArray, f := q.f, g := q.g.toArray, halt } := by
    unfold Session.report
    rw [hq]
    rcases h with rfl | rfl
    · exact ⟨_, rfl⟩
    · exact ⟨_, rfl⟩
  obtain ⟨halt, hreport⟩ := hreport
  rw [hreport]
  show st.outcome _ = _
  unfold outcome
  rw [hst]
  dsimp only
  unfold Outcome.ofRun
  have hvalue : checkValue q.f = .ok () := by rw [checkValue, if_pos hf]
  rw [hvalue, htask]
  dsimp only
  cases hcheck : checkStart q.x.toArray with
  | error e => rfl
  | ok u => rfl

end Reports

/-! ## From the start -/

section Start

variable {x₀ : Vector α n} {c : Config α} {bounds : Bounds α}

/-- The last point of a run has a finite value, and some components. -/
theorem Optimizer.isFinite_of_accepted?_after {calls : List (Call α)} {q : Point α n}
    (hq : ((start x₀ c bounds).after calls).accepted? = some q) : isFinite q.f = true ∧ 0 < n := by
  obtain ⟨earlier, call, later, -, -, s, hbody, htakes⟩ :=
    exists_takesUp_of_accepted? rfl (accepted?_start x₀ c bounds) calls hq
  refine ⟨htakes.isFinite.1, ?_⟩
  cases hbegin : (start x₀ c bounds).body with
  | error e =>
    rw [after_of_error hbegin, hbegin] at hbody
    cases hbody
  | ok s₀ =>
    obtain ⟨-, hstart, -⟩ := begin?_eq_ok hbegin
    refine Nat.pos_of_ne_zero ?_
    rintro rfl
    rw [checkStart, if_pos (by simp)] at hstart
    cases hstart

/-- A driven run that has ended, and the outcome of a stepper left with its optimizer. -/
theorem agree_of_isTerminal {driven : Driven ε α n} {task : Task}
    (hresult : driven.result = .ok task) (hterm : task.isTerminal = true)
    (htask : driven.optimizer.task = task) {calls : List (Call α)}
    (hcalls : driven.optimizer = (Optimizer.start x₀ c bounds).after calls) {st : Stepper α}
    {x g : Array α} {f : α} (hst : st.session = some { optimizer := driven.optimizer, x, f, g }) :
    Agree driven ((Session.report { optimizer := driven.optimizer, x, f, g } task).bind
      st.outcome) := by
  have hcases : (task = .error ∨ task = .inputError) ∨ task = .finalX ∨ task = .warning := by
    cases task with
    | error => exact .inl (.inl rfl)
    | inputError => exact .inl (.inr rfl)
    | finalX => exact .inr (.inl rfl)
    | warning => exact .inr (.inr rfl)
    | _ => cases hterm
  rcases hcases with hfails | hpoint
  · have hfails' : driven.optimizer.task = .error ∨ driven.optimizer.task = .inputError := by
      rw [htask]
      exact hfails
    obtain ⟨e, he⟩ := Optimizer.exists_failure? hfails'
    have hmisuse : e.isMisuse = false := by
      refine (Optimizer.reachable_after x₀ c bounds calls).isMisuse_failure? ?_
      rw [← hcalls]
      exact he
    rw [Session.report_of_failure hfails he]
    refine agree_of_failure ⟨?_, he⟩ hmisuse rfl
    rw [hresult]
    rcases hfails with rfl | rfl
    · exact .inr rfl
    · exact .inl rfl
  · have hpoint' : ((Optimizer.start x₀ c bounds).after calls).task = .finalX ∨
        ((Optimizer.start x₀ c bounds).after calls).task = .warning := by
      rw [← hcalls, htask]
      exact hpoint
    obtain ⟨q, hq⟩ := Optimizer.exists_accepted?_after hpoint'
    obtain ⟨hf, hn⟩ := Optimizer.isFinite_of_accepted?_after hq
    rw [← hcalls] at hq
    have hends : driven.EndsAt q := by
      refine ⟨?_, hq⟩
      rw [hresult]
      exact hpoint.imp (congrArg _) (congrArg _)
    rw [Stepper.outcome_of_point hst hpoint htask hq hf]
    refine agree_of_point hn hends ?_ ?_
    · intro e
      cases checkStart q.x.toArray with
      | error e' => exact ⟨fun h => by cases h; rfl, fun h => by cases h; rfl⟩
      | ok u => exact ⟨nofun, nofun⟩
    · intro hcheck
      rw [hcheck]
      refine ⟨_, rfl, hresult, rfl, rfl, rfl, rfl, rfl, rfl, ?_, rfl⟩
      rw [hresult]
      simp [Outcome.converged]

end Start

namespace Optimizer

variable [OrderedScalar α]

/-- A run that is driven from its starting point comes to an end. -/
theorem drive_ends (x₀ : Vector α n) (c : Config α) (bounds : Bounds α) (g₀ : Array α)
    (callback : Callback σ ε α) (state : σ) :
    ∃ driven state', (start x₀ c bounds).drive x₀.toArray g₀ callback state = (driven, state') ∧
      driven.result ≠ .error .stalled ∧
      ∀ task, driven.result = .ok task → task.isTerminal = true ∧ driven.optimizer.task = task := by
  obtain ⟨driven, state', count, hcounted, hend, -, htask⟩ :=
    completes_drive x₀ c bounds g₀ callback state
  obtain ⟨count', hagree⟩ :=
    driveFor_counted callback c.exchanges (start x₀ c bounds) x₀.toArray 0 g₀ state 0
  have heq : (_, (_, count')) = (driven, (state', count)) := hagree.symm.trans hcounted
  obtain ⟨hfst, hsnd⟩ := Prod.mk.inj heq
  refine ⟨driven, state', Prod.ext hfst (Prod.mk.inj hsnd).1, hend, ?_⟩
  intro task hresult
  obtain ⟨hterm, htask', -⟩ := htask task hresult
  exact ⟨hterm, htask'⟩

end Optimizer

namespace Stepper

variable [OrderedScalar α]

/-- **Two drivers agree.**  For a problem whose gradients have the length of their points,
the run driven by the problem as a callback and the run made step by step evaluate the
problem alike, which shows in the state that they leave, and come to the same end: the
same failure of the problem, the same failure of the optimizer, or the same last point,
which the outcome describes unless it is not finite. -/
theorem agree_run_drive (p : Problem σ ε α)
    (hp : ∀ x state g state', p.gradient x state = (.ok g, state') → g.size = x.size)
    (c : Config α) (bounds : Bounds α) (x₀ : Vector α n) (g₀ : Array α) (state : σ) :
    ∃ (driven : Driven ε α n) (result : Except (Interruption ε α) (Outcome α)) (state' : σ),
      (Optimizer.start x₀ c bounds).drive x₀.toArray g₀ p.callback state = (driven, state') ∧
      run p { config := c, bounds } x₀.toArray state = (result, state') ∧
      Agree driven result := by
  obtain ⟨driven, state', hdrive, hend, htask⟩ :=
    Optimizer.drive_ends x₀ c bounds g₀ p.callback state
  cases hbegin : (Optimizer.start x₀ c bounds).body with
  | error e =>
    have hstart : (Optimizer.start x₀ c bounds).task = .inputError := by
      rw [Optimizer.task, hbegin]
    have hended : (Optimizer.start x₀ c bounds).task.isTerminal = true := by
      rw [hstart]
      rfl
    rw [Optimizer.drive_of_isTerminal _ hended]
    refine ⟨_, _, state, rfl, run_of_begin?_eq_error p { config := c, bounds } x₀ hbegin state, ?_⟩
    refine agree_of_failure ⟨.inl ?_, ?_⟩ (neverMisuse_begin? x₀ c bounds e hbegin) rfl
    · rw [hstart]
    · rw [Optimizer.failure?, hbegin]
  | ok s₀ =>
    have hdriven : (Optimizer.start x₀ c bounds).driveFor p.callback c.exchanges x₀.toArray 0 g₀
        state = (driven, state') := hdrive
    -- an evaluation is asked for first, so what the loops begin with does not matter
    have hstart : (Optimizer.start x₀ c bounds).task ≠ .newX := by
      rw [Optimizer.task_of_body hbegin, Solver.task_of_opening (Optimizer.phase_of_begin? hbegin)]
      decide
    have hnot : ((Optimizer.start x₀ c bounds).driveFor p.callback c.exchanges x₀.toArray 0 g₀
        state).1.result ≠ .error .stalled := by
      rw [hdriven]
      exact hend
    obtain ⟨last, hlast, hends⟩ := endsLike_resume p c.exchanges c.exchanges
      { config := c, bounds } (Nat.le_refl c.exchanges) (Nat.le_refl _) (Nat.le_refl _) rfl
      (fun h => absurd h hstart) x₀.toArray state hnot
    rw [hdriven] at hlast hends
    refine ⟨driven, _, state', hdrive, run_of_begin? p { config := c, bounds } x₀ hbegin hlast, ?_⟩
    obtain ⟨st, stepped⟩ := last
    obtain ⟨x, f, g, counts, hends⟩ := hends
    obtain ⟨rfl, rfl⟩ := Prod.mk.inj hends
    cases hresult : driven.result with
    | error interruption =>
      cases interruption with
      | problem e => exact agree_of_problem hresult rfl
      | optimizer e =>
        have hnone := Optimizer.driveFor_ne_optimizer (p.size_of_callback hp) c.exchanges
          (o := Optimizer.start x₀ c bounds) rfl x₀.size_toArray (g := g₀)
          (fun h => absurd h hstart) 0 state e
        rw [hdriven] at hnone
        exact absurd hresult hnone
      | stalled => exact absurd hresult hend
    | ok task =>
      obtain ⟨hterm, htask⟩ := htask task hresult
      obtain ⟨calls, hcalls⟩ := Optimizer.exists_after_driveFor p.callback c.exchanges
        (Optimizer.start x₀ c bounds) x₀.toArray 0 g₀ state
      rw [hdriven] at hcalls
      exact agree_of_isTerminal hresult hterm htask hcalls rfl

/-- The sum of the squares of all variables, with the evaluations counted. -/
def countedSquares : Problem Nat Empty Float :=
  { cost := fun x count => (.ok (x.foldl (fun f x => f + x * x) 0), count + 1)
    gradient := fun x count => (.ok (x.map fun x => x + x), count + 1) }

/-- Double precision, where both drivers find the minimum with the same evaluations. -/
theorem countedSquares_agree :
    (∀ x state g state', countedSquares.gradient x state = (.ok g, state') → g.size = x.size) ∧
      ((Optimizer.start #v[3] {} {}).drive #[3] #[0] countedSquares.callback
        0).1.optimizer.task = .finalX ∧
      ∃ (driven : Driven Empty Float 1) (result : Except (Interruption Empty Float) (Outcome Float))
        (count : Nat),
        (Optimizer.start #v[3] {} {}).drive #[3] #[0] countedSquares.callback 0 =
          (driven, count) ∧
        run countedSquares { config := {}, bounds := {} } #[3] 0 = (result, count) ∧
        Agree driven result := by
  have hsize : ∀ x state g state', countedSquares.gradient x state = (.ok g, state') →
      g.size = x.size := by
    intro x state g state' h
    obtain ⟨hg, -⟩ := Prod.mk.inj h
    cases hg
    exact Array.size_map
  refine ⟨hsize, by decide +kernel, ?_⟩
  exact agree_run_drive countedSquares hsize {} {} #v[3] #[0] 0

end Stepper

end Descent
