/-
# Driven runs

A run that is driven by a callback comes to its end, and its callback is invoked
once for every evaluation and at most once more.

* `Callback.counted` : a callback that counts its invocations;
* `Optimizer.driveFor_of_not_stalled` : a run that ends is not changed by more fuel;
* `Optimizer.completes_driveFor` : how a driven run ends;
* `Optimizer.Reachable.counters` : the counters of an optimizer that can be reached.
-/
import Descent.Minimize.Drive
import Descent.Proofs.Binary.Laws
import Descent.Proofs.Budget

namespace Descent

open Scalar

variable {σ ε α : Type}

/-- The callback with a count of its invocations beside its state. -/
def Callback.counted (callback : Callback σ ε α) : Callback (σ × Nat) ε α :=
  fun x g (state, count) =>
    let (answer, state) := callback x g state
    (answer, (state, count + 1))

theorem Callback.counted_eq {callback : Callback σ ε α} {x g : Array α} {state state' : σ}
    {answer : Except ε α × Array α} (h : callback x g state = (answer, state')) (count : Nat) :
    callback.counted x g (state, count) = (answer, (state', count + 1)) := by
  rw [Callback.counted, h]

variable [Scalar α] {n : Nat}

namespace Optimizer

/-! ## One round of the loop -/

/-- What follows an exchange in a driven run. -/
def driveOn (callback : Callback σ ε α) (fuel : Nat) (o : Optimizer α n) (x : Array α) (f : α)
    (g : Array α) : StateM σ (Driven ε α n) :=
  match o.iterate x f g with
  | .error e => pure ⟨o, x, g, .error (.optimizer e)⟩
  | .ok (o, x) => driveFor callback fuel o x f g

section Rounds

variable (callback : Callback σ ε α) (fuel : Nat) {o : Optimizer α n} {x : Array α} {f : α}
  {g : Array α} {state : σ}

theorem driveFor_of_idle (hfg : o.task ≠ .computeFG) (hx : o.task ≠ .newX) :
    driveFor callback (fuel + 1) o x f g = pure ⟨o, x, g, .ok o.task⟩ := by
  rw [driveFor]
  split
  · next htask => exact absurd htask hfg
  · next htask => exact absurd htask hx
  · rfl

/-- A run that has ended is left as it is. -/
theorem driveFor_of_isTerminal (h : o.task.isTerminal = true) :
    driveFor callback fuel o x f g = pure ⟨o, x, g, .ok o.task⟩ := by
  cases fuel with
  | zero => rw [driveFor, if_pos h]
  | succ fuel =>
    refine driveFor_of_idle callback fuel ?_ ?_
    · intro htask; rw [htask] at h; cases h
    · intro htask; rw [htask] at h; cases h

/-- At an accepted point the run goes on without an evaluation. -/
theorem driveFor_of_newX (h : o.task = .newX) :
    driveFor callback (fuel + 1) o x f g = driveOn callback fuel o x f g := by
  rw [driveFor, h]
  rfl

/-- An evaluation that fails ends the run. -/
theorem driveFor_of_problem (h : o.task = .computeFG) {e : ε} {g' : Array α} {state' : σ}
    (hanswer : callback x g state = ((.error e, g'), state')) :
    driveFor callback (fuel + 1) o x f g state = (⟨o, x, g', .error (.problem e)⟩, state') := by
  rw [driveFor, h]
  show StateT.bind _ _ state = _
  rw [StateT.bind, hanswer]
  rfl

/-- An evaluation that succeeds is passed on. -/
theorem driveFor_of_answer (h : o.task = .computeFG) {f' : α} {g' : Array α} {state' : σ}
    (hanswer : callback x g state = ((.ok f', g'), state')) :
    driveFor callback (fuel + 1) o x f g state = driveOn callback fuel o x f' g' state' := by
  rw [driveFor, h]
  show StateT.bind _ _ state = _
  rw [StateT.bind, hanswer]
  rfl

end Rounds

/-! ## The number of invocations -/

/-- Counting the invocations changes nothing else. -/
theorem driveFor_counted (callback : Callback σ ε α) (fuel : Nat) (o : Optimizer α n)
    (x : Array α) (f : α) (g : Array α) (state : σ) (count : Nat) :
    ∃ count', driveFor callback.counted fuel o x f g (state, count) =
      ((driveFor callback fuel o x f g state).1,
        ((driveFor callback fuel o x f g state).2, count')) := by
  induction fuel generalizing o x f g state count with
  | zero => exact ⟨count, rfl⟩
  | succ fuel ih =>
    -- both runs make the same exchange, whatever has been counted before it
    have hon (f : α) (g : Array α) (state : σ) (count : Nat) :
        ∃ count', driveOn callback.counted fuel o x f g (state, count) =
          ((driveOn callback fuel o x f g state).1,
            ((driveOn callback fuel o x f g state).2, count')) := by
      unfold driveOn
      cases o.iterate x f g with
      | error e => exact ⟨count, rfl⟩
      | ok result => exact ih result.1 result.2 f g state count
    by_cases hfg : o.task = .computeFG
    · rcases hanswer : callback x g state with ⟨⟨answer, g'⟩, state'⟩
      cases answer with
      | error e =>
        rw [driveFor_of_problem _ fuel hfg (Callback.counted_eq hanswer count),
          driveFor_of_problem _ fuel hfg hanswer]
        exact ⟨count + 1, rfl⟩
      | ok f' =>
        rw [driveFor_of_answer _ fuel hfg (Callback.counted_eq hanswer count),
          driveFor_of_answer _ fuel hfg hanswer]
        exact hon f' g' state' (count + 1)
    · by_cases hx : o.task = .newX
      · rw [driveFor_of_newX _ fuel hx, driveFor_of_newX _ fuel hx]
        exact hon f g state count
      · rw [driveFor_of_idle _ fuel hfg hx, driveFor_of_idle _ fuel hfg hx]
        exact ⟨count, rfl⟩

/-! ## Enough fuel -/

/-- A run that comes to its end is not changed by more fuel. -/
theorem driveFor_of_not_stalled (callback : Callback σ ε α) {fuel fuel' : Nat}
    (hfuel : fuel ≤ fuel') (o : Optimizer α n) (x : Array α) (f : α) (g : Array α) (state : σ)
    (h : (driveFor callback fuel o x f g state).1.result ≠ .error .stalled) :
    driveFor callback fuel' o x f g state = driveFor callback fuel o x f g state := by
  -- induction on the smaller fuel: the last round is reached only at a terminal task
  induction fuel generalizing fuel' o x f g state with
  | zero =>
    by_cases hterm : o.task.isTerminal = true
    · rw [driveFor_of_isTerminal _ fuel' hterm, driveFor_of_isTerminal _ 0 hterm]
    · rw [driveFor, if_neg hterm] at h
      exact absurd rfl h
  | succ fuel ih =>
    obtain ⟨more, rfl⟩ : ∃ more, fuel' = more + 1 := ⟨fuel' - 1, by omega⟩
    have hmore : fuel ≤ more := by omega
    have hon (f : α) (g : Array α) (state : σ)
        (h : (driveOn callback fuel o x f g state).1.result ≠ .error .stalled) :
        driveOn callback more o x f g state = driveOn callback fuel o x f g state := by
      unfold driveOn at h ⊢
      cases hiter : o.iterate x f g with
      | error e => rfl
      | ok result =>
        rw [hiter] at h
        exact ih hmore result.1 result.2 f g state h
    by_cases hfg : o.task = .computeFG
    · rcases hanswer : callback x g state with ⟨⟨answer, g'⟩, state'⟩
      cases answer with
      | error e =>
        rw [driveFor_of_problem _ more hfg hanswer, driveFor_of_problem _ fuel hfg hanswer]
      | ok f' =>
        rw [driveFor_of_answer _ fuel hfg hanswer] at h
        rw [driveFor_of_answer _ more hfg hanswer, driveFor_of_answer _ fuel hfg hanswer]
        exact hon f' g' state' h
    · by_cases hx : o.task = .newX
      · rw [driveFor_of_newX _ fuel hx] at h
        rw [driveFor_of_newX _ more hx, driveFor_of_newX _ fuel hx]
        exact hon f g state h
      · rw [driveFor_of_idle _ more hfg hx, driveFor_of_idle _ fuel hfg hx]

/-- A run that has not ended asks for an evaluation or for leave. -/
theorem task_of_not_isTerminal {o : Optimizer α n} {s : Solver α n} (hbody : o.body = .ok s)
    (h : o.task.isTerminal = false) : o.task = .computeFG ∨ o.task = .newX := by
  rw [task_of_body hbody] at h ⊢
  cases hphase : s.phase with
  | opening => exact .inl (Solver.task_of_opening hphase)
  | searching trial => exact .inl (Solver.task_of_searching hphase)
  | accepted p => exact .inr (Solver.task_of_accepted hphase)
  | stopped last verdict =>
    rw [Solver.isTerminal_of_stopped hphase] at h
    cases h

/-! ## How a driven run ends -/

/-- What is true at the end of a run driven from a state, a point and a number of
invocations: the callback was invoked as often as the budget allows, and at a
terminal task once for every evaluation and for the detour. -/
structure Completes (o : Optimizer α n) (s : Solver α n) (x : Vector α n) (count : Nat)
    (driven : Driven ε α n) (count' : Nat) : Prop where
  /-- The run has come to its end. -/
  not_stalled : driven.result ≠ .error .stalled
  /-- The number of invocations is bounded. -/
  count_le : count' ≤ count + (max 1 o.config.maxEvaluations - s.evaluations) + s.detour x
  /-- At a terminal task the number of invocations is known. -/
  count_eq : ∀ task, driven.result = .ok task → task.isTerminal = true ∧
    driven.optimizer.task = task ∧
    count' + s.evaluations = count + driven.optimizer.evaluations + s.detour x

/-- A run that has ended is complete. -/
theorem completes_of_isTerminal {o : Optimizer α n} {s : Solver α n} (hbody : o.body = .ok s)
    (h : o.task.isTerminal = true) (x : Vector α n) (g : Array α) (count : Nat) :
    o.Completes s x count (⟨o, x.toArray, g, .ok o.task⟩ : Driven ε α n) count where
  not_stalled := by
    intro h
    cases h
  count_le := by omega
  count_eq := by
    intro task htask
    cases htask
    have hphase : s.phase ≠ .opening := by
      rw [task_of_body hbody] at h
      exact Solver.ne_opening_of_isTerminal h
    rw [evaluations_of_body hbody, Solver.detour_eq_zero hphase x]
    exact ⟨h, rfl, rfl⟩

/-- An interrupted run is complete if the budget covers its invocations. -/
theorem completes_of_interruption {o : Optimizer α n} {s : Solver α n} {x : Vector α n}
    {driven : Driven ε α n} {e : Interruption ε α} {count count' : Nat}
    (h : driven.result = .error e) (he : e ≠ .stalled)
    (hcount : count' ≤ count + (max 1 o.config.maxEvaluations - s.evaluations) + s.detour x) :
    o.Completes s x count driven count' where
  not_stalled := by
    intro hstalled
    rw [h] at hstalled
    cases hstalled
    exact he rfl
  count_le := hcount
  count_eq := by
    intro task htask
    rw [h] at htask
    cases htask

variable [OrderedScalar α]

/-- A run completes after an exchange if it completes from there on. -/
theorem Completes.of_transition {o : Optimizer α n} {s s' : Solver α n} {x x' g : Vector α n}
    {f : α} (htrans : Solver.Transition o.config s x f g s' x') (hs : s.Driveable o.config x)
    (hrunning : s.task.isTerminal = false) {count count' : Nat} {driven : Driven ε α n}
    (h : (o.proceed s').Completes s' x' (count + if s.task = .computeFG then 1 else 0) driven
      count') : o.Completes s x count driven count' := by
  have hcount := htrans.evaluations_add_detour hrunning
  have hdetour := htrans.detour_eq_zero hs
  have hevals := hs.budget.evaluations
  have hevals' := (htrans.withinBudget hs.budget).evaluations
  refine ⟨h.not_stalled, ?_, ?_⟩
  · have hle := h.count_le
    rw [config_proceed] at hle
    omega
  · intro task htask
    obtain ⟨hterm, heq, hcounts⟩ := h.count_eq task htask
    exact ⟨hterm, heq, by omega⟩

/-- Every run whose exchanges left are covered by the fuel completes. -/
def CompletesWithin (callback : Callback σ ε α) (n fuel : Nat) : Prop :=
  ∀ (o : Optimizer α n) (s : Solver α n) (x : Vector α n), o.body = .ok s →
    s.Driveable o.config x → s.exchangesLeft o.config x ≤ fuel →
    ∀ (f : α) (g : Array α) (state : σ) (count : Nat),
      ∃ driven state' count', driveFor callback.counted fuel o x.toArray f g (state, count) =
          (driven, (state', count')) ∧ o.Completes s x count driven count'

/-- A run completes after an exchange, which follows an invocation if one was asked for,
if every run completes with the fuel that is left. -/
theorem completes_driveOn {callback : Callback σ ε α} {fuel : Nat}
    (h : CompletesWithin callback n fuel) {o : Optimizer α n} {s : Solver α n} {x : Vector α n}
    (hbody : o.body = .ok s) (hs : s.Driveable o.config x)
    (hfuel : s.exchangesLeft o.config x ≤ fuel + 1) (hrunning : s.task.isTerminal = false)
    (hafford : (if s.task = .computeFG then 1 else 0) ≤
      max 1 o.config.maxEvaluations - s.evaluations)
    (f : α) (g : Array α) (state : σ) (count : Nat) :
    ∃ driven state' count', driveOn callback.counted fuel o x.toArray f g
        (state, count + if s.task = .computeFG then 1 else 0) = (driven, (state', count')) ∧
      o.Completes s x count driven count' := by
  unfold driveOn
  cases hiter : o.iterate x.toArray f g with
  | error e =>
    refine ⟨_, state, _, rfl, completes_of_interruption rfl ?_ ?_⟩
    · intro h
      cases h
    · omega
  | ok result =>
    obtain ⟨o', x'⟩ := result
    rcases iterate_eq_ok hiter with
      ⟨hended, -⟩ | ⟨s₀, s', xs, gs, xs', -, hbody', -, hxs, -, rfl, rfl, htrans⟩
    · rw [task_of_body hbody, hrunning] at hended
      cases hended
    · rw [hbody] at hbody'
      cases hbody'
      rw [Vector.toArray_inj] at hxs
      subst hxs
      have hlt := htrans.exchangesLeft_lt hs hrunning
      have hleft : s'.exchangesLeft (o.proceed s').config xs' ≤ fuel := by
        rw [config_proceed]
        omega
      obtain ⟨driven, state', count', hdrive, hdone⟩ :=
        h (o.proceed s') s' xs' (o.body_proceed s') (htrans.driveable hs) hleft f g state
          (count + if s.task = .computeFG then 1 else 0)
      exact ⟨driven, state', count', hdrive, .of_transition htrans hs hrunning hdone⟩

/-- A run completes with any fuel that covers the exchanges left. -/
theorem completes_driveFor (callback : Callback σ ε α) (fuel : Nat) :
    CompletesWithin callback n fuel := by
  -- every exchange uses one unit of fuel and lowers the number of exchanges left
  induction fuel with
  | zero =>
    intro o s x hbody hs hfuel f g state count
    have hterm := Solver.isTerminal_of_exchangesLeft hs.budget (Nat.le_zero.mp hfuel)
    rw [← task_of_body hbody] at hterm
    rw [driveFor_of_isTerminal _ 0 hterm]
    exact ⟨_, state, count, rfl, completes_of_isTerminal hbody hterm x g count⟩
  | succ fuel ih =>
    intro o s x hbody hs hfuel f g state count
    by_cases hterm : o.task.isTerminal = true
    · rw [driveFor_of_isTerminal _ (fuel + 1) hterm]
      exact ⟨_, state, count, rfl, completes_of_isTerminal hbody hterm x g count⟩
    have hrunning : s.task.isTerminal = false := by
      rw [← task_of_body hbody]
      simpa using hterm
    have hafford : (if s.task = .computeFG then 1 else 0) ≤
        max 1 o.config.maxEvaluations - s.evaluations := by
      split
      · next hasked =>
        have hlt := hs.budget.evaluations_lt hasked
        omega
      · omega
    have hon := completes_driveOn ih hbody hs hfuel hrunning hafford
    by_cases hfg : o.task = .computeFG
    · have hasked : s.task = .computeFG := by rw [← task_of_body hbody, hfg]
      rw [if_pos hasked] at hon hafford
      rcases hanswer : callback x.toArray g state with ⟨⟨answer, g'⟩, state'⟩
      cases answer with
      | error e =>
        rw [driveFor_of_problem _ fuel hfg (Callback.counted_eq hanswer count)]
        refine ⟨_, state', count + 1, rfl, completes_of_interruption rfl ?_ ?_⟩
        · intro h
          cases h
        · omega
      | ok f' =>
        rw [driveFor_of_answer _ fuel hfg (Callback.counted_eq hanswer count)]
        exact hon f' g' state' count
    · have hasked : s.task ≠ .computeFG := by
        rw [← task_of_body hbody]
        exact hfg
      rw [if_neg hasked] at hon
      have hx := (task_of_not_isTerminal hbody (by simpa using hterm)).resolve_left hfg
      rw [driveFor_of_newX _ fuel hx]
      exact hon f g state count

/-! ## From the start -/

omit [OrderedScalar α] in
/-- Every run that can be reached is within its budgets. -/
theorem Reachable.withinBudget {x₀ : Vector α n} {c : Config α} {bounds : Bounds α}
    {o : Optimizer α n} (h : Reachable x₀ c bounds o) {s : Solver α n} (hs : o.body = .ok s) :
    s.WithinBudget c := by
  refine h.invariant ?_ ?_ hs
  · intro s hbegin
    obtain ⟨-, -, box, -, -, rfl⟩ := begin?_eq_ok hbegin
    exact Solver.withinBudget_initial c box
  · intro s x f g s' x' htrans
    exact htrans.withinBudget

/-- A run begins driveable from its starting point. -/
theorem driveable_of_begin? {x₀ : Vector α n} {c : Config α} {bounds : Bounds α} {s : Solver α n}
    (h : begin? x₀ c bounds = .ok s) : s.Driveable c x₀ := by
  refine ⟨valid_of_begin? h, ?_, fun _ => isNaN_of_begin? h⟩
  obtain ⟨-, -, box, -, -, rfl⟩ := begin?_eq_ok h
  exact Solver.withinBudget_initial c box

/-- The run begins, and outside its box. -/
def opensOutside (o : Optimizer α n) (x : Vector α n) : Bool :=
  o.solver?.any fun s => !s.box.contains x

omit [OrderedScalar α] in
/-- A run takes a detour if it begins outside its box. -/
theorem detour_of_begin? {x₀ : Vector α n} {c : Config α} {bounds : Bounds α} {s : Solver α n}
    (h : begin? x₀ c bounds = .ok s) :
    s.detour x₀ = if (start x₀ c bounds).opensOutside x₀ then 1 else 0 := by
  have hopening : s.phase = .opening := phase_of_begin? h
  have hbody : (start x₀ c bounds).body = .ok s := h
  cases hx : s.box.contains x₀ with
  | true => simp [Solver.detour, hopening, opensOutside, solver?, hbody, hx]
  | false => simp [Solver.detour, hopening, opensOutside, solver?, hbody, hx]

/-- A run that is driven from its starting point, with its invocations counted. -/
theorem completes_drive (x₀ : Vector α n) (c : Config α) (bounds : Bounds α) (g₀ : Array α)
    (callback : Callback σ ε α) (state : σ) :
    ∃ driven state' count,
      (start x₀ c bounds).drive x₀.toArray g₀ callback.counted (state, 0) =
        (driven, (state', count)) ∧
      driven.result ≠ .error .stalled ∧
      count ≤ max 1 c.maxEvaluations + 1 ∧
      ∀ task, driven.result = .ok task → task.isTerminal = true ∧ driven.optimizer.task = task ∧
        count = driven.optimizer.evaluations +
          if (start x₀ c bounds).opensOutside x₀ then 1 else 0 := by
  cases hbody : (start x₀ c bounds).body with
  | error e =>
    have hterm : (start x₀ c bounds).task.isTerminal = true := by
      rw [task, hbody]
      rfl
    rw [drive_of_isTerminal _ hterm]
    refine ⟨_, state, 0, rfl, ?_, by omega, ?_⟩
    · intro h
      cases h
    · intro task htask
      cases htask
      refine ⟨hterm, rfl, ?_⟩
      simp [evaluations, opensOutside, solver?, hbody]
  | ok s =>
    have hs : s.Driveable c x₀ := driveable_of_begin? hbody
    have hopening : s.phase = .opening := phase_of_begin? hbody
    have hev : s.evaluations = 0 := (hs.budget.opening hopening).1
    have hdetour := detour_of_begin? hbody
    have hle : s.detour x₀ ≤ 1 := by
      rw [hdetour]
      split <;> omega
    have hfuel : s.exchangesLeft c x₀ ≤ c.exchanges := by
      rw [Solver.exchangesLeft_of_opening hopening, Config.exchanges]
      omega
    obtain ⟨driven, state', count, hdrive, hdone⟩ :=
      completes_driveFor callback c.exchanges _ s x₀ hbody hs hfuel 0 g₀ state 0
    have hcount : count ≤ 0 + (max 1 c.maxEvaluations - s.evaluations) + s.detour x₀ :=
      hdone.count_le
    refine ⟨driven, state', count, hdrive, hdone.not_stalled, by omega, ?_⟩
    intro task htask
    obtain ⟨hterm, heq, hcounts⟩ := hdone.count_eq task htask
    exact ⟨hterm, heq, by omega⟩

omit [OrderedScalar α] in
/-- The counters of an optimizer that can be reached. -/
theorem Reachable.counters {x₀ : Vector α n} {c : Config α} {bounds : Bounds α}
    {o : Optimizer α n} (h : Reachable x₀ c bounds o) :
    o.evaluations ≤ max 1 c.maxEvaluations ∧ o.iterations ≤ c.maxIterations ∧
      ∀ s p, o.body = .ok s → s.accepted? = some p → o.iterations < o.evaluations := by
  cases hbody : o.body with
  | error e =>
    refine ⟨?_, ?_, ?_⟩
    · simp [evaluations, solver?, hbody]
    · simp [iterations, solver?, hbody]
    · intro s p hbody'
      cases hbody'
  | ok s =>
    have hs := h.withinBudget hbody
    rw [evaluations_of_body hbody, iterations_of_body hbody]
    refine ⟨hs.evaluations, hs.iterations, ?_⟩
    intro s' p hbody' hp
    cases hbody'
    exact hs.accepted p hp

/-- **Driven runs end within their budgets.**  Driven from its starting point, a run
comes to its end with any fuel from `Config.exchanges` on, and always to the same
one; its callback is invoked at most once more than there are evaluations in the
budget, and if the task at the end is terminal, once for every evaluation and once
more if the starting point lies outside the box.  Whatever calls are made, the counters
stay within the budgets, and there are more evaluations than iterations once a point is
accepted. -/
theorem drive_within_budgets (x₀ : Vector α n) (c : Config α) (bounds : Bounds α)
    (g₀ : Array α) (callback : Callback σ ε α) (state : σ) :
    (∃ driven state' count,
      (start x₀ c bounds).drive x₀.toArray g₀ callback state = (driven, state') ∧
      (start x₀ c bounds).drive x₀.toArray g₀ callback.counted (state, 0) =
        (driven, (state', count)) ∧
      (∀ fuel, c.exchanges ≤ fuel →
        driveFor callback fuel (start x₀ c bounds) x₀.toArray 0 g₀ state = (driven, state')) ∧
      driven.result ≠ .error .stalled ∧
      count ≤ max 1 c.maxEvaluations + 1 ∧
      ∀ task, driven.result = .ok task → task.isTerminal = true ∧ driven.optimizer.task = task ∧
        count = driven.optimizer.evaluations +
          if (start x₀ c bounds).opensOutside x₀ then 1 else 0) ∧
    ∀ o, Reachable x₀ c bounds o →
      o.evaluations ≤ max 1 c.maxEvaluations ∧ o.iterations ≤ c.maxIterations ∧
      ∀ s p, o.body = .ok s → s.accepted? = some p → o.iterations < o.evaluations := by
  refine ⟨?_, fun o h => h.counters⟩
  obtain ⟨driven, state', count, hcounted, hend⟩ := completes_drive x₀ c bounds g₀ callback state
  obtain ⟨count', hagree⟩ :=
    driveFor_counted callback c.exchanges (start x₀ c bounds) x₀.toArray 0 g₀ state 0
  have hdrive : (start x₀ c bounds).drive x₀.toArray g₀ callback state = (driven, state') := by
    have heq : (_, (_, count')) = (driven, (state', count)) := hagree.symm.trans hcounted
    obtain ⟨hfst, hsnd⟩ := Prod.mk.inj heq
    exact Prod.ext hfst (Prod.mk.inj hsnd).1
  refine ⟨driven, state', count, hdrive, hcounted, ?_, hend⟩
  intro fuel hfuel
  have hnot : (driveFor callback c.exchanges (start x₀ c bounds) x₀.toArray 0 g₀
      state).1.result ≠ .error .stalled := by
    show ((start x₀ c bounds).drive x₀.toArray g₀ callback state).1.result ≠ _
    rw [hdrive]
    exact hend.1
  rw [driveFor_of_not_stalled callback hfuel _ _ _ _ _ hnot]
  exact hdrive

/-- The sum of the squares of all variables. -/
def sumOfSquares : Callback Unit Empty Float := fun x _ =>
  pure (.ok (x.foldl (fun f x => f + x * x) 0), x.map fun x => x + x)

/-- A budget of two evaluations between bounds. -/
def twoEvaluations : Config Float :=
  { algorithm := .variableMetric, metric := .blmvm, maxEvaluations := 2 }

/-- Double precision, from outside the box, with a budget of two evaluations. -/
theorem sumOfSquares_within_budgets :
    (start #v[3] twoEvaluations ⟨.uniform 0.5, .uniform 1⟩).opensOutside #v[3] = true ∧
      ∃ driven count,
        (start #v[3] twoEvaluations ⟨.uniform 0.5, .uniform 1⟩).drive #[3] #[0]
          sumOfSquares.counted ((), 0) = (driven, ((), count)) ∧
        driven.result ≠ .error .stalled ∧ count ≤ 3 := by
  constructor
  · decide +kernel
  · obtain ⟨⟨driven, _, count, -, hdrive, -, hend, hcount, -⟩, -⟩ :=
      drive_within_budgets #v[3] twoEvaluations ⟨.uniform 0.5, .uniform 1⟩ #[0] sumOfSquares ()
    exact ⟨driven, count, hdrive, hend, hcount⟩

end Optimizer

end Descent
