/-
# The protocol of the task machine

What a caller can rely on between any two calls, whatever the input was and whatever was
called before.  The refusals that guard the machine against its own fields contradicting
one another never happen, and a refused call is as good as none.

* `Task.successors` : the tasks that can follow;
* `Action`, `Machine.perform` : calls and closing, in any order;
* `Machine.represents_perform` : the optimizer after the same actions;
* `Machine.Refuses` : the refusals that do happen;
* `Machine.keeps_protocol` : the protocol.
-/
import Descent.Proofs.Representation

namespace Descent

open Scalar

variable {α : Type} [Scalar α] {n : Nat}

/-! ## Tasks that follow one another -/

/-- The tasks that can follow a task. -/
def Task.successors : Task → List Task
  | .computeFG => [.computeFG, .newX, .finalX, .warning, .error]
  | .newX => [.computeFG, .warning, .error]
  | .start | .finalX | .warning | .error | .inputError => []

theorem Task.successors_of_isTerminal {task : Task} (h : task.isTerminal = true) :
    task.successors = [] := by
  cases task <;> first | rfl | cases h

omit [Scalar α] in
/-- Every phase leaves a task that can follow a request for an evaluation. -/
theorem Phase.task_mem_successors (phase : Phase α n) :
    phase.task ∈ Task.computeFG.successors := by
  cases phase with
  | stopped last verdict =>
    show verdict.task ∈ _
    cases verdict <;> simp [Verdict.task, Task.successors]
  | _ => simp [Phase.task, Task.successors]

/-- A transition of a run that goes on leads to a task that can follow. -/
theorem Solver.Transition.task_mem_successors {c : Config α} {s s' : Solver α n}
    {x x' : Vector α n} {f : α} {g : Vector α n} (h : Transition c s x f g s' x')
    (hrunning : s.task.isTerminal = false) : s'.task ∈ s.task.successors := by
  have hfg (htask : s.task = .computeFG) : s'.task ∈ s.task.successors := by
    rw [htask]
    exact s'.phase.task_mem_successors
  cases h with
  | project hs hx => exact hfg (task_of_opening hs)
  | flawAtFirst flaw hs hx hflaw => exact hfg (task_of_opening hs)
  | first hs hx hflaw => exact hfg (task_of_opening hs)
  | flawAtTrial trial flaw hs hflaw => exact hfg (task_of_searching hs)
  | spentAtTrial trial run hs hflaw hanswer hspent => exact hfg (task_of_searching hs)
  | retry trial run hs hflaw hanswer hleft => exact hfg (task_of_searching hs)
  | step trial remark hs hflaw hanswer => exact hfg (task_of_searching hs)
  | searchFailed trial step reason hs hflaw hanswer => exact hfg (task_of_searching hs)
  | notDescent p hs hslope =>
    rw [task_of_accepted hs]
    show Task.error ∈ _
    decide
  | spentAtPoint p hs hslope hspent =>
    rw [task_of_accepted hs]
    show Task.warning ∈ _
    decide
  | refused p range refusal hs hslope hleft hrange hstart =>
    rw [task_of_accepted hs]
    show (Verdict.ofRefusal refusal).task ∈ _
    cases refusal <;> simp [Verdict.ofRefusal, Verdict.task, Task.successors]
  | search p range run hs hslope hleft hrange hstart =>
    rw [task_of_accepted hs]
    show Task.computeFG ∈ _
    decide
  | idle last verdict hs =>
    rw [isTerminal_of_stopped hs] at hrunning
    cases hrunning

/-! ## Actions -/

/-- What a caller can do. -/
inductive Action (α : Type) where
  /-- A call. -/
  | call (call : Call α)
  /-- The end of all calls. -/
  | close

/-- The optimizer after a series of actions. -/
def Optimizer.perform (o : Optimizer α n) : List (Action α) → Optimizer α n
  | [] => o
  | .call call :: rest => (o.exchange call).1.perform rest
  | .close :: rest => o.close.perform rest

/-- Actions lead from a reachable optimizer to reachable ones. -/
theorem Optimizer.Reachable.perform {x₀ : Vector α n} {c : Config α} {bounds : Bounds α}
    {o : Optimizer α n} (h : Reachable x₀ c bounds o) (actions : List (Action α)) :
    Reachable x₀ c bounds (o.perform actions) := by
  induction actions generalizing o with
  | nil => exact h
  | cons action rest ih =>
    cases action with
    | call call => exact ih (h.exchange call)
    | close => exact ih h.close

namespace Machine

/-- The machine after a series of actions. -/
def perform (m : Machine α n) : List (Action α) → Machine α n
  | [] => m
  | .call call :: rest => (m.iterate call.x call.f call.g).2.1.perform rest
  | .close :: rest => m.close.perform rest

/-- What the calls of a series give back. -/
def replies (m : Machine α n) : List (Action α) → List (Except (Failure α) Task × Array α)
  | [] => []
  | .call call :: rest =>
    let (result, m', x') := m.iterate call.x call.f call.g
    (result, x') :: m'.replies rest
  | .close :: rest => m.close.replies rest

/-- One series of actions after another. -/
theorem perform_append (m : Machine α n) (before later : List (Action α)) :
    m.perform (before ++ later) = (m.perform before).perform later := by
  induction before generalizing m with
  | nil => rfl
  | cons action rest ih =>
    cases action with
    | call call => exact ih _
    | close => exact ih _

/-- What two series give back, one after the other. -/
theorem replies_append (m : Machine α n) (before later : List (Action α)) :
    m.replies (before ++ later) = m.replies before ++ (m.perform before).replies later := by
  induction before generalizing m with
  | nil => rfl
  | cons action rest ih =>
    cases action with
    | call call => exact congrArg (_ :: ·) (ih _)
    | close => exact ih _

variable {m : Machine α n} {o : Optimizer α n}

/-- A call keeps what relates the machine to the optimizer. -/
theorem Represents.exchange (h : m.Represents o) (call : Call α) :
    (m.iterate call.x call.f call.g).2.1.Represents (o.exchange call).1 := by
  unfold Optimizer.exchange
  rcases h.iterate call.x call.f call.g with ⟨e, ho, hm⟩ | ⟨o', m', x', ho, hm, hrepresents⟩
  · rw [ho, hm]
    exact h
  · rw [ho, hm]
    exact hrepresents

/-- Actions keep it. -/
theorem Represents.perform (h : m.Represents o) (actions : List (Action α)) :
    (m.perform actions).Represents (o.perform actions) := by
  induction actions generalizing m o with
  | nil => exact h
  | cons action rest ih =>
    cases action with
    | call call => exact ih (h.exchange call)
    | close => exact ih h.close

/-- **Machines are optimizers.**  After any series of actions the machine shows what the
optimizer does after the same actions. -/
theorem represents_perform (x₀ : Vector α n) (c : Config α) (bounds : Bounds α)
    (actions : List (Action α)) :
    ((start x₀ c bounds).perform actions).Represents
      ((Optimizer.start x₀ c bounds).perform actions) :=
  (represents_start x₀ c bounds).perform actions

/-! ## Between two calls -/

/-- A machine has begun. -/
theorem Represents.task_ne_start (h : m.Represents o) : m.task ≠ .start := by
  intro hstart
  rw [h.task] at hstart
  obtain ⟨s, hbody⟩ := o.exists_body_of_isTerminal (by rw [hstart]; rfl)
  have hmem := s.phase.task_mem_successors
  rw [Optimizer.task_of_body hbody] at hstart
  rw [show s.phase.task = .start from hstart] at hmem
  revert hmem
  decide

/-- A machine in a run that goes on has what its task needs. -/
theorem Represents.exists_workspace (h : m.Represents o) (hopen : m.closed = false)
    (hrunning : m.task.isTerminal = false) :
    ∃ w, m.workspace? = some w ∧
      (m.task = .computeFG ∧ (w.stage = .initial ∨ w.stage = .search) ∨
        m.task = .newX ∧ w.stage = .accepted) := by
  rw [h.closed] at hopen
  rw [h.task] at hrunning ⊢
  obtain ⟨s, hbody⟩ := o.exists_body_of_isTerminal hrunning
  rw [Optimizer.task_of_body hbody] at hrunning ⊢
  obtain ⟨w, hw, hholds⟩ := h.holds s hopen hbody
  have hphase := hholds.phase
  refine ⟨w, hw, ?_⟩
  cases hs : s.phase with
  | opening =>
    rw [hs] at hphase
    exact .inl ⟨Solver.task_of_opening hs, .inl hphase⟩
  | searching trial =>
    rw [hs] at hphase
    exact .inl ⟨Solver.task_of_searching hs, .inr hphase.1⟩
  | accepted p =>
    rw [hs] at hphase
    exact .inr ⟨Solver.task_of_accepted hs, hphase.1⟩
  | stopped last verdict =>
    rw [Solver.isTerminal_of_stopped hs] at hrunning
    cases hrunning

/-! ## One call -/

/-- The reasons for which a call with a point and a gradient is refused. -/
inductive Refuses (m : Machine α n) (x g : Array α) : Failure α → Prop
  /-- The machine has been closed. -/
  | closed (hclosed : m.closed = true) : Refuses m x g .usedAfterClose
  /-- The point has the wrong length. -/
  | point (hopen : m.closed = false) (hrunning : m.task.isTerminal = false) (hx : x.size ≠ n) :
    Refuses m x g (.dimensionMismatch "x" n x.size)
  /-- The point is right, and the gradient has the wrong length. -/
  | gradient (hopen : m.closed = false) (hrunning : m.task.isTerminal = false) (hx : x.size = n)
      (hg : g.size ≠ n) :
    Refuses m x g (.dimensionMismatch "gradient" n g.size)

/-- A call that is refused changes nothing. -/
theorem Refuses.iterate_eq {x g : Array α} {e : Failure α} (h : m.Refuses x g e) (f : α) :
    m.iterate x f g = (.error e, m, x) := by
  cases h with
  | closed hclosed => exact iterate_of_closed hclosed x f g
  | point hopen hrunning hx => exact iterate_of_size_x hopen hrunning hx f g
  | gradient hopen hrunning hx hg => exact iterate_of_size_gradient hopen hrunning hx hg f

/-- A call is refused, or it comes after the end of the run, or it is a transition to a
task that can follow. -/
theorem Represents.iterate_cases (h : m.Represents o) (x : Array α) (f : α) (g : Array α) :
    (∃ e, m.Refuses x g e) ∨
      (m.task.isTerminal = true ∧ m.iterate x f g = (.ok m.task, m, x)) ∨
      ∃ m' x', m.iterate x f g = (.ok m'.task, m', x') ∧ m'.task ∈ m.task.successors := by
  cases hclosed : m.closed with
  | true => exact .inl ⟨_, .closed hclosed⟩
  | false =>
    cases hterm : m.task.isTerminal with
    | true => exact .inr (.inl ⟨rfl, iterate_of_isTerminal hclosed hterm x f g⟩)
    | false =>
      by_cases hx : x.size = n
      · by_cases hg : g.size = n
        · right
          right
          have hoclosed : o.closed = false := by rw [← h.closed, hclosed]
          have hoterm : o.task.isTerminal = false := by rw [← h.task, hterm]
          obtain ⟨s, hbody⟩ := o.exists_body_of_isTerminal hoterm
          have hrunning : s.task.isTerminal = false := by
            rw [← Optimizer.task_of_body hbody, hoterm]
          have hiter := Optimizer.iterate_of_running hoclosed hbody hrunning ⟨x, hx⟩ f ⟨g, hg⟩
          rcases h.iterate x f g with ⟨e, ho, -⟩ | ⟨o', m', x', ho, hm, hrepresents⟩
          · rw [hiter] at ho
            cases ho
          · refine ⟨m', x', ?_, ?_⟩
            · rw [hm, hrepresents.task]
            · rw [hiter] at ho
              cases ho
              rw [hrepresents.task, h.task, Optimizer.task_proceed, Optimizer.task_of_body hbody]
              exact (Solver.transition_advance o.config s ⟨x, hx⟩ f ⟨g, hg⟩).task_mem_successors
                hrunning
        · exact .inl ⟨_, .gradient hclosed hterm hx hg⟩
      · exact .inl ⟨_, .point hclosed hterm hx⟩

/-- The failures that calls return are the refusals. -/
theorem Represents.iterate_eq_error_iff (h : m.Represents o) (x : Array α) (f : α) (g : Array α)
    (e : Failure α) : (m.iterate x f g).1 = .error e ↔ m.Refuses x g e := by
  constructor
  · intro herror
    rcases h.iterate_cases x f g with ⟨e', hrefuses⟩ | ⟨-, hiter⟩ | ⟨m', x', hiter, -⟩
    · rw [hrefuses.iterate_eq f] at herror
      cases herror
      exact hrefuses
    · rw [hiter] at herror
      cases herror
    · rw [hiter] at herror
      cases herror
  · intro hrefuses
    rw [hrefuses.iterate_eq f]

/-- A call that is refused, or that comes after the end of the run, changes nothing. -/
theorem Represents.iterate_unchanged (h : m.Represents o) {x : Array α} {f : α} {g : Array α}
    (hcall : (∃ e, (m.iterate x f g).1 = .error e) ∨ m.task.isTerminal = true) :
    (m.iterate x f g).2 = (m, x) := by
  rcases h.iterate_cases x f g with ⟨e, hrefuses⟩ | ⟨-, hiter⟩ | ⟨m', x', hiter, hmem⟩
  · rw [hrefuses.iterate_eq f]
  · rw [hiter]
  · rcases hcall with ⟨e, herror⟩ | hterm
    · rw [hiter] at herror
      cases herror
    · -- nothing follows a terminal task
      rw [Task.successors_of_isTerminal hterm] at hmem
      cases hmem

/-- No action leads to any other task. -/
theorem Represents.task_perform_singleton (h : m.Represents o) (action : Action α) :
    (m.perform [action]).task = m.task ∨ (m.perform [action]).task ∈ m.task.successors := by
  cases action with
  | close => exact .inl rfl
  | call call =>
    show (m.iterate call.x call.f call.g).2.1.task = m.task ∨
      (m.iterate call.x call.f call.g).2.1.task ∈ m.task.successors
    rcases h.iterate_cases call.x call.f call.g with
      ⟨e, hrefuses⟩ | ⟨-, hiter⟩ | ⟨m', x', hiter, hmem⟩
    · left
      rw [hrefuses.iterate_eq call.f]
    · left
      rw [hiter]
    · right
      rw [hiter]
      exact hmem

/-! ## The protocol -/

/-- **The protocol.**  For any input, valid or not, and after any series of calls and
closing, the machine has begun; while it is open and its run goes on, it has a workspace
whose stage goes with the task; and no failure on record says that calls came in the wrong
order.  The next call, with any point, value and gradient, fails exactly for the reasons of
`Refuses`; if it does not fail, it returns the task afterwards, which can follow the task
before if that was not terminal, and no action leads to any other task.  If it fails or the
task was terminal, it changes neither the machine nor the caller's point, and any later
actions lead to the same machine and the same replies as without it. -/
theorem keeps_protocol (x₀ : Vector α n) (c : Config α) (bounds : Bounds α)
    (before : List (Action α)) (x : Array α) (f : α) (g : Array α) :
    let m := (start x₀ c bounds).perform before
    let result := (m.iterate x f g).1
    let m' := (m.iterate x f g).2.1
    m.task ≠ .start ∧
      (m.closed = false → m.task.isTerminal = false →
        ∃ w, m.workspace? = some w ∧
          (m.task = .computeFG ∧ (w.stage = .initial ∨ w.stage = .search) ∨
            m.task = .newX ∧ w.stage = .accepted)) ∧
      (∀ e, m.failure? = some e → e.isMisuse = false) ∧
      (∀ e, result = .error e ↔ m.Refuses x g e) ∧
      (∀ task, result = .ok task →
        task = m'.task ∧ (m.task.isTerminal = false → task ∈ m.task.successors)) ∧
      (∀ action, (m.perform [action]).task = m.task ∨
        (m.perform [action]).task ∈ m.task.successors) ∧
      ((∃ e, result = .error e) ∨ m.task.isTerminal = true →
        (m.iterate x f g).2 = (m, x) ∧
          ∀ later,
            (start x₀ c bounds).perform (before ++ .call ⟨x, f, g⟩ :: later) =
                (start x₀ c bounds).perform (before ++ later) ∧
              (start x₀ c bounds).replies (before ++ .call ⟨x, f, g⟩ :: later) =
                (start x₀ c bounds).replies before ++ (result, x) :: m.replies later ∧
              (start x₀ c bounds).replies (before ++ later) =
                (start x₀ c bounds).replies before ++ m.replies later) := by
  intro m result m'
  have h : m.Represents ((Optimizer.start x₀ c bounds).perform before) :=
    represents_perform x₀ c bounds before
  refine ⟨h.task_ne_start, h.exists_workspace, ?_, h.iterate_eq_error_iff x f g, ?_,
    h.task_perform_singleton, ?_⟩
  · intro e he
    rw [h.failure] at he
    have hstart : Optimizer.Reachable x₀ c bounds (Optimizer.start x₀ c bounds) := .start
    exact (hstart.perform before).isMisuse_failure? he
  · intro task hok
    rcases h.iterate_cases x f g with ⟨e, hrefuses⟩ | ⟨hterm, hiter⟩ | ⟨m₁, x', hiter, hmem⟩
    · rw [show result = .error e from congrArg Prod.fst (hrefuses.iterate_eq f)] at hok
      cases hok
    · rw [show result = .ok m.task from congrArg Prod.fst hiter] at hok
      cases hok
      refine ⟨(congrArg (·.2.1.task) hiter).symm, fun hrunning => ?_⟩
      rw [hterm] at hrunning
      cases hrunning
    · rw [show result = .ok m₁.task from congrArg Prod.fst hiter] at hok
      cases hok
      exact ⟨(congrArg (·.2.1.task) hiter).symm, fun _ => hmem⟩
  · intro hcall
    have hsame : m.iterate x f g = (result, m, x) := by
      have hrest := h.iterate_unchanged hcall
      exact Prod.ext rfl hrest
    refine ⟨h.iterate_unchanged hcall, ?_⟩
    intro later
    refine ⟨?_, ?_, replies_append _ before later⟩
    · rw [perform_append, perform_append]
      show (m.iterate x f g).2.1.perform later = m.perform later
      rw [hsame]
    · rw [replies_append]
      show _ ++ ((m.iterate x f g).1, (m.iterate x f g).2.2) ::
        (m.iterate x f g).2.1.replies later = _
      rw [hsame]

end Machine

end Descent
