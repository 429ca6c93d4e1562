/-
# Series of calls

An optimizer under an arbitrary series of calls.  Every call that has an effect is
a transition of the run, so what the transitions preserve holds after any series.

* `Optimizer.iterate_eq_ok` : what a call can do;
* `Optimizer.exchange` : a call, where a refused one changes nothing;
* `Optimizer.after` : a series of calls;
* `Optimizer.log` : what an observer notes of a series of calls;
* `Optimizer.invariant_log` : induction over the calls and the notes;
* `Optimizer.Reachable.invariant` : induction over calls and closing.
-/
import Mathlib.Data.List.Induction
import Descent.Proofs.Projection
import Descent.Proofs.Transition

namespace Descent

open Scalar

/-- What a caller passes in one call. -/
structure Call (α : Type) where
  /-- The point. -/
  x : Array α
  /-- The value there. -/
  f : α
  /-- The gradient there. -/
  g : Array α

namespace Optimizer

variable {α : Type} [Scalar α] {n : Nat}

/-! ## Before the first call -/

/-- A run begins in its initial state, with everything checked. -/
theorem begin?_eq_ok {x₀ : Vector α n} {c : Config α} {bounds : Bounds α} {s : Solver α n}
    (h : begin? x₀ c bounds = .ok s) :
    c.validate = .ok () ∧ checkStart x₀.toArray = .ok () ∧
      ∃ box, Box.ofBounds bounds n = .ok box ∧ checkBoundsSupport c box = .ok () ∧
        s = .initial c box := by
  unfold begin? at h
  simp only [bind, Except.bind] at h
  cases hvalid : c.validate with
  | error e => simp [hvalid] at h
  | ok u =>
    cases hstart : checkStart x₀.toArray with
    | error e => simp [hvalid, hstart] at h
    | ok u =>
      cases hbox : Box.ofBounds bounds n with
      | error e => simp [hvalid, hstart, hbox] at h
      | ok box =>
        cases hsupport : checkBoundsSupport c box with
        | error e => simp [hvalid, hstart, hbox, hsupport] at h
        | ok u =>
          simp only [hvalid, hstart, hbox, hsupport, Except.ok.injEq] at h
          exact ⟨rfl, rfl, box, rfl, hsupport, h.symm⟩

/-- Where a check of its first state passes, a run begins. -/
theorem exists_of_any_begin? {x₀ : Vector α n} {c : Config α} {bounds : Bounds α}
    {check : Solver α n → Bool} (h : (begin? x₀ c bounds).toOption.any check = true) :
    ∃ s, begin? x₀ c bounds = .ok s ∧ check s = true :=
  exists_ok_of_any h

theorem phase_of_begin? {x₀ : Vector α n} {c : Config α} {bounds : Bounds α} {s : Solver α n}
    (h : begin? x₀ c bounds = .ok s) : s.phase = .opening := by
  obtain ⟨-, -, box, -, -, rfl⟩ := begin?_eq_ok h
  rfl

theorem valid_of_begin? {x₀ : Vector α n} {c : Config α} {bounds : Bounds α} {s : Solver α n}
    (h : begin? x₀ c bounds = .ok s) : s.box.Valid := by
  obtain ⟨-, -, box, hbox, -, rfl⟩ := begin?_eq_ok h
  exact Box.valid_of_ofBounds hbox

/-- A run begins at a point whose components are numbers. -/
theorem isNaN_of_begin? [OrderedScalar α] {x₀ : Vector α n} {c : Config α} {bounds : Bounds α}
    {s : Solver α n} (h : begin? x₀ c bounds = .ok s) (i : Nat) (hi : i < n) :
    isNaN x₀[i] = false := by
  obtain ⟨-, hstart, -⟩ := begin?_eq_ok h
  have hmem : x₀[i] ∈ x₀.toArray := Array.getElem_mem (by simpa using hi)
  exact OrderedScalar.isNaN_of_isFinite (isFinite_of_checkStart hstart hmem)

/-! ## What the caller sees of a run -/

/-- The optimizer with another state of its run. -/
def proceed (o : Optimizer α n) (s : Solver α n) : Optimizer α n :=
  { o with body := .ok s }

@[simp] theorem body_proceed (o : Optimizer α n) (s : Solver α n) : (o.proceed s).body = .ok s := by
  rfl

@[simp] theorem config_proceed (o : Optimizer α n) (s : Solver α n) :
    (o.proceed s).config = o.config := by
  rfl

@[simp] theorem closed_proceed (o : Optimizer α n) (s : Solver α n) :
    (o.proceed s).closed = o.closed := by
  rfl

theorem task_of_body {o : Optimizer α n} {s : Solver α n} (h : o.body = .ok s) :
    o.task = s.task := by
  rw [task, h]

theorem accepted?_of_body {o : Optimizer α n} {s : Solver α n} (hopen : o.closed = false)
    (h : o.body = .ok s) : o.accepted? = s.accepted? := by
  simp [accepted?, hopen, solver?, h]

@[simp] theorem task_proceed (o : Optimizer α n) (s : Solver α n) :
    (o.proceed s).task = s.task := by
  rfl

theorem accepted?_proceed {o : Optimizer α n} (hopen : o.closed = false) (s : Solver α n) :
    (o.proceed s).accepted? = s.accepted? := by
  simp [accepted?, hopen, solver?]

theorem iterations_of_body {o : Optimizer α n} {s : Solver α n} (h : o.body = .ok s) :
    o.iterations = s.iterations := by
  simp [iterations, solver?, h]

theorem evaluations_of_body {o : Optimizer α n} {s : Solver α n} (h : o.body = .ok s) :
    o.evaluations = s.evaluations := by
  simp [evaluations, solver?, h]

/-! ## One call -/

/-- An optimizer that asks for something has a run. -/
theorem exists_body_of_isTerminal {o : Optimizer α n} (h : o.task.isTerminal = false) :
    ∃ s, o.body = .ok s := by
  cases hbody : o.body with
  | ok s => exact ⟨s, rfl⟩
  | error e =>
    rw [task, hbody] at h
    cases h

theorem iterate_of_running {o : Optimizer α n} {s : Solver α n} (hopen : o.closed = false)
    (hbody : o.body = .ok s) (hrunning : s.task.isTerminal = false) (x : Vector α n) (f : α)
    (g : Vector α n) :
    o.iterate x.toArray f g.toArray =
      .ok (o.proceed (s.advance o.config x f g).1, (s.advance o.config x f g).2.toArray) := by
  unfold iterate
  rw [if_neg (Bool.eq_false_iff.mp hopen), hbody]
  dsimp only
  rw [if_neg (Bool.eq_false_iff.mp hrunning), dif_pos x.size_toArray, dif_pos g.size_toArray]
  rfl

/-- An exchange leaves an optimizer whose run has ended as it is, or it is a
transition of the run. -/
theorem iterate_eq_ok {o o' : Optimizer α n} {x x' : Array α} {f : α} {g : Array α}
    (h : o.iterate x f g = .ok (o', x')) :
    (o.task.isTerminal = true ∧ o' = o ∧ x' = x) ∨
      ∃ (s s' : Solver α n) (xs gs xs' : Vector α n), o.closed = false ∧ o.body = .ok s ∧
        s.task.isTerminal = false ∧ x = xs.toArray ∧ g = gs.toArray ∧ o' = o.proceed s' ∧
        x' = xs'.toArray ∧ Solver.Transition o.config s xs f gs s' xs' := by
  unfold iterate at h
  cases hclosed : o.closed with
  | true => simp [hclosed] at h
  | false =>
    cases hbody : o.body with
    | error e =>
      left
      simp only [hclosed, hbody, Bool.false_eq_true, if_false, Except.ok.injEq, Prod.mk.injEq] at h
      refine ⟨?_, h.1.symm, h.2.symm⟩
      rw [task, hbody]
      rfl
    | ok s =>
      cases hterm : s.task.isTerminal with
      | true =>
        -- the dimensions are not even looked at
        left
        simp only [hclosed, hbody, hterm, Bool.false_eq_true, if_false, if_true, Except.ok.injEq,
          Prod.mk.injEq] at h
        refine ⟨?_, h.1.symm, h.2.symm⟩
        rw [task_of_body hbody, hterm]
      | false =>
        right
        by_cases hx : x.size = n
        · by_cases hg : g.size = n
          · simp only [hclosed, hbody, hterm, hx, hg, Bool.false_eq_true, if_false, dif_pos,
              Except.ok.injEq, Prod.mk.injEq] at h
            refine ⟨s, _, ⟨x, hx⟩, ⟨g, hg⟩, _, rfl, rfl, hterm, rfl, rfl, ?_, h.2.symm,
              Solver.transition_advance o.config s ⟨x, hx⟩ f ⟨g, hg⟩⟩
            rw [← h.1, proceed, hclosed]
          · simp [hclosed, hbody, hterm, hx, hg] at h
        · simp [hclosed, hbody, hterm, hx] at h

/-- The optimizer and the caller's point after a call; a call that is refused
changes neither. -/
def exchange (o : Optimizer α n) (call : Call α) : Optimizer α n × Array α :=
  match o.iterate call.x call.f call.g with
  | .ok result => result
  | .error _ => (o, call.x)

/-- A call has no effect, or it is a transition of the run. -/
theorem exchange_cases (o : Optimizer α n) (call : Call α) :
    o.exchange call = (o, call.x) ∨
      ∃ (s s' : Solver α n) (x g x' : Vector α n), o.body = .ok s ∧ call.x = x.toArray ∧
        call.g = g.toArray ∧ o.exchange call = (o.proceed s', x'.toArray) ∧
        Solver.Transition o.config s x call.f g s' x' := by
  unfold exchange
  cases hiter : o.iterate call.x call.f call.g with
  | error e => left; rfl
  | ok result =>
    rcases iterate_eq_ok hiter with
      ⟨-, ho, hx⟩ | ⟨s, s', x, g, x', -, hbody, -, hx, hg, ho, hx', htrans⟩
    · left
      rw [← ho, ← hx]
    · right
      refine ⟨s, s', x, g, x', hbody, hx, hg, ?_, htrans⟩
      rw [← ho, ← hx']

/-- A call never changes the settings. -/
@[simp] theorem config_exchange (o : Optimizer α n) (call : Call α) :
    (o.exchange call).1.config = o.config := by
  rcases o.exchange_cases call with h | ⟨s, s', x, g, x', -, -, -, h, -⟩
  · rw [h]
  · rw [h, config_proceed]

/-- A call closes nothing. -/
@[simp] theorem closed_exchange (o : Optimizer α n) (call : Call α) :
    (o.exchange call).1.closed = o.closed := by
  rcases o.exchange_cases call with h | ⟨s, s', x, g, x', -, -, -, h, -⟩
  · rw [h]
  · rw [h, closed_proceed]

/-! ## Series of calls -/

/-- The optimizer after a series of calls, the first one first. -/
def after (o : Optimizer α n) (calls : List (Call α)) : Optimizer α n :=
  calls.foldl (fun o call => (o.exchange call).1) o

@[simp] theorem after_nil (o : Optimizer α n) : o.after [] = o := by
  rfl

theorem after_concat (o : Optimizer α n) (calls : List (Call α)) (call : Call α) :
    o.after (calls ++ [call]) = ((o.after calls).exchange call).1 := by
  simp [after, List.foldl_append]

/-- Without a run no call has an effect. -/
theorem after_of_error {o : Optimizer α n} {e : Failure α} (h : o.body = .error e)
    (calls : List (Call α)) : o.after calls = o := by
  induction calls using List.reverseRecOn with
  | nil => rfl
  | append_singleton calls call ih =>
    rw [after_concat, ih]
    rcases o.exchange_cases call with heq | ⟨s, s', x, g, x', hbody, -⟩
    · rw [heq]
    · rw [h] at hbody
      cases hbody

@[simp] theorem config_after (o : Optimizer α n) (calls : List (Call α)) :
    (o.after calls).config = o.config := by
  induction calls using List.reverseRecOn with
  | nil => rfl
  | append_singleton calls call ih => rw [after_concat, config_exchange, ih]

@[simp] theorem closed_after (o : Optimizer α n) (calls : List (Call α)) :
    (o.after calls).closed = o.closed := by
  induction calls using List.reverseRecOn with
  | nil => rfl
  | append_singleton calls call ih => rw [after_concat, closed_exchange, ih]

/-! ## What an observer notes -/

variable {β : Type} {observe : Optimizer α n → Optimizer α n → Option β}

/-- The notes of an observer who looks at the optimizer before and after each call of a
series, the oldest first. -/
def log (observe : Optimizer α n → Optimizer α n → Option β) (o : Optimizer α n) :
    List (Call α) → List β
  | [] => []
  | call :: calls => (observe o (o.exchange call).1).toList ++ log observe (o.exchange call).1 calls

/-- The notes of one series of calls and then of another. -/
theorem log_append (o : Optimizer α n) (calls more : List (Call α)) :
    o.log observe (calls ++ more) = o.log observe calls ++ (o.after calls).log observe more := by
  induction calls generalizing o with
  | nil => rfl
  | cons call calls ih =>
    rw [List.cons_append, log, log, ih, List.append_assoc]
    rfl

theorem log_concat (o : Optimizer α n) (calls : List (Call α)) (call : Call α) :
    o.log observe (calls ++ [call]) =
      o.log observe calls ++ (observe (o.after calls) (o.after (calls ++ [call]))).toList := by
  rw [log_append, after_concat, log, log, List.append_nil]

/-- A property of the notes and of the run holds after any series of calls, if it holds at
first and every transition carries it on to what is noted of it. -/
theorem invariant_log (observe : Optimizer α n → Optimizer α n → Option β)
    (hidle : ∀ o, observe o o = none) {P : List β → Solver α n → Prop} {o : Optimizer α n}
    {s₀ : Solver α n} (hbody : o.body = .ok s₀) (hinit : P [] s₀)
    (hstep : ∀ notes s x f g s' x', Solver.Transition o.config s x f g s' x' → P notes s →
      P (notes ++ (observe (o.proceed s) (o.proceed s')).toList) s')
    (calls : List (Call α)) :
    ∃ s, o.after calls = o.proceed s ∧ P (o.log observe calls) s := by
  -- from the last call back, since what is noted of it comes last
  induction calls using List.reverseRecOn with
  | nil =>
    refine ⟨s₀, ?_, hinit⟩
    rw [proceed, ← hbody]
    rfl
  | append_singleton calls call ih =>
    obtain ⟨s, hafter, hs⟩ := ih
    rw [log_concat, after_concat, hafter]
    rcases (o.proceed s).exchange_cases call with h | ⟨s₁, s', x, g, x', hbody₁, -, -, h, htrans⟩
    · rw [h, hidle, Option.toList_none, List.append_nil]
      exact ⟨s, rfl, hs⟩
    · rw [body_proceed] at hbody₁
      cases hbody₁
      rw [h]
      exact ⟨s', rfl, hstep _ s x call.f g s' x' htrans hs⟩

/-! ## Reachable optimizers -/

/-- The optimizers that come of a starting point by calls and closing, in any order. -/
inductive Reachable (x₀ : Vector α n) (c : Config α) (bounds : Bounds α) : Optimizer α n → Prop
  /-- The one that is built from the starting point. -/
  | start : Reachable x₀ c bounds (start x₀ c bounds)
  /-- The one after another call. -/
  | exchange {o : Optimizer α n} (h : Reachable x₀ c bounds o) (call : Call α) :
    Reachable x₀ c bounds (o.exchange call).1
  /-- The one that is closed. -/
  | close {o : Optimizer α n} (h : Reachable x₀ c bounds o) : Reachable x₀ c bounds o.close

/-- The settings stay as they are. -/
theorem Reachable.config_eq {x₀ : Vector α n} {c : Config α} {bounds : Bounds α}
    {o : Optimizer α n} (h : Reachable x₀ c bounds o) : o.config = c := by
  induction h with
  | start => rfl
  | exchange h call ih => rw [config_exchange, ih]
  | close h ih => exact ih

/-- What holds of a run at first and is preserved by every transition holds of the run
of every optimizer that can be reached. -/
theorem Reachable.invariant {x₀ : Vector α n} {c : Config α} {bounds : Bounds α}
    {P : Solver α n → Prop} (hinit : ∀ s, begin? x₀ c bounds = .ok s → P s)
    (hstep : ∀ s x f g s' x', Solver.Transition c s x f g s' x' → P s → P s')
    {o : Optimizer α n} (h : Reachable x₀ c bounds o) {s : Solver α n} (hs : o.body = .ok s) :
    P s := by
  induction h generalizing s with
  | start => exact hinit s hs
  | @exchange o h call ih =>
    rcases o.exchange_cases call with heq | ⟨s₀, s', x, g, x', hbody, -, -, heq, htrans⟩
    · rw [heq] at hs
      exact ih hs
    · rw [heq, body_proceed] at hs
      cases hs
      rw [h.config_eq] at htrans
      exact hstep s₀ x call.f g s x' htrans (ih hbody)
  | close h ih => exact ih hs

end Optimizer

end Descent
