/-
# Irrelevant answers

A caller who shows an accepted point to a run need not report anything there, and the gradient at a
trial point is of no use to the searches that backtrack unless they accept it.  Two series of calls
that differ in such answers only get the same replies and leave the same machine behind, field by
field: nothing of what they differ in is kept for later.  No law of arithmetic is needed.

* `Machine.Interchangeable` : two calls that differ in what makes no difference;
* `Machine.advance_of_newX`, `Machine.advance_of_search` : what answers are used for;
* `Machine.answerSearch_congr` : two gradients at a trial point that is not accepted;
* `Machine.Interchangeable.iterate_eq` : one call;
* `Machine.Alike`, `Machine.Alike.perform_eq` : a series of calls;
* `Machine.irrelevant_answers` : irrelevant answers have no influence.
-/
import Descent.Proofs.Protocol

namespace Descent

open Scalar

variable {α : Type} [Scalar α] {n : Nat}

/-- Only the cubic search looks at slopes. -/
theorem LineSearch.iterate_congr_slope {s : LineSearch α} (h : s.config.lineSearch ≠ .cubic)
    (value slope slope' : α) : s.iterate value slope = s.iterate value slope' := by
  unfold iterate
  split
  · rfl
  · next run hrun => rw [Run.answer_congr_slope s.config run value slope slope' h]

namespace Machine

/-! ## One call -/

/-- Two calls that differ in what makes no difference to a machine. -/
inductive Interchangeable (m : Machine α n) : Call α → Call α → Prop
  /-- They do not differ. -/
  | same (call : Call α) : Interchangeable m call call
  /-- An accepted point is shown, and both calls are of the right dimension. -/
  | shown {call call' : Call α} (htask : m.task = .newX)
      (hcall : call.x.size = n ∧ call.g.size = n) (hcall' : call'.x.size = n ∧ call'.g.size = n) :
      Interchangeable m call call'
  /-- The gradient, finite in both calls, is one at a trial point of a search that backtracks, and
  the search does not accept it: no step is counted. -/
  | rejected {x : Array α} {f : α} {g g' : Array α} (hsearch : m.config.lineSearch ≠ .cubic)
      (htask : m.task = .computeFG) (htrial : m.accepted? ≠ none)
      (hg : g.size = n ∧ ∀ v ∈ g, isFinite v = true)
      (hg' : g'.size = n ∧ ∀ v ∈ g', isFinite v = true)
      (hrejected : (m.iterate x f g).2.1.iterations = m.iterations) :
      Interchangeable m ⟨x, f, g⟩ ⟨x, f, g'⟩

variable {m : Machine α n} {w : Workspace α n} {o : Optimizer α n}

/-- At an accepted point whatever is reported makes the run leave it. -/
theorem advance_of_newX (htask : m.task = .newX) (x : Vector α n) (f : α) (g : Vector α n) :
    m.advance w x f g = (.ok (m.onNewX w).1.task, m.onNewX w) := by
  unfold advance
  rw [htask]

/-- At a trial point the answer goes to the line search. -/
theorem advance_of_search (htask : m.task = .computeFG) (hstage : w.stage = .search)
    (x : Vector α n) (f : α) (g : Vector α n) :
    m.advance w x f g = (.ok (m.answerSearch w x f g).1.task, m.answerSearch w x f g) := by
  unfold advance onEvaluation
  rw [htask, hstage]

theorem checkAnswer_congr (f : α) {g g' : Vector α n} (hg : ∀ v ∈ g.toArray, isFinite v = true)
    (hg' : ∀ v ∈ g'.toArray, isFinite v = true) : checkAnswer f g = checkAnswer f g' := by
  have hgradient {g : Vector α n} (hg : ∀ v ∈ g.toArray, isFinite v = true) :
      checkGradient g.toArray n = .ok () := checkGradient_eq_ok_iff.mpr ⟨g.size_toArray, hg⟩
  unfold checkAnswer
  rw [hgradient hg, hgradient hg']

/-- The tests at an accepted point count nothing. -/
theorem iterations_settle (m : Machine α n) (w : Workspace α n) :
    (m.settle w).iterations = m.iterations := by
  unfold settle
  dsimp only
  split
  · rfl
  · split
    · rfl
    · rfl

/-- At a trial point that a search that backtracks does not accept, one finite gradient does as
well as another. -/
theorem answerSearch_congr (hsearch : w.search.config.lineSearch ≠ .cubic) (x : Vector α n) (f : α)
    (g g' : Vector α n) (hg : ∀ v ∈ g.toArray, isFinite v = true)
    (hg' : ∀ v ∈ g'.toArray, isFinite v = true)
    (hrejected : (m.answerSearch w x f g).1.iterations = m.iterations) :
    m.answerSearch w x f g = m.answerSearch w x f g' := by
  have hcheck := checkAnswer_congr f hg hg'
  have hnext := LineSearch.iterate_congr_slope hsearch f
    (Solver.trialSlope w.base x g w.search.step) (Solver.trialSlope w.base x g' w.search.step)
  unfold answerSearch at hrejected ⊢
  rw [← hcheck]
  cases hanswer : checkAnswer f g with
  | error e => rfl
  | ok u =>
    rw [hanswer] at hrejected
    dsimp only at hrejected ⊢
    rw [← hnext]
    cases hstatus :
        (w.search.iterate f (Solver.trialSlope w.base x g w.search.step)).status with
    | search => rfl
    | failure => rfl
    | converged =>
      -- an accepted step would have been counted
      rw [hstatus] at hrejected
      simp only [iterations_settle, accept] at hrejected
      omega
    | warning =>
      rw [hstatus] at hrejected
      dsimp only at hrejected
      split at hrejected
      · simp only [set, iterations_settle, accept] at hrejected
        omega
      · simp only [iterations_settle, accept] at hrejected
        omega

/-- A machine that asks for an evaluation after a point has been accepted is in a line search, with
its own settings. -/
theorem Represents.exists_searching (h : m.Represents o) (hopen : m.closed = false)
    (htask : m.task = .computeFG) (htrial : m.accepted? ≠ none) :
    ∃ w, m.workspace? = some w ∧ w.stage = .search ∧ w.search.config = m.config := by
  have hrunning : o.task.isTerminal = false := by
    rw [← h.task, htask]
    rfl
  obtain ⟨s, hbody⟩ := o.exists_body_of_isTerminal hrunning
  obtain ⟨w, hw, hholds⟩ := h.holds s (h.closed.symm.trans hopen) hbody
  refine ⟨w, hw, ?_, hholds.config.trans h.config.symm⟩
  obtain ⟨w', hw', hstage⟩ := h.exists_workspace hopen (by rw [htask]; rfl)
  rw [hw] at hw'
  cases hw'
  rw [htask] at hstage
  rcases hstage with ⟨-, hinitial | hsearch⟩ | ⟨hnew, -⟩
  · rw [accepted?, hw, Option.bind_some, if_pos hinitial] at htrial
    exact absurd rfl htrial
  · exact hsearch
  · cases hnew

section Running

variable (hopen : m.closed = false) (hrunning : m.task.isTerminal = false)
  (hw : m.workspace? = some w)
include hopen hrunning hw

/-- Calls that lead on in the same way are the same. -/
theorem iterate_congr_advance (x x' : Vector α n) (f f' : α) (g g' : Vector α n)
    (h : ({ m with workspace? := none } : Machine α n).advance w x f g =
      ({ m with workspace? := none } : Machine α n).advance w x' f' g') :
    m.iterate x.toArray f g.toArray = m.iterate x'.toArray f' g'.toArray := by
  rw [iterate_of_running hopen hrunning hw, iterate_of_running hopen hrunning hw, h]

/-- What a call at a trial point counts, the line search counts. -/
theorem iterations_iterate_of_search (htask : m.task = .computeFG) (hstage : w.stage = .search)
    (x : Vector α n) (f : α) (g : Vector α n) :
    (m.iterate x.toArray f g.toArray).2.1.iterations =
      (({ m with workspace? := none } : Machine α n).answerSearch w x f g).1.iterations := by
  rw [iterate_of_running hopen hrunning hw,
    advance_of_search (m := { m with workspace? := none }) htask hstage]

end Running

/-- Interchangeable calls have the same result and leave the same machine, and where the machine is
open they hand the same point back. -/
theorem Interchangeable.iterate_eq (h : m.Represents o) {call call' : Call α}
    (hcalls : m.Interchangeable call call') :
    (m.iterate call.x call.f call.g).1 = (m.iterate call'.x call'.f call'.g).1 ∧
      (m.iterate call.x call.f call.g).2.1 = (m.iterate call'.x call'.f call'.g).2.1 ∧
      (m.closed = false →
        m.iterate call.x call.f call.g = m.iterate call'.x call'.f call'.g) := by
  cases hclosed : m.closed with
  | true =>
    rw [iterate_of_closed hclosed, iterate_of_closed hclosed]
    exact ⟨rfl, rfl, nofun⟩
  | false =>
    suffices hsame : m.iterate call.x call.f call.g = m.iterate call'.x call'.f call'.g by
      rw [hsame]
      exact ⟨rfl, rfl, fun _ => rfl⟩
    cases hcalls with
    | same => rfl
    | shown htask hcall hcall' =>
      have hrunning : m.task.isTerminal = false := by
        rw [htask]
        rfl
      obtain ⟨w, hw, -⟩ := h.exists_workspace hclosed hrunning
      have hleave (x : Vector α n) (f : α) (g : Vector α n) :=
        advance_of_newX (m := { m with workspace? := none }) (w := w) htask x f g
      exact iterate_congr_advance hclosed hrunning hw _ _ _ _ _ _
        ((hleave ⟨call.x, hcall.1⟩ call.f ⟨call.g, hcall.2⟩).trans
          (hleave ⟨call'.x, hcall'.1⟩ call'.f ⟨call'.g, hcall'.2⟩).symm)
    | @rejected x f g g' hsearch htask htrial hg hg' hrejected =>
      have hrunning : m.task.isTerminal = false := by
        rw [htask]
        rfl
      by_cases hx : x.size = n
      · obtain ⟨w, hw, hstage, hconfig⟩ := h.exists_searching hclosed htask htrial
        rw [← hconfig] at hsearch
        have hcount := iterations_iterate_of_search hclosed hrunning hw htask hstage ⟨x, hx⟩ f
          ⟨g, hg.1⟩
        have hanswer := answerSearch_congr (m := { m with workspace? := none }) hsearch ⟨x, hx⟩ f
          ⟨g, hg.1⟩ ⟨g', hg'.1⟩ hg.2 hg'.2 (hcount.symm.trans hrejected)
        refine iterate_congr_advance hclosed hrunning hw ⟨x, hx⟩ ⟨x, hx⟩ f f ⟨g, hg.1⟩
          ⟨g', hg'.1⟩ ?_
        have htask' : ({ m with workspace? := none } : Machine α n).task = .computeFG := htask
        rw [advance_of_search htask' hstage, advance_of_search htask' hstage, hanswer]
      · rw [iterate_of_size_x hclosed hrunning hx, iterate_of_size_x hclosed hrunning hx]

/-! ## A series of calls -/

/-- Two series of calls that differ in what makes no difference.  The machine in between is the one
that the first series leaves. -/
inductive Alike : Machine α n → List (Call α) → List (Call α) → Prop
  /-- No calls. -/
  | nil (m : Machine α n) : Alike m [] []
  /-- One call more. -/
  | cons {m : Machine α n} {call call' : Call α} {calls calls' : List (Call α)}
      (hcall : m.Interchangeable call call')
      (hcalls : Alike (m.iterate call.x call.f call.g).2.1 calls calls') :
      Alike m (call :: calls) (call' :: calls')

variable {calls calls' : List (Call α)}

/-- The first calls of the two series differ in what makes no difference, too. -/
theorem Alike.take (halike : m.Alike calls calls') (k : Nat) :
    m.Alike (calls.take k) (calls'.take k) := by
  induction halike generalizing k with
  | nil m => simpa using Alike.nil m
  | cons hcall hcalls ih =>
    cases k with
    | zero => exact .nil _
    | succ k => exact .cons hcall (ih k)

theorem Represents.closed_iterate (h : m.Represents o) (call : Call α) :
    (m.iterate call.x call.f call.g).2.1.closed = m.closed := by
  rw [(h.exchange call).closed, Optimizer.closed_exchange, h.closed]

/-- Series of calls that differ in what makes no difference have the same results and leave the
same machine, and where the machine is open they hand the same points back. -/
theorem Alike.perform_eq (h : m.Represents o) (halike : m.Alike calls calls') :
    m.perform (calls.map .call) = m.perform (calls'.map .call) ∧
      (m.replies (calls.map .call)).map Prod.fst = (m.replies (calls'.map .call)).map Prod.fst ∧
      (m.closed = false → m.replies (calls.map .call) = m.replies (calls'.map .call)) := by
  induction halike generalizing o with
  | nil m => exact ⟨rfl, rfl, fun _ => rfl⟩
  | @cons m call call' calls calls' hcall hcalls ih =>
    obtain ⟨hresult, hnext, hreply⟩ := hcall.iterate_eq h
    obtain ⟨hperform, hresults, hreplies⟩ := ih (h.exchange call)
    have hclosed := h.closed_iterate call
    refine ⟨?_, ?_, fun hopen => ?_⟩
    · show (m.iterate call.x call.f call.g).2.1.perform (calls.map .call) =
        (m.iterate call'.x call'.f call'.g).2.1.perform (calls'.map .call)
      rw [← hnext, hperform]
    · show (m.iterate call.x call.f call.g).1 :: ((m.iterate call.x call.f call.g).2.1.replies
          (calls.map .call)).map Prod.fst =
        (m.iterate call'.x call'.f call'.g).1 :: ((m.iterate call'.x call'.f call'.g).2.1.replies
          (calls'.map .call)).map Prod.fst
      rw [hresult, ← hnext, hresults]
    · have hsame := hreply hopen
      have hrest := hreplies (hclosed.trans hopen)
      simp only [List.map_cons, replies, ← hsame, hrest]

/-- **Irrelevant answers have no influence.**  For any machine that can be reached and any
arithmetic: two series of calls that differ only in

* what is reported, with the right dimension, where the task is to look at an accepted point, and
* for the searches that backtrack, the finite gradients at trial points that are not accepted

have the same results and leave the same machine after every call, with every field of its
workspace; and they hand the same point back after every call, except that a closed machine refuses
all calls and leaves their points as they are. -/
theorem irrelevant_answers (x₀ : Vector α n) (c : Config α) (bounds : Bounds α)
    (before : List (Action α)) (calls calls' : List (Call α)) :
    let m := (start x₀ c bounds).perform before
    m.Alike calls calls' →
      (∀ k, m.perform ((calls.take k).map .call) = m.perform ((calls'.take k).map .call)) ∧
        (m.replies (calls.map .call)).map Prod.fst =
          (m.replies (calls'.map .call)).map Prod.fst ∧
        (m.closed = false → m.replies (calls.map .call) = m.replies (calls'.map .call)) := by
  intro m halike
  have h := represents_perform x₀ c bounds before
  obtain ⟨-, hresults, hreplies⟩ := halike.perform_eq h
  exact ⟨fun k => ((halike.take k).perform_eq h).1, hresults, hreplies⟩

/-- A machine that halves its steps. -/
def halves : Machine Float 1 :=
  start #v[1] { lineSearch := .armijo } {}

/-- Calls that answer with the square of a single variable, except that the value at the first trial
point is too high. -/
def sincere : List (Call Float) :=
  [⟨#[1], 1, #[2]⟩, ⟨#[1], 1, #[2]⟩, ⟨#[0.9], 3, #[1.8]⟩, ⟨#[0.5], 0.25, #[1]⟩]

/-- The same with other things said at the accepted point and at the first trial point. -/
def careless : List (Call Float) :=
  [⟨#[1], 1, #[2]⟩, ⟨#[7], 8, #[9]⟩, ⟨#[0.9], 3, #[-4]⟩, ⟨#[0.5], 0.25, #[1]⟩]

/-- The two series have the same replies and lead to the same accepted step. -/
theorem careless_unnoticed :
    (halves.perform (sincere.map .call)).iterations = 1 ∧
      halves.perform (sincere.map .call) = halves.perform (careless.map .call) ∧
      halves.replies (sincere.map .call) = halves.replies (careless.map .call) := by
  have halike : halves.Alike sincere careless := by
    refine .cons (.same _) (.cons (.shown ?_ ⟨rfl, rfl⟩ ⟨rfl, rfl⟩)
      (.cons (.rejected ?_ ?_ ?_ ⟨rfl, ?_⟩ ⟨rfl, ?_⟩ ?_) (.cons (.same _) (.nil _))))
    all_goals decide +kernel
  obtain ⟨hsame, -, hreplies⟩ :=
    irrelevant_answers #v[1] { lineSearch := .armijo } {} [] sincere careless halike
  exact ⟨by decide +kernel, hsame 4, hreplies (by decide +kernel)⟩

end Machine

end Descent
