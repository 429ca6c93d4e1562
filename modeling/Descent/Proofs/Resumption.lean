/-
# Resumed runs

A run whose evaluation failed is driven again from where it was left, and ends as
if no evaluation had failed.

* `Faults` : which evaluations fail, and what they leave behind;
* `LoopState.Reaches` : the exchanges of a run none of whose evaluations fails;
* `Optimizer.interrupted_or_agree` : where a failed evaluation leaves a run;
* `Optimizer.driveAgain` : a run that is driven again as often as it is interrupted;
* `Optimizer.interrupted_drive_resumes` : what the interruptions change.
-/
import Mathlib.Data.Finset.Card
import Descent.Proofs.Termination

namespace Descent

variable {σ ε α : Type}

/-! ## Evaluations that fail -/

/-- The evaluations that fail, numbered from zero in the order in which they are asked
for. -/
structure Faults (ε α : Type) where
  /-- The numbers of the evaluations that fail. -/
  failing : Finset Nat
  /-- The error of a failed evaluation at a point, and what it makes of the gradient. -/
  outcome : Nat → Array α → Array α → ε × Array α

/-- A callback that always answers with the value and the gradient of a function. -/
def Callback.ofFunction (evaluate : Array α → α × Array α) : Callback Unit ε α :=
  fun x _ => pure (.ok (evaluate x).1, (evaluate x).2)

/-- A callback that answers with the value and the gradient of a function, except
where it fails; its state is the number of its invocations. -/
def Faults.callback (faults : Faults ε α) (evaluate : Array α → α × Array α) :
    Callback Nat ε α := fun x g count =>
  if count ∈ faults.failing then
    ((.error (faults.outcome count x g).1, (faults.outcome count x g).2), count + 1)
  else ((.ok (evaluate x).1, (evaluate x).2), count + 1)

/-- The number of evaluations that are still to fail. -/
def Faults.ahead (faults : Faults ε α) (count : Nat) : Nat :=
  (faults.failing.filter (count ≤ ·)).card

theorem Faults.ahead_zero (faults : Faults ε α) : faults.ahead 0 = faults.failing.card := by
  simp [Faults.ahead]

/-- Behind a failed evaluation there are fewer failures to come. -/
theorem Faults.ahead_lt {faults : Faults ε α} {count failed : Nat} (hle : count ≤ failed)
    (h : failed ∈ faults.failing) : faults.ahead (failed + 1) < faults.ahead count := by
  have hsubset : faults.failing.filter (failed + 1 ≤ ·) ⊆
      faults.failing.filter (count ≤ ·) := by
    intro i hi
    obtain ⟨hfails, hge⟩ := Finset.mem_filter.mp hi
    exact Finset.mem_filter.mpr ⟨hfails, by omega⟩
  apply Finset.card_lt_card
  rw [Finset.ssubset_iff_of_subset hsubset]
  refine ⟨failed, Finset.mem_filter.mpr ⟨h, hle⟩, ?_⟩
  intro hmem
  have hge := (Finset.mem_filter.mp hmem).2
  omega

section Answers

variable {faults : Faults ε α} {evaluate : Array α → α × Array α} {count : Nat}

/-- An evaluation that fails is no answer. -/
theorem Faults.callback_of_mem (h : count ∈ faults.failing) (x g : Array α) :
    faults.callback evaluate x g count =
      ((.error (faults.outcome count x g).1, (faults.outcome count x g).2), count + 1) := by
  rw [Faults.callback, if_pos h]

theorem Faults.callback_of_notMem (h : count ∉ faults.failing) (x g : Array α) :
    faults.callback evaluate x g count =
      ((.ok (evaluate x).1, (evaluate x).2), count + 1) := by
  rw [Faults.callback, if_neg h]

end Answers

variable [Scalar α] {n : Nat}

/-- The error of the failed evaluation that interrupted a run, if one did. -/
def Driven.problem? (driven : Driven ε α n) : Option ε :=
  match driven.result with
  | .error (.problem e) => some e
  | _ => none

/-! ## The exchanges of a run -/

/-- What the loop that drives a run holds between two exchanges. -/
structure LoopState (α : Type) [Scalar α] (n : Nat) where
  /-- The optimizer. -/
  optimizer : Optimizer α n
  /-- The caller's point. -/
  x : Array α
  /-- The last value. -/
  f : α
  /-- The caller's gradient. -/
  g : Array α

/-- One state of the loop follows from another by exchanges that all succeed and answer
with the value and the gradient of a function; the number is that of the evaluations. -/
inductive LoopState.Reaches (evaluate : Array α → α × Array α) :
    Nat → LoopState α n → LoopState α n → Prop where
  /-- No exchange is made. -/
  | here (l : LoopState α n) : Reaches evaluate 0 l l
  /-- The first exchange passes an evaluation on. -/
  | evaluate {l l' : LoopState α n} {o : Optimizer α n} {x : Array α} {count : Nat}
      (htask : l.optimizer.task = .computeFG)
      (hiter : l.optimizer.iterate l.x (evaluate l.x).1 (evaluate l.x).2 = .ok (o, x))
      (h : Reaches evaluate count ⟨o, x, (evaluate l.x).1, (evaluate l.x).2⟩ l') :
      Reaches evaluate (count + 1) l l'
  /-- The first exchange leaves an accepted point. -/
  | leave {l l' : LoopState α n} {o : Optimizer α n} {x : Array α} {count : Nat}
      (htask : l.optimizer.task = .newX)
      (hiter : l.optimizer.iterate l.x l.f l.g = .ok (o, x))
      (h : Reaches evaluate count ⟨o, x, l.f, l.g⟩ l') :
      Reaches evaluate count l l'

namespace Optimizer

variable {evaluate : Array α → α × Array α} {l : LoopState α n} {o : Optimizer α n}
  {x : Array α}

/-! ## Without a failure -/

/-- The end of a run none of whose evaluations fails, driven for a limited number of
exchanges. -/
def driveWhole (ε : Type) {α : Type} [Scalar α] {n : Nat} (evaluate : Array α → α × Array α)
    (fuel : Nat) (l : LoopState α n) : Driven ε α n :=
  (driveFor (.ofFunction evaluate) fuel l.optimizer l.x l.f l.g ()).1

theorem driveWhole_of_computeFG (fuel : Nat) (h : l.optimizer.task = .computeFG) :
    driveWhole ε evaluate (fuel + 1) l =
      (driveOn (.ofFunction evaluate) fuel l.optimizer l.x (evaluate l.x).1 (evaluate l.x).2
        ()).1 := by
  rw [driveWhole, driveFor_of_answer _ fuel h rfl]

/-- An accepted point is left with the last value and gradient. -/
theorem driveWhole_of_newX (fuel : Nat) (h : l.optimizer.task = .newX) :
    driveWhole ε evaluate (fuel + 1) l =
      (driveOn (.ofFunction evaluate) fuel l.optimizer l.x l.f l.g ()).1 := by
  rw [driveWhole, driveFor_of_newX _ fuel h]

/-- Where a value is asked for, the last value and gradient are not used. -/
theorem driveWhole_congr (fuel : Nat) (h : o.task = .computeFG) (f f' : α) (g g' : Array α) :
    driveWhole ε evaluate (fuel + 1) ⟨o, x, f, g⟩ =
      driveWhole ε evaluate (fuel + 1) ⟨o, x, f', g'⟩ := by
  rw [driveWhole_of_computeFG fuel h, driveWhole_of_computeFG fuel h]

/-- A run that comes to its end is not changed by more fuel. -/
theorem driveWhole_of_le {fuel fuel' : Nat} (hfuel : fuel ≤ fuel')
    (h : (driveWhole ε evaluate fuel l).result ≠ .error .stalled) :
    driveWhole ε evaluate fuel' l = driveWhole ε evaluate fuel l := by
  rw [driveWhole, driveFor_of_not_stalled _ hfuel _ _ _ _ _ h, driveWhole]

theorem driveWhole_zero (h : l.optimizer.task = .computeFG) :
    (driveWhole ε evaluate 0 l).result = .error .stalled := by
  rw [driveWhole, driveFor, h]
  rfl

/-- A run goes on from any state that it reaches. -/
theorem driveWhole_of_reaches {l l' : LoopState α n} {count : Nat}
    (h : LoopState.Reaches evaluate count l l') :
    ∃ made, ∀ fuel, driveWhole ε evaluate (made + fuel) l = driveWhole ε evaluate fuel l' := by
  induction h with
  | here l =>
    refine ⟨0, ?_⟩
    intro fuel
    rw [Nat.zero_add]
  | evaluate htask hiter _ ih =>
    obtain ⟨made, hmade⟩ := ih
    refine ⟨made + 1, ?_⟩
    intro fuel
    rw [Nat.add_right_comm, driveWhole_of_computeFG _ htask, driveOn, hiter]
    exact hmade fuel
  | leave htask hiter _ ih =>
    obtain ⟨made, hmade⟩ := ih
    refine ⟨made + 1, ?_⟩
    intro fuel
    rw [Nat.add_right_comm, driveWhole_of_newX _ htask, driveOn, hiter]
    exact hmade fuel

/-- From a state where a value is asked for, the rest of a run that comes to its end
can be driven with any value and gradient in the loop. -/
theorem exists_driveWhole_of_reaches {count : Nat} {f : α} {g : Array α} {fuel : Nat}
    (h : LoopState.Reaches evaluate count l ⟨o, x, f, g⟩) (htask : o.task = .computeFG)
    (hend : (driveWhole ε evaluate fuel l).result ≠ .error .stalled) (f' : α) (g' : Array α) :
    ∃ rest ≤ fuel,
      driveWhole ε evaluate rest ⟨o, x, f', g'⟩ = driveWhole ε evaluate fuel l := by
  obtain ⟨made, hmade⟩ := driveWhole_of_reaches (ε := ε) h
  have hlt : made < fuel := by
    by_contra hle
    -- the fuel would be used up before the value that is asked for
    have hmore := driveWhole_of_le (Nat.le_of_not_lt hle) hend
    have hspent := hmade 0
    rw [Nat.add_zero] at hspent
    rw [← hmore, hspent, driveWhole_zero htask] at hend
    exact hend rfl
  obtain ⟨rest, rfl⟩ : ∃ rest, fuel = made + (rest + 1) := ⟨fuel - made - 1, by omega⟩
  refine ⟨rest + 1, by omega, ?_⟩
  rw [hmade, driveWhole_congr rest htask]

/-! ## Up to the first failure -/

/-- How a failed evaluation leaves a run: in the state in which the exchanges before it
left it, where a value is asked for, with the gradient that the failure made. -/
def LeftAt (faults : Faults ε α) (evaluate : Array α → α × Array α) (l : LoopState α n)
    (count : Nat) (driven : Driven ε α n) (count' : Nat) : Prop :=
  ∃ answered l', LoopState.Reaches evaluate answered l l' ∧
    l'.optimizer.task = .computeFG ∧ count + answered ∈ faults.failing ∧
    count' = count + answered + 1 ∧
    driven = ⟨l'.optimizer, l'.x, (faults.outcome (count + answered) l'.x l'.g).2,
      .error (.problem (faults.outcome (count + answered) l'.x l'.g).1)⟩

/-- A run whose evaluations may fail ends as if they did not, or is left where the first
one fails. -/
theorem interrupted_or_agree (faults : Faults ε α) (evaluate : Array α → α × Array α)
    (fuel : Nat) (l : LoopState α n) (count : Nat) {driven : Driven ε α n} {count' : Nat}
    (h : driveFor (faults.callback evaluate) fuel l.optimizer l.x l.f l.g count =
      (driven, count')) :
    (driven = driveWhole ε evaluate fuel l ∧ driven.problem? = none) ∨
      LeftAt faults evaluate l count driven count' := by
  induction fuel generalizing l count with
  | zero =>
    rw [driveFor] at h
    cases h
    refine .inl ⟨rfl, ?_⟩
    cases hterm : l.optimizer.task.isTerminal with
    | true => rw [if_pos rfl]; rfl
    | false => rw [if_neg Bool.false_ne_true]; rfl
  | succ fuel ih =>
    by_cases hfg : l.optimizer.task = .computeFG
    · by_cases hfails : count ∈ faults.failing
      · rw [driveFor_of_problem _ fuel hfg (Faults.callback_of_mem hfails _ _)] at h
        cases h
        exact .inr ⟨0, l, .here l, hfg, hfails, rfl, rfl⟩
      · rw [driveFor_of_answer _ fuel hfg (Faults.callback_of_notMem hfails _ _), driveOn] at h
        rw [driveWhole_of_computeFG fuel hfg, driveOn]
        cases hiter : l.optimizer.iterate l.x (evaluate l.x).1 (evaluate l.x).2 with
        | error e =>
          rw [hiter] at h
          cases h
          exact .inl ⟨rfl, rfl⟩
        | ok result =>
          obtain ⟨o, x⟩ := result
          rw [hiter] at h
          rcases ih ⟨o, x, (evaluate l.x).1, (evaluate l.x).2⟩ (count + 1) h with
            hagree | ⟨answered, l', hreach, htask, hmem, hcount, hdriven⟩
          · exact .inl hagree
          · rw [Nat.add_right_comm count 1 answered] at hmem hcount hdriven
            exact .inr ⟨answered + 1, l', .evaluate hfg hiter hreach, htask, hmem, hcount,
              hdriven⟩
    · by_cases hx : l.optimizer.task = .newX
      · rw [driveFor_of_newX _ fuel hx, driveOn] at h
        rw [driveWhole_of_newX fuel hx, driveOn]
        cases hiter : l.optimizer.iterate l.x l.f l.g with
        | error e =>
          rw [hiter] at h
          cases h
          exact .inl ⟨rfl, rfl⟩
        | ok result =>
          obtain ⟨o, x⟩ := result
          rw [hiter] at h
          rcases ih ⟨o, x, l.f, l.g⟩ count h with hagree | ⟨answered, l', hreach, hleft⟩
          · exact .inl hagree
          · exact .inr ⟨answered, l', .leave hx hiter hreach, hleft⟩
      · rw [driveFor_of_idle _ fuel hfg hx] at h
        rw [driveWhole, driveFor_of_idle _ fuel hfg hx]
        cases h
        exact .inl ⟨rfl, rfl⟩

/-! ## Driving again -/

/-- A run is driven, and driven again from where it was left each time that an evaluation
failed, up to a number of times. -/
def driveAgain (callback : Callback σ ε α) (fuel : Nat) :
    Nat → Optimizer α n → Array α → Array α → StateM σ (Driven ε α n)
  | 0, o, x, g => driveFor callback fuel o x 0 g
  | tries + 1, o, x, g => do
    let driven ← driveFor callback fuel o x 0 g
    match driven.problem? with
    | some _ => driveAgain callback fuel tries driven.optimizer driven.x driven.g
    | none => pure driven

section Again

variable {callback : Callback σ ε α} {fuel : Nat} {g : Array α} {state state' : σ}
  {driven : Driven ε α n}

/-- A run that no failed evaluation interrupts is driven once. -/
theorem driveAgain_of_eq_none (tries : Nat)
    (h : driveFor callback fuel o x 0 g state = (driven, state'))
    (hnone : driven.problem? = none) :
    driveAgain callback fuel tries o x g state = (driven, state') := by
  cases tries with
  | zero => exact h
  | succ tries =>
    rw [driveAgain]
    show StateT.bind _ _ state = _
    rw [StateT.bind, h]
    show (match driven.problem? with
      | some _ => _
      | none => pure driven : StateM σ (Driven ε α n)) state' = _
    rw [hnone]
    rfl

/-- A run that a failed evaluation interrupts is driven again. -/
theorem driveAgain_of_eq_some (tries : Nat) {e : ε}
    (h : driveFor callback fuel o x 0 g state = (driven, state'))
    (he : driven.problem? = some e) :
    driveAgain callback fuel (tries + 1) o x g state =
      driveAgain callback fuel tries driven.optimizer driven.x driven.g state' := by
  rw [driveAgain]
  show StateT.bind _ _ state = _
  rw [StateT.bind, h]
  show (match driven.problem? with
    | some _ => _
    | none => pure driven : StateM σ (Driven ε α n)) state' = _
  rw [he]

end Again

/-- Driven again as often as evaluations can fail, a run ends as if none had failed. -/
theorem driveAgain_eq_driveWhole (faults : Faults ε α) {fuel fuel' : Nat} (hfuel : fuel ≤ fuel')
    (tries : Nat) (o : Optimizer α n) (x g : Array α) (count : Nat)
    (htries : faults.ahead count ≤ tries)
    (hend : (driveWhole ε evaluate fuel ⟨o, x, 0, g⟩).result ≠ .error .stalled) :
    (driveAgain (faults.callback evaluate) fuel' tries o x g count).1 =
      driveWhole ε evaluate fuel ⟨o, x, 0, g⟩ := by
  -- each time that the run is driven again, one failure less is to come
  induction tries generalizing fuel o x g count with
  | zero =>
    obtain ⟨⟨driven, count'⟩, hdrive⟩ :
        ∃ r, driveFor (faults.callback evaluate) fuel' o x 0 g count = r := ⟨_, rfl⟩
    rcases interrupted_or_agree faults evaluate fuel' ⟨o, x, 0, g⟩ count hdrive with
      ⟨hagree, hnone⟩ | ⟨answered, l', -, -, hmem, -⟩
    · rw [driveAgain_of_eq_none 0 hdrive hnone, hagree, driveWhole_of_le hfuel hend]
    · have := Faults.ahead_lt (Nat.le_add_right count answered) hmem
      omega
  | succ tries ih =>
    obtain ⟨⟨driven, count'⟩, hdrive⟩ :
        ∃ r, driveFor (faults.callback evaluate) fuel' o x 0 g count = r := ⟨_, rfl⟩
    rcases interrupted_or_agree faults evaluate fuel' ⟨o, x, 0, g⟩ count hdrive with
      ⟨hagree, hnone⟩ | ⟨answered, l', hreach, htask, hmem, rfl, rfl⟩
    · rw [driveAgain_of_eq_none _ hdrive hnone, hagree, driveWhole_of_le hfuel hend]
    · have hahead := Faults.ahead_lt (Nat.le_add_right count answered) hmem
      obtain ⟨rest, hrest, heq⟩ := exists_driveWhole_of_reaches hreach htask hend 0
        (faults.outcome (count + answered) l'.x l'.g).2
      rw [driveAgain_of_eq_some tries hdrive rfl, ← heq]
      refine ih (by omega) _ _ _ _ (by omega) ?_
      rw [heq]
      exact hend

/-- A run that comes to its end, driven again where it was interrupted, ends as if no
evaluation had failed. -/
theorem exists_driveWhole_of_driveAgain (faults : Faults ε α) (fuel tries : Nat)
    (o : Optimizer α n) (x g : Array α) (count : Nat) {driven : Driven ε α n} {count' : Nat}
    (h : driveAgain (faults.callback evaluate) fuel tries o x g count = (driven, count'))
    (hend : driven.result ≠ .error .stalled) (hnone : driven.problem? = none) :
    ∃ enough, driveWhole ε evaluate enough ⟨o, x, 0, g⟩ = driven := by
  induction tries generalizing o x g count with
  | zero =>
    rcases interrupted_or_agree faults evaluate fuel ⟨o, x, 0, g⟩ count h with
      ⟨hagree, -⟩ | ⟨answered, l', -, -, -, -, rfl⟩
    · exact ⟨fuel, hagree.symm⟩
    · cases hnone
  | succ tries ih =>
    obtain ⟨⟨first, count₁⟩, hdrive⟩ :
        ∃ r, driveFor (faults.callback evaluate) fuel o x 0 g count = r := ⟨_, rfl⟩
    rcases interrupted_or_agree faults evaluate fuel ⟨o, x, 0, g⟩ count hdrive with
      ⟨hagree, hfirst⟩ | ⟨answered, l', hreach, htask, -, rfl, rfl⟩
    · rw [driveAgain_of_eq_none _ hdrive hfirst] at h
      cases h
      exact ⟨fuel, hagree.symm⟩
    · rw [driveAgain_of_eq_some tries hdrive rfl] at h
      obtain ⟨enough, henough⟩ := ih _ _ _ _ h
      obtain ⟨made, hmade⟩ := driveWhole_of_reaches (ε := ε) hreach
      refine ⟨made + (enough + 1), ?_⟩
      rw [hmade, driveWhole_congr enough htask _ 0 _
        (faults.outcome (count + answered) l'.x l'.g).2, driveWhole_of_le (Nat.le_succ enough),
        henough]
      rw [henough]
      exact hend

/-- **A failed evaluation loses nothing.**  Let the callback be a function of the point,
except that it fails, leaving anything in the gradient, at finitely many of its
invocations.  A drive that such a failure ends leaves the optimizer and the point as the
last exchange before it left them, with a value to be asked for.  And driven again from
there until nothing fails, the run has the same end as one drive without a failure:
whenever that one comes to its end, as many tries as there are failures are enough for it,
and any end that is reached in this way is the end of that one. -/
theorem interrupted_drive_resumes (faults : Faults ε α) (evaluate : Array α → α × Array α)
    (o : Optimizer α n) (x g : Array α) :
    (∀ fuel count driven count' e,
      driveFor (faults.callback evaluate) fuel o x 0 g count = (driven, count') →
      driven.problem? = some e →
      driven.optimizer.task = .computeFG ∧
      ∃ answered f' g',
        LoopState.Reaches evaluate answered ⟨o, x, 0, g⟩
          ⟨driven.optimizer, driven.x, f', g'⟩ ∧
        count' = count + answered + 1) ∧
    (∀ fuel fuel' tries, fuel ≤ fuel' → faults.failing.card ≤ tries →
      (driveWhole ε evaluate fuel ⟨o, x, 0, g⟩).result ≠ .error .stalled →
      (driveAgain (faults.callback evaluate) fuel' tries o x g 0).1 =
        driveWhole ε evaluate fuel ⟨o, x, 0, g⟩) ∧
    (∀ fuel tries driven count,
      driveAgain (faults.callback evaluate) fuel tries o x g 0 = (driven, count) →
      driven.problem? = none → driven.result ≠ .error .stalled →
      ∃ enough, ∀ fuel' ≥ enough, driveWhole ε evaluate fuel' ⟨o, x, 0, g⟩ = driven) := by
  refine ⟨?_, ?_, ?_⟩
  · intro fuel count driven count' e hdrive hproblem
    rcases interrupted_or_agree faults evaluate fuel ⟨o, x, 0, g⟩ count hdrive with
      ⟨-, hnone⟩ | ⟨answered, l', hreach, htask, -, hcount, rfl⟩
    · rw [hnone] at hproblem
      cases hproblem
    · exact ⟨htask, answered, l'.f, l'.g, hreach, hcount⟩
  · intro fuel fuel' tries hfuel htries hend
    exact driveAgain_eq_driveWhole faults hfuel tries o x g 0 (by rwa [faults.ahead_zero]) hend
  · intro fuel tries driven count hdrive hnone hend
    obtain ⟨enough, henough⟩ :=
      exists_driveWhole_of_driveAgain faults fuel tries o x g 0 hdrive hend hnone
    refine ⟨enough, ?_⟩
    intro fuel' hfuel
    have hnot : (driveWhole ε evaluate enough ⟨o, x, 0, g⟩).result ≠ .error .stalled := by
      rw [henough]
      exact hend
    exact (driveWhole_of_le hfuel hnot).trans henough

/-- The sum of the squares of all variables and its gradient. -/
def squares (x : Array Float) : Float × Array Float :=
  (x.foldl (fun f x => f + x * x) 0, x.map fun x => x + x)

/-- The first and the third evaluation fail and leave no gradient. -/
def twoFaults : Faults Unit Float where
  failing := {0, 2}
  outcome := fun _ _ _ => ((), #[])

/-- A minimization with a budget of three evaluations. -/
def threeEvaluations : Optimizer Float 1 :=
  start #v[3] { maxEvaluations := 3 } {}

/-- Double precision, where two failures interrupt a run that spends its budget. -/
theorem twoFaults_resumed :
    (∃ driven count,
      driveFor (twoFaults.callback squares) 10 threeEvaluations #[3] 0 #[0] 1 = (driven, count) ∧
      driven.problem? = some () ∧ driven.optimizer.task = .computeFG) ∧
      (driveAgain (twoFaults.callback squares) 10 2 threeEvaluations #[3] #[0]
        0).1.optimizer.status = .tooManyEvaluations ∧
      (driveAgain (twoFaults.callback squares) 10 2 threeEvaluations #[3] #[0] 0).1 =
        driveWhole Unit squares 10 ⟨threeEvaluations, #[3], 0, #[0]⟩ := by
  obtain ⟨hleft, hagain, -⟩ :=
    interrupted_drive_resumes twoFaults squares threeEvaluations #[3] #[0]
  constructor
  · have hproblem : (driveFor (twoFaults.callback squares) 10 threeEvaluations #[3] 0 #[0]
        1).1.problem? = some () := by decide +kernel
    exact ⟨_, _, rfl, hproblem, (hleft _ _ _ _ _ rfl hproblem).1⟩
  · have hresult : (driveWhole Unit squares 10
        ⟨threeEvaluations, #[3], 0, #[0]⟩).result.toOption = some .warning := by decide +kernel
    have hstatus : (driveWhole Unit squares 10
        ⟨threeEvaluations, #[3], 0, #[0]⟩).optimizer.status = .tooManyEvaluations := by
      decide +kernel
    have heq := hagain 10 10 2 le_rfl (by decide) (by
      intro hstalled
      rw [hstalled] at hresult
      cases hresult)
    rw [heq]
    exact ⟨hstatus, rfl⟩

end Optimizer

end Descent
