/-
# Estimated gradients

Where an objective has no gradient of its own, central differences are taken first and forward ones
if those fail.  Failures reach the caller of the difference routines through a cell that is cleared
between the passes; the outcome is that of asking for all the values of a pass and looking at the
first failure among them.

* `allOrFirst_eq` : all values or the first failure, in terms of what a routine sees;
* `evaluate_shielded` : the values that a routine sees, and what it leaves in the cell;
* `Objective.checkedGradient_eq` : the checked gradient is the one through the cell;
* `Objective.recording` : objectives that keep a record of the points where they are evaluated;
* `Objective.gradient_falls_back` : which gradient is returned, and after which evaluations.
-/
import Descent.Minimize.Adapter
import Descent.Proofs.Stepping

namespace Descent

open Scalar

variable {σ α : Type} [Scalar α]

/-! ## Computations with a state -/

section States

variable {β τ : Type}

theorem get_bind_apply (rest : τ → StateM τ β) (state : τ) :
    (get >>= rest) state = rest state state :=
  rfl

theorem modify_bind_apply (change : τ → τ) (rest : PUnit → StateM τ β) (state : τ) :
    (modify change >>= rest) state = rest ⟨⟩ (change state) :=
  rfl

end States

/-! ## What a routine sees -/

/-- What a difference routine sees of an answer. -/
def seen {ε : Type} : Except ε α → α
  | .ok value => value
  | .error _ => 0 / 0

/-- The first failure among answers. -/
def firstFailure? {ε β : Type} : List (Except ε β) → Option ε
  | [] => none
  | .error e :: _ => some e
  | .ok _ :: rest => firstFailure? rest

/-- The first failure is that of the first answer, if it is one. -/
theorem firstFailure?_cons {ε β : Type} (answer : Except ε β) (rest : List (Except ε β)) :
    firstFailure? (answer :: rest) = (firstFailure? [answer]).or (firstFailure? rest) := by
  cases answer with
  | ok value => rfl
  | error e => rfl

/-- All the values or the first failure: without a failure all answers have been seen. -/
theorem allOrFirst_eq {ε : Type} (answers : List (Except ε α)) :
    allOrFirst answers =
      match firstFailure? answers with
      | some e => .error e
      | none => .ok (answers.map seen) := by
  induction answers with
  | nil => rfl
  | cons answer rest ih =>
    cases answer with
    | error e => rfl
    | ok value =>
      rw [allOrFirst, ih, firstFailure?]
      cases firstFailure? rest with
      | some e => rfl
      | none => rfl

omit [Scalar α] in
/-- Values alone contain no failure. -/
theorem firstFailure?_map_ok {ε : Type} (values : List α) :
    firstFailure? (values.map (.ok : α → Except ε α)) = none := by
  induction values with
  | nil => rfl
  | cons v rest ih => exact ih

omit [Scalar α] in
/-- The first failure comes after values. -/
theorem firstFailure?_append {ε : Type} (values : List α) (e : ε) (later : List (Except ε α)) :
    firstFailure? (values.map .ok ++ .error e :: later) = some e := by
  induction values with
  | nil => rfl
  | cons v rest ih => exact ih

/-- Values are seen as they are. -/
theorem map_seen_ok {ε : Type} (values : List α) :
    (values.map (.ok : α → Except ε α)).map seen = values := by
  rw [List.map_map]
  exact List.map_id values

/-- Without a failure there are values only. -/
theorem eq_map_ok_of_firstFailure?_eq_none {ε : Type} {answers : List (Except ε α)}
    (h : firstFailure? answers = none) : answers = (answers.map seen).map .ok := by
  induction answers with
  | nil => rfl
  | cons answer rest ih =>
    cases answer with
    | error e => cases h
    | ok v => rw [List.map_cons, List.map_cons, ← ih h, seen]

/-- What the answers of a pass come to. -/
def outcomeOf (dimension : Nat) (quotients : List α → List α)
    (answers : List (Except (Failure α) α)) : Except (Failure α) (Array α) :=
  match firstFailure? answers with
  | some e => .error e
  | none => Objective.checked dimension (quotients (answers.map seen)).toArray

/-- A pass without failures comes to its quotients, if they pass the check. -/
theorem outcomeOf_map_ok (dimension : Nat) (quotients : List α → List α) (values : List α) :
    outcomeOf dimension quotients (values.map .ok) =
      Objective.checked dimension (quotients values).toArray := by
  rw [outcomeOf, firstFailure?_map_ok, map_seen_ok]

namespace Objective

variable {f : Objective σ α} {points : List (Array α)} {quotients : List α → List α}
  {answers : List (Except (Failure α) α)} {state state' : σ}

/-- A value that is asked for through the shield. -/
theorem shielded_apply {x : Array α} {answer : Except (Failure α) α} {cell : Option (Failure α)}
    (h : f.cost x state = (answer, state')) :
    f.shielded x ⟨state, cell⟩ = (seen answer, ⟨state', cell.or (firstFailure? [answer])⟩) := by
  unfold shielded
  rw [get_bind_apply]
  dsimp only
  rw [h]
  cases answer with
  | ok value =>
    rw [firstFailure?, firstFailure?, Option.or_none]
    rfl
  | error e => rfl

/-- **A pass through the shield.**  The routine sees every value that there is, and the cell holds
the first failure, an earlier one or its own; the objective is left as by asking for all values. -/
theorem evaluate_shielded {cell : Option (Failure α)}
    (h : f.costs points state = (answers, state')) :
    evaluate f.shielded points ⟨state, cell⟩ =
      (answers.map seen, ⟨state', cell.or (firstFailure? answers)⟩) := by
  induction points generalizing answers state cell with
  | nil =>
    cases h
    rw [firstFailure?, Option.or_none]
    rfl
  | cons x rest ih =>
    rcases hhere : f.cost x state with ⟨answer, between⟩
    rcases hothers : f.costs rest between with ⟨others, last⟩
    rw [costs, bind_apply hhere, bind_apply hothers] at h
    cases h
    rw [evaluate, bind_apply (shielded_apply hhere), bind_apply (ih hothers), Option.or_assoc,
      ← firstFailure?_cons]
    rfl

/-- What a routine makes of a pass through the shield. -/
theorem run_shielded {count : Nat → Nat} {routine : Differences α count} {x : Array α}
    {cell : Option (Failure α)} (h : f.costs (routine.points x) state = (answers, state')) :
    routine.run f.shielded x ⟨state, cell⟩ =
      ((routine.quotients x (answers.map seen)).toArray,
        ⟨state', cell.or (firstFailure? answers)⟩) := by
  rw [Differences.run, bind_apply (evaluate_shielded h)]
  rfl

/-- An estimate is what the answers of a pass come to. -/
theorem estimate_apply (dimension : Nat) (h : f.costs points state = (answers, state')) :
    f.estimate dimension points quotients state =
      (outcomeOf dimension quotients answers, state') := by
  have houtcome : ((allOrFirst answers).bind fun values =>
      checked dimension (quotients values).toArray) = outcomeOf dimension quotients answers := by
    rw [allOrFirst_eq, outcomeOf]
    cases firstFailure? answers with
    | some e => rfl
    | none => rfl
  rw [estimate, bind_apply h, ← houtcome]
  rfl

variable {central : Differences α (2 * ·)} {forward : Differences α (· + 1)} {x : Array α}
  {later : List (Except (Failure α) α)} {last : σ}

/-- The forward pass comes to what its answers come to, whatever is in the cell. -/
theorem forwardPass_apply {cell : Option (Failure α)}
    (h : f.costs (forward.points x) state = (answers, state')) :
    f.forwardPass forward x ⟨state, cell⟩ =
      (outcomeOf x.size (forward.quotients x) answers, ⟨state', none⟩) := by
  rw [forwardPass, modify_bind_apply, bind_apply (run_shielded h), Option.none_or, outcomeOf]
  cases firstFailure? answers with
  | some e => rfl
  | none => rfl

/-- What the central pass comes to is returned if it is a gradient.  Otherwise the forward pass
decides. -/
theorem differencePasses_apply (hcentral : f.costs (central.points x) state = (answers, state'))
    (hforward : f.costs (forward.points x) state' = (later, last)) :
    f.differencePasses central forward x ⟨state, none⟩ =
      match outcomeOf x.size (central.quotients x) answers with
      | .ok g => (.ok g, ⟨state', none⟩)
      | .error _ => (outcomeOf x.size (forward.quotients x) later, ⟨last, none⟩) := by
  rw [differencePasses, bind_apply (run_shielded hcentral), get_bind_apply, Option.none_or,
    outcomeOf]
  cases firstFailure? answers with
  | some e => exact forwardPass_apply hforward
  | none =>
    dsimp only
    cases checked x.size (central.quotients x (answers.map seen)).toArray with
    | ok g => rfl
    | error e => exact forwardPass_apply hforward

/-- **The cell serves its purpose.**  Asking for all the values of a pass comes to the same as
what reaches the caller of the difference routines through the cell. -/
theorem checkedGradient_eq (f : Objective σ α) (x : Array α) :
    f.checkedGradient x = f.shieldedGradient centralDifferences forwardDifferences x := by
  funext state
  unfold checkedGradient shieldedGradient
  rcases hgradient : f.gradient x state with ⟨answer, state'⟩
  rw [bind_apply hgradient, bind_apply hgradient]
  cases answer with
  | ok g => rfl
  | error e =>
    cases e with
    | gradientNotImplemented =>
      rcases hcentral : f.costs (centralPoints x) state' with ⟨answers, state''⟩
      rcases hforward : f.costs (forwardPoints x) state'' with ⟨later, last⟩
      dsimp only
      rw [get_bind_apply, bind_apply (estimate_apply x.size hcentral),
        differencePasses_apply hcentral hforward]
      dsimp only [centralDifferences, forwardDifferences]
      cases outcomeOf x.size centralQuotients answers with
      | ok g => rfl
      | error e => exact estimate_apply x.size hforward
    | _ => rfl

end Objective

/-! ## Objectives without a state -/

section Records

variable {value : Array α → Except (Failure α) α}
  {gradient : Array α → Except (Failure α) (Array α)}

/-- An answer, which is a failure if its value is not finite. -/
def finiteAnswer (answer : Except (Failure α) α) : Except (Failure α) α :=
  match answer with
  | .ok v => if isFinite v then .ok v else .error (.nonFiniteValue v)
  | .error e => .error e

/-- The checked answers at several points. -/
def answersAt (value : Array α → Except (Failure α) α) (points : List (Array α)) :
    List (Except (Failure α) α) :=
  points.map fun x => finiteAnswer (value x)

namespace Objective

/-- The objective of two functions.  It keeps a record of the points where its value was asked
for. -/
def recording (value : Array α → Except (Failure α) α)
    (gradient : Array α → Except (Failure α) (Array α)) : Objective (List (Array α)) α where
  value x := do
    modify (· ++ [x])
    pure (value x)
  gradient x := pure (gradient x)

/-- The checked value of such an objective. -/
theorem cost_recording (x : Array α) (record : List (Array α)) :
    (recording value gradient).cost x record = (finiteAnswer (value x), record ++ [x]) := by
  have hanswer : ((value x).bind fun v => (checkValue v).map fun _ => v) =
      finiteAnswer (value x) := by
    cases value x with
    | error e => rfl
    | ok v =>
      show (checkValue v).map (fun _ => v) =
        if isFinite v then .ok v else .error (.nonFiniteValue v)
      unfold checkValue
      split
      · rfl
      · rfl
  rw [← hanswer]
  rfl

/-- Its checked values at several points. -/
theorem costs_recording (points : List (Array α)) (record : List (Array α)) :
    (recording value gradient).costs points record =
      (answersAt value points, record ++ points) := by
  induction points generalizing record with
  | nil =>
    rw [List.append_nil]
    rfl
  | cons x rest ih =>
    rw [costs, bind_apply (cost_recording x record), bind_apply (ih _), List.append_assoc]
    rfl

end Objective

end Records

/-! ## The gradient -/

namespace Objective

variable {value : Array α → Except (Failure α) α}
  {gradient : Array α → Except (Failure α) (Array α)} {central : Differences α (2 * ·)}
  {forward : Differences α (· + 1)} {x : Array α} {record : List (Array α)}

/-- An array that passes the check of a gradient is returned as it is. -/
theorem checked_eq_ok_iff {dimension : Nat} {g g' : Array α} :
    checked dimension g = .ok g' ↔ g' = g ∧ checkGradient g dimension = .ok () := by
  unfold checked
  cases checkGradient g dimension with
  | ok u => simp [Except.map, eq_comm]
  | error e => simp [Except.map]

/-- One that does not is a failure. -/
theorem checked_eq_error_iff {dimension : Nat} {g : Array α} {e : Failure α} :
    checked dimension g = .error e ↔ checkGradient g dimension = .error e := by
  unfold checked
  cases checkGradient g dimension with
  | ok u => simp [Except.map]
  | error e => simp [Except.map]

/-- A pass that comes to a gradient has had values only, and its quotients are finite. -/
theorem exists_of_outcomeOf_eq_ok {dimension : Nat} {quotients : List α → List α}
    {answers : List (Except (Failure α) α)} {g : Array α}
    (h : outcomeOf dimension quotients answers = .ok g) :
    ∃ values : List α, answers = values.map .ok ∧ g = (quotients values).toArray ∧
      g.size = dimension ∧ ∀ q ∈ quotients values, isFinite q = true := by
  cases hfailure : firstFailure? answers with
  | some e =>
    rw [outcomeOf, hfailure] at h
    cases h
  | none =>
    refine ⟨answers.map seen, eq_map_ok_of_firstFailure?_eq_none hfailure, ?_⟩
    rw [outcomeOf, hfailure] at h
    obtain ⟨rfl, hcheck⟩ := checked_eq_ok_iff.mp h
    obtain ⟨hsize, hfinite⟩ := checkGradient_eq_ok_iff.mp hcheck
    exact ⟨rfl, hsize, by simpa using hfinite⟩

/-- Values whose quotients are finite, and as many as there should be, come to a gradient. -/
theorem outcomeOf_eq_ok {dimension : Nat} {quotients : List α → List α} {values : List α}
    (hlength : (quotients values).length = dimension)
    (hfinite : ∀ q ∈ quotients values, isFinite q = true) :
    outcomeOf dimension quotients (values.map .ok) = .ok (quotients values).toArray := by
  rw [outcomeOf_map_ok, checked_eq_ok_iff, checkGradient_eq_ok_iff]
  exact ⟨rfl, by simpa using hlength, by simpa using hfinite⟩

/-- Values and a failure come to the failure. -/
theorem outcomeOf_eq_error {dimension : Nat} {quotients : List α → List α} (values : List α)
    (e : Failure α) (later : List (Except (Failure α) α)) :
    outcomeOf dimension quotients (values.map .ok ++ .error e :: later) = .error e := by
  rw [outcomeOf, firstFailure?_append]

/-- The gradient of two functions, with the record of what was asked for. -/
theorem shieldedGradient_recording (x : Array α) (record : List (Array α)) :
    (recording value gradient).shieldedGradient central forward x record =
      match gradient x with
      | .ok g => (checked x.size g, record)
      | .error .gradientNotImplemented =>
        match outcomeOf x.size (central.quotients x) (answersAt value (central.points x)) with
        | .ok g => (.ok g, record ++ central.points x)
        | .error _ =>
          (outcomeOf x.size (forward.quotients x) (answersAt value (forward.points x)),
            record ++ central.points x ++ forward.points x)
      | .error e => (.error e, record) := by
  have hgradient : (recording value gradient).gradient x record = (gradient x, record) := rfl
  rw [shieldedGradient, bind_apply hgradient]
  cases gradient x with
  | ok g => rfl
  | error e =>
    cases e with
    | gradientNotImplemented =>
      dsimp only
      rw [get_bind_apply, differencePasses_apply (costs_recording _ _) (costs_recording _ _)]
      cases outcomeOf x.size (central.quotients x) (answersAt value (central.points x)) with
      | ok g => rfl
      | error e => rfl
    | _ => rfl

/-- What is returned has the dimension of the point and finite components. -/
theorem isFinite_of_shieldedGradient {g : Array α}
    (h : ((recording value gradient).shieldedGradient central forward x record).1 = .ok g) :
    g.size = x.size ∧ ∀ v ∈ g, isFinite v = true := by
  rw [shieldedGradient_recording] at h
  have houtcome {quotients : List α → List α} {answers : List (Except (Failure α) α)}
      (h : outcomeOf x.size quotients answers = .ok g) :
      g.size = x.size ∧ ∀ v ∈ g, isFinite v = true := by
    obtain ⟨values, -, rfl, hsize, hfinite⟩ := exists_of_outcomeOf_eq_ok h
    exact ⟨hsize, by simpa using hfinite⟩
  split at h
  · obtain ⟨rfl, hcheck⟩ := checked_eq_ok_iff.mp h
    exact checkGradient_eq_ok_iff.mp hcheck
  · split at h
    · next hcentral =>
      cases h
      exact houtcome hcentral
    · exact houtcome h
  · cases h

theorem length_eq_count {count : Nat → Nat} {routine : Differences α count} {values : List α}
    (h : answersAt value (routine.points x) = values.map .ok) : values.length = count x.size := by
  rw [← routine.length_points, ← List.length_map Except.ok, ← h, answersAt, List.length_map]

/-- **Which gradient is returned.**  Let the value and the gradient of an objective be functions of
the point, each of which may fail or not be finite, and let one routine take differences at two
points for each coordinate and the other at one for each coordinate and one more.  Then, whatever
has been asked for before:

* with central and forward differences this is the gradient that a minimization works with;
* a gradient that is returned has the dimension of the point and finite components;
* a gradient of the objective's own is returned as it is if it has these, and otherwise the failure
  of the check is, without asking for a value;
* any failure of the objective's gradient except the one that says that there is none is returned,
  without asking for a value;
* without a gradient of its own the values at the points of the first routine are asked for.  If
  all of them are there and finite, and the quotients are finite, these are returned.  Otherwise
  the values at the points of the second one are asked for, and these alone decide: the first
  failure among them is returned, or the quotients, or the failure of the check of these. -/
theorem gradient_falls_back (value : Array α → Except (Failure α) α)
    (gradient : Array α → Except (Failure α) (Array α)) (central : Differences α (2 * ·))
    (forward : Differences α (· + 1)) (x : Array α) (record : List (Array α)) :
    let f := recording value gradient
    let result := (f.shieldedGradient central forward x record).1
    let asked := (f.shieldedGradient central forward x record).2
    f.checkedGradient x = f.shieldedGradient centralDifferences forwardDifferences x ∧
    (central.points x).length = 2 * x.size ∧ (forward.points x).length = x.size + 1 ∧
    (∀ g, result = .ok g → g.size = x.size ∧ ∀ v ∈ g, isFinite v = true) ∧
    (∀ g, gradient x = .ok g → asked = record ∧
      (result = .ok g ↔ g.size = x.size ∧ ∀ v ∈ g, isFinite v = true) ∧
      ∀ e, checkGradient g x.size = .error e → result = .error e) ∧
    (∀ e, gradient x = .error e → e ≠ .gradientNotImplemented →
      asked = record ∧ result = .error e) ∧
    (gradient x = .error .gradientNotImplemented →
      (∀ values : List α, answersAt value (central.points x) = values.map .ok →
        (∀ q ∈ central.quotients x values, isFinite q = true) →
          asked = record ++ central.points x ∧
            result = .ok (central.quotients x values).toArray) ∧
      ((¬ ∃ values : List α, answersAt value (central.points x) = values.map .ok ∧
          ∀ q ∈ central.quotients x values, isFinite q = true) →
        asked = record ++ central.points x ++ forward.points x ∧
        (∀ (values : List α) (e : Failure α) (later : List (Except (Failure α) α)),
          answersAt value (forward.points x) = values.map .ok ++ .error e :: later →
            result = .error e) ∧
        ∀ values : List α, answersAt value (forward.points x) = values.map .ok →
          ((∀ q ∈ forward.quotients x values, isFinite q = true) →
            result = .ok (forward.quotients x values).toArray) ∧
          ∀ e, checkGradient (forward.quotients x values).toArray x.size = .error e →
            result = .error e)) := by
  intro f result asked
  have hanswer : f.shieldedGradient central forward x record = _ :=
    shieldedGradient_recording x record
  refine ⟨f.checkedGradient_eq x, central.length_points x, forward.length_points x, ?_, ?_, ?_, ?_⟩
  · exact fun g hg => isFinite_of_shieldedGradient hg
  · intro g hgradient
    rw [hgradient] at hanswer
    have hresult : result = checked x.size g := congrArg Prod.fst hanswer
    refine ⟨congrArg Prod.snd hanswer, ?_, fun e he => ?_⟩
    · rw [hresult, checked_eq_ok_iff, checkGradient_eq_ok_iff, and_iff_right rfl]
    · rw [hresult, checked_eq_error_iff.mpr he]
  · intro e hgradient hother
    rw [hgradient] at hanswer
    cases e with
    | gradientNotImplemented => exact absurd rfl hother
    | _ => exact ⟨congrArg Prod.snd hanswer, congrArg Prod.fst hanswer⟩
  · intro hgradient
    rw [hgradient] at hanswer
    constructor
    · intro values hvalues hfinite
      have hlength := central.length_quotients x (length_eq_count hvalues)
      have hcentral := outcomeOf_eq_ok hlength hfinite
      rw [hvalues, hcentral] at hanswer
      exact ⟨congrArg Prod.snd hanswer, congrArg Prod.fst hanswer⟩
    · intro hfails
      obtain ⟨e, hcentral⟩ : ∃ e, outcomeOf x.size (central.quotients x)
          (answersAt value (central.points x)) = .error e := by
        cases hcentral : outcomeOf x.size (central.quotients x)
            (answersAt value (central.points x)) with
        | error e => exact ⟨e, rfl⟩
        | ok g =>
          obtain ⟨values, hvalues, -, -, hfinite⟩ := exists_of_outcomeOf_eq_ok hcentral
          exact absurd ⟨values, hvalues, hfinite⟩ hfails
      rw [hcentral] at hanswer
      have hresult : result =
          outcomeOf x.size (forward.quotients x) (answersAt value (forward.points x)) :=
        congrArg Prod.fst hanswer
      refine ⟨congrArg Prod.snd hanswer, fun values e later h => ?_, fun values hvalues => ?_⟩
      · rw [hresult, h, outcomeOf_eq_error]
      · have hlength := forward.length_quotients x (length_eq_count hvalues)
        constructor
        · intro hfinite
          rw [hresult, hvalues, outcomeOf_eq_ok hlength hfinite]
        · intro e he
          rw [hresult, hvalues, outcomeOf_map_ok, checked_eq_error_iff.mpr he]

/-- A function of one variable that is not there to the left of zero. -/
def oneSided (x : Array Float) : Except (Failure Float) Float :=
  if x.any (· < 0) then .error .unknown else .ok (x.sum)

/-- At zero the central differences of this function fail, and the forward ones give its slope. -/
theorem oneSided_gradient :
    let f := recording oneSided fun _ => .error .gradientNotImplemented
    let answer := f.checkedGradient #[0] []
    answer.2 = centralPoints #[0] ++ forwardPoints #[0] ∧ answer.2.length = 4 ∧
      ∃ g, answer.1 = .ok g ∧ g.size = 1 := by
  intro f answer
  have hcentral : (firstFailure? (answersAt oneSided (centralPoints #[0]))).isSome = true := by
    decide +kernel
  have hforward : firstFailure? (answersAt oneSided (forwardPoints #[0])) = none := by
    rw [← Option.isNone_iff_eq_none]
    decide +kernel
  have hfinite : ∀ q ∈ forwardQuotients ((answersAt oneSided (forwardPoints #[0])).map seen),
      isFinite q = true := by
    decide +kernel
  obtain ⟨hsame, htwice, honce, hgradient, -, -, hestimate⟩ :=
    gradient_falls_back oneSided (fun _ => .error .gradientNotImplemented) centralDifferences
      forwardDifferences #[0] []
  obtain ⟨hasked, -, hvalues⟩ := (hestimate rfl).2 (by
    rintro ⟨values, hvalues, -⟩
    rw [show answersAt oneSided (centralPoints #[0]) = _ from hvalues, firstFailure?_map_ok]
      at hcentral
    cases hcentral)
  obtain ⟨hresult, -⟩ := hvalues _ (eq_map_ok_of_firstFailure?_eq_none hforward)
  have hanswer : answer = _ := congrFun hsame []
  rw [hanswer]
  refine ⟨hasked, ?_, _, hresult hfinite, (hgradient _ (hresult hfinite)).1⟩
  rw [hasked, List.length_append, List.length_append, htwice, honce]
  rfl

end Objective

end Descent
