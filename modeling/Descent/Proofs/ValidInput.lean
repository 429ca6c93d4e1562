/-
# Valid input

What a minimization requires of its settings, its starting point and its bounds.  The
requirements come in an order, and what a caller is told about invalid input is which of them
is the first that is not met, whether an optimizer, a failing constructor or a stepper says so.

* `Requirement`, `firstUnmet?` : requirements, and the failure that reports the first one that
  is not met;
* `Config.requirements`, `requirements` : the requirements in their order;
* `Config.InRange`, `Admissible` : what all of them together say;
* `RangeScalar` : the laws of ranges with finite ends;
* `Enforces` : checks that report the first requirement that is not met;
* `enforces_validate`, `Optimizer.enforces_begin?` : the checks of the library are of this kind;
* `Optimizer.starts_iff_admissible` : which input is accepted, and what is said about any other.
-/
import Descent.Minimize.Stepper
import Descent.Proofs.Exchange
import Descent.Proofs.Binary.Signs

namespace Descent

open Scalar OrderedScalar

/-! ## Requirements -/

/-- A condition on the input, and the failure that reports its violation. -/
structure Requirement (α : Type) where
  /-- The input meets the requirement. -/
  met : Prop
  /-- What is said where it does not. -/
  failure : Failure α
  /-- The condition can be decided. -/
  [decidable : Decidable met]

attribute [instance] Requirement.decidable

section Requirements

variable {α : Type} {n : Nat} {r : Requirement α} {rs qs : List (Requirement α)}

/-- The failure that reports the first requirement that is not met, if there is one. -/
def firstUnmet? (rs : List (Requirement α)) : Option (Failure α) :=
  (rs.find? fun r => !decide r.met).map (·.failure)

theorem firstUnmet?_cons :
    firstUnmet? (r :: rs) = if r.met then firstUnmet? rs else some r.failure := by
  by_cases h : r.met <;> simp [firstUnmet?, h]

theorem firstUnmet?_append :
    firstUnmet? (rs ++ qs) = (firstUnmet? rs).or (firstUnmet? qs) := by
  simp [firstUnmet?, List.find?_append, Option.map_or]

/-- All requirements are met. -/
def AllMet (rs : List (Requirement α)) : Prop :=
  ∀ r ∈ rs, r.met

@[simp] theorem allMet_nil : AllMet ([] : List (Requirement α)) := by
  simp [AllMet]

@[simp] theorem allMet_cons : AllMet (r :: rs) ↔ r.met ∧ AllMet rs := by
  simp [AllMet]

@[simp] theorem allMet_append : AllMet (rs ++ qs) ↔ AllMet rs ∧ AllMet qs := by
  simp [AllMet, or_imp, forall_and]

@[simp] theorem allMet_components {demand : Fin n → Option (Requirement α)} :
    AllMet ((List.finRange n).filterMap demand) ↔ ∀ i, ∀ r ∈ demand i, r.met := by
  simp only [AllMet, List.mem_filterMap, List.mem_finRange, true_and, forall_exists_index]
  exact forall_comm

theorem firstUnmet?_eq_none_iff : firstUnmet? rs = none ↔ AllMet rs := by
  simp [firstUnmet?, AllMet]

/-- The first unmet one of the requirements that components may come with. -/
theorem firstUnmet?_components {demand : Fin n → Option (Requirement α)} {passes : Fin n → Bool}
    (h : ∀ i, passes i = (demand i).all fun r => decide r.met) :
    firstUnmet? ((List.finRange n).filterMap demand) =
      ((List.finRange n).find? fun i => !passes i).bind fun i => (demand i).map (·.failure) := by
  have hany (i : Fin n) : (demand i).any (fun r => !decide r.met) = !passes i := by
    rw [h]
    cases demand i <;> simp
  simp [firstUnmet?, List.find?_filterMap, hany, Option.map_bind]

end Requirements

/-! ## What is required -/

section Input

variable {α : Type} [Scalar α] {n : Nat}

/-- The requirements on a gradient tolerance. -/
def toleranceRequirements (name : String) (tolerance : α) : List (Requirement α) :=
  [⟨isFinite tolerance = true, .invalidTolerance name tolerance "Tolerance must be finite."⟩,
    ⟨0 ≤ tolerance, .invalidTolerance name tolerance "Tolerance must be non-negative."⟩]

/-- The requirements on the constants of the line search. -/
def searchRequirements (sftol sgtol sxtol : α) (maxTrials : Option Nat) : List (Requirement α) :=
  [⟨0 < sftol ∧ sftol < 1, .invalidSearchConstant "sftol" sftol "Must satisfy 0 < sftol < 1."⟩,
    ⟨sftol < sgtol ∧ sgtol < 1,
      .invalidSearchConstant "sgtol" sgtol "Must satisfy sftol < sgtol < 1."⟩,
    ⟨0 ≤ sxtol ∧ sxtol < 1, .invalidSearchConstant "sxtol" sxtol "Must satisfy 0 <= sxtol < 1."⟩,
    ⟨maxTrials ≠ some 0,
      .invalidSearchConstant "max_backtracks" 0 "Must be at least 1 when provided."⟩]

/-- The requirements on the settings. -/
def Config.requirements (c : Config α) : List (Requirement α) :=
  toleranceRequirements "gatol" c.gatol ++ (toleranceRequirements "grtol" c.grtol ++
    ([⟨isFinite c.delta = true, .invalidDelta c.delta "Must be finite."⟩,
      ⟨0 < c.delta, .invalidDelta c.delta "Must be strictly positive."⟩] ++
    ([⟨0 ≤ c.epsilon ∧ c.epsilon < 1,
      .invalidEpsilon c.epsilon "Must satisfy 0 <= epsilon < 1."⟩] ++
    (searchRequirements c.sftol c.curvatureTolerance c.sxtol c.maxTrials ++
    ([⟨1 ≤ c.memory, .invalidMemory c.memory "Memory must be greater than zero."⟩] ++
    [⟨1 ≤ c.window, .invalidWindow c.window "Window must be greater than zero."⟩])))))

/-- The requirements on a starting point. -/
def startRequirements (x : Vector α n) : List (Requirement α) :=
  ⟨0 < n, .emptyVariables⟩ ::
    (List.finRange n).filterMap fun i : Fin n =>
      some ⟨isFinite (x.get i) = true, .invalidStart i (x.get i)⟩

/-- The bound of a component on one side of the box. -/
def Side.bound? (i : Nat) : Side α → Option α
  | .unbounded => none
  | .uniform value => some value
  | .componentwise values => values[i]?.join

/-- The requirement on the number of bounds on one side. -/
def Side.lengthRequirements (what : String) (n : Nat) : Side α → List (Requirement α)
  | .componentwise values => [⟨values.size = n, .dimensionMismatch what n values.size⟩]
  | .unbounded | .uniform _ => []

/-- The requirements on one side of the box. -/
def Side.requirements (what : String) (n : Nat) (side : Side α) : List (Requirement α) :=
  side.lengthRequirements what n ++ (List.finRange n).filterMap fun i : Fin n =>
    (side.bound? i).map fun value => ⟨isNaN value = false, .undefinedBound i value⟩

/-- The requirements on the two bounds of one component. -/
def orderRequirement? (i : Nat) : Option α → Option α → Option (Requirement α)
  | some lower, some upper => some ⟨lower ≤ upper, .infeasibleBounds i lower upper⟩
  | _, _ => none

/-- The requirements on bounds, first each side on its own. -/
def Bounds.requirements (b : Bounds α) (n : Nat) : List (Requirement α) :=
  b.lower.requirements "lower bound" n ++ (b.upper.requirements "upper bound" n ++
    (List.finRange n).filterMap fun i : Fin n =>
      orderRequirement? i (b.lower.bound? i) (b.upper.bound? i))

/-- The requirements on the method where bounds are given. -/
def methodRequirements (c : Config α) (b : Bounds α) : List (Requirement α) :=
  [⟨b.isEmpty = true ∨ c.algorithm = .variableMetric, .boundsNotSupported "nlcg"⟩,
    ⟨b.isEmpty = true ∨ c.metric ≠ .lbfgs, .boundsNotSupported "lbfgs"⟩]

/-- All requirements, in their order. -/
def requirements (x : Vector α n) (c : Config α) (b : Bounds α) : List (Requirement α) :=
  c.requirements ++ (startRequirements x ++ (b.requirements n ++ methodRequirements c b))

/-! ## Admissible input -/

/-- The settings are in range. -/
structure Config.InRange (c : Config α) : Prop where
  gatol : isFinite c.gatol = true ∧ 0 ≤ c.gatol
  grtol : isFinite c.grtol = true ∧ 0 ≤ c.grtol
  delta : isFinite c.delta = true ∧ 0 < c.delta
  epsilon : 0 ≤ c.epsilon ∧ c.epsilon < 1
  slopes : 0 < c.sftol ∧ c.sftol < c.curvatureTolerance ∧ c.curvatureTolerance < 1
  sxtol : 0 ≤ c.sxtol ∧ c.sxtol < 1
  maxTrials : ∀ k, c.maxTrials = some k → 1 ≤ k
  memory : 1 ≤ c.memory
  window : 1 ≤ c.window

/-- One side of the box has a bound for every component or for none of its own, and every
bound is a number. -/
structure Side.Defined (side : Side α) (n : Nat) : Prop where
  size : ∀ values, side = .componentwise values → values.size = n
  numbers : ∀ i < n, ∀ value, side.bound? i = some value → isNaN value = false

/-- The input is valid. -/
structure Admissible (x : Vector α n) (c : Config α) (b : Bounds α) : Prop where
  /-- The settings are in range. -/
  settings : c.InRange
  /-- There are variables. -/
  nonempty : 0 < n
  /-- They start from finite values. -/
  finite : ∀ i (_ : i < n), isFinite x[i] = true
  /-- The lower bounds fit. -/
  lower : b.lower.Defined n
  /-- The upper bounds fit. -/
  upper : b.upper.Defined n
  /-- No lower bound lies above the upper one. -/
  ordered : ∀ i < n, ∀ lower upper, b.lower.bound? i = some lower →
    b.upper.bound? i = some upper → lower ≤ upper
  /-- The method respects the bounds, if there are any. -/
  method : b.isEmpty = false →
    c.algorithm = .variableMetric ∧ (c.metric = .blmvm ∨ c.metric = .vmlmb)

/-- Settings are in range where all that is required of them is met. -/
theorem Config.inRange_iff [OrderedScalar α] {c : Config α} :
    c.InRange ↔ AllMet c.requirements := by
  simp only [Config.requirements, toleranceRequirements, searchRequirements, allMet_append,
    allMet_cons, allMet_nil, and_true]
  constructor
  · intro h
    obtain ⟨hpos, hlt, hone⟩ := h.slopes
    refine ⟨h.gatol, h.grtol, h.delta, h.epsilon, ⟨⟨hpos, ?_⟩, ⟨hlt, hone⟩, h.sxtol, ?_⟩, h.memory,
      h.window⟩
    · exact lt_of_lt_of_le hlt (le_of_lt hone)
    · intro hzero
      exact absurd (h.maxTrials 0 hzero) (by decide)
  · rintro ⟨hgatol, hgrtol, hdelta, hepsilon, ⟨⟨hpos, -⟩, ⟨hlt, hone⟩, hsxtol, htrials⟩, hmemory,
      hwindow⟩
    refine ⟨hgatol, hgrtol, hdelta, hepsilon, ⟨hpos, hlt, hone⟩, hsxtol, ?_, hmemory, hwindow⟩
    intro k hk
    rcases Nat.eq_zero_or_pos k with rfl | hk'
    · exact absurd hk htrials
    · exact hk'

/-- Whether settings are in range can be decided. -/
instance [OrderedScalar α] (c : Config α) : Decidable c.InRange :=
  decidable_of_iff _ (firstUnmet?_eq_none_iff.trans Config.inRange_iff.symm)

/-- A side is defined where all that is required of it is met. -/
theorem Side.defined_iff {what : String} {side : Side α} :
    side.Defined n ↔ AllMet (side.requirements what n) := by
  have hsize : AllMet (side.lengthRequirements what n) ↔
      ∀ values, side = .componentwise values → values.size = n := by
    cases side <;> simp [lengthRequirements]
  have hnan : (∀ i : Fin n, ∀ r ∈ (side.bound? i).map fun value : α =>
        (⟨isNaN value = false, .undefinedBound i value⟩ : Requirement α), r.met) ↔
      ∀ i < n, ∀ value, side.bound? i = some value → isNaN value = false := by
    simp [Fin.forall_iff]
  rw [requirements, allMet_append, allMet_components, hsize, hnan]
  exact ⟨fun h => ⟨h.size, h.numbers⟩, fun h => ⟨h.1, h.2⟩⟩

/-- Bounds are in order where all that is required of their order is met. -/
theorem ordered_iff {b : Bounds α} :
    (∀ i < n, ∀ lower upper, b.lower.bound? i = some lower → b.upper.bound? i = some upper →
        lower ≤ upper) ↔
      ∀ i : Fin n, ∀ r ∈ orderRequirement? i (b.lower.bound? i) (b.upper.bound? i), r.met := by
  rw [Fin.forall_iff]
  refine forall₂_congr fun i _ => ?_
  cases b.lower.bound? i <;> cases b.upper.bound? i <;> simp [orderRequirement?]

/-- A method respects bounds where all that is required of it is met. -/
theorem method_iff {c : Config α} {b : Bounds α} :
    (b.isEmpty = false → c.algorithm = .variableMetric ∧ (c.metric = .blmvm ∨ c.metric = .vmlmb)) ↔
      AllMet (methodRequirements c b) := by
  simp only [methodRequirements, allMet_cons, allMet_nil, and_true]
  cases b.isEmpty <;> cases c.metric <;> simp

/-- Input is admissible where all that is required of it is met. -/
theorem admissible_iff [OrderedScalar α] {x : Vector α n} {c : Config α} {b : Bounds α} :
    Admissible x c b ↔ AllMet (requirements x c b) := by
  have hstart : AllMet (startRequirements x) ↔
      0 < n ∧ ∀ i (_ : i < n), isFinite x[i] = true := by
    rw [startRequirements, allMet_cons, allMet_components]
    simp [Fin.forall_iff, Vector.get_eq_getElem]
  simp only [requirements, Bounds.requirements, allMet_append, allMet_components, hstart,
    ← Config.inRange_iff, ← Side.defined_iff, ← ordered_iff, ← method_iff]
  constructor
  · intro h
    exact ⟨h.settings, ⟨h.nonempty, h.finite⟩, ⟨h.lower, h.upper, h.ordered⟩, h.method⟩
  · rintro ⟨hsettings, ⟨hnonempty, hfinite⟩, ⟨hlower, hupper, hordered⟩, hmethod⟩
    exact ⟨hsettings, hnonempty, hfinite, hlower, hupper, hordered, hmethod⟩

/-- Whether input is admissible can be decided. -/
instance [OrderedScalar α] (x : Vector α n) (c : Config α) (b : Bounds α) :
    Decidable (Admissible x c b) :=
  decidable_of_iff _ (firstUnmet?_eq_none_iff.trans admissible_iff.symm)

end Input

/-! ## Checks that enforce requirements -/

section Checks

variable {α β γ : Type} {r : Requirement α} {rs qs : List (Requirement α)}

/-- The failure of a check that does not pass. -/
def rejection? : Except (Failure α) β → Option (Failure α)
  | .ok _ => none
  | .error e => some e

/-- A check passes where all requirements are met and otherwise fails with the failure of the
first one that is not. -/
def Enforces (rs : List (Requirement α)) (check : Except (Failure α) β) : Prop :=
  rejection? check = firstUnmet? rs

theorem enforces_ok (value : β) : Enforces [] (.ok value : Except (Failure α) β) := by
  rfl

/-- A requirement that is met, before others. -/
theorem enforces_of_met {check : Except (Failure α) β} (hmet : r.met) (h : Enforces rs check) :
    Enforces (r :: rs) check := by
  rw [Enforces, firstUnmet?_cons, if_pos hmet]
  exact h

/-- A requirement that is not met, before others. -/
theorem enforces_of_not_met (hmet : ¬ r.met) :
    Enforces (r :: rs) (.error r.failure : Except (Failure α) β) := by
  rw [Enforces, firstUnmet?_cons, if_neg hmet]
  rfl

/-- A test that fails where a requirement is not met, before other checks. -/
theorem enforces_guard {bad : Prop} [Decidable bad] {rest : Except (Failure α) β}
    (hbad : bad ↔ ¬ r.met) (hrest : r.met → Enforces rs rest) :
    Enforces (r :: rs) (if bad then .error r.failure else rest) := by
  by_cases hmet : r.met
  · rw [if_neg (by rwa [hbad, not_not])]
    exact enforces_of_met hmet (hrest hmet)
  · rw [if_pos (hbad.mpr hmet)]
    exact enforces_of_not_met hmet

namespace Enforces

variable {check : Except (Failure α) β}

/-- The failures of a check. -/
theorem eq_error_iff (h : Enforces rs check) {e : Failure α} :
    check = .error e ↔ firstUnmet? rs = some e := by
  rw [← h]
  cases check <;> simp [rejection?]

/-- A check that passes. -/
theorem exists_ok_iff (h : Enforces rs check) : (∃ value, check = .ok value) ↔ AllMet rs := by
  rw [← firstUnmet?_eq_none_iff, ← h]
  cases check <;> simp [rejection?]

/-- One check after another, which may rely on what the first one has found. -/
theorem bind {rest : β → Except (Failure α) γ} (h : Enforces rs check)
    (hrest : ∀ value, check = .ok value → AllMet rs → Enforces qs (rest value)) :
    Enforces (rs ++ qs) (check >>= rest) := by
  rw [Enforces, firstUnmet?_append]
  cases hcheck : check with
  | error e =>
    rw [h.eq_error_iff.mp hcheck]
    rfl
  | ok value =>
    have hmet : AllMet rs := h.exists_ok_iff.mp ⟨value, hcheck⟩
    rw [firstUnmet?_eq_none_iff.mpr hmet, Option.none_or]
    exact hrest value hcheck hmet

/-- What is done with the value of a check changes nothing. -/
theorem map (h : Enforces rs check) (f : β → γ) :
    Enforces rs (check >>= fun value => .ok (f value)) := by
  have hbind : Enforces (rs ++ []) (check >>= fun value => .ok (f value)) :=
    h.bind fun value _ _ => enforces_ok (f value)
  rwa [List.append_nil] at hbind

end Enforces

/-- The first component that fails a test. -/
theorem firstFailing?_finRange {n : Nat} (values : Vector β n) (passes : β → Bool) :
    firstFailing? passes values.toList =
      ((List.finRange n).find? fun i => !passes (values.get i)).map
        fun i => (i.val, values.get i) := by
  have hindexed : values.toList.zipIdx = (List.finRange n).map fun i => (values.get i, i.val) := by
    refine List.ext_getElem (by simp) fun i h _ => ?_
    simp [Vector.get_eq_getElem]
  rw [firstFailing?, hindexed, List.find?_map, Option.map_map]
  rfl

/-- A check of components one by one. -/
theorem enforces_components {n : Nat} (values : Vector β n) (passes : β → Bool)
    {demand : Fin n → Option (Requirement α)} {check : Except (Failure α) γ}
    (hdemand : ∀ i : Fin n, passes (values.get i) = (demand i).all fun r => decide r.met)
    (hfail : ∀ i : Fin n, ∀ r, demand i = some r →
      firstFailing? passes values.toList = some (i.val, values.get i) →
      rejection? check = some r.failure)
    (hpass : firstFailing? passes values.toList = none → rejection? check = none) :
    Enforces ((List.finRange n).filterMap demand) check := by
  rw [Enforces, firstUnmet?_components hdemand]
  have hfirst := firstFailing?_finRange values passes
  cases hfind : (List.finRange n).find? fun i => !passes (values.get i) with
  | none => exact hpass (by rw [hfirst, hfind]; rfl)
  | some i =>
    cases hr : demand i with
    | none =>
      have hfailing : passes (values.get i) = false := by simpa using List.find?_some hfind
      rw [hdemand, hr] at hfailing
      cases hfailing
    | some r =>
      rw [hfail i r hr (by rw [hfirst, hfind]; rfl), Option.bind_some, hr]
      rfl

end Checks

/-! ## Ranges -/

/-- The laws of ranges with finite ends. -/
class RangeScalar (α : Type) [Scalar α] : Prop extends OrderedScalar α where
  /-- Zero is finite. -/
  isFinite_zero : isFinite (0 : α) = true
  /-- One is finite. -/
  isFinite_one : isFinite (1 : α) = true
  /-- What lies between finite values is finite. -/
  isFinite_of_between {a b v : α} : isFinite a = true → isFinite b = true → a ≤ v → v ≤ b →
    isFinite v = true

namespace Binary

/-- Double-precision comparisons obey the laws. -/
instance rangeFloat : RangeScalar Float where
  isFinite_zero := RootScalar.isFinite_zero
  isFinite_one := by decide +kernel
  isFinite_of_between := SignScalar.isFinite_of_between

/-- Single-precision comparisons obey the laws. -/
instance rangeFloat32 : RangeScalar Float32 where
  isFinite_zero := RootScalar.isFinite_zero
  isFinite_one := by decide +kernel
  isFinite_of_between := SignScalar.isFinite_of_between

end Binary

namespace RangeScalar

variable {α : Type} [Scalar α] [RangeScalar α] {low v : α}

theorem lt_iff_not_le (hlow : isFinite low = true) (hv : isFinite v = true) :
    v < low ↔ ¬ low ≤ v :=
  ⟨fun h => (lt_iff.mp h).2, lt_of_not_le (isNaN_of_isFinite hlow) (isNaN_of_isFinite hv)⟩

/-- A finite value lies strictly above an end of a range or not. -/
theorem le_iff_not_lt (hlow : isFinite low = true) (hv : isFinite v = true) :
    v ≤ low ↔ ¬ low < v :=
  ⟨not_lt_of_le, le_of_not_lt (isNaN_of_isFinite hlow) (isNaN_of_isFinite hv)⟩

/-- What lies between a finite end and one is finite. -/
theorem isFinite_of_lt_one (hlow : isFinite low = true) (h : low ≤ v) (hone : v < 1) :
    isFinite v = true :=
  isFinite_of_between hlow isFinite_one h (le_of_lt hone)

/-- The values outside of a range that contains its lower end. -/
theorem outside_closed_iff (hlow : isFinite low = true) :
    ((!isFinite v) = true ∨ v < low ∨ 1 ≤ v) ↔ ¬ (low ≤ v ∧ v < 1) := by
  by_cases hv : isFinite v = true
  · rw [lt_iff_not_le hlow hv, le_iff_not_lt hv isFinite_one]
    simp [hv, imp_iff_not_or]
  · refine iff_of_true (.inl (by simpa using hv)) ?_
    rintro ⟨hle, hone⟩
    exact hv (isFinite_of_lt_one hlow hle hone)

/-- The values outside of a range without its lower end. -/
theorem outside_open_iff (hlow : isFinite low = true) :
    ((!isFinite v) = true ∨ v ≤ low ∨ 1 ≤ v) ↔ ¬ (low < v ∧ v < 1) := by
  by_cases hv : isFinite v = true
  · rw [le_iff_not_lt hlow hv, le_iff_not_lt hv isFinite_one]
    simp [hv, imp_iff_not_or]
  · refine iff_of_true (.inl (by simpa using hv)) ?_
    rintro ⟨hlt, hone⟩
    exact hv (isFinite_of_lt_one hlow (le_of_lt hlt) hone)

end RangeScalar

/-! ## The checks of the library -/

section Library

variable {α : Type} [Scalar α] {n : Nat}

section Settings

variable [RangeScalar α]

theorem enforces_checkTolerance (name : String) (tolerance : α) :
    Enforces (toleranceRequirements name tolerance) (checkTolerance name tolerance) := by
  refine enforces_guard (by simp) fun hfinite => ?_
  have hsign := RangeScalar.lt_iff_not_le RangeScalar.isFinite_zero hfinite
  exact enforces_guard hsign fun _ => enforces_ok ()

theorem enforces_checkDelta (delta : α) :
    Enforces [⟨isFinite delta = true, .invalidDelta delta "Must be finite."⟩,
      ⟨0 < delta, .invalidDelta delta "Must be strictly positive."⟩] (checkDelta delta) := by
  refine enforces_guard (by simp) fun hfinite => ?_
  have hsign := RangeScalar.le_iff_not_lt RangeScalar.isFinite_zero hfinite
  exact enforces_guard hsign fun _ => enforces_ok ()

theorem enforces_checkEpsilon (epsilon : α) :
    Enforces [⟨0 ≤ epsilon ∧ epsilon < 1,
      .invalidEpsilon epsilon "Must satisfy 0 <= epsilon < 1."⟩] (checkEpsilon epsilon) :=
  enforces_guard (RangeScalar.outside_closed_iff RangeScalar.isFinite_zero) fun _ => enforces_ok ()

/-- The check of the constants of the line search. -/
theorem enforces_checkSearchConstants (sftol sgtol sxtol : α) (maxTrials : Option Nat) :
    Enforces (searchRequirements sftol sgtol sxtol maxTrials)
      (checkSearchConstants sftol sgtol sxtol maxTrials) := by
  have hzero : isFinite (0 : α) = true := RangeScalar.isFinite_zero
  refine enforces_guard (RangeScalar.outside_open_iff hzero) ?_
  rintro ⟨hpos, hone⟩
  -- only a finite tolerance can be the lower end of the range of the other one
  have hsftol : isFinite sftol = true := RangeScalar.isFinite_of_lt_one hzero (le_of_lt hpos) hone
  refine enforces_guard (RangeScalar.outside_open_iff hsftol) fun _ => ?_
  refine enforces_guard (RangeScalar.outside_closed_iff hzero) fun _ => ?_
  exact enforces_guard not_not.symm fun _ => enforces_ok ()

omit [Scalar α] [RangeScalar α] in
/-- The checks of sizes. -/
theorem enforces_positive (size : Nat) (e : Failure α) :
    Enforces [⟨1 ≤ size, e⟩] (if size = 0 then .error e else .ok ()) := by
  have hsize : size = 0 ↔ ¬ 1 ≤ size := by omega
  exact enforces_guard hsize fun _ => enforces_ok ()

/-- The check of all settings. -/
theorem enforces_validate (c : Config α) : Enforces c.requirements c.validate := by
  refine (enforces_checkTolerance "gatol" c.gatol).bind fun _ _ _ => ?_
  refine (enforces_checkTolerance "grtol" c.grtol).bind fun _ _ _ => ?_
  refine (enforces_checkDelta c.delta).bind fun _ _ _ => ?_
  refine (enforces_checkEpsilon c.epsilon).bind fun _ _ _ => ?_
  refine (enforces_checkSearchConstants ..).bind fun _ _ _ => ?_
  refine (enforces_positive c.memory _).bind fun _ _ _ => ?_
  exact enforces_positive c.window _

end Settings

/-- The check of a starting point. -/
theorem enforces_checkStart (x : Vector α n) :
    Enforces (startRequirements x) (checkStart x.toArray) := by
  refine enforces_guard (by simp) fun _ => enforces_components x isFinite (by simp) ?_ ?_
  · rintro i r ⟨⟩ hfirst
    rw [show x.toArray.toList = x.toList from rfl, hfirst]
    rfl
  · intro hnone
    rw [show x.toArray.toList = x.toList from rfl, hnone]
    rfl

/-- The check of bounds for values that are not numbers. -/
theorem enforces_checkBounds (values : Vector (Option α) n) :
    Enforces ((List.finRange n).filterMap fun i : Fin n => (values.get i).map fun value =>
      ⟨isNaN value = false, .undefinedBound i value⟩) (checkBounds values) := by
  refine enforces_components values (fun bound => !bound.any isNaN) ?_ ?_ ?_
  · intro i
    cases values.get i <;> simp
  · intro i r hr hfirst
    obtain ⟨value, hvalue, rfl⟩ := Option.map_eq_some_iff.mp hr
    rw [checkBounds, hfirst, hvalue]
    rfl
  · intro hnone
    rw [checkBounds, hnone]
    rfl

/-- Bounds that pass their check are left as they are. -/
theorem eq_of_checkBounds {values checked : Vector (Option α) n}
    (h : checkBounds values = .ok checked) : checked = values := by
  unfold checkBounds at h
  split at h
  · cases h
  · cases h
    rfl

/-- What a side of the box is resolved to. -/
theorem Side.get_of_resolve {what : String} {side : Side α} {values : Vector (Option α) n}
    (h : side.resolve what n = .ok values) (i : Fin n) : values.get i = side.bound? i := by
  cases side with
  | unbounded =>
    cases h
    simp [bound?]
  | uniform value =>
    rw [eq_of_checkBounds h]
    simp [bound?]
  | componentwise given =>
    simp only [resolve] at h
    split at h
    · next hsize =>
      have hi : i.val < given.size := by rw [hsize]; exact i.isLt
      rw [eq_of_checkBounds h]
      simp [bound?, hi]
    · cases h

/-- The check of one side of the box. -/
theorem Side.enforces_resolve (what : String) (side : Side α) :
    Enforces (side.requirements what n) (side.resolve what n) := by
  cases side with
  | unbounded =>
    have hnone : (List.finRange n).filterMap (fun i : Fin n =>
        ((unbounded : Side α).bound? i).map fun value : α =>
          (⟨isNaN value = false, .undefinedBound i value⟩ : Requirement α)) = [] := by
      simp [bound?]
    rw [requirements, lengthRequirements, List.nil_append, hnone]
    exact enforces_ok _
  | uniform value =>
    have hcheck := enforces_checkBounds (Vector.replicate n (some value))
    simpa [requirements, lengthRequirements, bound?, resolve] using hcheck
  | componentwise values =>
    rw [requirements, lengthRequirements, List.singleton_append]
    by_cases hsize : values.size = n
    · rw [resolve, dif_pos hsize]
      have hbound (i : Fin n) :
          (componentwise values).bound? i = (Vector.mk values hsize).get i := by
        have hi : i.val < values.size := by rw [hsize]; exact i.isLt
        simp [bound?, hi]
      simp only [hbound]
      exact enforces_of_met hsize (enforces_checkBounds _)
    · rw [resolve, dif_neg hsize]
      exact enforces_of_not_met hsize

section Crossing

variable [OrderedScalar α]

/-- The check of intervals whose ends are numbers. -/
theorem enforces_checkCrossing (sides : Vector (Interval α) n)
    (hlower : ∀ i : Fin n, ∀ lower, (sides.get i).lower = some lower → isNaN lower = false)
    (hupper : ∀ i : Fin n, ∀ upper, (sides.get i).upper = some upper → isNaN upper = false) :
    Enforces ((List.finRange n).filterMap fun i : Fin n =>
      orderRequirement? i (sides.get i).lower (sides.get i).upper) (checkCrossing sides) := by
  refine enforces_components sides (fun I => !Interval.crossed I) ?_ ?_ ?_
  · intro i
    have hl := hlower i
    have hu := hupper i
    revert hl hu
    rcases sides.get i with ⟨_ | lower, _ | upper⟩
    · simp [Interval.crossed, orderRequirement?]
    · simp [Interval.crossed, orderRequirement?]
    · simp [Interval.crossed, orderRequirement?]
    · intro hl hu
      have horder : ¬ upper < lower ↔ lower ≤ upper :=
        ⟨le_of_not_lt (hu upper rfl) (hl lower rfl), not_lt_of_le⟩
      simp [Interval.crossed, orderRequirement?, ← horder]
  · intro i r hr hfirst
    revert hr hfirst
    rcases sides.get i with ⟨_ | lower, _ | upper⟩
    · rintro ⟨⟩
    · rintro ⟨⟩
    · rintro ⟨⟩
    · rintro ⟨⟩ hfirst
      rw [checkCrossing, hfirst]
      rfl
  · intro hnone
    rw [checkCrossing, hnone]
    rfl

/-- The check of bounds. -/
theorem Bounds.enforces_resolve (b : Bounds α) : Enforces (b.requirements n) (b.resolve n) := by
  refine (b.lower.enforces_resolve _).bind fun lower hlower hmetl => ?_
  refine (b.upper.enforces_resolve _).bind fun upper hupper hmetu => ?_
  have hdefl := (Side.defined_iff.mpr hmetl).numbers
  have hdefu := (Side.defined_iff.mpr hmetu).numbers
  have hsides : ∀ i : Fin n, (Vector.zipWith Interval.mk lower upper).get i =
      ⟨b.lower.bound? i, b.upper.bound? i⟩ := by
    intro i
    rw [← Side.get_of_resolve hlower, ← Side.get_of_resolve hupper]
    simp [Vector.get_eq_getElem]
  have hcheck := enforces_checkCrossing (Vector.zipWith Interval.mk lower upper)
    (fun i => by rw [hsides]; exact hdefl i i.isLt) (fun i => by rw [hsides]; exact hdefu i i.isLt)
  simpa only [hsides] using hcheck

end Crossing

theorem enforces_checkBoundsSupport (c : Config α) {b : Bounds α} {box : Box α n}
    (h : box.bounded = !b.isEmpty) :
    Enforces (methodRequirements c b) (checkBoundsSupport c box) := by
  unfold checkBoundsSupport Enforces methodRequirements
  rw [h]
  cases b.isEmpty <;> cases c.algorithm <;> cases c.metric <;> rfl

/-- The box of bounds that pass their check is bounded if they are given. -/
theorem bounded_of_ofBounds {b : Bounds α} {box : Box α n} (h : Box.ofBounds b n = .ok box) :
    box.bounded = !b.isEmpty := by
  simp only [Box.ofBounds, bind, Except.bind] at h
  split at h
  · cases h
  · cases h
    rfl

namespace Optimizer

/-- The checks before a run. -/
theorem enforces_begin? [RangeScalar α] (x : Vector α n) (c : Config α) (b : Bounds α) :
    Enforces (requirements x c b) (begin? x c b) := by
  refine (enforces_validate c).bind fun _ _ _ => ?_
  refine (enforces_checkStart x).bind fun _ _ _ => ?_
  have hbox : Enforces (b.requirements n) (Box.ofBounds b n) := b.enforces_resolve.map _
  refine hbox.bind fun box hbox _ => ?_
  exact (enforces_checkBoundsSupport c (bounded_of_ofBounds hbox)).map _

variable {x : Vector α n} {c : Config α} {b : Bounds α}

/-- An optimizer whose input passes the checks asks for an evaluation. -/
theorem start_of_begin?_eq_ok {s : Solver α n} (h : begin? x c b = .ok s) :
    (start x c b).task = .computeFG ∧ build x c b = .ok (start x c b) := by
  have hbody : (start x c b).body = .ok s := h
  refine ⟨?_, by simp [build, hbody]⟩
  rw [task, hbody]
  show s.phase.task = .computeFG
  rw [phase_of_begin? h]
  rfl

theorem start_of_begin?_eq_error {e : Failure α} (h : begin? x c b = .error e) :
    (start x c b).task = .inputError ∧ (start x c b).failure? = some e ∧
      build x c b = .error e := by
  have hbody : (start x c b).body = .error e := h
  simp [task, failure?, build, hbody]

/-- Settings out of range are reported before anything else. -/
theorem firstUnmet?_requirements {e : Failure α} (h : firstUnmet? c.requirements = some e) :
    firstUnmet? (requirements x c b) = some e := by
  rw [requirements, firstUnmet?_append, h, Option.some_or]

/-- Exactly the admissible input is accepted.  For any other input the optimizer reports the
failure of the first requirement that is not met, and so does the constructor that fails.  A
stepper is refused where the settings are out of range, for the same reason. -/
theorem starts_iff_admissible [RangeScalar α] (x : Vector α n) (c : Config α) (b : Bounds α) :
    ((start x c b).task = .computeFG ↔ Admissible x c b) ∧
      (Admissible x c b → build x c b = .ok (start x c b)) ∧
      (¬ Admissible x c b → (start x c b).task = .inputError ∧
        ∃ e, firstUnmet? (requirements x c b) = some e ∧ (start x c b).failure? = some e ∧
          build x c b = .error e) ∧
      (c.InRange → Stepper.build c b = .ok { config := c, bounds := b }) ∧
      (¬ c.InRange → ∃ e, firstUnmet? c.requirements = some e ∧ Stepper.build c b = .error e ∧
        (start x c b).failure? = some e) := by
  have hbegin : Enforces (requirements x c b) (begin? x c b) := enforces_begin? x c b
  have hsettings : Enforces c.requirements c.validate := enforces_validate c
  have haccept (h : Admissible x c b) :
      (start x c b).task = .computeFG ∧ build x c b = .ok (start x c b) := by
    obtain ⟨s, hs⟩ := hbegin.exists_ok_iff.mpr (admissible_iff.mp h)
    exact start_of_begin?_eq_ok hs
  have hreject {e : Failure α} (h : firstUnmet? (requirements x c b) = some e) :
      (start x c b).task = .inputError ∧ (start x c b).failure? = some e ∧
        build x c b = .error e :=
    start_of_begin?_eq_error (hbegin.eq_error_iff.mpr h)
  have hreported (h : ¬ Admissible x c b) : ∃ e, firstUnmet? (requirements x c b) = some e := by
    rw [admissible_iff, ← firstUnmet?_eq_none_iff] at h
    exact Option.ne_none_iff_exists'.mp h
  refine ⟨⟨?_, fun h => (haccept h).1⟩, fun h => (haccept h).2, ?_, ?_, ?_⟩
  · intro htask
    by_contra h
    obtain ⟨e, he⟩ := hreported h
    rw [(hreject he).1] at htask
    cases htask
  · intro h
    obtain ⟨e, he⟩ := hreported h
    obtain ⟨htask, hfailure, hbuild⟩ := hreject he
    exact ⟨htask, e, he, hfailure, hbuild⟩
  · intro h
    obtain ⟨u, hu⟩ := hsettings.exists_ok_iff.mpr (Config.inRange_iff.mp h)
    rw [Stepper.build, hu]
    rfl
  · intro h
    rw [Config.inRange_iff, ← firstUnmet?_eq_none_iff] at h
    obtain ⟨e, he⟩ := Option.ne_none_iff_exists'.mp h
    refine ⟨e, he, ?_, (hreject (firstUnmet?_requirements he)).2.1⟩
    rw [Stepper.build, hsettings.eq_error_iff.mpr he]
    rfl

/-- Three variables with a lower bound each, of which the last two lie above the upper one. -/
theorem first_crossing_reported :
    let c : Config Float := { algorithm := .variableMetric, metric := .vmlmb }
    let b : Bounds Float :=
      { lower := .componentwise #[some 0, some 2, some 5], upper := .uniform 1 }
    (start #v[1, 2, 3] c {}).task = .computeFG ∧
      (start #v[1, 2, 3] c b).failure? = some (.infeasibleBounds 1 2 1) ∧
      Stepper.build { c with sftol := 0.9 } b =
        .error (.invalidSearchConstant "sgtol" 0.9 "Must satisfy sftol < sgtol < 1.") := by
  intro c b
  obtain ⟨hiff, -⟩ := starts_iff_admissible #v[1, 2, 3] c {}
  obtain ⟨-, -, hreject, -⟩ := starts_iff_admissible #v[1, 2, 3] c b
  obtain ⟨-, -, -, -, hrange⟩ := starts_iff_admissible #v[1, 2, 3] { c with sftol := 0.9 } b
  refine ⟨hiff.mpr (by decide +kernel), ?_, ?_⟩
  · obtain ⟨-, e, he, hfailure, -⟩ := hreject (by decide +kernel)
    rw [hfailure, ← he]
    decide +kernel
  · obtain ⟨e, he, hbuild, -⟩ := hrange (by decide +kernel)
    have hfirst : firstUnmet? ({ c with sftol := 0.9 } : Config Float).requirements =
        some (.invalidSearchConstant "sgtol" 0.9 "Must satisfy sftol < sgtol < 1.") := by
      decide +kernel
    rw [hbuild, Option.some.inj (he.symm.trans hfirst)]

end Optimizer

end Library

end Descent
