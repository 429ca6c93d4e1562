/-
# Validity

The ranges in which settings, dimensions, starting points and answers have to
lie.  Every check reports the first value that is out of range.

* `Config.validate` : the settings;
* `checkDimension`, `checkStart`, `checkGradient`, `checkValue` : the vectors and
  values that a caller passes in.
-/
import Descent.Config

namespace Descent

open Scalar

/-- A result that passes a test is there. -/
theorem exists_ok_of_any {ε β : Type} {result : Except ε β} {passes : β → Bool}
    (h : result.toOption.any passes = true) : ∃ value, result = .ok value ∧ passes value = true := by
  cases result with
  | error e => cases h
  | ok value => exact ⟨value, rfl, h⟩

variable {α : Type} [Scalar α]

/-! ## Settings -/

/-- A gradient tolerance is finite and not negative. -/
def checkTolerance (name : String) (value : α) : Except (Failure α) Unit :=
  if !isFinite value then
    .error (.invalidTolerance name value "Tolerance must be finite.")
  else if value < 0 then
    .error (.invalidTolerance name value "Tolerance must be non-negative.")
  else .ok ()

/-- The relative size of a first step is finite and positive. -/
def checkDelta (delta : α) : Except (Failure α) Unit :=
  if !isFinite delta then .error (.invalidDelta delta "Must be finite.")
  else if delta ≤ 0 then .error (.invalidDelta delta "Must be strictly positive.")
  else .ok ()

/-- The descent threshold lies in `[0, 1)`. -/
def checkEpsilon (epsilon : α) : Except (Failure α) Unit :=
  if !isFinite epsilon ∨ epsilon < 0 ∨ 1 ≤ epsilon then
    .error (.invalidEpsilon epsilon "Must satisfy 0 <= epsilon < 1.")
  else .ok ()

/-- The constants of the line search satisfy `0 < sftol < sgtol < 1` and
`0 ≤ sxtol < 1`, and a limit on the trials is at least one. -/
def checkSearchConstants (sftol sgtol sxtol : α) (maxTrials : Option Nat) :
    Except (Failure α) Unit :=
  if !isFinite sftol ∨ sftol ≤ 0 ∨ 1 ≤ sftol then
    .error (.invalidSearchConstant "sftol" sftol "Must satisfy 0 < sftol < 1.")
  else if !isFinite sgtol ∨ sgtol ≤ sftol ∨ 1 ≤ sgtol then
    .error (.invalidSearchConstant "sgtol" sgtol "Must satisfy sftol < sgtol < 1.")
  else if !isFinite sxtol ∨ sxtol < 0 ∨ 1 ≤ sxtol then
    .error (.invalidSearchConstant "sxtol" sxtol "Must satisfy 0 <= sxtol < 1.")
  else if maxTrials = some 0 then
    .error (.invalidSearchConstant "max_backtracks" 0 "Must be at least 1 when provided.")
  else .ok ()

/-- At least one curvature pair is kept. -/
def checkMemory (size : Nat) : Except (Failure α) Unit :=
  if size = 0 then .error (.invalidMemory size "Memory must be greater than zero.")
  else .ok ()

/-- The nonmonotone window holds at least one value. -/
def checkWindow (length : Nat) : Except (Failure α) Unit :=
  if length = 0 then .error (.invalidWindow length "Window must be greater than zero.")
  else .ok ()

/-- Every setting is in range. -/
def Config.validate (c : Config α) : Except (Failure α) Unit := do
  checkTolerance "gatol" c.gatol
  checkTolerance "grtol" c.grtol
  checkDelta c.delta
  checkEpsilon c.epsilon
  checkSearchConstants c.sftol c.curvatureTolerance c.sxtol c.maxTrials
  checkMemory c.memory
  checkWindow c.window

/-- Settings that are in range have each passed their check. -/
theorem Config.checks_of_validate {c : Config α} (h : c.validate = .ok ()) :
    checkTolerance "gatol" c.gatol = .ok () ∧ checkTolerance "grtol" c.grtol = .ok () ∧
      checkDelta c.delta = .ok () ∧ checkEpsilon c.epsilon = .ok () ∧
      checkSearchConstants c.sftol c.curvatureTolerance c.sxtol c.maxTrials = .ok () ∧
      checkMemory (α := α) c.memory = .ok () ∧ checkWindow (α := α) c.window = .ok () := by
  have hbind {e e' : Except (Failure α) Unit} (h : (do e; e') = .ok ()) :
      e = .ok () ∧ e' = .ok () := by
    cases e with
    | error failure => cases h
    | ok u => exact ⟨rfl, h⟩
  obtain ⟨hgatol, h⟩ := hbind h
  obtain ⟨hgrtol, h⟩ := hbind h
  obtain ⟨hdelta, h⟩ := hbind h
  obtain ⟨hepsilon, h⟩ := hbind h
  obtain ⟨hsearch, h⟩ := hbind h
  obtain ⟨hmemory, hwindow⟩ := hbind h
  exact ⟨hgatol, hgrtol, hdelta, hepsilon, hsearch, hmemory, hwindow⟩

/-! ## Vectors and values -/

/-- The index and value of the first element of a list that fails a test. -/
def firstFailing? {β : Type} (passes : β → Bool) (values : List β) : Option (Nat × β) :=
  (values.zipIdx.find? fun (value, _) => !passes value).map fun (value, index) => (index, value)

/-- Nothing fails a test that all elements pass. -/
theorem firstFailing?_eq_none {β : Type} {passes : β → Bool} {values : List β}
    (h : firstFailing? passes values = none) {v : β} (hv : v ∈ values) : passes v = true := by
  simp only [firstFailing?, Option.map_eq_none_iff, List.find?_eq_none] at h
  obtain ⟨i, hi, rfl⟩ := List.getElem_of_mem hv
  have hmem : (values[i], i) ∈ values.zipIdx := by
    rw [List.mk_mem_zipIdx_iff_getElem?]
    simp [hi]
  simpa using h _ hmem

/-- Where all elements pass a test, nothing fails it. -/
theorem firstFailing?_of_forall {β : Type} {passes : β → Bool} {values : List β}
    (h : ∀ v ∈ values, passes v = true) : firstFailing? passes values = none := by
  simp only [firstFailing?, Option.map_eq_none_iff, List.find?_eq_none]
  rintro ⟨v, i⟩ hmem
  have hv : v ∈ values := List.fst_mem_of_mem_zipIdx hmem
  simp [h v hv]

/-- What fails a test first fails it. -/
theorem firstFailing?_eq_some {β : Type} {passes : β → Bool} {values : List β} {i : Nat} {v : β}
    (h : firstFailing? passes values = some (i, v)) : passes v = false := by
  simp only [firstFailing?, Option.map_eq_some_iff] at h
  obtain ⟨⟨w, j⟩, hfind, heq⟩ := h
  cases heq
  simpa using List.find?_some hfind

/-- A vector has the dimension of the problem. -/
def checkDimension (what : String) (found expected : Nat) : Except (Failure α) Unit :=
  if found = expected then .ok () else .error (.dimensionMismatch what expected found)

/-- A starting point has components, all of them finite. -/
def checkStart (x : Array α) : Except (Failure α) Unit :=
  if x.isEmpty then .error .emptyVariables
  else
    match firstFailing? isFinite x.toList with
    | some (index, value) => .error (.invalidStart index value)
    | none => .ok ()

/-- A starting point that passes the check has finite components. -/
theorem isFinite_of_checkStart {x : Array α} (h : checkStart x = .ok ()) {v : α} (hv : v ∈ x) :
    isFinite v = true := by
  unfold checkStart at h
  split at h
  · cases h
  · split at h
    · cases h
    · next hnone => exact firstFailing?_eq_none hnone (by simpa using hv)

/-- A starting point with components, all of them finite, passes the check. -/
theorem checkStart_of_isFinite {x : Array α} (hsize : 0 < x.size)
    (h : ∀ v ∈ x, isFinite v = true) : checkStart x = .ok () := by
  have hnonempty : x.isEmpty = false := by
    rw [Array.isEmpty_eq_false_iff, ne_eq, ← Array.size_eq_zero_iff]
    omega
  have hpass : firstFailing? isFinite x.toList = none :=
    firstFailing?_of_forall (by simpa using h)
  unfold checkStart
  rw [hnonempty, if_neg Bool.false_ne_true, hpass]

/-- The components of a gradient are finite. -/
def checkFiniteGradient (g : Array α) : Except (Failure α) Unit :=
  match firstFailing? isFinite g.toList with
  | some (index, value) =>
    .error (.invalidGradient index value "Gradient elements must be finite.")
  | none => .ok ()

/-- A gradient has the dimension of the problem and finite components. -/
def checkGradient (g : Array α) (dimension : Nat) : Except (Failure α) Unit := do
  checkDimension "gradient" g.size dimension
  checkFiniteGradient g

/-- The gradients that pass the check. -/
theorem checkGradient_eq_ok_iff {g : Array α} {dimension : Nat} :
    checkGradient g dimension = .ok () ↔ g.size = dimension ∧ ∀ v ∈ g, isFinite v = true := by
  have hcheck : checkGradient g dimension =
      if g.size = dimension then checkFiniteGradient g
      else .error (.dimensionMismatch "gradient" dimension g.size) := by
    unfold checkGradient checkDimension
    split
    · rfl
    · rfl
  rw [hcheck]
  constructor
  · intro h
    split at h
    · next hsize =>
      unfold checkFiniteGradient at h
      split at h
      · cases h
      · next hnone => exact ⟨hsize, fun v hv => firstFailing?_eq_none hnone (by simpa using hv)⟩
    · cases h
  · rintro ⟨hsize, hfinite⟩
    have hpass : firstFailing? isFinite g.toList = none :=
      firstFailing?_of_forall (by simpa using hfinite)
    rw [if_pos hsize, checkFiniteGradient, hpass]

/-- An objective value is finite. -/
def checkValue (value : α) : Except (Failure α) Unit :=
  if isFinite value then .ok () else .error (.nonFiniteValue value)

end Descent
