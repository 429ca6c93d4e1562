/-
# Symmetries of starts

Settings, starting point and bounds are accepted together with their images, and where they are
not, it is for a reason of the same kind.  Which component is named as the reason may differ.

* `Symmetry.bounds` : bounds under a symmetry, component by component;
* `Alike` : two results that are related, or failures of the same kind;
* `outcome_resolve` : when bounds are accepted;
* `mirrors_initial`, `alike_begin?` : runs begin together.
-/
import Mathlib
import Descent.Proofs.Exchange
import Descent.Proofs.Symmetry.Runs

namespace Descent

open Scalar ExactScalar StrictScalar

variable {α : Type} {n : Nat}

/-! ## Bounds by components -/

/-- The bound of each component on one side, unless there are too many or too few. -/
def Side.ends? (n : Nat) : Side α → Option (Vector (Option α) n)
  | .unbounded => some (Vector.replicate n none)
  | .uniform value => some (Vector.replicate n (some value))
  | .componentwise values => if h : values.size = n then some ⟨values, h⟩ else none

/-- The interval of each component, in order or not. -/
def Bounds.sides? (b : Bounds α) (n : Nat) : Option (Vector (Interval α) n) :=
  (b.lower.ends? n).bind fun lower =>
    (b.upper.ends? n).map fun upper => Vector.zipWith Interval.mk lower upper

/-- The bounds that give each component its interval. -/
def Bounds.ofSides (sides : Vector (Interval α) n) : Bounds α :=
  { lower := .componentwise (sides.map (·.lower)).toArray
    upper := .componentwise (sides.map (·.upper)).toArray }

@[simp] theorem Bounds.sides?_ofSides (sides : Vector (Interval α) n) :
    (ofSides sides).sides? n = some sides := by
  have hends (v : Vector (Option α) n) : (Side.componentwise v.toArray).ends? n = some v := by
    simp [Side.ends?]
  rw [sides?, ofSides, hends, hends, Option.bind_some, Option.map_some]
  congr 1
  ext i hi
  all_goals simp

@[simp] theorem Bounds.isEmpty_ofSides (sides : Vector (Interval α) n) :
    (ofSides sides).isEmpty = false := by
  rfl

variable [Scalar α]

/-- The same bounds under a symmetry, given by components.  Bounds in the wrong number have
no components. -/
def Symmetry.bounds (T : Symmetry n) (b : Bounds α) : Bounds α :=
  if b.isEmpty then b
  else
    match b.sides? n with
    | some sides => .ofSides (T.sides sides)
    | none => b

@[simp] theorem Symmetry.bounds_ofSides (T : Symmetry n) (sides : Vector (Interval α) n) :
    T.bounds (.ofSides sides) = .ofSides (T.sides sides) := by
  rw [Symmetry.bounds, Bounds.isEmpty_ofSides, Bounds.sides?_ofSides]
  rfl

/-- Whether there are bounds at all stays the same. -/
@[simp] theorem Symmetry.isEmpty_bounds (T : Symmetry n) (b : Bounds α) :
    (T.bounds b).isEmpty = b.isEmpty := by
  unfold Symmetry.bounds
  cases hempty : b.isEmpty with
  | true => exact hempty
  | false =>
    rw [if_neg Bool.false_ne_true]
    split
    · rfl
    · exact hempty

/-! ## Results that are alike -/

/-- The status that a failure leaves where a run cannot begin. -/
def Failure.startStatus : Failure α → Status
  | .infeasibleBounds .. => .infeasibleBounds
  | _ => .invalidArgument

/-- A result, or the status that its failure leaves. -/
def startOutcome {β : Type} (r : Except (Failure α) β) : Except Status β :=
  r.mapError Failure.startStatus

/-- Two results are alike: they are related, or failures with the same status. -/
inductive Alike {β γ : Type} (R : β → γ → Prop) :
    Except (Failure α) β → Except (Failure α) γ → Prop
  | ok {b : β} {b' : γ} (h : R b b') : Alike R (.ok b) (.ok b')
  | error {e e' : Failure α} (h : e.startStatus = e'.startStatus) : Alike R (.error e) (.error e')

omit [Scalar α] in
/-- Results that are alike lead to results that are alike. -/
theorem Alike.bind {β γ β' γ' : Type} {R : β → γ → Prop} {R' : β' → γ' → Prop}
    {r : Except (Failure α) β} {r' : Except (Failure α) γ} (h : Alike R r r')
    {f : β → Except (Failure α) β'} {f' : γ → Except (Failure α) γ'}
    (hf : ∀ b b', R b b' → Alike R' (f b) (f' b')) : Alike R' (r >>= f) (r' >>= f') := by
  cases h with
  | ok h => exact hf _ _ h
  | error h => exact .error h

omit [Scalar α] in
theorem alike_refl {β : Type} {R : β → β → Prop} (r : Except (Failure α) β)
    (h : ∀ b, r = .ok b → R b b) : Alike R r r := by
  cases r with
  | ok b => exact .ok (h b rfl)
  | error e => exact .error rfl

omit [Scalar α] in
/-- Results are alike where their outcomes are the same. -/
theorem alike_of_outcome {β γ : Type} {r : Except (Failure α) β} {r' : Except (Failure α) γ}
    {g : β → γ} (h : startOutcome r' = (startOutcome r).map g) :
    Alike (fun b b' => b' = g b) r r' := by
  cases r with
  | ok b =>
    cases r' with
    | ok b' => exact .ok (Except.ok.inj h)
    | error e' => cases h
  | error e =>
    cases r' with
    | ok b' => cases h
    | error e' => exact .error (Except.error.inj h).symm

/-! ## When input is accepted -/

/-- An interval whose ends are numbers. -/
def Interval.defined (I : Interval α) : Bool :=
  !I.lower.any isNaN && !I.upper.any isNaN

omit [Scalar α] in
/-- What follows a result follows its startOutcome. -/
theorem startOutcome_bind {β γ : Type} (r : Except (Failure α) β) (f : β → Except (Failure α) γ) :
    startOutcome (r >>= f) = startOutcome r >>= fun b => startOutcome (f b) := by
  cases r with
  | ok b => rfl
  | error e => rfl

omit [Scalar α] in
/-- All components of a vector pass a test, or one of them is found that fails it. -/
theorem firstFailing?_toList (passes : α → Bool) (v : Vector α n) :
    firstFailing? passes v.toList = none ∧ (∀ i (_ : i < n), passes v[i] = true) ∨
      ∃ i, ∃ hi : i < n, firstFailing? passes v.toList = some (i, v[i]) ∧ passes v[i] = false := by
  cases hfirst : firstFailing? passes v.toList with
  | none =>
    left
    refine ⟨rfl, ?_⟩
    intro i hi
    have hmem : v[i] ∈ v.toList := by
      rw [Vector.mem_toList_iff]
      exact Vector.getElem_mem hi
    exact firstFailing?_eq_none hfirst hmem
  | some found =>
    right
    have hfails := firstFailing?_eq_some hfirst
    simp only [firstFailing?, Option.map_eq_some_iff] at hfirst
    obtain ⟨⟨value, i⟩, hfind, rfl⟩ := hfirst
    obtain ⟨hi, hvalue⟩ := List.mem_zipIdx' (List.mem_of_find?_eq_some hfind)
    have hi' : i < n := by simpa using hi
    have hvalue' : value = v[i] := by simpa using hvalue
    exact ⟨i, hi', by rw [hvalue'], hvalue' ▸ hfails⟩

/-- Bounds on one side are accepted if all are numbers. -/
theorem outcome_checkBounds (values : Vector (Option α) n) :
    startOutcome (checkBounds values) =
      if ∀ i (_ : i < n), values[i].any isNaN = false then .ok values
      else .error .invalidArgument := by
  unfold checkBounds
  rcases firstFailing?_toList (fun bound => !bound.any isNaN) values with
    ⟨hnone, hall⟩ | ⟨i, hi, hsome, hfails⟩
  · rw [hnone, if_pos (by simpa using hall)]
    rfl
  · rw [if_neg (fun hall => by simp [hall i hi] at hfails), hsome]
    cases hvalue : values[i] with
    | none => simp [hvalue] at hfails
    | some value => rfl

/-- Intervals are accepted if none is crossed. -/
theorem outcome_checkCrossing (sides : Vector (Interval α) n) :
    startOutcome (checkCrossing sides) =
      if ∀ i (_ : i < n), sides[i].crossed = false then .ok sides
      else .error .infeasibleBounds := by
  unfold checkCrossing
  rcases firstFailing?_toList (fun I => !Interval.crossed I) sides with
    ⟨hnone, hall⟩ | ⟨i, hi, hsome, hfails⟩
  · rw [hnone, if_pos (by simpa using hall)]
    rfl
  · rw [if_neg (fun hall => by simp [hall i hi] at hfails), hsome]
    -- what is crossed has two ends
    rcases hside : sides[i] with ⟨_ | lower, _ | upper⟩
    · simp [hside, Interval.crossed] at hfails
    · simp [hside, Interval.crossed] at hfails
    · simp [hside, Interval.crossed] at hfails
    · rfl

/-- A starting point is accepted if it has components and all are finite. -/
theorem outcome_checkStart (x : Vector α n) :
    startOutcome (checkStart x.toArray) =
      if 0 < n ∧ ∀ i (_ : i < n), isFinite x[i] = true then .ok ()
      else .error .invalidArgument := by
  have hempty : x.toArray.isEmpty = true ↔ ¬ 0 < n := by simp
  have hlist : x.toArray.toList = x.toList := rfl
  unfold checkStart
  by_cases hn : 0 < n
  · rw [if_neg (mt hempty.mp (not_not.mpr hn)), hlist]
    rcases firstFailing?_toList isFinite x with ⟨hnone, hall⟩ | ⟨i, hi, hsome, hfails⟩
    · rw [hnone, if_pos ⟨hn, hall⟩]
      rfl
    · rw [hsome, if_neg (fun hall => by simp [hall.2 i hi] at hfails)]
      rfl
  · rw [if_pos (hempty.mpr hn), if_neg (fun hall => hn hall.1)]
    rfl

/-- One side is checked as the bounds of its components. -/
theorem resolve_of_ends? {side : Side α} {values : Vector (Option α) n}
    (h : side.ends? n = some values) (what : String) :
    side.resolve what n = checkBounds values := by
  cases side with
  | unbounded =>
    cases h
    have hpass : firstFailing? (fun bound : Option α => !bound.any isNaN)
        (Vector.replicate n none).toList = none :=
      firstFailing?_of_forall (by simp)
    rw [checkBounds, hpass]
    rfl
  | uniform value =>
    cases h
    rfl
  | componentwise array =>
    simp only [Side.ends?] at h
    split at h
    · next hsize =>
      cases h
      rw [Side.resolve, dif_pos hsize]
    · cases h

/-- **Bounds.**  Bounds are accepted if all are numbers and none of the intervals is crossed. -/
theorem outcome_resolve {b : Bounds α} {sides : Vector (Interval α) n}
    (h : b.sides? n = some sides) :
    startOutcome (b.resolve n) =
      if ∀ i (_ : i < n), sides[i].defined = true then
        if ∀ i (_ : i < n), sides[i].crossed = false then .ok sides else .error .infeasibleBounds
      else .error .invalidArgument := by
  simp only [Bounds.sides?, Option.bind_eq_some_iff, Option.map_eq_some_iff] at h
  obtain ⟨lower, hlower, upper, hupper, rfl⟩ := h
  rw [Bounds.resolve, resolve_of_ends? hlower, resolve_of_ends? hupper]
  simp only [startOutcome_bind, outcome_checkBounds, outcome_checkCrossing]
  have hdefined : (∀ i (_ : i < n), (Vector.zipWith Interval.mk lower upper)[i].defined = true) ↔
      (∀ i (_ : i < n), lower[i].any isNaN = false) ∧
        ∀ i (_ : i < n), upper[i].any isNaN = false := by
    simp [Interval.defined, forall_and]
  rw [if_congr hdefined rfl rfl]
  by_cases hlow : ∀ i (_ : i < n), lower[i].any isNaN = false
  · by_cases hupp : ∀ i (_ : i < n), upper[i].any isNaN = false
    · rw [if_pos hlow, if_pos hupp, if_pos (And.intro hlow hupp)]
      rfl
    · rw [if_pos hlow, if_neg hupp, if_neg (mt And.right hupp)]
      rfl
  · rw [if_neg hlow, if_neg (mt And.left hlow)]
    rfl

/-- Valid intervals are accepted as bounds. -/
theorem resolve_ofSides {sides : Vector (Interval α) n} (h : ∀ i (_ : i < n), sides[i].Valid) :
    (Bounds.ofSides sides).resolve n = .ok sides := by
  have hdefined : ∀ i (_ : i < n), sides[i].defined = true := by
    intro i hi
    rw [Interval.defined, Bool.and_eq_true, Bool.not_eq_true', Bool.not_eq_true',
      Option.any_eq_false, Option.any_eq_false]
    exact ⟨by simpa using (h i hi).lower, by simpa using (h i hi).upper⟩
  have houtcome := outcome_resolve (Bounds.sides?_ofSides sides)
  rw [if_pos hdefined, if_pos fun i hi => (h i hi).uncrossed] at houtcome
  cases hresolve : (Bounds.ofSides sides).resolve n with
  | error e =>
    rw [hresolve] at houtcome
    cases houtcome
  | ok sides' =>
    rw [hresolve] at houtcome
    exact congrArg _ (Except.ok.inj houtcome)

/-- Bounds in the wrong number are not accepted. -/
theorem resolve_of_sides?_eq_none {b : Bounds α} (h : b.sides? n = none) :
    ∃ e, b.resolve n = .error e := by
  have hside {side : Side α} (hends : side.ends? n = none) (what : String) :
      ∃ e, side.resolve what n = .error e := by
    cases side with
    | unbounded => cases hends
    | uniform value => cases hends
    | componentwise array =>
      have hsize : array.size ≠ n := by simpa [Side.ends?] using hends
      exact ⟨_, dif_neg hsize⟩
  cases hlower : b.lower.ends? n with
  | none =>
    obtain ⟨e, he⟩ := hside hlower "lower bound"
    exact ⟨e, by rw [Bounds.resolve, he]; rfl⟩
  | some lower =>
    have hupper : b.upper.ends? n = none := by simpa [Bounds.sides?, hlower] using h
    obtain ⟨e, he⟩ := hside hupper "upper bound"
    rw [Bounds.resolve, he]
    cases b.lower.resolve "lower bound" n with
    | error e' => exact ⟨e', rfl⟩
    | ok lower => exact ⟨e, rfl⟩

/-! ## Input and its image -/

variable [ExactScalar α] [StrictScalar α] (T : Symmetry n)

theorem Interval.defined_mirror (flip : Bool) (I : Interval α) :
    (I.mirror flip).defined = I.defined := by
  cases flip with
  | false => rfl
  | true =>
    rcases I with ⟨_ | lo, _ | hi⟩
    all_goals simp [mirror, defined, Bool.and_comm]

/-- A starting point is accepted with its image. -/
theorem alike_checkStart (x : Vector α n) :
    Alike (fun done done' => done' = id done) (checkStart x.toArray)
      (checkStart (T.act x).toArray) := by
  apply alike_of_outcome
  rw [Except.map_id, outcome_checkStart, outcome_checkStart]
  exact if_congr (and_congr_right' (isFinite_act_iff T x)) rfl rfl

omit [ExactScalar α] [StrictScalar α] [Scalar α] in
/-- Bounds of which neither side is given. -/
theorem eq_empty_of_isEmpty {b : Bounds α} (h : b.isEmpty = true) : b = {} := by
  obtain ⟨lower, upper⟩ := b
  cases lower with
  | unbounded =>
    cases upper with
    | unbounded => rfl
    | uniform value => cases h
    | componentwise values => cases h
  | uniform value => cases h
  | componentwise values => cases h

/-- Bounds given by components are accepted with their image. -/
theorem outcome_resolve_sides {b : Bounds α} {sides : Vector (Interval α) n}
    (h : b.sides? n = some sides) :
    startOutcome ((Bounds.ofSides (T.sides sides)).resolve n) =
      (startOutcome (b.resolve n)).map T.sides := by
  have hdefined : (∀ i (hi : i < n), sides[T.order ⟨i, hi⟩].defined = true) ↔
      ∀ i (_ : i < n), sides[i].defined = true :=
    T.forall_order (p := fun i => sides[i].defined = true)
  have hcrossed : (∀ i (hi : i < n), sides[T.order ⟨i, hi⟩].crossed = false) ↔
      ∀ i (_ : i < n), sides[i].crossed = false :=
    T.forall_order (p := fun i => sides[i].crossed = false)
  rw [outcome_resolve h, outcome_resolve (Bounds.sides?_ofSides (T.sides sides))]
  simp only [Symmetry.getElem_sides, getElem_rearrange, Interval.defined_mirror,
    Interval.crossed_mirror]
  rw [if_congr hdefined (if_congr hcrossed rfl rfl) rfl]
  split
  · split
    · rfl
    · rfl
  · rfl

/-- Bounds are accepted with their image. -/
theorem alike_resolve (b : Bounds α) :
    Alike (fun sides sides' => sides' = T.sides sides) (b.resolve n) ((T.bounds b).resolve n) := by
  unfold Symmetry.bounds
  cases hempty : b.isEmpty with
  | true =>
    have hfree : T.sides (Vector.replicate n ({} : Interval α)) = Vector.replicate n {} := by
      ext i hi
      all_goals simp [Interval.mirror]
    rw [if_pos rfl, eq_empty_of_isEmpty hempty, Bounds.resolve_empty]
    exact .ok hfree.symm
  | false =>
    rw [if_neg Bool.false_ne_true]
    cases hsides : b.sides? n with
    | none =>
      obtain ⟨e, he⟩ := resolve_of_sides?_eq_none hsides
      simp only [he]
      exact .error rfl
    | some sides => exact alike_of_outcome (outcome_resolve_sides T hsides)

/-- Boxes are made together with their images. -/
theorem alike_ofBounds (b : Bounds α) :
    Alike (fun box box' => box.Valid ∧ box' = T.box box) (Box.ofBounds b n)
      (Box.ofBounds (T.bounds b) n) := by
  have hvalid (box : Box α n) (h : Box.ofBounds b n = .ok box) : box.Valid :=
    Box.valid_of_ofBounds h
  have halike : Alike (fun box box' => box' = T.box box) (Box.ofBounds b n)
      (Box.ofBounds (T.bounds b) n) := by
    refine (alike_resolve T b).bind ?_
    rintro sides sides' rfl
    rw [T.isEmpty_bounds]
    exact .ok rfl
  generalize Box.ofBounds b n = r at hvalid halike
  generalize Box.ofBounds (T.bounds b) n = r' at halike
  cases halike with
  | ok h => exact .ok ⟨hvalid _ rfl, h⟩
  | error h => exact .error h

/-! ## Beginnings -/

omit [StrictScalar α] in
/-- The first states of a run and of its image. -/
theorem mirrors_initial (c : Config α) {box : Box α n} (h : box.Valid) :
    (Solver.initial c box).Mirrors T (Solver.initial c (T.box box)) := by
  refine ⟨h, .opening, ?_⟩
  unfold Solver.initial Symmetry.solver
  cases c.algorithm with
  | conjugateGradient => rfl
  | variableMetric => rfl

namespace Optimizer

/-- **Starts.**  A run begins together with its image. -/
theorem alike_begin? (x₀ : Vector α n) (c : Config α) (b : Bounds α) :
    Alike (Solver.Mirrors T) (begin? x₀ c b) (begin? (T.act x₀) c (T.bounds b)) := by
  unfold begin?
  refine (alike_refl (R := fun _ _ => True) c.validate fun _ _ => trivial).bind ?_
  rintro - - -
  refine (alike_checkStart T x₀).bind ?_
  rintro - - -
  refine (alike_ofBounds T b).bind ?_
  rintro box - ⟨hbox, rfl⟩
  have hsupport : checkBoundsSupport c (T.box box) = checkBoundsSupport c box := rfl
  rw [hsupport]
  refine (alike_refl (R := fun _ _ => True) (checkBoundsSupport c box) fun _ _ => trivial).bind ?_
  rintro - - -
  exact .ok (mirrors_initial T c hbox)

end Optimizer

end Descent
