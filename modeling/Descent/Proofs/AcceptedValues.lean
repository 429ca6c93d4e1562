/-
# Accepted values

The values at the accepted points of a run.  Each is at most one of the values that
its line search looks back on: the last one, or one of the last few for the
nonmonotone search.

* `Descending` : values that descend, looking back a number of places;
* `Solver.Traces` : what a run remembers of the values so far;
* `Solver.Transition.traces` : a transition takes a lower value up or none;
* `Optimizer.descending_values` : the same for any series of calls.
-/
import Descent.Proofs.AcceptedPoint
import Descent.Proofs.Binary.Laws
import Descent.Proofs.Decrease

namespace Descent

open Scalar OrderedScalar

variable {α : Type} [Scalar α] {n : Nat}

/-! ## Descending values -/

/-- Every value but the first is at most one of the `lookback` values before it. -/
def Descending (lookback : Nat) (values : List α) : Prop :=
  ∀ i (hi : i < values.length), 0 < i →
    ∃ j, ∃ hj : j < i, i ≤ j + lookback ∧ values[i] ≤ values[j]

theorem descending_nil (lookback : Nat) : Descending lookback ([] : List α) := by
  intro i hi
  simp at hi

/-- Another value may follow if it is at most one of the last ones. -/
theorem Descending.concat {lookback : Nat} {values : List α} (h : Descending lookback values)
    {v : α} (hv : values = [] ∨ ∃ w ∈ values.reverse.take lookback, v ≤ w) :
    Descending lookback (values ++ [v]) := by
  intro i hi hpos
  rw [List.length_append, List.length_singleton] at hi
  by_cases hlast : i < values.length
  · obtain ⟨j, hj, hback, hle⟩ := h i hlast hpos
    refine ⟨j, hj, hback, ?_⟩
    rw [List.getElem_append_left hlast, List.getElem_append_left (by omega)]
    exact hle
  · have hi' : i = values.length := by omega
    rcases hv with rfl | ⟨w, hw, hle⟩
    · simp at hi'
      omega
    · -- the value at most which it is stands `k` places before the last one
      obtain ⟨k, hk, rfl⟩ := List.getElem_of_mem hw
      rw [List.length_take, List.length_reverse] at hk
      refine ⟨values.length - 1 - k, by omega, by omega, ?_⟩
      rw [List.getElem_append_right (by omega), List.getElem_append_left (by omega)]
      simpa [List.getElem_take, List.getElem_reverse] using hle

/-- Looking back one place means that each value is at most the one before it. -/
theorem Descending.le_previous {values : List α} (h : Descending 1 values) (i : Nat)
    (hi : i + 1 < values.length) : values[i + 1] ≤ values[i] := by
  obtain ⟨j, hj, hback, hle⟩ := h (i + 1) hi (by omega)
  have hij : j = i := by omega
  subst hij
  exact hle

/-- Values that descend never exceed the first one. -/
theorem Descending.le_first [OrderedScalar α] {lookback : Nat} {values : List α}
    (h : Descending lookback values) (i : Nat) (hi : i < values.length) (hpos : 0 < i) :
    values[i] ≤ values[0] := by
  -- the value looked back on is not the last one, so the induction is on all smaller places
  induction i using Nat.strongRecOn with
  | ind i ih =>
    obtain ⟨j, hj, -, hle⟩ := h i hi hpos
    by_cases hzero : j = 0
    · subst hzero
      exact hle
    · exact le_trans hle (ih j hj (by omega) (by omega))

/-! ## What a run remembers -/

/-- How many accepted values a line search looks back on. -/
def Config.lookback (c : Config α) : Nat :=
  if c.lineSearch = .nonmonotone then c.window else 1

/-- The greatest of a value and the recent ones is one of them. -/
theorem greatestOf_mem (value : α) (recent : List α) :
    greatestOf value recent ∈ value :: recent := by
  induction recent with
  | nil => exact List.mem_cons_self
  | cons v recent ih =>
    show (if greatestOf value recent < v then v else greatestOf value recent) ∈ _
    split
    · exact List.mem_cons_of_mem _ List.mem_cons_self
    · rcases List.mem_cons.mp ih with h | h
      · rw [h]
        exact List.mem_cons_self
      · exact List.mem_cons_of_mem _ (List.mem_cons_of_mem _ h)

namespace Solver

/-- What a run remembers of the values accepted so far, the oldest first: the last one
at its accepted point, the last few for the nonmonotone search, and in a line search
the one that decrease is measured from. -/
structure Traces (c : Config α) (values : List α) (s : Solver α n) : Prop where
  /-- Values are accepted together with points. -/
  fresh : s.accepted? = none → values = []
  /-- The last value belongs to the accepted point. -/
  last : ∀ p, s.accepted? = some p → values.getLast? = some p.f
  /-- The nonmonotone search remembers the last values, the newest first. -/
  recent : c.lineSearch = .nonmonotone → s.recent = values.reverse.take c.window
  /-- A line search is sound and measures decrease from what is remembered. -/
  searching : ∀ trial, s.phase = .searching trial →
    trial.run.Sound ∧ trial.run.frame.value = trial.base.f ∧
      trial.run.reference = Run.referenceFor c s.recent trial.base.f

variable {c : Config α} {s s' : Solver α n} {x x' : Vector α n} {f : α} {g : Vector α n}
  {values : List α}

theorem traces_initial (c : Config α) (box : Box α n) : (initial c box).Traces c [] where
  fresh := by intro _; rfl
  last := by intro p hp; cases hp
  recent := by intro _; exact List.take_nil.symm
  searching := by intro trial h; cases h

/-- A run that takes nothing up and is not in a line search remembers what it did. -/
theorem Traces.keep (hs : s.Traces c values) (haccepted : s'.accepted? = s.accepted?)
    (hrecent : s'.recent = s.recent) (hphase : ∀ trial, s'.phase ≠ .searching trial) :
    s'.Traces c values where
  fresh := by
    rw [haccepted]
    exact hs.fresh
  last := by
    rw [haccepted]
    exact hs.last
  recent := by
    rw [hrecent]
    exact hs.recent
  searching := by
    intro trial h
    exact absurd h (hphase trial)

/-- A run that stops where it is remembers what it did. -/
theorem Traces.stop (hs : s.Traces c values) {last : Option (Point α n)} {verdict : Verdict α}
    (hphase : s'.phase = .stopped last verdict) (hlast : s.accepted? = last)
    (hrecent : s'.recent = s.recent) (hcount : s'.iterations = s.iterations) :
    s'.accepted? = s.accepted? ∧ s'.iterations = s.iterations ∧ s'.Traces c values := by
  have hsame : s'.accepted? = s.accepted? := by
    rw [accepted?_of_stopped hphase, hlast]
  refine ⟨hsame, hcount, hs.keep hsame hrecent ?_⟩
  intro trial h
  rw [hphase] at h
  cases h

/-- A run that searches from its accepted point, soundly and with the reference that it
remembers, remembers what it did. -/
theorem Traces.search (hs : s.Traces c values) {trial : Trial α n}
    (hphase : s'.phase = .searching trial) (hbase : s.accepted? = some trial.base)
    (hrecent : s'.recent = s.recent) (hcount : s'.iterations = s.iterations)
    (hsound : trial.run.Sound) (hvalue : trial.run.frame.value = trial.base.f)
    (hreference : trial.run.reference = Run.referenceFor c s.recent trial.base.f) :
    s'.accepted? = s.accepted? ∧ s'.iterations = s.iterations ∧ s'.Traces c values := by
  have hsame : s'.accepted? = s.accepted? := by
    rw [accepted?_of_searching hphase, hbase]
  refine ⟨hsame, hcount, ⟨?_, ?_, ?_, ?_⟩⟩
  · rw [hsame]
    exact hs.fresh
  · rw [hsame]
    exact hs.last
  · rw [hrecent]
    exact hs.recent
  · intro trial' h
    rw [hphase] at h
    cases h
    rw [hrecent]
    exact ⟨hsound, hvalue, hreference⟩

/-- A run that takes a value up remembers it. -/
theorem Traces.accept (hs : s.Traces c values) (hwindow : 0 < c.window) {p : Point α n}
    (haccepted : s'.accepted? = some p) (hrecent : s'.recent = remember c p.f s.recent)
    (hphase : ∀ trial, s'.phase ≠ .searching trial) : s'.Traces c (values ++ [p.f]) where
  fresh := by
    intro h
    rw [haccepted] at h
    cases h
  last := by
    intro q hq
    rw [haccepted] at hq
    cases hq
    exact List.getLast?_concat
  recent := by
    intro hsearch
    have hlength : s.recent.length ≤ c.window := by
      rw [hs.recent hsearch, List.length_take]
      omega
    -- the newest value is pushed, and the oldest one drops out of the window
    rw [hrecent, remember, if_pos hsearch, pushRecent_eq_take p.f hwindow hlength,
      hs.recent hsearch, List.reverse_append]
    obtain ⟨m, hm⟩ : ∃ m, c.window = m + 1 := ⟨c.window - 1, by omega⟩
    rw [hm]
    simp [List.take_take]
  searching := by
    intro trial h
    exact absurd h (hphase trial)

omit [Scalar α] in
/-- The last value is among those that a line search looks back on. -/
theorem mem_take_reverse {v : α} (hlast : values.getLast? = some v) {k : Nat} (hk : 0 < k) :
    v ∈ values.reverse.take k := by
  obtain ⟨m, rfl⟩ : ∃ m, k = m + 1 := ⟨k - 1, by omega⟩
  obtain ⟨older, rfl⟩ := List.getLast?_eq_some_iff.mp hlast
  simp

/-- What a line search accepts is at most one of the values that it looks back on. -/
theorem Traces.le_of_accepted [RoundedScalar α] (hs : s.Traces c values) (hsftol : ¬ c.sftol < 0)
    (hwindow : 0 < c.window) {trial : Trial α n} (hphase : s.phase = .searching trial)
    {slope : α} {remark : Option StopReason}
    (hanswer : trial.run.answer c f slope = .accepted remark) :
    ∃ w ∈ values.reverse.take c.lookback, f ≤ w := by
  obtain ⟨hsound, hvalue, hreference⟩ := hs.searching trial hphase
  have hlast : values.getLast? = some trial.base.f :=
    hs.last trial.base (accepted?_of_searching hphase)
  have hle := hsound.le_of_accepted hsftol hanswer
  by_cases hsearch : c.lineSearch = .nonmonotone
  · -- the reference is the greatest of the base value and the remembered ones
    have hnot : c.lineSearch ≠ .cubic := by
      rw [hsearch]
      decide
    rw [if_neg hnot, hreference, Run.referenceFor, if_pos hsearch] at hle
    rw [Config.lookback, if_pos hsearch]
    refine ⟨_, ?_, hle⟩
    rcases List.mem_cons.mp (greatestOf_mem trial.base.f s.recent) with h | h
    · rw [h]
      exact mem_take_reverse hlast hwindow
    · rw [← hs.recent hsearch]
      exact h
  · rw [Config.lookback, if_neg hsearch]
    refine ⟨trial.base.f, mem_take_reverse hlast Nat.one_pos, ?_⟩
    rw [hvalue, hreference, Run.referenceFor, if_neg hsearch, ite_self] at hle
    exact hle

/-- A transition takes up a value that is at most one of those looked back on, or it
takes up none. -/
theorem Transition.traces [RoundedScalar α] (h : Transition c s x f g s' x')
    (hs : s.Traces c values) (hsftol : ¬ c.sftol < 0) (hwindow : 0 < c.window) :
    (s'.accepted? = s.accepted? ∧ s'.iterations = s.iterations ∧ s'.Traces c values) ∨
      ((s.accepted? = none ∨ s.iterations < s'.iterations) ∧ s'.accepted? = some ⟨x, f, g⟩ ∧
        s'.Traces c (values ++ [f]) ∧
        (values = [] ∨ ∃ w ∈ values.reverse.take c.lookback, f ≤ w)) := by
  cases h with
  | project hphase hx => exact .inl ⟨rfl, rfl, hs⟩
  | idle last verdict hphase => exact .inl ⟨rfl, rfl, hs⟩
  | first hphase hx hflaw =>
    right
    have hnone := accepted?_of_opening hphase
    refine ⟨.inl hnone, accepted?_settle c _ _, ?_, .inl (hs.fresh hnone)⟩
    refine hs.accept (p := ⟨x, f, g⟩) hwindow ?_ rfl ?_
    · exact accepted?_settle c _ _
    · intro trial
      exact heed_settle_ne_searching c _ _ none trial
  | step trial remark hphase hflaw hanswer =>
    right
    have hnew : (heed remark ((s.takeStep c trial ⟨x, f, g⟩).settle c ⟨x, f, g⟩)).accepted? =
        some ⟨x, f, g⟩ := by
      rw [accepted?_heed, accepted?_settle]
    have hlower := hs.le_of_accepted hsftol hwindow hphase hanswer
    refine ⟨.inr (Nat.lt_succ_self _), hnew, ?_, .inr hlower⟩
    refine hs.accept (p := ⟨x, f, g⟩) hwindow ?_ rfl ?_
    · exact hnew
    · intro trial'
      exact heed_settle_ne_searching c _ _ remark trial'
  -- a line search goes on or begins: it keeps the reference that it started from
  | retry trial run hphase hflaw hanswer hmore =>
    obtain ⟨hsound, hvalue, hreference⟩ := hs.searching trial hphase
    obtain ⟨hsound', hframe, hreference'⟩ := hsound.next hanswer
    rw [← hframe] at hvalue
    rw [← hreference'] at hreference
    have hbase := accepted?_of_searching hphase
    exact .inl (hs.search rfl hbase rfl rfl hsound' hvalue hreference)
  | search p range run hphase hslope hmore hrange hstart =>
    obtain ⟨hsound, hvalue, hreference⟩ := Run.sound_start hstart
    have hbase := accepted?_of_accepted hphase
    exact .inl (hs.search rfl hbase rfl rfl hsound hvalue hreference)
  -- the run stops
  | flawAtFirst flaw hphase hx hflaw =>
    exact .inl (hs.stop rfl (accepted?_of_opening hphase) rfl rfl)
  | flawAtTrial trial flaw hphase hflaw =>
    exact .inl (hs.stop rfl (accepted?_of_searching hphase) rfl rfl)
  | spentAtTrial trial run hphase hflaw hanswer hspent =>
    exact .inl (hs.stop rfl (accepted?_of_searching hphase) rfl rfl)
  | searchFailed trial step reason hphase hflaw hanswer =>
    exact .inl (hs.stop rfl (accepted?_of_searching hphase) rfl rfl)
  | notDescent p hphase hslope =>
    exact .inl (hs.stop rfl (accepted?_of_accepted hphase) rfl rfl)
  | spentAtPoint p hphase hslope hspent =>
    exact .inl (hs.stop rfl (accepted?_of_accepted hphase) rfl rfl)
  | refused p range refusal hphase hslope hmore hrange hstart =>
    exact .inl (hs.stop rfl (accepted?_of_accepted hphase) rfl rfl)

end Solver

/-! ## Series of calls -/

namespace Optimizer

/-- The values accepted in a series of calls, the oldest first. -/
def acceptedValues (o : Optimizer α n) (calls : List (Call α)) : List α :=
  (o.acceptedPoints calls).map Point.f

/-- An optimizer whose settings were accepted keeps only values that descend. -/
theorem descending_values [RoundedScalar α] {o : Optimizer α n} {s₀ : Solver α n}
    (hopen : o.closed = false) (hbody : o.body = .ok s₀) (hs : s₀.Traces o.config [])
    (hsftol : ¬ o.config.sftol < 0) (hwindow : 0 < o.config.window) (calls : List (Call α)) :
    ∃ s, (o.after calls).body = .ok s ∧
      s.Traces o.config ((o.acceptedPoints calls).map Point.f) ∧
      Descending o.config.lookback ((o.acceptedPoints calls).map Point.f) := by
  have hinit : s₀.Traces o.config (([] : List (Point α n)).map Point.f) ∧
      Descending o.config.lookback (([] : List (Point α n)).map Point.f) :=
    ⟨hs, descending_nil _⟩
  refine invariant_acceptedPoints hopen hbody
    (P := fun points s => s.Traces o.config (points.map Point.f) ∧
      Descending o.config.lookback (points.map Point.f)) hinit ?_ calls
  rintro points s x f g s' x' htrans ⟨hs, hdescending⟩
  rcases htrans.traces hs hsftol hwindow with ⟨hsame, hcount, hs'⟩ | ⟨hnew, hp, hs', hlower⟩
  · exact .inl ⟨hsame, hcount, hs', hdescending⟩
  · refine .inr ⟨hnew, hp, ?_⟩
    rw [List.map_append]
    exact ⟨hs', hdescending.concat hlower⟩

/-- The settings of a run that has begun have passed the checks that descent needs. -/
theorem settings_of_begin? [OrderedScalar α] {x₀ : Vector α n} {c : Config α}
    {bounds : Bounds α} {s : Solver α n} (h : begin? x₀ c bounds = .ok s) :
    ¬ c.sftol < 0 ∧ 0 < c.window := by
  obtain ⟨hvalid, -⟩ := begin?_eq_ok h
  obtain ⟨-, -, -, -, hsearch, -, hwindow⟩ := Config.checks_of_validate hvalid
  constructor
  · intro hneg
    unfold checkSearchConstants at hsearch
    rw [if_pos (.inr (.inl (le_of_lt hneg)))] at hsearch
    cases hsearch
  · rw [Nat.pos_iff_ne_zero]
    intro hzero
    rw [checkWindow, if_pos hzero] at hwindow
    cases hwindow

/-- **Accepted values descend.**  In any series of calls, each accepted value is at most
the one accepted before, unless the search is the nonmonotone one; then it is at most
one of the last values in its window, and at most the first one. -/
theorem accepted_values_descend [RoundedScalar α] (x₀ : Vector α n) (c : Config α)
    (bounds : Bounds α) (calls : List (Call α)) :
    (c.lineSearch ≠ .nonmonotone →
      ∀ i (_ : i + 1 < ((start x₀ c bounds).acceptedValues calls).length),
        ((start x₀ c bounds).acceptedValues calls)[i + 1] ≤
          ((start x₀ c bounds).acceptedValues calls)[i]) ∧
    (c.lineSearch = .nonmonotone →
      ∀ i (_ : i < ((start x₀ c bounds).acceptedValues calls).length), 0 < i →
        (∃ j, ∃ _ : j < i, i ≤ j + c.window ∧
          ((start x₀ c bounds).acceptedValues calls)[i] ≤
            ((start x₀ c bounds).acceptedValues calls)[j]) ∧
        ((start x₀ c bounds).acceptedValues calls)[i] ≤
          ((start x₀ c bounds).acceptedValues calls)[0]) := by
  have hdescending : Descending c.lookback ((start x₀ c bounds).acceptedValues calls) := by
    cases hbody : (start x₀ c bounds).body with
    | error e =>
      rw [acceptedValues, acceptedPoints_of_error hbody]
      exact descending_nil _
    | ok s₀ =>
      obtain ⟨hsftol, hwindow⟩ := settings_of_begin? hbody
      have hs : s₀.Traces c [] := by
        obtain ⟨-, -, box, -, -, rfl⟩ := begin?_eq_ok hbody
        exact Solver.traces_initial c box
      obtain ⟨-, -, -, hdescending⟩ := descending_values rfl hbody hs hsftol hwindow calls
      exact hdescending
  constructor
  · intro hsearch i hi
    rw [Config.lookback, if_neg hsearch] at hdescending
    exact hdescending.le_previous i hi
  · intro hsearch i hi hpos
    rw [Config.lookback, if_pos hsearch] at hdescending
    exact ⟨hdescending i hi hpos, hdescending.le_first i hi hpos⟩

/-- Calls that answer with the square of a single variable. -/
def squareCalls : List (Call Float) :=
  [⟨#[1], 1, #[2]⟩, ⟨#[1], 1, #[2]⟩, ⟨#[0.5], 0.25, #[1]⟩]

/-- Double precision, where the answers are a square and two values are accepted. -/
theorem square_descends :
    ((start #v[1] {} {}).acceptedValues squareCalls).length = 2 ∧
      ∀ i (_ : i + 1 < ((start #v[1] {} {}).acceptedValues squareCalls).length),
        ((start #v[1] {} {}).acceptedValues squareCalls)[i + 1] ≤
          ((start #v[1] {} {}).acceptedValues squareCalls)[i] := by
  constructor
  · decide +kernel
  · exact (accepted_values_descend #v[1] {} {} squareCalls).1 (by decide)

end Optimizer

end Descent
