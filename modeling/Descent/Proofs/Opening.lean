/-
# The first accepted point

At the first point of a run the relative tolerance compares a norm with a multiple of
itself.  It ends the run there only if the norm has overflowed; otherwise a run that ends
at its first point has met the absolute tolerance in every component that is large enough
for its square not to vanish.

* `abs_le_effectiveNorm` : components and the norm;
* `norm_le_threshold_iff` : the test at the first point;
* `Optimizer.opening_finalX_iff` : which first points end a run as stationary;
* `Optimizer.steep_and_faint_converge` : slopes at which it misleads.
-/
import Descent.Proofs.Binary.Roots
import Descent.Proofs.Failures
import Descent.Proofs.Stationarity

namespace Descent

open Scalar OrderedScalar

variable {α : Type} [Scalar α] {n : Nat}

/-! ## Sums -/

section Sums

variable [RootScalar α]

/-- A sum from left to right is at least its first term and all others. -/
theorem le_foldl_add {terms : List α} {first : α} (hfirst : 0 ≤ first)
    (hterms : ∀ v ∈ terms, 0 ≤ v) :
    first ≤ terms.foldl (· + ·) first ∧ ∀ v ∈ terms, v ≤ terms.foldl (· + ·) first := by
  induction terms generalizing first with
  | nil =>
    refine ⟨OrderedScalar.le_refl (isNaN_right hfirst), ?_⟩
    intro v hv
    cases hv
  | cons term rest ih =>
    obtain ⟨hleft, hright⟩ := RootScalar.le_add hfirst (hterms term (.head rest))
    obtain ⟨hsum, hrest⟩ := ih (OrderedScalar.le_trans hfirst hleft)
      (fun v hv => hterms v (.tail term hv))
    refine ⟨OrderedScalar.le_trans hleft hsum, ?_⟩
    intro v hv
    rcases List.mem_cons.mp hv with rfl | hv
    · exact OrderedScalar.le_trans hright hsum
    · exact hrest v hv

theorem zero_le_add {a b : α} (ha : 0 ≤ a) (hb : 0 ≤ b) : 0 ≤ a + b :=
  OrderedScalar.le_trans ha (RootScalar.le_add ha hb).1

/-- What is at least a sum is at least its terms. -/
theorem le_of_add_le {a b v : α} (ha : 0 ≤ a) (hb : 0 ≤ b) (h : a + b ≤ v) : a ≤ v ∧ b ≤ v := by
  obtain ⟨hleft, hright⟩ := RootScalar.le_add ha hb
  exact ⟨OrderedScalar.le_trans hleft h, OrderedScalar.le_trans hright h⟩

/-- A sum in lanes is at least every lane and every term. -/
theorem le_sumLanes {p₀ p₁ p₂ p₃ p₄ p₅ p₆ p₇ : α} {terms : List α}
    (hlanes : ∀ v ∈ [p₀, p₁, p₂, p₃, p₄, p₅, p₆, p₇], 0 ≤ v) (hterms : ∀ v ∈ terms, 0 ≤ v) :
    (∀ v ∈ [p₀, p₁, p₂, p₃, p₄, p₅, p₆, p₇], v ≤ sumLanes p₀ p₁ p₂ p₃ p₄ p₅ p₆ p₇ terms) ∧
      ∀ v ∈ terms, v ≤ sumLanes p₀ p₁ p₂ p₃ p₄ p₅ p₆ p₇ terms := by
  fun_induction sumLanes p₀ p₁ p₂ p₃ p₄ p₅ p₆ p₇ terms with
  | case1 p₀ p₁ p₂ p₃ p₄ p₅ p₆ p₇ a₀ a₁ a₂ a₃ a₄ a₅ a₆ a₇ rest ih =>
    simp only [List.forall_mem_cons] at hlanes hterms ih ⊢
    obtain ⟨h₀, h₁, h₂, h₃, h₄, h₅, h₆, h₇, hnil⟩ := hlanes
    obtain ⟨k₀, k₁, k₂, k₃, k₄, k₅, k₆, k₇, hrest⟩ := hterms
    -- every lane has taken one term
    obtain ⟨⟨s₀, s₁, s₂, s₃, s₄, s₅, s₆, s₇, -⟩, hsum⟩ :=
      ih ⟨zero_le_add h₀ k₀, zero_le_add h₁ k₁, zero_le_add h₂ k₂, zero_le_add h₃ k₃,
        zero_le_add h₄ k₄, zero_le_add h₅ k₅, zero_le_add h₆ k₆, zero_le_add h₇ k₇, hnil⟩ hrest
    obtain ⟨l₀, r₀⟩ := le_of_add_le h₀ k₀ s₀
    obtain ⟨l₁, r₁⟩ := le_of_add_le h₁ k₁ s₁
    obtain ⟨l₂, r₂⟩ := le_of_add_le h₂ k₂ s₂
    obtain ⟨l₃, r₃⟩ := le_of_add_le h₃ k₃ s₃
    obtain ⟨l₄, r₄⟩ := le_of_add_le h₄ k₄ s₄
    obtain ⟨l₅, r₅⟩ := le_of_add_le h₅ k₅ s₅
    obtain ⟨l₆, r₆⟩ := le_of_add_le h₆ k₆ s₆
    obtain ⟨l₇, r₇⟩ := le_of_add_le h₇ k₇ s₇
    exact ⟨⟨l₀, l₁, l₂, l₃, l₄, l₅, l₆, l₇, by simp⟩, r₀, r₁, r₂, r₃, r₄, r₅, r₆, r₇, hsum⟩
  | case2 p₀ p₁ p₂ p₃ p₄ p₅ p₆ p₇ rest _ =>
    simp only [List.forall_mem_cons] at hlanes ⊢
    obtain ⟨h₀, h₁, h₂, h₃, h₄, h₅, h₆, h₇, -⟩ := hlanes
    -- the lanes are joined in pairs, from left to right
    have hzero : (0 : α) ≤ 0 := OrderedScalar.le_refl (isNaN_left h₀)
    have hpair₀ := zero_le_add h₀ h₄
    have hpair₁ := zero_le_add h₁ h₅
    have hpair₂ := zero_le_add h₂ h₆
    have hpair₃ := zero_le_add h₃ h₇
    have htotal₀ := zero_le_add hzero hpair₀
    have htotal₁ := zero_le_add htotal₀ hpair₁
    have htotal₂ := zero_le_add htotal₁ hpair₂
    obtain ⟨hfirst, hrest⟩ := le_foldl_add (zero_le_add htotal₂ hpair₃) hterms
    obtain ⟨t₂, q₃⟩ := le_of_add_le htotal₂ hpair₃ hfirst
    obtain ⟨t₁, q₂⟩ := le_of_add_le htotal₁ hpair₂ t₂
    obtain ⟨t₀, q₁⟩ := le_of_add_le htotal₀ hpair₁ t₁
    obtain ⟨-, q₀⟩ := le_of_add_le hzero hpair₀ t₀
    obtain ⟨l₀, l₄⟩ := le_of_add_le h₀ h₄ q₀
    obtain ⟨l₁, l₅⟩ := le_of_add_le h₁ h₅ q₁
    obtain ⟨l₂, l₆⟩ := le_of_add_le h₂ h₆ q₂
    obtain ⟨l₃, l₇⟩ := le_of_add_le h₃ h₇ q₃
    exact ⟨⟨l₀, l₁, l₂, l₃, l₄, l₅, l₆, l₇, by simp⟩, hrest⟩

/-- A sum over selected terms is at least its first term and all that are selected. -/
theorem le_foldl_selected {terms : List (Bool × α)} {first : α} (hfirst : 0 ≤ first)
    (hterms : ∀ term ∈ terms, 0 ≤ term.2) :
    first ≤ terms.foldl (fun total term => if term.1 then total + term.2 else total) first ∧
      ∀ v, (true, v) ∈ terms →
        v ≤ terms.foldl (fun total term => if term.1 then total + term.2 else total) first := by
  induction terms generalizing first with
  | nil =>
    refine ⟨OrderedScalar.le_refl (isNaN_right hfirst), ?_⟩
    intro v hv
    cases hv
  | cons term rest ih =>
    have hrest : ∀ term ∈ rest, 0 ≤ term.2 := fun v hv => hterms v (.tail term hv)
    obtain ⟨selected, v⟩ := term
    cases selected with
    | false =>
      obtain ⟨hsum, hall⟩ := ih hfirst hrest
      refine ⟨hsum, ?_⟩
      intro v' hv'
      rcases List.mem_cons.mp hv' with h | h
      · cases h
      · exact hall v' h
    | true =>
      obtain ⟨hleft, hright⟩ := RootScalar.le_add hfirst (hterms (true, v) (.head rest))
      obtain ⟨hsum, hall⟩ := ih (OrderedScalar.le_trans hfirst hleft) hrest
      refine ⟨OrderedScalar.le_trans hleft hsum, ?_⟩
      intro v' hv'
      rcases List.mem_cons.mp hv' with h | h
      · cases h
        exact OrderedScalar.le_trans hright hsum
      · exact hall v' h

end Sums

/-! ## Norms -/

section Norms

variable {x g : Vector α n} {box : Box α n}

theorem mem_squares_iff {v : α} :
    v ∈ (Vector.zipWith (· * ·) g g).toList ↔ ∃ i, ∃ hi : i < n, g[i] * g[i] = v := by
  rw [Vector.mem_toList_iff, Vector.mem_iff_getElem]
  simp only [Vector.getElem_zipWith]

/-- The squares of finite components are not negative. -/
theorem zero_le_of_mem_squares [RootScalar α] (hg : ∀ i (hi : i < n), isFinite g[i] = true) :
    ∀ v ∈ (Vector.zipWith (· * ·) g g).toList, 0 ≤ v := by
  intro v hv
  obtain ⟨i, hi, rfl⟩ := mem_squares_iff.mp hv
  exact RootScalar.zero_le_square (hg i hi)

theorem zero_le_zero [RootScalar α] : (0 : α) ≤ 0 :=
  OrderedScalar.le_refl (isNaN_of_isFinite RootScalar.isFinite_zero)

/-- An inner square is at least the square of every component. -/
theorem square_le_dot [RootScalar α] (hg : ∀ i (hi : i < n), isFinite g[i] = true) :
    0 ≤ dot g g ∧ ∀ i (hi : i < n), g[i] * g[i] ≤ dot g g := by
  have hlanes : ∀ v ∈ [(0 : α), 0, 0, 0, 0, 0, 0, 0], 0 ≤ v := by
    simpa using zero_le_zero
  obtain ⟨hfirst, hall⟩ := le_sumLanes hlanes (zero_le_of_mem_squares hg)
  refine ⟨hfirst 0 (by simp), ?_⟩
  intro i hi
  exact hall _ (mem_squares_iff.mpr ⟨i, hi, rfl⟩)

/-- An inner square over selected components is at least the square of each of them. -/
theorem square_le_maskedDot [RootScalar α] (hg : ∀ i (hi : i < n), isFinite g[i] = true)
    (mask : Vector Bool n) :
    0 ≤ maskedDot mask g g ∧
      ∀ i (hi : i < n), mask[i] = true → g[i] * g[i] ≤ maskedDot mask g g := by
  have hterms : ∀ term ∈ mask.toList.zip (Vector.zipWith (· * ·) g g).toList, 0 ≤ term.2 := by
    rintro ⟨selected, v⟩ hterm
    exact zero_le_of_mem_squares hg v (List.of_mem_zip hterm).2
  obtain ⟨hfirst, hall⟩ := le_foldl_selected zero_le_zero hterms
  refine ⟨hfirst, ?_⟩
  intro i hi hmask
  refine hall _ ?_
  rw [List.mem_iff_getElem]
  refine ⟨i, by simpa using hi, ?_⟩
  simp [hmask]

/-- The norm that decides about stationarity is not negative. -/
theorem zero_le_effectiveNorm [RootScalar α] (hg : ∀ i (hi : i < n), isFinite g[i] = true) :
    0 ≤ box.effectiveNorm x g := by
  unfold Box.effectiveNorm
  split
  · exact RootScalar.zero_le_sqrt (square_le_maskedDot hg _).1
  · exact RootScalar.zero_le_sqrt (square_le_dot hg).1

/-- **Components and norms.**  The norm is at least the magnitude of every component of
the gradient that decides about stationarity, except for tiny ones. -/
theorem abs_le_effectiveNorm {tiny : α} [NormScalar α tiny]
    (hg : ∀ i (hi : i < n), isFinite g[i] = true) (i : Nat) (hi : i < n)
    (htiny : tiny ≤ abs (box.effectiveGradient x g)[i]) :
    abs (box.effectiveGradient x g)[i] ≤ box.effectiveNorm x g := by
  have hnorm : 0 ≤ box.effectiveNorm x g := zero_le_effectiveNorm hg
  unfold Box.effectiveGradient Box.effectiveNorm at *
  cases hbounded : box.bounded with
  | false =>
    simp only [hbounded, Bool.false_eq_true, if_false] at htiny ⊢
    exact NormScalar.abs_le_sqrt (hg i hi) htiny ((square_le_dot hg).2 i hi)
  | true =>
    simp only [hbounded, if_true] at htiny hnorm ⊢
    rw [Box.getElem_projectedGradient, Interval.projectGradient] at htiny ⊢
    cases hblocks : box.sides[i].blocks x[i] g[i] with
    | true =>
      rw [if_pos rfl]
      exact OrderedScalar.le_trans NormScalar.abs_zero_le hnorm
    | false =>
      have hfree : (box.free x g)[i] = true := by rw [Box.getElem_free, hblocks]; rfl
      rw [hblocks, if_neg (by decide)] at htiny
      rw [if_neg (by decide)]
      exact NormScalar.abs_le_sqrt (hg i hi) htiny ((square_le_maskedDot hg _).2 i hi hfree)

end Norms

/-! ## The test at the first point -/

/-- The norm is a root. -/
theorem exists_effectiveNorm_eq_sqrt [RootScalar α] (box : Box α n) (x : Vector α n)
    {g : Vector α n} (hg : ∀ i (hi : i < n), isFinite g[i] = true) :
    ∃ sum, 0 ≤ sum ∧ box.effectiveNorm x g = sqrt sum := by
  unfold Box.effectiveNorm
  split
  · exact ⟨_, (square_le_maskedDot hg _).1, rfl⟩
  · exact ⟨_, (square_le_dot hg).1, rfl⟩

/-- **The test at the first point.**  A norm is compared with its own multiple by a factor
below one.  This decides only where the norm is infinite. -/
theorem norm_le_threshold_iff [RootScalar α] {box : Box α n} {x g : Vector α n} {c : Config α}
    (hvalid : c.validate = .ok ()) (hgrtol : c.grtol < 1)
    (hg : ∀ i (hi : i < n), isFinite g[i] = true) :
    box.effectiveNorm x g ≤ larger c.gatol (c.grtol * box.effectiveNorm x g) ↔
      box.effectiveNorm x g ≤ c.gatol ∨
        isFinite (box.effectiveNorm x g) = false ∧ 0 < c.grtol := by
  obtain ⟨hgatol, hgrtol', -⟩ := Config.checks_of_validate hvalid
  obtain ⟨hfinite, hzero⟩ := zero_le_of_checkTolerance hgatol
  obtain ⟨-, hzero'⟩ := zero_le_of_checkTolerance hgrtol'
  obtain ⟨sum, hsum, heq⟩ := exists_effectiveNorm_eq_sqrt box x hg
  have hnorm := RootScalar.zero_le_sqrt hsum
  rw [le_larger_iff (isNaN_of_isFinite hfinite), heq]
  by_cases hpos : 0 < sqrt sum
  · rw [RootScalar.le_mul_sqrt_iff hsum hpos hzero' hgrtol]
  · -- a norm of zero is within any tolerance
    have hle : sqrt sum ≤ c.gatol := by
      refine OrderedScalar.le_trans ?_ hzero
      exact le_of_not_lt (isNaN_left hnorm) (isNaN_right hnorm) hpos
    exact ⟨fun _ => .inl hle, fun _ => .inl hle⟩

namespace Optimizer

variable {x₀ : Vector α n} {c : Config α} {bounds : Bounds α} {s : Solver α n}

/-- Before its first evaluation a run is where it began. -/
theorem body_of_evaluations_eq_zero (hbegin : begin? x₀ c bounds = .ok s) (calls : List (Call α))
    (h : ((start x₀ c bounds).after calls).evaluations = 0) :
    ((start x₀ c bounds).after calls).body = .ok s := by
  have hopening := phase_of_begin? hbegin
  have hreachable := reachable_after x₀ c bounds calls
  cases hbody : ((start x₀ c bounds).after calls).body with
  | error e =>
    rw [hreachable.begin?_eq_error hbody] at hbegin
    cases hbegin
  | ok s' =>
    have hfresh : s'.evaluations = 0 → s' = s := by
      refine hreachable.invariant (P := fun s' => s'.evaluations = 0 → s' = s) ?_ ?_ hbody
      · intro s₀ hs₀ _
        rw [hbegin] at hs₀
        cases hs₀
        rfl
      · intro s₁ y f g s₂ y' htrans ih hzero
        -- whatever does not count an evaluation leaves an accepted point, and there is none
        have habsurd {p : Point α n} (hp : s₁.phase = .accepted p) (hcount : s₁.evaluations = 0) :
            s₂ = s := by
          rw [ih hcount, hopening] at hp
          cases hp
        cases htrans with
        | project hs hx => exact ih hzero
        | idle last verdict hs => exact ih hzero
        | notDescent p hs hslope => exact habsurd hs hzero
        | spentAtPoint p hs hslope hspent => exact habsurd hs hzero
        | refused p range refusal hs hslope hleft hrange hstart => exact habsurd hs hzero
        | search p range run hs hslope hleft hrange hstart => exact habsurd hs hzero
        | _ => cases hzero
    rw [hfresh (by rw [← evaluations_of_body hbody, h])]

/-- The call that answers at the first point. -/
theorem after_first (hbegin : begin? x₀ c bounds = .ok s) (before : List (Call α))
    (hfirst : ((start x₀ c bounds).after before).evaluations = 0) {x g : Vector α n} {f : α}
    (hx : s.box.contains x = true) (hflaw : flaw? f g = none) :
    ((start x₀ c bounds).after (before ++ [⟨x.toArray, f, g.toArray⟩])).body =
      .ok { s.takeFirst c ⟨x, f, g⟩ with
        phase := (s.takeFirst c ⟨x, f, g⟩).settle c ⟨x, f, g⟩ } := by
  have hbody := body_of_evaluations_eq_zero hbegin before hfirst
  have hopening := phase_of_begin? hbegin
  have hopen : ((start x₀ c bounds).after before).closed = false := by
    rw [closed_after]
    rfl
  have hconfig : ((start x₀ c bounds).after before).config = c := by
    rw [config_after]
    rfl
  have hrunning : s.task.isTerminal = false := by
    rw [Solver.task_of_opening hopening]
    rfl
  rw [after_concat, exchange, iterate_of_running hopen hbody hrunning x f g, hconfig,
    Solver.advance_of_opening hopening hx hflaw]
  rfl

/-- **The first evaluation.**  Where the answer to the first counted evaluation is finite,
it ends the run as stationary exactly if its norm is within the absolute tolerance, or if
the norm has overflowed and there is a relative tolerance; and unless the norm has
overflowed, every component of the projected gradient is then within the absolute
tolerance, except for tiny ones. -/
theorem opening_finalX_iff {tiny : α} [NormScalar α tiny] (hbegin : begin? x₀ c bounds = .ok s)
    (hgrtol : c.grtol < 1) (before : List (Call α))
    (hfirst : ((start x₀ c bounds).after before).evaluations = 0) {x g : Vector α n} {f : α}
    (hx : s.box.contains x = true) (hf : isFinite f = true)
    (hg : ∀ i (hi : i < n), isFinite g[i] = true) :
    let o := (start x₀ c bounds).after (before ++ [⟨x.toArray, f, g.toArray⟩])
    let norm := s.box.effectiveNorm x g
    o.evaluations = 1 ∧
      (o.task = .finalX ↔ norm ≤ c.gatol ∨ isFinite norm = false ∧ 0 < c.grtol) ∧
      (o.task = .finalX → isFinite norm = true → ∀ i (hi : i < n),
        tiny ≤ abs (s.box.effectiveGradient x g)[i] →
          abs (s.box.effectiveGradient x g)[i] ≤ c.gatol) := by
  intro o norm
  obtain ⟨hvalid, -⟩ := begin?_eq_ok hbegin
  have hbody := after_first hbegin before hfirst hx (flaw?_of_isFinite hf hg)
  have hevaluations : s.evaluations = 0 := by
    obtain ⟨-, -, box, -, -, rfl⟩ := begin?_eq_ok hbegin
    rfl
  have hiff : o.task = .finalX ↔ norm ≤ c.gatol ∨ isFinite norm = false ∧ 0 < c.grtol := by
    rw [task_of_body hbody, ← norm_le_threshold_iff hvalid hgrtol hg]
    exact Solver.task_settle_eq_finalX_iff c (s.takeFirst c ⟨x, f, g⟩) ⟨x, f, g⟩
  refine ⟨?_, hiff, ?_⟩
  · rw [evaluations_of_body hbody]
    show s.evaluations + 1 = 1
    rw [hevaluations]
  · intro hfinal hfinite i hi htiny
    rcases hiff.mp hfinal with hle | ⟨hinfinite, -⟩
    · exact OrderedScalar.le_trans (abs_le_effectiveNorm hg i hi htiny) hle
    · rw [hfinite] at hinfinite
      cases hinfinite

/-! ## Runs that end at their first points -/

/-- The corner of the quadrant, where a run begins. -/
def corner : Vector α 2 := Vector.replicate 2 0

/-- The quadrant. -/
def positive : Bounds α := { lower := .uniform 0 }

/-- The projected variable metric with both tolerances. -/
def mixed : Config α :=
  { algorithm := .variableMetric, metric := .blmvm, gatol := 5.0, grtol := 0.5 }

/-- A call that is not counted: its point has to be brought into the quadrant. -/
def outside : Call α := ⟨#[-1.0, 0], 0, #[0, 0]⟩

/-- A gradient of norm five that the quadrant blocks nowhere. -/
def gentle : Vector α 2 := #v[-3.0, -4.0]

/-- In both precisions a run ends at a gentle first point. -/
theorem gentle_converges :
    (∃ s : Solver Float 2, begin? corner mixed positive = .ok s ∧
      let o : Optimizer Float 2 := (start corner mixed positive).after
        ([outside] ++ [⟨corner.toArray, 1, gentle.toArray⟩])
      let norm := s.box.effectiveNorm corner gentle
      o.task = .finalX ∧ o.evaluations = 1 ∧
        (o.task = .finalX ↔
          norm ≤ mixed.gatol ∨ isFinite norm = false ∧ (0 : Float) < mixed.grtol) ∧
        (o.task = .finalX → isFinite norm = true → ∀ i (hi : i < 2),
          Float.ofBits 0x2000000000000000 ≤ Scalar.abs (s.box.effectiveGradient corner gentle)[i] →
            Scalar.abs (s.box.effectiveGradient corner gentle)[i] ≤ mixed.gatol)) ∧
    (∃ s : Solver Float32 2, begin? corner mixed positive = .ok s ∧
      let o : Optimizer Float32 2 := (start corner mixed positive).after
        ([outside] ++ [⟨corner.toArray, 1, gentle.toArray⟩])
      let norm := s.box.effectiveNorm corner gentle
      o.task = .finalX ∧ o.evaluations = 1 ∧
        (o.task = .finalX ↔
          norm ≤ mixed.gatol ∨ isFinite norm = false ∧ (0 : Float32) < mixed.grtol) ∧
        (o.task = .finalX → isFinite norm = true → ∀ i (hi : i < 2),
          Float32.ofBits 0x20000000 ≤ Scalar.abs (s.box.effectiveGradient corner gentle)[i] →
            Scalar.abs (s.box.effectiveGradient corner gentle)[i] ≤ mixed.gatol)) := by
  have hdouble : (begin? (corner : Vector Float 2) mixed positive).toOption.any
      (fun s => s.box.contains corner) = true := by
    decide +kernel
  have hsingle : (begin? (corner : Vector Float32 2) mixed positive).toOption.any
      (fun s => s.box.contains corner) = true := by
    decide +kernel
  constructor
  · obtain ⟨s, h, hx⟩ := exists_of_any_begin? hdouble
    refine ⟨s, h, by decide +kernel, ?_⟩
    exact opening_finalX_iff h (by decide +kernel) [outside] (by decide +kernel) hx
      (by decide +kernel) (by decide +kernel)
  · obtain ⟨s, h, hx⟩ := exists_of_any_begin? hsingle
    refine ⟨s, h, by decide +kernel, ?_⟩
    exact opening_finalX_iff h (by decide +kernel) [outside] (by decide +kernel) hx
      (by decide +kernel) (by decide +kernel)

/-- Settings with a relative tolerance only. -/
def relative : Config Float := { gatol := 0, grtol := 0.5 }

/-- The first call of a run on the line, with a slope. -/
def climb (slope : Float) : List (Call Float) := [⟨#[0], 1, #[slope]⟩]

/-- A run ends at its first point although the slope there is beyond the absolute
tolerance: the norm of a steep slope overflows, and that of a faint one vanishes. -/
theorem steep_and_faint_converge : ∃ s : Solver Float 1, begin? #v[0] relative {} = .ok s ∧
    relative.grtol < 1 ∧ s.box.contains #v[0] = true ∧
    (isFinite (1e200 : Float) = true ∧
      ((start #v[0] relative {}).after (climb 1e200)).evaluations = 1 ∧
      ((start #v[0] relative {}).after (climb 1e200)).task = .finalX ∧
      ¬ abs (s.box.effectiveGradient #v[0] #v[1e200])[0] ≤ relative.gatol) ∧
    (isFinite (1e-200 : Float) = true ∧
      ((start #v[0] relative {}).after (climb 1e-200)).evaluations = 1 ∧
      ((start #v[0] relative {}).after (climb 1e-200)).task = .finalX ∧
      ¬ abs (s.box.effectiveGradient #v[0] #v[1e-200])[0] ≤ relative.gatol) := by
  have hany : (begin? #v[0] relative {}).toOption.any (fun s : Solver Float 1 =>
      s.box.contains #v[0] &&
        !decide (abs (s.box.effectiveGradient #v[0] #v[1e200])[0] ≤ relative.gatol) &&
        !decide (abs (s.box.effectiveGradient #v[0] #v[1e-200])[0] ≤ relative.gatol)) = true := by
    decide +kernel
  obtain ⟨s, h, hchecks⟩ := exists_of_any_begin? hany
  simp only [Bool.and_eq_true, Bool.not_eq_true', decide_eq_false_iff_not] at hchecks
  obtain ⟨⟨hx, hsteep⟩, hfaint⟩ := hchecks
  refine ⟨s, h, by decide +kernel, hx, ⟨by decide +kernel, ?_, ?_, hsteep⟩,
    ⟨by decide +kernel, ?_, ?_, hfaint⟩⟩ <;> decide +kernel

end Optimizer

end Descent
