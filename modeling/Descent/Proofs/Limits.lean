/-
# Limits

The budgets and the tolerances of a run decide when it stops and nothing else.  What a
call leads to is settled before they are looked at, so two runs that differ in them make
the same way until one of them stops.

* `Limits`, `Config.withLimits` : the settings that only decide when to stop;
* `Solver.Outlook` : what a call leads to before the limits are looked at;
* `Solver.exists_outlook` : every call leads to something that does not depend on them;
* `Optimizer.inStepOrEnds` : two conversations under different limits;
* `Optimizer.limits_only_stop` : what follows for the caller.
-/
import Descent.Proofs.Conversation

namespace Descent

open Scalar

variable {α : Type} [Scalar α] {n : Nat}

/-! ## Limits -/

/-- The settings that decide when a run stops. -/
structure Limits (α : Type) where
  gatol : α
  grtol : α
  maxIterations : Nat
  maxEvaluations : Nat

/-- The settings with other limits. -/
def Config.withLimits (c : Config α) (l : Limits α) : Config α :=
  { c with
    gatol := l.gatol
    grtol := l.grtol
    maxIterations := l.maxIterations
    maxEvaluations := l.maxEvaluations }

/-- Equal tolerances and smaller budgets. -/
structure Limits.Tighter (l l' : Limits α) : Prop where
  gatol : l.gatol = l'.gatol
  grtol : l.grtol = l'.grtol
  maxIterations : l.maxIterations ≤ l'.maxIterations
  maxEvaluations : l.maxEvaluations ≤ l'.maxEvaluations

namespace Solver

/-! ## What a call leads to -/

/-- What a call leads to, before the limits are looked at. -/
inductive Outlook (α : Type) (n : Nat) where
  /-- A state in which the limits play no part. -/
  | settled (s : Solver α n) (x : Vector α n)
  /-- A newly accepted point, where the run may stop. -/
  | arrival (s : Solver α n) (p : Point α n) (remark : Option StopReason)
  /-- A phase that is entered only if another evaluation is left. -/
  | pending (s : Solver α n) (last : Point α n) (phase : Phase α n) (x : Vector α n)
    (h : phase.accepted? = some last)

namespace Outlook

/-- The state and the caller's point under the limits of the settings. -/
def under (c : Config α) : Outlook α n → Solver α n × Vector α n
  | settled s x => (s, x)
  | arrival s p remark => ({ s with phase := heed remark (s.settle c p) }, p.x)
  | pending s last phase x _ =>
    if c.maxEvaluations ≤ s.evaluations then
      ({ s with phase := .stopped (some last) .evaluationsSpent }, last.x)
    else ({ s with phase }, x)

/-- A phase that needs an evaluation is entered unless all are spent. -/
theorem under_pending (c : Config α) (s : Solver α n) (last : Point α n) (phase : Phase α n)
    (x : Vector α n) (h : phase.accepted? = some last) :
    (c.maxEvaluations ≤ s.evaluations ∧ (pending s last phase x h).under c =
        ({ s with phase := .stopped (some last) .evaluationsSpent }, last.x)) ∨
      (s.evaluations < c.maxEvaluations ∧
        (pending s last phase x h).under c = ({ s with phase }, x)) := by
  by_cases hspent : c.maxEvaluations ≤ s.evaluations
  · exact .inl ⟨hspent, if_pos hspent⟩
  · exact .inr ⟨Nat.lt_of_not_le hspent, if_neg hspent⟩

/-- The accepted point and the number of accepted steps do not depend on the limits. -/
theorem under_agree (o : Outlook α n) (c c' : Config α) :
    (o.under c).1.accepted? = (o.under c').1.accepted? ∧
      (o.under c).1.iterations = (o.under c').1.iterations := by
  cases o with
  | settled s x => exact ⟨rfl, rfl⟩
  | arrival s p remark =>
    refine ⟨?_, rfl⟩
    simp only [under, accepted?, accepted?_heed, accepted?_settle]
  | pending s last phase x h =>
    have hlast (c : Config α) : ((pending s last phase x h).under c).1.accepted? = some last ∧
        ((pending s last phase x h).under c).1.iterations = s.iterations := by
      rcases under_pending c s last phase x h with ⟨-, heq⟩ | ⟨-, heq⟩
      · rw [heq]
        exact ⟨rfl, rfl⟩
      · rw [heq]
        exact ⟨h, rfl⟩
    rw [(hlast c).1, (hlast c).2, (hlast c').1, (hlast c').2]
    exact ⟨rfl, rfl⟩

/-- Under two limits the same state comes out, or one of them stops the run. -/
theorem under_eq_or_isTerminal (o : Outlook α n) (c c' : Config α) :
    (o.under c).1.task.isTerminal = true ∨ (o.under c').1.task.isTerminal = true ∨
      o.under c = o.under c' := by
  cases o with
  | settled s x => exact .inr (.inr rfl)
  | arrival s p remark =>
    rcases s.heed_settle_cases c p remark with ⟨verdict, h⟩ | ⟨h, -⟩
    · exact .inl (isTerminal_of_stopped h)
    · rcases s.heed_settle_cases c' p remark with ⟨verdict, h'⟩ | ⟨h', -⟩
      · exact .inr (.inl (isTerminal_of_stopped h'))
      · right; right
        simp only [under, h, h']
  | pending s last phase x h =>
    rcases under_pending c s last phase x h with ⟨-, heq⟩ | ⟨-, heq⟩
    · rw [heq]
      exact .inl rfl
    · rcases under_pending c' s last phase x h with ⟨-, heq'⟩ | ⟨-, heq'⟩
      · rw [heq']
        exact .inr (.inl rfl)
      · exact .inr (.inr (heq.trans heq'.symm))

/-- Where larger budgets stop a run, smaller ones do. -/
theorem isTerminal_under (o : Outlook α n) (c : Config α) {l l' : Limits α} (hl : l.Tighter l')
    (h : (o.under (c.withLimits l')).1.task.isTerminal = true) :
    (o.under (c.withLimits l)).1.task.isTerminal = true := by
  cases o with
  | settled s x => exact h
  | arrival s p remark =>
    rcases s.heed_settle_cases (c.withLimits l) p remark with ⟨verdict, hstop⟩ | ⟨-, hleft⟩
    · exact isTerminal_of_stopped hstop
    · -- the iterations last under both budgets, and the tolerances are the same
      have hleft' : s.iterations < l'.maxIterations := Nat.lt_of_lt_of_le hleft hl.maxIterations
      have hthreshold : s.threshold (c.withLimits l) = s.threshold (c.withLimits l') := by
        simp only [threshold, Config.withLimits, hl.gatol, hl.grtol]
      have hsame : s.settle (c.withLimits l) p = s.settle (c.withLimits l') p := by
        unfold settle
        rw [hthreshold, if_neg (Nat.not_le.mpr hleft)]
        exact if_congr Iff.rfl rfl (if_neg (Nat.not_le.mpr hleft')).symm
      simp only [under, hsame]
      exact h
  | pending s last phase x hlast =>
    rcases under_pending (c.withLimits l) s last phase x hlast with ⟨-, heq⟩ | ⟨hleft, heq⟩
    · rw [heq]
      rfl
    · rcases under_pending (c.withLimits l') s last phase x hlast with ⟨hspent, -⟩ | ⟨-, heq'⟩
      · exact absurd (Nat.le_trans hl.maxEvaluations hspent) (Nat.not_le.mpr hleft)
      · rw [heq]
        rw [heq'] at h
        exact h

end Outlook

/-- **The outlook of a call.**  What a call leads to does not depend on the limits; they only
decide whether the run goes on from there. -/
theorem exists_outlook (c : Config α) (s : Solver α n) (x : Vector α n) (f : α)
    (g : Vector α n) :
    ∃ o : Outlook α n, ∀ l, s.advance (c.withLimits l) x f g = o.under (c.withLimits l) := by
  unfold advance
  cases hphase : s.phase with
  | stopped last verdict => exact ⟨.settled s x, fun l => rfl⟩
  | opening =>
    unfold answerOpening
    cases s.box.contains x with
    | false => exact ⟨.settled s (s.box.project x), fun l => rfl⟩
    | true =>
      cases flaw? f g with
      | some flaw => exact ⟨.settled _ _, fun l => rfl⟩
      | none => exact ⟨.arrival (s.takeFirst c ⟨x, f, g⟩) ⟨x, f, g⟩ none, fun l => rfl⟩
  | searching trial =>
    unfold answerTrial
    cases flaw? f g with
    | some flaw => exact ⟨.settled _ _, fun l => rfl⟩
    | none =>
      -- the line search does not look at the limits
      have hanswer (l : Limits α) (slope : α) :
          trial.run.answer (c.withLimits l) f slope = trial.run.answer c f slope := rfl
      simp only [hanswer]
      cases trial.run.answer c f (trialSlope trial.base x g trial.run.step) with
      | next run =>
        exact ⟨.pending { s with evaluations := s.evaluations + 1 } trial.base
          (.searching { trial with run }) _ rfl, fun l => rfl⟩
      | accepted remark =>
        exact ⟨.arrival (s.takeStep c trial ⟨x, f, g⟩) ⟨x, f, g⟩ remark, fun l => rfl⟩
      | failed step reason => exact ⟨.settled _ _, fun l => rfl⟩
  | accepted p =>
    -- neither does the heading, nor the search along it
    let h := s.heading c p
    have hdepart (l : Limits α) := s.depart_eq (c.withLimits l) p
    by_cases hslope : h.slope < 0
    · refine ⟨.pending (s.turn h) p (s.searchAlong c p h).1 (s.searchAlong c p h).2
        (s.accepted?_searchAlong c p h), fun l => ?_⟩
      exact (hdepart l).trans (if_neg (not_not.mpr hslope))
    · exact ⟨.settled { s.turn h with phase := .stopped (some p) (.notDescent h.slope) } p.x,
        fun l => (hdepart l).trans (if_pos hslope)⟩

end Solver

/-! ## Two conversations -/

namespace Optimizer

theorem newlyAccepted?_congr {o o' next next' : Optimizer α n}
    (haccepted : o.accepted? = o'.accepted?)
    (hcount : o.iterations = o'.iterations) (hnext : next.accepted? = next'.accepted?)
    (hcount' : next.iterations = next'.iterations) :
    o.newlyAccepted? next = o'.newlyAccepted? next' := by
  simp only [newlyAccepted?, haccepted, hcount, hnext, hcount']

/-- Two open optimizers in the same state whose settings differ in their limits. -/
structure Twins (c : Config α) (l l' : Limits α) (o o' : Optimizer α n) : Prop where
  isOpen : o.closed = false
  isOpen' : o'.closed = false
  config : o.config = c.withLimits l
  config' : o'.config = c.withLimits l'
  body : o.body = o'.body

/-- What two such optimizers have in common after one call: the accepted point and the number of
accepted steps, and all the rest unless one of them has stopped.  Under tighter limits the
first one stops no later. -/
structure Abreast (l l' : Limits α) (r r' : Optimizer α n × Array α) : Prop where
  accepted : r.1.accepted? = r'.1.accepted?
  iterations : r.1.iterations = r'.1.iterations
  together : r.1.task.isTerminal = true ∨ r'.1.task.isTerminal = true ∨
    (r.1.body = r'.1.body ∧ r.2 = r'.2)
  first : l.Tighter l' → r'.1.task.isTerminal = true → r.1.task.isTerminal = true

variable {c : Config α} {l l' : Limits α} {o o' : Optimizer α n}

theorem Twins.task (h : Twins c l l' o o') : o.task = o'.task :=
  congrArg Readings.task (readings_congr (h.isOpen.trans h.isOpen'.symm) h.body)

/-- A call that changes neither of two twins. -/
theorem Twins.abreast (h : Twins c l l' o o') (x : Array α) : Abreast l l' (o, x) (o', x) where
  accepted := accepted?_congr (h.isOpen.trans h.isOpen'.symm) h.body
  iterations :=
    congrArg Readings.iterations (readings_congr (h.isOpen.trans h.isOpen'.symm) h.body)
  together := .inr (.inr ⟨h.body, rfl⟩)
  first := fun _ hterm => h.task ▸ hterm

/-- **One call to both.**  Twins answer the same call in the same way, except that one of them may
stop there. -/
theorem Twins.exchange (h : Twins c l l' o o') (call : Call α) :
    Abreast l l' (o.exchange call) (o'.exchange call) := by
  rcases mismatched_or_report n call with hmismatch | ⟨p, rfl⟩
  · rw [hmismatch o, hmismatch o']
    exact h.abreast call.x
  · cases hterm : o.task.isTerminal with
    | true =>
      rw [exchange_of_isTerminal hterm, exchange_of_isTerminal (h.task ▸ hterm)]
      exact h.abreast _
    | false =>
      obtain ⟨s, hs⟩ := exists_body_of_isTerminal hterm
      have hs' : o'.body = .ok s := h.body.symm.trans hs
      have hrunning : s.task.isTerminal = false := task_of_body hs ▸ hterm
      obtain ⟨outlook, hunder⟩ := Solver.exists_outlook c s p.x p.f p.g
      rw [exchange_of_running h.isOpen hs hrunning, exchange_of_running h.isOpen' hs' hrunning,
        h.config, h.config', hunder, hunder]
      obtain ⟨haccepted, hcount⟩ := outlook.under_agree (c.withLimits l) (c.withLimits l')
      refine ⟨?_, hcount, ?_, ?_⟩
      · rw [accepted?_proceed h.isOpen, accepted?_proceed h.isOpen', haccepted]
      · rcases outlook.under_eq_or_isTerminal (c.withLimits l) (c.withLimits l') with
          hstop | hstop | hsame
        · exact .inl hstop
        · exact .inr (.inl hstop)
        · right; right
          rw [hsame]
          exact ⟨rfl, rfl⟩
      · intro hl hstop
        exact outlook.isTerminal_under c hl hstop

/-! ## The course of two conversations -/

/-- The points accepted in the first calls of a conversation. -/
def acceptedWithin (o : Optimizer α n) (caller : Nat → Array α → Call α) (x : Array α) (k : Nat) :
    List (Point α n) :=
  o.acceptedPoints (o.callsOf caller x k)

variable {caller : Nat → Array α → Call α} {x : Array α}

/-- Accepted points stay accepted. -/
theorem acceptedWithin_prefix_succ (k : Nat) :
    o.acceptedWithin caller x k <+: o.acceptedWithin caller x (k + 1) := by
  unfold acceptedWithin
  rw [acceptedPoints_callsOf_succ]
  exact List.prefix_append _ _

/-- A run that has ended accepts nothing more. -/
theorem acceptedWithin_succ_of_isTerminal {k : Nat}
    (h : (o.converse caller x k).1.task.isTerminal = true) :
    o.acceptedWithin caller x (k + 1) = o.acceptedWithin caller x k := by
  have hsame : (o.converse caller x (k + 1)).1 = (o.converse caller x k).1 := by
    rw [converse, exchange_of_isTerminal h]
  unfold acceptedWithin
  rw [acceptedPoints_callsOf_succ, hsame, newlyAccepted?_eq_none rfl rfl]
  simp

/-- The run has ended, with no more points accepted than in the other conversation. -/
def EndsWithin (o o' : Optimizer α n) (caller : Nat → Array α → Call α) (x : Array α) (k : Nat) :
    Prop :=
  (o.converse caller x k).1.task.isTerminal = true ∧
    o.acceptedWithin caller x k <+: o'.acceptedWithin caller x k

theorem EndsWithin.succ {k : Nat} (h : EndsWithin o o' caller x k) :
    EndsWithin o o' caller x (k + 1) := by
  obtain ⟨hterm, hprefix⟩ := h
  constructor
  · rw [converse, exchange_of_isTerminal hterm]
    exact hterm
  · rw [acceptedWithin_succ_of_isTerminal hterm]
    exact hprefix.trans (acceptedWithin_prefix_succ k)

/-- Two conversations at the same place. -/
structure InStep (c : Config α) (l l' : Limits α) (o o' : Optimizer α n)
    (caller : Nat → Array α → Call α) (x : Array α) (k : Nat) : Prop where
  twins : Twins c l l' (o.converse caller x k).1 (o'.converse caller x k).1
  point : (o.converse caller x k).2 = (o'.converse caller x k).2
  accepted : o.acceptedWithin caller x k = o'.acceptedWithin caller x k

/-- The next call is the same in both, and leaves them abreast. -/
theorem InStep.abreast {k : Nat} (h : InStep c l l' o o' caller x k) :
    Abreast l l' (o.converse caller x (k + 1)) (o'.converse caller x (k + 1)) := by
  rw [converse, converse, ← h.point]
  exact h.twins.exchange _

theorem InStep.acceptedWithin_succ {k : Nat} (h : InStep c l l' o o' caller x k) :
    o.acceptedWithin caller x (k + 1) = o'.acceptedWithin caller x (k + 1) := by
  have hnow := h.twins.abreast #[]
  have hnext := h.abreast
  have hlist := h.accepted
  unfold acceptedWithin at hlist ⊢
  rw [acceptedPoints_callsOf_succ, acceptedPoints_callsOf_succ, hlist,
    newlyAccepted?_congr hnow.accepted hnow.iterations hnext.accepted hnext.iterations]

/-- Two conversations are at the same place, or one of them has ended; under tighter limits the
first one. -/
def InStepOrEnds (c : Config α) (l l' : Limits α) (o o' : Optimizer α n)
    (caller : Nat → Array α → Call α) (x : Array α) (k : Nat) : Prop :=
  InStep c l l' o o' caller x k ∨ EndsWithin o o' caller x k ∨
    (EndsWithin o' o caller x k ∧ ¬ l.Tighter l')

/-- **One call more.**  The two conversations stay in step until one of them ends. -/
theorem InStepOrEnds.succ {k : Nat} (h : InStepOrEnds c l l' o o' caller x k) :
    InStepOrEnds c l l' o o' caller x (k + 1) := by
  rcases h with hstep | hends | ⟨hends, hnot⟩
  · have hlist := hstep.acceptedWithin_succ
    have hends (hterm : (o.converse caller x (k + 1)).1.task.isTerminal = true) :
        InStepOrEnds c l l' o o' caller x (k + 1) :=
      .inr (.inl ⟨hterm, hlist ▸ List.prefix_rfl⟩)
    rcases hstep.abreast.together with hterm | hterm | ⟨hbody, hpoint⟩
    · exact hends hterm
    · by_cases hl : l.Tighter l'
      · exact hends (hstep.abreast.first hl hterm)
      · exact .inr (.inr ⟨⟨hterm, hlist ▸ List.prefix_rfl⟩, hl⟩)
    · have htwins := hstep.twins
      refine .inl ⟨⟨?_, ?_, ?_, ?_, hbody⟩, hpoint, hlist⟩
      · exact (closed_converse _).trans ((closed_converse k).symm.trans htwins.isOpen)
      · exact (closed_converse _).trans ((closed_converse k).symm.trans htwins.isOpen')
      · exact (config_converse _).trans ((config_converse k).symm.trans htwins.config)
      · exact (config_converse _).trans ((config_converse k).symm.trans htwins.config')
  · exact .inr (.inl hends.succ)
  · exact .inr (.inr ⟨hends.succ, hnot⟩)

/-! ## From the start -/

/-- What begins under two limits begins in the same state. -/
theorem begin?_withLimits {x₀ : Vector α n} {bounds : Bounds α} {s s' : Solver α n}
    (h : begin? x₀ (c.withLimits l) bounds = .ok s)
    (h' : begin? x₀ (c.withLimits l') bounds = .ok s') : s = s' := by
  obtain ⟨-, -, box, hbox, -, rfl⟩ := begin?_eq_ok h
  obtain ⟨-, -, box', hbox', -, rfl⟩ := begin?_eq_ok h'
  cases hbox.symm.trans hbox'
  rfl

/-- Budgets play no part in whether a run begins. -/
theorem begin?_of_tighter {x₀ : Vector α n} {bounds : Bounds α} (hl : l.Tighter l') :
    begin? x₀ (c.withLimits l) bounds = begin? x₀ (c.withLimits l') bounds := by
  have hvalid : (c.withLimits l).validate = (c.withLimits l').validate := by
    unfold Config.validate
    simp only [Config.withLimits, hl.gatol, hl.grtol]
    rfl
  unfold begin?
  rw [hvalid]
  rfl

theorem endsWithin_zero_of_error {e : Failure α} (h : o.body = .error e) :
    EndsWithin o o' caller x 0 := by
  constructor
  · simp only [converse, task, h]
    rfl
  · exact List.nil_prefix

/-- Two conversations begin in step, unless one of them ends there. -/
theorem inStepOrEnds_zero (x₀ : Vector α n) (c : Config α) (bounds : Bounds α)
    (l l' : Limits α) (caller : Nat → Array α → Call α) (x : Array α) :
    InStepOrEnds c l l' (start x₀ (c.withLimits l) bounds) (start x₀ (c.withLimits l') bounds)
      caller x 0 := by
  cases hs : begin? x₀ (c.withLimits l) bounds with
  | error e => exact .inr (.inl (endsWithin_zero_of_error hs))
  | ok s =>
    cases hs' : begin? x₀ (c.withLimits l') bounds with
    | error e =>
      refine .inr (.inr ⟨endsWithin_zero_of_error hs', ?_⟩)
      intro hl
      rw [begin?_of_tighter hl, hs'] at hs
      cases hs
    | ok s' =>
      have hsame := begin?_withLimits hs hs'
      exact .inl ⟨⟨rfl, rfl, rfl, rfl, hs.trans (hsame ▸ hs'.symm)⟩, rfl, rfl⟩

/-- Two conversations are in step until one of them ends. -/
theorem inStepOrEnds (x₀ : Vector α n) (c : Config α) (bounds : Bounds α)
    (l l' : Limits α) (caller : Nat → Array α → Call α) (x : Array α) (k : Nat) :
    InStepOrEnds c l l' (start x₀ (c.withLimits l) bounds) (start x₀ (c.withLimits l') bounds)
      caller x k := by
  induction k with
  | zero => exact inStepOrEnds_zero x₀ c bounds l l' caller x
  | succ k ih => exact ih.succ

/-- **Limits only decide when to stop.**  Take two runs whose settings differ in their budgets and
tolerances alone, from the same starting point within the same bounds, and a caller that answers
both in the same way.  While neither has ended, they hand back the same point and show the same
readings and the same accepted point; and the call that ends one of them leaves both with the
same accepted point.  So the points accepted by the run that ends first begin those of the other;
with tighter budgets that is the first run. -/
theorem limits_only_stop (x₀ : Vector α n) (c : Config α) (bounds : Bounds α) (l l' : Limits α)
    (caller : Nat → Array α → Call α) (k : Nat) :
    let o := start x₀ (c.withLimits l) bounds
    let o' := start x₀ (c.withLimits l') bounds
    let now := o.converse caller x₀.toArray
    let now' := o'.converse caller x₀.toArray
    let list := o.acceptedWithin caller x₀.toArray k
    let list' := o'.acceptedWithin caller x₀.toArray k
    ((now k).1.task.isTerminal = false → (now' k).1.task.isTerminal = false →
      (now k).2 = (now' k).2 ∧ (now k).1.readings = (now' k).1.readings ∧
        (now k).1.accepted? = (now' k).1.accepted? ∧
        (now (k + 1)).1.accepted? = (now' (k + 1)).1.accepted?) ∧
    ((now' k).1.task.isTerminal = false → list <+: list') ∧
    ((now k).1.task.isTerminal = false → list' <+: list) ∧
    (list <+: list' ∨ list' <+: list) ∧
    (l.Tighter l' → list <+: list') := by
  intro o o' now now' list list'
  rcases inStepOrEnds x₀ c bounds l l' caller x₀.toArray k with
    hstep | ⟨hterm, hprefix⟩ | ⟨⟨hterm, hprefix⟩, hnot⟩
  · have hclosed := hstep.twins.isOpen.trans hstep.twins.isOpen'.symm
    have hsame : list = list' := hstep.accepted
    have hprefix : list <+: list' := hsame ▸ List.prefix_rfl
    have hprefix' : list' <+: list := hsame ▸ List.prefix_rfl
    refine ⟨fun _ _ => ⟨hstep.point, ?_, ?_, hstep.abreast.accepted⟩, fun _ => hprefix,
      fun _ => hprefix', .inl hprefix, fun _ => hprefix⟩
    · exact readings_congr hclosed hstep.twins.body
    · exact accepted?_congr hclosed hstep.twins.body
  · have hended (hrunning : (now k).1.task.isTerminal = false) : False :=
      absurd (hterm.symm.trans hrunning) (by decide)
    exact ⟨fun h _ => (hended h).elim, fun _ => hprefix, fun h => (hended h).elim, .inl hprefix,
      fun _ => hprefix⟩
  · have hended (hrunning : (now' k).1.task.isTerminal = false) : False :=
      absurd (hterm.symm.trans hrunning) (by decide)
    exact ⟨fun _ h => (hended h).elim, fun h => (hended h).elim, fun _ => hprefix, .inr hprefix,
      fun hl => absurd hl hnot⟩

/-- A caller that answers with the square of a single variable. -/
def squareCaller (_ : Nat) (x : Array Float) : Call Float :=
  ⟨x, x.getD 0 0 * x.getD 0 0, x.map (2 * ·)⟩

/-- The default limits with another budget of evaluations. -/
def evaluationLimits (maxEvaluations : Nat) : Limits Float :=
  { gatol := 1e-6, grtol := 0, maxIterations := 500, maxEvaluations }

/-- Double precision, where the answers are a square: a run that may evaluate once accepts one
point in three calls, the first of the two that another run accepts. -/
theorem one_evaluation_stops :
    let o := start #v[1] (({} : Config Float).withLimits (evaluationLimits 1)) {}
    let o' := start #v[1] (({} : Config Float).withLimits (evaluationLimits 500)) {}
    (o.converse squareCaller #[1] 1).1.task.isTerminal = false ∧
      (o'.converse squareCaller #[1] 1).1.task.isTerminal = false ∧
      (o.converse squareCaller #[1] 1).1.readings = (o'.converse squareCaller #[1] 1).1.readings ∧
      (o.converse squareCaller #[1] 2).1.task = .warning ∧
      (o.acceptedWithin squareCaller #[1] 3).length = 1 ∧
      (o'.acceptedWithin squareCaller #[1] 3).length = 2 ∧
      o.acceptedWithin squareCaller #[1] 3 <+: o'.acceptedWithin squareCaller #[1] 3 := by
  intro o o'
  have htighter : (evaluationLimits 1).Tighter (evaluationLimits 500) :=
    ⟨rfl, rfl, Nat.le_refl _, by decide⟩
  have hrunning : (o.converse squareCaller #[1] 1).1.task.isTerminal = false := by decide +kernel
  have hrunning' : (o'.converse squareCaller #[1] 1).1.task.isTerminal = false := by
    decide +kernel
  obtain ⟨hsame, -⟩ := limits_only_stop #v[1] {} {} (evaluationLimits 1) (evaluationLimits 500)
    squareCaller 1
  obtain ⟨-, -, -, -, hprefix⟩ := limits_only_stop #v[1] {} {} (evaluationLimits 1)
    (evaluationLimits 500) squareCaller 3
  refine ⟨hrunning, hrunning', (hsame hrunning hrunning').2.1, ?_, ?_, ?_, hprefix htighter⟩
  · decide +kernel
  · decide +kernel
  · decide +kernel

end Optimizer

end Descent
