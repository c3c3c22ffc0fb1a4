import Drayage.Proofs.Engine.Scripted
import Drayage.Controller.Reconcile
import Drayage.Engine.Builtin

/-!
# How long a wait is waited for

A Promotion that waits is looked at after every interval, and at the deadline of its step
if that comes first. But a step whose time is up is not attempted any more, so the look at
the deadline is of no use to it. A wait that is shorter than its timeout therefore succeeds
exactly if one of the looks before the deadline comes after the wait is over.
-/

namespace Drayage

open Drayage.Sequential

variable {σ : Type}

theorem Registry.defaultTimeout_of_known {σ : Type} {registry : Registry σ} {kind : String}
    {runner : Runner σ} (known : registry.get? kind = some runner) :
    registry.defaultTimeout kind = runner.defaultTimeout := by
  unfold defaultTimeout
  rw [known]
  rfl

/-- What the engine is given to go on with a Promotion. -/
def PromotionContext.takingUp (ctx : PromotionContext) (p : Promotion) : PromotionContext :=
  { ctx with
    start := p.status.currentStep
    records := p.status.records
    state := p.status.state }

namespace Promotion

/-- A Promotion with the result of a call of the engine. -/
def withResult (p : Promotion) (r : EngineResult) : Promotion :=
  { p with status := Reconciler.resultStatus p.status (.ok r) }

/-- The current step of a Promotion, as the engine sees it. -/
def currentStep? (p : Promotion) : Option Step :=
  p.spec.steps[p.status.currentStep]?.map (Step.ofDeclared p.status.currentStep)

/-- The record of the current step, if it was attempted before. -/
def currentRecord? (p : Promotion) : Option StepRecord := p.status.records[p.status.currentStep]?

/-- When the current step was first attempted, which is now if it was not. -/
def firstAttempt (p : Promotion) (now : Instant) : Instant :=
  (p.currentRecord?.bind StepRecord.startedAt).getD now

/-- The record that an attempt of the current step starts from. -/
def openRecord (p : Promotion) (step : Step) (now : Instant) : StepRecord :=
  p.currentRecord?.getD (.started step.name now)

end Promotion

namespace Sequential

/-- The progress that is there when a Promotion is resumed. -/
def resumption (p : Promotion) : Progress where
  records := p.status.records.take p.status.currentStep
  state := p.status.state
  healthChecks := []

/-- The first attempt that the engine makes when it resumes a Promotion. -/
def resume (env : Setting σ) (ctx : PromotionContext) (p : Promotion) (step : Step) :
    StateM σ (Except Crash StepOutcome) :=
  attempt env (ctx.takingUp p) step p.currentRecord? p.status.state

variable {env : Setting σ} {ctx : PromotionContext} {p : Promotion} {step : Step}

theorem drop_steps (current : p.currentStep? = some step) :
    p.status.currentStep < p.spec.steps.length ∧
      (Step.ofDeclaredSteps p.spec.steps).drop p.status.currentStep =
        step :: (Step.ofDeclaredSteps p.spec.steps).drop (p.status.currentStep + 1) := by
  have seen := Step.getElem?_ofDeclaredFrom 0 p.spec.steps p.status.currentStep
  rw [Nat.zero_add] at seen
  obtain ⟨inside, rfl⟩ := List.getElem?_eq_some_iff.mp (seen.trans current)
  refine ⟨?_, List.drop_eq_getElem_cons inside⟩
  rwa [Step.length_ofDeclaredFrom] at inside

/-- The engine goes on from its attempt of the current step. -/
theorem promote_takingUp (current : p.currentStep? = some step)
    (records : p.status.currentStep ≤ p.status.records.length) (w : σ) :
    promote env (ctx.takingUp p) (Step.ofDeclaredSteps p.spec.steps) w =
      goOn env (ctx.takingUp p) p.status.currentStep step
        ((Step.ofDeclaredSteps p.spec.steps).drop (p.status.currentStep + 1)) (resumption p)
        (resume env ctx p step w) := by
  obtain ⟨inside, drop⟩ := drop_steps current
  have start : ¬ (Step.ofDeclaredSteps p.spec.steps).length < (ctx.takingUp p).start := by
    rw [Step.length_ofDeclaredSteps]
    exact Nat.not_lt.mpr (Nat.le_of_lt inside)
  have enough : ¬ (ctx.takingUp p).records.length < (ctx.takingUp p).start :=
    Nat.not_lt.mpr records
  unfold promote
  rw [if_neg start, if_neg enough]
  show advance env (ctx.takingUp p) p.status.currentStep
    ((Step.ofDeclaredSteps p.spec.steps).drop p.status.currentStep) p.currentRecord?
    (resumption p) w = _
  rw [drop, advance_eq_goOn]
  rfl

end Sequential

/-- What a wait of `d` seconds reports when some time has passed. -/
def waitReport (d : Nat) (passed : Span) : StepReport :=
  if d ≤ passed.seconds then .succeeded
  else .running s!"waiting {d - passed.seconds}s more"

/-- What an attempt to wait for `d` seconds leaves behind, if no more than `limit` is
allowed. -/
def waitOutcome (step : Step) (record : StepRecord) (d : Nat) (limit : Span)
    (startedAt now : Instant) : StepOutcome :=
  let record := { record with status := .running, startedAt := some startedAt }
  let passed := now.elapsed startedAt
  if limit ≤ passed then
    halted step record .errored s!"step timed out after {limit.seconds}s" now
  else concluded step record now (.ok (waitReport d passed))

/-- A step is to wait for `d` seconds and may take up to `limit`. -/
structure Step.Waits (env : Setting σ) (step : Step) (d : Nat) (limit : Span) : Prop where
  guard : evaluateGuard step.guard = .ok true
  wait : env.registry.get? step.kind = some (Builtin.wait env.clock)
  config : ∃ j, step.config = some j ∧ Builtin.WaitConfig.codec.read j = .ok ⟨d⟩
  timeout : step.timeout (some Builtin.waitTimeout) = some limit

namespace Step.Waits

variable {env : Setting σ} {ctx : PromotionContext} {step : Step} {d : Nat} {limit : Span}

theorem prepare_eq (h : step.Waits env d limit) (now startedAt : Instant) :
    prepare env.registry step now startedAt =
      if limit ≤ now.elapsed startedAt then .halt s!"step timed out after {limit.seconds}s"
      else .ready (Builtin.wait env.clock) := by
  have default : (Builtin.wait env.clock).defaultTimeout = some Builtin.waitTimeout := rfl
  rw [prepare_known h.guard h.wait, default, h.timeout]
  simp only [timedOut, decide_eq_true_eq]

theorem run_eq {c : StepContext} (config : ∃ j, c.config = some j ∧
      Builtin.WaitConfig.codec.read j = .ok ⟨d⟩) {w : σ} {now : Instant}
    (clock : env.clock w = (now, w)) :
    (Builtin.wait env.clock).run c w =
      (.reported (waitReport d (now.elapsed c.startedAt)), w) := by
  obtain ⟨j, config, read⟩ := config
  show (Builtin.waitAttempt c (env.clock w).1, (env.clock w).2) = _
  rw [clock]
  unfold Builtin.waitAttempt waitReport
  simp only [config, read]
  by_cases done : d ≤ (now.elapsed c.startedAt).seconds
  · simp only [if_pos done]
  · simp only [if_neg done]

theorem runStep_eq (h : step.Waits env d limit) {w : σ} {now : Instant}
    (clock : env.clock w = (now, w)) (record : StepRecord) (state : SharedState) :
    runStep env ctx step record state w =
      (.ok (waitOutcome step record d limit (record.startedAt.getD now) now), w) := by
  unfold runStep waitOutcome
  simp only [bind, StateT.bind, clock]
  rw [h.prepare_eq]
  by_cases late : limit ≤ now.elapsed (record.startedAt.getD now)
  · rw [if_pos late, if_pos late]
    simp only [StateT.bind, clock]
    rfl
  · rw [if_neg late, if_neg late]
    simp only [bind, StateT.bind]
    rw [run_eq h.config clock]
    simp only [bind, StateT.bind, clock]
    rfl

end Step.Waits

namespace Promotion

variable {env : Setting σ} {ctx : PromotionContext} {p : Promotion} {step : Step} {d : Nat}
  {limit interval : Span}

/-- The current step is to wait for `d` seconds and may take up to `limit`. -/
structure Waits (env : Setting σ) (p : Promotion) (step : Step) (d : Nat) (limit : Span) :
    Prop where
  current : p.currentStep? = some step
  step : step.Waits env d limit
  /-- There are records of all steps before it. -/
  records : p.status.currentStep ≤ p.status.records.length

/-- A step is opened with its record, or with a new one. -/
theorem opening_eq {w : σ} {now : Instant} (clock : env.clock w = (now, w)) (step : Step) :
    opening env step p.currentRecord? w = (p.openRecord step now, w) := by
  unfold openRecord
  cases p.currentRecord? with
  | some record => rfl
  | none => simp [opening, clock]

theorem startedAt_openRecord (step : Step) (now : Instant) :
    (p.openRecord step now).startedAt.getD now = p.firstAttempt now := by
  unfold openRecord firstAttempt
  cases p.currentRecord? <;> rfl

theorem Waits.resume_eq (h : p.Waits env step d limit) {w : σ} {now : Instant}
    (clock : env.clock w = (now, w)) :
    resume env ctx p step w =
      (.ok (waitOutcome step (p.openRecord step now) d limit (p.firstAttempt now) now), w) := by
  unfold resume attempt
  rw [opening_eq clock]
  show runStep env _ step _ _ w = _
  rw [h.step.runStep_eq clock, startedAt_openRecord]

/-- A Promotion whose current step is put off. -/
def putOff (p : Promotion) (step : Step) (record : StepRecord) (message : Option String) :
    Promotion :=
  p.withResult (((resumption p).add step (paused record message)).result .running message
    p.status.currentStep)

theorem Waits.putOff (h : p.Waits env step d limit) (record : StepRecord)
    (message : Option String) : (p.putOff step record message).Waits env step d limit where
  current := h.current
  step := h.step
  records := by
    show p.status.currentStep ≤ (p.status.records.take p.status.currentStep ++ [_]).length
    rw [List.length_append, List.length_take_of_le h.records]
    exact Nat.le_add_right _ _

theorem Waits.currentRecord?_putOff (h : p.Waits env step d limit) (record : StepRecord)
    (message : Option String) :
    (p.putOff step record message).currentRecord? = some { record with message } := by
  show (p.status.records.take p.status.currentStep ++ [_])[p.status.currentStep]? = _
  rw [List.getElem?_append_right (Nat.le_of_eq (List.length_take_of_le h.records)),
    List.length_take_of_le h.records, Nat.sub_self]
  rfl

theorem Waits.timeLimit?_eq (h : p.Waits env step d limit) {record : StepRecord}
    (known : p.currentRecord? = some record) {startedAt : Instant}
    (started : record.startedAt = some startedAt) (addable : limit.addable) :
    p.timeLimit? env.registry.defaultTimeout = some (startedAt, limit) := by
  obtain ⟨declared, current, rfl⟩ := Option.map_eq_some_iff.mp h.current
  have default : env.registry.defaultTimeout
      (Step.ofDeclared p.status.currentStep declared).kind = some Builtin.waitTimeout :=
    Registry.defaultTimeout_of_known h.step.wait
  have known : p.status.records[p.status.currentStep]? = some record := known
  unfold timeLimit?
  simp [current, default, h.step.timeout, known, started, addable]

/-- The next look is after the interval or at the deadline, whichever comes first. -/
theorem Waits.nextDelay_eq (h : p.Waits env step d limit) {record : StepRecord}
    (known : p.currentRecord? = some record) {startedAt now : Instant}
    (started : record.startedAt = some startedAt) (addable : limit.addable)
    (interval_addable : interval.addable) (begun : startedAt.Regular) (present : now.Regular)
    (deadline : startedAt.stamp + limit.nanos ≤ Instant.latest)
    (horizon : now.stamp + interval.nanos ≤ Instant.latest) :
    p.nextDelay env.registry.defaultTimeout interval now = some
      (if startedAt.stamp + limit.nanos < now.stamp + interval.nanos then
        .ofSigned (startedAt.stamp + limit.nanos - now.stamp) else interval) := by
  obtain ⟨deadline, ends⟩ := Instant.exists_add? (d := limit) begun deadline
  obtain ⟨later, comes⟩ := Instant.exists_add? (d := interval) present horizon
  have regular := begun.add ends
  have future := present.add comes
  unfold nextDelay
  rw [h.timeLimit?_eq known started addable]
  simp only [interval_addable, if_true, ends, comes, Option.bind_eq_bind, Option.bind_some,
    Option.pure_def, Instant.elapsed, Instant.lt_iff_of_regular regular future,
    Instant.since_of_regular regular present, begun.stamp_add ends, present.stamp_add comes]

end Promotion

/-- A wait of so many seconds that starts at some time and may not take longer than `limit`,
and the interval after which it is looked at again. -/
structure Wait where
  start : Instant
  seconds : Nat
  limit : Span
  interval : Span

namespace Wait

variable (W : Wait)

/-- The wait is over when so many nanoseconds have passed. -/
def needed : Nat := W.seconds * 10 ^ 9

/-- How much time has passed at a look: the interval that many times, but not more than the
step may take. -/
def passed (k : Nat) : Nat := min (k * W.interval.nanos) W.limit.nanos

/-- It is shorter than it may take, and all sums of times have a date. Clocks do not show leap
seconds, so it does not start in one. -/
structure Proper : Prop where
  start : W.start.Regular
  short : W.needed < W.limit.nanos
  positive : 0 < W.interval.nanos
  limit : W.limit.addable
  interval : W.interval.addable
  latest : W.start.stamp + W.limit.nanos + W.interval.nanos ≤ Instant.latest

variable {W} {σ : Type} {env : Setting σ} {ctx : PromotionContext} {p : Promotion}
  {step : Step} {t : Instant} {k : Nat}

/-- The time of a look. -/
structure Reached (W : Wait) (k : Nat) (t : Instant) : Prop where
  regular : t.Regular
  stamp : t.stamp = W.start.stamp + W.passed k

/-- How long a Promotion has been waiting when it is looked at once more, at `t`. -/
structure Underway (W : Wait) (env : Setting σ) (step : Step) (p : Promotion) (k : Nat)
    (t : Instant) : Prop where
  waits : p.Waits env step W.seconds W.limit
  start : p.firstAttempt t = W.start
  time : W.Reached k t

theorem nanos_elapsed (start : W.start.Regular) (time : W.Reached k t) :
    (t.elapsed W.start).nanos = W.passed k := by
  show (t.since W.start).toNat = _
  rw [Instant.since_of_regular time.regular start, time.stamp]
  omega

theorem seconds_le_iff {passed : Span} : W.seconds ≤ passed.seconds ↔ W.needed ≤ passed.nanos :=
  Nat.le_div_iff_mul_le (by decide)

/-- What a look makes of a wait. -/
theorem outcome_cases (start : W.start.Regular) (time : W.Reached k t) (record : StepRecord) :
    let o := waitOutcome step record W.seconds W.limit W.start t
    (W.limit.nanos ≤ k * W.interval.nanos ∧
        o = halted step { record with status := .running, startedAt := some W.start } .errored
          s!"step timed out after {W.limit.seconds}s" t) ∨
      (W.needed ≤ k * W.interval.nanos ∧ k * W.interval.nanos < W.limit.nanos ∧
        o.record.status = .succeeded ∧ o.verdict = .next) ∨
      (k * W.interval.nanos < W.needed ∧ ∃ message,
        o = paused { record with status := .running, startedAt := some W.start } message) := by
  intro o
  have elapsed := nanos_elapsed start time
  unfold passed at elapsed
  by_cases late : W.limit ≤ t.elapsed W.start
  · have : W.limit.nanos ≤ (t.elapsed W.start).nanos := late
    exact .inl ⟨by omega, if_pos late⟩
  · have timely : ¬ W.limit.nanos ≤ (t.elapsed W.start).nanos := late
    have eq : o = concluded step { record with status := .running, startedAt := some W.start } t
      (.ok (waitReport W.seconds (t.elapsed W.start))) := if_neg late
    unfold waitReport at eq
    by_cases done : W.seconds ≤ (t.elapsed W.start).seconds
    · rw [if_pos done] at eq
      rw [seconds_le_iff] at done
      rw [eq]
      exact .inr (.inl ⟨by omega, by omega, rfl, rfl⟩)
    · rw [if_neg done] at eq
      rw [seconds_le_iff] at done
      exact .inr (.inr ⟨by omega, _, eq⟩)

/-- The record that a wait leaves when it is put off. -/
def pendingRecord (W : Wait) (record : StepRecord) : StepRecord :=
  { record with status := .running, startedAt := some W.start }

/-- A wait that is put off is looked at again after one more interval, or at its deadline. -/
theorem Underway.next (h : W.Underway env step p k t) (proper : W.Proper)
    (early : k * W.interval.nanos < W.needed) (record : StepRecord) (message : Option String) :
    ∃ delay t',
      (p.putOff step (W.pendingRecord record) message).nextDelay env.registry.defaultTimeout
        W.interval t = some delay ∧
      t.add? delay = some t' ∧
      W.Underway env step (p.putOff step (W.pendingRecord record) message) (k + 1) t' := by
  have known := h.waits.currentRecord?_putOff (W.pendingRecord record) message
  have waits := h.waits.putOff (W.pendingRecord record) message
  have time := h.time.stamp
  have next : W.passed (k + 1) = min (k * W.interval.nanos + W.interval.nanos) W.limit.nanos := by
    rw [passed, Nat.succ_mul]
  unfold passed at time
  have short := proper.short
  have latest := proper.latest
  have started : (W.pendingRecord record).startedAt = some W.start := rfl
  have horizon : t.stamp + W.interval.nanos ≤ Instant.latest := by omega
  have delay := waits.nextDelay_eq known started proper.limit proper.interval proper.start
    h.time.regular (by omega) horizon
  have length (after : Span) (hafter : after =
      if W.start.stamp + W.limit.nanos < t.stamp + W.interval.nanos then
        .ofSigned (W.start.stamp + W.limit.nanos - t.stamp) else W.interval) :
      t.stamp + after.nanos = W.start.stamp + W.passed (k + 1) := by
    rw [next, hafter]
    split
    · show t.stamp + ((W.start.stamp + W.limit.nanos - t.stamp).toNat : Int) = _
      omega
    · omega
  have reached := length _ rfl
  have inside : W.start.stamp + W.passed (k + 1) ≤ Instant.latest := by
    rw [next]
    omega
  obtain ⟨t', later⟩ := Instant.exists_add? h.time.regular (reached ▸ inside)
  refine ⟨_, t', delay, later, waits, ?_, h.time.regular.add later, ?_⟩
  · unfold Promotion.firstAttempt
    rw [known]
    rfl
  · rw [h.time.regular.stamp_add later, reached]

theorem halted_ne_pause (record : StepRecord) (status : StepStatus) (text : String)
    (message : Option String) : (halted step record status text t).verdict ≠ .pause message := by
  unfold halted
  dsimp only
  split <;> simp

/-- A look at a Promotion at some time: what it makes of the current step, and what the
engine answers. -/
def Looked (env : Setting σ) (ctx : PromotionContext) (p : Promotion) (t : Instant)
    (o : StepOutcome) (answer : EngineAnswer) : Prop :=
  ∃ w step, env.clock w = (t, w) ∧ p.currentStep? = some step ∧
    (resume env ctx p step w).1 = .ok o ∧
    (promote env (ctx.takingUp p) (Step.ofDeclaredSteps p.spec.steps) w).1 = answer

theorem Underway.outcome_of_looked (h : W.Underway env step p k t) {o : StepOutcome}
    {answer : EngineAnswer} (looked : Looked env ctx p t o answer) :
    o = waitOutcome step (p.openRecord step t) W.seconds W.limit W.start t := by
  obtain ⟨w, step', clock, current, attempted, -⟩ := looked
  rw [h.waits.current] at current
  cases current
  rw [h.waits.resume_eq clock, h.start] at attempted
  exact (Except.ok.inj attempted).symm

/-- The engine answers with the step that it puts off. -/
theorem Underway.answer_of_paused (h : W.Underway env step p k t) {record : StepRecord}
    {message : Option String} {answer : EngineAnswer}
    (looked : Looked env ctx p t (paused record message) answer) :
    answer = .result (((resumption p).add step (paused record message)).result .running message
      p.status.currentStep) := by
  obtain ⟨w, step', clock, current, attempted, rfl⟩ := looked
  rw [h.waits.current] at current
  cases current
  have resumed : resume env ctx p step w = _ := h.waits.resume_eq clock
  rw [promote_takingUp h.waits.current h.waits.records, resumed]
  rw [resumed] at attempted
  rw [Except.ok.inj attempted]
  rfl

theorem Underway.looked (h : W.Underway env step p k t) (ctx : PromotionContext)
    (clocks : ∀ t, ∃ w, env.clock w = (t, w)) :
    ∃ answer, Looked env ctx p t
      (waitOutcome step (p.openRecord step t) W.seconds W.limit W.start t) answer := by
  obtain ⟨w, clock⟩ := clocks t
  refine ⟨_, w, step, clock, h.waits.current, ?_, rfl⟩
  rw [h.waits.resume_eq clock, h.start]

/-- Looks at a Promotion, first at some time and then whenever the one before says, until
one does not put off the current step again: their times, and what the last makes of the
step. -/
inductive Vigil (env : Setting σ) (ctx : PromotionContext) (interval : Span) :
    Promotion → Instant → List Instant → StepOutcome → Prop where
  | leaves {p : Promotion} {t : Instant} {o : StepOutcome} {answer : EngineAnswer}
      (looked : Looked env ctx p t o answer) (left : ∀ message, o.verdict ≠ .pause message) :
      Vigil env ctx interval p t [t] o
  | stays {p : Promotion} {t t' : Instant} {o last : StepOutcome} {r : EngineResult}
      {message : Option String} {delay : Span} {ts : List Instant}
      (looked : Looked env ctx p t o (.result r)) (pause : o.verdict = .pause message)
      (delayed : (p.withResult r).nextDelay env.registry.defaultTimeout interval t = some delay)
      (next : t.add? delay = some t') (rest : Vigil env ctx interval (p.withResult r) t' ts last) :
      Vigil env ctx interval p t (t :: ts) last

/-- The last look is the first one that comes when the wait is over. -/
structure Watched (W : Wait) (step : Step) (k n : Nat) (ts : List Instant) (o : StepOutcome) :
    Prop where
  after : k ≤ n
  early : ∀ j, k ≤ j → j < n → j * W.interval.nanos < W.needed
  done : W.needed ≤ n * W.interval.nanos
  times : ts.map Instant.stamp =
    (List.range' k (n + 1 - k)).map fun j => W.start.stamp + W.passed j
  outcome : ∃ record t, W.Reached n t ∧
    o = waitOutcome step record W.seconds W.limit W.start t

theorem Underway.watched (proper : W.Proper) {ts : List Instant} {o : StepOutcome}
    (vigil : Vigil env ctx W.interval p t ts o) (h : W.Underway env step p k t) :
    ∃ n, W.Watched step k n ts o := by
  induction vigil generalizing k with
  | @leaves p t o answer looked left =>
    have eq := h.outcome_of_looked looked
    have done : W.needed ≤ k * W.interval.nanos := by
      have short := proper.short
      rcases outcome_cases proper.start h.time (p.openRecord step t) with ⟨late, -⟩ | ⟨done, -⟩ | ⟨-, m, paused⟩
      · omega
      · exact done
      · rw [eq, paused] at left
        exact absurd rfl (left m)
    refine ⟨k, Nat.le_refl k, fun j after before => ?_, done, ?_, _, t, h.time, eq⟩
    · omega
    · simp [h.time.stamp]
  | @stays p t t' o last r message delay ts looked pause delayed next rest ih =>
    have eq := h.outcome_of_looked looked
    rcases outcome_cases proper.start h.time (p.openRecord step t) with ⟨-, late⟩ | ⟨-, -, -, done⟩ |
        ⟨early, m, paused⟩
    · rw [eq, late] at pause
      exact absurd pause (halted_ne_pause _ _ _ _)
    · rw [eq, done] at pause
      cases pause
    · rw [eq, paused] at looked
      cases h.answer_of_paused looked
      obtain ⟨delay', t'', delayed', next', underway⟩ := h.next proper early
        (p.openRecord step t) m
      cases delayed.symm.trans delayed'
      cases next.symm.trans next'
      obtain ⟨n, later⟩ := ih underway
      have after := later.after
      refine ⟨n, by omega, fun j since before => ?_, later.done, ?_, later.outcome⟩
      · rcases Nat.eq_or_lt_of_le since with rfl | since
        · exact early
        · exact later.early j since before
      · have count : n + 1 - k = n + 1 - (k + 1) + 1 := by omega
        rw [count, List.range'_succ, List.map_cons, List.map_cons, later.times, h.time.stamp]

/-- The looks come to an end. -/
theorem Underway.vigil (proper : W.Proper) (clocks : ∀ t, ∃ w, env.clock w = (t, w))
    (ctx : PromotionContext) (h : W.Underway env step p k t) :
    ∃ ts o, Vigil env ctx W.interval p t ts o := by
  -- every look leaves less to wait for
  induction left : W.needed - k * W.interval.nanos using Nat.strongRecOn generalizing p k t with
  | ind rest ih =>
    obtain ⟨answer, looked⟩ := h.looked ctx clocks
    rcases outcome_cases proper.start h.time (p.openRecord step t) with ⟨-, late⟩ | ⟨-, -, -, done⟩ |
        ⟨early, m, paused⟩
    · refine ⟨_, _, .leaves looked fun message => ?_⟩
      rw [late]
      exact halted_ne_pause _ _ _ _
    · refine ⟨_, _, .leaves looked fun message => ?_⟩
      rw [done]
      simp
    · rw [paused] at looked
      cases h.answer_of_paused looked
      obtain ⟨delay, t', delayed, next, underway⟩ := h.next proper early (p.openRecord step t) m
      have positive := proper.positive
      have less : W.needed - (k + 1) * W.interval.nanos < rest := by
        rw [Nat.succ_mul]
        omega
      obtain ⟨ts, o, vigil⟩ := ih _ less underway rfl
      exact ⟨_, _, .stays looked rfl delayed next vigil⟩

/-- How a wait ends that is looked after, if `ts` are the times of the looks and `o` is what
the last of them makes of the step. -/
structure Ended (W : Wait) (step : Step) (ts : List Instant) (o : StepOutcome) : Prop where
  /-- It is looked at after every interval, but not later than at its deadline. -/
  times : ts.map Instant.stamp =
    (List.range ts.length).map fun k => W.start.stamp + W.passed k
  /-- It succeeds exactly if some number of intervals is as long as the wait and shorter than
  the limit. -/
  succeeded_iff : o.record.status = .succeeded ↔
    ∃ k, W.needed ≤ k * W.interval.nanos ∧ k * W.interval.nanos < W.limit.nanos
  /-- So it does if the limit leaves room for one more interval. -/
  succeeded_of_room : W.needed + W.interval.nanos ≤ W.limit.nanos →
    o.record.status = .succeeded
  /-- Otherwise the look at its deadline ends it because its time is up. -/
  timedOut : o.record.status ≠ .succeeded → ∃ record t,
    t.stamp = W.start.stamp + W.limit.nanos ∧
      o = halted step record .errored s!"step timed out after {W.limit.seconds}s" t

/-- The looks after a wait come to an end, and there is one way in which they can. -/
structure Settled (W : Wait) (env : Setting σ) (ctx : PromotionContext) (p : Promotion)
    (step : Step) : Prop where
  ends : ∃ ts o, Vigil env ctx W.interval p W.start ts o
  ended : ∀ ts o, Vigil env ctx W.interval p W.start ts o → W.Ended step ts o

theorem exists_round (positive : 0 < W.interval.nanos)
    (room : W.needed + W.interval.nanos ≤ W.limit.nanos) :
    ∃ k, W.needed ≤ k * W.interval.nanos ∧ k * W.interval.nanos < W.limit.nanos := by
  have split := Nat.div_add_mod' (W.needed + (W.interval.nanos - 1)) W.interval.nanos
  have rest := Nat.mod_lt (W.needed + (W.interval.nanos - 1)) positive
  exact ⟨(W.needed + (W.interval.nanos - 1)) / W.interval.nanos, by omega, by omega⟩

theorem Watched.ended (proper : W.Proper) {n : Nat} {ts : List Instant} {o : StepOutcome}
    (h : W.Watched step 0 n ts o) : W.Ended step ts o := by
  have count : ts.length = n + 1 := by
    have := congrArg List.length h.times
    rwa [List.length_map, List.length_map, List.length_range'] at this
  obtain ⟨record, t, time, rfl⟩ := h.outcome
  -- a round that is long enough does not come before the last look
  have last (k : Nat) (done : W.needed ≤ k * W.interval.nanos) :
      n * W.interval.nanos ≤ k * W.interval.nanos := by
    refine Nat.mul_le_mul_right _ (Nat.le_of_not_lt fun before => ?_)
    have := h.early k (Nat.zero_le k) before
    omega
  have done := h.done
  have short := proper.short
  have succeeded_iff : (waitOutcome step record W.seconds W.limit W.start t).record.status =
      .succeeded ↔ ∃ k, W.needed ≤ k * W.interval.nanos ∧
        k * W.interval.nanos < W.limit.nanos := by
    rcases outcome_cases proper.start time record with ⟨late, out⟩ | ⟨-, within, status, -⟩ | ⟨early, -⟩
    · rw [out]
      refine iff_of_false (by simp [halted]) ?_
      rintro ⟨k, long, within⟩
      have := last k long
      omega
    · exact iff_of_true status ⟨n, done, within⟩
    · omega
  refine ⟨?_, succeeded_iff, fun room => ?_, fun unfinished => ?_⟩
  · rw [h.times, count, List.range_eq_range']
    rfl
  · exact succeeded_iff.mpr (exists_round proper.positive room)
  · rcases outcome_cases proper.start time record with ⟨late, out⟩ | ⟨-, -, status, -⟩ | ⟨early, -⟩
    · refine ⟨_, t, ?_, out⟩
      rw [time.stamp, passed, Nat.min_eq_right late]
    · exact absurd status unfinished
    · omega

/-- Whenever a wait that is shorter than its limit is first attempted. -/
theorem settled_of_waits (waits : p.Waits env step W.seconds W.limit)
    (first : p.currentRecord?.bind StepRecord.startedAt = none) (proper : W.Proper)
    (clocks : ∀ t, ∃ w, env.clock w = (t, w)) : W.Settled env ctx p step := by
  have underway : W.Underway env step p 0 W.start := by
    refine ⟨waits, ?_, proper.start, ?_⟩
    · rw [Promotion.firstAttempt, first, Option.getD_none]
    · rw [passed, Nat.zero_mul, Nat.zero_min]
      exact (Int.add_zero _).symm
  refine ⟨underway.vigil proper clocks ctx, fun ts o vigil => ?_⟩
  obtain ⟨n, watched⟩ := underway.watched proper vigil
  exact watched.ended proper

/-- A world that is nothing but a time. -/
def clockwork : Setting Instant where
  registry := Builtin.registry fun t => (t, t)
  credentials _ _ _ := .ok none
  clock t := (t, t)

/-- A step that waits for 100 seconds and may take 200. -/
def nap : DeclaredStep :=
  { DeclaredStep.ofKind "wait" with
    retry := some ⟨some 200, none⟩
    config := some (.record [("duration", .nat 100)]) }

def drowsy : Promotion := .fresh (.fresh "demo" "p1" default) ⟨"prod", "f1", [], [nap]⟩

/-- It starts at the beginning of 1970 and is looked at every so many seconds. -/
def nightWatch (seconds : Nat) : Wait := ⟨⟨0, 0⟩, 100, .ofSeconds 200, .ofSeconds seconds⟩

theorem waits_drowsy : drowsy.Waits clockwork (.ofDeclared 0 nap) 100 (.ofSeconds 200) where
  current := rfl
  step := by
    refine ⟨rfl, ?_, ⟨_, rfl, rfl⟩, rfl⟩
    show (Dict.insert _ "wait" _).get? "wait" = _
    rw [Dict.get?_insert, if_pos Std.ReflCmp.compare_self]
    rfl
  records := Nat.le_refl 0

theorem proper_nightWatch : (nightWatch 60).Proper ∧ (nightWatch 300).Proper := by
  refine ⟨⟨?_, ?_, ?_, ?_, ?_, ?_⟩, ⟨?_, ?_, ?_, ?_, ?_, ?_⟩⟩ <;> decide +kernel

/-- Looked at every minute, it succeeds. -/
theorem settled_of_everyMinute :
    let W := nightWatch 60
    drowsy.Waits clockwork (.ofDeclared 0 nap) W.seconds W.limit ∧
      drowsy.currentRecord?.bind StepRecord.startedAt = none ∧ W.Proper ∧
      (∀ t, ∃ w, clockwork.clock w = (t, w)) ∧
      W.Settled clockwork default drowsy (.ofDeclared 0 nap) :=
  ⟨waits_drowsy, rfl, proper_nightWatch.1, fun t => ⟨t, rfl⟩,
    settled_of_waits waits_drowsy rfl proper_nightWatch.1 fun t => ⟨t, rfl⟩⟩

/-- Looked at every five minutes, it has to wait for its deadline, which it does not
survive. -/
theorem timedOut_of_everyFiveMinutes :
    let W := nightWatch 300
    drowsy.Waits clockwork (.ofDeclared 0 nap) W.seconds W.limit ∧ W.Proper ∧
      ∃ o, Vigil clockwork default W.interval drowsy W.start [⟨0, 0⟩, ⟨200, 0⟩] o ∧
        o.record.status = .errored ∧ o.record.message = some "step timed out after 200s" := by
  refine ⟨waits_drowsy, proper_nightWatch.2, _,
    .stays ⟨⟨0, 0⟩, _, rfl, rfl, rfl, rfl⟩ rfl rfl rfl
      (.leaves ⟨⟨200, 0⟩, _, rfl, rfl, rfl, rfl⟩ (halted_ne_pause _ _ _)), ?_, ?_⟩
  · rfl
  · rfl

end Wait

end Drayage
