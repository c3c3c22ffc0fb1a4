import Drayage.Proofs.Controller.Requeue
import Drayage.Proofs.Controller.Waiting
import Drayage.Proofs.Engine.Retrying

/-!
# Who tells that the time is up

The engine tells from the time that has passed since a step started whether it has run out of
time. The scheduler tells from the time at which it will when to look again. They agree: the
engine ends a step because its time is up exactly where the scheduler asks for a look at once.
So a step that the engine puts off is never looked at again without any delay.

That is so away from leap seconds. If a step starts in one, the sum from which the scheduler
tells its deadline counts the leap second, while the difference from which the engine tells the
time that has passed need not.
-/

namespace Drayage

open Drayage.Sequential

namespace Promotion

variable {p : Promotion} {usual : String → Option Span} {interval : Span} {start now : Instant}

/-- The current step has taken as long as it may. -/
def Overdue (p : Promotion) (usual : String → Option Span) (start now : Instant) : Prop :=
  ∃ limit, p.allowance? usual = some limit ∧ limit ≠ .zero ∧
    start.stamp + limit.nanos ≤ now.stamp

/-- The current step has started in the calendar, and the sums of times from which the next
look is told have dates. -/
structure Dated (p : Promotion) (usual : String → Option Span) (interval : Span)
    (start now : Instant) : Prop where
  began : Instant.earliest ≤ start.stamp
  converts : interval.addable = true
  horizon : now.add? interval ≠ none
  deadline : ∀ limit, p.allowance? usual = some limit → limit.addable = true →
    start.add? limit ≠ none

/-- A look at once means that the deadline has passed. -/
theorem overdue_of_nextDelay (positive : interval ≠ .zero) (present : now.Regular)
    (regular : ∀ start, p.begunAt? = some start → start.Regular)
    (atOnce : p.nextDelay usual interval now = some .zero) :
    ∃ start, p.begunAt? = some start ∧ p.Overdue usual start now := by
  unfold nextDelay at atOnce
  cases limited : p.timeLimit? usual with
  | none =>
    rw [limited] at atOnce
    exact absurd (Option.some.inj atOnce) positive
  | some limit =>
    obtain ⟨start, limit⟩ := limit
    obtain ⟨begun, allowed, hurried, -⟩ := timeLimit?_eq_some_iff.mp limited
    rw [limited] at atOnce
    obtain ⟨deadline, hdeadline, atOnce⟩ := Option.bind_eq_some_iff.mp atOnce
    obtain ⟨horizon, -, atOnce⟩ := Option.bind_eq_some_iff.mp atOnce
    have atOnce : (if deadline < horizon then deadline.elapsed now else interval) = .zero :=
      Option.some.inj atOnce
    split at atOnce
    · have start_regular := regular start begun
      have passed : (deadline.since now).toNat = 0 := congrArg Span.nanos atOnce
      rw [Instant.since_of_regular (start_regular.add hdeadline) present] at passed
      have ends := start_regular.stamp_add hdeadline
      exact ⟨start, begun, limit, allowed, hurried, by omega⟩
    · exact absurd atOnce positive

theorem years_lt_limit : Instant.latest - Instant.earliest < Span.limit := by decide +kernel

/-- Where the sums have dates, a look is asked for at once exactly if the time is up. -/
theorem nextDelay_eq_zero_iff (begun : p.begunAt? = some start) (regular : start.Regular)
    (present : now.Regular)
    (dated : p.Dated usual interval start now) (positive : interval ≠ .zero) :
    p.nextDelay usual interval now = some .zero ↔ p.Overdue usual start now := by
  constructor
  · intro atOnce
    have regular (start' : Instant) (begun' : p.begunAt? = some start') : start'.Regular := by
      cases begun.symm.trans begun'
      exact regular
    obtain ⟨start', begun', overdue⟩ := overdue_of_nextDelay positive present regular atOnce
    cases begun.symm.trans begun'
    exact overdue
  · rintro ⟨limit, allowed, hurried, late⟩
    have inCalendar : now.stamp ≤ Instant.latest := by
      have horizon := dated.horizon
      rw [ne_eq, Instant.add?_eq_none_iff, Instant.base_of_regular present] at horizon
      omega
    -- what may take longer than can be added to an instant may take longer than the calendar
    have short : limit.nanos ≤ Span.limit := by
      have years := years_lt_limit
      have first := dated.began
      omega
    have limited := timeLimit?_eq_some_iff.mpr ⟨begun, allowed, hurried, short⟩
    obtain ⟨deadline, ends⟩ := Option.ne_none_iff_exists'.mp
      (dated.deadline limit allowed (Span.addable_iff.mpr short))
    have regular' := regular.add ends
    have stamp := regular.stamp_add ends
    rw [nextDelay_of_limited limited dated.converts dated.horizon ends present regular',
      Instant.since_of_regular regular' present]
    have none : min interval.nanos (deadline.stamp - now.stamp).toNat = 0 := by omega
    rw [none]
    rfl

/-- Engine and scheduler allow the current step the same time. -/
theorem timeout_eq_some_iff {step : Step} {limit : Span} (current : p.currentStep? = some step) :
    step.timeout (usual step.kind) = some limit ↔
      p.allowance? usual = some limit ∧ limit ≠ .zero := by
  obtain ⟨declared, here, rfl⟩ := Option.map_eq_some_iff.mp current
  unfold allowance?
  rw [here]
  show Option.filter _ _ = _ ↔ _
  rw [Option.filter_eq_some_iff, Bool.not_eq_true', Span.isZero_eq_false_iff]
  rfl

/-- The current step was first attempted at `start` and is gone on with: it is to run, and there
is a runner for it. -/
structure Ongoing {σ : Type} (env : Setting σ) (p : Promotion) (step : Step) (start : Instant) :
    Prop where
  current : p.currentStep? = some step
  begun : p.begunAt? = some start
  guard : Step.evaluateGuard step.guard = .ok true
  known : (env.registry.get? step.kind).isSome = true

end Promotion

namespace Sequential

variable {σ : Type} {env : Setting σ} {ctx : PromotionContext} {p : Promotion} {step : Step}
  {record : StepRecord} {start now : Instant} {limit : Span} {x : σ}

theorem timedOut_iff (positive : limit ≠ .zero) (present : now.Regular)
    (regular : start.Regular) :
    timedOut now start limit = true ↔ start.stamp + limit.nanos ≤ now.stamp := by
  have some : limit.nanos ≠ 0 := fun none => positive (by cases limit; cases none; rfl)
  unfold timedOut
  rw [decide_eq_true_iff]
  show limit.nanos ≤ (now.since start).toNat ↔ _
  rw [Instant.since_of_regular present regular]
  omega

/-- Nothing is left to a runner of a step whose time is up. -/
theorem prepare_late {registry : Registry σ} {runner : Runner σ}
    (goes : Step.evaluateGuard step.guard = .ok true)
    (known : registry.get? step.kind = some runner)
    (allowed : step.timeout runner.defaultTimeout = some limit)
    (late : timedOut now start limit = true) :
    prepare registry step now start = .halt s!"step timed out after {limit.seconds}s" := by
  rw [prepare_known goes known, allowed]
  exact if_pos late

theorem runStep_late {runner : Runner σ} {state : SharedState}
    (goes : Step.evaluateGuard step.guard = .ok true)
    (known : env.registry.get? step.kind = some runner)
    (started : record.startedAt = some start)
    (allowed : step.timeout runner.defaultTimeout = some limit)
    (late : timedOut (env.clock x).1 start limit = true) :
    (runStep env ctx step record state x).1 = .ok (halted step (record.begun start) .errored
      s!"step timed out after {limit.seconds}s" (env.clock (env.clock x).2).1) := by
  unfold runStep StepRecord.begun
  simp only [bind, StateT.bind, started, Option.getD_some]
  generalize env.clock x = read at late ⊢
  obtain ⟨now, x₁⟩ := read
  dsimp only at late ⊢
  rw [prepare_late goes known allowed late]
  rfl

/-- A runner is called at the time that is read then, and told when its step began. -/
theorem times_of_runnerCall? {state : SharedState} {call : RunnerCall}
    (called : runnerCall? env ctx step record state x = some call) :
    call.time = (env.clock x).1 ∧
      call.context.startedAt = record.startedAt.getD (env.clock x).1 := by
  unfold runnerCall? at called
  dsimp only at called
  generalize env.clock x = read at called ⊢
  obtain ⟨now, x₁⟩ := read
  dsimp only at called
  split at called
  · cases called
  · cases called
  · cases called
    exact ⟨rfl, rfl⟩

/-- A step that was not attempted before begins at a time that is read then. -/
theorem startedAt_of_opening {resumed : Option StepRecord} {x₁ : σ}
    (opened : opening env step resumed x = (record, x₁)) :
    resumed = some record ∨ record.startedAt = some (env.clock x).1 := by
  unfold opening at opened
  cases resumed with
  | some record' =>
    cases opened
    exact .inl rfl
  | none =>
    cases opened
    exact .inr rfl

/-- The calls of runners from a step on are that for the step itself, if there is one, and
perhaps those from the next one on. -/
theorem engagementsFrom_cons (env : Setting σ) (ctx : PromotionContext) (index : Nat)
    (step : Step) (rest : List Step) (resumed : Option StepRecord) (progress : Progress) (x : σ) :
    ∃ record x₁ later, opening env step resumed x = (record, x₁) ∧
      engagementsFrom env ctx index (step :: rest) resumed progress x =
        placed index (runnerCall? env ctx step record progress.state x₁) ++ later ∧
      (later = [] ∨ ∃ p' x', later = engagementsFrom env ctx (index + 1) rest none p' x') := by
  cases opened : opening env step resumed x with
  | mk record x₁ =>
    rw [engagementsFrom, opened]
    dsimp only
    cases runStep env ctx step record progress.state x₁ with
    | mk outcome x₂ =>
      cases outcome with
      | error c => exact ⟨record, x₁, [], rfl, (List.append_nil _).symm, .inl rfl⟩
      | ok o =>
        refine ⟨record, x₁, _, rfl, rfl, ?_⟩
        split
        · exact .inr ⟨progress.add step o, x₂, rfl⟩
        · exact .inl rfl

/-- A time that was read off the clock. -/
def Read (env : Setting σ) (t : Instant) : Prop := ∃ y, t = (env.clock y).1

/-- The times at which a runner is called, and at which its step began, were read off the
clock, the latter unless the step was attempted before. -/
structure Times (env : Setting σ) (resumed : Option StepRecord) (call : RunnerCall) : Prop where
  called : Read env call.time
  began : (∃ record, resumed = some record ∧ record.startedAt = some call.context.startedAt) ∨
    Read env call.context.startedAt

/-- Runners are called for later steps later, at times that were read off the clock. -/
theorem of_mem_engagementsFrom {index : Nat} {steps : List Step} {resumed : Option StepRecord}
    {progress : Progress} {e : Nat × RunnerCall}
    (he : e ∈ engagementsFrom env ctx index steps resumed progress x) :
    index ≤ e.1 ∧ Times env resumed e.2 := by
  induction steps generalizing index resumed progress x with
  | nil => cases he
  | cons step rest ih =>
    obtain ⟨record, x₁, later, opened, same, more⟩ :=
      engagementsFrom_cons env ctx index step rest resumed progress x
    rw [same] at he
    rcases List.mem_append.mp he with own | he
    · obtain ⟨here, called⟩ := mem_placed.mp own
      obtain ⟨time, began⟩ := times_of_runnerCall? called
      refine ⟨Nat.le_of_eq here.symm, ⟨x₁, time⟩, ?_⟩
      cases started : record.startedAt with
      | none => exact .inr ⟨x₁, by rw [began, started, Option.getD_none]⟩
      | some start =>
        have began : e.2.context.startedAt = start := by rw [began, started, Option.getD_some]
        rcases startedAt_of_opening opened with again | anew
        · exact .inl ⟨record, again, began ▸ started⟩
        · cases started.symm.trans anew
          exact .inr ⟨x, began⟩
    · rcases more with none | ⟨p', x', again⟩
      · rw [none] at he
        cases he
      · rw [again] at he
        obtain ⟨behind, called, began⟩ := ih he
        refine ⟨Nat.le_of_succ_le behind, called, .inr (began.resolve_left ?_)⟩
        rintro ⟨record, fresh, -⟩
        cases fresh

theorem times_of_engagements {steps : List Step} {e : Nat × RunnerCall}
    (he : e ∈ engagements env ctx steps x) : Times env ctx.records[ctx.start]? e.2 := by
  unfold engagements at he
  split at he
  · cases he
  · exact (of_mem_engagementsFrom he).2

/-- The calls of runners when a Promotion is gone on with. -/
def engagementsOf (env : Setting σ) (ctx : PromotionContext) (p : Promotion) (x : σ) :
    List (Nat × RunnerCall) :=
  engagements env (ctx.takingUp p) (Step.ofDeclaredSteps p.spec.steps) x

/-- The runner of the current step is called by the attempt of it, or not at all. -/
theorem engaged_iff (current : p.currentStep? = some step)
    (known : p.currentRecord? = some record) :
    (∃ call, (p.status.currentStep, call) ∈ engagementsOf env ctx p x) ↔
      (runnerCall? env (ctx.takingUp p) step record p.status.state x).isSome = true := by
  obtain ⟨inside, drop⟩ := drop_steps current
  have recorded : p.status.currentStep < p.status.records.length :=
    (List.getElem?_eq_some_iff.mp known).1
  have resumable : ¬ ((Step.ofDeclaredSteps p.spec.steps).length < (ctx.takingUp p).start ∨
      (ctx.takingUp p).records.length < (ctx.takingUp p).start) := by
    rw [Step.length_ofDeclaredSteps]
    show ¬ (_ < p.status.currentStep ∨ p.status.records.length < p.status.currentStep)
    omega
  have same : engagementsOf env ctx p x = engagementsFrom env (ctx.takingUp p)
      p.status.currentStep (step :: (Step.ofDeclaredSteps p.spec.steps).drop
        (p.status.currentStep + 1)) (some record) (resumption p) x := by
    unfold engagementsOf engagements
    rw [if_neg resumable, ← known, ← drop]
    rfl
  obtain ⟨record', x₁, later, opened, split, more⟩ := engagementsFrom_cons env (ctx.takingUp p)
    p.status.currentStep step ((Step.ofDeclaredSteps p.spec.steps).drop (p.status.currentStep + 1))
    (some record) (resumption p) x
  cases opened
  rw [same, split, Option.isSome_iff_exists]
  refine exists_congr fun call => ?_
  rw [List.mem_append, mem_placed]
  constructor
  · rintro (⟨-, called⟩ | he)
    · exact called
    · -- the calls for later steps have other positions
      rcases more with none | ⟨p', x', again⟩
      · rw [none] at he
        cases he
      · rw [again] at he
        exact absurd (of_mem_engagementsFrom he).1 (Nat.not_succ_le_self _)
  · intro called
    exact .inl ⟨rfl, called⟩

/-- Whether a runner of a step that is to run is called depends on the time alone. -/
theorem isSome_runnerCall?_iff {runner : Runner σ} {state : SharedState}
    (goes : Step.evaluateGuard step.guard = .ok true)
    (known : env.registry.get? step.kind = some runner)
    (started : record.startedAt = some start) :
    (runnerCall? env ctx step record state x).isSome = true ↔
      ∀ limit, step.timeout runner.defaultTimeout = some limit →
        timedOut (env.clock x).1 start limit = false := by
  unfold runnerCall?
  generalize env.clock x = read
  obtain ⟨now, x₁⟩ := read
  dsimp only
  rw [started, Option.getD_some]
  constructor
  · intro called limit allowed
    by_contra late
    rw [prepare_late goes known allowed (Bool.not_eq_false _ ▸ late)] at called
    cases called
  · intro inTime
    rw [prepare_ready goes known inTime]
    rfl

/-- The engine ends the current step because its time is up at `t`, and does not call its
runner. -/
structure TimesOut (env : Setting σ) (ctx : PromotionContext) (p : Promotion) (step : Step)
    (t : Instant) (x : σ) : Prop where
  uncalled : ∀ call, (p.status.currentStep, call) ∉ engagementsOf env ctx p x
  /-- The time at which the limit is looked at is the first that is read. -/
  read : (env.clock x).1 = t
  /-- The end of the step is noted with the next one. -/
  ended : ∃ record start limit, record.startedAt = some start ∧
    step.timeout (env.registry.defaultTimeout step.kind) = some limit ∧
    timedOut t start limit = true ∧
    (resume env ctx p step x).1 = .ok (halted step record .errored
      s!"step timed out after {limit.seconds}s" (env.clock (env.clock x).2).1) ∧
    ∀ r, (promote env (ctx.takingUp p) (Step.ofDeclaredSteps p.spec.steps) x).1 = .result r →
      r.records[p.status.currentStep]? = some
        { record with
          status := .errored
          finishedAt := some (env.clock (env.clock x).2).1
          message := some s!"step timed out after {limit.seconds}s" }

/-- What an attempt leaves behind that ends badly is kept, whatever comes of the next steps. -/
theorem recorded_of_halted (current : p.currentStep? = some step)
    (inside : p.status.currentStep ≤ p.status.records.length) {status : StepStatus}
    {message : String} {t : Instant}
    (ended : (resume env ctx p step x).1 = .ok (halted step record status message t))
    {r : EngineResult}
    (answer : (promote env (ctx.takingUp p) (Step.ofDeclaredSteps p.spec.steps) x).1 = .result r) :
    r.records[p.status.currentStep]? = some (halted step record status message t).record := by
  have length : (resumption p).records.length = p.status.currentStep := List.length_take_of_le inside
  rw [promote_takingUp current inside] at answer
  generalize resume env ctx p step x = attempted at ended answer
  obtain ⟨outcome, x'⟩ := attempted
  cases ended
  unfold goOn at answer
  dsimp only at answer
  split at answer
  · have passes := passes_advance env (ctx.takingUp p) (p.status.currentStep + 1)
      ((Step.ofDeclaredSteps p.spec.steps).drop (p.status.currentStep + 1)) none
      ((resumption p).add step (halted step record status message t)) x'
    rw [answer] at passes
    exact getElem?_of_prefix_add length passes.prefix_records
  · rename_i pause
    exact absurd pause (Wait.halted_ne_pause _ _ _ _)
  · cases answer
    exact getElem?_result_add length

/-- A step whose time is up is ended. -/
theorem timesOut_of_late {runner : Runner σ} (current : p.currentStep? = some step)
    (recorded : p.currentRecord? = some record) (started : record.startedAt = some start)
    (goes : Step.evaluateGuard step.guard = .ok true)
    (known : env.registry.get? step.kind = some runner)
    (allowed : step.timeout runner.defaultTimeout = some limit)
    (late : timedOut (env.clock x).1 start limit = true) :
    TimesOut env ctx p step (env.clock x).1 x := by
  have inside : p.status.currentStep ≤ p.status.records.length :=
    Nat.le_of_lt (List.getElem?_eq_some_iff.mp recorded).1
  have ended : (resume env ctx p step x).1 = .ok (halted step (record.begun start) .errored
      s!"step timed out after {limit.seconds}s" (env.clock (env.clock x).2).1) := by
    unfold resume attempt
    rw [recorded]
    exact runStep_late goes known started allowed late
  have began : (record.begun start).startedAt = some start := by
    rw [StepRecord.begun, started]
    rfl
  refine ⟨fun call engaged => ?_, rfl, _, start, limit, began,
    Registry.defaultTimeout_of_known known ▸ allowed, late, ended, fun r answer =>
    recorded_of_halted current inside ended answer⟩
  have called := (engaged_iff current recorded).mp ⟨call, engaged⟩
  have inTime := (isSome_runnerCall?_iff goes known started).mp called limit allowed
  rw [late] at inTime
  cases inTime

/-- What the engine makes of a Promotion at some time, and when it is to be looked at again
from that time on. -/
structure Agrees (env : Setting σ) (ctx : PromotionContext) (p : Promotion) (step : Step)
    (interval : Span) (t : Instant) (x : σ) : Prop where
  timesOut_iff : TimesOut env ctx p step t x ↔
    p.nextDelay env.registry.defaultTimeout interval t = some .zero
  called_iff : (∃ call, (p.status.currentStep, call) ∈ engagementsOf env ctx p x) ↔
    p.nextDelay env.registry.defaultTimeout interval t ≠ some .zero
  /-- No time is read off the clock before this one, and none in a leap second. -/
  patient : (∀ now, Read env now → now.Regular ∧ t.stamp ≤ now.stamp) → ∀ r,
    (promote env (ctx.takingUp p) (Step.ofDeclaredSteps p.spec.steps) x).1 = .result r →
      r.phase = .running →
        (p.withResult r).nextDelay env.registry.defaultTimeout interval t ≠ some .zero

/-- A Promotion that is left running is not overdue. -/
theorem patient_of_running {interval : Span} {t : Instant} {r : EngineResult}
    (positive : interval ≠ .zero) (present : t.Regular)
    (regular : ∀ start, p.begunAt? = some start → start.Regular)
    (clock : ∀ now, Read env now → now.Regular ∧ t.stamp ≤ now.stamp)
    (answer : (promote env (ctx.takingUp p) (Step.ofDeclaredSteps p.spec.steps) x).1 = .result r)
    (running : r.phase = .running) :
    (p.withResult r).nextDelay env.registry.defaultTimeout interval t ≠ some .zero := by
  intro atOnce
  obtain ⟨length, passes⟩ := passes_of_result answer
  -- the step at which the call has stopped was attempted by this call
  obtain ⟨call, last, engaged, found, -⟩ := passes.paused length running
  obtain ⟨step, record, state, o, here, -, tried, left⟩ := passes.tried rfl length engaged
  obtain ⟨called, began⟩ := times_of_engagements engaged
  have regular' : call.context.startedAt.Regular := by
    rcases began with ⟨record, again, started⟩ | read
    · exact regular _ (Option.bind_eq_some_iff.mpr ⟨record, again, started⟩)
    · exact (clock _ read).1
  have seen : (p.withResult r).begunAt? = some call.context.startedAt := by
    show r.records[r.currentStep]?.bind StepRecord.startedAt = _
    rw [left, Option.bind_some, tried.startedAt]
  obtain ⟨start, begun, limit, allowed, hurried, late⟩ :=
    Promotion.overdue_of_nextDelay positive present
      (fun _ begun => Option.some.inj (seen.symm.trans begun) ▸ regular') atOnce
  cases seen.symm.trans begun
  have current : (p.withResult r).currentStep? = some step := by
    have seen := Step.getElem?_ofDeclaredFrom 0 p.spec.steps r.currentStep
    rw [Nat.zero_add] at seen
    exact seen.symm.trans here
  obtain ⟨runner, known, inTime⟩ := tried.serves.inTime
  have timeout : step.timeout runner.defaultTimeout = some limit := by
    rw [← Registry.defaultTimeout_of_known known]
    exact (Promotion.timeout_eq_some_iff current).mpr ⟨allowed, hurried⟩
  obtain ⟨regular_call, later⟩ := clock _ called
  have up := (timedOut_iff hurried regular_call regular').mpr (Int.le_trans late later)
  rw [inTime limit timeout] at up
  cases up

/-- If the sums of times have dates, away from leap seconds, the engine ends a step because its
time is up exactly where the next look is to be at once. -/
theorem agrees_of_ongoing {interval : Span} {t : Instant} (ctx : PromotionContext)
    (ongoing : p.Ongoing env step start) (regular : start.Regular) (present : t.Regular)
    (dated : p.Dated env.registry.defaultTimeout interval start t) (positive : interval ≠ .zero)
    (clock : (env.clock x).1 = t) : Agrees env ctx p step interval t x := by
  obtain ⟨current, begun, goes, registered⟩ := ongoing
  obtain ⟨record, recorded, started⟩ := Option.bind_eq_some_iff.mp begun
  obtain ⟨runner, known⟩ := Option.isSome_iff_exists.mp registered
  have atOnce_iff := Promotion.nextDelay_eq_zero_iff begun regular present dated positive
  have timeout_iff (limit : Span) : step.timeout runner.defaultTimeout = some limit ↔
      p.allowance? env.registry.defaultTimeout = some limit ∧ limit ≠ .zero := by
    rw [← Registry.defaultTimeout_of_known known]
    exact Promotion.timeout_eq_some_iff current
  have called_iff : (∃ call, (p.status.currentStep, call) ∈ engagementsOf env ctx p x) ↔
      ¬ p.Overdue env.registry.defaultTimeout start t := by
    rw [engaged_iff current recorded, isSome_runnerCall?_iff goes known started, clock]
    constructor
    · rintro inTime ⟨limit, allowed, hurried, late⟩
      have up := inTime limit ((timeout_iff limit).mpr ⟨allowed, hurried⟩)
      rw [(timedOut_iff hurried present regular).mpr late] at up
      cases up
    · intro timely limit allowed
      obtain ⟨allowed, hurried⟩ := (timeout_iff limit).mp allowed
      by_contra up
      exact timely ⟨limit, allowed, hurried, (timedOut_iff hurried present regular).mp (Bool.not_eq_false _ ▸ up)⟩
  refine ⟨⟨fun out => ?_, fun atOnce => ?_⟩, ?_, fun clock r answer running =>
    patient_of_running positive present
      (fun _ begun' => Option.some.inj (begun.symm.trans begun') ▸ regular) clock answer running⟩
  · refine atOnce_iff.mpr (not_not.mp fun timely => ?_)
    obtain ⟨call, called⟩ := called_iff.mpr timely
    exact out.uncalled call called
  · obtain ⟨limit, allowed, hurried, late⟩ := atOnce_iff.mp atOnce
    subst clock
    exact timesOut_of_late current recorded started goes known
      ((timeout_iff limit).mpr ⟨allowed, hurried⟩) ((timedOut_iff hurried present regular).mpr late)
  · rw [called_iff]
    exact not_congr atOnce_iff.symm

/-- A look at the very end of the 200 seconds is one at once, and the last. -/
theorem agrees_of_halfway :
    let env := Wait.clockwork
    let p := Promotion.halfway
    let interval := Span.ofSeconds 300
    let start : Instant := ⟨0, 0⟩
    let t : Instant := ⟨200, 0⟩
    ∃ step, p.Ongoing env step start ∧ start.Regular ∧ t.Regular ∧
      p.Dated env.registry.defaultTimeout interval start t ∧ interval ≠ .zero ∧
      (env.clock t).1 = t ∧ p.nextDelay env.registry.defaultTimeout interval t = some .zero ∧
      Agrees env default p step interval t t := by
  have ongoing : Promotion.halfway.Ongoing Wait.clockwork
      (.ofDeclared 0 (Promotion.limited 200)) ⟨0, 0⟩ := ⟨rfl, rfl, rfl, by decide +kernel⟩
  have dated : Promotion.halfway.Dated Wait.clockwork.registry.defaultTimeout (.ofSeconds 300)
      ⟨0, 0⟩ ⟨200, 0⟩ := by
    refine ⟨by decide +kernel, by decide +kernel, by decide +kernel, fun limit allowed _ => ?_⟩
    cases show some (.ofSeconds 200) = some limit from allowed
    decide +kernel
  have positive : Span.ofSeconds 300 ≠ .zero := by decide
  have regular : (⟨0, 0⟩ : Instant).Regular := by decide
  have present : (⟨200, 0⟩ : Instant).Regular := by decide
  exact ⟨_, ongoing, regular, present, dated, positive, rfl, by decide +kernel,
    agrees_of_ongoing default ongoing regular present dated positive rfl⟩

/-- A step that waits for a minute and may take ten seconds. -/
def impatient : DeclaredStep :=
  { Promotion.limited 10 with config := some (.record [("duration", .nat 60)]) }

/-- It started with the leap second at the end of 2016. -/
def sinceNewYear : Promotion := .begunWith impatient ⟨1483228799, 1000000000⟩

/-- Ten and a half seconds later by the sum, and nine and a half by the difference. -/
def afterNewYear : Instant := ⟨1483228809, 500000000⟩

/-- The step is overdue to the scheduler, and not to the engine, which leaves it running. Where
the time itself is in a leap second, it can be the other way round. -/
theorem disagrees_of_newYear :
    let env := Wait.clockwork
    let step := Step.ofDeclared 0 impatient
    let interval := Span.ofSeconds 300
    (sinceNewYear.Ongoing env step ⟨1483228799, 1000000000⟩ ∧
      sinceNewYear.Dated env.registry.defaultTimeout interval ⟨1483228799, 1000000000⟩
        afterNewYear ∧
      interval ≠ .zero ∧
      sinceNewYear.nextDelay env.registry.defaultTimeout interval afterNewYear = some .zero ∧
      ¬ TimesOut env default sinceNewYear step afterNewYear afterNewYear ∧
      ∃ r, (promote env (PromotionContext.takingUp default sinceNewYear)
          (Step.ofDeclaredSteps sinceNewYear.spec.steps) afterNewYear).1 = .result r ∧
        r.phase = .running ∧ (sinceNewYear.withResult r).nextDelay env.registry.defaultTimeout
          interval afterNewYear = some .zero) ∧
    let p := Promotion.begunWith impatient ⟨50, 200000000⟩
    let t : Instant := ⟨59, 1500000000⟩
    p.nextDelay env.registry.defaultTimeout interval t = some ⟨700000000⟩ ∧
      TimesOut env default p step t t := by
  have ongoing : sinceNewYear.Ongoing Wait.clockwork (.ofDeclared 0 impatient)
      ⟨1483228799, 1000000000⟩ := ⟨rfl, rfl, rfl, by decide +kernel⟩
  have dated : sinceNewYear.Dated Wait.clockwork.registry.defaultTimeout (.ofSeconds 300)
      ⟨1483228799, 1000000000⟩ afterNewYear := by
    refine ⟨by decide +kernel, by decide +kernel, by decide +kernel, fun limit allowed _ => ?_⟩
    cases show some (.ofSeconds 10) = some limit from allowed
    decide +kernel
  obtain ⟨call, called⟩ : ∃ call, (0, call) ∈
      engagementsOf Wait.clockwork default sinceNewYear afterNewYear :=
    (engaged_iff ongoing.current rfl).mpr (by decide +kernel)
  obtain ⟨runner, known⟩ := Option.isSome_iff_exists.mp ongoing.known
  have allowed : (Step.ofDeclared 0 impatient).timeout runner.defaultTimeout =
      some (.ofSeconds 10) := rfl
  exact ⟨⟨ongoing, dated, by decide, by decide +kernel, fun out => out.uncalled call called,
    _, rfl, rfl, by decide +kernel⟩, by decide +kernel,
    timesOut_of_late rfl rfl rfl rfl known allowed (by decide +kernel)⟩

end Sequential

end Drayage
