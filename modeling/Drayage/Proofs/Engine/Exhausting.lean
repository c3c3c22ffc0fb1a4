import Drayage.Proofs.Engine.Retrying

/-!
# How often a step is attempted

The errors of a step are counted in its record, from one call of the engine to the next. There
are never more of them than the step may have, and fewer as long as it is running, so that one
more can always be counted. A step that reports nothing but errors that may pass is attempted
until it has had as many as it may, unless its time is up before: this is looked at before its
runner is called, and the step then ends without another attempt.
-/

namespace Drayage.Sequential

variable {σ : Type}

/-- The errors that a record counts are as many as its step may have at most. -/
structure Within (step : Step) (record : StepRecord) : Prop where
  most : record.errorCount.toNat ≤ step.threshold
  fewer : record.status = .running → record.errorCount.toNat < step.threshold

def AllWithin (steps : List Step) (records : List StepRecord) : Prop :=
  ∀ (i : Nat) (record : StepRecord), records[i]? = some record →
    ∃ step, steps[i]? = some step ∧ Within step record

/-- The step may have one error more than its runner is told of. -/
structure HasRoom (step : Step) (call : RunnerCall) : Prop where
  fewer : call.context.errors.toNat < step.threshold
  /-- It can be counted in 32 bits. -/
  fits : (call.context.errors + 1).toNat = call.context.errors.toNat + 1

/-- The time of the step was up when it was to be attempted again, in the world `x`. The time of
its end is the one that was read next. -/
def TimedOut (env : Setting σ) (step : Step) (record : StepRecord) : Prop :=
  ∃ runner limit start x, env.registry.get? step.kind = some runner ∧
    step.timeout runner.defaultTimeout = some limit ∧
    timedOut (env.clock x).1 start limit = true ∧ record.startedAt = some start ∧
    record.finishedAt = some (env.clock (env.clock x).2).1 ∧
    record.message = some s!"step timed out after {limit.seconds}s"

/-- The step has errored, and the Promotion with it unless the step may fail. -/
structure Errs (step : Step) (r : EngineResult) (record : StepRecord) : Prop where
  status : record.status = .errored
  finished : record.finishedAt.isSome = true
  phase : step.continueOnError = false → r.phase = .errored

/-- What has become of the step at `i` after these attempts, if all of them were errors that may
pass. Those of the last call are `now`, and `r` is its result. -/
inductive Fares (env : Setting σ) (step : Step) (i : Nat) (as now : List Attempt)
    (r : EngineResult) (record : StepRecord) : Prop where
  /-- The Promotion waits to attempt it again. -/
  | again (attempted : now ≠ []) (fewer : as.length < step.threshold)
      (status : record.status = .running) (phase : r.phase = .running)
      (current : r.currentStep = i) : Fares env step i as now r record
  | exhausted (all : as.length = step.threshold) (errs : Errs step r record) :
      Fares env step i as now r record
  | late (unattempted : now = []) (fewer : as.length < step.threshold)
      (timedOut : TimedOut env step record) (errs : Errs step r record) :
      Fares env step i as now r record

/-- The record of the step at `i` counts all of its attempts, those before the last call and those
in it, and tells what has become of it. -/
def Accounts (env : Setting σ) (step : Step) (i : Nat) (before now : List Attempt)
    (r : EngineResult) : Prop :=
  ∃ record, r.records[i]? = some record ∧ record.errorCount.toNat = (before ++ now).length ∧
    Fares env step i (before ++ now) now r record

/-- The errors of the steps of a Promotion that was begun with `ctx`, has made the calls `es` of
runners since, and goes on with one more call of the engine. -/
structure Exhausts (env : Setting σ) (steps : List Step) (ctx : PromotionContext)
    (es : List (Nat × RunnerCall)) (c : PromotionContext) (x : σ) : Prop where
  noted : IsNoted env c steps x (engagements env c steps x)
  /-- Begun with its first step, it can always go on. -/
  answered : ctx.start = 0 →
    (∀ e ∈ engagements env c steps x, ∀ crash, e.2.attempt ≠ .crashed crash) →
    ∃ r, (promote env c steps x).1 = .result r
  room : ∀ e ∈ es ++ engagements env c steps x, ∃ step, steps[e.1]? = some step ∧ HasRoom step e.2
  within : ∀ r, (promote env c steps x).1 = .result r → AllWithin steps r.records
  accounts : ∀ r, (promote env c steps x).1 = .result r → ∀ i step, steps[i]? = some step →
    let before := attemptsAt i es
    let now := attemptsAt i (engagements env c steps x)
    before ++ now ≠ [] → (∀ a ∈ before ++ now, a.isTransient = true) →
    Accounts env step i before now r

variable {env : Setting σ} {ctx c : PromotionContext} {steps rest : List Step} {step : Step}
  {record : StepRecord} {state : SharedState} {resumed : Option StepRecord} {p : Progress}
  {index i : Nat} {es : List (Nat × RunnerCall)} {call : RunnerCall} {a : EngineAnswer}
  {r r' : EngineResult} {o : StepOutcome} {as now : List Attempt} {x : σ}

section Attempts

/-- An attempt counts one error at most, and the step goes on only if there may be more. -/
theorem Tried.within {call : Option RunnerCall}
    (tried : Tried env ctx step record state call (.ok o))
    (fewer : record.errorCount.toNat < step.threshold) : Within step o.record := by
  have kept {o : StepOutcome} (same : o.record.errorCount = record.errorCount) :
      Within step o.record := ⟨same ▸ Nat.le_of_lt fewer, fun _ => same ▸ fewer⟩
  cases tried with
  | settled settles => cases settles <;> exact kept rfl
  | concluded makes ends concludes =>
    cases concludes with
    | completed | waiting | ended => exact kept rfl
    | retrying e temporary more => exact ⟨Nat.le_of_lt more, fun _ => more⟩
    | errored e now final =>
      exact ⟨Nat.le_trans (Nat.le_of_eq (Step.toNat_count_succ fewer)) fewer,
        fun running => nomatch running⟩

theorem Tried.context_errors {outcome : Except Crash StepOutcome}
    (tried : Tried env ctx step record state (some call) outcome) :
    call.context.errors = record.errorCount := by
  cases tried with
  | concluded makes ends concludes => rw [makes.context, stepContext, StepRecord.begun]
  | crashed makes ends => rw [makes.context, stepContext, StepRecord.begun]

theorem Tried.hasRoom {outcome : Except Crash StepOutcome}
    (tried : Tried env ctx step record state (some call) outcome)
    (fewer : record.errorCount.toNat < step.threshold) : HasRoom step call := by
  rw [← tried.context_errors] at fewer
  exact ⟨fewer, Step.toNat_count_succ fewer⟩

/-- After an error that may pass a step goes on or has errored. -/
theorem Tried.status_of_error (tried : Tried env ctx step record state (some call) (.ok o))
    (error : call.attempt.isTransient = true) :
    o.record.status = .running ∨
      o.record.status = .errored ∧ o.record.finishedAt.isSome = true := by
  cases tried with
  | concluded makes ends concludes =>
    rw [ends] at error
    cases concludes with
    | completed | waiting | ended => cases error
    | retrying e temporary fewer => exact .inl rfl
    | errored e now final => exact .inr ⟨rfl, rfl⟩

/-- A step that is to run is left to its runner, unless its time is up. -/
theorem prepare_cases {registry : Registry σ} {runner : Runner σ}
    (goes : Step.evaluateGuard step.guard = .ok true)
    (known : registry.get? step.kind = some runner) (now start : Instant) :
    prepare registry step now start = .ready runner ∨
      ∃ limit, step.timeout runner.defaultTimeout = some limit ∧
        timedOut now start limit = true ∧
        prepare registry step now start = .halt s!"step timed out after {limit.seconds}s" := by
  rw [prepare_known goes known]
  cases allowed : step.timeout runner.defaultTimeout with
  | none => exact .inl rfl
  | some limit =>
    cases late : timedOut now start limit with
    | false => exact .inl (if_neg (Bool.eq_false_iff.mp late))
    | true => exact .inr ⟨limit, rfl, late, if_pos late⟩

/-- A step with a runner whose runner is not called has no time left. -/
theorem Tried.late (tried : Tried env ctx step record state none (.ok o))
    (serves : Serves env step call) :
    TimedOut env step o.record ∧ o.record.status = .errored ∧
      o.record.errorCount = record.errorCount := by
  obtain ⟨runner, known, -⟩ := serves.inTime
  cases tried with
  | @settled x _ settles =>
    cases settles with
    | @skipped now decided unready =>
      have prepared := prepare_cases serves.guard known now (record.startedAt.getD now)
      simp [unready] at prepared
    | @errored now later message decided ended unready =>
      have prepared := prepare_cases serves.guard known now (record.startedAt.getD now)
      simp only [unready, reduceCtorEq, Preparation.halt.injEq, false_or] at prepared
      obtain ⟨limit, allowed, late, rfl⟩ := prepared
      subst decided ended
      exact ⟨⟨runner, limit, _, x, known, allowed, late, rfl, rfl, rfl⟩, rfl, rfl⟩

theorem TimedOut.finished (h : TimedOut env step record) : record.finishedAt.isSome = true := by
  obtain ⟨runner, limit, start, x, -, -, -, -, finished, -⟩ := h
  rw [finished]
  rfl

end Attempts

section Calls

theorem AllWithin.take {records : List StepRecord} (h : AllWithin steps records) (n : Nat) :
    AllWithin steps (records.take n) := by
  intro i record found
  rw [List.getElem?_take] at found
  split at found
  · exact h i record found
  · cases found

theorem AllWithin.add (h : AllWithin steps p.records) (length : p.records.length = index)
    (here : steps[index]? = some step) (within : Within step o.record) :
    AllWithin steps (p.add step o).records := by
  intro i record found
  have found : (p.records ++ [o.record])[i]? = some record := found
  rw [List.getElem?_append] at found
  split at found
  · exact h i record found
  · rename_i beyond
    obtain ⟨last, rfl⟩ := List.getElem?_eq_some_iff.mp found
    rw [List.length_singleton] at last
    obtain rfl : i = index := by omega
    exact ⟨step, here, by simpa using within⟩

/-- The step at `index`, if there is one, may have an error more than the record counts from
which it is resumed. -/
def Few (steps : List Step) (index : Nat) (resumed : Option StepRecord) : Prop :=
  ∀ step, steps[index]? = some step →
    ((resumed.map StepRecord.errorCount).getD 0).toNat < step.threshold

theorem few_none : Few steps index none := fun step _ => step.threshold_pos

theorem Few.opens (h : Few steps index resumed) (here : steps[index]? = some step)
    (opens : Opens step resumed record) : record.errorCount.toNat < step.threshold :=
  opens.errorCount ▸ h step here

theorem Passes.within (h : Passes env ctx index rest resumed p es (.result r))
    (hrest : steps.drop index = rest) (length : p.records.length = index)
    (few : Few steps index resumed) (last : rest = [] → resumed = none)
    (before : AllWithin steps p.records) : AllWithin steps r.records := by
  generalize ha : EngineAnswer.result r = a at h
  induction h with
  | finish =>
    cases ha
    rw [last rfl]
    simpa [Progress.result] using before
  | crash => cases ha
  | pause opens tried verdict | halt opens tried verdict =>
    cases ha
    obtain ⟨here, -⟩ := getElem?_of_drop hrest
    exact before.add length here (tried.within (few.opens here opens))
  | next opens tried verdict passes ih =>
    obtain ⟨here, later⟩ := getElem?_of_drop hrest
    exact ih later (by simp [Progress.add, length]) few_none (fun _ => rfl)
      (before.add length here (tried.within (few.opens here opens))) ha

theorem Passes.hasRoom (h : Passes env ctx index rest resumed p es a)
    (hrest : steps.drop index = rest) (few : Few steps index resumed) :
    ∀ e ∈ es, ∃ step, steps[e.1]? = some step ∧ HasRoom step e.2 := by
  have own {index : Nat} {step : Step} {rest : List Step} {resumed : Option StepRecord}
      {record : StepRecord} {state : SharedState} {call : Option RunnerCall}
      {outcome : Except Crash StepOutcome} (hrest : steps.drop index = step :: rest)
      (few : Few steps index resumed) (opens : Opens step resumed record)
      (tried : Tried env ctx step record state call outcome) :
      ∀ e ∈ placed index call, ∃ step, steps[e.1]? = some step ∧ HasRoom step e.2 := by
    intro e he
    obtain ⟨rfl, rfl⟩ := mem_placed.mp he
    obtain ⟨here, -⟩ := getElem?_of_drop hrest
    exact ⟨step, here, tried.hasRoom (few.opens here opens)⟩
  induction h with
  | finish => simp
  | crash opens tried | pause opens tried | halt opens tried => exact own hrest few opens tried
  | next opens tried verdict passes ih =>
    intro e he
    rcases List.mem_append.mp he with he | he
    · exact own hrest few opens tried e he
    · exact ih (getElem?_of_drop hrest).2 few_none e he

/-- What a call makes of the step that it starts at. -/
theorem Passes.first (h : Passes env ctx index rest resumed p es (.result r))
    (hrest : steps.drop index = rest) (length : p.records.length = index)
    (here : steps[index]? = some step) :
    ∃ record call o, Opens step resumed record ∧ Tried env ctx step record p.state call (.ok o) ∧
      r.records[index]? = some o.record ∧ ∀ e ∈ placed index call, e ∈ es := by
  generalize ha : EngineAnswer.result r = a at h
  cases h with
  | finish =>
    rw [List.drop_eq_nil_iff] at hrest
    rw [List.getElem?_eq_none hrest] at here
    cases here
  | crash => cases ha
  | pause opens tried verdict | halt opens tried verdict =>
    cases ha
    obtain ⟨here', -⟩ := getElem?_of_drop hrest
    obtain rfl : step = _ := Option.some.inj (here.symm.trans here')
    exact ⟨_, _, _, opens, tried, getElem?_result_add length, fun e he => he⟩
  | next opens tried verdict passes =>
    obtain ⟨here', -⟩ := getElem?_of_drop hrest
    obtain rfl : step = _ := Option.some.inj (here.symm.trans here')
    exact ⟨_, _, _, opens, tried, getElem?_of_prefix_add length (ha ▸ passes).prefix_records,
      fun e he => List.mem_append_left _ he⟩

/-- A call that has the record of a step has completed the step, or stands at it. -/
theorem Walks.completed_or_current (h : Walks steps index r) (behind : index ≤ i)
    (here : steps[i]? = some step) (found : r.records[i]? = some record) :
    Completes step record.status ∨ r.currentStep = i ∧ StandsAt step record r.phase := by
  have inside : i < steps.length := (List.getElem?_eq_some_iff.mp here).1
  rcases Nat.lt_trichotomy i r.currentStep with before | rfl | beyond
  · obtain ⟨step', record', here', found', completes⟩ := h.passed i behind before
    obtain rfl : step = step' := Option.some.inj (here.symm.trans here')
    obtain rfl : record = record' := Option.some.inj (found.symm.trans found')
    exact .inl completes
  · obtain ⟨-, step', record', here', found', stands⟩ := h.stopped inside
    obtain rfl : step = step' := Option.some.inj (here.symm.trans here')
    obtain rfl : record = record' := Option.some.inj (found.symm.trans found')
    exact .inr ⟨rfl, stands⟩
  · obtain ⟨length, -⟩ := h.stopped (Nat.lt_trans beyond inside)
    rw [List.getElem?_eq_none (by omega)] at found
    cases found

theorem Walks.running (h : Walks steps index r) (behind : index ≤ i)
    (here : steps[i]? = some step) (found : r.records[i]? = some record)
    (running : record.status = .running) : r.phase = .running ∧ r.currentStep = i := by
  rcases h.completed_or_current behind here found with completes | ⟨current, stands⟩
  · simp [Completes, running] at completes
  · exact ⟨stands.running_iff.mpr running, current⟩

theorem Walks.errs (h : Walks steps index r) (behind : index ≤ i)
    (here : steps[i]? = some step) (found : r.records[i]? = some record)
    (status : record.status = .errored) (finished : record.finishedAt.isSome = true) :
    Errs step r record := by
  refine ⟨status, finished, ?_⟩
  intro strict
  rcases h.completed_or_current behind here found with completes | ⟨-, stands⟩
  · simp [Completes, status, strict] at completes
  · exact stands.errored_iff.mpr ⟨status, finished, strict⟩

/-- A step that the Promotion has outlived stays as it is. -/
theorem Fares.later (h : Fares env step i as now r record) (running : r.phase = .running)
    (outlived : i < r.currentStep) : Fares env step i as [] r' record := by
  have still (errs : Errs step r record) : Errs step r' record := by
    refine ⟨errs.status, errs.finished, ?_⟩
    intro strict
    have errored := errs.phase strict
    rw [running] at errored
    cases errored
  cases h with
  | again attempted fewer status phase current => exact absurd current (Nat.ne_of_gt outlived)
  | exhausted all errs => exact .exhausted all (still errs)
  | late unattempted fewer timedOut errs => exact .late rfl fewer timedOut (still errs)

end Calls

section Chains

theorem Resumed.few (h : Resumed env steps ctx es c) (blank : ctx.records = []) :
    Few steps c.start c.records[c.start]? := by
  intro step here
  obtain ⟨count, few⟩ := h.awaits here (fun _ => by simp [blank]) (Nat.le_refl _)
  rw [recordAt, if_pos rfl] at count
  rwa [count]

/-- The runners that were called were those of steps up to the one at which the Promotion goes
on. -/
theorem Resumed.engaged (h : Resumed env steps ctx es c) :
    ∀ e ∈ es, e.1 ≤ c.start ∧ ∃ step, steps[e.1]? = some step ∧ Serves env step e.2 := by
  induction h with
  | first => simp
  | next h answer running start records ih =>
    obtain ⟨-, passes⟩ := passes_of_result answer
    obtain ⟨inside, reached⟩ := passes.reached
    rw [start]
    intro e he
    rcases List.mem_append.mp he with he | he
    · obtain ⟨before, serves⟩ := ih e he
      exact ⟨Nat.le_trans before inside, serves⟩
    · exact ⟨reached e he, (passes.engages rfl).serves e he⟩

/-- A Promotion that is resumed goes on with a step that has a record. -/
theorem Resumed.eq_or_inside (h : Resumed env steps ctx es c) :
    c = ctx ∨ c.start < steps.length ∧ c.start < c.records.length := by
  cases h with
  | first => exact .inl rfl
  | next h answer running start records =>
    obtain ⟨length, passes⟩ := passes_of_result answer
    obtain ⟨call, last, he, found, -⟩ := passes.paused length running
    obtain ⟨step, here, -⟩ := (passes.engages rfl).serves _ he
    rw [start, records]
    exact .inr ⟨(List.getElem?_eq_some_iff.mp here).1, (List.getElem?_eq_some_iff.mp found).1⟩

theorem Resumed.last (h : Resumed env steps ctx es c) (blank : ctx.records = []) :
    steps.drop c.start = [] → c.records[c.start]? = none := by
  intro whole
  rcases h.eq_or_inside with rfl | ⟨inside, -⟩
  · simp [blank]
  · exact absurd (List.drop_eq_nil_iff.mp whole) (Nat.not_le.mpr inside)

theorem Resumed.answered (h : Resumed env steps ctx es c) (begins : ctx.start = 0)
    (calm : ∀ e ∈ engagements env c steps x, ∀ crash, e.2.attempt ≠ .crashed crash) :
    ∃ r, (promote env c steps x).1 = .result r := by
  have ready : c.start ≤ steps.length ∧ c.start ≤ c.records.length := by
    rcases h.eq_or_inside with rfl | ⟨inside, recorded⟩
    · simp [begins]
    · exact ⟨Nat.le_of_lt inside, Nat.le_of_lt recorded⟩
  rcases promote_cases env c steps x with ⟨refused, -⟩ | ⟨-, -, passes⟩
  · omega
  cases answer : (promote env c steps x).1 with
  | result r => exact ⟨r, rfl⟩
  | error e => exact absurd answer (passes.not_error e)
  | crashed crash =>
    rw [answer] at passes
    obtain ⟨e, he, ends⟩ := passes.crashed
    exact absurd ends (calm e he crash)

theorem Resumed.walks (h : Resumed env steps ctx es c) (blank : ctx.records = [])
    (answer : (promote env c steps x).1 = .result r) : Walks steps c.start r := by
  rcases promote_cases env c steps x with ⟨-, ⟨e, error⟩, -⟩ | ⟨inside, known, passes⟩
  · rw [answer] at error
    cases error
  · rw [answer] at passes
    exact passes.walks rfl inside (by simp [known]) (h.last blank)

/-- What one more call makes of the records. -/
theorem Resumed.within_result (h : Resumed env steps ctx es c) (blank : ctx.records = [])
    (before : AllWithin steps c.records) (answer : (promote env c steps x).1 = .result r) :
    AllWithin steps r.records := by
  obtain ⟨length, passes⟩ := passes_of_result answer
  exact passes.within rfl length (h.few blank) (h.last blank) (before.take _)

theorem Resumed.within (h : Resumed env steps ctx es c) (blank : ctx.records = []) :
    AllWithin steps c.records := by
  induction h with
  | first => simp [AllWithin, blank]
  | next h answer running start records ih =>
    rw [records]
    exact h.within_result blank ih answer

theorem Resumed.hasRoom_engagements (h : Resumed env steps ctx es c) (blank : ctx.records = [])
    (x : σ) : ∀ e ∈ engagements env c steps x, ∃ step, steps[e.1]? = some step ∧
      HasRoom step e.2 := by
  rcases promote_cases env c steps x with ⟨-, -, none⟩ | ⟨inside, known, passes⟩
  · simp [none]
  · exact passes.hasRoom rfl (h.few blank)

theorem Resumed.hasRoom (h : Resumed env steps ctx es c) (blank : ctx.records = []) :
    ∀ e ∈ es, ∃ step, steps[e.1]? = some step ∧ HasRoom step e.2 := by
  induction h with
  | first => simp
  | next h answer running start records ih =>
    exact List.forall_mem_append.mpr ⟨ih, h.hasRoom_engagements blank _⟩

theorem exists_mem_of_attemptsAt (h : attemptsAt i es ≠ []) : ∃ call, (i, call) ∈ es := by
  obtain ⟨a, ha⟩ := List.exists_mem_of_ne_nil _ h
  obtain ⟨⟨j, call⟩, found, -⟩ := List.mem_map.mp ha
  obtain ⟨he, here⟩ := List.mem_filter.mp found
  exact ⟨call, of_decide_eq_true here ▸ he⟩

/-- A step that is attempted by this call. -/
theorem Resumed.accounts_of_engaged (h : Resumed env steps ctx es c) (blank : ctx.records = [])
    (here : steps[i]? = some step) (answer : (promote env c steps x).1 = .result r)
    (he : (i, call) ∈ engagements env c steps x)
    (all : ∀ a ∈ attemptsAt i es ++ attemptsAt i (engagements env c steps x),
      a.isTransient = true) :
    Accounts env step i (attemptsAt i es) (attemptsAt i (engagements env c steps x)) r := by
  obtain ⟨length, passes⟩ := passes_of_result answer
  have engages : Engages env steps c.start (engagements env c steps x) := passes.engages rfl
  have behind : c.start ≤ i := engages.behind _ he
  rw [attemptsAt_of_mem engages.ordered he] at all ⊢
  have awaits := h.awaits here (fun _ => by simp [blank]) behind
  obtain ⟨step', record, state, o, here', opens, tried, left⟩ := passes.tried rfl length he
  obtain rfl : step = step' := Option.some.inj (here.symm.trans here')
  have error : call.attempt.isTransient = true := all _ (by simp)
  obtain ⟨count, ended_iff, -⟩ := awaits.countedOut opens tried error
  rw [errors_eq_length.mpr all] at count ended_iff
  have walks := h.walks blank answer
  refine ⟨o.record, left, count, ?_⟩
  rcases tried.status_of_error error with running | ⟨errored, finished⟩
  · obtain ⟨phase, current⟩ := walks.running behind here left running
    have few := (awaits.again opens tried running).few
    rw [errors_eq_length.mpr all] at few
    exact .again (List.cons_ne_nil _ _) few running phase current
  · exact .exhausted (ended_iff.mp errored) (walks.errs behind here left errored finished)

/-- A step that was attempted before, and is taken up again without an attempt. -/
theorem Resumed.accounts_of_late (h : Resumed env steps ctx es c) (blank : ctx.records = [])
    (here : steps[c.start]? = some step) (answer : (promote env c steps x).1 = .result r)
    (he : (c.start, call) ∈ es)
    (unengaged : ∀ e ∈ engagements env c steps x, e.1 ≠ c.start)
    (all : ∀ a ∈ attemptsAt c.start es, a.isTransient = true) :
    Accounts env step c.start (attemptsAt c.start es) [] r := by
  obtain ⟨length, passes⟩ := passes_of_result answer
  obtain ⟨count, few⟩ := h.awaits here (fun _ => by simp [blank]) (Nat.le_refl _)
  rw [recordAt, if_pos rfl, errors_eq_length.mpr all] at count
  rw [errors_eq_length.mpr all] at few
  -- the step has a runner that was called before
  obtain ⟨-, step', here', serves⟩ := h.engaged _ he
  obtain rfl : step = step' := Option.some.inj (here.symm.trans here')
  obtain ⟨record, call?, o, opens, tried, left, engaged⟩ := passes.first rfl length here
  obtain rfl : call? = none := by
    cases call? with
    | none => rfl
    | some call' =>
      exact absurd rfl (unengaged (c.start, call') (engaged _ (mem_placed.mpr ⟨rfl, rfl⟩)))
  obtain ⟨timedOut, errored, same⟩ := tried.late serves
  have errs := (h.walks blank answer).errs (Nat.le_refl _) here left errored timedOut.finished
  unfold Accounts
  rw [List.append_nil]
  refine ⟨o.record, left, ?_, .late rfl few timedOut errs⟩
  rw [same, opens.errorCount, count]

/-- A step that the Promotion has outlived. -/
theorem Accounts.later {before : List Attempt} (h : Accounts env step i before now r)
    (running : r.phase = .running) (outlived : i < r.currentStep)
    (same : r'.records[i]? = r.records[i]?) : Accounts env step i (before ++ now) [] r' := by
  obtain ⟨record, found, count, fares⟩ := h
  unfold Accounts
  rw [List.append_nil, same]
  exact ⟨record, found, count, fares.later running outlived⟩

/-- The records of the steps before the one at which the Promotion goes on stay as they are. -/
theorem getElem?_of_result (answer : (promote env c steps x).1 = .result r) (before : i < c.start) :
    r.records[i]? = c.records[i]? := by
  obtain ⟨length, passes⟩ := passes_of_result answer
  obtain ⟨later, hlater⟩ := passes.prefix_records
  have earlier : i < (c.records.take c.start).length := length.symm ▸ before
  rw [← hlater]
  exact (List.getElem?_append_left earlier).trans (List.getElem?_take_of_lt before)

/-- However often a Promotion was resumed, it is known what has become of a step that has only
had errors that may pass. -/
theorem Resumed.accounts (h : Resumed env steps ctx es c) (blank : ctx.records = [])
    (here : steps[i]? = some step) (answer : (promote env c steps x).1 = .result r)
    (tried : attemptsAt i es ++ attemptsAt i (engagements env c steps x) ≠ [])
    (all : ∀ a ∈ attemptsAt i es ++ attemptsAt i (engagements env c steps x),
      a.isTransient = true) :
    Accounts env step i (attemptsAt i es) (attemptsAt i (engagements env c steps x)) r := by
  induction h generalizing x r with
  | first =>
    obtain ⟨call, he⟩ := exists_mem_of_attemptsAt tried
    exact Resumed.first.accounts_of_engaged blank here answer he all
  | @next es c c' x' r' h earlier running start records ih =>
    have chain := h.next earlier running start records
    by_cases engaged : ∃ call, (i, call) ∈ engagements env c' steps x
    · obtain ⟨call, he⟩ := engaged
      exact chain.accounts_of_engaged blank here answer he all
    have unengaged : ∀ e ∈ engagements env c' steps x, e.1 ≠ i := by
      rintro e he rfl
      exact engaged ⟨e.2, he⟩
    rw [attemptsAt_eq_nil unengaged] at tried all ⊢
    rw [List.append_nil] at tried all
    obtain ⟨call, he⟩ := exists_mem_of_attemptsAt tried
    rcases Nat.eq_or_lt_of_le (chain.engaged _ he).1 with rfl | outlived
    · exact chain.accounts_of_late blank here answer he unengaged all
    -- the call before has told of this step already
    · rw [attemptsAt_append] at tried all ⊢
      have same : r.records[i]? = r'.records[i]? := by
        rw [getElem?_of_result answer outlived, records]
      exact (ih earlier tried all).later running (start ▸ outlived) same

end Chains

/-- However often a Promotion is resumed that was begun without records: the errors of a step are
never more than it may have, and fewer while it is running. A step with nothing but errors that
may pass is attempted exactly that often, unless its time is up before. -/
theorem exhausts_of_resumed (h : Resumed env steps ctx es c) (blank : ctx.records = []) (x : σ) :
    Exhausts env steps ctx es c x where
  noted := isNoted_engagements env c steps x
  answered begins calm := h.answered begins calm
  room := List.forall_mem_append.mpr ⟨h.hasRoom blank, h.hasRoom_engagements blank x⟩
  within _ answer := h.within_result blank (h.within blank) answer
  accounts _ answer _ _ here tried all := h.accounts blank here answer tried all

/-- The first attempt of a step that may report two errors. -/
def failedOnce : List (Nat × RunnerCall) :=
  [] ++ engagements (prompting "http") default [flaky] (polling down)

theorem resumed_failedOnce :
    Resumed (prompting "http") [flaky] default failedOnce (polled 1 "down") := by
  have first : (promote (prompting "http") default [flaky] (polling down)).1 =
      .result ⟨.running, some "down", 0, (polled 1 "down").records, ∅, []⟩ := by decide +kernel
  exact Resumed.first.next first rfl rfl rfl

/-- It is attempted twice. -/
theorem exhausts_of_failedOnce :
    Resumed (prompting "http") [flaky] default failedOnce (polled 1 "down") ∧
      (default : PromotionContext).records = [] ∧
      Exhausts (prompting "http") [flaky] default failedOnce (polled 1 "down") (polling down) ∧
      Accounts (prompting "http") flaky 0 [down] [down] failing := by
  have exhausts := exhausts_of_resumed resumed_failedOnce rfl (polling down)
  have answer : (promote (prompting "http") (polled 1 "down") [flaky] (polling down)).1 =
      .result failing := by decide +kernel
  have before : attemptsAt 0 failedOnce = [down] := by decide +kernel
  have now : attemptsAt 0 (engagements (prompting "http") (polled 1 "down") [flaky]
      (polling down)) = [down] := by decide +kernel
  have accounts := exhausts.accounts failing answer 0 flaky rfl
  rw [before, now] at accounts
  exact ⟨resumed_failedOnce, rfl, exhausts, accounts (by decide) (by decide)⟩

/-- A world that is nothing but a time, with a runner that is always down. -/
def outage : Setting Instant where
  registry := Dict.insert ∅ "http" ⟨none, fun _ t => (down, t)⟩
  credentials _ _ _ := .ok none
  clock t := (t, t)

/-- A step that may report two errors and take ten seconds. -/
def hasty : Step := ⟨"http", "ask", none, false, some ⟨some 10, some 2⟩, [], none⟩

/-- Taken up again after twenty seconds, it ends after a single attempt, though its runner only
ever had errors that may pass. -/
theorem late_of_hasty : ∃ es c r record, Resumed outage [hasty] default es c ∧
    (promote outage c [hasty] ⟨20, 0⟩).1 = .result r ∧ r.phase = .errored ∧
    r.records[0]? = some record ∧ record.status = .errored ∧
    attemptsAt 0 (es ++ engagements outage c [hasty] ⟨20, 0⟩) = [down] ∧
    down.isTransient = true ∧ hasty.threshold = 2 := by
  have first : (promote outage default [hasty] ⟨0, 0⟩).1 =
      .result ⟨.running, some "down", 0, (polled 1 "down").records, ∅, []⟩ := by decide +kernel
  have second : (promote outage (polled 1 "down") [hasty] ⟨20, 0⟩).1 =
      .result ⟨.errored, some "step \"ask\" errored: step timed out after 10s", 0,
        [⟨"ask", .errored, some ⟨0, 0⟩, some ⟨20, 0⟩, 1, some "step timed out after 10s"⟩],
        ∅, []⟩ := by decide +kernel
  refine ⟨_, polled 1 "down", _, _, Resumed.first.next first rfl rfl rfl, second, rfl, rfl, rfl,
    ?_, rfl, rfl⟩
  decide +kernel

end Drayage.Sequential
