import Drayage.Proofs.Engine.Scripted

/-!
# Which runners are called

A setting can be made to note every call of a runner without anything else being different.
The calls that are noted are those that an attempt of a step tells: at most one for each
attempt, made after the guard of the step held and while there was time for it. So a call of
the engine can be told as a list of such attempts, each with the position of its step.
-/

namespace Drayage

open Std

/-- A call of a runner, and how it ends. -/
structure RunnerCall where
  kind : String
  /-- The time that was last read before it. -/
  time : Instant
  context : StepContext
  attempt : Attempt

/-- A world with what is noted in it: the time that was last read, and the calls of runners
one after another. -/
structure Noted (σ : Type) where
  world : σ
  time : Instant
  calls : List RunnerCall

/-- A world in which nothing is noted yet. -/
def Noted.blank {σ : Type} (x : σ) : Noted σ := ⟨x, default, []⟩

/-- The record of a step that is attempted. -/
def StepRecord.begun (r : StepRecord) (now : Instant) : StepRecord :=
  { r with status := .running, startedAt := some (r.startedAt.getD now) }

namespace Sequential

variable {σ : Type}

/-- A runner of a kind whose calls are noted. -/
def noting (kind : String) (runner : Runner σ) : Runner (Noted σ) where
  defaultTimeout := runner.defaultTimeout
  run c w :=
    let (attempt, x) := runner.run c w.world
    (attempt, ⟨x, w.time, w.calls ++ [⟨kind, w.time, c, attempt⟩]⟩)

/-- A setting in which the calls of runners are noted. -/
def Setting.noting (env : Setting σ) : Setting (Noted σ) where
  registry := env.registry.mapValues Sequential.noting
  credentials := env.credentials
  clock w :=
    let (now, x) := env.clock w.world
    (now, ⟨x, now, w.calls⟩)

/-- The call of a runner that is made when a step is attempted, if it comes to that. -/
def runnerCall? (env : Setting σ) (ctx : PromotionContext) (step : Step) (record : StepRecord)
    (state : SharedState) (x : σ) : Option RunnerCall :=
  let (now, x) := env.clock x
  let startedAt := record.startedAt.getD now
  match prepare env.registry step now startedAt with
  | .skip | .halt _ => none
  | .ready runner =>
    let c := stepContext env.credentials ctx step (record.begun now) startedAt state
    some ⟨step.kind, now, c, (runner.run c x).1⟩

/-- A call of a runner for the step at `index`, if there is one. -/
def placed (index : Nat) (call : Option RunnerCall) : List (Nat × RunnerCall) :=
  call.toList.map (index, ·)

/-- The calls of runners for the steps from `index` on, with their positions. -/
def engagementsFrom (env : Setting σ) (ctx : PromotionContext) :
    (index : Nat) → List Step → (resumed : Option StepRecord) → Progress → σ →
      List (Nat × RunnerCall)
  | _, [], _, _, _ => []
  | index, step :: rest, resumed, p, x =>
    let (record, x₁) := opening env step resumed x
    let own := placed index (runnerCall? env ctx step record p.state x₁)
    match runStep env ctx step record p.state x₁ with
    | (.error _, _) => own
    | (.ok o, x₂) =>
      own ++ if o.verdict = .next then
        engagementsFrom env ctx (index + 1) rest none (p.add step o) x₂
      else []

/-- The calls of runners that a call of the engine makes, each with the position of the step
that it is made for. -/
def engagements (env : Setting σ) (ctx : PromotionContext) (steps : List Step) (x : σ) :
    List (Nat × RunnerCall) :=
  if steps.length < ctx.start ∨ ctx.records.length < ctx.start then []
  else engagementsFrom env ctx ctx.start (steps.drop ctx.start) ctx.records[ctx.start]?
    ⟨ctx.records.take ctx.start, ctx.state, []⟩ x

/-- In a setting that notes the calls of runners, the call of the engine comes to the same, and
it is these calls that are noted. -/
def IsNoted (env : Setting σ) (ctx : PromotionContext) (steps : List Step) (x : σ)
    (es : List (Nat × RunnerCall)) : Prop :=
  ∃ t, promote env.noting ctx steps (.blank x) =
    ((promote env ctx steps x).1, ⟨(promote env ctx steps x).2, t, es.map Prod.snd⟩)

@[simp] theorem map_snd_placed (index : Nat) (call : Option RunnerCall) :
    (placed index call).map Prod.snd = call.toList := by
  cases call <;> rfl

section Noting

/-- What was decided about a step, with its runner noted. -/
def Preparation.noting (kind : String) : Preparation σ → Preparation (Noted σ)
  | .skip => .skip
  | .halt message => .halt message
  | .ready runner => .ready (Sequential.noting kind runner)

theorem prepare_noting (env : Setting σ) (step : Step) (now startedAt : Instant) :
    prepare env.noting.registry step now startedAt =
      (prepare env.registry step now startedAt).noting step.kind := by
  have found : env.noting.registry.get? step.kind =
      (env.registry.get? step.kind).map (Sequential.noting step.kind) :=
    Dict.get?_mapValues _ _ _
  unfold prepare
  rw [found]
  cases Step.evaluateGuard step.guard with
  | error message => rfl
  | ok goes =>
    cases goes with
    | false => rfl
    | true =>
      cases env.registry.get? step.kind with
      | none => rfl
      | some runner =>
        have default : (Sequential.noting step.kind runner).defaultTimeout =
            runner.defaultTimeout := rfl
        simp only [Option.map_some, default]
        cases step.timeout runner.defaultTimeout with
        | none => rfl
        | some timeout =>
          by_cases late : timedOut now startedAt timeout
          · simp [late, Preparation.noting]
          · simp [late, Preparation.noting]

/-- An attempt is the same in a setting that notes it, and its call is what is noted. -/
theorem runStep_noting (env : Setting σ) (ctx : PromotionContext) (step : Step)
    (record : StepRecord) (state : SharedState) (w : Noted σ) :
    ∃ t, runStep env.noting ctx step record state w =
      ((runStep env ctx step record state w.world).1,
        ⟨(runStep env ctx step record state w.world).2, t,
          w.calls ++ (runnerCall? env ctx step record state w.world).toList⟩) := by
  have look : env.noting.clock w =
      ((env.clock w.world).1, ⟨(env.clock w.world).2, (env.clock w.world).1, w.calls⟩) := rfl
  unfold runStep runnerCall?
  simp only [bind, StateT.bind, look]
  rw [prepare_noting]
  unfold StepRecord.begun
  generalize env.clock w.world = read
  obtain ⟨now, x⟩ := read
  dsimp only
  cases prepare env.registry step now (record.startedAt.getD now) with
  | skip =>
    refine ⟨now, ?_⟩
    simp only [Option.toList_none, List.append_nil]
    rfl
  | halt message =>
    refine ⟨(env.clock x).1, ?_⟩
    simp only [Option.toList_none, List.append_nil]
    rfl
  | ready runner =>
    have credentials : env.noting.credentials = env.credentials := rfl
    simp only [Preparation.noting, noting, credentials, StateT.bind]
    generalize runner.run _ x = ran
    obtain ⟨attempt, x'⟩ := ran
    cases attempt with
    | crashed c => exact ⟨now, rfl⟩
    | reported report => exact ⟨_, rfl⟩
    | failed e => exact ⟨_, rfl⟩

theorem opening_noting (env : Setting σ) (step : Step) (resumed : Option StepRecord)
    (w : Noted σ) :
    ∃ t, opening env.noting step resumed w = ((opening env step resumed w.world).1,
      ⟨(opening env step resumed w.world).2, t, w.calls⟩) := by
  cases resumed with
  | none => exact ⟨_, rfl⟩
  | some record => exact ⟨w.time, rfl⟩

theorem advance_noting (env : Setting σ) (ctx : PromotionContext) (index : Nat)
    (steps : List Step) (resumed : Option StepRecord) (p : Progress) (w : Noted σ) :
    ∃ t, advance env.noting ctx index steps resumed p w =
      ((advance env ctx index steps resumed p w.world).1,
        ⟨(advance env ctx index steps resumed p w.world).2, t,
          w.calls ++ (engagementsFrom env ctx index steps resumed p w.world).map Prod.snd⟩) := by
  induction steps generalizing index resumed p w with
  | nil =>
    refine ⟨w.time, ?_⟩
    rw [engagementsFrom, List.map_nil, List.append_nil]
    rfl
  | cons step rest ih =>
    rw [advance_cons, advance_cons]
    unfold engagementsFrom
    obtain ⟨t₁, opened⟩ := opening_noting env step resumed w
    rw [opened]
    generalize opening env step resumed w.world = start
    obtain ⟨record, x₁⟩ := start
    obtain ⟨t₂, tried⟩ := runStep_noting env ctx step record p.state ⟨x₁, t₁, w.calls⟩
    dsimp only at tried ⊢
    rw [tried]
    generalize runnerCall? env ctx step record p.state x₁ = call
    generalize runStep env ctx step record p.state x₁ = attempt
    obtain ⟨outcome, x₂⟩ := attempt
    cases outcome with
    | error c => exact ⟨t₂, by simp [goOn]⟩
    | ok o =>
      unfold goOn
      dsimp only
      cases verdict : o.verdict with
      | next =>
        obtain ⟨t, later⟩ := ih (index + 1) none (p.add step o) ⟨x₂, t₂, w.calls ++ call.toList⟩
        refine ⟨t, ?_⟩
        rw [later]
        simp
      | pause message => exact ⟨t₂, by simp⟩
      | halt phase message => exact ⟨t₂, by simp⟩

/-- A call of the engine is the same in a setting that notes the calls of runners. -/
theorem promote_noting (env : Setting σ) (ctx : PromotionContext) (steps : List Step)
    (w : Noted σ) :
    ∃ t, promote env.noting ctx steps w = ((promote env ctx steps w.world).1,
      ⟨(promote env ctx steps w.world).2, t,
        w.calls ++ (engagements env ctx steps w.world).map Prod.snd⟩) := by
  unfold promote engagements
  by_cases beyond : steps.length < ctx.start
  · refine ⟨w.time, ?_⟩
    simp only [beyond, true_or, if_true, List.map_nil, List.append_nil]
    rfl
  by_cases missing : ctx.records.length < ctx.start
  · refine ⟨w.time, ?_⟩
    simp only [beyond, missing, or_true, if_true, if_false, List.map_nil, List.append_nil]
    rfl
  simp only [beyond, missing, or_self, if_false]
  exact advance_noting env ctx _ _ _ _ w

theorem isNoted_engagements (env : Setting σ) (ctx : PromotionContext) (steps : List Step)
    (x : σ) : IsNoted env ctx steps x (engagements env ctx steps x) :=
  promote_noting env ctx steps (.blank x)

end Noting

/-- A runner is called for a step that is to run and has time left. -/
structure Serves (env : Setting σ) (step : Step) (call : RunnerCall) : Prop where
  kind : call.kind = step.kind
  name : call.context.name = step.name
  guard : Step.evaluateGuard step.guard = .ok true
  inTime : ∃ runner, env.registry.get? step.kind = some runner ∧
    ∀ timeout, step.timeout runner.defaultTimeout = some timeout →
      timedOut call.time call.context.startedAt timeout = false

/-- A call that is made when a step with this record is attempted. -/
structure Makes (env : Setting σ) (ctx : PromotionContext) (step : Step) (record : StepRecord)
    (state : SharedState) (call : RunnerCall) : Prop where
  serves : Serves env step call
  context : call.context = stepContext env.credentials ctx step (record.begun call.time)
    (record.startedAt.getD call.time) state

/-- What a step leaves behind for which no runner is called, if the clock is looked at in the
world `x` to decide this. It is looked at once more when the step ends badly. -/
inductive Settles (env : Setting σ) (step : Step) (record : StepRecord) (x : σ) :
    StepOutcome → Prop where
  | skipped {now : Instant} (decided : now = (env.clock x).1)
      (unready : prepare env.registry step now (record.startedAt.getD now) = .skip) :
      Settles env step record x (skipped (record.begun now) now)
  | errored {now later : Instant} {message : String} (decided : now = (env.clock x).1)
      (ended : later = (env.clock (env.clock x).2).1)
      (unready : prepare env.registry step now (record.startedAt.getD now) = .halt message) :
      Settles env step record x (halted step (record.begun now) .errored message later)

/-- What a step leaves behind when its runner has ended like this. -/
inductive Concludes (step : Step) (record : StepRecord) :
    Except StepError StepReport → StepOutcome → Prop where
  | completed (report : StepReport) (now : Instant)
      (status : report.status = .succeeded ∨ report.status = .skipped) :
      Concludes step record (.ok report)
        ⟨{ record with status := report.status, finishedAt := some now,
                       message := report.message }, .next, report.output, report.healthCheck⟩
  | waiting (report : StepReport) (status : report.status.isTerminal = false) :
      Concludes step record (.ok report) (paused record report.message)
  | ended (report : StepReport) (message : String) (now : Instant)
      (status : report.status = .failed ∨ report.status = .errored ∨ report.status = .aborted) :
      Concludes step record (.ok report) (halted step record report.status message now)
  | retrying (e : StepError) (temporary : e.isTerminal = false)
      (fewer : (record.errorCount + 1).toNat < step.threshold) :
      Concludes step record (.error e)
        (paused { record with errorCount := record.errorCount + 1 } (some e.message))
  | errored (e : StepError) (now : Instant)
      (final : e.isTerminal = true ∨ step.threshold ≤ (record.errorCount + 1).toNat) :
      Concludes step record (.error e)
        (halted step { record with errorCount := record.errorCount + 1 } .errored e.message now)

/-- What an attempt of a step comes to, and the call of a runner that it takes. -/
inductive Tried (env : Setting σ) (ctx : PromotionContext) (step : Step) (record : StepRecord)
    (state : SharedState) : Option RunnerCall → Except Crash StepOutcome → Prop where
  | settled {x : σ} {o : StepOutcome} (settles : Settles env step record x o) :
      Tried env ctx step record state none (.ok o)
  | concluded {call : RunnerCall} {outcome : Except StepError StepReport} {o : StepOutcome}
      (makes : Makes env ctx step record state call) (ends : call.attempt = .of outcome)
      (concludes : Concludes step (record.begun call.time) outcome o) :
      Tried env ctx step record state (some call) (.ok o)
  | crashed {call : RunnerCall} {c : Crash} (makes : Makes env ctx step record state call)
      (ends : call.attempt = .crashed c) : Tried env ctx step record state (some call) (.error c)

/-- The record from which an attempt starts: that of the attempt before, or a new one. -/
inductive Opens (step : Step) : Option StepRecord → StepRecord → Prop where
  | again (record : StepRecord) : Opens step (some record) record
  | anew (now : Instant) : Opens step none (.started step.name now)

/-- What a call of the engine comes to from the step at `index` on, and the calls of runners
that it takes, if the progress before it is `p`. -/
inductive Passes (env : Setting σ) (ctx : PromotionContext) :
    (index : Nat) → List Step → (resumed : Option StepRecord) → (p : Progress) →
      List (Nat × RunnerCall) → EngineAnswer → Prop where
  | finish {index : Nat} {resumed : Option StepRecord} {p : Progress} :
      Passes env ctx index [] resumed p []
        (.result ({ p with records := p.records ++ resumed.toList }.result .succeeded none index))
  | crash {index : Nat} {step : Step} {rest : List Step} {resumed : Option StepRecord}
      {p : Progress} {record : StepRecord} {call : Option RunnerCall} {c : Crash}
      (opens : Opens step resumed record)
      (tried : Tried env ctx step record p.state call (.error c)) :
      Passes env ctx index (step :: rest) resumed p (placed index call) (.crashed c)
  | pause {index : Nat} {step : Step} {rest : List Step} {resumed : Option StepRecord}
      {p : Progress} {record : StepRecord} {call : Option RunnerCall} {o : StepOutcome}
      {message : Option String} (opens : Opens step resumed record)
      (tried : Tried env ctx step record p.state call (.ok o))
      (verdict : o.verdict = .pause message) :
      Passes env ctx index (step :: rest) resumed p (placed index call)
        (.result ((p.add step o).result .running message index))
  | halt {index : Nat} {step : Step} {rest : List Step} {resumed : Option StepRecord}
      {p : Progress} {record : StepRecord} {call : Option RunnerCall} {o : StepOutcome}
      {phase : Phase} {message : String} (opens : Opens step resumed record)
      (tried : Tried env ctx step record p.state call (.ok o))
      (verdict : o.verdict = .halt phase message) :
      Passes env ctx index (step :: rest) resumed p (placed index call)
        (.result ((p.add step o).result phase (some message) index))
  | next {index : Nat} {step : Step} {rest : List Step} {resumed : Option StepRecord}
      {p : Progress} {record : StepRecord} {call : Option RunnerCall} {o : StepOutcome}
      {later : List (Nat × RunnerCall)} {a : EngineAnswer} (opens : Opens step resumed record)
      (tried : Tried env ctx step record p.state call (.ok o)) (verdict : o.verdict = .next)
      (passes : Passes env ctx (index + 1) rest none (p.add step o) later a) :
      Passes env ctx index (step :: rest) resumed p (placed index call ++ later) a

theorem ready_of_prepare {registry : Registry σ} {step : Step} {now startedAt : Instant}
    {runner : Runner σ} (h : prepare registry step now startedAt = .ready runner) :
    Step.evaluateGuard step.guard = .ok true ∧ registry.get? step.kind = some runner ∧
      ∀ timeout, step.timeout runner.defaultTimeout = some timeout →
        timedOut now startedAt timeout = false := by
  unfold prepare at h
  split at h
  · cases h
  · cases h
  · rename_i goes
    split at h
    · cases h
    · rename_i runner' known
      split at h
      · rename_i limitless
        cases h
        refine ⟨goes, known, ?_⟩
        intro timeout limit
        rw [limitless] at limit
        cases limit
      · rename_i timeout limit
        split at h
        · cases h
        · rename_i inTime
          cases h
          refine ⟨goes, known, ?_⟩
          intro timeout' limit'
          rw [limit] at limit'
          cases limit'
          simpa using inTime

theorem concludes_concluded (step : Step) (record : StepRecord) (now : Instant)
    (outcome : Except StepError StepReport) :
    Concludes step record outcome (concluded step record now outcome) := by
  cases outcome with
  | ok report =>
    obtain ⟨status, output, message, check⟩ := report
    cases status with
    | succeeded => exact .completed _ now (.inl rfl)
    | skipped => exact .completed _ now (.inr rfl)
    | pending | running => exact .waiting ⟨_, output, message, check⟩ rfl
    | failed => exact .ended _ _ now (.inl rfl)
    | errored => exact .ended _ _ now (.inr (.inl rfl))
    | aborted => exact .ended _ _ now (.inr (.inr rfl))
  | error e =>
    unfold concluded
    dsimp only
    by_cases final :
        (e.isTerminal || decide (step.threshold ≤ (record.errorCount + 1).toNat)) = true
    · rw [if_pos final]
      exact .errored e now (by simpa using final)
    · rw [if_neg final]
      rw [Bool.not_eq_true, Bool.or_eq_false_iff, decide_eq_false_iff_not, Nat.not_le] at final
      exact .retrying e final.1 final.2

theorem tried_runStep (env : Setting σ) (ctx : PromotionContext) (step : Step)
    (record : StepRecord) (state : SharedState) (x : σ) :
    Tried env ctx step record state (runnerCall? env ctx step record state x)
      (runStep env ctx step record state x).1 := by
  unfold runStep runnerCall?
  dsimp only [bind, StateT.bind]
  generalize looked : env.clock x = read
  obtain ⟨now, x₁⟩ := read
  have decided : now = (env.clock x).1 := (congrArg Prod.fst looked).symm
  have ended : (env.clock x₁).1 = (env.clock (env.clock x).2).1 := by rw [looked]
  have begun : { record with status := .running, startedAt := some (record.startedAt.getD now) } =
      record.begun now := rfl
  dsimp only
  rw [begun]
  cases prepared : prepare env.registry step now (record.startedAt.getD now) with
  | skip => exact .settled (.skipped decided prepared)
  | halt message => exact .settled (.errored decided ended prepared)
  | ready runner =>
    obtain ⟨goes, known, inTime⟩ := ready_of_prepare prepared
    dsimp only [StateT.bind]
    generalize hc : stepContext env.credentials ctx step _ _ state = c
    generalize ran : runner.run c x₁ = ending
    obtain ⟨attempt, x₂⟩ := ending
    have makes : Makes env ctx step record state ⟨step.kind, now, c, attempt⟩ := by
      subst hc
      exact ⟨⟨rfl, rfl, goes, runner, known, inTime⟩, rfl⟩
    cases attempt with
    | crashed crash => exact .crashed makes rfl
    | reported report => exact .concluded makes rfl (concludes_concluded _ _ _ (.ok report))
    | failed e => exact .concluded makes rfl (concludes_concluded _ _ _ (.error e))

theorem opens_opening (env : Setting σ) (step : Step) (resumed : Option StepRecord) (x : σ) :
    Opens step resumed (opening env step resumed x).1 := by
  cases resumed with
  | none => exact .anew _
  | some record => exact .again record

theorem passes_advance (env : Setting σ) (ctx : PromotionContext) (index : Nat)
    (steps : List Step) (resumed : Option StepRecord) (p : Progress) (x : σ) :
    Passes env ctx index steps resumed p (engagementsFrom env ctx index steps resumed p x)
      (advance env ctx index steps resumed p x).1 := by
  induction steps generalizing index resumed p x with
  | nil => exact .finish
  | cons step rest ih =>
    rw [advance_cons]
    unfold engagementsFrom
    have opens := opens_opening env step resumed x
    generalize opening env step resumed x = opened at opens ⊢
    obtain ⟨record, x₁⟩ := opened
    have tried := tried_runStep env ctx step record p.state x₁
    dsimp only
    generalize runnerCall? env ctx step record p.state x₁ = call at tried ⊢
    generalize runStep env ctx step record p.state x₁ = attempt at tried ⊢
    obtain ⟨outcome, x₂⟩ := attempt
    cases outcome with
    | error c => exact .crash opens tried
    | ok o =>
      unfold goOn
      dsimp only
      cases verdict : o.verdict with
      | next => exact .next opens tried verdict (by simpa using ih _ _ _ x₂)
      | pause message => simpa using Passes.pause opens tried verdict
      | halt phase message => simpa using Passes.halt opens tried verdict

/-- A call of the engine is refused, or it passes the steps from where it starts. -/
theorem promote_cases (env : Setting σ) (ctx : PromotionContext) (steps : List Step) (x : σ) :
    (steps.length < ctx.start ∨ ctx.records.length < ctx.start) ∧
        (∃ e, (promote env ctx steps x).1 = .error e) ∧ engagements env ctx steps x = [] ∨
      ctx.start ≤ steps.length ∧ ctx.start ≤ ctx.records.length ∧
        Passes env ctx ctx.start (steps.drop ctx.start) ctx.records[ctx.start]?
          ⟨ctx.records.take ctx.start, ctx.state, []⟩ (engagements env ctx steps x)
          (promote env ctx steps x).1 := by
  unfold promote engagements
  by_cases beyond : steps.length < ctx.start
  · refine .inl ⟨.inl beyond, ⟨.startBeyond ctx.start steps.length, ?_⟩, if_pos (.inl beyond)⟩
    rw [if_pos beyond]
    rfl
  by_cases missing : ctx.records.length < ctx.start
  · refine .inl ⟨.inr missing, ⟨.recordsMissing ctx.start ctx.records.length, ?_⟩,
      if_pos (.inr missing)⟩
    rw [if_neg beyond, if_pos missing]
    rfl
  refine .inr ⟨Nat.le_of_not_lt beyond, Nat.le_of_not_lt missing, ?_⟩
  simp only [beyond, missing, or_self, if_false]
  exact passes_advance env ctx _ _ _ _ x

theorem passes_of_result {env : Setting σ} {ctx : PromotionContext} {steps : List Step} {x : σ}
    {r : EngineResult} (answer : (promote env ctx steps x).1 = .result r) :
    (ctx.records.take ctx.start).length = ctx.start ∧
      Passes env ctx ctx.start (steps.drop ctx.start) ctx.records[ctx.start]?
        ⟨ctx.records.take ctx.start, ctx.state, []⟩ (engagements env ctx steps x) (.result r) := by
  rcases promote_cases env ctx steps x with ⟨-, ⟨e, error⟩, -⟩ | ⟨inside, known, passes⟩
  · rw [answer] at error
    cases error
  · rw [answer] at passes
    exact ⟨by simp [known], passes⟩

end Sequential

end Drayage
