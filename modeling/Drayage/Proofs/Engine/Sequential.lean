import Drayage.Engine.Sequential

/-!
# What the sequential engine answers

Called with the records of the steps that are done, the engine never puts a Promotion off
and never complains. Its result has the records of all steps that are done and, unless
these are all there are, of one more.
-/

namespace Drayage

/-- Records of some steps that are done, and of one that is in flight. -/
def InFlight (i : Nat) (records : List StepRecord) : Prop :=
  ∃ done last, records = done ++ [last] ∧ done.length = i ∧
    (∀ r ∈ done, r.status.isTerminal = true) ∧ last.status = .running

/-- Where a Promotion of so many steps can go on: at the beginning or with a step in
flight. -/
def Resumable (steps start : Nat) (records : List StepRecord) : Prop :=
  (records = [] ∧ start = 0) ∨ (start < steps ∧ InFlight start records)

/-- A result for a Promotion of so many steps. -/
inductive EngineResult.Fits (steps : Nat) (r : EngineResult) : Prop where
  | succeeded (phase : r.phase = .succeeded) (step : r.currentStep = steps)
      (records : r.records.length = steps)
  | paused (phase : r.phase = .running) (step : r.currentStep < steps)
      (records : InFlight r.currentStep r.records)
  | halted (phase : r.phase = .failed ∨ r.phase = .errored ∨ r.phase = .aborted)
      (step : r.currentStep < steps) (records : r.records.length = r.currentStep + 1)

/-- An answer with a result that fits, or a crash. -/
def EngineAnswer.Fits (steps : Nat) : EngineAnswer → Prop
  | .result r => r.Fits steps
  | .error _ => False
  | .crashed _ => True

namespace Sequential

variable {σ : Type}

/-- A step that is done has a record that says so, and one that is attempted again has one
that is running. -/
def StepOutcome.Coherent (o : StepOutcome) : Prop :=
  match o.verdict with
  | .next => o.record.status.isTerminal = true
  | .pause _ => o.record.status = .running
  | .halt phase _ => phase = .failed ∨ phase = .errored ∨ phase = .aborted

/-- What an attempt of a step can leave behind. -/
inductive Left (step : Step) : StepOutcome → Prop where
  | completed (record : StepRecord) (output : Option Json) (check : Option HealthCheck)
      (h : record.status = .succeeded ∨ record.status = .skipped) :
      Left step ⟨record, .next, output, check⟩
  | paused (record : StepRecord) (message : Option String) (h : record.status = .running) :
      Left step (paused record message)
  | halted (record : StepRecord) (status : StepStatus) (message : String) (now : Instant)
      (h : status = .failed ∨ status = .errored ∨ status = .aborted) :
      Left step (halted step record status message now)

theorem left_concluded (step : Step) {record : StepRecord} (h : record.status = .running)
    (now : Instant) (outcome : Except StepError StepReport) :
    Left step (concluded step record now outcome) := by
  cases outcome with
  | ok report =>
    obtain ⟨status, output, message, check⟩ := report
    cases status with
    | succeeded => exact .completed _ _ _ (.inl rfl)
    | skipped => exact .completed _ _ _ (.inr rfl)
    | pending | running => exact .paused record message h
    | failed => exact .halted record .failed _ now (.inl rfl)
    | errored => exact .halted record .errored _ now (.inr (.inl rfl))
    | aborted => exact .halted record .aborted _ now (.inr (.inr rfl))
  | error e =>
    unfold concluded
    dsimp only
    split
    · exact .halted _ .errored _ now (.inr (.inl rfl))
    · exact .paused _ (some e.message) h

/-- Only the time decides about a step that is to run and has a runner. -/
theorem prepare_known {registry : Registry σ} {step : Step} {runner : Runner σ}
    (goes : Step.evaluateGuard step.guard = .ok true)
    (known : registry.get? step.kind = some runner) (now startedAt : Instant) :
    prepare registry step now startedAt =
      match step.timeout runner.defaultTimeout with
      | none => .ready runner
      | some limit =>
        if timedOut now startedAt limit then .halt s!"step timed out after {limit.seconds}s"
        else .ready runner := by
  unfold prepare
  cases allowed : step.timeout runner.defaultTimeout <;> simp only [goes, known, allowed]

theorem left_runStep (env : Setting σ) (ctx : PromotionContext) (step : Step)
    (record : StepRecord) (state : SharedState) (x : σ) {o : StepOutcome} {x' : σ}
    (h : runStep env ctx step record state x = (.ok o, x')) : Left step o := by
  unfold runStep at h
  dsimp only [bind, StateT.bind] at h
  generalize env.clock x = read at h
  obtain ⟨now, x₁⟩ := read
  dsimp only at h
  generalize prepare _ _ _ _ = preparation at h
  cases preparation with
  | skip =>
    cases h
    exact .completed _ none none (.inr rfl)
  | halt message =>
    cases h
    exact .halted _ .errored message _ (.inr (.inl rfl))
  -- from here on the runner decides
  | ready runner =>
    dsimp only [StateT.bind] at h
    generalize runner.run _ x₁ = attempt at h
    obtain ⟨attempt, x₂⟩ := attempt
    cases attempt with
    | crashed c => cases h
    | reported report =>
      cases h
      exact left_concluded step rfl _ _
    | failed e =>
      cases h
      exact left_concluded step rfl _ _

theorem Left.coherent {step : Step} {o : StepOutcome} (h : Left step o) : o.Coherent := by
  cases h with
  | completed record output check h =>
    show record.status.isTerminal = true
    rcases h with h | h <;> rw [h] <;> rfl
  | paused record message h => exact h
  | halted record status message now h =>
    unfold Sequential.halted StepOutcome.Coherent
    cases step.continueOnError with
    | true => rcases h with rfl | rfl | rfl <;> rfl
    | false =>
      rcases h with rfl | rfl | rfl
      · exact .inl rfl
      · exact .inr (.inl rfl)
      · exact .inr (.inr rfl)

/-- How a call goes on after an attempt of the step at `index`. -/
def goOn (env : Setting σ) (ctx : PromotionContext) (index : Nat) (step : Step)
    (rest : List Step) (p : Progress) : Except Crash StepOutcome × σ → EngineAnswer × σ
  | (.error c, x) => (.crashed c, x)
  | (.ok o, x) =>
    match o.verdict with
    | .next => advance env ctx (index + 1) rest none (p.add step o) x
    | .pause message => (.result ((p.add step o).result .running message index), x)
    | .halt phase message => (.result ((p.add step o).result phase (some message) index), x)

/-- The record that an attempt starts from. -/
def opening (env : Setting σ) (step : Step) : Option StepRecord → StateM σ StepRecord
  | some record => pure record
  | none => fun x => (.started step.name (env.clock x).1, (env.clock x).2)

theorem goOn_eq (env : Setting σ) (ctx : PromotionContext) (index : Nat) (step : Step)
    (rest : List Step) (p : Progress) (attempt : Except Crash StepOutcome × σ) :
    (match attempt.1 with
      | .error c => pure (.crashed c)
      | .ok o => match o.verdict with
        | .next => advance env ctx (index + 1) rest none (p.add step o)
        | .pause message => pure (.result ((p.add step o).result .running message index))
        | .halt phase message =>
          pure (.result ((p.add step o).result phase (some message) index)) :
      StateM σ EngineAnswer) attempt.2 = goOn env ctx index step rest p attempt := by
  obtain ⟨outcome, x⟩ := attempt
  cases outcome with
  | error c => rfl
  | ok o =>
    unfold goOn
    dsimp only
    cases o.verdict <;> rfl

theorem advance_cons (env : Setting σ) (ctx : PromotionContext) (index : Nat) (step : Step)
    (rest : List Step) (resumed : Option StepRecord) (p : Progress) (x : σ) :
    advance env ctx index (step :: rest) resumed p x =
      let (record, x₁) := opening env step resumed x
      goOn env ctx index step rest p (runStep env ctx step record p.state x₁) := by
  cases resumed <;> exact goOn_eq env ctx index step rest p _

/-- What a call comes to from a step on, if the progress before it is `p`. -/
inductive Advances (env : Setting σ) (ctx : PromotionContext) (index : Nat) (step : Step)
    (rest : List Step) (p : Progress) : EngineAnswer → Prop where
  | crashed (c : Crash) : Advances env ctx index step rest p (.crashed c)
  | next (o : StepOutcome) (left : Left step o) (verdict : o.verdict = .next) (x : σ) :
      Advances env ctx index step rest p
        (advance env ctx (index + 1) rest none (p.add step o) x).1
  | pause (o : StepOutcome) (left : Left step o) (message : Option String)
      (verdict : o.verdict = .pause message) :
      Advances env ctx index step rest p (.result ((p.add step o).result .running message index))
  | halt (o : StepOutcome) (left : Left step o) (phase : Phase) (message : String)
      (verdict : o.verdict = .halt phase message) :
      Advances env ctx index step rest p
        (.result ((p.add step o).result phase (some message) index))

theorem advances_cons (env : Setting σ) (ctx : PromotionContext) (index : Nat) (step : Step)
    (rest : List Step) (resumed : Option StepRecord) (p : Progress) (x : σ) :
    Advances env ctx index step rest p
      (advance env ctx index (step :: rest) resumed p x).1 := by
  rw [advance_cons]
  obtain ⟨record, x₁⟩ := opening env step resumed x
  dsimp only
  cases hrun : runStep env ctx step record p.state x₁ with
  | mk outcome x₂ =>
    cases outcome with
    | error c => exact .crashed c
    | ok o =>
      have left := left_runStep env ctx step record p.state x₁ hrun
      unfold goOn
      dsimp only
      cases verdict : o.verdict with
      | next => exact .next o left verdict x₂
      | pause message => exact .pause o left message verdict
      | halt phase message => exact .halt o left phase message verdict

theorem fits_advance (env : Setting σ) (ctx : PromotionContext) (index : Nat)
    (steps : List Step) (resumed : Option StepRecord) {p : Progress}
    (hlength : p.records.length = index) (hdone : ∀ r ∈ p.records, r.status.isTerminal = true)
    (hresumed : steps = [] → resumed = none) (x : σ) :
    (advance env ctx index steps resumed p x).1.Fits (index + steps.length) := by
  -- the records of the steps that are done are as many as `index` tells
  induction steps generalizing index resumed p x with
  | nil =>
    rw [hresumed rfl]
    exact .succeeded rfl rfl (by rw [← hlength]; exact congrArg List.length (List.append_nil _))
  | cons step rest ih =>
    have inside : index < index + (step :: rest).length := by simp
    have longer (o : StepOutcome) : (p.add step o).records.length = index + 1 := by
      simp [Progress.add, hlength]
    have advances := advances_cons env ctx index step rest resumed p x
    generalize (advance env ctx index (step :: rest) resumed p x).1 = a at advances ⊢
    cases advances with
    | crashed c => trivial
    | next o left verdict x' =>
      have coherent := left.coherent
      rw [StepOutcome.Coherent, verdict] at coherent
      have done : ∀ r ∈ (p.add step o).records, r.status.isTerminal = true := by
        intro r hr
        rcases List.mem_append.mp hr with hr | hr
        · exact hdone r hr
        · rw [List.mem_singleton.mp hr]
          exact coherent
      have := ih (index + 1) none (longer o) done (fun _ => rfl) x'
      rwa [Nat.add_assoc, Nat.add_comm 1] at this
    | pause o left message verdict =>
      have coherent := left.coherent
      rw [StepOutcome.Coherent, verdict] at coherent
      exact .paused rfl inside ⟨p.records, o.record, rfl, hlength, hdone, coherent⟩
    | halt o left phase message verdict =>
      have coherent := left.coherent
      rw [StepOutcome.Coherent, verdict] at coherent
      exact .halted coherent inside (longer o)

/-- Called where a Promotion can go on, the engine answers with a result that fits its steps,
unless it crashes. -/
theorem fits_promote (env : Setting σ) {ctx : PromotionContext} {steps : List Step}
    (h : Resumable steps.length ctx.start ctx.records) (x : σ) :
    (promote env ctx steps x).1.Fits steps.length := by
  unfold promote
  rcases h with ⟨hrecords, hstart⟩ | ⟨inside, done, last, hrecords, hlength, hdone, _⟩
  · rw [hrecords, hstart, if_neg (Nat.not_lt_zero _), if_neg (Nat.not_lt_zero _)]
    have := fits_advance env ctx 0 steps none (p := ⟨[], ctx.state, []⟩) rfl
      (fun r hr => (List.not_mem_nil hr).elim) (fun _ => rfl) x
    rwa [Nat.zero_add] at this
  -- the record in flight is resumed, those before it are taken over
  · have enough : ¬ ctx.records.length < ctx.start := by
      rw [hrecords, List.length_append, hlength]
      omega
    have taken : ctx.records.take ctx.start = done := by
      rw [hrecords, ← hlength, List.take_left]
    rw [if_neg (by omega), if_neg enough, taken]
    have := fits_advance env ctx ctx.start (steps.drop ctx.start)
      ctx.records[ctx.start]? (p := ⟨done, ctx.state, []⟩) hlength hdone
      (fun h => by have := List.drop_eq_nil_iff.mp h; omega) x
    rwa [List.length_drop, Nat.add_sub_cancel' (Nat.le_of_lt inside)] at this

/-- An answer that the engine gives with some runners, clock and credentials. -/
def MayAnswer (ctx : PromotionContext) (steps : List Step) (a : EngineAnswer) : Prop :=
  ∃ (σ : Type) (env : Setting σ) (x : σ), (promote env ctx steps x).1 = a

theorem phase_advance (env : Setting σ) (ctx : PromotionContext) {index : Nat}
    {steps : List Step} {resumed : Option StepRecord} {p : Progress} {x : σ} {r : EngineResult}
    (h : (advance env ctx index steps resumed p x).1 = .result r) : r.phase ≠ .pending := by
  induction steps generalizing index resumed p x with
  | nil =>
    cases h
    intro pending
    cases pending
  | cons step rest ih =>
    have advances := advances_cons env ctx index step rest resumed p x
    rw [h] at advances
    generalize ha : EngineAnswer.result r = a at advances
    cases advances with
    | crashed c => cases ha
    | next o left verdict x' => exact ih ha.symm
    | pause o left message verdict =>
      cases ha
      intro pending
      cases pending
    | halt o left phase message verdict =>
      cases ha
      have coherent := left.coherent
      rw [StepOutcome.Coherent, verdict] at coherent
      intro pending
      rw [show phase = .pending from pending] at coherent
      rcases coherent with h | h | h <;> cases h

/-- The engine never puts a Promotion off. -/
theorem phase_mayAnswer {ctx : PromotionContext} {steps : List Step} {r : EngineResult}
    (h : MayAnswer ctx steps (.result r)) : r.phase ≠ .pending := by
  obtain ⟨σ, env, x, h⟩ := h
  unfold promote at h
  split at h
  · cases h
  · split at h
    · cases h
    · exact phase_advance env ctx h

end Sequential

end Drayage
