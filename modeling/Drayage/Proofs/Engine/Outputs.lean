import Drayage.Proofs.Engine.Stepping
import Drayage.Proofs.Engine.Trials

/-!
# What becomes of the outputs of steps

The output of a step is kept under its name if its runner reports that the step is completed.
Later steps find it in the state that they are given, and the result has it; nothing else of
the state changes. Checks are kept of the same steps.
-/

namespace Drayage

theorem StepStatus.isTerminal_of_isCompleted {s : StepStatus} (h : s.isCompleted = true) :
    s.isTerminal = true := by
  cases s <;> first | rfl | cases h

/-- What was reported, if that completes the step. -/
def Attempt.completion? : Attempt → Option StepReport
  | .reported report => if report.status.isCompleted then some report else none
  | .failed _ | .crashed _ => none

namespace RunnerCall

/-- The output that is kept of a call, with the name under which it is kept. -/
def output? (c : RunnerCall) : Option (String × Json) :=
  c.attempt.completion?.bind fun report => report.output.map (c.context.name, ·)

/-- The check that is kept of a call. -/
def check? (c : RunnerCall) : Option HealthCheck :=
  c.attempt.completion?.bind StepReport.healthCheck

end RunnerCall

/-- A state overlaid with outputs, one after another. -/
def SharedState.laidOver (state : SharedState) (outputs : List (String × Json)) : SharedState :=
  outputs.foldl (fun s e => s.insert e.1 e.2) state

namespace SharedState

variable {state : SharedState} {os : List (String × Json)} {key : String} {value : Json}

theorem laidOver_append (os' : List (String × Json)) :
    laidOver state (os ++ os') = laidOver (laidOver state os) os' :=
  List.foldl_append

theorem get?_laidOver_of_forall_ne (h : ∀ o ∈ os, o.1 ≠ key) :
    (laidOver state os).get? key = state.get? key :=
  Dict.get?_foldl_insert_of_forall_ne h

/-- Of outputs under different names each stays as it is. -/
theorem get?_laidOver_of_mem (distinct : (os.map Prod.fst).Nodup) (h : (key, value) ∈ os) :
    (laidOver state os).get? key = some value := by
  induction os generalizing state with
  | nil => cases h
  | cons o os ih =>
    obtain ⟨new, distinct⟩ := List.nodup_cons.mp distinct
    rcases List.mem_cons.mp h with rfl | h
    · have others : ∀ o ∈ os, o.1 ≠ key := by
        intro o ho same
        apply new
        exact List.mem_map.mpr ⟨o, ho, same⟩
      calc (laidOver (state.insert key value) os).get? key
        _ = (state.insert key value).get? key := get?_laidOver_of_forall_ne others
        _ = some value := by simp [Dict.get?_insert]
    · exact ih distinct h

end SharedState

namespace Sequential

variable {σ : Type}

/-- The outputs that are kept of calls of runners, one after another. -/
def outputs (es : List (Nat × RunnerCall)) : List (String × Json) :=
  es.filterMap (·.2.output?)

/-- The checks that are kept of calls of runners. -/
def checks (es : List (Nat × RunnerCall)) : List HealthCheck := es.filterMap (·.2.check?)

/-- A result has the outputs and checks that are kept of these calls of runners, and no others. -/
structure Collects (ctx : PromotionContext) (es : List (Nat × RunnerCall)) (r : EngineResult) :
    Prop where
  state : r.state = ctx.state.laidOver (outputs es)
  healthChecks : r.healthChecks = checks es
  untouched : ∀ key, (∀ o ∈ outputs es, o.1 ≠ key) → r.state.get? key = ctx.state.get? key
  /-- The calls of which outputs and checks are kept are those that completed their steps. -/
  completed : ∀ e ∈ es, ∃ record, r.records[e.1]? = some record ∧
    e.2.attempt.completion?.isSome = record.status.isCompleted

/-- Runners find the outputs of the steps that come before their own and no others, and so does
who gets the result. -/
structure Flows (env : Setting σ) (ctx : PromotionContext) (steps : List Step) (x : σ) :
    Prop where
  noted : IsNoted env ctx steps x (engagements env ctx steps x)
  engages : Engages env steps ctx.start (engagements env ctx steps x)
  seen : ∀ e ∈ engagements env ctx steps x, e.2.context.state =
    ctx.state.laidOver (outputs ((engagements env ctx steps x).filter (·.1 < e.1)))
  collects : ∀ r, (promote env ctx steps x).1 = .result r →
    Collects ctx (engagements env ctx steps x) r

variable {env : Setting σ} {ctx : PromotionContext} {steps rest : List Step} {step : Step}
  {record : StepRecord} {state : SharedState} {resumed : Option StepRecord} {p : Progress}
  {index : Nat} {es : List (Nat × RunnerCall)} {a : EngineAnswer} {r : EngineResult}
  {call : Option RunnerCall} {o : StepOutcome}

theorem outputs_append (es' : List (Nat × RunnerCall)) :
    outputs (es ++ es') = outputs es ++ outputs es' :=
  List.filterMap_append

theorem checks_append (es' : List (Nat × RunnerCall)) :
    checks (es ++ es') = checks es ++ checks es' :=
  List.filterMap_append

@[simp] theorem outputs_placed (index : Nat) (call : Option RunnerCall) :
    outputs (placed index call) = (call.bind RunnerCall.output?).toList := by
  cases call with
  | none => rfl
  | some c => cases h : c.output? <;> simp [outputs, placed, h]

@[simp] theorem checks_placed (index : Nat) (call : Option RunnerCall) :
    checks (placed index call) = (call.bind RunnerCall.check?).toList := by
  cases call with
  | none => rfl
  | some c => cases h : c.check? <;> simp [checks, placed, h]

/-- What a runner reported is kept exactly if the record says that it completed the step. -/
theorem Concludes.kept {outcome : Except StepError StepReport}
    (h : Concludes step record outcome o) (running : record.status = .running) :
    let kept := (Attempt.of outcome).completion?
    o.output = kept.bind StepReport.output ∧ o.healthCheck = kept.bind StepReport.healthCheck ∧
      kept.isSome = o.record.status.isCompleted := by
  cases h with
  | completed report now status =>
    rcases status with status | status <;>
      simp [Attempt.of, Attempt.completion?, status, StepStatus.isCompleted]
  | waiting report status =>
    have unfinished : report.status.isCompleted = false := by
      rw [Bool.eq_false_iff]
      intro completed
      simp [StepStatus.isTerminal_of_isCompleted completed] at status
    have begun : record.status.isCompleted = false := running ▸ rfl
    simp [Attempt.of, Attempt.completion?, unfinished, paused, begun]
  | ended report message now status =>
    rcases status with status | status | status <;>
      simp [Attempt.of, Attempt.completion?, halted, status, StepStatus.isCompleted]
  | retrying e temporary fewer =>
    simp [Attempt.of, Attempt.completion?, paused, running, StepStatus.isCompleted]
  | errored e now final =>
    simp [Attempt.of, Attempt.completion?, halted, StepStatus.isCompleted]

theorem Settles.kept_nothing {x : σ} (h : Settles env step record x o) :
    o.output = none ∧ o.healthCheck = none := by
  cases h <;> exact ⟨rfl, rfl⟩

theorem Tried.kept (h : Tried env ctx step record state call (.ok o)) :
    call.bind RunnerCall.output? = o.output.map (step.name, ·) ∧
      call.bind RunnerCall.check? = o.healthCheck := by
  cases h with
  | settled settles =>
    obtain ⟨output, check⟩ := settles.kept_nothing
    simp [output, check]
  | concluded makes ends concludes =>
    obtain ⟨output, check, -⟩ := concludes.kept rfl
    rw [output, check, ← ends, Option.map_bind, ← makes.serves.name]
    exact ⟨rfl, rfl⟩

/-- What an attempt adds to the state and to the checks is what is kept of its call. -/
theorem Tried.add_eq (h : Tried env ctx step record p.state call (.ok o)) (index : Nat) :
    (p.add step o).state = p.state.laidOver (outputs (placed index call)) ∧
      (p.add step o).healthChecks = p.healthChecks ++ checks (placed index call) := by
  rw [outputs_placed, checks_placed, h.kept.1, h.kept.2]
  refine ⟨?_, rfl⟩
  unfold Progress.add
  cases o.output <;> rfl

theorem Tried.context_state {call : RunnerCall} {outcome : Except Crash StepOutcome}
    (h : Tried env ctx step record state (some call) outcome) : call.context.state = state := by
  cases h with
  | concluded makes ends concludes => rw [makes.context, stepContext]
  | crashed makes ends => rw [makes.context, stepContext]

theorem Tried.completed {call : RunnerCall}
    (h : Tried env ctx step record state (some call) (.ok o)) :
    call.attempt.completion?.isSome = o.record.status.isCompleted := by
  cases h with
  | concluded makes ends concludes =>
    rw [ends]
    exact (concludes.kept rfl).2.2

/-- A runner sees the state with the outputs of the steps that come before its own. -/
theorem Passes.seen (h : Passes env ctx index rest resumed p es a)
    (hrest : steps.drop index = rest) :
    ∀ e ∈ es, e.2.context.state = p.state.laidOver (outputs (es.filter (·.1 < e.1))) := by
  -- the first step has none before it
  have first {index : Nat} {step : Step} {record : StepRecord} {p : Progress}
      {call : Option RunnerCall} {outcome : Except Crash StepOutcome}
      (later : List (Nat × RunnerCall))
      (tried : Tried env ctx step record p.state call outcome) (behind : ∀ e ∈ later, index < e.1) :
      ∀ e ∈ placed index call, e.2.context.state =
        p.state.laidOver (outputs ((placed index call ++ later).filter (·.1 < e.1))) := by
    intro e he
    obtain ⟨here, rfl⟩ := mem_placed.mp he
    have none : (placed index (some e.2) ++ later).filter (·.1 < e.1) = [] := by
      rw [List.filter_eq_nil_iff]
      intro f hf
      rcases List.mem_append.mp hf with hf | hf
      · simp [(mem_placed.mp hf).1, here]
      · simpa [here] using Nat.le_of_lt (behind f hf)
    rw [none, tried.context_state]
    rfl
  induction h with
  | finish => simp
  | crash opens tried | pause opens tried | halt opens tried =>
    simpa using first [] tried (by simp)
  | @next index step _ _ p _ call o later _ opens tried verdict passes ih =>
    obtain ⟨-, hrest'⟩ := getElem?_of_drop hrest
    have behind := (passes.engages hrest').behind
    intro e he
    rcases List.mem_append.mp he with he | he
    · exact first later tried behind e he
    · have own : (placed index call).filter (·.1 < e.1) = placed index call := by
        rw [List.filter_eq_self]
        intro f hf
        simp [(mem_placed.mp hf).1, Nat.lt_of_succ_le (behind e he)]
      rw [ih hrest' e he, (tried.add_eq index).1, List.filter_append, own, outputs_append,
        SharedState.laidOver_append]

theorem Passes.collects (h : Passes env ctx index rest resumed p es (.result r)) :
    r.state = p.state.laidOver (outputs es) ∧ r.healthChecks = p.healthChecks ++ checks es := by
  generalize ha : EngineAnswer.result r = a at h
  induction h with
  | finish =>
    cases ha
    simp [Progress.result, outputs, checks, SharedState.laidOver]
  | crash => cases ha
  | pause opens tried verdict | halt opens tried verdict =>
    cases ha
    exact tried.add_eq _
  | @next index step _ _ p _ call o later _ opens tried verdict passes ih =>
    obtain ⟨state, healthChecks⟩ := ih ha
    obtain ⟨added, addedChecks⟩ := tried.add_eq index
    constructor
    · rw [state, added, outputs_append, SharedState.laidOver_append]
    · rw [healthChecks, addedChecks, checks_append, List.append_assoc]

/-- Outputs go where they are to go in every call of the engine, whatever it comes to. -/
theorem flows_promote (env : Setting σ) (ctx : PromotionContext) (steps : List Step) (x : σ) :
    Flows env ctx steps x := by
  have noted := isNoted_engagements env ctx steps x
  rcases promote_cases env ctx steps x with ⟨-, ⟨e, error⟩, none⟩ | ⟨inside, known, passes⟩
  · refine ⟨noted, ?_, ?_, ?_⟩
    · rw [none]
      exact ⟨.nil, by simp, by simp⟩
    · simp [none]
    · intro r answer
      rw [error] at answer
      cases answer
  refine ⟨noted, passes.engages rfl, passes.seen rfl, ?_⟩
  intro r answer
  rw [answer] at passes
  obtain ⟨state, healthChecks⟩ := passes.collects
  refine ⟨state, by simpa using healthChecks, ?_, ?_⟩
  · intro key others
    rw [state, SharedState.get?_laidOver_of_forall_ne others]
  · intro e he
    obtain ⟨step, record, _, o, -, -, tried, left⟩ := passes.tried rfl (by simp [known]) he
    exact ⟨o.record, left, tried.completed⟩

end Sequential

end Drayage
