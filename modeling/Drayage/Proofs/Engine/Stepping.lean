import Drayage.Proofs.Engine.Engaging
import Drayage.Proofs.Engine.Trail
import Drayage.Proofs.Engine.Pausing

/-!
# How far a call of the engine gets

A call goes from step to step as long as they are completed. It ends behind the last step, or
at a step that is to be attempted again, or at one that has ended badly; its phase tells which
of these it was, and it has the records of the steps up to there. Runners are called for the
steps on this way, in order.
-/

namespace Drayage.Sequential

variable {σ : Type}

/-- A step that the Promotion does not outlive has ended like this. -/
def EndedAs (step : Step) (last : StepRecord) (status : StepStatus) : Prop :=
  last.status = status ∧ last.finishedAt.isSome = true ∧ step.continueOnError = false

/-- The phase of a Promotion that stands at a step, told by the record of that step. -/
structure StandsAt (step : Step) (last : StepRecord) (phase : Phase) : Prop where
  running_iff : phase = .running ↔ last.status = .running
  failed_iff : phase = .failed ↔ EndedAs step last .failed
  aborted_iff : phase = .aborted ↔ EndedAs step last .aborted
  errored_iff : phase = .errored ↔ EndedAs step last .errored

/-- The result of a call that goes through the steps from `start` on. -/
structure Walks (steps : List Step) (start : Nat) (r : EngineResult) : Prop where
  behind : start ≤ r.currentStep
  inside : r.currentStep ≤ steps.length
  /-- The steps up to the current one are completed. -/
  passed : ∀ i, start ≤ i → i < r.currentStep → ∃ step record,
    steps[i]? = some step ∧ r.records[i]? = some record ∧ Completes step record.status
  succeeded_iff : r.phase = .succeeded ↔ r.currentStep = steps.length
  complete : r.currentStep = steps.length → r.records.length = steps.length
  stopped : r.currentStep < steps.length → r.records.length = r.currentStep + 1 ∧
    ∃ step last, steps[r.currentStep]? = some step ∧ r.records[r.currentStep]? = some last ∧
      StandsAt step last r.phase
  unpostponed : r.phase ≠ .pending

/-- Calls of runners for some of the steps from `start` on: one after another, for a step at
most one, and only for a step that is to run and has time left. -/
structure Engages (env : Setting σ) (steps : List Step) (start : Nat)
    (es : List (Nat × RunnerCall)) : Prop where
  ordered : es.Pairwise (·.1 < ·.1)
  behind : ∀ e ∈ es, start ≤ e.1
  serves : ∀ e ∈ es, ∃ step, steps[e.1]? = some step ∧ Serves env step e.2

/-- What a call of the engine comes to that ends with a result. -/
structure Follows (env : Setting σ) (ctx : PromotionContext) (steps : List Step) (x : σ)
    (r : EngineResult) : Prop where
  kept : ∀ i < ctx.start, r.records[i]? = ctx.records[i]?
  walks : Walks steps ctx.start r
  noted : IsNoted env ctx steps x (engagements env ctx steps x)
  engages : Engages env steps ctx.start (engagements env ctx steps x)
  reached : ∀ e ∈ engagements env ctx steps x, e.1 ≤ r.currentStep
  /-- The time that a step has taken counts from the start that its record tells. -/
  began : ∀ e ∈ engagements env ctx steps x, ∃ record,
    r.records[e.1]? = some record ∧ record.startedAt = some e.2.context.startedAt

variable {env : Setting σ} {ctx : PromotionContext} {steps rest : List Step} {step : Step}
  {record : StepRecord} {state : SharedState} {resumed : Option StepRecord} {p : Progress}
  {index : Nat} {es : List (Nat × RunnerCall)} {a : EngineAnswer} {r : EngineResult}

section Attempts

variable {call : Option RunnerCall} {o : StepOutcome}

theorem Settles.left {x : σ} (h : Settles env step record x o) : Left step o := by
  cases h with
  | skipped => exact .completed _ none none (.inr rfl)
  | errored => exact .halted _ .errored _ _ (.inr (.inl rfl))

theorem Concludes.left {outcome : Except StepError StepReport}
    (h : Concludes step record outcome o) (running : record.status = .running) : Left step o := by
  cases h with
  | completed report now status => exact .completed _ _ _ status
  | waiting report status => exact .paused record _ running
  | ended report message now status => exact .halted record _ message now status
  | retrying e temporary fewer => exact .paused _ _ running
  | errored e now final => exact .halted _ .errored _ now (.inr (.inl rfl))

theorem Tried.left (h : Tried env ctx step record state call (.ok o)) : Left step o := by
  cases h with
  | settled settles => exact settles.left
  | concluded makes ends concludes => exact concludes.left rfl

theorem Left.status_of_pause (left : Left step o) {message : Option String}
    (verdict : o.verdict = .pause message) : o.record.status = .running := by
  have coherent := left.coherent
  rwa [StepOutcome.Coherent, verdict] at coherent

theorem Left.phase_of_halt (left : Left step o) {phase : Phase} {message : String}
    (verdict : o.verdict = .halt phase message) :
    phase = .failed ∨ phase = .errored ∨ phase = .aborted := by
  have coherent := left.coherent
  rwa [StepOutcome.Coherent, verdict] at coherent

theorem Left.standsAt_pause (left : Left step o) {message : Option String}
    (verdict : o.verdict = .pause message) : StandsAt step o.record .running := by
  have running := left.status_of_pause verdict
  constructor <;> simp [EndedAs, running]

theorem Left.standsAt_halt (left : Left step o) {phase : Phase} {message : String}
    (verdict : o.verdict = .halt phase message) : StandsAt step o.record phase := by
  cases left with
  | completed record output check h => cases verdict
  | paused record message h => cases verdict
  | halted record status message now h =>
    unfold Sequential.halted at verdict ⊢
    by_cases tolerant : step.continueOnError = true
    · simp [tolerant] at verdict
    · rw [Bool.not_eq_true] at tolerant
      simp only [tolerant, Bool.false_eq_true, if_false, Verdict.halt.injEq] at verdict
      obtain ⟨rfl, -⟩ := verdict
      rcases h with rfl | rfl | rfl <;> constructor <;> simp [EndedAs, haltPhase, tolerant]

end Attempts

theorem Passes.prefix_records (h : Passes env ctx index rest resumed p es (.result r)) :
    p.records <+: r.records := by
  generalize ha : EngineAnswer.result r = a at h
  induction h with
  | finish | pause | halt =>
    cases ha
    exact List.prefix_append _ _
  | crash => cases ha
  | next opens tried verdict passes ih => exact (List.prefix_append _ _).trans (ih ha)

/-- The record of the step at which an attempt is made stays what it was after it. -/
theorem getElem?_of_prefix_add {o : StepOutcome} (length : p.records.length = index)
    (longer : (p.add step o).records <+: r.records) : r.records[index]? = some o.record := by
  obtain ⟨later, hlater⟩ := longer
  rw [← hlater, ← length]
  simp [Progress.add]

theorem getElem?_result_add {o : StepOutcome} {phase : Phase} {message : Option String}
    (length : p.records.length = index) :
    ((p.add step o).result phase message index).records[index]? = some o.record := by
  simp [Progress.result, Progress.add, ← length]

theorem Walks.back {o : StepOutcome} (h : Walks steps (index + 1) r)
    (here : steps[index]? = some step) (left : r.records[index]? = some o.record)
    (completes : Completes step o.record.status) : Walks steps index r where
  behind := Nat.le_of_succ_le h.behind
  inside := h.inside
  passed i hi hlt := by
    rcases Nat.eq_or_lt_of_le hi with rfl | later
    · exact ⟨step, o.record, here, left, completes⟩
    · exact h.passed i later hlt
  succeeded_iff := h.succeeded_iff
  complete := h.complete
  stopped := h.stopped
  unpostponed := h.unpostponed

/-- A call that ends at the step at `index`. -/
theorem walks_stopped {o : StepOutcome} {phase : Phase} {message : Option String}
    (here : steps[index]? = some step) (length : p.records.length = index)
    (stands : StandsAt step o.record phase) (unfinished : phase ≠ .succeeded)
    (unpostponed : phase ≠ .pending) :
    Walks steps index ((p.add step o).result phase message index) := by
  have inside : index < steps.length := (List.getElem?_eq_some_iff.mp here).1
  constructor
  · exact Nat.le_refl _
  · exact Nat.le_of_lt inside
  · intro i hi hlt
    exact absurd hlt (Nat.not_lt.mpr hi)
  · exact iff_of_false unfinished (Nat.ne_of_lt inside)
  · intro whole
    exact absurd whole (Nat.ne_of_lt inside)
  · intro _
    exact ⟨by simp [Progress.result, Progress.add, length], step, o.record, here,
      getElem?_result_add length, stands⟩
  · exact unpostponed

theorem getElem?_of_drop (h : steps.drop index = step :: rest) :
    steps[index]? = some step ∧ steps.drop (index + 1) = rest := by
  constructor
  · have := congrArg List.head? h
    simpa [List.head?_drop] using this
  · have := congrArg List.tail h
    simpa [List.tail_drop] using this

/-- What a call comes to from the step at `index` on, if the steps before have their
records. -/
theorem Passes.walks (h : Passes env ctx index rest resumed p es (.result r))
    (hrest : steps.drop index = rest) (inside : index ≤ steps.length)
    (length : p.records.length = index) (last : rest = [] → resumed = none) :
    Walks steps index r := by
  generalize ha : EngineAnswer.result r = a at h
  induction h with
  | @finish index resumed p =>
    cases ha
    have whole : index = steps.length := by
      have := List.drop_eq_nil_iff.mp hrest
      omega
    rw [last rfl]
    constructor
    · exact Nat.le_refl _
    · exact inside
    · intro i hi hlt
      exact absurd hlt (Nat.not_lt.mpr hi)
    · simp [Progress.result, whole]
    · intro _
      simp [Progress.result, length, whole]
    · intro short
      exact absurd short (Nat.not_lt.mpr (Nat.le_of_eq whole.symm))
    · simp [Progress.result]
  | crash => cases ha
  | pause opens tried verdict =>
    cases ha
    obtain ⟨here, _⟩ := getElem?_of_drop hrest
    exact walks_stopped here length (tried.left.standsAt_pause verdict) (by simp) (by simp)
  | @halt _ _ _ _ _ _ _ _ phase _ opens tried verdict =>
    cases ha
    obtain ⟨here, _⟩ := getElem?_of_drop hrest
    have bad := tried.left.phase_of_halt verdict
    refine walks_stopped here length (tried.left.standsAt_halt verdict) ?_ ?_
    · rintro rfl
      simp at bad
    · rintro rfl
      simp at bad
  | next opens tried verdict passes ih =>
    obtain ⟨here, later⟩ := getElem?_of_drop hrest
    have longer := Passes.prefix_records (ha ▸ passes)
    have walks := ih later (List.getElem?_eq_some_iff.mp here).1 (by simp [Progress.add, length])
      (fun _ => rfl) ha
    exact walks.back here (getElem?_of_prefix_add length longer) (tried.left.next_iff.mp verdict)

theorem mem_placed {call : Option RunnerCall} {e : Nat × RunnerCall} :
    e ∈ placed index call ↔ e.1 = index ∧ call = some e.2 := by
  obtain ⟨i, c⟩ := e
  cases call <;> simp [placed, eq_comm]

theorem Tried.serves {call : RunnerCall} {outcome : Except Crash StepOutcome}
    (h : Tried env ctx step record state (some call) outcome) : Serves env step call := by
  cases h with
  | concluded makes ends => exact makes.serves
  | crashed makes ends => exact makes.serves

theorem engages_placed {call : Option RunnerCall} {outcome : Except Crash StepOutcome}
    (here : steps[index]? = some step) (tried : Tried env ctx step record state call outcome) :
    Engages env steps index (placed index call) := by
  constructor
  · cases call <;> simp [placed]
  · intro e he
    exact Nat.le_of_eq (mem_placed.mp he).1.symm
  · intro e he
    obtain ⟨rfl, rfl⟩ := mem_placed.mp he
    exact ⟨step, here, tried.serves⟩

theorem Engages.append {call : Option RunnerCall} (h : Engages env steps index (placed index call))
    (later : Engages env steps (index + 1) es) :
    Engages env steps index (placed index call ++ es) := by
  constructor
  · refine List.pairwise_append.mpr ⟨h.ordered, later.ordered, ?_⟩
    intro e he f hf
    rw [(mem_placed.mp he).1]
    exact later.behind f hf
  · intro e he
    rcases List.mem_append.mp he with he | he
    · exact h.behind e he
    · exact Nat.le_of_succ_le (later.behind e he)
  · intro e he
    rcases List.mem_append.mp he with he | he
    · exact h.serves e he
    · exact later.serves e he

/-- Which runners a call of the engine calls, whatever it comes to. -/
theorem Passes.engages (h : Passes env ctx index rest resumed p es a)
    (hrest : steps.drop index = rest) : Engages env steps index es := by
  induction h with
  | finish => exact ⟨.nil, by simp, by simp⟩
  | crash opens tried => exact engages_placed (getElem?_of_drop hrest).1 tried
  | pause opens tried => exact engages_placed (getElem?_of_drop hrest).1 tried
  | halt opens tried => exact engages_placed (getElem?_of_drop hrest).1 tried
  | next opens tried verdict passes ih =>
    obtain ⟨here, later⟩ := getElem?_of_drop hrest
    exact (engages_placed here tried).append (ih later)

theorem Passes.not_error (h : Passes env ctx index rest resumed p es a) (e : EngineError) :
    a ≠ .error e := by
  induction h with
  | finish | crash | pause | halt => simp
  | next opens tried verdict passes ih => exact ih

theorem Passes.crashed {c : Crash} (h : Passes env ctx index rest resumed p es (.crashed c)) :
    ∃ e ∈ es, e.2.attempt = .crashed c := by
  generalize ha : EngineAnswer.crashed c = a at h
  induction h with
  | finish | pause | halt => cases ha
  | crash opens tried =>
    cases ha
    cases tried with
    | @crashed call _ makes ends => exact ⟨(_, call), mem_placed.mpr ⟨rfl, rfl⟩, ends⟩
  | next opens tried verdict passes ih =>
    obtain ⟨e, he, ends⟩ := ih ha
    exact ⟨e, List.mem_append_right _ he, ends⟩

/-- A step counts as begun when its runner was told that it was. -/
theorem Tried.startedAt {call : RunnerCall} {o : StepOutcome}
    (h : Tried env ctx step record state (some call) (.ok o)) :
    o.record.startedAt = some call.context.startedAt := by
  cases h with
  | concluded makes ends concludes =>
    rw [makes.context]
    cases concludes <;> rfl

/-- The attempts for which runners were called have left their records in the result. Only the
first step can have been attempted before. -/
theorem Passes.tried (h : Passes env ctx index rest resumed p es (.result r))
    (hrest : steps.drop index = rest) (length : p.records.length = index) {e : Nat × RunnerCall}
    (he : e ∈ es) : ∃ step record state o, steps[e.1]? = some step ∧
      Opens step (if e.1 = index then resumed else none) record ∧
      Tried env ctx step record state (some e.2) (.ok o) ∧ r.records[e.1]? = some o.record := by
  generalize ha : EngineAnswer.result r = a at h
  -- a step has its record at its position, since the steps before it have theirs
  have own {index : Nat} {step : Step} {rest : List Step} {resumed : Option StepRecord}
      {record : StepRecord} {p : Progress} {call : Option RunnerCall} {o : StepOutcome}
      (hrest : steps.drop index = step :: rest) (length : p.records.length = index)
      (he : e ∈ placed index call) (opens : Opens step resumed record)
      (tried : Tried env ctx step record p.state call (.ok o))
      (longer : (p.add step o).records <+: r.records) :
      ∃ step record state o, steps[e.1]? = some step ∧
        Opens step (if e.1 = index then resumed else none) record ∧
        Tried env ctx step record state (some e.2) (.ok o) ∧
        r.records[e.1]? = some o.record := by
    obtain ⟨here, rfl⟩ := mem_placed.mp he
    rw [here, if_pos rfl]
    exact ⟨step, record, p.state, o, (getElem?_of_drop hrest).1, opens, tried,
      getElem?_of_prefix_add length longer⟩
  induction h with
  | finish => cases he
  | crash => cases ha
  | pause opens tried verdict | halt opens tried verdict =>
    cases ha
    exact own hrest length he opens tried List.prefix_rfl
  | @next index _ _ _ p _ call o later _ opens tried verdict passes ih =>
    obtain ⟨-, hrest'⟩ := getElem?_of_drop hrest
    rcases List.mem_append.mp he with he | he
    · exact own hrest length he opens tried (Passes.prefix_records (ha ▸ passes))
    · have behind : e.1 ≠ index := Nat.ne_of_gt ((passes.engages hrest').behind e he)
      rw [if_neg behind]
      simpa using ih hrest' (by simp [Progress.add, length]) he ha

/-- Runners are called for steps up to the one at which the call ends. -/
theorem Passes.reached (h : Passes env ctx index rest resumed p es (.result r)) :
    index ≤ r.currentStep ∧ ∀ e ∈ es, e.1 ≤ r.currentStep := by
  generalize ha : EngineAnswer.result r = a at h
  induction h with
  | finish =>
    cases ha
    simp [Progress.result]
  | crash => cases ha
  | pause opens tried verdict | halt opens tried verdict =>
    cases ha
    refine ⟨Nat.le_refl _, ?_⟩
    intro e he
    exact Nat.le_of_eq (mem_placed.mp he).1
  | next opens tried verdict passes ih =>
    obtain ⟨inside, later⟩ := ih ha
    refine ⟨Nat.le_of_succ_le inside, ?_⟩
    intro e he
    rcases List.mem_append.mp he with he | he
    · rw [(mem_placed.mp he).1]
      exact Nat.le_of_succ_le inside
    · exact later e he

/-- A call of the engine is refused exactly if it is to start behind the last step or without
the records of the steps before; otherwise, if no runner that it calls crashes, it ends with a
result that follows from the steps. -/
theorem follows_promote (env : Setting σ) (ctx : PromotionContext) (steps : List Step) (x : σ)
    (calm : ∀ e ∈ engagements env ctx steps x, ∀ c, e.2.attempt ≠ .crashed c) :
    ((∃ e, (promote env ctx steps x).1 = .error e) ↔
      steps.length < ctx.start ∨ ctx.records.length < ctx.start) ∧
    (ctx.start ≤ steps.length → ctx.start ≤ ctx.records.length →
      ctx.records.length ≤ steps.length →
      ∃ r, (promote env ctx steps x).1 = .result r ∧ Follows env ctx steps x r) := by
  rcases promote_cases env ctx steps x with ⟨refused, error, -⟩ | ⟨inside, known, passes⟩
  · constructor
    · exact iff_of_true error refused
    · intro inside known
      omega
  have length : (ctx.records.take ctx.start).length = ctx.start := by simp [known]
  cases answer : (promote env ctx steps x).1 with
  | error e =>
    rw [answer] at passes
    exact absurd rfl (passes.not_error e)
  | crashed c =>
    rw [answer] at passes
    obtain ⟨e, he, ends⟩ := passes.crashed
    exact absurd ends (calm e he c)
  | result r =>
    rw [answer] at passes
    constructor
    · refine iff_of_false ?_ (by omega)
      rintro ⟨e, h⟩
      cases h
    intro _ _ fit
    have walks := passes.walks rfl inside length (by
      intro none
      have := List.drop_eq_nil_iff.mp none
      exact List.getElem?_eq_none (by omega))
    refine ⟨r, rfl, ?_, walks, isNoted_engagements env ctx steps x, passes.engages rfl,
      passes.reached.2, ?_⟩
    · intro i hi
      obtain ⟨later, hlater⟩ := passes.prefix_records
      have earlier : i < (ctx.records.take ctx.start).length := by omega
      rw [← hlater]
      exact (List.getElem?_append_left earlier).trans (List.getElem?_take_of_lt hi)
    · intro e he
      obtain ⟨step, record, state, o, -, -, tried, left⟩ := passes.tried rfl length he
      exact ⟨o.record, left, tried.startedAt⟩

/-- Also a count of errors that cannot grow leads to a result: it starts again. -/
example :
    let step : Step := ⟨"http", "ask", none, false, none, [], none⟩
    let record : StepRecord := ⟨"ask", .running, some ⟨0, 0⟩, none, 4294967295, none⟩
    (match (promote (prompting "http") { (default : PromotionContext) with records := [record] }
        [step] ⟨[.failed (.transient "down")], []⟩).1 with
      | .result r => some (r.phase, r.records.map StepRecord.errorCount)
      | _ => none) = some (.running, [0]) := by
  decide +kernel

/-- A step that was done by an earlier call, one that is taken up again, one whose guard says
that it is not to run, one that may fail, and one that is not done yet. -/
def tour : List Step :=
  [⟨"http", "fetch", none, false, none, [], none⟩,
    ⟨"http", "build", some "true", false, none, [], none⟩,
    ⟨"http", "sign", some "false", false, none, [], none⟩,
    ⟨"http", "lint", none, true, none, [], none⟩,
    ⟨"http", "ship", none, false, none, [], none⟩]

def touring : PromotionContext :=
  { (default : PromotionContext) with
    start := 1
    records := [⟨"fetch", .succeeded, some ⟨0, 0⟩, some ⟨1, 0⟩, 0, none⟩,
      ⟨"build", .running, some ⟨1, 0⟩, none, 1, none⟩] }

def tourGuide : Prompter :=
  ⟨[.reported .succeeded, .failed (.terminal "no"), .reported (.running "shipping")], []⟩

theorem follows_promote_of_tour : ∃ r,
    (promote (prompting "http") touring tour tourGuide).1 = .result r ∧
      Follows (prompting "http") touring tour tourGuide r ∧
      r.phase = .running ∧ r.currentStep = 4 := by
  have attempts : (engagements (prompting "http") touring tour tourGuide).map (·.2.attempt) =
      tourGuide.answers := by decide +kernel
  have calm : ∀ e ∈ engagements (prompting "http") touring tour tourGuide,
      ∀ c, e.2.attempt ≠ .crashed c := by
    intro e he c ends
    have := List.mem_map_of_mem (f := fun e => e.2.attempt) he
    rw [attempts, ends] at this
    simp [tourGuide] at this
  obtain ⟨-, follows⟩ := follows_promote (prompting "http") touring tour tourGuide calm
  obtain ⟨r, answer, follows⟩ := follows (by decide) (by decide) (by decide)
  have ends : (match (promote (prompting "http") touring tour tourGuide).1 with
      | .result r => some (r.phase, r.currentStep)
      | _ => none) = some (.running, 4) := by decide +kernel
  rw [answer] at ends
  obtain ⟨phase, step⟩ := Prod.mk.inj (Option.some.inj ends)
  exact ⟨r, answer, follows, phase, step⟩

end Drayage.Sequential
