import Drayage.Proofs.Engine.Sequential
import Mathlib.Logic.Relation

/-!
# Runners that follow a script

A script tells how the attempts at a step end: some of them find that it is not done yet,
and the last one ends it. What the engine makes of such an attempt depends on the script
and on the name and the errors of the step alone, apart from times.
-/

namespace Drayage

/-- A record without its times. -/
def StepRecord.untimed (r : StepRecord) : StepRecord :=
  { r with startedAt := none, finishedAt := none }

/-- What an attempt takes over from a record: the name of the step and its errors. -/
def StepRecord.heading (r : StepRecord) : String × UInt32 := (r.name, r.errorCount)

def Attempt.of : Except StepError StepReport → Attempt
  | .ok report => .reported report
  | .error e => .failed e

/-- A step does not need another attempt after it. -/
def Conclusive : Except StepError StepReport → Prop
  | .ok report => report.status.isTerminal = true
  | .error e => e.isTerminal = true

/-- How the attempts at a step end. -/
structure Script where
  pauses : List StepReport
  final : Except StepError StepReport
  waits : ∀ report ∈ pauses, report.status.isTerminal = false
  ends : Conclusive final

namespace Script

def attempts (s : Script) : List Attempt := s.pauses.map .reported ++ [.of s.final]

/-- A step that ends at the first attempt. -/
def once (final : Except StepError StepReport) (ends : Conclusive final) : Script :=
  ⟨[], final, List.forall_mem_nil _, ends⟩

/-- The script without its pauses. -/
def straight (s : Script) : Script := .once s.final s.ends

end Script

/-- A call of the runner of a kind for the step of a name, and how it ends. -/
structure Scene where
  kind : String
  name : String
  attempt : Attempt

def Scene.call (s : Scene) : String × String := (s.kind, s.name)

namespace Sequential

variable {σ : Type}

/-- Whether a runner is called for a step. -/
def runs (reg : Registry σ) (step : Step) : Bool :=
  match Step.evaluateGuard step.guard with
  | .ok true => reg.contains step.kind
  | .ok false | .error _ => false

/-- The calls for steps one after another, if they follow their scripts to the end. -/
def scenes (reg : Registry σ) (plan : List (Step × Script)) : List Scene :=
  plan.flatMap fun (step, script) =>
    if runs reg step then script.attempts.map (⟨step.kind, step.name, ·⟩) else []

def straight (plan : List (Step × Script)) : List (Step × Script) :=
  plan.map fun (step, script) => (step, script.straight)

/-- Looking at the clock. -/
def Ticks (env : Setting σ) (x x' : σ) : Prop := (env.clock x).2 = x'

/-- The runners that are called in this order answer so, however often the clock is looked
at in between. -/
def Plays (env : Setting σ) : List Scene → σ → Prop
  | [], _ => True
  | s :: rest, x => ∀ x', Relation.ReflTransGen (Ticks env) x x' →
      ∀ runner c, env.registry.get? s.kind = some runner → c.name = s.name →
        (runner.run c x').1 = s.attempt ∧ Plays env rest (runner.run c x').2

/-- A log has an entry for every call of a runner: its kind and the name of the step. -/
structure Notes (env : Setting σ) (log : σ → List (String × String)) : Prop where
  clock : ∀ x, log (env.clock x).2 = log x
  runner : ∀ kind runner c x, env.registry.get? kind = some runner →
    log (runner.run c x).2 = log x ++ [(kind, c.name)]

/-- If the step is to run, it has not taken as long as it may yet. -/
def InTime (env : Setting σ) (step : Step) : StepRecord × σ → Prop
  | (record, x) => runs env.registry step = true →
      ∀ runner timeout, env.registry.get? step.kind = some runner →
        step.timeout runner.defaultTimeout = some timeout →
        timedOut (env.clock x).1 (record.startedAt.getD (env.clock x).1) timeout = false

/-- An attempt at a step, with the record of an earlier one if there was one. -/
def attempt (env : Setting σ) (ctx : PromotionContext) (step : Step)
    (resumed : Option StepRecord) (state : SharedState) : StateM σ (Except Crash StepOutcome) :=
  fun x => runStep env ctx step (opening env step resumed x).1 state (opening env step resumed x).2

/-- What an attempt takes over, if there may have been one before. -/
def heading (step : Step) (resumed : Option StepRecord) : String × UInt32 :=
  (resumed.map StepRecord.heading).getD (step.name, 0)

def StepOutcome.untimed (o : StepOutcome) : StepOutcome := { o with record := o.record.untimed }

theorem advance_eq_goOn (env : Setting σ) (ctx : PromotionContext) (index : Nat) (step : Step)
    (rest : List Step) (resumed : Option StepRecord) (p : Progress) (x : σ) :
    advance env ctx index (step :: rest) resumed p x =
      goOn env ctx index step rest p (attempt env ctx step resumed p.state x) :=
  advance_cons env ctx index step rest resumed p x

theorem straight_cons (step : Step) (script : Script) (plan : List (Step × Script)) :
    straight ((step, script) :: plan) = (step, script.straight) :: straight plan := rfl

section Scenes

variable {reg : Registry σ} {step : Step} {script : Script} {plan : List (Step × Script)}

theorem scenes_idle (h : runs reg step = false) :
    scenes reg ((step, script) :: plan) = scenes reg plan := by
  simp [scenes, h]

theorem scenes_called (h : runs reg step = true) :
    scenes reg ((step, script) :: plan) =
      script.attempts.map (⟨step.kind, step.name, ·⟩) ++ scenes reg plan := by
  simp [scenes, h]

theorem scenes_append (plan' : List (Step × Script)) :
    scenes reg (plan ++ plan') = scenes reg plan ++ scenes reg plan' := List.flatMap_append

end Scenes

section World

variable {env : Setting σ} {log : σ → List (String × String)} {ss : List Scene} {x x' : σ}

theorem Plays.ticks (h : Plays env ss x) (ticks : Relation.ReflTransGen (Ticks env) x x') :
    Plays env ss x' := by
  cases ss with
  | nil => trivial
  | cons s rest => exact fun x'' later => h x'' (ticks.trans later)

theorem Notes.ticks (h : Notes env log) (ticks : Relation.ReflTransGen (Ticks env) x x') :
    log x' = log x := by
  induction ticks with
  | refl => rfl
  | tail _ tick ih =>
    cases tick
    rw [h.clock, ih]

theorem ticks_opening (env : Setting σ) (step : Step) (resumed : Option StepRecord) (x : σ) :
    Relation.ReflTransGen (Ticks env) x (opening env step resumed x).2 := by
  cases resumed with
  | none => exact .single rfl
  | some record => exact .refl

end World

section Attempts

variable {env : Setting σ} {log : σ → List (String × String)} {step : Step}
  {resumed : Option StepRecord}

theorem heading_opening (env : Setting σ) (step : Step) (resumed : Option StepRecord) (x : σ) :
    (opening env step resumed x).1.heading = heading step resumed := by
  cases resumed <;> rfl

theorem concluded_waiting {record : StepRecord} {report : StepReport} (now : Instant)
    (h : report.status.isTerminal = false) :
    concluded step record now (.ok report) = paused record report.message := by
  obtain ⟨status, output, message, check⟩ := report
  cases status <;> first | rfl | cases h

/-- A step that ends badly keeps nothing of its record but the heading. -/
theorem untimed_halted {a b : StepRecord} (same : a.heading = b.heading) (status : StepStatus)
    (message : String) (now now' : Instant) :
    (halted step a status message now).untimed = (halted step b status message now').untimed := by
  obtain ⟨names, errors⟩ := Prod.mk.inj same
  simp [halted, StepOutcome.untimed, StepRecord.untimed, names, errors]

theorem halted_final {record : StepRecord} {status : StepStatus} {reason : String}
    {now : Instant} (message : Option String) :
    (halted step record status reason now).verdict ≠ .pause message := by
  unfold halted
  dsimp only
  split <;> intro h <;> cases h

theorem untimed_concluded {f : Except StepError StepReport} (h : Conclusive f)
    {a b : StepRecord} (same : a.heading = b.heading) (now now' : Instant) :
    (concluded step a now f).untimed = (concluded step b now' f).untimed := by
  obtain ⟨names, errors⟩ := Prod.mk.inj same
  cases f with
  | ok report =>
    obtain ⟨status, output, message, check⟩ := report
    cases status with
    | pending | running => cases h
    | succeeded | skipped =>
      simp [concluded, StepOutcome.untimed, StepRecord.untimed, names, errors]
    | failed | errored | aborted => exact untimed_halted same _ _ now now'
  | error e =>
    have terminal : e.isTerminal = true := h
    unfold concluded
    simp only [terminal, Bool.true_or, if_true]
    have heads : StepRecord.heading { a with errorCount := a.errorCount + 1 } =
        StepRecord.heading { b with errorCount := b.errorCount + 1 } := by
      simp [StepRecord.heading, names, errors]
    exact untimed_halted heads .errored e.message now now'

theorem concluded_final {f : Except StepError StepReport} (h : Conclusive f)
    {record : StepRecord} {now : Instant} (message : Option String) :
    (concluded step record now f).verdict ≠ .pause message := by
  cases f with
  | ok report =>
    obtain ⟨status, output, reason, check⟩ := report
    cases status with
    | pending | running => cases h
    | succeeded | skipped => exact fun h => nomatch h
    | failed | errored | aborted => exact halted_final message
  | error e =>
    have terminal : e.isTerminal = true := h
    unfold concluded
    simp only [terminal, Bool.true_or, if_true]
    exact halted_final message

theorem runs_iff (reg : Registry σ) (step : Step) : runs reg step = true ↔
    Step.evaluateGuard step.guard = .ok true ∧ ∃ runner, reg.get? step.kind = some runner := by
  unfold runs
  cases Step.evaluateGuard step.guard with
  | error message => simp
  | ok goes =>
    cases goes with
    | false => simp
    | true => simp [Dict.contains, Option.isSome_iff_exists]

theorem prepare_ready {reg : Registry σ} {runner : Runner σ}
    (goes : Step.evaluateGuard step.guard = .ok true) (known : reg.get? step.kind = some runner)
    {now startedAt : Instant}
    (inTime : ∀ timeout, step.timeout runner.defaultTimeout = some timeout →
      timedOut now startedAt timeout = false) :
    prepare reg step now startedAt = .ready runner := by
  rw [prepare_known goes known]
  cases timeout : step.timeout runner.defaultTimeout with
  | none => rfl
  | some t => exact if_neg (Bool.eq_false_iff.mp (inTime t timeout))

/-- What is decided about a step without a runner depends on no time. -/
theorem prepare_idle {reg : Registry σ} (idle : runs reg step = false) :
    (∀ now startedAt, prepare reg step now startedAt = .skip) ∨
      ∃ message, ∀ now startedAt, prepare reg step now startedAt = .halt message := by
  cases goes : Step.evaluateGuard step.guard with
  | error message => exact .inr ⟨message, fun now startedAt => by simp [prepare, goes]⟩
  | ok flag =>
    cases flag with
    | false => exact .inl fun now startedAt => by simp [prepare, goes]
    | true =>
      cases known : reg.get? step.kind with
      | none =>
        refine .inr ⟨"no runner registered for step kind " ++ Text.quoted step.kind, ?_⟩
        exact fun now startedAt => by simp [prepare, goes, known]
      | some runner =>
        have ready := (runs_iff reg step).mpr ⟨goes, runner, known⟩
        rw [idle] at ready
        cases ready

/-- An attempt that calls the runner ends as the script has it. -/
theorem attempt_called (notes : Notes env log) (called : runs env.registry step = true)
    {x : σ} (inTime : InTime env step (opening env step resumed x))
    {f : Except StepError StepReport} {ss : List Scene}
    (plays : Plays env (⟨step.kind, step.name, .of f⟩ :: ss) x)
    (ctx : PromotionContext) (state : SharedState) :
    ∃ record now x',
      attempt env ctx step resumed state x = (.ok (concluded step record now f), x') ∧
      record.heading = heading step resumed ∧ Plays env ss x' ∧
      log x' = log x ++ [(step.kind, step.name)] := by
  have opened := ticks_opening env step resumed x
  have head := heading_opening env step resumed x
  unfold attempt runStep
  generalize opening env step resumed x = o at inTime opened head ⊢
  obtain ⟨record, x₁⟩ := o
  have looked : Relation.ReflTransGen (Ticks env) x (env.clock x₁).2 := opened.tail rfl
  have inTime := inTime called
  obtain ⟨goes, runner, known⟩ := (runs_iff env.registry step).mp called
  have ready := prepare_ready goes known fun timeout => inTime runner timeout known
  dsimp only [bind, StateT.bind]
  generalize env.clock x₁ = read at looked ready ⊢
  obtain ⟨now, x₂⟩ := read
  dsimp only at looked ready ⊢
  rw [ready]
  dsimp only [StateT.bind]
  generalize hc : stepContext env.credentials ctx step _ _ state = c
  obtain ⟨answers, after⟩ := plays x₂ looked runner c known (hc ▸ rfl)
  have noted := notes.runner step.kind runner c x₂ known
  rw [notes.ticks looked] at noted
  generalize runner.run c x₂ = ran at answers after noted ⊢
  obtain ⟨ending, x₃⟩ := ran
  dsimp only at answers after noted ⊢
  have later : log (env.clock x₃).2 = log x ++ [(step.kind, step.name)] := by
    rw [notes.clock, noted, ← hc]
    rfl
  cases answers
  cases f with
  | ok report => exact ⟨_, _, _, rfl, head, after.ticks (.single rfl), later⟩
  | error e => exact ⟨_, _, _, rfl, head, after.ticks (.single rfl), later⟩

/-- An attempt that calls no runner ends the step, and takes nothing but time. -/
theorem attempt_idle (idle : runs env.registry step = false) (ctx ctx' : PromotionContext)
    (resumed : Option StepRecord) (state state' : SharedState) (x y : σ) :
    ∃ o o' x' y', attempt env ctx step resumed state x = (.ok o, x') ∧
      attempt env ctx' step resumed state' y = (.ok o', y') ∧ o.untimed = o'.untimed ∧
      (∀ message, o.verdict ≠ .pause message) ∧
      Relation.ReflTransGen (Ticks env) x x' ∧ Relation.ReflTransGen (Ticks env) y y' := by
  have same : (opening env step resumed x).1.untimed = (opening env step resumed y).1.untimed := by
    cases resumed <;> rfl
  -- what is decided depends on the records alone, and these differ in their times at most
  have openedX := ticks_opening env step resumed x
  have openedY := ticks_opening env step resumed y
  unfold attempt runStep
  generalize opening env step resumed x = r at same openedX ⊢
  generalize opening env step resumed y = r' at same openedY ⊢
  obtain ⟨record, x₁⟩ := r
  obtain ⟨record', y₁⟩ := r'
  have lookedX : Relation.ReflTransGen (Ticks env) x (env.clock x₁).2 := openedX.tail rfl
  have lookedY : Relation.ReflTransGen (Ticks env) y (env.clock y₁).2 := openedY.tail rfl
  dsimp only [bind, StateT.bind]
  generalize env.clock x₁ = read at lookedX ⊢
  generalize env.clock y₁ = read' at lookedY ⊢
  obtain ⟨now, x₂⟩ := read
  obtain ⟨now', y₂⟩ := read'
  dsimp only
  rcases prepare_idle idle with skip | ⟨message, halt⟩
  · rw [skip, skip]
    refine ⟨_, _, x₂, y₂, rfl, rfl, ?_, fun _ h => (nomatch h), lookedX, lookedY⟩
    exact congrArg (fun r : StepRecord =>
      StepOutcome.mk { r with status := .skipped } .next none none) same
  · rw [halt, halt]
    refine ⟨_, _, (env.clock x₂).2, (env.clock y₂).2, rfl, rfl, ?_, halted_final,
      lookedX.tail rfl, lookedY.tail rfl⟩
    exact untimed_halted (congrArg StepRecord.heading same) .errored message (env.clock x₂).1
      (env.clock y₂).1

end Attempts

end Sequential

end Drayage
