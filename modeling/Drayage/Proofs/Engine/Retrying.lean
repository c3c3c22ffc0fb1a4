import Drayage.Proofs.Engine.Stepping

/-!
# How the errors of a step add up

A step that reports errors that may pass is attempted again until there have been as many of
them as it may have. All errors that it has reported since the Promotion began count for this,
also those after which it went on for a while.
-/

namespace Drayage

/-- The attempt has failed with an error that may pass. -/
def Attempt.isTransient : Attempt → Bool
  | .failed e => !e.isTerminal
  | .reported _ | .crashed _ => false

theorem RetryPolicy.threshold_ne_zero (policy : RetryPolicy) : policy.threshold ≠ 0 := by
  unfold RetryPolicy.threshold
  split <;> simp_all

theorem Step.threshold_pos (step : Step) : 0 < step.threshold := by
  unfold Step.threshold
  cases step.retry with
  | none => decide
  | some policy =>
    exact Nat.pos_of_ne_zero fun zero => policy.threshold_ne_zero (UInt32.toNat_inj.mp zero)

theorem Step.threshold_lt (step : Step) : step.threshold < UInt32.size := UInt32.toNat_lt _

/-- Where there may be an error more, it can be counted in 32 bits. -/
theorem Step.toNat_count_succ {step : Step} {count : UInt32} (few : count.toNat < step.threshold) :
    (count + 1).toNat = count.toNat + 1 := by
  rw [UInt32.toNat_add]
  exact Nat.mod_eq_of_lt (Nat.lt_of_le_of_lt few step.threshold_lt)

namespace Sequential

/-- How many of the attempts have failed with an error that may pass. -/
def errors (as : List Attempt) : Nat := as.countP Attempt.isTransient

/-- The last `n` attempts have all failed with errors that may pass. -/
def EndsInErrors (n : Nat) (as : List Attempt) : Prop :=
  n ≤ as.length ∧ ∀ a ∈ as.drop (as.length - n), a.isTransient = true

instance (n : Nat) (as : List Attempt) : Decidable (EndsInErrors n as) :=
  inferInstanceAs (Decidable (_ ∧ _))

/-- After an error that may pass come such errors only. -/
def ErrorsLast (as : List Attempt) : Prop :=
  as.Pairwise fun a b => a.isTransient = true → b.isTransient = true

section Attempts

variable {as bs : List Attempt} {a : Attempt}

theorem errors_append : errors (as ++ bs) = errors as + errors bs := List.countP_append

theorem errors_eq_length : errors as = as.length ↔ ∀ a ∈ as, a.isTransient = true :=
  List.countP_eq_length

/-- The attempts end in as many errors as there are exactly if all of them come last. -/
theorem endsInErrors_iff_errorsLast : EndsInErrors (errors as) as ↔ ErrorsLast as := by
  constructor
  · rintro ⟨fits, last⟩
    -- all errors are among the last attempts, so there is none among the others
    have split := List.take_append_drop (as.length - errors as) as
    have none : errors (as.take (as.length - errors as)) = 0 := by
      have total := congrArg errors split
      rw [errors_append, errors_eq_length.mpr last, List.length_drop] at total
      omega
    unfold ErrorsLast
    rw [← split, List.pairwise_append]
    refine ⟨?_, ?_, fun _ _ b hb _ => last b hb⟩
    · apply List.pairwise_of_forall_mem_list
      intro a ha b _ error
      exact absurd error (List.countP_eq_zero.mp none a ha)
    · apply List.pairwise_of_forall_mem_list
      intro _ _ b hb _
      exact last b hb
  · intro last
    induction as with
    | nil => exact ⟨Nat.le_refl _, by simp⟩
    | cons a as ih =>
      obtain ⟨after, last⟩ := List.pairwise_cons.mp last
      obtain ⟨fits, last⟩ := ih last
      by_cases error : a.isTransient = true
      · have all : ∀ b ∈ a :: as, b.isTransient = true :=
          List.forall_mem_cons.mpr ⟨error, fun b hb => after b hb error⟩
        rw [errors_eq_length.mpr all]
        exact ⟨Nat.le_refl _, by simpa using all⟩
      · have same : errors (a :: as) = errors as := List.countP_cons_of_neg error
        have later : (a :: as).length - errors as = (as.length - errors as) + 1 := by
          rw [List.length_cons]
          omega
        rw [same]
        refine ⟨Nat.le_succ_of_le fits, ?_⟩
        rw [later, List.drop_succ_cons]
        exact last

end Attempts

variable {σ : Type}

/-- The attempts for which the runner of the step at `i` was called. -/
def attemptsAt (i : Nat) (es : List (Nat × RunnerCall)) : List Attempt :=
  (es.filter (·.1 = i)).map (·.2.attempt)

/-- The record from which a call goes on with the step at `i`, if that was attempted before. -/
def recordAt (ctx : PromotionContext) (i : Nat) : Option StepRecord :=
  if i = ctx.start then ctx.records[ctx.start]? else none

/-- Calls one after another, each from the result of the one before as long as that is running:
the calls of runners that they make, and what the next of them is given. What happens to the
world in between is left open. -/
inductive Resumed (env : Setting σ) (steps : List Step) (ctx : PromotionContext) :
    List (Nat × RunnerCall) → PromotionContext → Prop where
  | first : Resumed env steps ctx [] ctx
  | next {es : List (Nat × RunnerCall)} {c c' : PromotionContext} {x : σ} {r : EngineResult}
      (h : Resumed env steps ctx es c) (answer : (promote env c steps x).1 = .result r)
      (running : r.phase = .running) (start : c'.start = r.currentStep)
      (records : c'.records = r.records) :
      Resumed env steps ctx (es ++ engagements env c steps x) c'

/-- A step that may be attempted again, after these attempts and with this record. -/
structure Awaits (step : Step) (record : Option StepRecord) (as : List Attempt) : Prop where
  count : ((record.map StepRecord.errorCount).getD 0).toNat = errors as
  few : errors as < step.threshold

/-- What has become of a step after these attempts, of which the last was an error. -/
structure CountedOut (step : Step) (as : List Attempt) (record : StepRecord) : Prop where
  count : record.errorCount.toNat = errors as
  /-- It is the number of all errors that counts. -/
  ended_iff : record.status = .errored ↔ errors as = step.threshold
  inRow_iff : record.status = .errored → (EndsInErrors step.threshold as ↔ ErrorsLast as)

variable {env : Setting σ} {ctx c : PromotionContext} {steps rest : List Step} {step : Step}
  {record : StepRecord} {state : SharedState} {resumed : Option StepRecord} {p : Progress}
  {index i : Nat} {es es' : List (Nat × RunnerCall)} {call : RunnerCall} {r : EngineResult}
  {o : StepOutcome} {as : List Attempt} {x : σ}

theorem attemptsAt_append :
    attemptsAt i (es ++ es') = attemptsAt i es ++ attemptsAt i es' := by
  simp [attemptsAt]

theorem attemptsAt_eq_nil (h : ∀ e ∈ es, e.1 ≠ i) : attemptsAt i es = [] := by
  simpa [attemptsAt] using h

/-- A call of the engine attempts a step once at most. -/
theorem attemptsAt_of_mem (ordered : es.Pairwise (·.1 < ·.1)) (h : (i, call) ∈ es) :
    attemptsAt i es = [call.attempt] := by
  induction es with
  | nil => cases h
  | cons e es ih =>
    obtain ⟨before, ordered⟩ := List.pairwise_cons.mp ordered
    rcases List.mem_cons.mp h with rfl | h
    · have others : attemptsAt i es = [] := attemptsAt_eq_nil fun e he => Nat.ne_of_gt (before e he)
      simpa [attemptsAt] using others
    · have other : e.1 ≠ i := Nat.ne_of_lt (before _ h)
      simpa [attemptsAt, other] using ih ordered h

theorem Opens.errorCount (h : Opens step resumed record) :
    record.errorCount = (resumed.map StepRecord.errorCount).getD 0 := by
  cases h <;> rfl

/-- A step that is running after an attempt may be attempted again. -/
theorem Awaits.again (h : Awaits step resumed as) (opens : Opens step resumed record)
    (tried : Tried env ctx step record state (some call) (.ok o))
    (running : o.record.status = .running) :
    Awaits step (some o.record) (as ++ [call.attempt]) := by
  obtain ⟨count, few⟩ := h
  rw [← opens.errorCount] at count
  cases tried with
  | concluded makes ends concludes =>
    rw [ends]
    cases concludes with
    | completed report now status => rcases status with status | status <;> simp [status] at running
    | waiting report status =>
      have same : errors (as ++ [.of (.ok report)]) = errors as := by
        simp [errors, Attempt.of, Attempt.isTransient]
      exact ⟨count.trans same.symm, same ▸ few⟩
    | ended report message now status =>
      have stopped : report.status = .running := running
      simp [stopped] at status
    | retrying e temporary fewer =>
      have more : errors (as ++ [.of (.error e)]) = errors as + 1 := by
        simp [errors, Attempt.of, Attempt.isTransient, temporary]
      have counted : (record.errorCount + 1).toNat = errors (as ++ [.of (.error e)]) := by
        rw [more, ← count]
        exact Step.toNat_count_succ (count ▸ few)
      exact ⟨counted, counted ▸ fewer⟩
    | errored e now final => cases running

/-- What becomes of a step with an error that may pass depends on how many there were before. -/
theorem Awaits.countedOut (h : Awaits step resumed as) (opens : Opens step resumed record)
    (tried : Tried env ctx step record state (some call) (.ok o))
    (error : call.attempt.isTransient = true) :
    CountedOut step (as ++ [call.attempt]) o.record := by
  obtain ⟨count, few⟩ := h
  rw [← opens.errorCount] at count
  have more : errors (as ++ [call.attempt]) = errors as + 1 := by simp [errors, error]
  have next : (record.errorCount + 1).toNat = errors as + 1 :=
    count ▸ Step.toNat_count_succ (count ▸ few)
  have counted : o.record.errorCount.toNat = errors (as ++ [call.attempt]) ∧
      (o.record.status = .errored ↔ errors (as ++ [call.attempt]) = step.threshold) := by
    rw [more, ← next]
    cases tried with
    | concluded makes ends concludes =>
      rw [ends] at error
      cases concludes with
      | completed | waiting | ended => cases error
      | retrying e temporary fewer =>
        refine ⟨rfl, iff_of_false (by intro h; cases h) ?_⟩
        exact Nat.ne_of_lt fewer
      | errored e now final =>
        refine ⟨rfl, iff_of_true rfl ?_⟩
        have temporary : e.isTerminal = false := by
          simpa [Attempt.of, Attempt.isTransient] using error
        have enough : step.threshold ≤ (record.errorCount + 1).toNat := by
          rcases final with terminal | enough
          · rw [temporary] at terminal
            cases terminal
          · exact enough
        omega
  refine ⟨counted.1, counted.2, ?_⟩
  intro ended
  rw [← counted.2.mp ended]
  exact endsInErrors_iff_errorsLast

/-- A call that leaves the Promotion running has attempted the step at which it ends. -/
theorem Passes.paused (h : Passes env ctx index rest resumed p es (.result r))
    (length : p.records.length = index) (running : r.phase = .running) :
    ∃ call last, (r.currentStep, call) ∈ es ∧ r.records[r.currentStep]? = some last ∧
      last.status = .running := by
  generalize ha : EngineAnswer.result r = a at h
  induction h with
  | finish =>
    cases ha
    cases running
  | crash => cases ha
  | pause opens tried verdict =>
    cases ha
    have status := tried.left.status_of_pause verdict
    cases tried with
    | settled settles =>
      cases settles with
      | skipped => cases verdict
      | errored => exact absurd verdict (halted_final _)
    | @concluded call =>
      exact ⟨call, _, mem_placed.mpr ⟨rfl, rfl⟩, getElem?_result_add length, status⟩
  | @halt _ _ _ _ _ _ _ _ phase _ opens tried verdict =>
    cases ha
    have bad := tried.left.phase_of_halt verdict
    have phase : phase = .running := running
    simp [phase] at bad
  | next opens tried verdict passes ih =>
    obtain ⟨call, last, he, found, status⟩ := ih (by simp [Progress.add, length]) ha
    exact ⟨call, last, List.mem_append_right _ he, found, status⟩

/-- However often a Promotion was resumed, the record of a step that is to be attempted counts
all of its errors. -/
theorem Resumed.awaits (h : Resumed env steps ctx es c) (here : steps[i]? = some step)
    (fresh : ctx.start = i → ctx.records[i]? = none) (inside : c.start ≤ i) :
    Awaits step (recordAt c i) (attemptsAt i es) := by
  have untried : Awaits step none [] := ⟨rfl, step.threshold_pos⟩
  induction h with
  | first =>
    have unrecorded : recordAt ctx i = none := by
      unfold recordAt
      split
      · rename_i start
        exact start ▸ fresh start.symm
      · rfl
    rw [unrecorded]
    exact untried
  | @next es c c' x r h answer running start records ih =>
    obtain ⟨length, passes⟩ := passes_of_result answer
    obtain ⟨within, reached⟩ := passes.reached
    have engages : Engages env steps c.start (engagements env c steps x) := passes.engages rfl
    rw [start] at inside
    have before := ih (Nat.le_trans within inside)
    rw [attemptsAt_append]
    unfold recordAt
    rcases Nat.eq_or_lt_of_le inside with rfl | beyond
    -- the call has stopped at this step
    · obtain ⟨call, last, he, found, status⟩ := passes.paused length running
      obtain ⟨step', record, state, o, here', opens, tried, left⟩ := passes.tried rfl length he
      obtain rfl : step = step' := Option.some.inj (here.symm.trans here')
      obtain rfl : last = o.record := Option.some.inj (found.symm.trans left)
      rw [start, if_pos rfl, records, found, attemptsAt_of_mem engages.ordered he]
      exact before.again opens tried status
    -- the call has not come to this step
    · have unreached : attemptsAt i (engagements env c steps x) = [] :=
        attemptsAt_eq_nil fun e he => Nat.ne_of_lt (Nat.lt_of_le_of_lt (reached e he) beyond)
      have later : recordAt c i = none := if_neg (Nat.ne_of_gt (Nat.lt_of_le_of_lt within beyond))
      rw [unreached, List.append_nil, start, if_neg (Nat.ne_of_gt beyond), ← later]
      exact before

/-- A step errs for good with the error that makes up its threshold, counting those of all its
attempts in a Promotion that is resumed again and again. These errors were its last attempts
exactly if none of its attempts went well after the first of them. -/
theorem countedOut_of_resumed (h : Resumed env steps ctx es c) (here : steps[i]? = some step)
    (fresh : ctx.start = i → ctx.records[i]? = none)
    (answer : (promote env c steps x).1 = .result r) (he : (i, call) ∈ engagements env c steps x)
    (error : call.attempt.isTransient = true) :
    ∃ record, r.records[i]? = some record ∧
      CountedOut step (attemptsAt i (es ++ engagements env c steps x)) record := by
  obtain ⟨length, passes⟩ := passes_of_result answer
  have engages : Engages env steps c.start (engagements env c steps x) := passes.engages rfl
  have awaits := h.awaits here fresh (engages.behind _ he)
  obtain ⟨step', record, state, o, here', opens, tried, left⟩ := passes.tried rfl length he
  obtain rfl : step = step' := Option.some.inj (here.symm.trans here')
  refine ⟨o.record, left, ?_⟩
  rw [attemptsAt_append, attemptsAt_of_mem engages.ordered he]
  exact awaits.countedOut opens tried error

/-- A step that may report two errors. -/
def flaky : Step := ⟨"http", "ask", none, false, some ⟨none, some 2⟩, [], none⟩

def down : Attempt := .failed (.transient "down")

def busy : Attempt := .reported (.running "busy")

/-- A call that calls one runner. -/
def polling (answer : Attempt) : Prompter := ⟨[answer], []⟩

/-- What a call is given after one that has left the step running. -/
def polled (errorCount : UInt32) (message : String) : PromotionContext :=
  { (default : PromotionContext) with
    records := [⟨"ask", .running, some ⟨0, 0⟩, none, errorCount, some message⟩] }

/-- The attempts of the step when its runner is down, then busy, then down again. -/
def interrupted : List (Nat × RunnerCall) :=
  [] ++ engagements (prompting "http") default [flaky] (polling down) ++
    engagements (prompting "http") (polled 1 "down") [flaky] (polling busy)

theorem resumed_interrupted :
    Resumed (prompting "http") [flaky] default interrupted (polled 1 "busy") := by
  have first : (promote (prompting "http") default [flaky] (polling down)).1 =
      .result ⟨.running, some "down", 0, (polled 1 "down").records, ∅, []⟩ := by decide +kernel
  have second : (promote (prompting "http") (polled 1 "down") [flaky] (polling busy)).1 =
      .result ⟨.running, some "busy", 0, (polled 1 "busy").records, ∅, []⟩ := by decide +kernel
  exact (Resumed.first.next first rfl rfl rfl).next second rfl rfl rfl

/-- What the step has come to when its runner is down again. -/
def failing : EngineResult :=
  ⟨.errored, some "step \"ask\" errored: down", 0,
    [⟨"ask", .errored, some ⟨0, 0⟩, some ⟨0, 0⟩, 2, some "down"⟩], ∅, []⟩

theorem promote_interrupted :
    (promote (prompting "http") (polled 1 "busy") [flaky] (polling down)).1 = .result failing := by
  decide +kernel

theorem countedOut_of_interrupted : ∃ record, failing.records[0]? = some record ∧
    CountedOut flaky (attemptsAt 0 (interrupted ++
      engagements (prompting "http") (polled 1 "busy") [flaky] (polling down))) record := by
  have last : (engagements (prompting "http") (polled 1 "busy") [flaky] (polling down)).map
      (fun e => (e.1, e.2.attempt)) = [(0, down)] := by decide +kernel
  obtain ⟨⟨i, call⟩, he, same⟩ := List.mem_map.mp (last ▸ List.mem_singleton.mpr rfl)
  obtain ⟨rfl, error⟩ := Prod.mk.inj same
  have error : call.attempt = down := error
  exact countedOut_of_resumed resumed_interrupted rfl (fun _ => rfl) promote_interrupted he
    (error ▸ rfl)

/-- A step errs though only one of its last two attempts was an error, and it may have two. -/
theorem errored_of_interrupted : ∃ es c r record,
    Resumed (prompting "http") [flaky] default es c ∧
      (promote (prompting "http") c [flaky] (polling down)).1 = .result r ∧
      r.records[0]? = some record ∧ record.status = .errored ∧
      attemptsAt 0 (es ++ engagements (prompting "http") c [flaky] (polling down)) =
        [down, busy, down] ∧
      flaky.threshold = 2 ∧ ¬ EndsInErrors 2 [down, busy, down] :=
  ⟨interrupted, polled 1 "busy", failing, _, resumed_interrupted, promote_interrupted, rfl, rfl,
    by decide +kernel, rfl, by decide⟩

end Sequential

end Drayage
