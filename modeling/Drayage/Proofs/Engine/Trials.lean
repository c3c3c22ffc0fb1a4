import Drayage.Proofs.Engine.Sequential
import Mathlib.Data.List.Forall2

/-!
# The trials of steps and the checks they emit

Whenever the sequential engine attempts a step it makes a trial of it, which is noted with
the record that it left and with what the runner reported. A result of the engine has the
records of the steps that it took over, and of those that its trials completed, and it has
the checks that these trials emitted.
-/

namespace Drayage

/-- The step was carried out, or found not to be needed. -/
def StepStatus.isCompleted : StepStatus → Bool
  | .succeeded | .skipped => true
  | .pending | .running | .failed | .errored | .aborted => false

/-- The records of completed steps with their positions, if the first record is that of the
step at `index`. -/
def completions (records : List StepRecord) (index : Nat) : List (StepRecord × Nat) :=
  (records.zipIdx index).filter fun e => e.1.status.isCompleted

section completions

variable {rs ss : List StepRecord} {i : Nat}

theorem completions_append :
    completions (rs ++ ss) i = completions rs i ++ completions ss (i + rs.length) := by
  unfold completions
  rw [List.zipIdx_append, List.filter_append]

theorem completions_cons (r : StepRecord) :
    completions (r :: rs) i = completions [r] i ++ completions rs (i + 1) := by
  rw [← List.singleton_append, completions_append, List.length_singleton]

theorem completions_singleton (r : StepRecord) :
    completions [r] i = if r.status.isCompleted then [(r, i)] else [] := by
  unfold completions
  rw [List.zipIdx_singleton, List.filter_singleton]
  cases r.status.isCompleted <;> rfl

/-- A record in flight is none of a completed step. -/
theorem completions_inFlight {start : Nat} (h : InFlight start rs) :
    completions rs i = completions (rs.take start) i := by
  obtain ⟨done, last, rfl, rfl, _, running⟩ := h
  rw [completions_append, completions_singleton, running, List.take_left]
  exact List.append_nil _

/-- What becomes of a step that is not completed does not matter, unless it completes it. -/
theorem completions_modify (j : Nat) {f : StepRecord → StepRecord}
    (h : ∀ r, r.status.isCompleted = false → (f r).status.isCompleted = false)
    (same : ∀ r, r.status.isCompleted = true → f r = r) :
    completions (rs.modify j f) i = completions rs i := by
  induction rs generalizing i j with
  | nil => rw [List.modify_nil]
  | cons r rs ih =>
    cases j with
    | succ j => rw [List.modify_succ_cons, completions_cons, ih, ← completions_cons]
    | zero =>
      rw [List.modify_zero_cons, completions_cons, completions_cons r, completions_singleton,
        completions_singleton]
      cases completed : r.status.isCompleted with
      | true => rw [same r completed, completed]
      | false =>
        rw [h r completed]
        rfl

end completions

/-- A step that was attempted on behalf of a Promotion. -/
structure Trial where
  context : PromotionContext
  index : Nat
  step : Step
  /-- The record that was left, unless the engine crashed. -/
  record : Option StepRecord
  /-- What the runner reported, if one was called and did report. -/
  report : Option StepReport
  deriving DecidableEq

namespace Trial

/-- The check that was emitted. -/
def check? (t : Trial) : Option HealthCheck := t.report.bind StepReport.healthCheck

def isCompleted (t : Trial) : Bool := t.record.any (·.status.isCompleted)

/-- The trial left this record of the step at this position. -/
def Left (t : Trial) (e : StepRecord × Nat) : Prop := t.record = some e.1 ∧ t.index = e.2

end Trial

namespace Sequential

variable {σ : Type}

/-- What the runner of a step reports when the step is attempted. -/
def report? (env : Setting σ) (ctx : PromotionContext) (step : Step) (record : StepRecord)
    (state : SharedState) (x : σ) : Option StepReport :=
  let (now, x) := env.clock x
  let startedAt := record.startedAt.getD now
  let record := { record with status := .running, startedAt := some startedAt }
  match prepare env.registry step now startedAt with
  | .skip | .halt _ => none
  | .ready runner =>
    match (runner.run (stepContext env.credentials ctx step record startedAt state) x).1 with
    | .reported report => some report
    | .failed _ | .crashed _ => none

/-- The trials of the steps from `index` on. -/
def trialsFrom (env : Setting σ) (ctx : PromotionContext) :
    (index : Nat) → List Step → (resumed : Option StepRecord) → Progress → σ → List Trial
  | _, [], _, _, _ => []
  | index, step :: rest, resumed, p, x =>
    let (record, x₁) := opening env step resumed x
    let report := report? env ctx step record p.state x₁
    match runStep env ctx step record p.state x₁ with
    | (.error _, _) => [⟨ctx, index, step, none, report⟩]
    | (.ok o, x₂) =>
      ⟨ctx, index, step, some o.record, report⟩ ::
        if o.verdict = .next then trialsFrom env ctx (index + 1) rest none (p.add step o) x₂
        else []

/-- The trials of a call of the engine. -/
def trials (env : Setting σ) (ctx : PromotionContext) (steps : List Step) (x : σ) :
    List Trial :=
  if steps.length < ctx.start ∨ ctx.records.length < ctx.start then []
  else trialsFrom env ctx ctx.start (steps.drop ctx.start) ctx.records[ctx.start]?
    ⟨ctx.records.take ctx.start, ctx.state, []⟩ x

/-- A step is attempted at its position and for the Promotion of the call. -/
theorem trialsFrom_cases (env : Setting σ) (ctx : PromotionContext) (index : Nat)
    (steps : List Step) (resumed : Option StepRecord) (p : Progress) (x : σ) {t : Trial}
    (h : t ∈ trialsFrom env ctx index steps resumed p x) :
    t.context = ctx ∧ index ≤ t.index ∧ steps[t.index - index]? = some t.step := by
  induction steps generalizing index resumed p x with
  | nil => cases h
  | cons step rest ih =>
    unfold trialsFrom at h
    generalize opening env step resumed x = opened at h
    obtain ⟨record, x₁⟩ := opened
    dsimp only at h
    split at h
    · rw [List.mem_singleton.mp h]
      exact ⟨rfl, Nat.le_refl _, by rw [Nat.sub_self]; rfl⟩
    · rcases List.mem_cons.mp h with rfl | h
      · exact ⟨rfl, Nat.le_refl _, by rw [Nat.sub_self]; rfl⟩
      · split at h
        · obtain ⟨same, later, found⟩ := ih _ _ _ _ h
          refine ⟨same, Nat.le_of_succ_le later, ?_⟩
          obtain ⟨k, hk⟩ : ∃ k, t.index - index = k + 1 := ⟨t.index - index - 1, by omega⟩
          rw [hk, List.getElem?_cons_succ, ← found]
          congr 1
          omega
        · cases h

theorem trials_cases {env : Setting σ} {ctx : PromotionContext} {steps : List Step} {x : σ}
    {t : Trial} (h : t ∈ trials env ctx steps x) :
    t.context = ctx ∧ steps[t.index]? = some t.step := by
  unfold trials at h
  split at h
  · cases h
  · obtain ⟨same, later, found⟩ := trialsFrom_cases env ctx _ _ _ _ _ h
    rw [List.getElem?_drop, Nat.add_sub_cancel' later] at found
    exact ⟨same, found⟩

/-- Only a report that completes the step hands a check on. -/
theorem healthCheck_concluded (step : Step) {record : StepRecord} (h : record.status = .running)
    (now : Instant) (report : StepReport) :
    let o := concluded step record now (.ok report)
    o.healthCheck = if o.record.status.isCompleted then report.healthCheck else none := by
  obtain ⟨status, output, message, check⟩ := report
  cases status with
  | succeeded | skipped | failed | errored | aborted => rfl
  | pending | running =>
    show none = if record.status.isCompleted then check else none
    rw [h]
    rfl

theorem healthCheck_failed (step : Step) (record : StepRecord) (now : Instant)
    (e : StepError) : (concluded step record now (.error e)).healthCheck = none := by
  unfold concluded
  dsimp only
  split <;> rfl

/-- A step leaves the check that its runner reported if that completed it, and else none. -/
theorem healthCheck_runStep (env : Setting σ) (ctx : PromotionContext) (step : Step)
    (record : StepRecord) (state : SharedState) (x : σ) {o : StepOutcome} {x' : σ}
    (h : runStep env ctx step record state x = (.ok o, x')) :
    o.healthCheck = if o.record.status.isCompleted then
      (report? env ctx step record state x).bind StepReport.healthCheck else none := by
  unfold runStep at h
  unfold report?
  dsimp only [bind, StateT.bind] at h
  generalize env.clock x = read at h ⊢
  obtain ⟨now, x₁⟩ := read
  dsimp only at h ⊢
  generalize prepare _ _ _ _ = preparation at h ⊢
  cases preparation with
  | skip =>
    cases h
    exact (ite_self _).symm
  | halt message =>
    cases h
    exact (ite_self _).symm
  | ready runner =>
    dsimp only [StateT.bind] at h ⊢
    generalize runner.run _ x₁ = attempt at h ⊢
    obtain ⟨attempt, x₂⟩ := attempt
    cases attempt with
    | crashed c => cases h
    | reported report =>
      cases h
      exact healthCheck_concluded step rfl _ report
    | failed e =>
      cases h
      rw [healthCheck_failed]
      exact (ite_self _).symm

/-- The trials that left records of completed steps emitted these checks. -/
structure Credited (ts : List Trial) (records : List (StepRecord × Nat))
    (checks : List HealthCheck) : Prop where
  left : List.Forall₂ Trial.Left ts records
  emitted : checks = ts.filterMap Trial.check?

theorem Credited.append {ts us : List Trial} {rs ss : List (StepRecord × Nat)}
    {cs ds : List HealthCheck} (h : Credited ts rs cs) (h' : Credited us ss ds) :
    Credited (ts ++ us) (rs ++ ss) (cs ++ ds) where
  left := List.rel_append h.left h'.left
  emitted := by rw [List.filterMap_append, h.emitted, h'.emitted]

theorem credited_single {t : Trial} {r : StepRecord} {check : Option HealthCheck}
    (left : t.record = some r)
    (emitted : check = if r.status.isCompleted then t.check? else none) :
    Credited ([t].filter Trial.isCompleted) (completions [r] t.index) check.toList := by
  have completed : t.isCompleted = r.status.isCompleted := by
    rw [Trial.isCompleted, left]
    rfl
  rw [completions_singleton, List.filter_singleton, completed, emitted]
  cases r.status.isCompleted with
  | true =>
    refine ⟨.cons ⟨left, rfl⟩ .nil, ?_⟩
    show t.check?.toList = [t].filterMap Trial.check?
    cases check : t.check? <;> simp [check]
  | false => exact ⟨.nil, rfl⟩

theorem credited_runStep (env : Setting σ) (ctx : PromotionContext) (index : Nat) (step : Step)
    (record : StepRecord) (state : SharedState) (x : σ) {o : StepOutcome} {x' : σ}
    (h : runStep env ctx step record state x = (.ok o, x')) :
    Credited ([Trial.mk ctx index step (some o.record) (report? env ctx step record state x)].filter
      Trial.isCompleted) (completions [o.record] index) o.healthCheck.toList :=
  credited_single rfl (healthCheck_runStep env ctx step record state x h)

/-- What the first trial is credited with comes before what the others are. -/
theorem Credited.cons {t : Trial} {ts : List Trial} {r : StepRecord} {rs : List StepRecord}
    {i : Nat} {cs ds : List HealthCheck}
    (one : Credited ([t].filter Trial.isCompleted) (completions [r] i) cs)
    (others : Credited (ts.filter Trial.isCompleted) (completions rs (i + 1)) ds) :
    Credited ((t :: ts).filter Trial.isCompleted) (completions (r :: rs) i) (cs ++ ds) := by
  have both := one.append others
  rwa [← List.filter_append, ← completions_cons] at both

/-- A result has the records and the checks of the progress before, and those for which the
trials of completed steps stand. -/
theorem credited_advance (env : Setting σ) (ctx : PromotionContext) (index : Nat)
    (steps : List Step) (resumed : Option StepRecord) (p : Progress) (x : σ)
    (hresumed : steps = [] → resumed = none) {r : EngineResult}
    (h : (advance env ctx index steps resumed p x).1 = .result r) :
    ∃ records checks, r.records = p.records ++ records ∧
      r.healthChecks = p.healthChecks ++ checks ∧
      Credited ((trialsFrom env ctx index steps resumed p x).filter Trial.isCompleted)
        (completions records index) checks := by
  induction steps generalizing index resumed p x with
  | nil =>
    rw [hresumed rfl] at h
    cases h
    exact ⟨[], [], rfl, (List.append_nil _).symm, .nil, rfl⟩
  | cons step rest ih =>
    -- trials and result are read off the same attempt
    rw [advance_cons] at h
    unfold trialsFrom
    generalize opening env step resumed x = opened at h ⊢
    obtain ⟨record, x₁⟩ := opened
    dsimp only at h ⊢
    cases attempt : runStep env ctx step record p.state x₁ with
    | mk outcome x₂ =>
      rw [attempt] at h
      cases outcome with
      | error c => cases h
      | ok o =>
        have one := credited_runStep env ctx index step record p.state x₁ attempt
        unfold goOn at h
        dsimp only at h ⊢
        cases verdict : o.verdict with
        | next =>
          rw [verdict] at h
          obtain ⟨records, checks, hrecords, hchecks, credited⟩ := ih _ _ _ _ (fun _ => rfl) h
          refine ⟨o.record :: records, o.healthCheck.toList ++ checks, ?_, ?_, ?_⟩
          · rw [hrecords]
            exact List.append_assoc _ _ _
          · rw [hchecks]
            exact List.append_assoc _ _ _
          · rw [if_pos rfl]
            exact one.cons credited
        | pause | halt =>
          rw [verdict] at h
          cases h
          rw [if_neg (by intro h; cases h)]
          exact ⟨[o.record], o.healthCheck.toList, rfl, rfl, one⟩

/-- Where a Promotion can go on, a result adds what its trials completed to the completed
steps that there were, and it has exactly the checks that these trials emitted. -/
theorem credited_promote (env : Setting σ) {ctx : PromotionContext} {steps : List Step}
    (resumable : Resumable steps.length ctx.start ctx.records) (x : σ) {r : EngineResult}
    (h : (promote env ctx steps x).1 = .result r) :
    ∃ records, completions r.records 0 = completions ctx.records 0 ++ records ∧
      Credited ((trials env ctx steps x).filter Trial.isCompleted) records r.healthChecks := by
  have taken : (ctx.records.take ctx.start).length = ctx.start ∧
      completions ctx.records 0 = completions (ctx.records.take ctx.start) 0 ∧
      (steps.drop ctx.start = [] → ctx.records[ctx.start]? = none) := by
    rcases resumable with ⟨hrecords, hstart⟩ | ⟨inside, inFlight⟩
    · rw [hrecords, hstart]
      exact ⟨rfl, rfl, fun _ => rfl⟩
    · refine ⟨?_, completions_inFlight inFlight, fun none => ?_⟩
      · obtain ⟨done, last, hrecords, hlength, _⟩ := inFlight
        rw [hrecords, ← hlength, List.take_left]
      · have := List.drop_eq_nil_iff.mp none
        omega
  obtain ⟨length, done, hresumed⟩ := taken
  unfold promote at h
  unfold trials
  split at h
  · cases h
  · split at h
    · cases h
    · rename_i inside enough
      rw [if_neg (not_or.mpr ⟨inside, enough⟩)]
      obtain ⟨records, checks, hrecords, hchecks, credited⟩ :=
        credited_advance env ctx _ _ _ _ x hresumed h
      refine ⟨completions records ctx.start, ?_, ?_⟩
      · rw [hrecords, completions_append, done, Nat.zero_add, length]
      · rw [hchecks]
        exact credited

end Sequential

end Drayage
