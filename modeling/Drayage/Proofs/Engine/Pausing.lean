import Drayage.Proofs.Engine.Scripted

/-!
# Pauses leave no trace

A Promotion whose steps pause is taken up again and again, each time from the result of the
call before. In the end it says the same as one single call in which no step pauses, apart
from times, and every runner was called as often as its steps were to be attempted.
-/

namespace Drayage

/-- What the next call is given after a result. -/
def PromotionContext.resuming (ctx : PromotionContext) (r : EngineResult) : PromotionContext :=
  { ctx with start := r.currentStep, records := r.records, state := r.state }

namespace Sequential

variable {σ : Type}

/-- Calls one after another, each from the result of the one before as long as that is
running: the checks that they asked for, and what the next of them is given. -/
inductive Calls (env : Setting σ) (steps : List Step) (ctx : PromotionContext) (x : σ) :
    List HealthCheck → PromotionContext → σ → Prop where
  | first : Calls env steps ctx x [] ctx x
  | next {checks : List HealthCheck} {c : PromotionContext} {w w' : σ} {r : EngineResult}
      (h : Calls env steps ctx x checks c w) (call : promote env c steps w = (.result r, w'))
      (running : r.phase = .running) :
      Calls env steps ctx x (checks ++ r.healthChecks) (c.resuming r) w'

/-- How calls come to an end. -/
structure Ending (σ : Type) where
  /-- The checks that all calls asked for. -/
  checks : List HealthCheck
  /-- The result of the last one. -/
  result : EngineResult
  world : σ

/-- Calls come to a result that is not running any more. -/
def Reaches (env : Setting σ) (steps : List Step) (ctx : PromotionContext) (x : σ)
    (e : Ending σ) : Prop :=
  ∃ before c w, Calls env steps ctx x before c w ∧
    promote env c steps w = (.result e.result, e.world) ∧ e.result.phase ≠ .running ∧
    e.checks = before ++ e.result.healthChecks

/-- No step of a call times out. -/
def Punctual (env : Setting σ) (ctx : PromotionContext) :
    List Step → Option StepRecord → Progress → σ → Prop
  | [], _, _, _ => True
  | step :: rest, resumed, p, x =>
    InTime env step (opening env step resumed x) ∧
      ∀ o x', attempt env ctx step resumed p.state x = (.ok o, x') → o.verdict = .next →
        Punctual env ctx rest none (p.add step o) x'

/-- No step times out in any of the calls. -/
def Timely (env : Setting σ) (steps : List Step) (ctx : PromotionContext) (x : σ) : Prop :=
  ∀ checks c w, Calls env steps ctx x checks c w →
    Punctual env c (steps.drop c.start) c.records[c.start]?
      ⟨c.records.take c.start, c.state, []⟩ w

/-- The result of calls, with all of their checks, says the same as that of a single call. -/
structure Agree (e : Ending σ) (s : EngineResult) : Prop where
  phase : e.result.phase = s.phase
  message : e.result.message = s.message
  currentStep : e.result.currentStep = s.currentStep
  state : e.result.state = s.state
  records : e.result.records.map StepRecord.untimed = s.records.map StepRecord.untimed
  checks : e.checks = s.healthChecks

section Calls

variable {env : Setting σ} {steps : List Step} {ctx c : PromotionContext} {x x' w : σ}
  {r : EngineResult} {checks : List HealthCheck}

theorem Calls.resumed (call : promote env ctx steps x = (.result r, x'))
    (running : r.phase = .running) (h : Calls env steps (ctx.resuming r) x' checks c w) :
    Calls env steps ctx x (r.healthChecks ++ checks) c w := by
  induction h with
  | first =>
    have := Calls.first.next call running
    rwa [List.nil_append, ← List.append_nil r.healthChecks] at this
  | next _ call' running' ih =>
    rw [← List.append_assoc]
    exact ih.next call' running'

theorem Timely.resumed (h : Timely env steps ctx x)
    (call : promote env ctx steps x = (.result r, x')) (running : r.phase = .running) :
    Timely env steps (ctx.resuming r) x' :=
  fun _ c w calls => h _ c w (calls.resumed call running)

theorem Reaches.resumed {e : Ending σ} (call : promote env ctx steps x = (.result r, x'))
    (running : r.phase = .running) (h : Reaches env steps (ctx.resuming r) x' e) :
    Reaches env steps ctx x { e with checks := r.healthChecks ++ e.checks } := by
  obtain ⟨before, c, w, calls, last, ends, checks⟩ := h
  refine ⟨r.healthChecks ++ before, c, w, calls.resumed call running, last, ends, ?_⟩
  rw [checks, List.append_assoc]

end Calls

/-- What there is of a call when it comes to a step. -/
structure Course (σ : Type) where
  ctx : PromotionContext
  /-- The world when the call began. -/
  start : σ
  resumed : Option StepRecord
  progress : Progress
  world : σ

/-- A call that begins. -/
def Course.opening (ctx : PromotionContext) (x : σ) : Course σ :=
  ⟨ctx, x, ctx.records[ctx.start]?, ⟨ctx.records.take ctx.start, ctx.state, []⟩, x⟩

/-- A call has come to the step at `i`. -/
structure Underway (env : Setting σ) (steps : List Step) (i : Nat) (rest : List Step)
    (u : Course σ) : Prop where
  call : promote env u.ctx steps u.start = advance env u.ctx i rest u.resumed u.progress u.world
  timely : Timely env steps u.ctx u.start
  punctual : Punctual env u.ctx rest u.resumed u.progress u.world
  rest : steps.drop i = rest
  done : u.progress.records.length = i

/-- The course of a call after a step was completed. -/
def Course.next (u : Course σ) (step : Step) (o : StepOutcome) (x : σ) : Course σ :=
  { u with resumed := none, progress := u.progress.add step o, world := x }

/-- The course of a call that takes up a step again, given the result of the call before. -/
def Course.again (u : Course σ) (r : EngineResult) (record : StepRecord) (x : σ) : Course σ :=
  ⟨u.ctx.resuming r, x, some record, { u.progress with healthChecks := [] }, x⟩

section Underway

variable {env : Setting σ} {steps rest : List Step} {step : Step} {i : Nat} {u : Course σ}
  {o : StepOutcome} {x : σ}

theorem underway_promote {ctx : PromotionContext} (inside : ctx.start ≤ steps.length)
    (known : ctx.start ≤ ctx.records.length) (timely : Timely env steps ctx x) :
    Underway env steps ctx.start (steps.drop ctx.start) (.opening ctx x) where
  call := by
    unfold promote Course.opening
    rw [if_neg (Nat.not_lt_of_le inside), if_neg (Nat.not_lt_of_le known)]
  timely := timely
  punctual := timely [] ctx x .first
  rest := rfl
  done := List.length_take.trans (Nat.min_eq_left known)

theorem Underway.goOn_eq (h : Underway env steps i (step :: rest) u)
    (tried : attempt env u.ctx step u.resumed u.progress.state u.world = (.ok o, x)) :
    promote env u.ctx steps u.start = goOn env u.ctx i step rest u.progress (.ok o, x) := by
  rw [h.call, advance_eq_goOn, tried]

theorem Underway.next (h : Underway env steps i (step :: rest) u)
    (tried : attempt env u.ctx step u.resumed u.progress.state u.world = (.ok o, x))
    (verdict : o.verdict = .next) : Underway env steps (i + 1) rest (u.next step o x) where
  call := by
    refine (h.goOn_eq tried).trans ?_
    unfold goOn
    simp only [verdict]
    rfl
  timely := h.timely
  punctual := h.punctual.2 o x tried verdict
  rest := by rw [← List.drop_drop, h.rest, List.drop_one, List.tail_cons]
  done := by simp [Course.next, Progress.add, h.done]

/-- The call after a pause begins with another attempt at the same step. -/
theorem Underway.again (h : Underway env steps i (step :: rest) u) {record : StepRecord}
    {message : Option String}
    (tried : attempt env u.ctx step u.resumed u.progress.state u.world =
      (.ok (paused record message), x)) :
    ∃ r, promote env u.ctx steps u.start = (.result r, x) ∧ r.phase = .running ∧
      r.healthChecks = u.progress.healthChecks ∧
      Underway env steps i (step :: rest) (u.again r { record with message } x) := by
  have done := h.done
  let last : StepRecord := { record with message }
  let r : EngineResult :=
    ⟨.running, message, i, u.progress.records ++ [last], u.progress.state, u.progress.healthChecks⟩
  have call : promote env u.ctx steps u.start = (.result r, x) := by
    rw [h.goOn_eq tried]
    simp [goOn, paused, Progress.add, Progress.result, r, last]
  have inside : i < steps.length := by
    refine Nat.lt_of_not_le fun beyond => ?_
    have := h.rest
    rw [List.drop_eq_nil_of_le beyond] at this
    cases this
  have known : i ≤ r.records.length := by
    rw [List.length_append, done]
    exact Nat.le_add_right i _
  have again : Underway env steps i (steps.drop i)
      ⟨u.ctx.resuming r, x, r.records[i]?, ⟨r.records.take i, u.progress.state, []⟩, x⟩ :=
    underway_promote (Nat.le_of_lt inside) known (h.timely.resumed call rfl)
  have record : r.records[i]? = some last := by rw [← done, List.getElem?_concat_length]
  have before : r.records.take i = u.progress.records := by rw [← done, List.take_left]
  rw [h.rest, record, before] at again
  exact ⟨r, call, rfl, rfl, again⟩

end Underway

/-- Two calls have made the same of a Promotion, apart from times, if those before the first
one asked for the checks `acc`. -/
structure Alike (acc : List HealthCheck) (p q : Progress) : Prop where
  records : p.records.map StepRecord.untimed = q.records.map StepRecord.untimed
  state : p.state = q.state
  checks : acc ++ p.healthChecks = q.healthChecks

/-- A call `u` and the single call `v` have both come to the step at `i`. -/
structure Abreast (env : Setting σ) (steps : List Step) (i : Nat) (plan : List (Step × Script))
    (acc : List HealthCheck) (u v : Course σ) : Prop where
  resuming : Underway env steps i (plan.map Prod.fst) u
  single : Underway env steps i (plan.map Prod.fst) v
  alike : Alike acc u.progress v.progress
  plays : Plays env (scenes env.registry plan) u.world
  straight : Plays env (scenes env.registry (straight plan)) v.world

/-- The calls of runners if the steps follow their scripts to the end. -/
def calls (reg : Registry σ) (plan : List (Step × Script)) : List (String × String) :=
  (scenes reg plan).map Scene.call

/-- From the step at `i` on, a call `u` with those that resume it comes to the same as the
single call `v` in which no step pauses. -/
def Matches (env : Setting σ) (log : σ → List (String × String)) (steps : List Step) (i : Nat)
    (plan : List (Step × Script)) (acc : List HealthCheck) (u v : Course σ) : Prop :=
  ∃ e s y n, Reaches env steps u.ctx u.start e ∧
    promote env v.ctx steps v.start = (.result s, y) ∧
    Agree { e with checks := acc ++ e.checks } s ∧ s.currentStep = i + n ∧
    log e.world = log u.world ++ calls env.registry (plan.take (n + 1)) ∧
    log y = log v.world ++ calls env.registry (straight (plan.take (n + 1)))

section Simulation

variable {env : Setting σ} {log : σ → List (String × String)} {steps : List Step} {i : Nat}
  {step : Step} {script : Script} {plan : List (Step × Script)} {acc : List HealthCheck}
  {u v : Course σ} {x y : σ}

theorem Alike.add {p q : Progress} {o o' : StepOutcome} (h : Alike acc p q)
    (same : o.untimed = o'.untimed) : Alike acc (p.add step o) (q.add step o') := by
  obtain ⟨records, state, checks⟩ := h
  obtain ⟨record, verdict, output, check⟩ := o
  obtain ⟨record', verdict', output', check'⟩ := o'
  obtain ⟨record, rfl, rfl, rfl⟩ := StepOutcome.mk.inj same
  refine ⟨?_, ?_, ?_⟩
  · simp [Progress.add, records, record]
  · simp [Progress.add, state]
  · simp [Progress.add, ← checks]

@[simp] theorem calls_nil (reg : Registry σ) : calls reg [] = [] := rfl

theorem calls_called {reg : Registry σ} (h : runs reg step = true) :
    calls reg ((step, script) :: plan) =
      script.attempts.map (fun _ => (step.kind, step.name)) ++ calls reg plan := by
  unfold calls
  rw [scenes_called h, List.map_append, List.map_map]
  rfl

theorem calls_idle {reg : Registry σ} (h : runs reg step = false) :
    calls reg ((step, script) :: plan) = calls reg plan := by
  unfold calls
  rw [scenes_idle h]

theorem calls_cons (reg : Registry σ) (step : Step) (script : Script)
    (plan : List (Step × Script)) :
    calls reg ((step, script) :: plan) = calls reg [(step, script)] ++ calls reg plan := by
  unfold calls
  rw [← List.singleton_append, scenes_append, List.map_append]

/-- The phase with which a step ends a Promotion. -/
theorem halt_attempt {ctx : PromotionContext} {resumed : Option StepRecord} {state : SharedState}
    {o : StepOutcome} {phase : Phase} {message : String}
    (tried : attempt env ctx step resumed state x = (.ok o, y))
    (verdict : o.verdict = .halt phase message) : phase ≠ .running := by
  have coherent := (left_runStep env ctx step _ state _ tried).coherent
  rw [StepOutcome.Coherent, verdict] at coherent
  rintro rfl
  rcases coherent with h | h | h <;> cases h

/-- Both calls come to the same if their attempts at a step do, and end it. -/
theorem matches_attempted {o o' : StepOutcome}
    (ih : ∀ {u v : Course σ}, Abreast env steps (i + 1) plan acc u v → u.resumed = v.resumed →
      Matches env log steps (i + 1) plan acc u v)
    (h : Abreast env steps i ((step, script) :: plan) acc u v)
    (triedU : attempt env u.ctx step u.resumed u.progress.state u.world = (.ok o, x))
    (triedV : attempt env v.ctx step v.resumed v.progress.state v.world = (.ok o', y))
    (same : o.untimed = o'.untimed) (final : ∀ message, o.verdict ≠ .pause message)
    (playsU : Plays env (scenes env.registry plan) x)
    (playsV : Plays env (scenes env.registry (straight plan)) y)
    (notedU : log x = log u.world ++ calls env.registry [(step, script)])
    (notedV : log y = log v.world ++ calls env.registry (straight [(step, script)])) :
    Matches env log steps i ((step, script) :: plan) acc u v := by
  have verdicts : o.verdict = o'.verdict := by
    show o.untimed.verdict = o'.untimed.verdict
    rw [same]
  have alike : Alike acc (u.progress.add step o) (v.progress.add step o') := h.alike.add same
  cases verdict : o.verdict with
  | pause message => exact absurd verdict (final message)
  | next =>
    have next : Abreast env steps (i + 1) plan acc (u.next step o x) (v.next step o' y) :=
      ⟨h.resuming.next triedU verdict, h.single.next triedV (verdicts ▸ verdict), alike, playsU,
        playsV⟩
    obtain ⟨e, s, y', n, reaches, call, agree, stands, notedU', notedV'⟩ := ih next rfl
    refine ⟨e, s, y', n + 1, reaches, call, agree, by omega, ?_, ?_⟩
    · rw [notedU', List.take_succ_cons, calls_cons, ← List.append_assoc, ← notedU]
      rfl
    · rw [notedV', List.take_succ_cons, straight_cons, calls_cons, ← List.append_assoc]
      exact congrArg (· ++ _) notedV
  | halt phase message =>
    have callU : promote env u.ctx steps u.start =
        (.result ((u.progress.add step o).result phase (some message) i), x) := by
      rw [h.resuming.goOn_eq triedU]
      simp [goOn, verdict]
    have callV : promote env v.ctx steps v.start =
        (.result ((v.progress.add step o').result phase (some message) i), y) := by
      rw [h.single.goOn_eq triedV]
      simp [goOn, ← verdicts, verdict]
    refine ⟨⟨_, _, x⟩, _, y, 0, ⟨[], _, _, .first, callU, halt_attempt triedU verdict, rfl⟩, callV,
      ⟨rfl, rfl, rfl, alike.state, alike.records, ?_⟩, rfl, notedU, notedV⟩
    exact alike.checks

/-- Pauses of a step are made up for by the calls that resume it. -/
theorem matches_called (notes : Notes env log) (called : runs env.registry step = true)
    (ih : ∀ {acc : List HealthCheck} {u v : Course σ}, Abreast env steps (i + 1) plan acc u v →
      u.resumed = v.resumed → Matches env log steps (i + 1) plan acc u v)
    {pauses : List StepReport} {final : Except StepError StepReport}
    (waits : ∀ report ∈ pauses, report.status.isTerminal = false) (ends : Conclusive final)
    (h : Abreast env steps i ((step, ⟨pauses, final, waits, ends⟩) :: plan) acc u v)
    (heads : heading step u.resumed = heading step v.resumed) :
    Matches env log steps i ((step, ⟨pauses, final, waits, ends⟩) :: plan) acc u v := by
  -- a pause ends the call at hand, and the next one begins with one pause less
  induction pauses generalizing u acc with
  | nil =>
    have playsU := h.plays
    have playsV := h.straight
    rw [scenes_called called] at playsU
    rw [straight_cons, scenes_called called] at playsV
    obtain ⟨record, now, x, triedU, headU, playsU, notedU⟩ :=
      attempt_called notes called h.resuming.punctual.1 playsU u.ctx u.progress.state
    obtain ⟨record', now', y, triedV, headV, playsV, notedV⟩ :=
      attempt_called notes called h.single.punctual.1 playsV v.ctx v.progress.state
    refine matches_attempted ih h triedU triedV ?_ (concluded_final ends) playsU playsV ?_ ?_
    · exact untimed_concluded ends (headU.trans (heads.trans headV.symm)) now now'
    · rw [notedU, calls_called called]
      rfl
    · rw [notedV, straight_cons, calls_called called]
      rfl
  | cons report pauses again =>
    have plays := h.plays
    rw [scenes_called called] at plays
    obtain ⟨record, now, x, tried, head, plays, noted⟩ := attempt_called (f := .ok report) notes
      called h.resuming.punctual.1 plays u.ctx u.progress.state
    rw [concluded_waiting now (waits report List.mem_cons_self)] at tried
    obtain ⟨r, call, running, checks, resuming⟩ := h.resuming.again tried
    have waits' : ∀ report ∈ pauses, report.status.isTerminal = false :=
      fun report hr => waits report (List.mem_cons_of_mem _ hr)
    have alike : Alike (acc ++ u.progress.healthChecks) { u.progress with healthChecks := [] }
        v.progress := ⟨h.alike.records, h.alike.state, (List.append_nil _).trans h.alike.checks⟩
    have h' : Abreast env steps i ((step, ⟨pauses, final, waits', ends⟩) :: plan)
        (acc ++ u.progress.healthChecks)
        (u.again r { record with message := report.message } x) v := by
      refine ⟨resuming, h.single, alike, ?_, h.straight⟩
      rw [scenes_called called]
      exact plays
    obtain ⟨e, s, y, n, reaches, single, agree, stands, notedU, notedV⟩ :=
      again waits' h' (head.trans heads)
    refine ⟨_, s, y, n, reaches.resumed call running, single, ?_, stands, ?_, notedV⟩
    · rw [checks, ← List.append_assoc]
      exact agree
    · have world : log (u.again r { record with message := report.message } x).world =
          log u.world ++ [(step.kind, step.name)] := noted
      rw [notedU, List.take_succ_cons, List.take_succ_cons, world, calls_called called,
        calls_called called]
      simp [Script.attempts]

/-- What a plan comes to depends on its pauses in nothing but time. -/
theorem matches_advance (notes : Notes env log) (h : Abreast env steps i plan acc u v)
    (resumed : u.resumed = v.resumed) : Matches env log steps i plan acc u v := by
  -- a step may take several calls, so the calls that have come to the next one are others
  induction plan generalizing i acc u v with
  | nil =>
    refine ⟨⟨_, _, u.world⟩, _, v.world, 0, ⟨[], _, _, .first, h.resuming.call, ?_, rfl⟩,
      h.single.call, ⟨rfl, rfl, rfl, h.alike.state, ?_, h.alike.checks⟩, rfl, ?_, ?_⟩
    · intro running
      cases running
    · simp [Progress.result, h.alike.records, resumed]
    · simp
    · simp [straight]
  | cons head plan ih =>
    obtain ⟨step, script⟩ := head
    cases called : runs env.registry step with
    | true =>
      obtain ⟨pauses, final, waits, ends⟩ := script
      exact matches_called notes called ih waits ends h (congrArg (heading step) resumed)
    | false =>
      have playsU := h.plays
      have playsV := h.straight
      rw [scenes_idle called] at playsU
      rw [straight_cons, scenes_idle called] at playsV
      obtain ⟨o, o', x, y, triedU, triedV, same, final, ticksU, ticksV⟩ := attempt_idle called
        u.ctx v.ctx u.resumed u.progress.state v.progress.state u.world v.world
      rw [resumed] at triedV
      refine matches_attempted ih h triedU triedV same final (playsU.ticks ticksU)
        (playsV.ticks ticksV) ?_ ?_
      · rw [calls_idle called, notes.ticks ticksU, calls_nil, List.append_nil]
      · rw [straight_cons, calls_idle called, notes.ticks ticksV]
        exact (List.append_nil _).symm

end Simulation

/-- Resumed as long as it pauses, a Promotion comes to what it comes to without pauses, and a
runner is called once for every attempt that the scripts have at the steps that it gets to. -/
theorem agree_of_scripts {env : Setting σ} {log : σ → List (String × String)}
    (notes : Notes env log) {plan : List (Step × Script)} {ctx : PromotionContext} {x y : σ}
    (inside : ctx.start ≤ plan.length) (known : ctx.start ≤ ctx.records.length)
    (playsX : Plays env (scenes env.registry (plan.drop ctx.start)) x)
    (playsY : Plays env (scenes env.registry (straight (plan.drop ctx.start))) y)
    (timelyX : Timely env (plan.map Prod.fst) ctx x)
    (timelyY : Timely env (plan.map Prod.fst) ctx y) :
    ∃ e s y', Reaches env (plan.map Prod.fst) ctx x e ∧
      promote env ctx (plan.map Prod.fst) y = (.result s, y') ∧ Agree e s ∧
      log e.world = log x ++ calls env.registry
        ((plan.drop ctx.start).take (s.currentStep - ctx.start + 1)) ∧
      log y' = log y ++ calls env.registry
        (straight ((plan.drop ctx.start).take (s.currentStep - ctx.start + 1))) := by
  have inside' : ctx.start ≤ (plan.map Prod.fst).length := by rwa [List.length_map]
  have underwayX := underway_promote inside' known timelyX
  have underwayY := underway_promote inside' known timelyY
  rw [← List.map_drop] at underwayX underwayY
  have abreast : Abreast env (plan.map Prod.fst) ctx.start (plan.drop ctx.start) []
      (.opening ctx x) (.opening ctx y) :=
    ⟨underwayX, underwayY, ⟨rfl, rfl, rfl⟩, playsX, playsY⟩
  obtain ⟨e, s, y', n, reaches, call, agree, stands, notedX, notedY⟩ :=
    matches_advance notes abreast rfl
  have reached : s.currentStep - ctx.start = n := by omega
  rw [← reached] at notedX notedY
  exact ⟨e, s, y', reaches, call, agree, notedX, notedY⟩

/-- Steps that may take as long as they like never time out. -/
theorem timely_of_untimed {env : Setting σ} {steps : List Step}
    (h : ∀ step ∈ steps, ∀ runner, env.registry.get? step.kind = some runner →
      step.timeout runner.defaultTimeout = none) (ctx : PromotionContext) (x : σ) :
    Timely env steps ctx x := by
  have punctual (ctx : PromotionContext) {rest : List Step} (within : ∀ step ∈ rest, step ∈ steps)
      (resumed : Option StepRecord) (p : Progress) (x : σ) : Punctual env ctx rest resumed p x := by
    induction rest generalizing resumed p x with
    | nil => trivial
    | cons step rest ih =>
      refine ⟨fun _ runner timeout known limit => ?_, fun o x' _ _ => ?_⟩
      · rw [h step (within step List.mem_cons_self) runner known] at limit
        cases limit
      · exact ih (fun step hs => within step (List.mem_cons_of_mem _ hs)) none (p.add step o) x'
  exact fun _ c w _ => punctual c (fun _ => List.mem_of_mem_drop) _ _ w

/-- What runners answer one after another, and which of them were called. -/
structure Prompter where
  answers : List Attempt
  called : List (String × String)

def prompted (kind : String) : Runner Prompter where
  defaultTimeout := none
  run c w := (w.answers.headD (.crashed .silent), ⟨w.answers.tail, w.called ++ [(kind, c.name)]⟩)

/-- Steps of one kind are carried out by a runner that answers what it is prompted. -/
def prompting (kind : String) : Setting Prompter where
  registry := Dict.insert ∅ kind (prompted kind)
  credentials _ _ _ := .ok none
  clock w := (⟨0, 0⟩, w)

theorem known_prompting {kind k : String} {runner : Runner Prompter}
    (h : (prompting kind).registry.get? k = some runner) : k = kind ∧ runner = prompted kind := by
  unfold prompting at h
  rw [Dict.get?_insert] at h
  split at h
  · rename_i same
    rw [Std.LawfulEqCmp.compare_eq_iff_eq] at same
    exact ⟨same, (Option.some.inj h).symm⟩
  · cases h

theorem notes_prompting (kind : String) : Notes (prompting kind) Prompter.called where
  clock _ := rfl
  runner k runner c x h := by
    obtain ⟨rfl, rfl⟩ := known_prompting h
    rfl

theorem plays_prompting (kind : String) (ss : List Scene) (called : List (String × String)) :
    Plays (prompting kind) ss ⟨ss.map Scene.attempt, called⟩ := by
  induction ss generalizing called with
  | nil => trivial
  | cons s ss ih =>
    intro x' ticks runner c known _
    have still : x' = ⟨(s :: ss).map Scene.attempt, called⟩ := by
      induction ticks with
      | refl => rfl
      | tail _ tick ih => exact tick.symm.trans ih
    obtain ⟨-, rfl⟩ := known_prompting known
    rw [still]
    exact ⟨rfl, ih _⟩

/-- A step that is attempted three times, one that is skipped, one that goes on when it
errors, and one that fails at once. -/
def stopAndGo : List (Step × Script) :=
  [(⟨"http", "ask", none, false, none, [], none⟩,
      ⟨[.running "asked", ⟨.pending, none, none, none⟩],
        .ok ⟨.succeeded, some (.bool true), none, some ⟨"http", none⟩⟩,
        List.forall_mem_cons.mpr ⟨rfl, List.forall_mem_singleton.mpr rfl⟩, rfl⟩),
    (⟨"http", "idle", some "false", false, none, [], none⟩,
      .once (.ok .succeeded) rfl),
    (⟨"http", "try", none, true, none, [], none⟩,
      ⟨[.running "trying"], .error (.terminal "gone"), List.forall_mem_singleton.mpr rfl, rfl⟩),
    (⟨"http", "fail", some "true", false, none, [], none⟩,
      .once (.ok ⟨.failed, none, some "no", none⟩) rfl)]

theorem agree_of_stopAndGo : ∃ e s y',
    Reaches (prompting "http") (stopAndGo.map Prod.fst) default
      ⟨(scenes (prompting "http").registry stopAndGo).map Scene.attempt, []⟩ e ∧
    promote (prompting "http") default (stopAndGo.map Prod.fst)
      ⟨(scenes (prompting "http").registry (straight stopAndGo)).map Scene.attempt, []⟩ =
        (.result s, y') ∧
    Agree e s ∧ s.phase = .failed ∧ e.world.called =
      [("http", "ask"), ("http", "ask"), ("http", "ask"), ("http", "try"), ("http", "try"),
        ("http", "fail")] := by
  have limits : ∀ step ∈ stopAndGo.map Prod.fst, step.timeout none = none := by decide
  have timely (x : Prompter) : Timely (prompting "http") (stopAndGo.map Prod.fst) default x := by
    refine timely_of_untimed (fun step hstep runner known => ?_) default x
    obtain ⟨-, rfl⟩ := known_prompting known
    exact limits step hstep
  have playsX := plays_prompting "http" (scenes (prompting "http").registry stopAndGo) []
  have playsY := plays_prompting "http" (scenes (prompting "http").registry (straight stopAndGo)) []
  obtain ⟨e, s, y', reaches, call, agree, noted, -⟩ :=
    @agree_of_scripts _ _ _ (notes_prompting "http") stopAndGo default _ _ (Nat.zero_le _)
      (Nat.zero_le _) playsX playsY (timely _) (timely _)
  have ends : (match (promote (prompting "http") default (stopAndGo.map Prod.fst)
      ⟨(scenes (prompting "http").registry (straight stopAndGo)).map Scene.attempt, []⟩).1 with
      | .result r => some (r.phase, r.currentStep)
      | _ => none) = some (.failed, 3) := by decide +kernel
  rw [call] at ends
  obtain ⟨phase, step⟩ := Prod.mk.inj (Option.some.inj ends)
  refine ⟨e, s, y', reaches, call, agree, phase, noted.trans ?_⟩
  rw [step]
  decide +kernel

end Sequential

end Drayage
