import Drayage.Proofs.Controller.Traffic
import Drayage.Proofs.Engine.Sequential

/-!
# The shape of stored statuses

Phase, position and records of a stored status fit together, whoever wrote it: a Promotion
that is running can be resumed where it says, so the sequential engine never complains and
an abort always finds the step in flight.
-/

namespace Drayage

open Relation Standing Store

/-- What the phase of a status tells about the rest, for a Promotion that asks for `spec`. -/
structure PromotionStatus.Shaped (spec : PromotionSpec) (s : PromotionStatus) : Prop where
  waiting : s.phase = none ∨ s.phase = some .pending →
    s.currentStep = 0 ∧ s.records = [] ∧ s.startedAt = none ∧ s.finishedAt = none
  running : s.phase = some .running →
    s.startedAt.isSome = true ∧ s.finishedAt = none ∧
      Resumable spec.steps.length s.currentStep s.records
  ended : s.isTerminal = true →
    s.finishedAt.isSome = true ∧ s.currentStep ≤ spec.steps.length ∧
      s.records.length ≤ spec.steps.length
  succeeded : s.phase = some .succeeded →
    s.currentStep = spec.steps.length ∧ s.records.length = spec.steps.length

theorem Resumable.le {steps start : Nat} {records : List StepRecord}
    (h : Resumable steps start records) : start ≤ steps ∧ records.length ≤ steps := by
  rcases h with ⟨hrecords, hstart⟩ | ⟨inside, done, last, hrecords, hlength, _⟩
  · rw [hrecords, hstart]
    exact ⟨Nat.zero_le _, Nat.zero_le _⟩
  · rw [hrecords, List.length_append, hlength]
    exact ⟨Nat.le_of_lt inside, inside⟩

namespace PromotionStatus

variable {spec : PromotionSpec} {s : PromotionStatus}

theorem shaped_of_waiting (hphase : s.phase = none ∨ s.phase = some .pending)
    (h : s.currentStep = 0 ∧ s.records = [] ∧ s.startedAt = none ∧ s.finishedAt = none) :
    s.Shaped spec where
  waiting _ := h
  running h := by rcases hphase with hphase | hphase <;> (rw [hphase] at h; cases h)
  ended h := by
    unfold isTerminal at h
    rcases hphase with hphase | hphase <;> (rw [hphase] at h; cases h)
  succeeded h := by rcases hphase with hphase | hphase <;> (rw [hphase] at h; cases h)

theorem shaped_of_running (hphase : s.phase = some .running) (started : s.startedAt.isSome = true)
    (unfinished : s.finishedAt = none)
    (resumable : Resumable spec.steps.length s.currentStep s.records) : s.Shaped spec where
  waiting h := by rcases h with h | h <;> (rw [hphase] at h; cases h)
  running _ := ⟨started, unfinished, resumable⟩
  ended h := by
    unfold isTerminal at h
    rw [hphase] at h
    cases h
  succeeded h := by
    rw [hphase] at h
    cases h

theorem shaped_of_ended (ended : s.isTerminal = true) (finished : s.finishedAt.isSome = true)
    (step : s.currentStep ≤ spec.steps.length) (records : s.records.length ≤ spec.steps.length)
    (succeeded : s.phase = some .succeeded →
      s.currentStep = spec.steps.length ∧ s.records.length = spec.steps.length) :
    s.Shaped spec where
  waiting h := by
    unfold isTerminal at ended
    rcases h with h | h <;> (rw [h] at ended; cases ended)
  running h := by
    unfold isTerminal at ended
    rw [h] at ended
    cases ended
  ended _ := ⟨finished, step, records⟩
  succeeded := succeeded

/-- A Promotion that has not ended does not point beyond its steps. -/
theorem Shaped.le (h : s.Shaped spec) (unended : s.isTerminal = false) :
    s.currentStep ≤ spec.steps.length ∧ s.records.length ≤ spec.steps.length := by
  have waiting (hphase : s.phase = none ∨ s.phase = some .pending) :
      s.currentStep ≤ spec.steps.length ∧ s.records.length ≤ spec.steps.length := by
    obtain ⟨hstep, hrecords, _⟩ := h.waiting hphase
    rw [hstep, hrecords]
    exact ⟨Nat.zero_le _, Nat.zero_le _⟩
  unfold isTerminal at unended
  cases hphase : s.phase with
  | none => exact waiting (.inl hphase)
  | some phase =>
    cases phase with
    | pending => exact waiting (.inr hphase)
    | running => exact (h.running hphase).2.2.le
    | succeeded | failed | errored | aborted => rw [hphase] at unended; cases unended

theorem length_abortedRecords (s : PromotionStatus) (now : Instant) :
    (s.abortedRecords now).length = s.records.length := by
  unfold abortedRecords
  split
  · exact List.length_modify _ _ _
  · rfl

/-- An abort marks the step in flight. -/
theorem Shaped.terminated (h : s.Shaped spec) (hrunning : s.phase = some .running)
    (hrecords : s.records ≠ []) (actor : String) (now : Instant) : ∃ done last,
      s.records = done ++ [last] ∧ last.status = .running ∧
        (s.terminated actor now).records =
          done ++ [{ last with status := .aborted, finishedAt := some now }] := by
  rcases (h.running hrunning).2.2 with ⟨none, _⟩ | ⟨_, done, last, hsplit, hlength, _, hlast⟩
  · exact absurd none hrecords
  · refine ⟨done, last, hsplit, hlast, ?_⟩
    show s.abortedRecords now = _
    -- the guard of the abort: there is one record more than steps that are done
    have inFlight : s.phase = some .running ∧ s.records.length = s.currentStep + 1 := by
      rw [hsplit, List.length_append, hlength]
      exact ⟨hrunning, rfl⟩
    rw [abortedRecords, if_pos inFlight, hsplit, List.modify_eq_take_drop, ← hlength,
      List.take_left, List.drop_left]
    show done ++ [if last.status = .running then _ else last] = _
    rw [if_pos hlast]

/-- Where a Promotion that runs can go on, it can also go on without its workspace. -/
theorem Shaped.resumable (h : s.Shaped spec) (hrunning : s.phase = some .running)
    (target : FreightReference) (collection : Collection) (fresh : Bool) :
    Resumable spec.steps.length
      (Reconciler.startingStatus s target collection fresh).currentStep
      (Reconciler.startingStatus s target collection fresh).records := by
  cases fresh with
  | true => exact .inl ⟨rfl, rfl⟩
  | false => exact (h.running hrunning).2.2

end PromotionStatus

namespace Traffic

/-- The sequential engine, and users whose Promotions were not looked at yet. -/
def sequential : Surroundings where
  engine := Sequential.MayAnswer
  intake := ⟨fun p => p.status = .initial, fun _ => True⟩

/-- Every status that was ever stored has its shape, and what relies on it works. -/
structure Shaped (t : Traffic) : Prop where
  stored : ∀ k p, t.world.store.promotions.get? k = some p → p.status.Shaped p.spec
  changes : ∀ c ∈ t.world.store.changes, c.new.status.Shaped c.new.spec
  /-- The engine is never called in a way that it complains about. -/
  engine : ∀ call ∈ t.calls, ∀ ctx steps next, call.rest = .ask (.promote ctx steps) next →
    ∀ a, Sequential.MayAnswer ctx steps a → ∀ e, a ≠ .error e
  /-- An abort marks the step in flight, also if what it goes by is not stored any more. -/
  aborts : ∀ c ∈ t.world.store.changes, c.new.status.phase = some .running →
    c.new.status.records ≠ [] → ∀ actor now, ∃ done last,
      c.new.status.records = done ++ [last] ∧ last.status = .running ∧
        (c.new.status.terminated actor now).records =
          done ++ [{ last with status := .aborted, finishedAt := some now }]

theorem fits_mayAnswer {ctx : PromotionContext} {spec : PromotionSpec} {s : PromotionStatus}
    (hs : s.Shaped spec) (hrunning : s.phase = some .running) {target : FreightReference}
    {collection : Collection} {fresh : Bool}
    (resumes : ctx.Resumes (Reconciler.startingStatus s target collection fresh))
    {a : EngineAnswer} (ha : Sequential.MayAnswer ctx (Step.ofDeclaredSteps spec.steps) a) :
    a.Fits spec.steps.length := by
  obtain ⟨σ, env, x, rfl⟩ := ha
  have resumable := hs.resumable hrunning target collection fresh
  rw [← resumes.1, ← resumes.2.1, ← Step.length_ofDeclaredSteps] at resumable
  have fits := Sequential.fits_promote env resumable x
  rwa [Step.length_ofDeclaredSteps] at fits

theorem shaped_result {spec : PromotionSpec} {s : PromotionStatus} {r : EngineResult}
    (started : s.startedAt.isSome = true) (unfinished : s.finishedAt = none)
    (fits : r.Fits spec.steps.length) (now : Instant) :
    ((Reconciler.resultStatus s (.ok r)).ended now).Shaped spec := by
  cases fits with
  | succeeded phase step records =>
    have ended : (Reconciler.resultStatus s (.ok r)).isTerminal = true := by
      show r.phase.isTerminal = true
      rw [phase]
      rfl
    rw [PromotionStatus.ended, if_pos ended]
    exact PromotionStatus.shaped_of_ended ended rfl (Nat.le_of_eq step) (Nat.le_of_eq records)
      fun _ => ⟨step, records⟩
  | paused phase step records =>
    have unended : ¬ (Reconciler.resultStatus s (.ok r)).isTerminal = true := by
      show ¬ r.phase.isTerminal = true
      rw [phase]
      exact Bool.false_ne_true
    rw [PromotionStatus.ended, if_neg unended]
    exact PromotionStatus.shaped_of_running (congrArg some phase) started unfinished
      (.inr ⟨step, records⟩)
  | halted phase step records =>
    have ended : (Reconciler.resultStatus s (.ok r)).isTerminal = true := by
      show r.phase.isTerminal = true
      rcases phase with phase | phase | phase <;> (rw [phase]; rfl)
    have failed : r.phase ≠ .succeeded := by
      intro h
      rw [h] at phase
      rcases phase with phase | phase | phase <;> cases phase
    rw [PromotionStatus.ended, if_pos ended]
    have length : r.records.length ≤ spec.steps.length := by
      rw [records]
      exact step
    exact PromotionStatus.shaped_of_ended ended rfl (Nat.le_of_lt step) length
      fun h => absurd (Option.some.inj h) failed

theorem lasting_shaped : (sequential.terms PromotionStatus.Shaped).Lasting where
  pending h hphase := PromotionStatus.shaped_of_waiting (.inr rfl) (h.waiting (.inl hphase))
  running now h hphase := by
    obtain ⟨hstep, hrecords, _, hfinished⟩ := h.waiting (.inr hphase)
    exact PromotionStatus.shaped_of_running rfl rfl hfinished (.inl ⟨hrecords, hstep⟩)
  terminated actor now h unended := by
    obtain ⟨hstep, hrecords⟩ := h.le unended
    rw [← PromotionStatus.length_abortedRecords _ now] at hrecords
    exact PromotionStatus.shaped_of_ended rfl rfl hstep hrecords fun h => by cases h
  errored message now h hphase := by
    obtain ⟨hstep, hrecords⟩ := (h.running hphase).2.2.le
    exact PromotionStatus.shaped_of_ended rfl rfl hstep hrecords fun h => by cases h
  reached now h hphase hreached := by
    obtain ⟨target, collection, fresh, ctx, r, resumes, ha, rfl⟩ := hreached
    -- the engine went on from a shaped status, so it has not complained
    have fits := fits_mayAnswer h hphase resumes ha
    cases r with
    | error e => exact fits.elim
    | ok r =>
      obtain ⟨started, unfinished, _⟩ := h.running hphase
      refine shaped_result (s := Reconciler.startingStatus _ target collection fresh) ?_ ?_ fits now
      · cases fresh <;> exact started
      · cases fresh <;> exact unfinished
  refreshed token h := ⟨h.waiting, h.running, h.ended, h.succeeded⟩

/-- However reconciles, aborts and edits take turns, stored statuses have their shape. -/
theorem shaped_of_reached {t : Traffic} (h : Reached sequential t) : t.Shaped := by
  have created : ∀ p, sequential.intake.promotion p → p.status.Shaped p.spec := by
    intro p hp
    rw [show p.status = .initial from hp]
    exact PromotionStatus.shaped_of_waiting (.inl rfl) ⟨rfl, rfl, rfl, rfl⟩
  have orderly := orderly_reached lasting_shaped created h
  refine ⟨fun k p hp => orderly.historic.kept hp, fun c hc => (orderly.historic.read c hc).2,
    fun call hcall ctx steps next asks a ha e he => ?_, fun c hc hrunning hrecords actor now => ?_⟩
  · obtain ⟨g, obeys, _, _⟩ := orderly.calls call hcall
    rw [asks] at obeys
    obtain ⟨may, _⟩ := obeys
    -- the rules let the engine be called with the progress of a kept status only
    cases g with
    | holding p =>
      obtain ⟨hrunning, rfl, kept, target, collection, fresh, resumes⟩ := may
      have fits := fits_mayAnswer kept hrunning resumes ha
      rw [he] at fits
      exact fits
    | unread | parked | owing | closed => exact may
  · exact (orderly.historic.read c hc).2.terminated hrunning hrecords actor now

/-- An engine for the steps of which nothing is ever known but that they run. -/
def patientEngine : Engine (World Unit) := fun ctx steps w =>
  let runner : Runner Unit := ⟨none, fun _ => pure (.reported (.running "in progress"))⟩
  let env : Sequential.Setting Unit :=
    ⟨.ofList [("wait", runner)], fun _ _ _ => .ok none, pure default⟩
  ((Sequential.promote env ctx steps ()).1, w)

/-- What a user writes so that one Promotion of one step can run. -/
def oneWaits : List Edit :=
  let origin := Origin.warehouse "w"
  let stage := Stage.fresh (.fresh "a" "s" default) ⟨[.direct origin], none⟩
  [.putFreight (.fresh (.fresh "a" "f" default) origin) ⟨1⟩,
    .putStage (stage.withCurrent (some (.named "p"))) ⟨2⟩,
    .create (.fresh (.fresh "a" "p" default) ⟨"s", "f", [], [.ofKind "wait"]⟩) ⟨3⟩]

def whereOneWaits : World Unit :=
  ⟨default, oneWaits.foldl Edit.apply .empty, .empty, #[], ()⟩

def reconcileOne : Program Ending := (Reconciler.mk default fun _ => none).reconcile ⟨"a", "p"⟩

/-- A Promotion whose step is in flight. -/
theorem shaped_of_oneWaits : ∃ t, Reached sequential t ∧
    (t.world.store.promotions.values.map fun p =>
      (p.status.phase, p.status.currentStep, p.status.records.map StepRecord.status)) =
        [(some .running, 0, [.running])] ∧ t.Shaped := by
  have answers : ∀ ctx steps w,
      sequential.engine ctx steps (patientEngine ctx steps w).1 ∧
        (patientEngine ctx steps w).2 = w :=
    fun _ _ _ => ⟨⟨Unit, _, (), rfl⟩, rfl⟩
  have allowed : ∀ e ∈ oneWaits, e.Within sequential.intake := by
    intro e he
    rcases List.mem_cons.mp he with rfl | he
    · trivial
    · rcases List.mem_cons.mp he with rfl | he
      · trivial
      · cases List.mem_singleton.mp he
        rfl
  have written := turns_edits ⟨default, .empty, .empty, #[], ()⟩ [] allowed
  obtain ⟨call, _, reconciled⟩ := turns_run answers [] [] whereOneWaits (.start reconcileOne)
  have reached : Reached sequential _ :=
    ⟨_, ⟨rfl, rfl, rfl⟩, (written.tail (.reconcile _ [] _ _)).trans reconciled⟩
  refine ⟨_, reached, ?_, shaped_of_reached reached⟩
  show ((reconcileOne.run (World.perform patientEngine) whereOneWaits).2.store.promotions.values.map
    fun p => (p.status.phase, p.status.currentStep, p.status.records.map StepRecord.status)) = _
  decide +kernel

end Traffic

end Drayage
