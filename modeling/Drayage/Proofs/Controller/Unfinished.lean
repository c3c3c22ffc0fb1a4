import Drayage.Proofs.Controller.Shape
import Drayage.Proofs.Controller.Vacating

/-!
# Steps left unfinished

The steps of a Promotion that has ended should all have ended. An abort sees to the step in
flight, and the sequential engine reports no end while there is one. But a Promotion that
errors for another reason keeps the records that it had, and with them the step in flight.
-/

namespace Drayage

open Program

/-- No step is in flight. -/
def PromotionStatus.Settled (s : PromotionStatus) : Prop :=
  ∀ r ∈ s.records, r.status.isTerminal = true

instance (s : PromotionStatus) : Decidable s.Settled :=
  inferInstanceAs (Decidable (∀ r ∈ s.records, r.status.isTerminal = true))

namespace Sequential

variable {σ : Type}

theorem Left.ended {step : Step} {o : StepOutcome} (h : Left step o) {phase : Phase}
    {message : String} (verdict : o.verdict = .halt phase message) :
    o.record.status.isTerminal = true := by
  cases h with
  | completed => cases verdict
  | paused => cases verdict
  | halted record status message now h => rcases h with rfl | rfl | rfl <;> rfl

/-- When the engine reports an end, all steps that were attempted have ended. -/
theorem ended_advance (env : Setting σ) (ctx : PromotionContext) {index : Nat}
    {steps : List Step} {resumed : Option StepRecord} {p : Progress} {x : σ} {r : EngineResult}
    (hdone : ∀ r ∈ p.records, r.status.isTerminal = true)
    (hresumed : steps = [] → resumed = none)
    (h : (advance env ctx index steps resumed p x).1 = .result r)
    (ended : r.phase.isTerminal = true) : ∀ rec ∈ r.records, rec.status.isTerminal = true := by
  induction steps generalizing index resumed p x with
  | nil =>
    rw [hresumed rfl] at h
    cases h
    intro rec hrec
    have hrec : rec ∈ p.records ++ [] := hrec
    rw [List.append_nil] at hrec
    exact hdone rec hrec
  | cons step rest ih =>
    have longer {o : StepOutcome} (coherent : o.record.status.isTerminal = true) :
        ∀ r ∈ (p.add step o).records, r.status.isTerminal = true := by
      intro r hr
      rcases List.mem_append.mp hr with hr | hr
      · exact hdone r hr
      · rw [List.mem_singleton.mp hr]
        exact coherent
    have advances := advances_cons env ctx index step rest resumed p x
    rw [h] at advances
    generalize ha : EngineAnswer.result r = a at advances
    cases advances with
    | crashed c => cases ha
    | next o left verdict x' =>
      have coherent := left.coherent
      rw [StepOutcome.Coherent, verdict] at coherent
      exact ih (longer coherent) (fun _ => rfl) ha.symm
    | pause o left message verdict =>
      cases ha
      cases ended
    | halt o left phase message verdict =>
      cases ha
      exact longer (left.ended verdict)

theorem ended_promote (env : Setting σ) {ctx : PromotionContext} {steps : List Step}
    (resumable : Resumable steps.length ctx.start ctx.records) {x : σ} {r : EngineResult}
    (h : (promote env ctx steps x).1 = .result r) (ended : r.phase.isTerminal = true) :
    ∀ rec ∈ r.records, rec.status.isTerminal = true := by
  unfold promote at h
  split at h
  · cases h
  · split at h
    · cases h
    · refine ended_advance env ctx ?_ ?_ h ended
      · rcases resumable with ⟨hrecords, _⟩ | ⟨_, done, last, hrecords, hlength, hdone, _⟩
        · rw [hrecords]
          simp
        · rw [hrecords, ← hlength, List.take_left]
          exact hdone
      · intro none
        rcases resumable with ⟨hrecords, _⟩ | ⟨inside, _⟩
        · rw [hrecords]
          rfl
        · have := List.drop_eq_nil_iff.mp none
          omega

end Sequential

namespace PromotionStatus

variable {spec : PromotionSpec} {s : PromotionStatus}

theorem settled_of_nil (h : s.records = []) : s.Settled := by
  intro r hr
  rw [h] at hr
  cases hr

theorem InFlight.unsettled (h : InFlight s.currentStep s.records) : ¬ s.Settled := by
  obtain ⟨done, last, split, _, _, running⟩ := h
  intro settled
  have ended := settled last (by rw [split]; exact List.mem_append_right _ List.mem_cons_self)
  rw [running] at ended
  cases ended

/-- A Promotion that has not ended has a step in flight as soon as it has records. -/
theorem Shaped.inFlight (h : s.Shaped spec) (unended : s.isTerminal = false) :
    s.records = [] ∨ s.phase = some .running ∧ InFlight s.currentStep s.records := by
  unfold isTerminal at unended
  cases hphase : s.phase with
  | none => exact .inl (h.waiting (.inl hphase)).2.1
  | some phase =>
    cases phase with
    | pending => exact .inl (h.waiting (.inr hphase)).2.1
    | running =>
      rcases (h.running hphase).2.2 with ⟨hrecords, _⟩ | ⟨_, inFlight⟩
      · exact .inl hrecords
      · exact .inr ⟨rfl, inFlight⟩
    | succeeded | failed | errored | aborted => rw [hphase] at unended; cases unended

theorem Shaped.settled_iff (h : s.Shaped spec) (unended : s.isTerminal = false) :
    s.Settled ↔ s.records = [] := by
  constructor
  · intro settled
    rcases h.inFlight unended with hrecords | ⟨_, inFlight⟩
    · exact hrecords
    · exact absurd settled (InFlight.unsettled inFlight)
  · exact settled_of_nil

/-- An abort leaves no step in flight. -/
theorem Shaped.settled_terminated (h : s.Shaped spec) (unended : s.isTerminal = false)
    (actor : String) (now : Instant) : (s.terminated actor now).Settled := by
  rcases h.inFlight unended with hrecords | ⟨hrunning, done, last, split, _, hdone, _⟩
  · refine settled_of_nil (List.eq_nil_of_length_eq_zero ?_)
    show (s.abortedRecords now).length = 0
    rw [length_abortedRecords, hrecords]
    rfl
  · have some : s.records ≠ [] := by
      rw [split]
      exact List.append_ne_nil_of_right_ne_nil _ (List.cons_ne_nil _ _)
    obtain ⟨done', last', split', _, records⟩ := h.terminated hrunning some actor now
    obtain ⟨rfl, _⟩ := List.append_inj' (split.symm.trans split') rfl
    intro r hr
    rw [records] at hr
    rcases List.mem_append.mp hr with hr | hr
    · exact hdone r hr
    · rw [List.mem_singleton.mp hr]
      rfl

@[simp] theorem records_ended (s : PromotionStatus) (now : Instant) :
    (s.ended now).records = s.records := by
  unfold ended
  split <;> rfl

@[simp] theorem currentStep_ended (s : PromotionStatus) (now : Instant) :
    (s.ended now).currentStep = s.currentStep := by
  unfold ended
  split <;> rfl

/-- A status that has its shape and, if it is the last, a step in flight only where the
Promotion has errored. -/
structure Accounted (spec : PromotionSpec) (s : PromotionStatus) : Prop where
  shaped : s.Shaped spec
  ended : s.isTerminal = true →
    s.Settled ∨ s.phase = some .errored ∧ InFlight s.currentStep s.records

end PromotionStatus

namespace Traffic

theorem ended_mayAnswer {ctx : PromotionContext} {spec : PromotionSpec} {s : PromotionStatus}
    (hs : s.Shaped spec) (hrunning : s.phase = some .running) {target : FreightReference}
    {collection : Collection} {fresh : Bool}
    (resumes : ctx.Resumes (Reconciler.startingStatus s target collection fresh))
    {r : EngineResult}
    (hr : Sequential.MayAnswer ctx (Step.ofDeclaredSteps spec.steps) (.result r))
    (ended : r.phase.isTerminal = true) : ∀ rec ∈ r.records, rec.status.isTerminal = true := by
  obtain ⟨σ, env, x, hr⟩ := hr
  have resumable := hs.resumable hrunning target collection fresh
  rw [← resumes.1, ← resumes.2.1, ← Step.length_ofDeclaredSteps] at resumable
  exact Sequential.ended_promote env resumable hr ended

theorem lasting_accounted : (sequential.terms PromotionStatus.Accounted).Lasting where
  pending h hphase := ⟨lasting_shaped.pending h.shaped hphase, fun ended => by cases ended⟩
  running now h hphase := ⟨lasting_shaped.running now h.shaped hphase, fun ended => by cases ended⟩
  terminated actor now h unended :=
    ⟨lasting_shaped.terminated actor now h.shaped unended,
      fun _ => .inl (h.shaped.settled_terminated unended actor now)⟩
  errored := by
    intro spec s message now h hphase
    refine ⟨lasting_shaped.errored message now h.shaped hphase, fun _ => ?_⟩
    have unended : s.isTerminal = false := PromotionStatus.isTerminal_of_phase hphase
    rcases h.shaped.inFlight unended with hrecords | ⟨_, inFlight⟩
    · refine .inl (PromotionStatus.settled_of_nil ?_)
      simpa [PromotionStatus.errored] using hrecords
    · refine .inr ⟨by simp [PromotionStatus.errored], ?_⟩
      simpa [PromotionStatus.errored] using inFlight
  reached := by
    intro p s now h hphase hreached
    refine ⟨lasting_shaped.reached now h.shaped hphase hreached, fun ended => .inl ?_⟩
    obtain ⟨target, collection, fresh, ctx, r, resumes, ha, rfl⟩ := hreached
    cases r with
    | error e => exact (fits_mayAnswer h.shaped hphase resumes ha).elim
    | ok r =>
      have ended : r.phase.isTerminal = true := by
        rw [PromotionStatus.isTerminal, PromotionStatus.phase_ended] at ended
        exact ended
      intro rec hrec
      rw [PromotionStatus.records_ended] at hrec
      exact ended_mayAnswer h.shaped hphase resumes ha ended rec hrec
  refreshed token h := ⟨lasting_shaped.refreshed token h.shaped, h.ended⟩

end Traffic

/-- Replies by which no status was written or refused. -/
structure Unwritten (replies : List Reply) : Prop where
  stored : replies.filterMap Reply.stored? = []
  refused : replies.filterMap Reply.refused? = []

theorem Unwritten.append {front back : List Reply} (hf : Unwritten front) (hb : Unwritten back) :
    Unwritten (front ++ back) where
  stored := by rw [List.filterMap_append, hf.stored, hb.stored, List.append_nil]
  refused := by rw [List.filterMap_append, hf.refused, hb.refused, List.append_nil]

namespace Reconciler

variable {c : Reconciler} {p q : Promotion} {stage : Stage} {freight : Option Freight}
  {initial : Option Phase} {s s' : PromotionStatus} {replies : List Reply} {e : Ending}

theorem Settles.unwritten (h : Settles p stage s replies) : Unwritten replies := by
  cases h <;> exact ⟨rfl, rfl⟩

theorem Promotes.unwritten {promoted : Promoted}
    (h : c.Promotes p stage freight replies promoted) : Unwritten replies := by
  cases h with
  | unfound | unavailable | roomless | crashed => exact ⟨rfl, rfl⟩
  | answered f found available fresh r settles =>
    have called : Unwritten [⟨.acquire p.metadata.uid, .ok fresh⟩,
        ⟨c.engineCall p stage f fresh, .of r⟩] := ⟨rfl, rfl⟩
    exact called.append settles.unwritten

theorem Drafts.unwritten {promoted : Promoted} (h : Drafts p promoted replies s) :
    Unwritten replies := by
  cases h <;> exact ⟨rfl, rfl⟩

theorem Stamps.unwritten (h : Stamps p s replies s') : Unwritten replies := by
  cases h <;> exact ⟨rfl, rfl⟩

theorem Concludes.unwritten (h : c.Concludes p stage freight initial s replies e) :
    Unwritten replies := by
  cases h <;> exact ⟨rfl, rfl⟩

/-- The sequential engine answers as it may, wherever it is called. -/
def Sequentially (replies : List Reply) : Prop :=
  ∀ ctx steps a, (⟨.promote ctx steps, a⟩ : Reply) ∈ replies → Sequential.MayAnswer ctx steps a

/-- A Promotion errors with the records that it had, or has what the engine reported. -/
theorem drafted_sequentially {steps draft : List Reply} {promoted : Promoted}
    (promotes : c.Promotes p stage freight steps promoted) (drafts : Drafts p promoted draft s)
    (engine : Sequentially steps) (shaped : p.status.Shaped p.spec)
    (running : p.status.phase = some .running) :
    (s.records = p.status.records ∧
      ∀ r, .result r ∉ (steps ++ draft).filterMap Reply.engine?) ∨
    ∃ r, (steps ++ draft).filterMap Reply.engine? = [.result r] ∧ s.phase = some r.phase ∧
      (r.phase.isTerminal = true → s.Settled) := by
  rcases drafted c promotes drafts with
    ⟨⟨message, rfl⟩, unanswered⟩ | ⟨f, fresh, r, called, answered, _, rfl⟩
  · exact .inl ⟨rfl, unanswered⟩
  · have may := engine _ _ _ called
    cases r with
    | error err => exact (Traffic.fits_mayAnswer shaped running ⟨rfl, rfl, rfl⟩ may).elim
    | ok r =>
      exact .inr ⟨r, answered, rfl, Traffic.ended_mayAnswer shaped running ⟨rfl, rfl, rfl⟩ may⟩

/-- The engine has reported an end, and no write of it was refused. -/
def Reports (replies : List Reply) : Prop :=
  (∃ r, .result r ∈ replies.filterMap Reply.engine? ∧ r.phase.isTerminal = true) ∧
    replies.filterMap Reply.refused? = []

theorem settled_iff_of_executes (h : c.Executes p stage freight initial replies e)
    (engine : Sequentially replies) (shaped : p.status.Shaped p.spec)
    (running : p.status.phase = some .running) (stored : s ∈ replies.filterMap Reply.stored?)
    (ended : s.isTerminal = true) :
    s.Settled ↔ p.status.records = [] ∨ Reports replies := by
  have unended : p.status.isTerminal = false := PromotionStatus.isTerminal_of_phase running
  -- a status that keeps the records is settled if there are none
  have kept {s : PromotionStatus} (records : s.records = p.status.records) :
      s.Settled ↔ p.status.records = [] := by
    rw [← shaped.settled_iff unended, PromotionStatus.Settled, records, PromotionStatus.Settled]
  cases h with
  | refused err promotes drafts stamps persists =>
    simp only [List.filterMap_append, promotes.unwritten.stored, drafts.unwritten.stored,
      stamps.unwritten.stored, List.nil_append] at stored
    cases persists <;> cases stored
  | concluded promotes drafts stamps persists concludes =>
    rename_i steps draft stamp writes rest promoted s₀ s₁ written
    have drafted := drafted_sequentially promotes drafts
      (fun ctx steps a ha => engine ctx steps a (List.mem_append_left _ ha)) shaped running
    simp only [List.filterMap_append, promotes.unwritten.stored, drafts.unwritten.stored,
      stamps.unwritten.stored, concludes.unwritten.stored, List.nil_append, List.append_nil]
      at stored
    unfold Reports
    rw [engine_of_concluded stamps persists concludes]
    simp only [List.filterMap_append, promotes.unwritten.refused, drafts.unwritten.refused,
      stamps.unwritten.refused, concludes.unwritten.refused, List.nil_append, List.append_nil]
    rw [← List.filterMap_append]
    cases persists with
    | replaced err invalid now v =>
      -- the errored status that takes the place of another keeps the records
      cases List.mem_singleton.mp (show s ∈ [fallback p s₁ err now] from stored)
      have records : (fallback p s₁ err now).records = p.status.records := rfl
      rw [kept records]
      exact (or_iff_left fun reports => by cases reports.2).symm
    | written v =>
      cases List.mem_singleton.mp (show s ∈ [s₁] from stored)
      rcases drafted with ⟨records, uncalled⟩ | ⟨r, answered, phase, settled⟩
      · rw [kept (stamps.records.trans records)]
        refine (or_iff_left fun reports => ?_).symm
        obtain ⟨⟨r, hr, _⟩, _⟩ := reports
        exact uncalled r hr
      · rw [answered]
        have final : r.phase.isTerminal = true := by
          rwa [PromotionStatus.isTerminal_of_phase (stamps.phase.trans phase)] at ended
        refine iff_of_true ?_ (.inr ⟨⟨r, List.mem_cons_self, final⟩, rfl⟩)
        rw [PromotionStatus.Settled, stamps.records]
        exact settled final

/-- A Promotion that was taken so far that its steps can be attempted. -/
structure Readied (p q : Promotion) : Prop where
  spec : q.spec = p.spec
  annotations : q.metadata.annotations = p.metadata.annotations
  records : q.status.records = p.status.records
  shaped : q.status.Shaped q.spec
  unended : q.status.isTerminal = false

theorem Pends.readied (h : Pends p replies q) (shaped : p.status.Shaped p.spec)
    (unended : p.status.isTerminal = false) : Readied p q ∧ q.status.phase ≠ none := by
  cases h with
  | known known => exact ⟨⟨rfl, rfl, rfl, shaped, unended⟩, known⟩
  | written unknown v =>
    have pended := Traffic.lasting_shaped.pending shaped unknown
    exact ⟨⟨rfl, rfl, rfl, pended, rfl⟩, fun h => by cases h⟩

theorem Begins.readied (h : Begins p replies q) (shaped : p.status.Shaped p.spec)
    (unended : p.status.isTerminal = false) (known : p.status.phase ≠ none) : Readied p q := by
  cases h with
  | running => exact ⟨rfl, rfl, rfl, shaped, unended⟩
  | written waiting now v =>
    have pending : p.status.phase = some .pending := by
      rw [PromotionStatus.isTerminal] at unended
      cases hphase : p.status.phase with
      | none => exact absurd hphase known
      | some phase =>
        rw [hphase] at unended waiting
        cases phase <;> first | rfl | exact absurd rfl waiting | cases unended
    exact ⟨rfl, rfl, rfl, Traffic.lasting_shaped.running now shaped pending, rfl⟩

theorem Pends.unended (h : Pends p replies q) :
    ∀ s ∈ replies.filterMap Reply.stored?, s.isTerminal = false := by
  intro s hs
  cases h with
  | known => cases hs
  | written =>
    cases List.mem_singleton.mp hs
    rfl

theorem Begins.unended (h : Begins p replies q) :
    ∀ s ∈ replies.filterMap Reply.stored?, s.isTerminal = false := by
  intro s hs
  cases h with
  | running => cases hs
  | written =>
    cases List.mem_singleton.mp hs
    rfl

theorem Pends.refused (h : Pends p replies q) : replies.filterMap Reply.refused? = [] := by
  cases h <;> rfl

theorem Begins.refused (h : Begins p replies q) : replies.filterMap Reply.refused? = [] := by
  cases h <;> rfl

/-- What others report or refuse is nothing. -/
theorem reports_append {front back : List Reply} (idle : Idle front)
    (refused : front.filterMap Reply.refused? = []) :
    Reports (front ++ back) ↔ Reports back := by
  unfold Reports
  rw [List.filterMap_append, idle.engine, List.nil_append, List.filterMap_append, refused,
    List.nil_append]

theorem settled_iff_of_approaches {key : Key} (h : c.Approaches key p freight replies e)
    (engine : Sequentially replies) (shaped : p.status.Shaped p.spec)
    (unended : p.status.isTerminal = false) (known : p.status.phase ≠ none)
    (stored : s ∈ replies.filterMap Reply.stored?) (ended : s.isTerminal = true) :
    s.Settled ↔ p.status.records = [] ∨ Reports replies := by
  cases h with
  | blind | stageless | parked | refused => cases stored
  | admitted stage named begins executes =>
    rename_i start rest q
    have readied := begins.readied shaped unended known
    have stored : s ∈ (start ++ rest).filterMap Reply.stored? := stored
    rw [List.filterMap_append] at stored
    rcases List.mem_append.mp stored with early | stored
    · rw [begins.unended s early] at ended
      cases ended
    · have engine : Sequentially rest := fun ctx steps a ha =>
        engine ctx steps a (List.mem_cons_of_mem _ (List.mem_append_right _ ha))
      have settled := settled_iff_of_executes executes engine readied.shaped begins.phase stored
        ended
      rw [readied.records] at settled
      rw [settled]
      have reports : Reports ((_ :: start) ++ rest) ↔ Reports rest :=
        reports_append (begins.idle_read ⟨key.project, p.spec.stage⟩ stage) begins.refused
      exact or_congr_right reports.symm

end Reconciler

namespace Traffic

open Reconciler

/-- A reconcile, of a Promotion as it is stored now, that writes a status by which the
Promotion ends. Whatever goes on around it, the sequential engine answers as it may. -/
structure EndsWith (t : Traffic) (p : Promotion) (replies : List Reply) (s : PromotionStatus) :
    Prop where
  course : ∃ (c : Reconciler) (key : Key) (e : Ending), (c.reconcile key).Course replies e
  current : ∃ key, t.world.store.promotions.get? key = some p
  read : replies.findSome? Reply.read? = some p
  engine : Sequentially replies
  stored : s ∈ replies.filterMap Reply.stored?
  ended : s.isTerminal = true

theorem settled_iff_of_endsWith {t : Traffic} {p : Promotion} {replies : List Reply}
    {s : PromotionStatus} (h : t.EndsWith p replies s) (shaped : p.status.Shaped p.spec) :
    s.Settled ↔ p.status.records = [] ∨ ¬ p.Unaborted ∨ Reports replies := by
  obtain ⟨⟨c, key, e, course⟩, _, read, engine, stored, ended⟩ := h
  cases c.visits_of_course course with
  | blind | absent | ended | unsupplied | unmarked => cases stored
  | aborted p' unended freight request asked terminates =>
    cases read
    have aborted : ¬ p.Unaborted := fun unaborted => unaborted request asked
    cases terminates with
    | ended | refused => cases stored
    | terminated unended now v a n reason =>
      cases List.mem_singleton.mp
        (show s ∈ [p.status.terminated (request.actorFor c.config.name) now] from stored)
      exact iff_of_true (shaped.settled_terminated unended _ now) (.inr (.inl aborted))
  | approached p' unended freight unaborted pends approaches =>
    cases read
    rename_i mark rest q
    obtain ⟨readied, known⟩ := pends.readied shaped unended
    have stored : s ∈ (mark ++ rest).filterMap Reply.stored? := stored
    rw [List.filterMap_append] at stored
    rcases List.mem_append.mp stored with early | stored
    · rw [pends.unended s early] at ended
      cases ended
    · have engine : Sequentially rest := fun ctx steps a ha =>
        engine ctx steps a (List.mem_cons_of_mem _ (List.mem_cons_of_mem _
          (List.mem_append_right _ ha)))
      have settled := settled_iff_of_approaches approaches engine readied.shaped readied.unended
        known stored ended
      rw [settled, readied.records, or_iff_right (not_not_intro unaborted)]
      have reports : Reports ((_ :: _ :: mark) ++ rest) ↔ Reports rest :=
        reports_append (pends.idle_read key freight) pends.refused
      exact or_congr_right reports.symm

/-- However reconciles, aborts and edits take turns: where a Promotion has ended, no step is
in flight unless it has errored, and it ends with a step in flight exactly if it had one, was
not asked to abort, and it is not the engine's report of the end that is stored. -/
theorem settled_of_reached {t : Traffic} (h : Reached sequential t) :
    (∀ change ∈ t.world.store.changes, change.new.status.isTerminal = true →
      change.new.status.Settled ∨ change.new.status.phase = some .errored ∧
        InFlight change.new.status.currentStep change.new.status.records) ∧
    ∀ p replies s, t.EndsWith p replies s →
      (s.Settled ↔ p.status.records = [] ∨ ¬ p.Unaborted ∨ Reports replies) := by
  have created : ∀ p, sequential.intake.promotion p → p.status.Accounted p.spec := by
    intro p hp
    rw [show p.status = .initial from hp]
    exact ⟨PromotionStatus.shaped_of_waiting (.inl rfl) ⟨rfl, rfl, rfl, rfl⟩,
      fun ended => by cases ended⟩
  have orderly := orderly_reached lasting_accounted created h
  constructor
  · intro change hchange ended
    exact (orderly.historic.read change hchange).2.ended ended
  · intro p replies s ends
    obtain ⟨key, current⟩ := ends.current
    exact settled_iff_of_endsWith ends (orderly.historic.kept current).shaped

theorem sequentially_told {engine : Engine (World Unit)} (may : ∀ ctx steps w,
    Sequential.MayAnswer ctx steps (engine ctx steps w).1) {α : Type} (x : Program α)
    (w : World Unit) : Sequentially (x.told (World.perform engine) w) := by
  induction x generalizing w with
  | done a =>
    intro ctx steps a ha
    cases ha
  | ask r next ih =>
    intro ctx steps a ha
    rcases List.mem_cons.mp ha with here | later
    · cases here
      exact may ctx steps w
    · exact ih _ _ ctx steps a later

theorem patientEngine_mayAnswer (ctx : PromotionContext) (steps : List Step) (w : World Unit) :
    sequential.engine ctx steps (patientEngine ctx steps w).1 ∧
      (patientEngine ctx steps w).2 = w :=
  ⟨⟨Unit, _, (), rfl⟩, rfl⟩

theorem reached_waiting : ∃ calls, Reached sequential ⟨waiting, calls⟩ := by
  have allowed : ∀ e ∈ oneWaits, e.Within sequential.intake := by
    intro e he
    rcases List.mem_cons.mp he with rfl | he
    · trivial
    · rcases List.mem_cons.mp he with rfl | he
      · trivial
      · cases List.mem_singleton.mp he
        rfl
  have written := turns_edits ⟨default, .empty, .empty, #[], ()⟩ [] allowed
  obtain ⟨call, _, reconciled⟩ :=
    turns_run patientEngine_mayAnswer [] [] whereOneWaits (.start reconcileOne)
  exact ⟨_, _, ⟨rfl, rfl, rfl⟩, (written.tail (.reconcile _ [] _ _)).trans reconciled⟩

/-- An engine that breaks down over every step. -/
def brittleEngine : Engine (World Unit) := fun ctx steps w =>
  let runner : Runner Unit := ⟨none, fun _ => pure (.crashed .silent)⟩
  let env : Sequential.Setting Unit :=
    ⟨.ofList [("wait", runner)], fun _ _ _ => .ok none, pure default⟩
  ((Sequential.promote env ctx steps ()).1, w)

def brittleReplies : List Reply := reconcileOne.told (World.perform brittleEngine) waiting

/-- The step that waits is in flight when its Promotion errors. -/
theorem settled_of_brittle : ∃ t p replies s, Reached sequential t ∧ t.EndsWith p replies s ∧
    ¬ s.Settled ∧ (∀ change ∈ t.world.store.changes, change.new.status.isTerminal = true →
      change.new.status.Settled ∨ change.new.status.phase = some .errored ∧
        InFlight change.new.status.currentStep change.new.status.records) ∧
    (s.Settled ↔ p.status.records = [] ∨ ¬ p.Unaborted ∨ Reports replies) := by
  obtain ⟨calls, reached⟩ := reached_waiting
  let s := (brittleReplies.filterMap Reply.stored?).headD default
  have stored : waiting.store.promotions.get? ⟨"a", "p"⟩ = some waitingPromotion := by
    decide +kernel
  have ends : EndsWith ⟨waiting, calls⟩ waitingPromotion brittleReplies s :=
    { course := ⟨_, _, _, course_run (World.perform brittleEngine) reconcileOne waiting⟩
      current := ⟨⟨"a", "p"⟩, stored⟩
      read := by decide +kernel
      engine := sequentially_told (fun _ _ _ => ⟨Unit, _, (), rfl⟩) reconcileOne waiting
      stored := by decide +kernel
      ended := by decide +kernel }
  obtain ⟨errored, settled⟩ := settled_of_reached reached
  exact ⟨_, _, _, s, reached, ends, by decide +kernel, errored, settled _ _ _ ends⟩

/-- The world after another look at the Promotion that waits, when its Freight is gone. -/
def afterWithdrawal : World Unit :=
  (reconcileOne.run (World.perform patientEngine) withdrawn).2

def withdrawnPromotion : Promotion :=
  (afterWithdrawal.store.promotions.get? ⟨"a", "p"⟩).getD default

theorem reached_afterWithdrawal : ∃ calls, Reached sequential ⟨afterWithdrawal, calls⟩ := by
  obtain ⟨calls, _, opens, turns⟩ := reached_waiting
  let freight := Freight.fresh (.fresh "a" "f" default) (.warehouse "v")
  have edited : Turn sequential ⟨waiting, calls⟩ ⟨withdrawn, calls⟩ :=
    .edit waiting calls (.putFreight freight ⟨1⟩) trivial
  obtain ⟨call, _, reconciled⟩ :=
    turns_run patientEngine_mayAnswer calls [] withdrawn (.start reconcileOne)
  exact ⟨calls ++ [call], _, opens,
    ((turns.tail edited).tail (.reconcile _ calls _ _)).trans reconciled⟩

/-- The Promotion whose Freight is gone has ended, and its step is in flight. -/
theorem unsettled_of_withdrawn : ∃ t key p, Reached sequential t ∧
    t.world.store.promotions.get? key = some p ∧ p.status.isTerminal = true ∧
      ¬ p.status.Settled := by
  obtain ⟨calls, reached⟩ := reached_afterWithdrawal
  have stored : afterWithdrawal.store.promotions.get? ⟨"a", "p"⟩ = some withdrawnPromotion := by
    decide +kernel
  refine ⟨⟨afterWithdrawal, calls⟩, ⟨"a", "p"⟩, withdrawnPromotion, reached, ?_, ?_, ?_⟩
  · dsimp only
    exact stored
  · decide +kernel
  · decide +kernel

end Traffic

end Drayage
