import Drayage.Proofs.Controller.Course
import Drayage.Proofs.Controller.Reconciling

/-!
# What a reconcile asks and does

The courses of a reconcile, one relation for each stretch of it, with every request that is
made and every condition under which it is made. What a reconcile does or does not do,
whatever it is answered, is read off them by cases.
-/

namespace Drayage

open Program

namespace Promotion

variable {p q r : Promotion}

/-- Nothing of a Promotion has changed but its status, and its version with it. -/
structure Keeps (p q : Promotion) : Prop where
  key : q.key = p.key
  uid : q.metadata.uid = p.metadata.uid
  annotations : q.metadata.annotations = p.metadata.annotations
  spec : q.spec = p.spec

theorem Keeps.refl (p : Promotion) : p.Keeps p := ⟨rfl, rfl, rfl, rfl⟩

theorem Keeps.trans (h : p.Keeps q) (h' : q.Keeps r) : p.Keeps r where
  key := h'.key.trans h.key
  uid := h'.uid.trans h.uid
  annotations := h'.annotations.trans h.annotations
  spec := h'.spec.trans h.spec

theorem keeps_withStatus (p : Promotion) (v : Nat) (s : PromotionStatus) :
    p.Keeps (p.withStatus v s) := ⟨rfl, rfl, rfl, rfl⟩

theorem Keeps.unaborted (h : p.Keeps q) (unaborted : p.Unaborted) : q.Unaborted := by
  intro request asked
  rw [h.annotations] at asked
  exact unaborted request asked

end Promotion

namespace Reconciler

variable (c : Reconciler) {p q : Promotion} {stage : Stage} {freight : Option Freight}
  {initial : Option Phase} {s s' : PromotionStatus} {replies : List Reply} {e : Ending}

/-- Tidying up after the engine. -/
inductive Settles (p : Promotion) (stage : Stage) (s : PromotionStatus) : List Reply → Prop where
  | unended (unended : s.isTerminal = false) : Settles p stage s []
  | ended (ended : s.isTerminal = true) (a : Except FileError Unit) :
      Settles p stage s [⟨.release p.metadata.uid, a⟩]
  | repeated (succeeded : s.phase = some .succeeded) (b : Except StoreError Unit)
      (a : Except FileError Unit) : Settles p stage s
        [⟨.requestReverification stage.metadata.key, b⟩, ⟨.release p.metadata.uid, a⟩]

theorem settles_of_course {target : FreightReference} {u : Unit}
    (h : (settle p stage target s).Course replies u) : Settles p stage s replies := by
  have last {replies : List Reply}
      (h : (if s.isTerminal then Program.request (.release p.metadata.uid) >>= fun _ => pure ()
        else pure () : Program Unit).Course replies u) :
      s.isTerminal = false ∧ replies = [] ∨
        s.isTerminal = true ∧ ∃ a, replies = [⟨.release p.metadata.uid, a⟩] := by
    split at h
    · rename_i ended
      obtain ⟨a, rest, rfl, h₁⟩ := course_request.mp h
      obtain ⟨rfl, _⟩ := course_pure.mp h₁
      exact .inr ⟨ended, a, rfl⟩
    · rename_i unended
      obtain ⟨rfl, _⟩ := course_pure.mp h
      exact .inl ⟨Bool.eq_false_iff.mpr unended, rfl⟩
  unfold settle at h
  dsimp only at h
  split at h
  · rename_i again
    obtain ⟨b, rest, rfl, h₁⟩ := course_request.mp h
    -- a success is an end
    rcases last h₁ with ⟨unended, _⟩ | ⟨_, a, rfl⟩
    · rw [PromotionStatus.isTerminal_of_phase again.1] at unended
      cases unended
    · exact .repeated again.1 b a
  · rcases last h with ⟨unended, rfl⟩ | ⟨ended, a, rfl⟩
    · exact .unended unended
    · exact .ended ended a

/-- The status that the engine starts from, for a piece of Freight. -/
def startFor (p : Promotion) (stage : Stage) (f : Freight) (fresh : Bool) : PromotionStatus :=
  startingStatus p.status f.reference (stage.delivery f.reference) fresh

/-- The call of the engine. -/
def engineCall (p : Promotion) (stage : Stage) (f : Freight) (fresh : Bool) : Request :=
  .promote (c.context p stage f.reference (stage.delivery f.reference) (startFor p stage f fresh))
    (Step.ofDeclaredSteps p.spec.steps)

/-- Having the engine carry out the steps. -/
inductive Promotes (p : Promotion) (stage : Stage) (freight : Option Freight) :
    List Reply → Promoted → Prop where
  | unfound (missing : freight = none) : Promotes p stage freight []
      (.failed (.freightNotFound p.spec.freight p.metadata.project))
  | unavailable (f : Freight) (found : freight = some f)
      (unavailable : stage.isAvailable f = false) : Promotes p stage freight []
        (.failed (.freightNotAvailable p.spec.freight stage.metadata.name p.metadata.project))
  | roomless (f : Freight) (found : freight = some f) (available : stage.isAvailable f = true)
      (e : FileError) : Promotes p stage freight [⟨.acquire p.metadata.uid, .error e⟩]
        (.failed (.workspace (Workspaces.pathOf c.config.workspaceRoot p.metadata.uid) e))
  | crashed (f : Freight) (found : freight = some f) (available : stage.isAvailable f = true)
      (fresh : Bool) (crash : Crash) : Promotes p stage freight
        [⟨.acquire p.metadata.uid, .ok fresh⟩, ⟨c.engineCall p stage f fresh, .crashed crash⟩]
        (.crashed crash)
  | answered (f : Freight) (found : freight = some f) (available : stage.isAvailable f = true)
      (fresh : Bool) (r : Except EngineError EngineResult) {replies : List Reply}
      (settles : Settles p stage (resultStatus (startFor p stage f fresh) r) replies) :
      Promotes p stage freight
        (⟨.acquire p.metadata.uid, .ok fresh⟩ :: ⟨c.engineCall p stage f fresh, .of r⟩ :: replies)
        (.status (resultStatus (startFor p stage f fresh) r))

theorem promotes_of_course {promoted : Promoted}
    (h : (c.promote p stage freight).Course replies promoted) :
    c.Promotes p stage freight replies promoted := by
  unfold promote at h
  split at h
  · obtain ⟨rfl, rfl⟩ := course_pure.mp h
    exact .unfound rfl
  · rename_i f
    split at h
    · rename_i unavailable
      obtain ⟨rfl, rfl⟩ := course_pure.mp h
      exact .unavailable f rfl (by simpa using unavailable)
    · rename_i available
      have available : stage.isAvailable f = true := by simpa using available
      dsimp only at h
      obtain ⟨a, rest, rfl, h₁⟩ := course_request.mp h
      cases a with
      | error e =>
        obtain ⟨rfl, rfl⟩ := course_pure.mp h₁
        exact .roomless f rfl available e
      | ok fresh =>
        obtain ⟨a, rest, rfl, h₂⟩ := course_request.mp h₁
        have settled (r : Except EngineError EngineResult)
            (h : (settle p stage f.reference (resultStatus (startFor p stage f fresh) r) >>=
              fun _ => pure (.status (resultStatus (startFor p stage f fresh) r)) :
                Program Promoted).Course rest promoted) : c.Promotes p stage (some f)
              (⟨.acquire p.metadata.uid, .ok fresh⟩ ::
                ⟨c.engineCall p stage f fresh, .of r⟩ :: rest) promoted := by
          obtain ⟨front, u, back, tidied, h₃, rfl⟩ := course_bind.mp h
          obtain ⟨rfl, rfl⟩ := course_pure.mp h₃
          rw [List.append_nil]
          exact .answered f rfl available fresh r (settles_of_course tidied)
        cases a with
        | crashed crash =>
          obtain ⟨rfl, rfl⟩ := course_pure.mp h₂
          exact .crashed f rfl available fresh crash
        | result r => exact settled (.ok r) h₂
        | error e => exact settled (.error e) h₂

/-- The final status, but for the time and the refresh. -/
inductive Drafts (p : Promotion) : Promoted → List Reply → PromotionStatus → Prop where
  | status (s : PromotionStatus) : Drafts p (.status s) [] s
  | failed (e : PromoteError) : Drafts p (.failed e) [] (p.status.errored e.message)
  | crashed (crash : Crash) (a : Except FileError Unit) :
      Drafts p (.crashed crash) [⟨.release p.metadata.uid, a⟩] (p.status.errored crash.message)

theorem drafts_of_course {promoted : Promoted}
    (h : (newStatus p promoted).Course replies s) : Drafts p promoted replies s := by
  unfold newStatus at h
  cases promoted with
  | status s =>
    obtain ⟨rfl, rfl⟩ := course_pure.mp h
    exact .status s
  | failed e =>
    obtain ⟨rfl, rfl⟩ := course_pure.mp h
    exact .failed e
  | crashed crash =>
    obtain ⟨a, rest, rfl, h₁⟩ := course_request.mp h
    obtain ⟨rfl, rfl⟩ := course_pure.mp h₁
    exact .crashed crash a

theorem engine_of_settles (h : Settles p stage s replies) :
    replies.filterMap Reply.engine? = [] := by
  cases h <;> rfl

/-- A Promotion errors as it is, or has what the engine answered. -/
theorem drafted {steps draft : List Reply} {promoted : Promoted}
    (promotes : c.Promotes p stage freight steps promoted)
    (drafts : Drafts p promoted draft s) :
    ((∃ message, s = p.status.errored message) ∧
      ∀ r, .result r ∉ (steps ++ draft).filterMap Reply.engine?) ∨
    ∃ f fresh r, (⟨c.engineCall p stage f fresh, .of r⟩ : Reply) ∈ steps ∧
      (steps ++ draft).filterMap Reply.engine? = [.of r] ∧
      promoted = .status s ∧ s = resultStatus (startFor p stage f fresh) r := by
  cases promotes with
  | unfound | unavailable | roomless =>
    cases drafts
    exact .inl ⟨⟨_, rfl⟩, fun r hr => by cases hr⟩
  | crashed f found available fresh crash =>
    cases drafts
    refine .inl ⟨⟨_, rfl⟩, fun r hr => ?_⟩
    cases List.mem_singleton.mp (show _ ∈ [EngineAnswer.crashed crash] from hr)
  | answered f found available fresh r settles =>
    rename_i tidying
    cases drafts
    refine .inr ⟨f, fresh, r, List.mem_cons_of_mem _ List.mem_cons_self, ?_, rfl, rfl⟩
    show .of r :: (tidying ++ []).filterMap Reply.engine? = _
    rw [List.append_nil, engine_of_settles settles]

/-- The status with the refresh that it answers. -/
def answering (p : Promotion) (s : PromotionStatus) : PromotionStatus :=
  match Annotations.refreshToken p.metadata.annotations with
  | some token => { s with lastHandledRefresh := some token }
  | none => s

/-- The final status with the time of the end and the refresh. -/
inductive Stamps (p : Promotion) (s : PromotionStatus) : List Reply → PromotionStatus → Prop where
  | unended (unended : s.isTerminal = false) : Stamps p s [] (answering p s)
  | ended (ended : s.isTerminal = true) (now : Instant) :
      Stamps p s [⟨.now, now⟩] (answering p { s with finishedAt := some now })

theorem stamps_of_course (h : (stamp p s).Course replies s') : Stamps p s replies s' := by
  have last {s : PromotionStatus} {replies : List Reply}
      (h : (match Annotations.refreshToken p.metadata.annotations with
        | some token => pure { s with lastHandledRefresh := some token }
        | none => pure s : Program PromotionStatus).Course replies s') :
      replies = [] ∧ s' = answering p s := by
    unfold answering
    split at h <;> exact course_pure.mp h
  unfold stamp at h
  dsimp only at h
  split at h
  · rename_i ended
    obtain ⟨now, rest, rfl, h₁⟩ := course_request.mp h
    obtain ⟨rfl, rfl⟩ := last h₁
    exact .ended ended now
  · rename_i unended
    obtain ⟨rfl, rfl⟩ := last h
    exact .unended (Bool.eq_false_iff.mpr unended)

theorem Stamps.phase (h : Stamps p s replies s') : s'.phase = s.phase := by
  cases h <;> (unfold answering; split <;> rfl)

theorem Stamps.records (h : Stamps p s replies s') : s'.records = s.records := by
  cases h <;> (unfold answering; split <;> rfl)

theorem Stamps.unfit? (h : Stamps p s replies s') (spec : PromotionSpec) :
    s'.unfit? spec = s.unfit? spec := by
  cases h <;> (unfold answering; split <;> rfl)

/-- The request to write a status over a Promotion. -/
def write (p : Promotion) (s : PromotionStatus) : Request :=
  .updateStatus p.key p.metadata.version s

/-- The final write, and the one in its place. -/
inductive Persists (p : Promotion) (s : PromotionStatus) :
    List Reply → Except StoreError PromotionStatus → Prop where
  | written (v : Nat) : Persists p s [⟨write p s, .ok v⟩] (.ok s)
  | refused (e : StoreError) (valid : e.isInvalid = false) :
      Persists p s [⟨write p s, .error e⟩] (.error e)
  | replaced (e : StoreError) (invalid : e.isInvalid = true) (now : Instant) (v : Nat) :
      Persists p s [⟨write p s, .error e⟩, ⟨.now, now⟩, ⟨write p (fallback p s e now), .ok v⟩]
        (.ok (fallback p s e now))
  | refusedAgain (e : StoreError) (invalid : e.isInvalid = true) (now : Instant)
      (e' : StoreError) : Persists p s
        [⟨write p s, .error e⟩, ⟨.now, now⟩, ⟨write p (fallback p s e now), .error e'⟩]
        (.error e')

theorem persists_of_course {persisted : Except StoreError PromotionStatus}
    (h : (persist p s).Course replies persisted) : Persists p s replies persisted := by
  unfold persist at h
  obtain ⟨a, rest, rfl, h₁⟩ := course_request.mp h
  cases a with
  | ok v =>
    obtain ⟨rfl, rfl⟩ := course_pure.mp h₁
    exact .written v
  | error e =>
    dsimp only at h₁
    split at h₁
    · rename_i valid
      obtain ⟨rfl, rfl⟩ := course_pure.mp h₁
      exact .refused e (by simpa using valid)
    · rename_i invalid
      have invalid : e.isInvalid = true := by simpa using invalid
      obtain ⟨now, rest, rfl, h₂⟩ := course_request.mp h₁
      obtain ⟨b, rest, rfl, h₃⟩ := course_request.mp h₂
      cases b with
      | ok v =>
        obtain ⟨rfl, rfl⟩ := course_pure.mp h₃
        exact .replaced e invalid now v
      | error e' =>
        obtain ⟨rfl, rfl⟩ := course_pure.mp h₃
        exact .refusedAgain e invalid now e'

/-- The notice of an end, if this is the end. -/
def closing (p : Promotion) (stage : Stage) (freight : Option Freight) (initial : Option Phase)
    (s : PromotionStatus) : Option Notice :=
  if s.isTerminal ∧ s.phase ≠ initial then c.endNotice p stage freight s else none

/-- When to look again at a Promotion that is running with a status. -/
def lookAgain (p : Promotion) (s : PromotionStatus) (now : Instant) : Ending :=
  match { p with status := s }.nextDelay c.runnerDefault c.config.interval now with
  | some delay => .finished (some delay)
  | none => .crashed (.words "\x60DateTime + TimeDelta\x60 overflowed")

/-- The announcement of the end, or the next look. -/
inductive Concludes (p : Promotion) (stage : Stage) (freight : Option Freight)
    (initial : Option Phase) (s : PromotionStatus) : List Reply → Ending → Prop where
  | running (running : s.phase = some .running) (now : Instant) :
      Concludes p stage freight initial s [⟨.now, now⟩] (c.lookAgain p s now)
  | silent (resting : s.phase ≠ some .running)
      (nothing : c.closing p stage freight initial s = none) :
      Concludes p stage freight initial s [] (.finished none)
  | announced (resting : s.phase ≠ some .running) (n : Notice)
      (closing : c.closing p stage freight initial s = some n) :
      Concludes p stage freight initial s [⟨.emit n, ()⟩] (.finished none)

theorem concludes_of_course (h : (c.conclude p stage freight initial s).Course replies e) :
    c.Concludes p stage freight initial s replies e := by
  -- what comes after the notice, if there is one
  have last {replies : List Reply}
      (h : (if s.phase = some .running then do
          let now ← Program.request .now
          match { p with status := s }.nextDelay c.runnerDefault c.config.interval now with
          | some delay => return .finished (some delay)
          | none => return .crashed (.words "\x60DateTime + TimeDelta\x60 overflowed")
        else return .finished none : Program Ending).Course replies e) :
      (s.phase = some .running ∧ ∃ now, replies = [⟨.now, now⟩] ∧ e = c.lookAgain p s now) ∨
        (s.phase ≠ some .running ∧ replies = [] ∧ e = .finished none) := by
    split at h
    · rename_i running
      obtain ⟨now, rest, rfl, h₁⟩ := course_request.mp h
      refine .inl ⟨running, now, ?_⟩
      unfold lookAgain
      split at h₁
      · obtain ⟨rfl, rfl⟩ := course_pure.mp h₁
        exact ⟨rfl, rfl⟩
      · obtain ⟨rfl, rfl⟩ := course_pure.mp h₁
        exact ⟨rfl, rfl⟩
    · rename_i resting
      exact .inr ⟨resting, course_pure.mp h⟩
  have quiet (nothing : c.closing p stage freight initial s = none)
      (h : (s.phase = some .running ∧ ∃ now, replies = [⟨.now, now⟩] ∧ e = c.lookAgain p s now) ∨
        (s.phase ≠ some .running ∧ replies = [] ∧ e = .finished none)) :
      c.Concludes p stage freight initial s replies e := by
    rcases h with ⟨running, now, rfl, rfl⟩ | ⟨resting, rfl, rfl⟩
    · exact .running running now
    · exact .silent resting nothing
  unfold conclude at h
  dsimp only at h
  split at h
  · rename_i ended
    have same : c.closing p stage freight initial s = c.endNotice p stage freight s :=
      if_pos ended
    split at h
    · rename_i n notice
      obtain ⟨_, rest, rfl, h₁⟩ := course_request.mp h
      rcases last h₁ with ⟨running, _⟩ | ⟨resting, rfl, rfl⟩
      · rw [PromotionStatus.isTerminal_of_phase running] at ended
        cases ended.1
      · exact .announced resting n (same.trans notice)
    · rename_i notice
      exact quiet (same.trans notice) (last h)
  · rename_i unended
    exact quiet (if_neg unended) (last h)

/-- Carrying out the steps of a running Promotion, up to the end of the reconcile. -/
inductive Executes (p : Promotion) (stage : Stage) (freight : Option Freight)
    (initial : Option Phase) : List Reply → Ending → Prop where
  | concluded {steps draft stamp writes rest : List Reply} {promoted : Promoted}
      {s s' written : PromotionStatus} {e : Ending}
      (promotes : c.Promotes p stage freight steps promoted) (drafts : Drafts p promoted draft s)
      (stamps : Stamps p s stamp s') (persists : Persists p s' writes (.ok written))
      (concludes : c.Concludes p stage freight initial written rest e) :
      Executes p stage freight initial (steps ++ (draft ++ (stamp ++ (writes ++ rest)))) e
  | refused {steps draft stamp writes : List Reply} {promoted : Promoted}
      {s s' : PromotionStatus} (err : StoreError)
      (promotes : c.Promotes p stage freight steps promoted) (drafts : Drafts p promoted draft s)
      (stamps : Stamps p s stamp s') (persists : Persists p s' writes (.error err)) :
      Executes p stage freight initial (steps ++ (draft ++ (stamp ++ writes)))
        (if err.isRetryable then .failed (.store err) else .finished none)

theorem executes_of_course (h : (c.execute p stage freight initial).Course replies e) :
    c.Executes p stage freight initial replies e := by
  unfold execute at h
  obtain ⟨steps, promoted, _, hsteps, h₁, rfl⟩ := course_bind.mp h
  obtain ⟨draft, s, _, hdraft, h₂, rfl⟩ := course_bind.mp h₁
  obtain ⟨stamp, s', _, hstamp, h₃, rfl⟩ := course_bind.mp h₂
  obtain ⟨writes, persisted, rest, hwrites, h₄, rfl⟩ := course_bind.mp h₃
  have promotes := c.promotes_of_course hsteps
  have drafts := drafts_of_course hdraft
  have stamps := stamps_of_course hstamp
  have persists := persists_of_course hwrites
  cases persisted with
  | ok written => exact .concluded promotes drafts stamps persists (c.concludes_of_course h₄)
  | error err =>
    obtain ⟨rfl, rfl⟩ := course_pure.mp h₄
    rw [List.append_nil]
    exact .refused err promotes drafts stamps persists

/-- Ending a Promotion on request. -/
inductive Terminates (request : AbortRequest) (p : Promotion) (freight : Option Freight) :
    List Reply → Except ReconcileError Unit → Prop where
  | ended (ended : p.status.isTerminal = true) : Terminates request p freight [] (.ok ())
  | refused (unended : p.status.isTerminal = false) (now : Instant) (e : StoreError) :
      Terminates request p freight
        [⟨.now, now⟩,
          ⟨write p (p.status.terminated (request.actorFor c.config.name) now), .error e⟩]
        (.error (.store e))
  | terminated (unended : p.status.isTerminal = false) (now : Instant) (v : Nat)
      (a : Except FileError Unit) (n : Notice) (reason : n.reason = Notice.abortedReason) :
      Terminates request p freight
        [⟨.now, now⟩,
          ⟨write p (p.status.terminated (request.actorFor c.config.name) now), .ok v⟩,
          ⟨.release p.metadata.uid, a⟩, ⟨.emit n, ()⟩] (.ok ())

theorem terminates_of_course {request : AbortRequest} {r : Except ReconcileError Unit}
    (h : (c.terminate request p freight).Course replies r) :
    c.Terminates request p freight replies r := by
  unfold terminate at h
  split at h
  · rename_i ended
    obtain ⟨rfl, rfl⟩ := course_pure.mp h
    exact .ended ended
  · rename_i unended
    have unended := Bool.eq_false_iff.mpr unended
    obtain ⟨now, rest, rfl, h₁⟩ := course_request.mp h
    obtain ⟨a, rest, rfl, h₂⟩ := course_request.mp h₁
    cases a with
    | error e =>
      obtain ⟨rfl, rfl⟩ := course_pure.mp h₂
      exact .refused unended now e
    | ok v =>
      obtain ⟨a, rest, rfl, h₃⟩ := course_request.mp h₂
      obtain ⟨_, rest, rfl, h₄⟩ := course_request.mp h₃
      obtain ⟨rfl, rfl⟩ := course_pure.mp h₄
      exact .terminated unended now v a _ rfl

/-- The statuses of the writes that give a Promotion its first phase and start it. -/
def pended (s : PromotionStatus) : PromotionStatus := { s with phase := some .pending }

def begun (s : PromotionStatus) (now : Instant) : PromotionStatus :=
  { s with phase := some .running, startedAt := some now }

/-- The accepted write that gives a Promotion its first phase, if it has none. -/
inductive Pends (p : Promotion) : List Reply → Promotion → Prop where
  | known (known : p.status.phase ≠ none) : Pends p [] p
  | written (unknown : p.status.phase = none) (v : Nat) :
      Pends p [⟨write p (pended p.status), .ok v⟩] (p.withStatus v (pended p.status))

/-- The accepted write that starts a Promotion, if it is not running. -/
inductive Begins (p : Promotion) : List Reply → Promotion → Prop where
  | running (running : p.status.phase = some .running) : Begins p [] p
  | written (waiting : p.status.phase ≠ some .running) (now : Instant) (v : Nat) :
      Begins p [⟨.now, now⟩, ⟨write p (begun p.status now), .ok v⟩]
        (p.withStatus v (begun p.status now))

theorem Pends.keeps (h : Pends p replies q) : p.Keeps q := by
  cases h with
  | known => exact .refl p
  | written => exact p.keeps_withStatus _ _

theorem Begins.keeps (h : Begins p replies q) : p.Keeps q := by
  cases h with
  | running => exact .refl p
  | written => exact p.keeps_withStatus _ _

theorem Begins.phase (h : Begins p replies q) : q.status.phase = some .running := by
  cases h with
  | running running => exact running
  | written => rfl

/-- Going on with a Promotion whose Stage is still to be seen. -/
inductive Approaches (key : Key) (p : Promotion) (freight : Option Freight) :
    List Reply → Ending → Prop where
  | blind (e : StoreError) :
      Approaches key p freight [⟨.getStage ⟨key.project, p.spec.stage⟩, .error e⟩]
        (.failed (.store e))
  | stageless : Approaches key p freight [⟨.getStage ⟨key.project, p.spec.stage⟩, .ok none⟩]
      (.failed (.stageNotFound ⟨key.project, p.spec.stage⟩))
  | parked (stage : Stage) (unnamed : stage.currentPromotionName ≠ some p.metadata.name) :
      Approaches key p freight [⟨.getStage ⟨key.project, p.spec.stage⟩, .ok (some stage)⟩]
        (.finished none)
  | refused (stage : Stage) (named : stage.currentPromotionName = some p.metadata.name)
      (waiting : p.status.phase ≠ some .running) (now : Instant) (e : StoreError) :
      Approaches key p freight
        [⟨.getStage ⟨key.project, p.spec.stage⟩, .ok (some stage)⟩, ⟨.now, now⟩,
          ⟨write p (begun p.status now), .error e⟩] (.failed (.store e))
  | admitted (stage : Stage) (named : stage.currentPromotionName = some p.metadata.name)
      {start rest : List Reply} {q : Promotion} {e : Ending} (begins : Begins p start q)
      (executes : c.Executes q stage freight p.status.phase rest e) :
      Approaches key p freight
        (⟨.getStage ⟨key.project, p.spec.stage⟩, .ok (some stage)⟩ :: (start ++ rest)) e

/-- The course of a write that answers with the Promotion as it is stored then. -/
theorem course_writeStatus {r : Except ReconcileError Promotion}
    (h : (writeStatus p s).Course replies r) :
    (∃ v, replies = [⟨write p s, .ok v⟩] ∧ r = .ok (p.withStatus v s)) ∨
      ∃ e, replies = [⟨write p s, .error e⟩] ∧ r = .error (.store e) := by
  unfold writeStatus at h
  obtain ⟨a, rest, rfl, h₁⟩ := course_request.mp h
  cases a with
  | ok v =>
    obtain ⟨rfl, rfl⟩ := course_pure.mp h₁
    exact .inl ⟨v, rfl, rfl⟩
  | error e =>
    obtain ⟨rfl, rfl⟩ := course_pure.mp h₁
    exact .inr ⟨e, rfl, rfl⟩

theorem approaches_of_course {key : Key} (h : (c.approach key p freight).Course replies e) :
    c.Approaches key p freight replies e := by
  unfold approach at h
  obtain ⟨a, rest, rfl, h₁⟩ := course_request.mp h
  rcases a with err | _ | stage
  · obtain ⟨rfl, rfl⟩ := course_pure.mp h₁
    exact .blind err
  · obtain ⟨rfl, rfl⟩ := course_pure.mp h₁
    exact .stageless
  · dsimp only at h₁
    split at h₁
    · rename_i named
      unfold admitted at h₁
      dsimp only at h₁
      split at h₁
      · rename_i running
        exact .admitted stage named (.running running) (c.executes_of_course h₁)
      · rename_i waiting
        obtain ⟨now, rest, rfl, h₂⟩ := course_request.mp h₁
        obtain ⟨_, r, rest, written, h₃, rfl⟩ := course_bind.mp h₂
        rcases course_writeStatus written with ⟨v, rfl, rfl⟩ | ⟨err, rfl, rfl⟩
        · exact .admitted stage named (.written waiting now v) (c.executes_of_course h₃)
        · obtain ⟨rfl, rfl⟩ := course_pure.mp h₃
          exact .refused stage named waiting now err
    · rename_i unnamed
      obtain ⟨rfl, rfl⟩ := course_pure.mp h₁
      exact .parked stage unnamed

/-- The course of a whole reconcile. -/
inductive Visits (key : Key) : List Reply → Ending → Prop where
  | blind (e : StoreError) : Visits key [⟨.getPromotion key, .error e⟩] (.failed (.store e))
  | absent : Visits key [⟨.getPromotion key, .ok none⟩] (.finished none)
  | ended (p : Promotion) (ended : p.status.isTerminal = true) :
      Visits key [⟨.getPromotion key, .ok (some p)⟩] (.finished none)
  | unsupplied (p : Promotion) (unended : p.status.isTerminal = false) (e : StoreError) :
      Visits key [⟨.getPromotion key, .ok (some p)⟩,
        ⟨.getFreight ⟨key.project, p.spec.freight⟩, .error e⟩] (.failed (.store e))
  | aborted (p : Promotion) (unended : p.status.isTerminal = false) (freight : Option Freight)
      (request : AbortRequest)
      (asked : Annotations.abortRequest p.metadata.annotations = .ok (some request))
      {rest : List Reply} {r : Except ReconcileError Unit}
      (terminates : c.Terminates request p freight rest r) :
      Visits key (⟨.getPromotion key, .ok (some p)⟩ ::
        ⟨.getFreight ⟨key.project, p.spec.freight⟩, .ok freight⟩ :: rest)
        (match r with
          | .ok () => .finished none
          | .error e => .failed e)
  | unmarked (p : Promotion) (unended : p.status.isTerminal = false) (freight : Option Freight)
      (unaborted : p.Unaborted) (unknown : p.status.phase = none) (e : StoreError) :
      Visits key [⟨.getPromotion key, .ok (some p)⟩,
        ⟨.getFreight ⟨key.project, p.spec.freight⟩, .ok freight⟩,
        ⟨write p (pended p.status), .error e⟩] (.failed (.store e))
  | approached (p : Promotion) (unended : p.status.isTerminal = false)
      (freight : Option Freight) (unaborted : p.Unaborted) {mark rest : List Reply}
      {q : Promotion} {e : Ending} (pends : Pends p mark q)
      (approaches : c.Approaches key q freight rest e) :
      Visits key (⟨.getPromotion key, .ok (some p)⟩ ::
        ⟨.getFreight ⟨key.project, p.spec.freight⟩, .ok freight⟩ :: (mark ++ rest)) e

theorem unaborted_or_asked (p : Promotion) : p.Unaborted ∨ ∃ request,
    Annotations.abortRequest p.metadata.annotations = .ok (some request) := by
  unfold Promotion.Unaborted
  rcases Annotations.abortRequest p.metadata.annotations with err | _ | request
  · exact .inl fun request h => by cases h
  · exact .inl fun request h => by cases h
  · exact .inr ⟨request, rfl⟩

/-- Without a request to abort, a Promotion gets its first phase and is gone on with. -/
theorem proceed_of_unaborted (key : Key) (freight : Option Freight) (unaborted : p.Unaborted) :
    c.proceed key p freight =
      (if p.status.phase.isSome then c.approach key p freight
      else do
        match ← writeStatus p (pended p.status) with
        | .error e => return .failed e
        | .ok p => c.approach key p freight) := by
  unfold proceed
  cases asked : Annotations.abortRequest p.metadata.annotations with
  | error err => rfl
  | ok requested =>
    cases requested with
    | none => rfl
    | some request => exact absurd asked (unaborted request)

/-- Every course of a reconcile is one of these. -/
theorem visits_of_course {key : Key} (h : (c.reconcile key).Course replies e) :
    c.Visits key replies e := by
  unfold reconcile at h
  obtain ⟨a, rest, rfl, h₁⟩ := course_request.mp h
  rcases a with err | _ | p
  · obtain ⟨rfl, rfl⟩ := course_pure.mp h₁
    exact .blind err
  · obtain ⟨rfl, rfl⟩ := course_pure.mp h₁
    exact .absent
  · dsimp only at h₁
    split at h₁
    · rename_i ended
      obtain ⟨rfl, rfl⟩ := course_pure.mp h₁
      exact .ended p ended
    · rename_i unended
      have unended := Bool.eq_false_iff.mpr unended
      obtain ⟨a, rest, rfl, h₂⟩ := course_request.mp h₁
      cases a with
      | error err =>
        obtain ⟨rfl, rfl⟩ := course_pure.mp h₂
        exact .unsupplied p unended err
      | ok freight =>
        rcases unaborted_or_asked p with unaborted | ⟨request, asked⟩
        · dsimp only at h₂
          rw [c.proceed_of_unaborted key freight unaborted] at h₂
          split at h₂
          · rename_i known
            have known : p.status.phase ≠ none := Option.isSome_iff_ne_none.mp known
            exact .approached p unended freight unaborted (.known known)
              (c.approaches_of_course h₂)
          · rename_i unknown
            have unknown : p.status.phase = none := by simpa using unknown
            obtain ⟨_, r, rest, written, h₃, rfl⟩ := course_bind.mp h₂
            rcases course_writeStatus written with ⟨v, rfl, rfl⟩ | ⟨err, rfl, rfl⟩
            · exact .approached p unended freight unaborted (.written unknown v)
                (c.approaches_of_course h₃)
            · obtain ⟨rfl, rfl⟩ := course_pure.mp h₃
              exact .unmarked p unended freight unaborted unknown err
        · dsimp only at h₂
          unfold proceed at h₂
          rw [asked] at h₂
          obtain ⟨front, r, back, terminated, h₃, rfl⟩ := course_bind.mp h₂
          have terminates := c.terminates_of_course terminated
          have visits := @Visits.aborted c key p unended freight request asked front r terminates
          rcases r with err | _
          · obtain ⟨rfl, rfl⟩ := course_pure.mp h₃
            rw [List.append_nil]
            exact visits
          · obtain ⟨rfl, rfl⟩ := course_pure.mp h₃
            rw [List.append_nil]
            exact visits

end Reconciler

end Drayage
