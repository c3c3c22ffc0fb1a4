import Drayage.Controller.Reconcile
import Drayage.Proofs.Controller.Conduct
import Drayage.Proofs.Store.Evolution

/-!
# The errand of a reconcile

How a reconcile deals with the progress of its Promotion. It has the engine go on from the
step that it has read, or from the first if the directory had to be made. A step at which
the engine has stopped is written only as long as the directory was not removed, and no
other write tells of progress, unless the Promotion ends with it.
-/

namespace Drayage

open Program

/-- How far a reconcile has come with its Promotion. -/
inductive Errand where
  | unread (key : Key)
  /-- `p` was read or written, and had not ended. -/
  | ready (p : Promotion)
  /-- There is a directory for `p`, which was made just now if `fresh`. -/
  | inside (p : Promotion) (fresh : Bool)
  /-- The engine was called; it can go on from `step` if there is one. -/
  | stopped (p : Promotion) (step : Option Nat)
  | closed

namespace Errand

def after : Errand → (r : Request) → r.Answer → Errand
  | .unread _, .getPromotion _, .ok (some p) => if p.status.isTerminal then .closed else .ready p
  | .ready p, .updateStatus _ _ s, .ok v =>
    if s.isTerminal then .closed else .ready (p.withStatus v s)
  | .ready p, .acquire _, .ok fresh => .inside p fresh
  | .inside p _, .promote _ _, .result r =>
    .stopped p (if r.phase = .running then some r.currentStep else none)
  | .inside p _, .promote _ _, _ => .stopped p none
  | .stopped _ _, .updateStatus _ _ _, .ok _ => .closed
  | .stopped p _, .release _, _ => .stopped p none
  | g, _, _ => g

def may : Errand → Request → Prop
  | .unread key, .getPromotion k => k = key
  | .ready p, .updateStatus k _ s => k = p.key ∧
    (s.isTerminal = true ∨ p.status.phase ≠ some .running ∧ s.currentStep = p.status.currentStep)
  | .ready p, .acquire uid => uid = p.metadata.uid
  | .inside p fresh, .promote ctx _ => ctx.start = if fresh then 0 else p.status.currentStep
  | .stopped p step, .updateStatus k _ s => k = p.key ∧
    (s.isTerminal = true ∨ s.phase = some .running ∧ step = some s.currentStep)
  | _, .getPromotion _ | _, .updateStatus _ _ _ | _, .acquire _ | _, .promote _ _ => False
  | _, _ => True

/-- The engine does not put off a Promotion. -/
def expects : Errand → (r : Request) → r.Answer → Prop
  | .unread key, .getPromotion _, .ok (some p) => p.key = key
  | _, .promote _ _, .result r => r.phase ≠ .pending
  | _, _, _ => True

def rules : Rules Errand := ⟨may, expects, after⟩

/-- A status that may be written when the engine was called or could not be. -/
inductive Closes (p : Promotion) (s : PromotionStatus) : Errand → Prop where
  | uncalled (ended : s.isTerminal = true) : Closes p s (.ready p)
  | ended (step : Option Nat) (ended : s.isTerminal = true) : Closes p s (.stopped p step)
  | goesOn (running : s.phase = some .running) : Closes p s (.stopped p (some s.currentStep))

theorem Closes.may {p : Promotion} {s : PromotionStatus} {g : Errand} (h : Closes p s g)
    (v : Nat) : g.may (.updateStatus p.key v s) := by
  cases h with
  | uncalled ended => exact ⟨rfl, .inl ended⟩
  | ended step ended => exact ⟨rfl, .inl ended⟩
  | goesOn running => exact ⟨rfl, .inr ⟨running, rfl⟩⟩

/-- Only the phase and the step matter. -/
theorem Closes.congr {p : Promotion} {s s' : PromotionStatus} {g : Errand} (h : Closes p s g)
    (phase : s'.phase = s.phase) (step : s'.currentStep = s.currentStep) : Closes p s' g := by
  have same : s'.isTerminal = s.isTerminal := congrArg (Option.any Phase.isTerminal) phase
  cases h with
  | uncalled ended => exact .uncalled (same.trans ended)
  | ended step ended => exact .ended step (same.trans ended)
  | goesOn running =>
    rw [← step]
    exact .goesOn (phase.trans running)

theorem Closes.terminal {p : Promotion} {s s' : PromotionStatus} {g : Errand}
    (h : Closes p s g) (ended : s'.isTerminal = true) : Closes p s' g := by
  cases h with
  | uncalled _ => exact .uncalled ended
  | ended step _ => exact .ended step ended
  | goesOn _ => exact .ended _ ended

/-- The clock may be read at any time. -/
theorem obeys_now {α : Type} {ends : α → Errand → Prop} {f : Instant → Program α} {g : Errand}
    (hf : ∀ now, Obeys rules ends (f now) g) : Obeys rules ends (request .now >>= f) g := by
  have may : g.may .now := by cases g <;> trivial
  have after : ∀ now, g.after .now now = g := by
    intro now
    cases g <;> rfl
  refine obeys_request (R := rules) may fun now _ => ?_
  show Obeys rules ends (f now) (g.after .now now)
  rw [after]
  exact hf now

end Errand

open Errand

namespace Reconciler

variable {p : Promotion} (c : Reconciler)

/-- Nothing is asked of the end of a reconcile. -/
def Anyhow {α : Type} : α → Errand → Prop := fun _ _ => True

theorem errand_terminate (request : AbortRequest) (freight : Option Freight) :
    Obeys Errand.rules Anyhow (c.terminate request p freight) (.ready p) := by
  unfold terminate
  split
  · trivial
  · refine obeys_request trivial fun now _ => ?_
    refine obeys_request ⟨rfl, .inl rfl⟩ fun a _ => ?_
    cases a with
    | error e => trivial
    | ok v =>
      exact obeys_request trivial fun _ _ => obeys_request trivial fun _ _ => trivial

theorem errand_writeStatus {s : PromotionStatus} (unstarted : p.status.phase ≠ some .running)
    (step : s.currentStep = p.status.currentStep) (hn : s.isTerminal = false) :
    Obeys Errand.rules (fun r g => ∀ q, r = .ok q → ∃ v, q = p.withStatus v s ∧ g = .ready q)
      (writeStatus p s) (.ready p) := by
  unfold writeStatus
  refine obeys_request ⟨rfl, .inr ⟨unstarted, step⟩⟩ fun a _ => ?_
  cases a with
  | error e =>
    intro q hq
    cases hq
  | ok v =>
    intro q hq
    cases hq
    refine ⟨v, rfl, ?_⟩
    show (if s.isTerminal then Errand.closed else .ready (p.withStatus v s)) = _
    rw [if_neg (by rw [hn]; exact Bool.false_ne_true)]
    rfl

theorem errand_settle (stage : Stage) (target : FreightReference) {s : PromotionStatus}
    {step : Option Nat} (h : Closes p s (.stopped p step)) :
    Obeys Errand.rules (fun _ g => Closes p s g) (settle p stage target s)
      (.stopped p step) := by
  have last : Obeys Errand.rules (fun _ g => Closes p s g)
      (if s.isTerminal then Program.request (.release p.metadata.uid) >>= fun _ => pure ()
        else pure ()) (.stopped p step) := by
    split
    · rename_i ended
      exact obeys_request trivial fun _ _ => .ended none ended
    · exact obeys_pure.mpr h
  unfold settle
  dsimp only
  split
  · exact obeys_request trivial fun _ _ => last
  · exact last

/-- What came of the steps, and how far the reconcile has come with it. -/
inductive Tried (p : Promotion) : Promoted → Errand → Prop where
  | status (s : PromotionStatus) {g : Errand} (h : Closes p s g) : Tried p (.status s) g
  | failed (e : PromoteError) : Tried p (.failed e) (.ready p)
  | crashed (crash : Crash) : Tried p (.crashed crash) (.stopped p none)

theorem errand_promote (stage : Stage) (freight : Option Freight) :
    Obeys Errand.rules (Tried p) (c.promote p stage freight) (.ready p) := by
  unfold promote
  split
  · exact .failed _
  · rename_i freight
    split
    · exact .failed _
    · dsimp only
      refine obeys_request rfl fun a _ => ?_
      cases a with
      | error e => exact .failed _
      | ok fresh =>
        let target := freight.reference
        let start := startingStatus p.status target (stage.delivery target) fresh
        -- in a fresh directory the engine begins with the first step
        have from_start : start.currentStep = if fresh then 0 else p.status.currentStep := by
          cases fresh <;> rfl
        refine obeys_request from_start fun a ha => ?_
        have settled {s : PromotionStatus} (step : Option Nat)
            (h : Closes p s (.stopped p step)) : Obeys Errand.rules (Tried p)
              (settle p stage target s >>= fun _ => pure (.status s)) (.stopped p step) :=
          obeys_bind (errand_settle stage target h) fun _ _ h => .status s h
        cases a with
        | crashed crash => exact .crashed crash
        | error e => exact settled none (.ended none rfl)
        | result r =>
          refine settled (if r.phase = .running then some r.currentStep else none) ?_
          cases hphase : r.phase with
          | pending => exact absurd hphase ha
          -- the step that is written is the one that the engine has stopped at
          | running => exact .goesOn (congrArg some hphase)
          | succeeded | failed | errored | aborted =>
            refine .ended _ ?_
            show (some r.phase).any Phase.isTerminal = true
            rw [hphase]
            rfl

theorem errand_newStatus {promoted : Promoted} {g : Errand} (h : Tried p promoted g) :
    Obeys Errand.rules (Closes p) (newStatus p promoted) g := by
  cases h with
  | status s h => exact h
  | failed e => exact .uncalled rfl
  | crashed crash => exact obeys_request trivial fun _ _ => .ended none rfl

theorem errand_stamp {s : PromotionStatus} {g : Errand} (h : Closes p s g) :
    Obeys Errand.rules (Closes p) (stamp p s) g := by
  unfold stamp
  dsimp only
  split
  · refine obeys_now fun now => ?_
    split
    · exact h.congr rfl rfl
    · exact h.congr rfl rfl
  · split
    · exact h.congr rfl rfl
    · exact h

theorem errand_persist {s : PromotionStatus} {g : Errand} (h : Closes p s g) :
    Obeys Errand.rules Anyhow (persist p s) g := by
  unfold persist
  refine obeys_request (h.may _) fun a _ => ?_
  cases a with
  | ok v => trivial
  | error e =>
    -- the fallback is terminal, so it may be written wherever the status might
    have same : g.after (.updateStatus p.key p.metadata.version s) (.error e) = g := by
      cases h <;> rfl
    show Obeys Errand.rules Anyhow _ (g.after (.updateStatus p.key p.metadata.version s) (.error e))
    rw [same]
    dsimp only
    split
    · trivial
    · refine obeys_now fun now => obeys_request ((h.terminal rfl).may _) fun b _ => ?_
      cases b <;> trivial

/-- A running Promotion is looked at again, which takes nothing but a look at the clock. -/
theorem errand_requeue (s : PromotionStatus) (g : Errand) : Obeys Errand.rules Anyhow
    (if s.phase = some .running then do
        let now ← Program.request .now
        match { p with status := s }.nextDelay c.runnerDefault c.config.interval now with
        | some delay => return .finished (some delay)
        | none => return .crashed (.words "\x60DateTime + TimeDelta\x60 overflowed")
      else return .finished none : Program Ending) g := by
  split
  · refine obeys_now fun now => ?_
    split <;> trivial
  · trivial

theorem errand_conclude (stage : Stage) (freight : Option Freight) (initial : Option Phase)
    (s : PromotionStatus) (g : Errand) :
    Obeys Errand.rules Anyhow (c.conclude p stage freight initial s) g := by
  unfold conclude
  dsimp only
  split
  · split
    · exact obeys_request (by cases g <;> trivial) fun _ _ => c.errand_requeue s _
    · exact c.errand_requeue s g
  · exact c.errand_requeue s g

theorem errand_execute (stage : Stage) (freight : Option Freight) (initial : Option Phase) :
    Obeys Errand.rules Anyhow (c.execute p stage freight initial) (.ready p) := by
  unfold execute
  refine obeys_bind (c.errand_promote stage freight) fun promoted g tried => ?_
  refine obeys_bind (errand_newStatus tried) fun s g closes => ?_
  refine obeys_bind (errand_stamp closes) fun s' g closes => ?_
  refine obeys_bind (errand_persist closes) fun persisted g _ => ?_
  cases persisted with
  | ok s => exact c.errand_conclude stage freight initial s g
  | error e =>
    dsimp only
    split <;> trivial

theorem errand_admitted (stage : Stage) (freight : Option Freight) :
    Obeys Errand.rules Anyhow (c.admitted p stage freight) (.ready p) := by
  unfold admitted
  dsimp only
  split
  · exact c.errand_execute stage freight _
  · rename_i unstarted
    refine obeys_now fun now => ?_
    refine obeys_bind (errand_writeStatus unstarted rfl rfl) fun written g hg => ?_
    cases written with
    | error e => trivial
    | ok q =>
      obtain ⟨v, rfl, rfl⟩ := hg q rfl
      exact c.errand_execute stage freight _

theorem errand_approach (key : Key) (freight : Option Freight) :
    Obeys Errand.rules Anyhow (c.approach key p freight) (.ready p) := by
  unfold approach
  refine obeys_request trivial fun a _ => ?_
  rcases a with e | _ | stage
  · trivial
  · trivial
  · dsimp only
    split
    · exact c.errand_admitted stage freight
    · trivial

theorem errand_unaborted (key : Key) (freight : Option Freight) :
    Obeys Errand.rules Anyhow
      (if p.status.phase.isSome then c.approach key p freight
        else do
          match ← writeStatus p { p.status with phase := some .pending } with
          | .error e => return .failed e
          | .ok p' => c.approach key p' freight) (.ready p) := by
  split
  · exact c.errand_approach key freight
  · rename_i unseen
    have unstarted : p.status.phase ≠ some .running := by
      intro h
      rw [h] at unseen
      exact unseen rfl
    refine obeys_bind (errand_writeStatus unstarted rfl rfl) fun written g hg => ?_
    cases written with
    | error e => trivial
    | ok q =>
      obtain ⟨v, rfl, rfl⟩ := hg q rfl
      exact c.errand_approach key freight

theorem errand_proceed (key : Key) (freight : Option Freight) :
    Obeys Errand.rules Anyhow (c.proceed key p freight) (.ready p) := by
  unfold proceed
  split
  · refine obeys_bind (c.errand_terminate _ freight) fun ended g _ => ?_
    cases ended <;> trivial
  · exact c.errand_unaborted key freight
  · exact c.errand_unaborted key freight

/-- A reconcile is on such an errand from its first request to its last. -/
theorem errand_reconcile (key : Key) :
    Obeys Errand.rules Anyhow (c.reconcile key) (.unread key) := by
  unfold reconcile
  refine obeys_request rfl fun a _ => ?_
  rcases a with e | _ | p
  · trivial
  · trivial
  · show Obeys Errand.rules Anyhow _ (if p.status.isTerminal then .closed else .ready p)
    dsimp only
    split
    · trivial
    · refine obeys_request trivial fun b _ => ?_
      cases b with
      | error e => trivial
      | ok freight => exact c.errand_proceed key freight

end Reconciler

end Drayage
