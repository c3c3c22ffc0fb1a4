import Drayage.Controller.Reconcile
import Drayage.Proofs.Controller.Conduct
import Drayage.Proofs.Controller.Reconciling
import Drayage.Proofs.Engine.Trials
import Drayage.Proofs.Store.Evolution

/-!
# What a reconcile tells of completed steps

The records of completed steps and the health checks in a status are its tally. A
reconcile writes the tally that it has read, or the one that it got from the engine, which
goes on from the tally that was read, or from nothing if the directory had to be made.
-/

namespace Drayage

open Program

/-- What is told of completed steps. -/
structure Tally where
  completed : List (StepRecord × Nat)
  checks : List HealthCheck

def Tally.empty : Tally := ⟨[], []⟩

namespace PromotionStatus

def tally (s : PromotionStatus) : Tally := ⟨completions s.records 0, s.healthChecks⟩

/-- An abort completes nothing. -/
theorem tally_terminated (s : PromotionStatus) (actor : String) (now : Instant) :
    (s.terminated actor now).tally = s.tally := by
  have same : completions (s.abortedRecords now) 0 = completions s.records 0 := by
    unfold abortedRecords
    split
    · refine completions_modify _ (fun r unfinished => ?_) fun r completed => ?_
      · split
        · rfl
        · exact unfinished
      · split
        · rename_i running
          rw [running] at completed
          cases completed
        · rfl
    · rfl
  show Tally.mk _ s.healthChecks = _
  rw [show (s.terminated actor now).records = s.abortedRecords now from rfl, same]
  rfl

end PromotionStatus

/-- The engine is to carry out the steps of this Promotion in its directory. -/
def PromotionContext.IsFor (ctx : PromotionContext) (p : Promotion) : Prop :=
  ctx.project = p.metadata.project ∧ ctx.promotion = p.metadata.name ∧
    ∃ root, ctx.workspace = Workspaces.pathOf root p.metadata.uid

/-- What a reconcile can tell of the completed steps of its Promotion. -/
inductive Account where
  | unread
  /-- `p` was read or written. -/
  | holding (p : Promotion)
  /-- There is a directory for `p`, which was made just now if `fresh`. -/
  | inside (p : Promotion) (fresh : Bool)
  /-- The engine was called, and `t` is what it came to. -/
  | answered (p : Promotion) (t : Tally)
  | closed

namespace Account

/-- The tally that the engine goes on from. -/
def opening (p : Promotion) (fresh : Bool) : Tally := if fresh then .empty else p.status.tally

def after : Account → (r : Request) → r.Answer → Account
  | .unread, .getPromotion _, .ok (some p) => .holding p
  | .holding p, .updateStatus _ _ s, .ok v => .holding (p.withStatus v s)
  | .holding p, .acquire _, .ok fresh => .inside p fresh
  | .inside p fresh, .promote _ _, .result r =>
    .answered p ⟨completions r.records 0, (opening p fresh).checks ++ r.healthChecks⟩
  | .inside p fresh, .promote _ _, .error _ => .answered p (opening p fresh)
  | .inside p _, .promote _ _, .crashed _ => .answered p p.status.tally
  | .answered _ _, .updateStatus _ _ _, .ok _ => .closed
  | g, _, _ => g

def may : Account → Request → Prop
  | .unread, .getPromotion _ => True
  | .holding p, .updateStatus k v s =>
    k = p.key ∧ v = p.metadata.version ∧ s.tally = p.status.tally
  | .holding _, .acquire _ => True
  | .inside p fresh, .promote ctx steps =>
    ctx.IsFor p ∧ steps = Step.ofDeclaredSteps p.spec.steps ∧
      ctx.records = if fresh then [] else p.status.records
  | .answered p t, .updateStatus k v s =>
    k = p.key ∧ v = p.metadata.version ∧ (s.tally = p.status.tally ∨ s.tally = t)
  | _, .getPromotion _ | _, .updateStatus _ _ _ | _, .acquire _ | _, .promote _ _ => False
  | _, _ => True

def rules : Rules Account := ⟨may, fun _ _ _ => True, after⟩

/-- A request that has nothing to do with completed steps. -/
def Idle : Request → Prop
  | .now | .getStage _ | .getFreight _ | .listPromotions | .requestReverification _
  | .release _ | .emit _ => True
  | .getPromotion _ | .updateStatus _ _ _ | .acquire _ | .promote _ _ => False

theorem after_idle {r : Request} (h : Idle r) (g : Account) (a : r.Answer) : g.after r a = g := by
  cases r <;> first | exact h.elim | (cases g <;> rfl)

theorem may_idle {r : Request} (h : Idle r) (g : Account) : g.may r := by
  cases r <;> first | exact h.elim | (cases g <;> trivial)

theorem obeys_idle {α : Type} {ends : α → Account → Prop} {r : Request}
    {f : r.Answer → Program α} {g : Account} (h : Idle r)
    (hf : ∀ a, Obeys rules ends (f a) g) : Obeys rules ends (request r >>= f) g := by
  refine obeys_request (R := rules) (may_idle h g) fun a _ => ?_
  show Obeys rules ends (f a) (g.after r a)
  rw [after_idle h]
  exact hf a

/-- A status that may be written over `p`. -/
inductive Tells (p : Promotion) (s : PromotionStatus) : Account → Prop where
  | same (h : s.tally = p.status.tally) : Tells p s (.holding p)
  | answered (t : Tally) (h : s.tally = p.status.tally ∨ s.tally = t) :
      Tells p s (.answered p t)

theorem Tells.may {p : Promotion} {s : PromotionStatus} {g : Account} (h : Tells p s g) :
    g.may (.updateStatus p.key p.metadata.version s) := by
  cases h with
  | same h => exact ⟨rfl, rfl, h⟩
  | answered t h => exact ⟨rfl, rfl, h⟩

/-- Only the tally matters. -/
theorem Tells.congr {p : Promotion} {s s' : PromotionStatus} {g : Account} (h : Tells p s g)
    (tally : s'.tally = s.tally) : Tells p s' g := by
  cases h with
  | same h => exact .same (tally.trans h)
  | answered t h => exact .answered t (h.imp tally.trans tally.trans)

theorem Tells.unchanged {p : Promotion} {s s' : PromotionStatus} {g : Account}
    (h : Tells p s g) (tally : s'.tally = p.status.tally) : Tells p s' g := by
  cases h with
  | same _ => exact .same tally
  | answered t _ => exact .answered t (.inl tally)

end Account

open Account

namespace Reconciler

variable {p : Promotion} (c : Reconciler)

/-- Nothing is asked of the end of a reconcile. -/
def Whatever {α : Type} : α → Account → Prop := fun _ _ => True

theorem account_terminate (request : AbortRequest) (freight : Option Freight) :
    Obeys Account.rules Whatever (c.terminate request p freight) (.holding p) := by
  unfold terminate
  split
  · trivial
  · refine obeys_idle trivial fun now => ?_
    refine obeys_request ⟨rfl, rfl, PromotionStatus.tally_terminated _ _ _⟩ fun a _ => ?_
    cases a with
    | error e => trivial
    | ok v => exact obeys_idle trivial fun _ => obeys_idle trivial fun _ => trivial

theorem account_writeStatus {s : PromotionStatus} (tally : s.tally = p.status.tally) :
    Obeys Account.rules (fun r g => ∀ q, r = .ok q → g = .holding q) (writeStatus p s)
      (.holding p) := by
  unfold writeStatus
  refine obeys_request ⟨rfl, rfl, tally⟩ fun a _ => ?_
  cases a with
  | error e =>
    intro q hq
    cases hq
  | ok v =>
    intro q hq
    cases hq
    rfl

theorem account_settle (stage : Stage) (target : FreightReference) (s : PromotionStatus)
    (g : Account) : Obeys Account.rules (fun _ g' => g' = g) (settle p stage target s) g := by
  have last : Obeys Account.rules (fun _ g' => g' = g)
      (if s.isTerminal then Program.request (.release p.metadata.uid) >>= fun _ => pure ()
        else pure ()) g := by
    split
    · exact obeys_idle trivial fun _ => rfl
    · exact rfl
  unfold settle
  dsimp only
  split
  · exact obeys_idle trivial fun _ => last
  · exact last

/-- What came of the steps, and what can be told of it. -/
inductive Came (p : Promotion) : Promoted → Account → Prop where
  | status (s : PromotionStatus) {g : Account} (h : Tells p s g) : Came p (.status s) g
  | failed (e : PromoteError) : Came p (.failed e) (.holding p)
  | crashed (crash : Crash) : Came p (.crashed crash) (.answered p p.status.tally)

theorem tally_startingStatus (target : FreightReference) (collection : Collection)
    (fresh : Bool) : (startingStatus p.status target collection fresh).tally = opening p fresh := by
  cases fresh <;> rfl

theorem account_promote (stage : Stage) (freight : Option Freight) :
    Obeys Account.rules (Came p) (c.promote p stage freight) (.holding p) := by
  unfold promote
  split
  · exact .failed _
  · rename_i freight
    split
    · exact .failed _
    · dsimp only
      refine obeys_request trivial fun a _ => ?_
      cases a with
      | error e => exact .failed _
      | ok fresh =>
        let target := freight.reference
        let collection := stage.delivery target
        let start := startingStatus p.status target collection fresh
        have records : (c.context p stage target collection start).records =
            if fresh then [] else p.status.records := by
          cases fresh <;> rfl
        refine obeys_request ⟨⟨rfl, rfl, _, rfl⟩, rfl, records⟩ fun a _ => ?_
        have settled {s : PromotionStatus} {t : Tally} (h : s.tally = t) :
            Obeys Account.rules (Came p) (settle p stage target s >>= fun _ => pure (.status s))
              (.answered p t) := by
          refine obeys_bind (account_settle stage target s _) ?_
          rintro _ _ rfl
          exact .status s (.answered t (.inr h))
        have started : start.tally = opening p fresh := tally_startingStatus target collection fresh
        cases a with
        | crashed crash => exact .crashed crash
        | error e => exact settled started
        | result r =>
          refine settled ?_
          show Tally.mk (completions r.records 0) (start.healthChecks ++ r.healthChecks) = _
          rw [← started]
          rfl

theorem account_newStatus {promoted : Promoted} {g : Account} (h : Came p promoted g) :
    Obeys Account.rules (Tells p) (newStatus p promoted) g := by
  cases h with
  | status s h => exact h
  | failed e => exact .same rfl
  | crashed crash => exact obeys_idle trivial fun _ => .answered _ (.inl rfl)

theorem account_stamp {s : PromotionStatus} {g : Account} (h : Tells p s g) :
    Obeys Account.rules (Tells p) (stamp p s) g := by
  unfold stamp
  dsimp only
  split
  · refine obeys_idle trivial fun now => ?_
    split
    · exact h.congr rfl
    · exact h.congr rfl
  · split
    · exact h.congr rfl
    · exact h

theorem account_persist {s : PromotionStatus} {g : Account} (h : Tells p s g) :
    Obeys Account.rules Whatever (persist p s) g := by
  unfold persist
  refine obeys_request h.may fun a _ => ?_
  cases a with
  | ok v => trivial
  | error e =>
    have same : g.after (.updateStatus p.key p.metadata.version s) (.error e) = g := by
      cases h <;> rfl
    show Obeys Account.rules Whatever _
      (g.after (.updateStatus p.key p.metadata.version s) (.error e))
    rw [same]
    dsimp only
    split
    · trivial
    -- what is written instead tells what was told before
    · refine obeys_idle trivial fun now => ?_
      have restored : (fallback p s e now).tally = p.status.tally := rfl
      refine obeys_request (h.unchanged restored).may fun b _ => ?_
      cases b <;> trivial

theorem account_requeue (s : PromotionStatus) (g : Account) : Obeys Account.rules Whatever
    (if s.phase = some .running then do
        let now ← Program.request .now
        match { p with status := s }.nextDelay c.runnerDefault c.config.interval now with
        | some delay => return .finished (some delay)
        | none => return .crashed (.words "\x60DateTime + TimeDelta\x60 overflowed")
      else return .finished none : Program Ending) g := by
  split
  · refine obeys_idle trivial fun now => ?_
    split <;> trivial
  · trivial

theorem account_conclude (stage : Stage) (freight : Option Freight) (initial : Option Phase)
    (s : PromotionStatus) (g : Account) :
    Obeys Account.rules Whatever (c.conclude p stage freight initial s) g := by
  unfold conclude
  dsimp only
  split
  · split
    · exact obeys_idle trivial fun _ => c.account_requeue s g
    · exact c.account_requeue s g
  · exact c.account_requeue s g

theorem account_execute (stage : Stage) (freight : Option Freight) (initial : Option Phase) :
    Obeys Account.rules Whatever (c.execute p stage freight initial) (.holding p) := by
  unfold execute
  refine obeys_bind (c.account_promote stage freight) fun promoted g came => ?_
  refine obeys_bind (account_newStatus came) fun s g tells => ?_
  refine obeys_bind (account_stamp tells) fun s' g tells => ?_
  refine obeys_bind (account_persist tells) fun persisted g _ => ?_
  cases persisted with
  | ok s => exact c.account_conclude stage freight initial s g
  | error e =>
    dsimp only
    split <;> trivial

theorem account_admitted (stage : Stage) (freight : Option Freight) :
    Obeys Account.rules Whatever (c.admitted p stage freight) (.holding p) := by
  unfold admitted
  dsimp only
  split
  · exact c.account_execute stage freight _
  · refine obeys_idle trivial fun now => ?_
    refine obeys_bind (account_writeStatus rfl) fun written g hg => ?_
    cases written with
    | error e => trivial
    | ok q =>
      rw [hg q rfl]
      exact c.account_execute stage freight _

theorem account_approach (key : Key) (freight : Option Freight) :
    Obeys Account.rules Whatever (c.approach key p freight) (.holding p) := by
  unfold approach
  refine obeys_idle trivial fun a => ?_
  rcases a with e | _ | stage
  · trivial
  · trivial
  · dsimp only
    split
    · exact c.account_admitted stage freight
    · trivial

theorem account_unaborted (key : Key) (freight : Option Freight) :
    Obeys Account.rules Whatever
      (if p.status.phase.isSome then c.approach key p freight
        else do
          match ← writeStatus p { p.status with phase := some .pending } with
          | .error e => return .failed e
          | .ok p' => c.approach key p' freight) (.holding p) := by
  split
  · exact c.account_approach key freight
  · refine obeys_bind (account_writeStatus rfl) fun written g hg => ?_
    cases written with
    | error e => trivial
    | ok q =>
      rw [hg q rfl]
      exact c.account_approach key freight

theorem account_proceed (key : Key) (freight : Option Freight) :
    Obeys Account.rules Whatever (c.proceed key p freight) (.holding p) := by
  unfold proceed
  split
  · refine obeys_bind (c.account_terminate _ freight) fun ended g _ => ?_
    cases ended <;> trivial
  · exact c.account_unaborted key freight
  · exact c.account_unaborted key freight

/-- A reconcile accounts for what it writes from its first request to its last. -/
theorem account_reconcile (key : Key) :
    Obeys Account.rules Whatever (c.reconcile key) .unread := by
  unfold reconcile
  refine obeys_request trivial fun a _ => ?_
  rcases a with e | _ | p
  · trivial
  · trivial
  · show Obeys Account.rules Whatever _ (.holding p)
    dsimp only
    split
    · trivial
    · refine obeys_idle trivial fun b => ?_
      cases b with
      | error e => trivial
      | ok freight => exact c.account_proceed key freight

theorem account_abort (request : AbortRequest) (freight : Option Freight) :
    Obeys Account.rules Whatever (c.abort request p freight) (.holding p) := by
  unfold abort
  refine obeys_bind (c.account_terminate request freight) fun ended g _ => ?_
  cases ended <;> trivial

end Reconciler

end Drayage
