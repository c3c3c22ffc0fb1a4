import Drayage.Proofs.Controller.Shortening
import Drayage.Proofs.Controller.Standing

/-!
# Reconciles keep to the rules

One lemma for every stretch of a reconcile, from the writes at its end up to the whole.
What a property of statuses has to meet so that every write keeps it is `Terms.Lasting`.
-/

namespace Drayage

open Program Standing

/-- A status with the time of its end, if it has ended. -/
def PromotionStatus.ended (s : PromotionStatus) (now : Instant) : PromotionStatus :=
  if s.isTerminal then { s with finishedAt := some now } else s

/-- What an engine answers, unless it crashes. -/
def EngineAnswer.of : Except EngineError EngineResult → EngineAnswer
  | .ok r => .result r
  | .error e => .error e

namespace Terms

variable (T : Terms)

/-- A status that an answer of the engine led to. -/
def Reached (p : Promotion) (s : PromotionStatus) : Prop :=
  ∃ target collection fresh ctx r,
    ctx.Resumes (Reconciler.startingStatus p.status target collection fresh) ∧
    T.engine ctx (Step.ofDeclaredSteps p.spec.steps) (.of r) ∧
    s = Reconciler.resultStatus (Reconciler.startingStatus p.status target collection fresh) r

/-- Everything that a reconcile writes keeps what the terms ask of statuses. -/
structure Lasting : Prop where
  pending : ∀ {spec s}, T.keeps spec s → s.phase = none →
    T.keeps spec { s with phase := some .pending }
  running : ∀ {spec s} now, T.keeps spec s → s.phase = some .pending →
    T.keeps spec { s with phase := some .running, startedAt := some now }
  terminated : ∀ {spec s} actor now, T.keeps spec s → s.isTerminal = false →
    T.keeps spec (s.terminated actor now)
  errored : ∀ {spec s} message now, T.keeps spec s → s.phase = some .running →
    T.keeps spec ((s.errored message).ended now)
  reached : ∀ {p s} now, T.keeps p.spec p.status → p.status.phase = some .running →
    T.Reached p s → T.keeps p.spec (s.ended now)
  refreshed : ∀ {spec s} token, T.keeps spec s →
    T.keeps spec { s with lastHandledRefresh := token }

/-- Nothing is asked of statuses. -/
theorem lasting_true (engine : PromotionContext → List Step → EngineAnswer → Prop) :
    (Terms.mk (fun _ _ => True) engine).Lasting where
  pending _ _ := trivial
  running _ _ _ := trivial
  terminated _ _ _ _ := trivial
  errored _ _ _ _ := trivial
  reached _ _ _ _ := trivial
  refreshed _ _ := trivial

end Terms

theorem PromotionStatus.isTerminal_of_phase {s : PromotionStatus} {phase : Phase}
    (h : s.phase = some phase) : s.isTerminal = phase.isTerminal := by
  rw [isTerminal, h]
  rfl

@[simp] theorem PromotionStatus.phase_ended (s : PromotionStatus) (now : Instant) :
    (s.ended now).phase = s.phase := by
  unfold PromotionStatus.ended
  split <;> rfl

/-- The status in the place of an unfit one is fit if the one before was. -/
theorem unfit?_fallback {p : Promotion} (rejected : PromotionStatus) (e : StoreError)
    (now : Instant) (h : p.status.unfit? p.spec = none) :
    (Reconciler.fallback p rejected e now).unfit? p.spec = none := by
  obtain ⟨h1, h2, _⟩ := unfit?_eq_none_iff.mp h
  exact unfit?_eq_none_iff.mpr ⟨h1, h2, (shortens_truncate _ _).fits⟩

namespace Reconciler

variable {T : Terms} {p : Promotion}

/-- The standing after a status was written over `p`. -/
def written (p : Promotion) (v : Nat) (s : PromotionStatus) : Standing :=
  if s.isTerminal then .owing (p.withStatus v s) else .holding (p.withStatus v s)

/-- A Promotion has ended or is running, unless its engine put it off. -/
def Moves (T : Terms) (s : PromotionStatus) : Prop :=
  s.isTerminal = true ∨ s.phase = some .running ∨ T.Pends

/-- How a final write ends: with the status in the store, with an error that may pass, or
with nothing left that could be written. -/
def Persisted (T : Terms) (p : Promotion) : Except StoreError PromotionStatus → Standing → Prop
  | .ok s, g => ∃ v, g = written p v s ∧ Moves T s
  | .error e, g =>
    if e.isRetryable then g = .holding p
    else g = .closed ∨ (g = .holding p ∧ p.status.unfit? p.spec ≠ none)

theorem obeys_persist (hT : T.Lasting) (hp : T.keeps p.spec p.status)
    (hr : p.status.phase = some .running) {s : PromotionStatus} (hs : T.keeps p.spec s)
    (hm : Moves T s) :
    Obeys (rules T) (Persisted T p) (persist p s) (.holding p) := by
  unfold persist
  refine obeys_request ⟨rfl, rfl, fun _ => hs⟩ fun a ha => ?_
  cases a with
  | ok v => exact ⟨v, rfl, hm⟩
  | error e =>
    obtain ⟨hexists, _⟩ := ha
    cases e with
    | notFound k => exact .inl rfl
    | conflict k expected actual => rfl
    | unavailable reason => rfl
    | alreadyExists k => exact absurd rfl (hexists k)
    | invalid k u =>
      -- the status was refused as unfit, so the Promotion is to end in an error
      refine obeys_request trivial fun now _ => ?_
      let rejected : StoreError := .invalid k u
      have hf : T.keeps p.spec (fallback p s rejected now) :=
        hT.refreshed _ (hT.errored _ now hp hr)
      refine obeys_request ⟨rfl, rfl, fun _ => hf⟩ fun b hb => ?_
      cases b with
      | ok v => exact ⟨v, rfl, .inl rfl⟩
      | error e =>
        obtain ⟨hexists, hinvalid⟩ := hb
        cases e with
        | notFound k => exact .inl rfl
        | conflict k expected actual => rfl
        | unavailable reason => rfl
        | alreadyExists k => exact absurd rfl (hexists k)
        | invalid k u =>
          -- refused a second time: then the stored status was unfit to begin with
          refine .inr ⟨rfl, fun fit => hinvalid k u rfl ?_⟩
          exact unfit?_fallback s rejected now fit

/-- No notice is owed. -/
def Quits : Standing → Prop := fun g => ∀ p, g ≠ .owing p

theorem quits_holding (p : Promotion) : Quits (.holding p) := by
  intro q h
  cases h

theorem quits_closed : Quits .closed := by
  intro q h
  cases h

/-- A refused write leaves what is held, or shows that it is gone. -/
theorem quits_refused (p : Promotion) (k : Key) (v : Nat) (s : PromotionStatus)
    (e : StoreError) : Quits ((Standing.holding p).after (.updateStatus k v s) (.error e)) := by
  cases e <;> first | exact quits_holding p | exact quits_closed

theorem obeys_writeStatus {s : PromotionStatus} (hs : T.keeps p.spec s)
    (hn : s.isTerminal = false) :
    Obeys (rules T) (fun r g => match r with
      | .ok q => ∃ v, q = p.withStatus v s ∧ g = .holding q
      | .error _ => Quits g) (writeStatus p s) (.holding p) := by
  unfold writeStatus
  refine obeys_request ⟨rfl, rfl, fun _ => hs⟩ fun a _ => ?_
  cases a with
  | error e => exact quits_refused p _ _ s e
  | ok v =>
    refine ⟨v, rfl, ?_⟩
    show written p v s = _
    unfold written
    rw [if_neg (by rw [hn]; exact Bool.false_ne_true)]
    rfl

variable (c : Reconciler)

theorem announces_about {p : Promotion} {phase : Phase} {annotations : Dict String String}
    {severity : Severity} {reason message : String} (hp : p.status.phase = some phase)
    (hr : Notice.reasonFor phase = some reason) {m : Metadata} (hk : m.key = p.key)
    (hu : m.uid = p.metadata.uid) :
    (Notice.about m annotations severity reason message).Announces p :=
  ⟨hk, hu, phase, hp, hr⟩

theorem obeys_terminate (hT : T.Lasting) (request : AbortRequest) (freight : Option Freight)
    (hp : T.keeps p.spec p.status) (hn : p.status.isTerminal = false) :
    Obeys (rules T) (fun r g => match r with
      | .ok () => g = .closed
      | .error _ => Quits g) (c.terminate request p freight) (.holding p) := by
  unfold terminate
  rw [if_neg (by rw [hn]; exact Bool.false_ne_true)]
  refine obeys_request trivial fun now _ => ?_
  let s := p.status.terminated (request.actorFor c.config.name) now
  refine obeys_request ⟨rfl, rfl, fun _ => hT.terminated _ now hp hn⟩ fun a _ => ?_
  cases a with
  | error e => exact quits_refused p _ _ s e
  | ok v =>
    refine obeys_request trivial fun _ _ => ?_
    refine obeys_request (R := rules T) ?_ fun _ _ => rfl
    exact announces_about (p := p.withStatus v s) rfl rfl rfl rfl

theorem obeys_settle (stage : Stage) (target : FreightReference) (s : PromotionStatus) :
    Obeys (rules T) (fun _ g => g = .holding p) (settle p stage target s) (.holding p) := by
  have last : Obeys (rules T) (fun _ g => g = .holding p)
      (if s.isTerminal then Program.request (.release p.metadata.uid) >>= fun _ => pure ()
        else pure ()) (.holding p) := by
    split
    · exact obeys_request trivial fun _ _ => rfl
    · exact obeys_pure.mpr rfl
  unfold settle
  dsimp only
  split
  · exact obeys_request trivial fun _ _ => last
  · exact last

theorem obeys_promote (hp : T.keeps p.spec p.status) (hr : p.status.phase = some .running)
    (stage : Stage) (freight : Option Freight) :
    Obeys (rules T) (fun promoted g => g = .holding p ∧
      ∀ s, promoted = .status s → T.Reached p s) (c.promote p stage freight) (.holding p) := by
  unfold promote
  split
  · exact ⟨rfl, fun s hs => by cases hs⟩
  · rename_i freight
    split
    · exact ⟨rfl, fun s hs => by cases hs⟩
    · dsimp only
      refine obeys_request trivial fun a _ => ?_
      cases a with
      | error e => exact ⟨rfl, fun s hs => by cases hs⟩
      | ok fresh =>
        let target := freight.reference
        let collection := stage.delivery target
        let start := startingStatus p.status target collection fresh
        let ctx := c.context p stage target collection start
        have resumes : ctx.Resumes start := ⟨rfl, rfl, rfl⟩
        refine obeys_request ⟨hr, rfl, hp, target, collection, fresh, resumes⟩ fun a ha => ?_
        have settled : ∀ r : Except EngineError EngineResult, a = .of r →
            Obeys (rules T) (fun promoted g => g = Standing.holding p ∧
              ∀ s, promoted = Promoted.status s → T.Reached p s)
              (settle p stage target (resultStatus start r) >>= fun _ =>
                pure (.status (resultStatus start r))) (.holding p) := by
          rintro r rfl
          refine obeys_bind (obeys_settle stage target _) ?_
          rintro _ _ rfl
          refine ⟨rfl, fun s hs => ?_⟩
          cases hs
          exact ⟨target, collection, fresh, ctx, r, resumes, ha, rfl⟩
        cases a with
        | crashed crash => exact ⟨rfl, fun s hs => by cases hs⟩
        | result r => exact settled (.ok r) rfl
        | error e => exact settled (.error e) rfl

/-- What a reconcile writes at last, but for the time and the refresh: a status that the
engine led to, or an error. -/
def Results (T : Terms) (p : Promotion) (s : PromotionStatus) : Prop :=
  (∃ message, s = p.status.errored message) ∨ T.Reached p s

theorem obeys_newStatus {promoted : Promoted}
    (h : ∀ s, promoted = .status s → T.Reached p s) :
    Obeys (rules T) (fun s g => g = .holding p ∧ Results T p s) (newStatus p promoted)
      (.holding p) := by
  unfold newStatus
  cases promoted with
  | status s => exact ⟨rfl, .inr (h s rfl)⟩
  | failed e => exact ⟨rfl, .inl ⟨_, rfl⟩⟩
  | crashed crash => exact obeys_request trivial fun _ _ => ⟨rfl, .inl ⟨_, rfl⟩⟩

theorem obeys_stamp (s : PromotionStatus) :
    Obeys (rules T) (fun s' g => g = .holding p ∧
      ∃ now token, s' = { s.ended now with lastHandledRefresh := token }) (stamp p s)
      (.holding p) := by
  unfold stamp
  dsimp only
  split
  · rename_i ht
    refine obeys_request trivial fun now _ => ?_
    have ended : s.ended now = { s with finishedAt := some now } := by
      rw [PromotionStatus.ended, if_pos ht]
    split
    · exact ⟨rfl, now, _, by rw [ended]⟩
    · exact ⟨rfl, now, s.lastHandledRefresh, by rw [ended]⟩
  · rename_i ht
    have same : s.ended default = s := by rw [PromotionStatus.ended, if_neg ht]
    split
    · exact ⟨rfl, default, _, by rw [same]⟩
    · exact ⟨rfl, default, s.lastHandledRefresh, by rw [same]⟩

theorem keeps_results (hT : T.Lasting) (hp : T.keeps p.spec p.status)
    (hr : p.status.phase = some .running) {s : PromotionStatus} (hs : Results T p s)
    (now : Instant) (token : Option String) :
    T.keeps p.spec { s.ended now with lastHandledRefresh := token } := by
  rcases hs with ⟨message, rfl⟩ | hs
  · exact hT.refreshed token (hT.errored message now hp hr)
  · exact hT.refreshed token (hT.reached now hp hr hs)

theorem moves_results {s : PromotionStatus} (hs : Results T p s) (now : Instant)
    (token : Option String) : Moves T { s.ended now with lastHandledRefresh := token } := by
  show (s.ended now).phase.any Phase.isTerminal = true ∨
    (s.ended now).phase = some .running ∨ T.Pends
  rw [PromotionStatus.phase_ended]
  -- an error is terminal; a result is what the engine made of it
  rcases hs with ⟨message, rfl⟩ | ⟨target, collection, fresh, ctx, r, _, ha, rfl⟩
  · exact .inl rfl
  · cases r with
    | error e => exact .inl rfl
    | ok r =>
      show (some r.phase).any Phase.isTerminal = true ∨ some r.phase = some .running ∨ T.Pends
      cases hphase : r.phase with
      | pending => exact .inr (.inr ⟨ctx, _, r, ha, hphase⟩)
      | running => exact .inr (.inl rfl)
      | succeeded | failed | errored | aborted => exact .inl rfl

/-- The end of a Promotion is always announced. -/
theorem endNotice_of_terminal (p : Promotion) (v : Nat) (stage : Stage)
    (freight : Option Freight) {s : PromotionStatus} (h : s.isTerminal = true) :
    ∃ n, c.endNotice p stage freight s = some n ∧ n.Announces (p.withStatus v s) := by
  unfold PromotionStatus.isTerminal at h
  cases hphase : s.phase with
  | none => simp [hphase] at h
  | some phase =>
    have reason : ∃ reason, Notice.reasonFor phase = some reason := by
      cases phase with
      | pending | running => simp [hphase, Phase.isTerminal] at h
      | succeeded | failed | errored | aborted => exact ⟨_, rfl⟩
    obtain ⟨reason, hreason⟩ := reason
    unfold endNotice
    simp only [hphase, hreason, Option.bind_eq_bind, Option.bind_some, Option.pure_def]
    exact ⟨_, rfl, announces_about hphase hreason rfl rfl⟩

theorem obeys_conclude {initial : Option Phase} (hi : initial.any Phase.isTerminal = false)
    (stage : Stage) (freight : Option Freight) {s : PromotionStatus} (hm : Moves T s) (v : Nat) :
    Obeys (rules T) (Ends T) (c.conclude p stage freight initial s) (written p v s) := by
  unfold conclude written
  dsimp only
  -- a phase that was open at the beginning has changed if it is terminal now
  by_cases ht : s.isTerminal = true
  · have changed : s.phase ≠ initial := by
      rintro rfl
      exact absurd ht (by rw [PromotionStatus.isTerminal, hi]; exact Bool.false_ne_true)
    have still : s.phase ≠ some .running := by
      intro h
      rw [PromotionStatus.isTerminal, h] at ht
      cases ht
    obtain ⟨n, hn, announces⟩ := c.endNotice_of_terminal p v stage freight ht
    rw [if_pos ⟨ht, changed⟩, if_pos ht, hn, if_neg still]
    exact obeys_request announces fun _ _ => .inl rfl
  · rw [if_neg (fun h => ht h.1), if_neg ht]
    rcases hm with h | h | h
    · exact absurd h ht
    · rw [if_pos h]
      refine obeys_request trivial fun now _ => ?_
      split <;> exact quits_holding _
    · split
      · refine obeys_request trivial fun now _ => ?_
        split <;> exact quits_holding _
      · exact .inr (.inr ⟨_, rfl, .inr h⟩)

theorem obeys_execute (hT : T.Lasting) (hp : T.keeps p.spec p.status)
    (hr : p.status.phase = some .running) {initial : Option Phase}
    (hi : initial.any Phase.isTerminal = false) (stage : Stage) (freight : Option Freight) :
    Obeys (rules T) (Ends T) (c.execute p stage freight initial) (.holding p) := by
  unfold execute
  refine obeys_bind (c.obeys_promote hp hr stage freight) ?_
  rintro promoted _ ⟨rfl, hreached⟩
  refine obeys_bind (obeys_newStatus hreached) ?_
  rintro s _ ⟨rfl, hs⟩
  refine obeys_bind (obeys_stamp s) ?_
  rintro s' _ ⟨rfl, now, token, rfl⟩
  have kept := keeps_results hT hp hr hs now token
  refine obeys_bind (obeys_persist hT hp hr kept (moves_results hs now token)) ?_
  rintro (e | persisted) g hg
  · unfold Persisted at hg
    dsimp only at hg ⊢
    split at hg
    · rename_i retryable
      subst hg
      rw [if_pos retryable]
      exact quits_holding p
    -- nothing that could be written would pass, so the reconcile is finished
    · rename_i lasting
      rw [if_neg lasting]
      rcases hg with rfl | ⟨rfl, unfit⟩
      · exact .inl rfl
      · exact .inr (.inr ⟨p, rfl, .inl unfit⟩)
  · obtain ⟨v, rfl, hm⟩ := hg
    exact c.obeys_conclude hi stage freight hm v

theorem obeys_admitted (hT : T.Lasting) (hp : T.keeps p.spec p.status)
    (hn : p.status.isTerminal = false) (hphase : p.status.phase ≠ none) (stage : Stage)
    (freight : Option Freight) :
    Obeys (rules T) (Ends T) (c.admitted p stage freight) (.holding p) := by
  unfold admitted
  dsimp only
  by_cases hr : p.status.phase = some .running
  · rw [if_pos hr]
    exact c.obeys_execute hT hp hr hn stage freight
  · rw [if_neg hr]
    have pending : p.status.phase = some .pending := by
      unfold PromotionStatus.isTerminal at hn
      cases h : p.status.phase with
      | none => exact absurd h hphase
      | some phase =>
        rw [h] at hn hr
        cases phase with
        | pending => rfl
        | running => exact absurd rfl hr
        | succeeded | failed | errored | aborted => cases hn
    refine obeys_request trivial fun now _ => ?_
    have kept := hT.running now hp pending
    refine obeys_bind (obeys_writeStatus kept rfl) ?_
    rintro (e | q) g hg
    · exact hg
    · obtain ⟨v, rfl, rfl⟩ := hg
      exact c.obeys_execute hT kept rfl hn stage freight

theorem obeys_approach (hT : T.Lasting) (hp : T.keeps p.spec p.status)
    (hn : p.status.isTerminal = false) (hphase : p.status.phase ≠ none)
    (unaborted : p.Unaborted) (freight : Option Freight) :
    Obeys (rules T) (Ends T) (c.approach p.key p freight) (.holding p) := by
  unfold approach
  refine obeys_request ⟨rfl, unaborted⟩ fun a _ => ?_
  rcases a with e | _ | stage
  · exact quits_holding p
  · exact quits_holding p
  · show Obeys (rules T) (Ends T) _
      (if stage.currentPromotionName = some p.metadata.name then .holding p else .parked p)
    dsimp only
    split
    · exact c.obeys_admitted hT hp hn hphase stage freight
    · exact .inr (.inl ⟨p, rfl⟩)

theorem obeys_unaborted (hT : T.Lasting) (hp : T.keeps p.spec p.status)
    (hn : p.status.isTerminal = false) (unaborted : p.Unaborted) (freight : Option Freight) :
    Obeys (rules T) (Ends T)
      (if p.status.phase.isSome then c.approach p.key p freight
        else do
          match ← writeStatus p { p.status with phase := some .pending } with
          | .error e => return .failed e
          | .ok p' => c.approach p.key p' freight) (.holding p) := by
  cases hphase : p.status.phase with
  | some phase =>
    exact c.obeys_approach hT hp hn (by rw [hphase]; exact Option.some_ne_none _) unaborted
      freight
  | none =>
    have kept := hT.pending hp hphase
    refine obeys_bind (obeys_writeStatus kept rfl) ?_
    rintro (e | q) g hg
    · exact hg
    · obtain ⟨v, rfl, rfl⟩ := hg
      exact c.obeys_approach (p := p.withStatus v _) hT kept rfl (Option.some_ne_none _)
        unaborted freight

theorem obeys_proceed (hT : T.Lasting) (hp : T.keeps p.spec p.status)
    (hn : p.status.isTerminal = false) (freight : Option Freight) :
    Obeys (rules T) (Ends T) (c.proceed p.key p freight) (.holding p) := by
  unfold proceed
  cases h : Annotations.abortRequest p.metadata.annotations with
  | error e =>
    refine c.obeys_unaborted hT hp hn (fun request hrequest => ?_) freight
    rw [h] at hrequest
    cases hrequest
  | ok requested =>
    cases requested with
    | none =>
      refine c.obeys_unaborted hT hp hn (fun request hrequest => ?_) freight
      rw [h] at hrequest
      cases hrequest
    | some request =>
      refine obeys_bind (c.obeys_terminate hT request freight hp hn) ?_
      rintro (e | _) g hg
      · exact hg
      · exact .inl hg

/-- A reconcile keeps to the rules from its first request to its last. -/
theorem obeys_reconcile (hT : T.Lasting) (key : Key) :
    Obeys (rules T) (Ends T) (c.reconcile key) (.unread key) := by
  have quiet : ∀ e, Ends T (.failed e) (.unread key) := by
    intro e q h
    cases h
  unfold reconcile
  refine obeys_request rfl fun a ha => ?_
  rcases a with e | _ | p
  · exact quiet (.store e)
  · exact .inl rfl
  · obtain ⟨rfl, hp⟩ := ha
    show Obeys (rules T) (Ends T) _ (if p.status.isTerminal then .closed else .holding p)
    dsimp only
    split
    · exact .inl rfl
    · rename_i hn
      refine obeys_request trivial fun b _ => ?_
      cases b with
      | error e => exact quits_holding p
      | ok freight => exact c.obeys_proceed hT hp (Bool.eq_false_iff.mpr hn) freight

/-- Ending a Promotion as a call of its own. -/
def abort (request : AbortRequest) (p : Promotion) (freight : Option Freight) :
    Program Ending := do
  match ← c.terminate request p freight with
  | .error e => return .failed e
  | .ok () => return .finished none

theorem obeys_abort (hT : T.Lasting) (request : AbortRequest) (freight : Option Freight)
    (hp : T.keeps p.spec p.status) :
    Obeys (rules T) (Ends T) (c.abort request p freight)
      (if p.status.isTerminal then .closed else .holding p) := by
  unfold abort
  by_cases hn : p.status.isTerminal = true
  · rw [if_pos hn, terminate, if_pos hn]
    exact .inl rfl
  · rw [if_neg hn]
    refine obeys_bind (c.obeys_terminate hT request freight hp (Bool.eq_false_iff.mpr hn)) ?_
    rintro (e | _) g hg
    · exact hg
    · exact .inl hg

end Reconciler

end Drayage
