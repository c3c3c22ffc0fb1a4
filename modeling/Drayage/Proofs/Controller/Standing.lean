import Drayage.Controller.Reconcile
import Drayage.Proofs.Controller.Conduct
import Drayage.Proofs.Store.Evolution

/-!
# Where a reconcile stands

The rules that reconciles keep to. A reconcile first reads its Promotion. From then on it
holds a value that it has read or written, and every write is made against the version of
that value, until it has written a terminal phase. It then owes exactly one notice.
-/

namespace Drayage

open Program

/-- What a reconcile has come to know and to owe. -/
inductive Standing where
  | unread (key : Key)
  /-- `p` is what was last read or written, and it had not ended. -/
  | holding (p : Promotion)
  /-- `p` is held, and its Stage was seen not to name it. -/
  | parked (p : Promotion)
  /-- `p` was written with a terminal phase that is still to be announced. -/
  | owing (p : Promotion)
  /-- There is nothing left to do for the Promotion. -/
  | closed

/-- What the rules are made for: a property of all stored statuses, and the answers that
the engine may give. -/
structure Terms where
  keeps : PromotionSpec → PromotionStatus → Prop
  engine : PromotionContext → List Step → EngineAnswer → Prop

/-- The engine may put off a Promotion that it was asked to carry out. -/
def Terms.Pends (T : Terms) : Prop :=
  ∃ ctx steps r, T.engine ctx steps (.result r) ∧ r.phase = .pending

/-- A notice tells that a Promotion has ended, and in which phase. -/
def Notice.Announces (n : Notice) (p : Promotion) : Prop :=
  n.object = p.key ∧ n.uid = p.metadata.uid ∧
    ∃ phase, p.status.phase = some phase ∧ Notice.reasonFor phase = some n.reason

/-- No request to abort can be read from the annotations of a Promotion. -/
def Promotion.Unaborted (p : Promotion) : Prop :=
  ∀ request, Annotations.abortRequest p.metadata.annotations ≠ .ok (some request)

/-- An engine is called with the progress of a status. -/
def PromotionContext.Resumes (ctx : PromotionContext) (s : PromotionStatus) : Prop :=
  ctx.start = s.currentStep ∧ ctx.records = s.records ∧ ctx.state = s.state

namespace Standing

def after : Standing → (r : Request) → r.Answer → Standing
  | .unread _, .getPromotion _, .ok (some p) =>
    if p.status.isTerminal then .closed else .holding p
  | .unread _, .getPromotion _, .ok none => .closed
  | .holding p, .updateStatus _ _ s, .ok v =>
    if s.isTerminal then .owing (p.withStatus v s) else .holding (p.withStatus v s)
  | .holding _, .updateStatus _ _ _, .error (.notFound _) => .closed
  | .holding p, .getStage _, .ok (some stage) =>
    if stage.currentPromotionName = some p.metadata.name then .holding p else .parked p
  | .owing _, .emit _, _ => .closed
  | g, _, _ => g

def may (T : Terms) : Standing → Request → Prop
  | .unread key, .getPromotion k => k = key
  | .holding p, .updateStatus k v s =>
    k = p.key ∧ v = p.metadata.version ∧ (s.unfit? p.spec = none → T.keeps p.spec s)
  | .holding p, .getStage k => k = ⟨p.metadata.project, p.spec.stage⟩ ∧ p.Unaborted
  | .holding p, .promote ctx steps =>
    p.status.phase = some .running ∧ steps = Step.ofDeclaredSteps p.spec.steps ∧
      T.keeps p.spec p.status ∧ ∃ target collection fresh,
        ctx.Resumes (Reconciler.startingStatus p.status target collection fresh)
  | .owing p, .emit n => n.Announces p
  | _, .getPromotion _ | _, .updateStatus _ _ _ | _, .getStage _ | _, .promote _ _ => False
  | _, .emit _ => False
  | _, _ => True

/-- The store tells what it holds, and refuses a status write as invalid only if the status
is unfit. -/
def expects (T : Terms) : Standing → (r : Request) → r.Answer → Prop
  | .unread key, .getPromotion _, .ok (some p) => p.key = key ∧ T.keeps p.spec p.status
  | .holding p, .updateStatus _ _ s, .ok _ => s.unfit? p.spec = none
  | .holding p, .updateStatus _ _ s, .error e =>
    (∀ k, e ≠ .alreadyExists k) ∧ ∀ k u, e = .invalid k u → s.unfit? p.spec ≠ none
  | _, .promote ctx steps, a => T.engine ctx steps a
  | _, _, _ => True

def rules (T : Terms) : Rules Standing := ⟨may T, expects T, after⟩

/-- The standing in which a reconcile may end. One that is finished for good has seen
that nothing is to be done, unless the status it found was unfit already or its engine
put the Promotion off. -/
def Ends (T : Terms) : Ending → Standing → Prop
  | .finished none, g =>
    g = .closed ∨ (∃ p, g = .parked p) ∨
      ∃ p, g = .holding p ∧ (p.status.unfit? p.spec ≠ none ∨ T.Pends)
  | _, g => ∀ p, g ≠ .owing p

end Standing

end Drayage
