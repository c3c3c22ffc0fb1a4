import Drayage.Controller.World
import Drayage.Proofs.Controller.Standing
import Drayage.Proofs.Store.History

/-!
# What answers do

The request of a reconcile that keeps to its rules, answered by a world in memory, is one
of a few exchanges. What a reconcile knows stays true whatever others do in between, so
every answer is one that the rules let it expect.
-/

namespace Drayage

open Store

variable {ε : Type}

namespace World

/-- A request is answered as in memory, with an engine that answers as it may and does
nothing else. What its steps do to the world, others can do at any time. -/
def Answers (may : PromotionContext → List Step → EngineAnswer → Prop) (w : World ε)
    (r : Request) (a : r.Answer) (w' : World ε) : Prop :=
  ∃ engine : Engine (World ε), World.perform engine r w = (a, w') ∧
    ∀ ctx steps, r = .promote ctx steps →
      may ctx steps (engine ctx steps w).1 ∧ (engine ctx steps w).2 = w

theorem snd_attempt {α : Type} (op : Store → Outcome α) (w : World ε) :
    (attempt op w).2 = { w with store := w.store.after (op w.store) } := by
  unfold attempt
  cases op w.store <;> rfl

section Answers

variable {w w' : World ε} {r : Request} {a : r.Answer}
  {may may' : PromotionContext → List Step → EngineAnswer → Prop}

theorem Answers.mono (h : w.Answers may r a w')
    (le : ∀ ctx steps a, may ctx steps a → may' ctx steps a) : w.Answers may' r a w' := by
  obtain ⟨engine, served, quiet⟩ := h
  refine ⟨engine, served, fun ctx steps asks => ?_⟩
  obtain ⟨allowed, same⟩ := quiet ctx steps asks
  exact ⟨le _ _ _ allowed, same⟩

variable {key : Key}

/-- What is read of a Promotion is what is stored. -/
theorem Answers.read {p : Option Promotion} (h : w.Answers may (.getPromotion key) (.ok p) w') :
    w' = w ∧ w.store.available = true ∧ w.store.promotions.get? key = p := by
  obtain ⟨engine, served, _⟩ := h
  have told : w.store.getPromotion key = .ok p := congrArg Prod.fst served
  unfold Store.getPromotion whenAvailable at told
  split at told
  · rename_i available
    exact ⟨(congrArg Prod.snd served).symm, available, Except.ok.inj told⟩
  · cases told

variable {expected : Nat} {status : PromotionStatus}

/-- A status that was accepted is stored. -/
theorem Answers.written {v : Nat} (sound : w.store.Sound)
    (h : w.Answers may (.updateStatus key expected status) (.ok v) w') : ∃ old,
      w.store.promotions.get? key = some old ∧ old.key = key ∧
        old.metadata.version = expected ∧ status.unfit? old.spec = none ∧
        v = w.store.version + 1 ∧
        w' = { w with store := w.store.writePromotion (some old) (old.withStatus v status) } := by
  obtain ⟨engine, served, _⟩ := h
  have served : attempt (·.updateStatus key expected status) w = (.ok v, w') := served
  unfold attempt at served
  split at served
  · rename_i accepted
    cases served
    obtain ⟨old, stored, same, version, fit, next, rfl⟩ := updateStatus_ok sound accepted
    exact ⟨old, stored, same, version, fit, next, rfl⟩
  · cases served

/-- A status that was refused changes nothing. -/
theorem Answers.refused {e : StoreError}
    (h : w.Answers may (.updateStatus key expected status) (.error e) w') :
    w' = w ∧ w.store.updateStatus key expected status = .error e := by
  obtain ⟨engine, served, _⟩ := h
  have served : attempt (·.updateStatus key expected status) w = (.error e, w') := served
  unfold attempt at served
  split at served
  · cases served
  · rename_i refused
    cases served
    exact ⟨rfl, refused⟩

end Answers

/-- The notices in `w'` that were not there in `w`. -/
def noticesUpTo (w w' : World ε) : List Notice := w'.notices.toList.drop w.notices.size

theorem noticesUpTo_of_eq {w w' : World ε} (h : w'.notices = w.notices) :
    w.noticesUpTo w' = [] := by
  rw [noticesUpTo, h, ← Array.length_toList, List.drop_length]

theorem noticesUpTo_push (w : World ε) (n : Notice) :
    w.noticesUpTo { w with notices := w.notices.push n } = [n] := by
  rw [noticesUpTo, Array.toList_push, ← Array.length_toList, List.drop_left]

end World

/-- A request that no rule is about. -/
def Request.Aside : Request → Prop
  | .now | .getFreight _ | .listPromotions | .acquire _ | .release _ => True
  | .getPromotion _ | .getStage _ | .updateStatus _ _ _ | .requestReverification _
  | .promote _ _ | .emit _ => False

namespace Standing

variable {T : Terms} {w w' : World ε} {g : Standing} {r : Request} {a : r.Answer}

/-- What the store has to do with a standing: a value that is held had not ended, and is
stored still unless its key was written since. -/
def Backed (s : Store) : Standing → Prop
  | .holding p => s.Pins p ∧ p.status.isTerminal = false
  | .unread _ | .parked _ | .owing _ | .closed => True

theorem Backed.grow {s s' : Store} (h : g.Backed s) (hs : s.Grows s') : g.Backed s' := by
  cases g with
  | holding p => exact ⟨h.1.grow hs, h.2⟩
  | unread | parked | owing | closed => trivial

/-- A request together with its answer and the world after it. -/
inductive Exchange (T : Terms) (w : World ε) : Standing → (r : Request) → r.Answer →
    World ε → Prop where
  | aside (g : Standing) (r : Request) (a : r.Answer) (h : r.Aside) (workspaces : Workspaces) :
      Exchange T w g r a { w with workspaces }
  | read (key : Key) :
      Exchange T w (.unread key) (.getPromotion key) (w.store.getPromotion key) w
  | gated (p : Promotion) (unaborted : p.Unaborted) :
      Exchange T w (.holding p) (.getStage ⟨p.metadata.project, p.spec.stage⟩)
        (w.store.getStage ⟨p.metadata.project, p.spec.stage⟩) w
  | promoted (p : Promotion) (ctx : PromotionContext) (steps : List Step) (a : EngineAnswer)
      (h : T.engine ctx steps a) : Exchange T w (.holding p) (.promote ctx steps) a w
  | wrote (p : Promotion) (status : PromotionStatus)
      (stored : w.store.promotions.get? p.key = some p) (kept : T.keeps p.spec status)
      (fit : status.unfit? p.spec = none) :
      Exchange T w (.holding p) (.updateStatus p.key p.metadata.version status)
        (.ok (w.store.version + 1)) { w with
          store := w.store.writePromotion (some p) (p.withStatus (w.store.version + 1) status) }
  | refused (p : Promotion) (status : PromotionStatus) (e : StoreError)
      (h : w.store.updateStatus p.key p.metadata.version status = .error e) :
      Exchange T w (.holding p) (.updateStatus p.key p.metadata.version status) (.error e) w
  | announced (p : Promotion) (n : Notice) (h : n.Announces p) :
      Exchange T w (.owing p) (.emit n) () { w with notices := w.notices.push n }
  | reverified (g : Standing) (key : Key) (a : Except StoreError Unit) :
      Exchange T w g (.requestReverification key) a
        { w with store := w.store.after (w.store.requestReverification key w.clock) }

theorem exchange_of_answers (hs : w.store.Sound) (hg : g.Backed w.store) (hr : g.may T r)
    (ha : w.Answers T.engine r a w') : Exchange T w g r a w' := by
  obtain ⟨engine, h, hengine⟩ := ha
  cases r with
  | now => cases h; exact .aside g .now _ trivial w.workspaces
  | getFreight key => cases h; exact .aside g (.getFreight key) _ trivial w.workspaces
  | listPromotions => cases h; exact .aside g .listPromotions _ trivial w.workspaces
  | acquire uid =>
    unfold World.perform World.acquire at h
    dsimp only at h
    split at h <;> (cases h; exact .aside g (.acquire uid) _ trivial _)
  | release uid =>
    unfold World.perform World.release at h
    dsimp only at h
    split at h <;> (cases h; exact .aside g (.release uid) _ trivial _)
  | getPromotion key =>
    cases g with
    | unread k =>
      cases (show key = k from hr)
      cases h
      exact .read key
    | holding | parked | owing | closed => exact hr.elim
  | getStage key =>
    cases g with
    | holding p =>
      obtain ⟨rfl, unaborted⟩ := hr
      cases h
      exact .gated p unaborted
    | unread | parked | owing | closed => exact hr.elim
  | promote ctx steps =>
    cases g with
    | holding p =>
      obtain ⟨hmay, hsame⟩ := hengine ctx steps rfl
      have h : engine ctx steps w = (a, w') := h
      rw [h] at hmay hsame
      cases hsame
      exact .promoted p ctx steps a hmay
    | unread | parked | owing | closed => exact hr.elim
  | updateStatus key v status =>
    cases g with
    | holding p =>
      obtain ⟨rfl, rfl, keeps⟩ := hr
      have h : World.attempt (·.updateStatus p.key p.metadata.version status) w = (a, w') := h
      unfold World.attempt at h
      split at h
      · rename_i v s' hu
        cases h
        -- the version pins the value that is held, so this is what was replaced
        obtain ⟨old, stored, _, hv, fit, rfl, rfl⟩ := updateStatus_ok hs hu
        cases hg.1.2 old stored hv
        exact .wrote p status stored (keeps fit) fit
      · rename_i e hu
        cases h
        exact .refused p status e hu
    | unread | parked | owing | closed => exact hr.elim
  | emit n =>
    cases g with
    | owing p => cases h; exact .announced p n hr
    | unread | holding | parked | closed => exact hr.elim
  | requestReverification key =>
    have h : World.attempt (·.requestReverification key w.clock) w = (a, w') := h
    have after := World.snd_attempt (·.requestReverification key w.clock) w
    rw [h] at after
    cases show w' = _ from after
    exact .reverified g key a

theorem after_aside (h : r.Aside) (g : Standing) (a : r.Answer) : g.after r a = g := by
  cases r <;> first | exact h.elim | (cases g <;> rfl)

theorem Exchange.expects (hs : w.store.Sound) (hk : ∀ {k p},
    w.store.promotions.get? k = some p → T.keeps p.spec p.status) (hg : g.Backed w.store)
    (h : Exchange T w g r a w') : g.expects T r a := by
  cases h with
  | aside g r a h workspaces =>
    cases r <;> first | exact h.elim | (cases g <;> trivial)
  | read key =>
    unfold Store.getPromotion whenAvailable
    split
    · cases hp : w.store.promotions.get? key with
      | none => trivial
      | some p => exact ⟨hs.promotion_key hp, hk hp⟩
    · trivial
  | gated p unaborted => trivial
  | promoted p ctx steps a h => exact h
  | wrote p status stored kept fit => exact fit
  | refused p status e h =>
    have known := updateStatus_error h
    refine ⟨fun k he => ?_, fun k u he hfit => ?_⟩
    · rw [he] at known
      rcases known with h | ⟨h, _⟩ | ⟨_, h⟩ | ⟨_, _, h, _⟩ <;> cases h
    · rw [he] at known
      rcases known with h | ⟨h, _⟩ | ⟨_, h⟩ | ⟨old, _, _, stored, hv, unfit⟩
      · cases h
      · cases h
      · cases h
      -- the status was measured by the value that is held
      · rw [hg.1.2 old stored hv, hfit] at unfit
        cases unfit
  | announced p n h => trivial
  | reverified g key a => cases g <;> trivial

theorem Exchange.evolves {I : Intake} (hs : w.store.Sound) (hg : g.Backed w.store)
    (h : Exchange T w g r a w') : Evolves I T.keeps w.store w'.store := by
  cases h with
  | aside g r a h workspaces => exact .edited .same
  | read key => exact .edited .same
  | gated p unaborted => exact .edited .same
  | promoted p ctx steps a h => exact .edited .same
  | wrote p status stored kept fit => exact .advanced p status stored hg.2 fit kept
  | refused p status e h => exact .edited .same
  | announced p n h => exact .edited .same
  | reverified g key a => exact .edited (edited_requestReverification hs key w.clock)

/-- Notices are only added. -/
theorem Exchange.notices (h : Exchange T w g r a w') :
    w'.notices.toList = w.notices.toList ++ w.noticesUpTo w' := by
  have still {u : World ε} (same : u.notices = w.notices) :
      u.notices.toList = w.notices.toList ++ w.noticesUpTo u := by
    rw [World.noticesUpTo_of_eq same, same, List.append_nil]
  cases h with
  | announced p n h => rw [World.noticesUpTo_push, Array.toList_push]
  | aside | read | gated | promoted | wrote | refused | reverified => exact still rfl

theorem Exchange.backed (hs : w.store.Sound) (hg : g.Backed w.store)
    (h : Exchange T w g r a w') : (g.after r a).Backed w'.store := by
  cases h with
  | aside g r a h workspaces =>
    rw [after_aside h]
    exact hg
  | read key =>
    unfold Store.getPromotion whenAvailable
    split
    · cases hp : w.store.promotions.get? key with
      | none => trivial
      | some p =>
        show Backed w.store (if p.status.isTerminal then .closed else .holding p)
        split
        · trivial
        · rename_i unended
          exact ⟨pins_of_stored hs hp, Bool.eq_false_iff.mpr unended⟩
    · trivial
  | gated p unaborted =>
    unfold Store.getStage whenAvailable
    split
    · cases w.store.stages.get? ⟨p.metadata.project, p.spec.stage⟩ with
      | none => exact hg
      | some stage =>
        show Backed w.store
          (if stage.currentPromotionName = some p.metadata.name then .holding p else .parked p)
        split
        · exact hg
        · trivial
    · exact hg
  | promoted p ctx steps a h => exact hg
  | wrote p status stored kept fit =>
    show Backed _ (if status.isTerminal then .owing (p.withStatus _ status)
      else .holding (p.withStatus _ status))
    split
    · trivial
    · rename_i unended
      exact ⟨pins_writePromotion _ rfl, Bool.eq_false_iff.mpr unended⟩
  | refused p status e h => cases e <;> first | exact hg | trivial
  | announced p n h => trivial
  | reverified g key a =>
    have : g.after (.requestReverification key) a = g := by cases g <;> rfl
    rw [this]
    exact hg.grow (edited_requestReverification (I := .any) hs key w.clock).grows

end Standing

end Drayage
