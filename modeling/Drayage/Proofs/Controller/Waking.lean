import Drayage.Proofs.Controller.Sharding
import Drayage.Proofs.Controller.Steadfast

/-!
# What wakes a controller

A controller writes statuses and asks for verifications, and every such write publishes an
event that the controller receives itself. None of these events calls for a key, or else a
reconcile would set off the next one for ever. What users do calls for exactly one key, if
it is something that a reconcile has to look at.
-/

namespace Drayage

open Relation

namespace StoreEvent

variable {f : ShardFilter} {p : Promotion} {old new : Stage} {status : PromotionStatus}
  {mark value : String} {version : Nat}

theorem promotionMatters_withStatus :
    promotionMatters (.updated p (p.withStatus version status)) = false := by
  simp [promotionMatters, Change.updated, Promotion.withStatus]

/-- An annotation matters if it asks for an abort or a refresh in other words than before. -/
theorem promotionMatters_annotated :
    promotionMatters (.updated p (p.annotated mark value version)) = true ↔
      (mark = Annotations.abortKey ∨ mark = Annotations.refreshKey) ∧
        p.metadata.annotations.get? mark ≠ some value := by
  have changed (key : String) : p.metadata.annotations.get? key ≠
      (p.metadata.annotations.insert mark value).get? key ↔
        key = mark ∧ p.metadata.annotations.get? key ≠ some value := by
    rw [Dict.get?_insert]
    simp only [Std.LawfulEqCmp.compare_eq_iff_eq]
    split <;> simp_all
  simp only [promotionMatters, Change.updated, Promotion.annotated, Metadata.annotate,
    Bool.or_eq_true, bne_iff_ne, changed]
  constructor
  · rintro ((h | ⟨rfl, different⟩) | ⟨rfl, different⟩)
    · exact absurd rfl h
    · exact ⟨.inr rfl, different⟩
    · exact ⟨.inl rfl, different⟩
  · rintro ⟨rfl | rfl, different⟩
    · exact .inr ⟨rfl, different⟩
    · exact .inl (.inr ⟨rfl, different⟩)

theorem keysToEnqueue_promotion (c : Change Promotion) :
    (promotion c).keysToEnqueue f =
      if f.accepts c.new.metadata = true ∧ promotionMatters c = true then [c.new.key]
      else [] := by
  simp only [keysToEnqueue, Bool.and_eq_true]

theorem keysToEnqueue_stage (c : Change Stage) :
    (stage c).keysToEnqueue f = if f.accepts c.new.metadata = true then
      ((admittedBy c).map fun name => ⟨c.new.metadata.project, name⟩).toList else [] := by
  unfold keysToEnqueue
  dsimp only
  cases admittedBy c <;> rfl

/-- A Stage that names the same Promotion as before calls for no key. -/
theorem keysToEnqueue_of_same_name (same : old.currentPromotionName = new.currentPromotionName) :
    (stage (.updated old new)).keysToEnqueue f = [] := by
  have none : admittedBy (.updated old new) = none := if_pos same
  rw [keysToEnqueue_stage, none, Option.map_none, Option.toList_none, ite_self]

end StoreEvent

/-- A call of a kind that reconciles make. -/
def StoreCall.ByController : StoreCall → Prop
  | edit _ => False
  | updateStatus _ _ _ | requestReverification _ _ => True

namespace Store

/-- The keys that are called for by what was published since. -/
def wokenUpTo (f : ShardFilter) (s s' : Store) : List Key :=
  (s.newsUpTo s').flatMap (·.keysToEnqueue f)

variable {f : ShardFilter} {s s' : Store}

theorem wokenUpTo_of_push {e : StoreEvent} (h : s'.published = s.published.push e) :
    s.wokenUpTo f s' = e.keysToEnqueue f := by
  have published : s'.published.toList = s.published.toList ++ [e] := by
    rw [h, Array.toList_push]
  rw [wokenUpTo, newsUpTo_of_append published, List.flatMap_singleton]

theorem wokenUpTo_self : s.wokenUpTo f s = [] := by
  rw [wokenUpTo, newsUpTo_of_append (List.append_nil _).symm, List.flatMap_nil]

/-- An operation that succeeds finds the store available. -/
theorem of_whenAvailable {α : Type} {o : Outcome α} {r : α × Store}
    (h : s.whenAvailable o = .ok r) : o = .ok r := by
  unfold whenAvailable at h
  split at h
  · exact h
  · cases h

theorem createPromotion_ok {p q : Promotion} {candidate : Uid}
    (h : s.createPromotion p candidate = .ok (q, s')) :
    s' = s.writePromotion none (s.admitted p candidate) := by
  have h := of_whenAvailable h
  split at h
  · cases h
  · cases h
    rfl

theorem annotatePromotion_ok {key : Key} {mark value : String} {p : Promotion}
    (h : s.annotatePromotion key mark value = .ok (p, s')) :
    ∃ old, s.promotions.get? key = some old ∧
      s' = s.writePromotion (some old) (old.annotated mark value (s.version + 1)) := by
  have h := of_whenAvailable h
  split at h
  · cases h
  · rename_i old stored
    cases h
    exact ⟨old, stored, rfl⟩

theorem putStage_ok {stage q : Stage} {candidate : Uid}
    (h : s.putStage stage candidate = .ok (q, s')) :
    s' = s.writeStage (s.stages.get? stage.metadata.key) (s.renewed stage candidate) := by
  cases of_whenAvailable h
  rfl

theorem woken_updateStatus (hs : s.Sound) (key : Key) (expected : Nat)
    (status : PromotionStatus) :
    s.wokenUpTo f (s.after (s.updateStatus key expected status)) = [] := by
  cases written : s.updateStatus key expected status with
  | error e => exact wokenUpTo_self
  | ok r =>
    obtain ⟨old, _, _, _, _, _, same⟩ := updateStatus_ok hs written
    show s.wokenUpTo f r.2 = []
    rw [same, wokenUpTo_of_push rfl, StoreEvent.keysToEnqueue_promotion]
    refine if_neg fun matters => ?_
    cases StoreEvent.promotionMatters_withStatus.symm.trans matters.2

theorem woken_requestReverification (key : Key) (now : Instant) :
    s.wokenUpTo f (s.after (s.requestReverification key now)) = [] := by
  rcases after_requestReverification key now with same | ⟨old, m, _, _, _, same⟩
  · rw [same]
    exact wokenUpTo_self
  · rw [same, wokenUpTo_of_push rfl]
    exact StoreEvent.keysToEnqueue_of_same_name rfl

theorem woken_createPromotion {p q : Promotion} {candidate : Uid}
    (h : s.createPromotion p candidate = .ok (q, s')) :
    s.wokenUpTo f s' = if f.accepts p.metadata = true then [p.key] else [] := by
  have accepts : f.accepts (s.admitted p candidate).metadata = f.accepts p.metadata :=
    accepts_congr f (labels_stamped _ _ _ _)
  rw [createPromotion_ok h, wokenUpTo_of_push rfl, StoreEvent.keysToEnqueue_promotion,
    Change.new_replaced, accepts, key_admitted]
  exact if_congr (and_iff_left rfl) rfl rfl

theorem woken_annotatePromotion (hs : s.Sound) {key : Key} {mark value : String} {p : Promotion}
    (h : s.annotatePromotion key mark value = .ok (p, s')) :
    ∃ old, s.promotions.get? key = some old ∧ s.wokenUpTo f s' =
      if f.accepts old.metadata = true ∧
          (mark = Annotations.abortKey ∨ mark = Annotations.refreshKey) ∧
            old.metadata.annotations.get? mark ≠ some value
      then [key] else [] := by
  obtain ⟨old, stored, rfl⟩ := annotatePromotion_ok h
  refine ⟨old, stored, ?_⟩
  rw [wokenUpTo_of_push rfl, StoreEvent.keysToEnqueue_promotion, Change.new_replaced,
    Promotion.key_annotated, hs.promotion_key stored]
  exact if_congr (and_congr_right fun _ => StoreEvent.promotionMatters_annotated) rfl rfl

/-- A Stage is put in the place of one that does not name a Promotion, and names it. -/
def ComesToName (s : Store) (stage : Stage) (name : String) : Prop :=
  stage.currentPromotionName = some name ∧ ∃ old,
    s.stages.get? stage.metadata.key = some old ∧ old.currentPromotionName ≠ some name

theorem admittedBy_renewed_iff {stage : Stage} {candidate : Uid} {name : String} :
    StoreEvent.admittedBy (.replaced (s.stages.get? stage.metadata.key)
      (s.renewed stage candidate)) = some name ↔ s.ComesToName stage name := by
  constructor
  · intro h
    obtain ⟨old, stored, named, unnamed⟩ := named_of_admittedBy h
    exact ⟨named, old, stored, unnamed⟩
  · rintro ⟨named, old, stored, unnamed⟩
    have named : (s.renewed stage candidate).currentPromotionName = some name := named
    rw [stored]
    unfold StoreEvent.admittedBy Change.replaced Change.updated
    dsimp only
    rw [named]
    exact if_neg unnamed

theorem keysToEnqueue_renewed (stage : Stage) (candidate : Uid) :
    (StoreEvent.stage (.replaced (s.stages.get? stage.metadata.key)
      (s.renewed stage candidate))).keysToEnqueue f =
        if f.accepts stage.metadata = true then
          ((StoreEvent.admittedBy (.replaced (s.stages.get? stage.metadata.key)
            (s.renewed stage candidate))).map fun name => ⟨stage.metadata.project, name⟩).toList
        else [] := by
  have accepts : f.accepts (s.renewed stage candidate).metadata = f.accepts stage.metadata :=
    accepts_congr f (labels_stamped _ _ _ _)
  have project : (s.renewed stage candidate).metadata.project = stage.metadata.project :=
    congrArg Key.project (key_renewed stage candidate)
  rw [StoreEvent.keysToEnqueue_stage, Change.new_replaced, accepts, project]

theorem woken_putStage {stage q : Stage} {candidate : Uid} {name : String}
    (h : s.putStage stage candidate = .ok (q, s')) (accepted : f.accepts stage.metadata = true)
    (names : s.ComesToName stage name) :
    s.wokenUpTo f s' = [⟨stage.metadata.project, name⟩] := by
  rw [putStage_ok h, wokenUpTo_of_push rfl, keysToEnqueue_renewed, if_pos accepted,
    admittedBy_renewed_iff.mpr names]
  rfl

theorem unwoken_putStage {stage q : Stage} {candidate : Uid}
    (h : s.putStage stage candidate = .ok (q, s'))
    (silent : f.accepts stage.metadata = false ∨ ∀ name, ¬ s.ComesToName stage name) :
    s.wokenUpTo f s' = [] := by
  rw [putStage_ok h, wokenUpTo_of_push rfl, keysToEnqueue_renewed]
  rcases silent with foreign | unnamed
  · rw [foreign]
    rfl
  · cases admitted : StoreEvent.admittedBy (.replaced (s.stages.get? stage.metadata.key)
        (s.renewed stage candidate)) with
    | none => exact ite_self _
    | some name => exact absurd (admittedBy_renewed_iff.mp admitted) (unnamed name)

theorem unwoken_call (hs : s.Sound) {call : StoreCall} (own : call.ByController) :
    s.wokenUpTo f (call.apply s) = [] := by
  cases call with
  | edit e => exact own.elim
  | updateStatus key expected status => exact woken_updateStatus hs key expected status
  | requestReverification key now => exact woken_requestReverification key now

/-- However many statuses are written and verifications asked for, nothing of it calls for a
key. -/
theorem unwoken_run (hs : s.Sound) {calls : List StoreCall}
    (own : ∀ call ∈ calls, call.ByController) : s.wokenUpTo f (s.run calls) = [] := by
  have published : ∃ es, (s.run calls).published.toList = s.published.toList ++ es ∧
      es.flatMap (·.keysToEnqueue f) = [] := by
    induction calls generalizing s with
    | nil => exact ⟨[], (List.append_nil _).symm, rfl⟩
    | cons call calls ih =>
      obtain ⟨first, more⟩ := List.forall_mem_cons.mp own
      obtain ⟨e, told⟩ := told_call hs call
      have unwoken := unwoken_call (f := f) hs first
      rw [wokenUpTo, newsUpTo_of_append told.published] at unwoken
      obtain ⟨es, later, silent⟩ := ih (sound_call hs call) more
      refine ⟨e.toList ++ es, ?_, ?_⟩
      · show ((call.apply s).run calls).published.toList = _
        rw [later, told.published, List.append_assoc]
      · rw [List.flatMap_append, unwoken, silent, List.append_nil]
  obtain ⟨es, published, silent⟩ := published
  rw [wokenUpTo, newsUpTo_of_append published, silent]

/-- What a store publishes for those who wait for keys to look at. -/
structure WakesForEdits (f : ShardFilter) (s : Store) : Prop where
  status : ∀ key expected status v s', s.updateStatus key expected status = .ok (v, s') →
    s.wokenUpTo f s' = []
  reverification : ∀ key now s', s.requestReverification key now = .ok ((), s') →
    s.wokenUpTo f s' = []
  silence : ∀ calls : List StoreCall, (∀ call ∈ calls, call.ByController) →
    s.wokenUpTo f (s.run calls) = []
  /-- An annotation calls for the Promotion if it is one by which something is asked for, and
  has another value than before. -/
  annotation : ∀ key mark value p s', s.annotatePromotion key mark value = .ok (p, s') →
    ∃ old, s.promotions.get? key = some old ∧ s.wokenUpTo f s' =
      if f.accepts old.metadata = true ∧
          (mark = Annotations.abortKey ∨ mark = Annotations.refreshKey) ∧
            old.metadata.annotations.get? mark ≠ some value
      then [key] else []
  creation : ∀ p candidate q s', s.createPromotion p candidate = .ok (q, s') →
    s.wokenUpTo f s' = if f.accepts p.metadata = true then [p.key] else []
  /-- A Stage calls for the Promotion that it comes to name. It is served or not by the labels
  that it is put with. -/
  named : ∀ stage candidate q s' name, s.putStage stage candidate = .ok (q, s') →
    f.accepts stage.metadata = true → s.ComesToName stage name →
      s.wokenUpTo f s' = [⟨stage.metadata.project, name⟩]
  unnamed : ∀ stage candidate q s', s.putStage stage candidate = .ok (q, s') →
    (f.accepts stage.metadata = false ∨ ∀ name, ¬ s.ComesToName stage name) →
      s.wokenUpTo f s' = []

theorem wakesForEdits (f : ShardFilter) (hs : s.Sound) : s.WakesForEdits f where
  status key expected status v s' h := by
    have unwoken := woken_updateStatus (f := f) hs key expected status
    rwa [h] at unwoken
  reverification key now s' h := by
    have unwoken := woken_requestReverification (s := s) (f := f) key now
    rwa [h] at unwoken
  silence calls own := unwoken_run hs own
  annotation key mark value p s' h := woken_annotatePromotion hs h
  creation p candidate q s' h := woken_createPromotion h
  named stage candidate q s' name h accepted names := woken_putStage h accepted names
  unnamed stage candidate q s' h silent := unwoken_putStage h silent

end Store

namespace World

/-- To answer a request is to make some calls of the store, none of which is an edit. -/
theorem calls_of_answers {ε : Type}
    {may : PromotionContext → List Step → EngineAnswer → Prop} {w w' : World ε} {r : Request}
    {a : r.Answer} (h : w.Answers may r a w') : ∃ calls : List StoreCall,
      (∀ call ∈ calls, call.ByController) ∧ w'.store = w.store.run calls := by
  have one {call : StoreCall} (own : call.ByController) : ∀ c ∈ [call], c.ByController :=
    fun c hc => List.mem_singleton.mp hc ▸ own
  cases r with
  | updateStatus key expected status =>
    obtain ⟨engine, served, _⟩ := h
    have after := snd_attempt (·.updateStatus key expected status) w
    rw [show attempt (·.updateStatus key expected status) w = (a, w') from served] at after
    cases show w' = _ from after
    exact ⟨[.updateStatus key expected status], one trivial, rfl⟩
  | requestReverification key =>
    obtain ⟨engine, served, _⟩ := h
    have after := snd_attempt (·.requestReverification key w.clock) w
    rw [show attempt (·.requestReverification key w.clock) w = (a, w') from served] at after
    cases show w' = _ from after
    exact ⟨[.requestReverification key w.clock], one trivial, rfl⟩
  | now | getPromotion | getStage | getFreight | listPromotions | acquire | release | promote
  | emit =>
    have same : w'.store = w.store := store_of_answers id (h.mono fun _ _ _ _ => trivial)
    refine ⟨[], ?_, same⟩
    intro call hc
    cases hc

end World

namespace Traffic

open Store

variable {S : Surroundings} {t t' : Traffic} {f : ShardFilter}

/-- Whatever the calls do, it is only for an edit that a key is called for. -/
theorem edit_of_woken (h : Reached S t) (turn : Turn S t t')
    (woken : t.world.store.wokenUpTo f t'.world.store ≠ []) : ∃ e : Edit, e.Within S.intake ∧
      t' = ⟨{ t.world with store := e.apply t.world.store }, t.calls⟩ := by
  have sound := h.sound
  cases turn with
  | reconcile | abort | disturb => exact absurd wokenUpTo_self woken
  | answer w w' front back call r next a asks answers =>
    obtain ⟨calls, own, same⟩ := World.calls_of_answers answers
    have unwoken := unwoken_run (f := f) sound own
    rw [← same] at unwoken
    exact absurd unwoken woken
  | edit w calls e within => exact ⟨e, within, rfl⟩

/-- A controller does not wake itself: no write of a reconcile and no verification that it asks
for calls for a key. An edit calls for the one that it is about, if there is something to look
at. -/
theorem woken_by_edits (f : ShardFilter) :
    (∀ calls, (Store.empty.run calls).WakesForEdits f) ∧
      ∀ (S : Surroundings) (t t' : Traffic), Reached S t → Turn S t t' →
        t.world.store.wokenUpTo f t'.world.store ≠ [] → ∃ e : Edit, e.Within S.intake ∧
          t' = ⟨{ t.world with store := e.apply t.world.store }, t.calls⟩ := by
  constructor
  · intro calls
    exact wakesForEdits f (sound_run sound_empty calls)
  · intro S t t' reached turn woken
    exact edit_of_woken reached turn woken

end Traffic

end Drayage
