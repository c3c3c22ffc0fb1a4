import Drayage.Controller.Trigger
import Drayage.Proofs.Controller.Standing
import Drayage.Proofs.Store.History

/-!
# Events and what they are needed for

A key is at rest when nothing can be done for its Promotion as things are. Whatever ends
the rest publishes an event that calls for the key, so that a key which is at rest now is
either at rest later or due.
-/

namespace Drayage

open Store

namespace Store

/-- One of the events from `seen` on calls for a key. -/
def Due (f : ShardFilter) (seen : Nat) (s : Store) (k : Key) : Prop :=
  ∃ i e, seen ≤ i ∧ s.published[i]? = some e ∧ k ∈ e.keysToEnqueue f

/-- The Promotion with a key is absent or has ended, or nobody asked to abort it and its
Stage does not name it. -/
def Rested (s : Store) (k : Key) : Prop :=
  ∀ p, s.promotions.get? k = some p → p.status.isTerminal = true ∨
    p.Unaborted ∧ ∃ stage, s.stages.get? ⟨k.project, p.spec.stage⟩ = some stage ∧
      stage.currentPromotionName ≠ some k.name

/-- What is stored under a key asks for the same as `p`. -/
def StillAsks (s : Store) (k : Key) (p : Promotion) : Prop :=
  ∃ q, s.promotions.get? k = some q ∧ q.spec = p.spec ∧
    q.metadata.annotations.get? Annotations.abortKey =
      p.metadata.annotations.get? Annotations.abortKey

/-- All that is stored belongs to a shard, and statuses are fit. -/
structure Served (f : ShardFilter) (s : Store) : Prop where
  promotion : ∀ {k p}, s.promotions.get? k = some p →
    f.accepts p.metadata = true ∧ p.status.unfit? p.spec = none
  stage : ∀ {k stage}, s.stages.get? k = some stage → f.accepts stage.metadata = true

end Store

/-- What may be written to a shard. -/
def ShardFilter.intake (f : ShardFilter) : Intake where
  promotion p := f.accepts p.metadata = true ∧ p.status.unfit? p.spec = none
  stage stage := f.accepts stage.metadata = true

theorem accepts_congr (f : ShardFilter) {m m' : Metadata} (h : m.labels = m'.labels) :
    f.accepts m = f.accepts m' := by
  unfold ShardFilter.accepts
  rw [h]

theorem unaborted_congr {p q : Promotion} (h : p.metadata.annotations.get? Annotations.abortKey =
    q.metadata.annotations.get? Annotations.abortKey) (hp : p.Unaborted) : q.Unaborted := by
  intro request hrequest
  refine hp request ?_
  unfold Annotations.abortRequest at hrequest ⊢
  rw [h]
  exact hrequest

/-- A Promotion that is updated without anybody having to know is aborted no more than
before. -/
theorem abort_eq_of_not_matters {old new : Promotion}
    (h : StoreEvent.promotionMatters (.updated old new) = false) :
    new.metadata.annotations.get? Annotations.abortKey =
      old.metadata.annotations.get? Annotations.abortKey := by
  unfold StoreEvent.promotionMatters Change.updated at h
  simp only [Bool.or_eq_false_iff, bne_eq_false_iff_eq] at h
  exact h.2.symm

namespace Store

variable {f : ShardFilter} {K : PromotionSpec → PromotionStatus → Prop} {s s' : Store}
  {seen : Nat} {k : Key}

theorem labels_stamped (m : Metadata) (previous : Option Metadata) (candidate : Uid)
    (version : Nat) : (stamped m previous candidate version).labels = m.labels := by
  unfold stamped
  split <;> rfl

theorem served_writePromotion (hs : s.Served f) {old : Option Promotion} {p : Promotion}
    (accepted : f.accepts p.metadata = true) (fit : p.status.unfit? p.spec = none) :
    (s.writePromotion old p).Served f where
  promotion hq := by
    rcases writePromotion_cases hq with ⟨_, rfl⟩ | hq
    · exact ⟨accepted, fit⟩
    · exact hs.promotion hq
  stage hq := hs.stage hq

theorem served_writeStage (hs : s.Served f) {old : Option Stage} {stage : Stage}
    (accepted : f.accepts stage.metadata = true) : (s.writeStage old stage).Served f where
  promotion hq := hs.promotion hq
  stage hq := by
    rcases writeStage_cases hq with ⟨_, rfl⟩ | hq
    · exact accepted
    · exact hs.stage hq

theorem Edited.served (hs : s.Served f) (h : Edited f.intake s s') : s'.Served f := by
  cases h with
  | same => exact hs
  | available b => exact ⟨hs.promotion, hs.stage⟩
  | created p candidate allowed absent =>
    refine served_writePromotion hs ?_ allowed.2
    exact (accepts_congr f (labels_stamped _ _ _ _)).trans allowed.1
  | annotated old mark value stored =>
    exact served_writePromotion hs (hs.promotion stored).1 (hs.promotion stored).2
  | deleted p stored => exact ⟨fun hq => hs.promotion (get?_of_removePromotion hq), hs.stage⟩
  | put stage candidate allowed =>
    exact served_writeStage hs ((accepts_congr f (labels_stamped _ _ _ _)).trans allowed)
  | marked old m stored key labels =>
    exact served_writeStage hs ((accepts_congr f labels).trans (hs.stage stored))
  | freight old freight => exact ⟨hs.promotion, hs.stage⟩

theorem Evolves.served (hs : s.Served f) (h : Evolves f.intake K s s') : s'.Served f := by
  cases h with
  | edited h => exact h.served hs
  | advanced p status stored unended fit kept =>
    exact served_writePromotion hs (hs.promotion stored).1 fit

theorem due_push {e : StoreEvent} (hseen : seen ≤ s.published.size)
    (h : s'.published = s.published.push e) (hk : k ∈ e.keysToEnqueue f) : s'.Due f seen k :=
  ⟨s.published.size, e, hseen, by rw [h]; exact Array.getElem?_push_size, hk⟩

theorem Evolves.published {I : Intake} (h : Evolves I K s s') :
    s'.published = s.published ∨ ∃ e, s'.published = s.published.push e := by
  cases h with
  | advanced p status stored unended fit kept => exact .inr ⟨_, rfl⟩
  | edited h =>
    cases h with
    | same | available => exact .inl rfl
    | created | annotated | deleted | put | marked | freight => exact .inr ⟨_, rfl⟩

theorem Due.evolve {I : Intake} (hdue : s.Due f seen k) (h : Evolves I K s s') :
    s'.Due f seen k := by
  obtain ⟨i, e, hseen, he, hk⟩ := hdue
  refine ⟨i, e, hseen, ?_, hk⟩
  rcases h.published with hsame | ⟨e', hpush⟩
  · rw [hsame]
    exact he
  · obtain ⟨inside, hvalue⟩ := Array.getElem?_eq_some_iff.mp he
    rw [hpush, Array.getElem?_push_lt inside, hvalue]

/-- A new Promotion calls for its key, and so does one that others have to know about. -/
theorem mem_keysToEnqueue_promotion {c : Change Promotion}
    (accepted : f.accepts c.new.metadata = true)
    (matters : StoreEvent.promotionMatters c = true) :
    c.new.key ∈ (StoreEvent.promotion c).keysToEnqueue f := by
  show _ ∈ if f.accepts c.new.metadata && StoreEvent.promotionMatters c then _ else _
  rw [accepted, matters]
  exact List.mem_cons_self

/-- A Stage calls for the Promotion that it names now and did not name before. -/
theorem mem_keysToEnqueue_stage {old new : Stage} {name : String}
    (accepted : f.accepts new.metadata = true) (before : old.currentPromotionName ≠ some name)
    (now : new.currentPromotionName = some name) :
    ⟨new.metadata.project, name⟩ ∈ (StoreEvent.stage (.updated old new)).keysToEnqueue f := by
  have admitted : StoreEvent.admittedBy (.updated old new) = some name := by
    unfold StoreEvent.admittedBy Change.updated
    dsimp only
    rw [now]
    exact if_neg before
  unfold StoreEvent.keysToEnqueue
  dsimp only
  rw [admitted]
  show _ ∈ if f.accepts new.metadata then _ else _
  rw [if_pos accepted]
  exact List.mem_cons_self

/-- An annotation calls for the key, or the Promotion is aborted no more than before. -/
theorem annotated_due (hs : s.Served f) (hseen : seen ≤ s.published.size) {old : Promotion}
    (stored : s.promotions.get? old.key = some old) (mark value : String) :
    let new := old.annotated mark value (s.version + 1)
    (s.writePromotion (some old) new).Due f seen old.key ∨
      new.metadata.annotations.get? Annotations.abortKey =
        old.metadata.annotations.get? Annotations.abortKey := by
  intro new
  cases matters : StoreEvent.promotionMatters (.updated old new) with
  | true =>
    have accepted : f.accepts new.metadata = true := (hs.promotion stored).1
    exact .inl (due_push hseen rfl (mem_keysToEnqueue_promotion accepted matters))
  | false => exact .inr (abort_eq_of_not_matters matters)

theorem rested_writePromotion {old : Option Promotion} {p : Promotion}
    (h : s.Rested k) (hp : k = p.key → p.status.isTerminal = true ∨
      p.Unaborted ∧ ∃ stage, s.stages.get? ⟨k.project, p.spec.stage⟩ = some stage ∧
        stage.currentPromotionName ≠ some k.name) : (s.writePromotion old p).Rested k := by
  intro q hq
  rcases writePromotion_cases hq with ⟨hk, rfl⟩ | hq
  · exact hp hk
  · exact h q hq

/-- A Stage that is written leaves a key at rest, or calls for it. -/
theorem rested_writeStage (hseen : seen ≤ s.published.size) (h : s.Rested k) (new : Stage)
    (accepted : f.accepts new.metadata = true) :
    (s.writeStage (s.stages.get? new.metadata.key) new).Due f seen k ∨
      (s.writeStage (s.stages.get? new.metadata.key) new).Rested k := by
  cases hp : s.promotions.get? k with
  | none =>
    refine .inr fun p hp' => ?_
    rw [show s.promotions.get? k = some p from hp'] at hp
    cases hp
  | some p =>
    have only {q : Promotion} (hq : s.promotions.get? k = some q) : q = p := by
      rw [hq] at hp
      exact Option.some.inj hp
    rcases h p hp with ended | ⟨unaborted, stage, hstage, unnamed⟩
    · refine .inr fun q hq => .inl ?_
      rw [only hq]
      exact ended
    -- only the Stage that was looked at matters, and only if it comes to name the Promotion
    · by_cases hkey : new.metadata.key = ⟨k.project, p.spec.stage⟩
      · by_cases named : new.currentPromotionName = some k.name
        · have hproject : new.metadata.project = k.project := congrArg Key.project hkey
          have calls := mem_keysToEnqueue_stage accepted unnamed named
          rw [hproject] at calls
          rw [hkey, hstage]
          exact .inl (due_push hseen rfl calls)
        · refine .inr fun q hq => .inr ?_
          rw [only hq]
          refine ⟨unaborted, new, ?_, named⟩
          rw [get?_writeStage, hkey, if_pos rfl]
      · refine .inr fun q hq => .inr ?_
        rw [only hq]
        refine ⟨unaborted, stage, ?_, unnamed⟩
        rw [get?_writeStage, if_neg (Ne.symm hkey)]
        exact hstage

theorem Rested.edit (hs : s.Served f) (hseen : seen ≤ s.published.size) (h : s.Rested k)
    (he : Edited f.intake s s') : s'.Due f seen k ∨ s'.Rested k := by
  cases he with
  | same => exact .inr h
  | available b => exact .inr h
  | freight old freight => exact .inr h
  | created p candidate allowed absent =>
    by_cases hk : k = p.key
    · have accepted : f.accepts (s.admitted p candidate).metadata = true :=
        (accepts_congr f (labels_stamped _ _ _ _)).trans allowed.1
      have calls := mem_keysToEnqueue_promotion
        (c := .created (s.admitted p candidate)) accepted rfl
      rw [hk, ← key_admitted p candidate]
      exact .inl (due_push hseen rfl calls)
    · exact .inr (rested_writePromotion h fun hk' => absurd (hk'.trans (key_admitted _ _)) hk)
  | annotated old mark value stored =>
    by_cases hk : k = old.key
    · rcases annotated_due hs hseen stored mark value with due | habort
      · rw [hk]
        exact .inl due
      · refine .inr (rested_writePromotion h fun _ => ?_)
        rw [← hk] at stored
        refine (h old stored).imp id ?_
        rintro ⟨unaborted, gated⟩
        exact ⟨unaborted_congr habort.symm unaborted, gated⟩
    · exact .inr (rested_writePromotion h fun hk' => absurd hk' hk)
  | deleted p stored => exact .inr fun q hq => h q (get?_of_removePromotion hq)
  | put stage candidate allowed =>
    have accepted : f.accepts (s.renewed stage candidate).metadata = true :=
      (accepts_congr f (labels_stamped _ _ _ _)).trans allowed
    have := rested_writeStage hseen h _ accepted
    rwa [key_renewed] at this
  | marked old m stored key labels =>
    have accepted : f.accepts m = true := (accepts_congr f labels).trans (hs.stage stored)
    have := rested_writeStage hseen h { old with metadata := m } accepted
    rwa [show s.stages.get? m.key = some old by rw [key]; exact stored] at this

/-- Rest only ends with an event. -/
theorem Rested.evolve (hs : s.Served f) (hseen : seen ≤ s.published.size) (h : s.Rested k)
    (he : Evolves f.intake K s s') : s'.Due f seen k ∨ s'.Rested k := by
  cases he with
  | edited he => exact h.edit hs hseen he
  | advanced p status stored unended fit kept =>
    refine .inr (rested_writePromotion h fun hk => ?_)
    -- a status that is written changes neither the gate nor the annotations
    rw [Promotion.key_withStatus] at hk
    rw [← hk] at stored
    rcases h p stored with ended | rested
    · rw [unended] at ended
      cases ended
    · exact .inr rested

/-- What asks for the same as before goes on to do so until it is deleted, unless an event
tells otherwise. -/
theorem StillAsks.evolve (hs : s.Served f) (hseen : seen ≤ s.published.size) {p : Promotion}
    (h : s.StillAsks k p) (he : Evolves f.intake K s s') :
    s'.Due f seen k ∨ s'.Rested k ∨ s'.StillAsks k p := by
  obtain ⟨q, hq, hspec, habort⟩ := h
  cases he with
  | advanced old status stored unended fit kept =>
    refine .inr (.inr ?_)
    -- a status is written: what is asked for stays the same
    by_cases hk : k = old.key
    · rw [← hk, hq] at stored
      cases stored
      refine ⟨_, (get?_writePromotion _ _ k).trans (if_pos hk), hspec, habort⟩
    · exact ⟨q, (get?_writePromotion _ _ k).trans ((if_neg hk).trans hq), hspec, habort⟩
  | edited he =>
    cases he with
    | same => exact .inr (.inr ⟨q, hq, hspec, habort⟩)
    | available b => exact .inr (.inr ⟨q, hq, hspec, habort⟩)
    | put stage candidate allowed => exact .inr (.inr ⟨q, hq, hspec, habort⟩)
    | marked old m stored key labels => exact .inr (.inr ⟨q, hq, hspec, habort⟩)
    | freight old freight => exact .inr (.inr ⟨q, hq, hspec, habort⟩)
    | created new candidate allowed absent =>
      have hk : k ≠ (s.admitted new candidate).key := by
        rintro rfl
        rw [key_admitted, absent] at hq
        cases hq
      exact .inr (.inr
        ⟨q, (get?_writePromotion _ _ k).trans ((if_neg hk).trans hq), hspec, habort⟩)
    | annotated old mark value stored =>
      by_cases hk : k = old.key
      · rcases annotated_due hs hseen stored mark value with due | hsame
        · rw [hk]
          exact .inl due
        · rw [← hk, hq] at stored
          cases stored
          exact .inr (.inr ⟨_, (get?_writePromotion _ _ k).trans (if_pos hk), hspec,
            hsame.trans habort⟩)
      · exact .inr (.inr
          ⟨q, (get?_writePromotion _ _ k).trans ((if_neg hk).trans hq), hspec, habort⟩)
    | deleted old stored =>
      by_cases hk : k = old.key
      · refine .inr (.inl fun q hq => ?_)
        rw [get?_removePromotion, if_pos hk] at hq
        cases hq
      · exact .inr (.inr
          ⟨q, (get?_removePromotion _ k).trans ((if_neg hk).trans hq), hspec, habort⟩)

end Store

end Drayage
