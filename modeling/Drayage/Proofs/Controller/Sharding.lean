import Drayage.Controller.Manager
import Drayage.Proofs.Controller.Trigger
import Drayage.Proofs.Store.Watching

/-!
# Whose shard a Promotion is reconciled in

A controller queues the keys of the Promotions that it lists and those that events call
for. Promotions are told apart by their own labels when they are listed or changed, but an
event of a Stage goes by the labels of the Stage. So a Stage that comes to name a
Promotion of another shard is the one way in which a Promotion gets into a queue where it
does not belong.
-/

namespace Drayage

/-- What makes a controller queue keys. -/
inductive Occasion where
  /-- All Promotions were listed. -/
  | listing (ps : List Promotion)
  | event (e : StoreEvent)

namespace Occasion

/-- The keys that a controller queues. -/
def keys (f : ShardFilter) : Occasion → List Key
  | listing ps => Manager.openKeys f ps
  | event e => e.keysToEnqueue f

/-- What can occur after some calls: the Promotions are listed, or what the last call
published is received. -/
inductive Arises : List StoreCall → Occasion → Prop where
  | listing {calls : List StoreCall} {ps : List Promotion}
      (listed : (Store.empty.run calls).listPromotions = .ok ps) : Arises calls (.listing ps)
  | event {calls : List StoreCall} {call : StoreCall} {e : StoreEvent}
      (published : e ∈ (Store.empty.run calls).newsUpTo (call.apply (Store.empty.run calls))) :
      Arises (calls ++ [call]) (.event e)

/-- A Stage that a controller serves comes to name a Promotion that it does not serve. -/
def Crosses (f : ShardFilter) (p : Promotion) (o : Occasion) : Prop :=
  ∃ old new, o = .event (.stage (.updated old new)) ∧ f.accepts new.metadata = true ∧
    f.accepts p.metadata = false ∧ new.metadata.project = p.metadata.project ∧
    new.currentPromotionName = some p.metadata.name ∧
    old.currentPromotionName ≠ some p.metadata.name

end Occasion

/-- A call does not delete the Promotion with a key. -/
def StoreCall.Spares (key : Key) : StoreCall → Prop
  | edit e => e.Spares key
  | updateStatus _ _ _ | requestReverification _ _ => True

namespace Store

variable {s : Store} {f : ShardFilter}

theorem labels_updateStatus (hs : s.Sound) {k : Key} {expected v : Nat} {status : PromotionStatus}
    {s' : Store} (h : s.updateStatus k expected status = .ok (v, s')) {key : Key} {p : Promotion}
    (stored : s.promotions.get? key = some p) :
    ∃ p', s'.promotions.get? key = some p' ∧ p'.metadata.labels = p.metadata.labels := by
  obtain ⟨old, found, rfl, _, _, rfl, rfl⟩ := updateStatus_ok hs h
  rw [get?_writePromotion, Promotion.key_withStatus]
  split
  · rename_i same
    rw [same, found] at stored
    cases stored
    exact ⟨_, rfl, rfl⟩
  · exact ⟨p, stored, rfl⟩

/-- A Promotion keeps its labels until it is deleted. -/
theorem labels_call (hs : s.Sound) {call : StoreCall} {key : Key} (spared : call.Spares key)
    {p : Promotion} (stored : s.promotions.get? key = some p) :
    ∃ p', (call.apply s).promotions.get? key = some p' ∧
      p'.metadata.labels = p.metadata.labels := by
  cases call with
  | edit e =>
    obtain ⟨p', kept, _, labels⟩ := kept_apply hs spared stored
    exact ⟨p', kept, labels⟩
  | updateStatus k expected status =>
    show ∃ p', (s.after (s.updateStatus k expected status)).promotions.get? key = some p' ∧ _
    cases h : s.updateStatus k expected status with
    | error e => exact ⟨p, stored, rfl⟩
    | ok r => exact labels_updateStatus hs h stored
  | requestReverification k now =>
    refine ⟨p, ?_, rfl⟩
    show (s.after (s.requestReverification k now)).promotions.get? key = some p
    rw [promotions_requestReverification]
    exact stored

theorem labels_run (hs : s.Sound) {calls : List StoreCall} {key : Key}
    (spared : ∀ c ∈ calls, c.Spares key) {p : Promotion}
    (stored : s.promotions.get? key = some p) :
    ∃ p', (s.run calls).promotions.get? key = some p' ∧
      p'.metadata.labels = p.metadata.labels := by
  induction calls generalizing s p with
  | nil => exact ⟨p, stored, rfl⟩
  | cons call calls ih =>
    obtain ⟨q, kept, same⟩ := labels_call hs (spared call List.mem_cons_self) stored
    obtain ⟨p', last, labels⟩ :=
      ih (sound_call hs call) (fun c hc => spared c (List.mem_cons_of_mem _ hc)) kept
    exact ⟨p', last, labels.trans same⟩

/-- Who accepts a Promotion accepts what becomes of it until it is deleted. -/
theorem accepts_run (hs : s.Sound) {calls : List StoreCall} {key : Key}
    (spared : ∀ c ∈ calls, c.Spares key) {p q : Promotion}
    (stored : s.promotions.get? key = some p)
    (later : (s.run calls).promotions.get? key = some q) :
    f.accepts q.metadata = f.accepts p.metadata := by
  obtain ⟨q', last, labels⟩ := labels_run hs spared stored
  rw [later] at last
  cases last
  exact accepts_congr f labels

/-- Of the Promotions that are listed, those are queued that the controller accepts. -/
theorem accepted_of_openKeys (hs : s.Sound) {key : Key} {ps : List Promotion}
    (listed : s.listPromotions = .ok ps) (h : key ∈ Manager.openKeys f ps) :
    ∃ q, s.promotions.get? key = some q ∧ f.accepts q.metadata = true := by
  unfold Manager.openKeys at h
  obtain ⟨q, hq, rfl⟩ := List.mem_map.mp h
  obtain ⟨hq, wanted⟩ := List.mem_filter.mp hq
  refine ⟨q, ?_, (Bool.and_eq_true_iff.mp wanted).1⟩
  unfold listPromotions whenAvailable at listed
  split at listed
  · cases listed
    obtain ⟨⟨k, _⟩, hmem, rfl⟩ := List.mem_map.mp hq
    have stored := Dict.get?_eq_some_iff.mpr hmem
    rwa [hs.promotion_key stored]
  · cases listed

/-- Of the Promotions that change, those are queued that the controller accepts. -/
theorem accepted_of_change {s' : Store} {c : Change Promotion} {key : Key}
    (h : Told s (some (.promotion c)) s')
    (called : key ∈ (StoreEvent.promotion c).keysToEnqueue f) :
    ∃ q, s'.promotions.get? key = some q ∧ f.accepts q.metadata = true := by
  unfold StoreEvent.keysToEnqueue at called
  dsimp only at called
  split at called
  · rename_i wanted
    obtain ⟨accepted, matters⟩ := Bool.and_eq_true_iff.mp wanted
    obtain rfl := List.mem_singleton.mp called
    cases h with
    | promotion p =>
      rw [Change.new_replaced] at accepted ⊢
      exact ⟨p, (get?_writePromotion _ p p.key).trans (if_pos rfl), accepted⟩
    | removal p stored => cases matters
  · cases called

/-- Only a Stage that was there before comes to name a Promotion. -/
theorem named_of_admittedBy {before : Option Stage} {new : Stage} {name : String}
    (h : StoreEvent.admittedBy (.replaced before new) = some name) :
    ∃ old, before = some old ∧ new.currentPromotionName = some name ∧
      old.currentPromotionName ≠ some name := by
  cases before with
  | none => cases h
  | some old =>
    have h' : (if old.currentPromotionName = new.currentPromotionName then none
        else new.currentPromotionName) = some name := h
    split at h'
    · cases h'
    · rename_i different
      exact ⟨old, rfl, h', fun same => different (same.trans h'.symm)⟩

/-- A Stage calls for the Promotion that it comes to name, whoever serves it. -/
theorem named_of_change {s' : Store} {c : Change Stage} {key : Key}
    (h : Told s (some (.stage c)) s') (called : key ∈ (StoreEvent.stage c).keysToEnqueue f) :
    ∃ old new, c = .updated old new ∧ f.accepts new.metadata = true ∧
      new.metadata.project = key.project ∧ new.currentPromotionName = some key.name ∧
      old.currentPromotionName ≠ some key.name := by
  cases h with
  | stage new =>
    unfold StoreEvent.keysToEnqueue at called
    dsimp only at called
    rw [Change.new_replaced] at called
    split at called
    · rename_i accepted
      split at called
      · rename_i name admitted
        obtain rfl := List.mem_singleton.mp called
        obtain ⟨old, before, named, unnamed⟩ := named_of_admittedBy admitted
        rw [before]
        exact ⟨old, new, rfl, accepted, rfl, named, unnamed⟩
      · cases called
    · cases called

end Store

namespace Occasion

/-- An occasion arose in the course of some calls, and what was stored under a key was not
deleted since. -/
def Lasting (calls : List StoreCall) (key : Key) (o : Occasion) : Prop :=
  ∃ before later, calls = before ++ later ∧ o.Arises before ∧ ∀ c ∈ later, c.Spares key

variable {f : ShardFilter} {calls : List StoreCall} {p : Promotion} {o : Occasion}

/-- A Promotion whose key is queued is accepted, or its Stage made it known. -/
theorem crosses_of_mem (lasting : o.Lasting calls p.key)
    (stored : (Store.empty.run calls).promotions.get? p.key = some p)
    (queued : p.key ∈ o.keys f) (foreign : f.accepts p.metadata = false) : o.Crosses f p := by
  obtain ⟨before, later, rfl, arises, spared⟩ := lasting
  have sound := Store.sound_run Store.sound_empty before
  rw [Store.run_append] at stored
  -- a Promotion that was accepted then is accepted now
  have same {q : Promotion} (hq : (Store.empty.run before).promotions.get? p.key = some q) :
      f.accepts q.metadata = false :=
    (Store.accepts_run sound spared hq stored).symm.trans foreign
  cases arises with
  | listing listed =>
    obtain ⟨q, hq, accepted⟩ := Store.accepted_of_openKeys sound listed queued
    rw [same hq] at accepted
    cases accepted
  | @event before call e published =>
    obtain ⟨told?, told⟩ := Store.told_call (Store.sound_run Store.sound_empty before) call
    rw [Store.newsUpTo_of_append told.published, Option.mem_toList] at published
    cases published
    rw [Store.run_append] at same
    cases e with
    | promotion c =>
      obtain ⟨q, hq, accepted⟩ := Store.accepted_of_change told queued
      rw [same hq] at accepted
      cases accepted
    | stage c =>
      obtain ⟨old, new, rfl, accepted, project, named, unnamed⟩ :=
        Store.named_of_change told queued
      exact ⟨old, new, rfl, accepted, foreign, project, named, unnamed⟩
    | freight c => cases queued

/-- A Stage that comes to name a Promotion has it queued. -/
theorem mem_of_crosses (h : o.Crosses f p) : p.key ∈ o.keys f := by
  obtain ⟨old, new, rfl, accepted, _, project, named, unnamed⟩ := h
  have called := Store.mem_keysToEnqueue_stage accepted unnamed named
  rw [project] at called
  exact called

end Occasion

/-- What keeps the shards apart, after some calls on an empty store. -/
structure KeptApart (calls : List StoreCall) : Prop where
  /-- A controller queues a stored Promotion that is not of its shard exactly if a Stage of
  its shard came to name the Promotion. -/
  astray : ∀ (f : ShardFilter) (o : Occasion) (p : Promotion), o.Lasting calls p.key →
    (Store.empty.run calls).promotions.get? p.key = some p →
    ((p.key ∈ o.keys f ∧ f.accepts p.metadata = false) ↔ o.Crosses f p)
  /-- Two controllers that serve nothing in common queue the same Promotion only if that
  happened to one of them. -/
  twice : ∀ (f g : ShardFilter) (o o' : Occasion) (p : Promotion),
    (∀ m, f.accepts m = true → g.accepts m = false) → o.Lasting calls p.key →
    o'.Lasting calls p.key → (Store.empty.run calls).promotions.get? p.key = some p →
    p.key ∈ o.keys f → p.key ∈ o'.keys g → o.Crosses f p ∨ o'.Crosses g p

/-- Whatever is called in whatever order, a Promotion is queued in its own shard alone as long
as its Stage is in that shard. -/
theorem keptApart_of_calls (calls : List StoreCall) : KeptApart calls where
  astray f o p lasting stored := by
    constructor
    · rintro ⟨queued, foreign⟩
      exact Occasion.crosses_of_mem lasting stored queued foreign
    · intro crosses
      refine ⟨Occasion.mem_of_crosses crosses, ?_⟩
      obtain ⟨_, _, _, _, foreign, _⟩ := crosses
      exact foreign
  twice f g o o' p disjoint lasting lasting' stored queued queued' := by
    cases accepted : f.accepts p.metadata with
    | false => exact .inl (Occasion.crosses_of_mem lasting stored queued accepted)
    | true =>
      exact .inr (Occasion.crosses_of_mem lasting' stored queued' (disjoint _ accepted))

/-- A Promotion of the shard `east`. -/
def eastern : Promotion :=
  .fresh ((Metadata.fresh "a" "p" default).label Annotations.shardKey "east") ⟨"s", "f", [], []⟩

/-- A Stage without a shard. -/
def unsharded : Stage := .fresh (.fresh "a" "s" default) ⟨[], none⟩

def easternIsKnown : List StoreCall :=
  [.edit (.create eastern ⟨1⟩), .edit (.putStage unsharded ⟨2⟩)]

/-- The Stage comes to name the Promotion. -/
def easternIsNamed : StoreCall :=
  .edit (.putStage (unsharded.withCurrent (some (.named "p"))) ⟨3⟩)

/-- The default controller queues a Promotion of the shard `east`, and so does the controller
of that shard. -/
theorem queued_twice_of_named : ∃ (f g : ShardFilter) (calls : List StoreCall)
    (o o' : Occasion) (p : Promotion), (∀ m, f.accepts m = true → g.accepts m = false) ∧
      o.Lasting calls p.key ∧ o'.Lasting calls p.key ∧
      (Store.empty.run calls).promotions.get? p.key = some p ∧ f.accepts p.metadata = false ∧
      p.key ∈ o.keys f ∧ p.key ∈ o'.keys g := by
  have named : ∃ e ∈ (Store.empty.run easternIsKnown).newsUpTo
      (easternIsNamed.apply (Store.empty.run easternIsKnown)),
      ⟨"a", "p"⟩ ∈ e.keysToEnqueue (.of none true) := by decide +kernel
  obtain ⟨e, published, queued⟩ := named
  refine ⟨.of none true, .of (some "east") false, easternIsKnown ++ [easternIsNamed], .event e,
    .listing (Store.empty.run (easternIsKnown ++ [easternIsNamed])).promotions.values,
    Store.empty.admitted eastern ⟨1⟩, ?_, ?_, ?_, ?_, ?_, queued, ?_⟩
  · intro m accepted
    unfold ShardFilter.accepts at accepted ⊢
    split at accepted
    · cases accepted
    · rfl
  · exact ⟨_, [], (List.append_nil _).symm, .event published, fun c hc => by cases hc⟩
  · exact ⟨_, [], (List.append_nil _).symm, .listing rfl, fun c hc => by cases hc⟩
  · decide +kernel
  · decide +kernel
  · decide +kernel

end Drayage
