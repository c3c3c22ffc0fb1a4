import Drayage.Proofs.Store.Versions

/-!
# Where the stored Promotions come from

A Promotion comes to be when it is created, and annotations and status writes make of it
what is stored until it is deleted. So what is stored under a key descends from the last
Promotion that was created there: its identity and what it asks for never change, and its
status is the one it was created with or one that was written and fits.
-/

namespace Drayage

/-- A Promotion that came to be, as it was handed in and as it was stored. -/
structure Birth where
  given : Promotion
  stored : Promotion

namespace Birth

/-- What is stored descends from a Promotion that was created. -/
structure Became (b : Birth) (p : Promotion) : Prop where
  key : p.key = b.stored.key
  uid : p.metadata.uid = b.stored.metadata.uid
  spec : p.spec = b.given.spec
  status : p.status = b.given.status ∨ p.status.unfit? p.spec = none

/-- A Promotion becomes nothing else by an annotation or by a status that fits. -/
theorem Became.renewed {b : Birth} {old new : Promotion} (h : b.Became old)
    (key : new.key = old.key) (uid : new.metadata.uid = old.metadata.uid)
    (spec : new.spec = old.spec)
    (status : new.status = old.status ∨ new.status.unfit? new.spec = none) : b.Became new where
  key := key.trans h.key
  uid := uid.trans h.uid
  spec := spec.trans h.spec
  status := by
    rcases status with same | fit
    · rw [same, spec]
      exact h.status
    · exact .inr fit

end Birth

/-- The Promotion that a call creates. -/
def StoreCall.birth? (s : Store) : StoreCall → Option Birth
  | edit (.create p candidate) =>
    (s.createPromotion p candidate).toOption.map fun r => ⟨p, r.1⟩
  | edit (.annotate _ _ _) | edit (.delete _) | edit (.putStage _ _) | edit (.putFreight _ _)
  | edit (.setAvailable _) | updateStatus _ _ _ | requestReverification _ _ => none

namespace Store

variable {s s' : Store} {bs : List Birth}

/-- The Promotions that some calls create, one after another. -/
def births : Store → List StoreCall → List Birth
  | _, [] => []
  | s, call :: calls => (call.birth? s).toList ++ births (call.apply s) calls

/-- The last Promotion that was created under a key. -/
def lastBirth (bs : List Birth) (key : Key) : Option Birth :=
  bs.reverse.find? fun b => b.stored.key = key

theorem lastBirth_concat (b : Birth) (key : Key) :
    lastBirth (bs ++ [b]) key = if b.stored.key = key then some b else lastBirth bs key := by
  unfold lastBirth
  rw [List.reverse_append, List.reverse_singleton, List.singleton_append, List.find?_cons]
  by_cases h : b.stored.key = key <;> simp [h]

/-- What a call makes of the Promotions. -/
inductive Bears (s : Store) : Option Birth → Store → Prop where
  | same {s' : Store} (sound : s'.Sound) (h : s'.promotions = s.promotions) : Bears s none s'
  | created (p : Promotion) (candidate : Uid) (absent : s.promotions.get? p.key = none) :
      Bears s (some ⟨p, s.admitted p candidate⟩)
        (s.writePromotion none (s.admitted p candidate))
  | renewed (old new : Promotion) (stored : s.promotions.get? old.key = some old)
      (key : new.key = old.key) (uid : new.metadata.uid = old.metadata.uid)
      (spec : new.spec = old.spec) (version : new.metadata.version = s.version + 1)
      (status : new.status = old.status ∨ new.status.unfit? new.spec = none) :
      Bears s none (s.writePromotion (some old) new)
  | deleted (p : Promotion) (stored : s.promotions.get? p.key = some p) :
      Bears s none (s.removePromotion p)

theorem createPromotion_cases (p : Promotion) (candidate : Uid) :
    (∃ e, s.createPromotion p candidate = .error e) ∨
      s.promotions.get? p.key = none ∧ s.createPromotion p candidate =
        .ok (s.admitted p candidate, s.writePromotion none (s.admitted p candidate)) := by
  unfold createPromotion whenAvailable
  split
  · split
    · exact .inl ⟨_, rfl⟩
    · rename_i absent
      exact .inr ⟨absent, rfl⟩
  · exact .inl ⟨_, rfl⟩

theorem bears_create (hs : s.Sound) (p : Promotion) (candidate : Uid) :
    Bears s (StoreCall.birth? s (.edit (.create p candidate)))
      (s.after (s.createPromotion p candidate)) := by
  show Bears s ((s.createPromotion p candidate).toOption.map fun r => ⟨p, r.1⟩)
    (s.after (s.createPromotion p candidate))
  rcases createPromotion_cases (s := s) p candidate with ⟨e, h⟩ | ⟨absent, h⟩
  · rw [h]
    exact .same hs rfl
  · rw [h]
    exact .created p candidate absent

theorem bears_edit (hs : s.Sound) (e : Edit) :
    Bears s (StoreCall.birth? s (.edit e)) (e.apply s) := by
  have sound : (e.apply s).Sound := sound_edits hs [e]
  cases e with
  | create p candidate => exact bears_create hs p candidate
  | annotate key mark value =>
    have h := after_annotatePromotion (s := s) key mark value
    show Bears s none (s.after (s.annotatePromotion key mark value))
    rcases h with h | ⟨old, stored, h⟩
    · rw [h]
      exact .same hs rfl
    · rw [h]
      rw [← hs.promotion_key stored] at stored
      exact .renewed old _ stored rfl rfl rfl rfl (.inl rfl)
  | delete key =>
    have h := after_deletePromotion (s := s) key
    show Bears s none (s.after (s.deletePromotion key))
    rcases h with h | ⟨p, stored, h⟩
    · rw [h]
      exact .same hs rfl
    · rw [h]
      rw [← hs.promotion_key stored] at stored
      exact .deleted p stored
  | putStage stage candidate =>
    refine .same sound ?_
    show (s.after (s.putStage stage candidate)).promotions = s.promotions
    rcases after_putStage stage candidate with h | h
    · rw [h]
    · rw [h]
      rfl
  | putFreight freight candidate =>
    refine .same sound ?_
    show (s.after (s.putFreight freight candidate)).promotions = s.promotions
    rcases after_putFreight freight candidate with h | ⟨_, _, h⟩
    · rw [h]
    · rw [h]
      rfl
  | setAvailable available => exact .same sound rfl

theorem bears_call (hs : s.Sound) (call : StoreCall) :
    Bears s (call.birth? s) (call.apply s) := by
  cases call with
  | edit e => exact bears_edit hs e
  | updateStatus key expected status =>
    show Bears s none (s.after (s.updateStatus key expected status))
    cases h : s.updateStatus key expected status with
    | error e => exact .same hs rfl
    | ok r =>
      obtain ⟨v, s'⟩ := r
      obtain ⟨old, stored, rfl, _, fit, rfl, rfl⟩ := updateStatus_ok hs h
      exact .renewed old _ stored rfl rfl rfl rfl (.inr fit)
  | requestReverification key now =>
    refine .same ?_ (promotions_requestReverification key now)
    exact (edited_requestReverification (I := .any) hs key now).sound hs

theorem Bears.sound (hs : s.Sound) {b : Option Birth} (h : Bears s b s') : s'.Sound := by
  cases h with
  | same sound h => exact sound
  | created p candidate absent => exact sound_writePromotion hs (version_stamped _ _ _ _)
  | renewed old new stored key uid spec version status => exact sound_writePromotion hs version
  | deleted p stored =>
    exact ⟨fun hq => hs.promotion_key (get?_of_removePromotion hq), hs.stage_key,
      fun hq => hs.version_le (get?_of_removePromotion hq)⟩

theorem became_admitted (p : Promotion) (candidate : Uid) :
    Birth.Became ⟨p, s.admitted p candidate⟩ (s.admitted p candidate) :=
  ⟨rfl, rfl, rfl, .inl rfl⟩

/-- Whatever is stored descends from the last Promotion that was created under its key. -/
structure Descended (bs : List Birth) (s : Store) : Prop where
  sound : s.Sound
  became : ∀ {key p}, s.promotions.get? key = some p →
    ∃ b, lastBirth bs key = some b ∧ b.Became p

theorem descended_empty : Descended [] .empty := ⟨sound_empty, fun h => by cases h⟩

theorem Descended.bears (h : Descended bs s) {b : Option Birth} (hb : Bears s b s') :
    Descended (bs ++ b.toList) s' := by
  refine ⟨hb.sound h.sound, fun {key p} stored => ?_⟩
  cases hb with
  | same sound same =>
    rw [Option.toList_none, List.append_nil]
    rw [same] at stored
    exact h.became stored
  | created q candidate absent =>
    rw [Option.toList_some, lastBirth_concat]
    rcases writePromotion_cases stored with ⟨rfl, rfl⟩ | stored
    · exact ⟨_, if_pos rfl, became_admitted q candidate⟩
    · have other : (s.admitted q candidate).key ≠ key := by
        rintro rfl
        rw [key_admitted, absent] at stored
        cases stored
      rw [if_neg other]
      exact h.became stored
  | renewed old new before key uid spec version status =>
    rw [Option.toList_none, List.append_nil]
    rcases writePromotion_cases stored with ⟨rfl, rfl⟩ | stored
    · rw [key]
      obtain ⟨b, last, became⟩ := h.became before
      exact ⟨b, last, became.renewed key uid spec status⟩
    · exact h.became stored
  | deleted q before =>
    rw [Option.toList_none, List.append_nil]
    exact h.became (get?_of_removePromotion stored)

theorem Descended.run (h : Descended bs s) (calls : List StoreCall) :
    Descended (bs ++ s.births calls) (s.run calls) := by
  induction calls generalizing s bs with
  | nil =>
    rw [births, List.append_nil]
    exact h
  | cons call calls ih =>
    have := ih (h.bears (bears_call h.sound call))
    rwa [List.append_assoc] at this

theorem descended_calls (calls : List StoreCall) :
    Descended (empty.births calls) (empty.run calls) :=
  descended_empty.run calls

end Store

end Drayage
