import Drayage.Store.Basic

/-!
# What operations do to a store

Every operation leaves the store as it is or makes one change, and what it writes carries
a version above all earlier ones. A version therefore pins the value it was stamped on:
`Store.Pins` is what a reader may rely on, however others write in between.
-/

namespace Drayage

/-- A Promotion after a status was written as some version. -/
def Promotion.withStatus (p : Promotion) (version : Nat) (status : PromotionStatus) :
    Promotion :=
  { p with metadata := { p.metadata with version }, status }

namespace Promotion

variable (p : Promotion) (version : Nat) (status : PromotionStatus)

@[simp] theorem key_withStatus : (p.withStatus version status).key = p.key := rfl

@[simp] theorem spec_withStatus : (p.withStatus version status).spec = p.spec := rfl

@[simp] theorem status_withStatus : (p.withStatus version status).status = status := rfl

@[simp] theorem version_withStatus :
    (p.withStatus version status).metadata.version = version := rfl

@[simp] theorem uid_withStatus : (p.withStatus version status).metadata.uid = p.metadata.uid :=
  rfl

@[simp] theorem annotations_withStatus :
    (p.withStatus version status).metadata.annotations = p.metadata.annotations := rfl

/-- A Promotion after an annotation was set as some version. -/
def annotated (p : Promotion) (mark value : String) (version : Nat) : Promotion :=
  { p with metadata := { p.metadata.annotate mark value with version } }

variable (mark value : String)

@[simp] theorem key_annotated : (p.annotated mark value version).key = p.key := rfl

@[simp] theorem spec_annotated : (p.annotated mark value version).spec = p.spec := rfl

@[simp] theorem status_annotated : (p.annotated mark value version).status = p.status := rfl

@[simp] theorem version_annotated :
    (p.annotated mark value version).metadata.version = version := rfl

end Promotion

/-- The change of a Promotion that an event reports. -/
def StoreEvent.promotion? : StoreEvent → Option (Change Promotion)
  | .promotion c => some c
  | .stage _ | .freight _ => none

/-- An operation of those who are not reconciling. -/
inductive Edit where
  | create (p : Promotion) (candidate : Uid)
  | annotate (key : Key) (mark value : String)
  | delete (key : Key)
  | putStage (stage : Stage) (candidate : Uid)
  | putFreight (freight : Freight) (candidate : Uid)
  | setAvailable (available : Bool)

/-- The Promotions and the Stages that may be written. -/
structure Intake where
  promotion : Promotion → Prop
  stage : Stage → Prop

/-- Nothing is refused. -/
def Intake.any : Intake := ⟨fun _ => True, fun _ => True⟩

/-- An edit writes nothing but what may be written. -/
def Edit.Within (I : Intake) : Edit → Prop
  | .create p _ => I.promotion p
  | .putStage stage _ => I.stage stage
  | .annotate _ _ _ | .delete _ | .putFreight _ _ | .setAvailable _ => True

/-- An edit does not delete the Promotion with a key. -/
def Edit.Spares (key : Key) : Edit → Prop
  | .delete k => k ≠ key
  | .create _ _ | .annotate _ _ _ | .putStage _ _ | .putFreight _ _ | .setAvailable _ => True

namespace Store

/-- The store after an operation, which is the same one if the operation failed. -/
def after {α : Type} (s : Store) : Outcome α → Store
  | .ok (_, s') => s'
  | .error _ => s

/-- All changes of Promotions, in the order in which they were published. -/
def changes (s : Store) : List (Change Promotion) :=
  s.published.toList.filterMap StoreEvent.promotion?

/-- The changes of Promotions in `s'` that `s` has not seen. -/
def changesUpTo (s s' : Store) : List (Change Promotion) := s'.changes.drop s.changes.length

theorem changesUpTo_of_append {s s' : Store} {new : List (Change Promotion)}
    (h : s'.changes = s.changes ++ new) : s.changesUpTo s' = new := by
  rw [changesUpTo, h, List.drop_left]

end Store

/-- The store after an edit. -/
def Edit.apply (s : Store) : Edit → Store
  | .create p candidate => s.after (s.createPromotion p candidate)
  | .annotate key mark value => s.after (s.annotatePromotion key mark value)
  | .delete key => s.after (s.deletePromotion key)
  | .putStage stage candidate => s.after (s.putStage stage candidate)
  | .putFreight freight candidate => s.after (s.putFreight freight candidate)
  | .setAvailable available => s.setAvailable available

namespace Store

variable {s s' : Store}

theorem get?_writePromotion (old : Option Promotion) (p : Promotion) (k : Key) :
    (s.writePromotion old p).promotions.get? k =
      if k = p.key then some p else s.promotions.get? k := by
  simp [writePromotion, Dict.get?_insert, Std.LawfulEqCmp.compare_eq_iff_eq]

theorem get?_removePromotion (p : Promotion) (k : Key) :
    (s.removePromotion p).promotions.get? k =
      if k = p.key then none else s.promotions.get? k := by
  simp [removePromotion, Dict.get?_erase, Std.LawfulEqCmp.compare_eq_iff_eq]

theorem get?_writeStage (old : Option Stage) (stage : Stage) (k : Key) :
    (s.writeStage old stage).stages.get? k =
      if k = stage.metadata.key then some stage else s.stages.get? k := by
  simp [writeStage, Dict.get?_insert, Std.LawfulEqCmp.compare_eq_iff_eq]

/-- What is stored after a Promotion was written is this one or was stored before. -/
theorem writePromotion_cases {old : Option Promotion} {p q : Promotion} {k : Key}
    (h : (s.writePromotion old p).promotions.get? k = some q) :
    (k = p.key ∧ q = p) ∨ s.promotions.get? k = some q := by
  rw [get?_writePromotion] at h
  split at h
  · rename_i same
    exact .inl ⟨same, (Option.some.inj h).symm⟩
  · exact .inr h

theorem writeStage_cases {old : Option Stage} {stage stage' : Stage} {k : Key}
    (h : (s.writeStage old stage).stages.get? k = some stage') :
    (k = stage.metadata.key ∧ stage' = stage) ∨ s.stages.get? k = some stage' := by
  rw [get?_writeStage] at h
  split at h
  · rename_i same
    exact .inl ⟨same, (Option.some.inj h).symm⟩
  · exact .inr h

theorem get?_of_removePromotion {p q : Promotion} {k : Key}
    (h : (s.removePromotion p).promotions.get? k = some q) : s.promotions.get? k = some q := by
  rw [get?_removePromotion] at h
  split at h
  · cases h
  · exact h

@[simp] theorem changes_writePromotion (old : Option Promotion) (p : Promotion) :
    (s.writePromotion old p).changes = s.changes ++ [.replaced old p] := by
  simp [changes, writePromotion, StoreEvent.promotion?]

@[simp] theorem changes_removePromotion (p : Promotion) :
    (s.removePromotion p).changes = s.changes ++ [.deleted p] := by
  simp [changes, removePromotion, StoreEvent.promotion?]

@[simp] theorem changes_writeStage (old : Option Stage) (stage : Stage) :
    (s.writeStage old stage).changes = s.changes := by
  simp [changes, writeStage, StoreEvent.promotion?]

@[simp] theorem changes_writeFreight (old : Option Freight) (freight : Freight) :
    (s.writeFreight old freight).changes = s.changes := by
  simp [changes, writeFreight, StoreEvent.promotion?]

/-- Promotions and Stages are stored under their own keys, and no Promotion has a version
that was not given out yet. -/
structure Sound (s : Store) : Prop where
  promotion_key : ∀ {k p}, s.promotions.get? k = some p → p.key = k
  stage_key : ∀ {k stage}, s.stages.get? k = some stage → stage.metadata.key = k
  version_le : ∀ {k p}, s.promotions.get? k = some p → p.metadata.version ≤ s.version

theorem sound_empty : Store.empty.Sound where
  promotion_key h := by cases h
  stage_key h := by cases h
  version_le h := by cases h

theorem after_whenAvailable {α : Type} (o : Outcome α) :
    s.after (s.whenAvailable o) = if s.available then s.after o else s := by
  unfold whenAvailable
  split <;> rfl

/-- A Promotion as it is stored for the first time. -/
def admitted (s : Store) (p : Promotion) (candidate : Uid) : Promotion :=
  { p with metadata := stamped p.metadata none candidate (s.version + 1) }

theorem after_createPromotion (p : Promotion) (candidate : Uid) :
    s.after (s.createPromotion p candidate) = s ∨
      s.promotions.get? p.key = none ∧ s.after (s.createPromotion p candidate) =
        s.writePromotion none (s.admitted p candidate) := by
  unfold createPromotion
  rw [after_whenAvailable]
  split
  · split
    · exact .inl rfl
    · rename_i absent
      exact .inr ⟨absent, rfl⟩
  · exact .inl rfl

theorem after_annotatePromotion (key : Key) (mark value : String) :
    s.after (s.annotatePromotion key mark value) = s ∨
      ∃ old, s.promotions.get? key = some old ∧ s.after (s.annotatePromotion key mark value) =
        s.writePromotion (some old) (old.annotated mark value (s.version + 1)) := by
  unfold annotatePromotion
  rw [after_whenAvailable]
  split
  · split
    · exact .inl rfl
    · rename_i old stored
      exact .inr ⟨old, stored, rfl⟩
  · exact .inl rfl

theorem after_deletePromotion (key : Key) :
    s.after (s.deletePromotion key) = s ∨
      ∃ p, s.promotions.get? key = some p ∧
        s.after (s.deletePromotion key) = s.removePromotion p := by
  unfold deletePromotion
  rw [after_whenAvailable]
  split
  · split
    · exact .inl rfl
    · rename_i p stored
      exact .inr ⟨p, stored, rfl⟩
  · exact .inl rfl

/-- A Stage as it is stored in the place of the one with its key. -/
def renewed (s : Store) (stage : Stage) (candidate : Uid) : Stage :=
  let previous := (s.stages.get? stage.metadata.key).map Stage.metadata
  { stage with metadata := stamped stage.metadata previous candidate (s.version + 1) }

theorem key_stamped (m : Metadata) (previous : Option Metadata) (candidate : Uid)
    (version : Nat) : (stamped m previous candidate version).key = m.key := by
  unfold stamped
  split <;> rfl

@[simp] theorem key_admitted (p : Promotion) (candidate : Uid) :
    (s.admitted p candidate).key = p.key :=
  key_stamped _ _ _ _

theorem key_renewed (stage : Stage) (candidate : Uid) :
    (s.renewed stage candidate).metadata.key = stage.metadata.key :=
  key_stamped _ _ _ _

theorem after_putStage (stage : Stage) (candidate : Uid) :
    s.after (s.putStage stage candidate) = s ∨
      s.after (s.putStage stage candidate) =
        s.writeStage (s.stages.get? stage.metadata.key) (s.renewed stage candidate) := by
  unfold putStage
  rw [after_whenAvailable]
  split
  · exact .inr rfl
  · exact .inl rfl

theorem after_putFreight (freight : Freight) (candidate : Uid) :
    s.after (s.putFreight freight candidate) = s ∨
      ∃ old new, s.after (s.putFreight freight candidate) = s.writeFreight old new := by
  unfold putFreight
  rw [after_whenAvailable]
  split
  · exact .inr ⟨_, _, rfl⟩
  · exact .inl rfl

/-- What an operation that writes no status makes of a store. -/
inductive Edited (I : Intake) (s : Store) : Store → Prop where
  | same : Edited I s s
  | available (b : Bool) : Edited I s (s.setAvailable b)
  | created (p : Promotion) (candidate : Uid) (allowed : I.promotion p)
      (absent : s.promotions.get? p.key = none) :
      Edited I s (s.writePromotion none (s.admitted p candidate))
  | annotated (old : Promotion) (mark value : String)
      (stored : s.promotions.get? old.key = some old) :
      Edited I s (s.writePromotion (some old) (old.annotated mark value (s.version + 1)))
  | deleted (p : Promotion) (stored : s.promotions.get? p.key = some p) :
      Edited I s (s.removePromotion p)
  | put (stage : Stage) (candidate : Uid) (allowed : I.stage stage) :
      Edited I s (s.writeStage (s.stages.get? stage.metadata.key) (s.renewed stage candidate))
  | marked (old : Stage) (m : Metadata) (stored : s.stages.get? old.metadata.key = some old)
      (key : m.key = old.metadata.key) (labels : m.labels = old.metadata.labels) :
      Edited I s (s.writeStage (some old) { old with metadata := m })
  | freight (old : Option Freight) (freight : Freight) : Edited I s (s.writeFreight old freight)

variable {I : Intake}

theorem edited_apply (hs : s.Sound) {e : Edit} (he : e.Within I) : Edited I s (e.apply s) := by
  cases e with
  | create p candidate =>
    show Edited I s (s.after (s.createPromotion p candidate))
    rcases after_createPromotion p candidate with h | ⟨absent, h⟩
    · rw [h]
      exact .same
    · rw [h]
      exact .created p candidate he absent
  | annotate key mark value =>
    show Edited I s (s.after (s.annotatePromotion key mark value))
    rcases after_annotatePromotion key mark value with h | ⟨old, stored, h⟩
    · rw [h]
      exact .same
    · rw [h]
      rw [← hs.promotion_key stored] at stored
      exact .annotated old mark value stored
  | delete key =>
    show Edited I s (s.after (s.deletePromotion key))
    rcases after_deletePromotion key with h | ⟨p, stored, h⟩
    · rw [h]
      exact .same
    · rw [h]
      rw [← hs.promotion_key stored] at stored
      exact .deleted p stored
  | putStage stage candidate =>
    show Edited I s (s.after (s.putStage stage candidate))
    rcases after_putStage stage candidate with h | h
    · rw [h]
      exact .same
    · rw [h]
      exact .put stage candidate he
  | putFreight freight candidate =>
    show Edited I s (s.after (s.putFreight freight candidate))
    rcases after_putFreight freight candidate with h | ⟨old, new, h⟩
    · rw [h]
      exact .same
    · rw [h]
      exact .freight old new
  | setAvailable available => exact .available available

/-- Edits write no status, and a Promotion has the labels that it was created with. -/
theorem kept_apply (hs : s.Sound) {e : Edit} {key : Key} (he : e.Spares key) {p : Promotion}
    (stored : s.promotions.get? key = some p) :
    ∃ p', (e.apply s).promotions.get? key = some p' ∧ p'.status = p.status ∧
      p'.metadata.labels = p.metadata.labels := by
  cases e with
  | create q candidate =>
    refine ⟨p, ?_, rfl, rfl⟩
    show (s.after (s.createPromotion q candidate)).promotions.get? key = some p
    rcases after_createPromotion q candidate with h | ⟨absent, h⟩
    · rw [h]
      exact stored
    · rw [h, get?_writePromotion, key_admitted, if_neg]
      · exact stored
      · rintro rfl
        rw [absent] at stored
        cases stored
  | annotate k mark value =>
    show ∃ p', (s.after (s.annotatePromotion k mark value)).promotions.get? key = some p' ∧ _
    rcases after_annotatePromotion k mark value with h | ⟨old, found, h⟩
    · rw [h]
      exact ⟨p, stored, rfl, rfl⟩
    · rw [h, get?_writePromotion, Promotion.key_annotated, hs.promotion_key found]
      split
      · rename_i same
        rw [same, found] at stored
        cases stored
        exact ⟨_, rfl, rfl, rfl⟩
      · exact ⟨p, stored, rfl, rfl⟩
  | delete k =>
    refine ⟨p, ?_, rfl, rfl⟩
    show (s.after (s.deletePromotion k)).promotions.get? key = some p
    rcases after_deletePromotion k with h | ⟨q, found, h⟩
    · rw [h]
      exact stored
    · rw [h, get?_removePromotion, hs.promotion_key found, if_neg he.symm]
      exact stored
  | putStage stage candidate =>
    show ∃ p', (s.after (s.putStage stage candidate)).promotions.get? key = some p' ∧ _
    rcases after_putStage stage candidate with h | h <;> rw [h] <;> exact ⟨p, stored, rfl, rfl⟩
  | putFreight freight candidate =>
    show ∃ p', (s.after (s.putFreight freight candidate)).promotions.get? key = some p' ∧ _
    rcases after_putFreight freight candidate with h | ⟨_, _, h⟩ <;> rw [h] <;>
      exact ⟨p, stored, rfl, rfl⟩
  | setAvailable available => exact ⟨p, stored, rfl, rfl⟩

theorem status_apply (hs : s.Sound) {e : Edit} {key : Key} (he : e.Spares key) {p : Promotion}
    (stored : s.promotions.get? key = some p) :
    ∃ p', (e.apply s).promotions.get? key = some p' ∧ p'.status = p.status := by
  obtain ⟨p', kept, status, _⟩ := kept_apply hs he stored
  exact ⟨p', kept, status⟩

/-- A request to verify again changes nothing of a Stage but its metadata. -/
theorem after_requestReverification (key : Key) (now : Instant) :
    s.after (s.requestReverification key now) = s ∨
      ∃ old m, s.stages.get? key = some old ∧ m.key = old.metadata.key ∧
        m.labels = old.metadata.labels ∧ s.after (s.requestReverification key now) =
          s.writeStage (some old) { old with metadata := m } := by
  unfold requestReverification
  rw [after_whenAvailable]
  split
  · split
    · exact .inl rfl
    · rename_i old stored
      split
      · exact .inl rfl
      · rename_i v _
        -- only the annotation and the version differ
        let m := old.metadata.annotate Annotations.reverifyKey (v.id ++ s!"@{now.millis}")
        exact .inr ⟨old, { m with version := s.version + 1 }, stored, rfl, rfl, rfl⟩
  · exact .inl rfl

theorem edited_requestReverification (hs : s.Sound) (key : Key) (now : Instant) :
    Edited I s (s.after (s.requestReverification key now)) := by
  rcases after_requestReverification key now with h | ⟨old, m, stored, hm, labels, h⟩
  · rw [h]
    exact .same
  · rw [h]
    rw [← hs.stage_key stored] at stored
    exact .marked old m stored hm labels

@[simp] theorem promotions_requestReverification (key : Key) (now : Instant) :
    (s.after (s.requestReverification key now)).promotions = s.promotions := by
  rcases after_requestReverification key now with h | ⟨old, m, _, _, _, h⟩
  · rw [h]
  · rw [h]
    rfl

/-- What a successful status write found and what it left. -/
theorem updateStatus_ok (hs : s.Sound) {key : Key} {expected v : Nat}
    {status : PromotionStatus} (h : s.updateStatus key expected status = .ok (v, s')) :
    ∃ old, s.promotions.get? key = some old ∧ old.key = key ∧
      old.metadata.version = expected ∧ status.unfit? old.spec = none ∧ v = s.version + 1 ∧
      s' = s.writePromotion (some old) (old.withStatus v status) := by
  unfold updateStatus whenAvailable at h
  split at h
  · split at h
    · cases h
    · rename_i old stored
      split at h
      · cases h
      · rename_i hv
        split at h
        · cases h
        · rename_i fit
          cases h
          exact ⟨old, stored, hs.promotion_key stored, Decidable.of_not_not hv, fit, rfl, rfl⟩
  · cases h

/-- Why a status write was refused. -/
theorem updateStatus_error {key : Key} {expected : Nat} {status : PromotionStatus}
    {e : StoreError} (h : s.updateStatus key expected status = .error e) :
    e = outage ∨ (e = .notFound key ∧ s.promotions.get? key = none) ∨
      (∃ actual, e = .conflict key expected actual) ∨
      ∃ old unfit, e = .invalid key unfit ∧ s.promotions.get? key = some old ∧
        old.metadata.version = expected ∧ status.unfit? old.spec = some unfit := by
  unfold updateStatus whenAvailable at h
  split at h
  · split at h
    · rename_i absent
      cases h
      exact .inr (.inl ⟨rfl, absent⟩)
    · rename_i old stored
      split at h
      · cases h
        exact .inr (.inr (.inl ⟨_, rfl⟩))
      · rename_i hv
        split at h
        · rename_i unfit hu
          cases h
          exact .inr (.inr (.inr ⟨old, unfit, rfl, stored, Decidable.of_not_not hv, hu⟩))
        · cases h
  · cases h
    exact .inl rfl

/-- Whatever is stored in `s'` was stored in `s` already or has a version that `s` had not
given out. -/
def Grows (s s' : Store) : Prop :=
  s.version ≤ s'.version ∧ ∀ k p, s'.promotions.get? k = some p →
    s.promotions.get? k = some p ∨ s.version < p.metadata.version

theorem Grows.refl (s : Store) : s.Grows s := ⟨Nat.le_refl _, fun _ _ => .inl⟩

theorem Grows.trans {s'' : Store} (h : s.Grows s') (h' : s'.Grows s'') : s.Grows s'' := by
  refine ⟨Nat.le_trans h.1 h'.1, fun k p hp => ?_⟩
  rcases h'.2 k p hp with hp | later
  · exact h.2 k p hp
  · exact .inr (Nat.lt_of_le_of_lt h.1 later)

theorem grows_writePromotion {old : Option Promotion} {p : Promotion}
    (h : p.metadata.version = s.version + 1) : s.Grows (s.writePromotion old p) := by
  refine ⟨Nat.le_succ _, fun k q hq => ?_⟩
  rcases writePromotion_cases hq with ⟨_, rfl⟩ | hq
  · exact .inr (by omega)
  · exact .inl hq

theorem Edited.grows (h : Edited I s s') : s.Grows s' := by
  cases h with
  | same => exact .refl s
  | available b => exact ⟨Nat.le_refl _, fun _ _ => .inl⟩
  | created p candidate allowed absent => exact grows_writePromotion rfl
  | annotated old mark value stored => exact grows_writePromotion rfl
  | deleted p stored => exact ⟨Nat.le_refl _, fun _ _ hq => .inl (get?_of_removePromotion hq)⟩
  | put stage candidate allowed => exact ⟨Nat.le_succ _, fun _ _ => .inl⟩
  | marked old m stored key labels => exact ⟨Nat.le_succ _, fun _ _ => .inl⟩
  | freight old freight => exact ⟨Nat.le_succ _, fun _ _ => .inl⟩

theorem sound_writePromotion (hs : s.Sound) {old : Option Promotion} {p : Promotion}
    (h : p.metadata.version = s.version + 1) : (s.writePromotion old p).Sound where
  promotion_key hq := by
    rcases writePromotion_cases hq with ⟨hk, rfl⟩ | hq
    · exact hk.symm
    · exact hs.promotion_key hq
  stage_key hq := hs.stage_key hq
  version_le hq := by
    show _ ≤ s.version + 1
    rcases writePromotion_cases hq with ⟨_, rfl⟩ | hq
    · exact Nat.le_of_eq h
    · exact Nat.le_succ_of_le (hs.version_le hq)

theorem sound_writeStage (hs : s.Sound) (old : Option Stage) (stage : Stage) :
    (s.writeStage old stage).Sound where
  promotion_key hq := hs.promotion_key hq
  stage_key hq := by
    rcases writeStage_cases hq with ⟨hk, rfl⟩ | hq
    · exact hk.symm
    · exact hs.stage_key hq
  version_le hq := Nat.le_succ_of_le (hs.version_le hq)

theorem Edited.sound (hs : s.Sound) (h : Edited I s s') : s'.Sound := by
  cases h with
  | same => exact hs
  | available b => exact ⟨hs.promotion_key, hs.stage_key, hs.version_le⟩
  | created p candidate allowed absent => exact sound_writePromotion hs rfl
  | annotated old mark value stored => exact sound_writePromotion hs rfl
  | deleted p stored =>
    exact ⟨fun hq => hs.promotion_key (get?_of_removePromotion hq), hs.stage_key,
      fun hq => hs.version_le (get?_of_removePromotion hq)⟩
  | put stage candidate allowed => exact sound_writeStage hs _ _
  | marked old m stored key labels => exact sound_writeStage hs _ _
  | freight old freight =>
    exact ⟨hs.promotion_key, hs.stage_key, fun hq => Nat.le_succ_of_le (hs.version_le hq)⟩

theorem sound_edits (hs : s.Sound) (es : List Edit) : (es.foldl Edit.apply s).Sound := by
  induction es generalizing s with
  | nil => exact hs
  | cons e es ih =>
    have within : e.Within .any := by cases e <;> trivial
    exact ih ((edited_apply hs within).sound hs)

/-- The version of `p` was given out, and what is stored under its key with this version is
`p` itself. -/
def Pins (s : Store) (p : Promotion) : Prop :=
  p.metadata.version ≤ s.version ∧ ∀ q, s.promotions.get? p.key = some q →
    q.metadata.version = p.metadata.version → q = p

theorem pins_of_stored (hs : s.Sound) {k : Key} {p : Promotion}
    (h : s.promotions.get? k = some p) : s.Pins p := by
  refine ⟨hs.version_le h, fun q hq _ => ?_⟩
  rw [hs.promotion_key h, h] at hq
  exact (Option.some.inj hq).symm

theorem Pins.grow {p : Promotion} (hp : s.Pins p) (h : s.Grows s') : s'.Pins p := by
  refine ⟨Nat.le_trans hp.1 h.1, fun q hq hv => ?_⟩
  -- what was written since has a version that `p` cannot have
  rcases h.2 _ q hq with hq | hlt
  · exact hp.2 q hq hv
  · have := hp.1
    omega

theorem pins_writePromotion (old : Option Promotion) {p : Promotion}
    (h : p.metadata.version = s.version + 1) : (s.writePromotion old p).Pins p := by
  refine ⟨Nat.le_of_eq h, fun q hq _ => ?_⟩
  rw [get?_writePromotion, if_pos rfl] at hq
  exact (Option.some.inj hq).symm

end Store

end Drayage
