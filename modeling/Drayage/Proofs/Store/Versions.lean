import Drayage.Proofs.Store.Evolution

/-!
# What was stored as which version

Every write stamps a version above all that were stamped before, so a version stands for
the one value that it was stamped on. A status is written exactly if the Promotion is still
the value that the expected version stands for: nothing was written or removed under its
key since.
-/

namespace Drayage

/-- A call of a store that may write. Who only reads leaves the store as it is. -/
inductive StoreCall where
  | edit (e : Edit)
  | updateStatus (key : Key) (expected : Nat) (status : PromotionStatus)
  | requestReverification (key : Key) (now : Instant)

/-- What a call stored, or the key of the Promotion that it removed. -/
inductive Deed where
  | promotion (p : Promotion)
  | stage (stage : Stage)
  | freight (freight : Freight)
  | removal (key : Key)

namespace Deed

/-- The version that was stamped on what was stored. -/
def version? : Deed → Option Nat
  | promotion p => some p.metadata.version
  | stage x => some x.metadata.version
  | freight f => some f.metadata.version
  | removal _ => none

def promotion? : Deed → Option Promotion
  | promotion p => some p
  | stage _ | freight _ | removal _ => none

/-- A deed has to do with the Promotion under a key. -/
def concerns (key : Key) : Deed → Bool
  | promotion p => p.key = key
  | removal k => k = key
  | stage _ | freight _ => false

/-- What was stored is there, and what was removed is not. -/
def Stands (s : Store) : Deed → Prop
  | promotion p => s.promotions.get? p.key = some p
  | stage x => s.stages.get? x.metadata.key = some x
  | freight f => s.freight.get? f.metadata.key = some f
  | removal key => s.promotions.get? key = none

end Deed

/-- What an operation did, as told by what it returns and by the store after it. One that
failed did nothing. -/
def Store.deed? {α : Type} (o : Store.Outcome α) (told : α → Store → Option Deed) :
    Option Deed :=
  match o with
  | .ok (a, s) => told a s
  | .error _ => none

def Edit.deed? (s : Store) : Edit → Option Deed
  | .create p candidate =>
    Store.deed? (s.createPromotion p candidate) fun p _ => some (.promotion p)
  | .annotate key mark value =>
    Store.deed? (s.annotatePromotion key mark value) fun p _ => some (.promotion p)
  | .delete key => Store.deed? (s.deletePromotion key) fun p _ => p.map fun _ => .removal key
  | .putStage stage candidate =>
    Store.deed? (s.putStage stage candidate) fun stage _ => some (.stage stage)
  | .putFreight freight candidate =>
    Store.deed? (s.putFreight freight candidate) fun freight _ => some (.freight freight)
  | .setAvailable _ => none

namespace StoreCall

/-- The store after a call. -/
def apply (s : Store) : StoreCall → Store
  | edit e => e.apply s
  | updateStatus key expected status => s.after (s.updateStatus key expected status)
  | requestReverification key now => s.after (s.requestReverification key now)

/-- What a call does to a store. -/
def deed? (s : Store) : StoreCall → Option Deed
  | edit e => e.deed? s
  | updateStatus key expected status =>
    Store.deed? (s.updateStatus key expected status) fun _ s' =>
      (s'.promotions.get? key).map .promotion
  | requestReverification key now =>
    Store.deed? (s.requestReverification key now) fun _ s' => (s'.stages.get? key).map .stage

end StoreCall

namespace Store

variable {s s' : Store} {ds : List Deed}

/-- The store after some calls. -/
def run (s : Store) (calls : List StoreCall) : Store := calls.foldl StoreCall.apply s

/-- What some calls do, one after another. -/
def deeds : Store → List StoreCall → List Deed
  | _, [] => []
  | s, call :: calls => (call.deed? s).toList ++ deeds (call.apply s) calls

/-- The value that was stored when a version was stamped on it. -/
def writtenAs (ds : List Deed) (version : Nat) : Option Deed :=
  ds.find? fun d => d.version? = some version

/-- How a deed turns a store into another. -/
inductive Did (s : Store) : Option Deed → Store → Prop where
  | nothing : Did s none s
  | available (b : Bool) : Did s none (s.setAvailable b)
  | promotion (old : Option Promotion) (p : Promotion)
      (version : p.metadata.version = s.version + 1) :
      Did s (some (.promotion p)) (s.writePromotion old p)
  | stage (old : Option Stage) (stage : Stage)
      (version : stage.metadata.version = s.version + 1) :
      Did s (some (.stage stage)) (s.writeStage old stage)
  | freight (old : Option Freight) (freight : Freight)
      (version : freight.metadata.version = s.version + 1) :
      Did s (some (.freight freight)) (s.writeFreight old freight)
  | removal (p : Promotion) : Did s (some (.removal p.key)) (s.removePromotion p)

theorem did_whenAvailable {α : Type} {o : Outcome α} {told : α → Store → Option Deed}
    (h : Did s (deed? o told) (s.after o)) :
    Did s (deed? (s.whenAvailable o) told) (s.after (s.whenAvailable o)) := by
  unfold whenAvailable
  split
  · exact h
  · exact .nothing

theorem version_stamped (m : Metadata) (previous : Option Metadata) (candidate : Uid)
    (version : Nat) : (stamped m previous candidate version).version = version := by
  unfold stamped
  split <;> rfl

theorem did_edit (hs : s.Sound) (e : Edit) : Did s (e.deed? s) (e.apply s) := by
  cases e with
  | create p candidate =>
    apply did_whenAvailable
    split
    · exact .nothing
    · exact .promotion none _ (version_stamped _ _ _ _)
  | annotate key mark value =>
    apply did_whenAvailable
    split
    · exact .nothing
    · exact .promotion (some _) _ rfl
  | delete key =>
    apply did_whenAvailable
    split
    · exact .nothing
    · rename_i p stored
      obtain rfl := hs.promotion_key stored
      exact .removal p
  | putStage stage candidate =>
    apply did_whenAvailable
    exact .stage _ _ (version_stamped _ _ _ _)
  | putFreight freight candidate =>
    apply did_whenAvailable
    exact .freight _ _ (version_stamped _ _ _ _)
  | setAvailable available => exact .available available

theorem did_call (hs : s.Sound) (call : StoreCall) : Did s (call.deed? s) (call.apply s) := by
  cases call with
  | edit e => exact did_edit hs e
  | updateStatus key expected status =>
    show Did s (Store.deed? _ _) (s.after (s.updateStatus key expected status))
    cases h : s.updateStatus key expected status with
    | error e => exact .nothing
    | ok r =>
      obtain ⟨v, s'⟩ := r
      obtain ⟨old, _, rfl, _, _, rfl, rfl⟩ := updateStatus_ok hs h
      have stored := get?_writePromotion (s := s) (some old)
        (old.withStatus (s.version + 1) status) old.key
      rw [Promotion.key_withStatus, if_pos rfl] at stored
      show Did s (Option.map Deed.promotion _) (s.writePromotion (some old) _)
      rw [stored]
      exact .promotion _ _ rfl
  | requestReverification key now =>
    show Did s (Store.deed? _ _) (s.after (s.requestReverification key now))
    unfold requestReverification
    apply did_whenAvailable
    split
    · exact .nothing
    · rename_i old stored
      split
      · exact .nothing
      · obtain rfl := hs.stage_key stored
        -- what is stored under the key now is the Stage with the annotation
        have marked (new : Stage) (key : new.metadata.key = old.metadata.key)
            (version : new.metadata.version = s.version + 1) :
            Did s (((s.writeStage (some old) new).stages.get? old.metadata.key).map .stage)
              (s.writeStage (some old) new) := by
          rw [get?_writeStage, if_pos key.symm]
          exact .stage _ _ version
        refine marked _ ?_ ?_ <;> rfl

theorem Did.sound (hs : s.Sound) {d : Option Deed} (h : Did s d s') : s'.Sound := by
  cases h with
  | nothing => exact hs
  | available b => exact ⟨hs.promotion_key, hs.stage_key, hs.version_le⟩
  | promotion old p version => exact sound_writePromotion hs version
  | stage old stage version => exact sound_writeStage hs old stage
  | freight old freight version =>
    exact ⟨hs.promotion_key, hs.stage_key, fun hq => Nat.le_succ_of_le (hs.version_le hq)⟩
  | removal p =>
    exact ⟨fun hq => hs.promotion_key (get?_of_removePromotion hq), hs.stage_key,
      fun hq => hs.version_le (get?_of_removePromotion hq)⟩

theorem Did.stands {d : Deed} (h : Did s (some d) s') : d.Stands s' := by
  cases h with
  | promotion old p version => exact (get?_writePromotion old p p.key).trans (if_pos rfl)
  | stage old stage version =>
    exact (get?_writeStage old stage stage.metadata.key).trans (if_pos rfl)
  | freight old freight version =>
    show (s.freight.insert freight.metadata.key freight).get? _ = _
    rw [Dict.get?_insert, if_pos Std.ReflCmp.compare_self]
  | removal p => exact (get?_removePromotion p p.key).trans (if_pos rfl)

theorem Did.version_eq {d : Deed} (h : Did s (some d) s') {v : Nat} (hv : d.version? = some v) :
    v = s.version + 1 := by
  cases h with
  | promotion old p version => exact (Option.some.inj hv).symm.trans version
  | stage old stage version => exact (Option.some.inj hv).symm.trans version
  | freight old freight version => exact (Option.some.inj hv).symm.trans version
  | removal p => cases hv

/-- Who does nothing leaves all resources as they are. -/
theorem Did.unchanged (h : Did s none s') :
    s'.promotions = s.promotions ∧ s'.stages = s.stages ∧ s'.freight = s.freight := by
  cases h <;> exact ⟨rfl, rfl, rfl⟩

/-- The last deed that had to do with the Promotion under a key. -/
def lastDeed (ds : List Deed) (key : Key) : Option Deed := ds.reverse.find? (Deed.concerns key)

theorem lastDeed_concat (d : Deed) (key : Key) :
    lastDeed (ds ++ [d]) key = if d.concerns key then some d else lastDeed ds key := by
  unfold lastDeed
  rw [List.reverse_append, List.reverse_singleton, List.singleton_append, List.find?_cons]
  cases d.concerns key <;> rfl

theorem lastDeed_eq_some_iff {key : Key} {d : Deed} :
    lastDeed ds key = some d ↔ d.concerns key = true ∧
      ∃ before after, ds = before ++ d :: after ∧ ∀ e ∈ after, e.concerns key = false := by
  unfold lastDeed
  rw [List.find?_eq_some_iff_append]
  refine and_congr_right fun _ => ⟨?_, ?_⟩
  · rintro ⟨front, back, split, others⟩
    refine ⟨back.reverse, front.reverse, ?_, fun e he => ?_⟩
    · rw [← ds.reverse_reverse, split]
      simp
    · simpa using others e (List.mem_reverse.mp he)
  · rintro ⟨before, after, rfl, others⟩
    refine ⟨after.reverse, before.reverse, by simp, fun e he => ?_⟩
    simp [others e (List.mem_reverse.mp he)]

/-- What was done since the store was empty: versions are given out one after another, and
the last deed under a key tells what is stored there. -/
structure Recorded (ds : List Deed) (s : Store) : Prop where
  sound : s.Sound
  versions : ds.filterMap Deed.version? = List.range' 1 s.version
  stored : ∀ key, s.promotions.get? key = (lastDeed ds key).bind Deed.promotion?

theorem recorded_empty : Recorded [] .empty where
  sound := sound_empty
  versions := rfl
  stored _ := rfl

theorem Recorded.did (h : Recorded ds s) {d : Option Deed} (did : Did s d s') :
    Recorded (ds ++ d.toList) s' := by
  have stored := h.stored
  -- whatever is written gets the next version
  have next (d : Deed) (hd : d.version? = some (s.version + 1)) :
      (ds ++ [d]).filterMap Deed.version? = List.range' 1 (s.version + 1) := by
    rw [List.filterMap_append, h.versions, List.range'_1_concat, Nat.add_comm 1]
    simp [hd]
  refine ⟨did.sound h.sound, ?_, fun key => ?_⟩
  · cases did with
    | nothing | available =>
      rw [Option.toList_none, List.append_nil]
      exact h.versions
    | promotion old p version => exact next _ (congrArg some version)
    | stage old stage version => exact next _ (congrArg some version)
    | freight old freight version => exact next _ (congrArg some version)
    | removal p =>
      rw [Option.toList_some, List.filterMap_append, h.versions]
      exact List.append_nil _
  · cases did with
    | nothing | available =>
      rw [Option.toList_none, List.append_nil]
      exact stored key
    | promotion old p version =>
      rw [Option.toList_some, lastDeed_concat, get?_writePromotion, stored]
      by_cases hk : key = p.key <;> simp [Deed.concerns, hk, eq_comm, Deed.promotion?]
    | stage old _ version | freight old _ version =>
      rw [Option.toList_some, lastDeed_concat]
      exact stored key
    | removal p =>
      rw [Option.toList_some, lastDeed_concat, get?_removePromotion, stored]
      by_cases hk : key = p.key <;> simp [Deed.concerns, hk, eq_comm, Deed.promotion?]

theorem Recorded.run (h : Recorded ds s) (calls : List StoreCall) :
    Recorded (ds ++ s.deeds calls) (s.run calls) := by
  induction calls generalizing s ds with
  | nil =>
    rw [deeds, List.append_nil]
    exact h
  | cons call calls ih =>
    have := ih (h.did (did_call h.sound call))
    rwa [List.append_assoc] at this

theorem writtenAs_of_mem {v : Nat} {d : Deed} (distinct : (ds.filterMap Deed.version?).Nodup)
    (hd : d ∈ ds) (hv : d.version? = some v) : writtenAs ds v = some d := by
  unfold writtenAs
  induction ds with
  | nil => cases hd
  | cons e ds ih =>
    rw [List.find?_cons]
    by_cases he : e.version? = some v
    · rw [decide_eq_true he]
      rw [List.filterMap_cons_some he, List.nodup_cons] at distinct
      rcases List.mem_cons.mp hd with rfl | hd
      · rfl
      · exact absurd (List.mem_filterMap.mpr ⟨d, hd, hv⟩) distinct.1
    · rw [decide_eq_false he]
      rcases List.mem_cons.mp hd with rfl | hd
      · exact absurd hv he
      · refine ih (List.Nodup.sublist ?_ distinct) hd
        exact (List.sublist_cons_self e ds).filterMap _

theorem Recorded.distinct (h : Recorded ds s) : (ds.filterMap Deed.version?).Nodup := by
  rw [h.versions]
  exact List.nodup_range'

/-- A Promotion that is stored is what the last deed under its key stored. -/
theorem Recorded.lastDeed_eq (h : Recorded ds s) {key : Key} {p : Promotion}
    (stored : s.promotions.get? key = some p) : lastDeed ds key = some (.promotion p) := by
  rw [h.stored] at stored
  obtain ⟨d, hd, hp⟩ := Option.bind_eq_some_iff.mp stored
  cases d with
  | promotion q =>
    cases hp
    exact hd
  | stage | freight | removal => cases hp

theorem Recorded.writtenAs_eq (h : Recorded ds s) {key : Key} {p : Promotion}
    (stored : s.promotions.get? key = some p) :
    writtenAs ds p.metadata.version = some (.promotion p) := by
  obtain ⟨_, before, after, rfl, _⟩ := lastDeed_eq_some_iff.mp (h.lastDeed_eq stored)
  exact writtenAs_of_mem h.distinct (List.mem_append_right _ List.mem_cons_self) rfl

theorem version_of_writtenAs {v : Nat} {d : Deed} (h : writtenAs ds v = some d) :
    d.version? = some v := by
  unfold writtenAs at h
  have found := List.find?_some h
  exact of_decide_eq_true found

theorem updateStatus_isOk_iff (available : s.available = true) {key : Key} {expected : Nat}
    {status : PromotionStatus} :
    (∃ r, s.updateStatus key expected status = .ok r) ↔ ∃ p, s.promotions.get? key = some p ∧
      status.unfit? p.spec = none ∧ p.metadata.version = expected := by
  unfold updateStatus whenAvailable
  rw [if_pos available]
  cases stored : s.promotions.get? key with
  | none => simp
  | some p =>
    by_cases hv : p.metadata.version = expected
    · cases fit : status.unfit? p.spec <;> simp [hv, fit]
    · simp [hv]

theorem Recorded.updateStatus_isOk_iff (h : Recorded ds s) (available : s.available = true)
    {key : Key} {expected : Nat} {status : PromotionStatus} :
    (∃ r, s.updateStatus key expected status = .ok r) ↔ ∃ p, s.promotions.get? key = some p ∧
      status.unfit? p.spec = none ∧ writtenAs ds expected = some (.promotion p) := by
  rw [Store.updateStatus_isOk_iff available]
  refine exists_congr fun p => and_congr_right fun stored => and_congr_right fun _ => ?_
  constructor
  · rintro rfl
    exact h.writtenAs_eq stored
  · intro written
    exact Option.some.inj (version_of_writtenAs written)

/-- A version stands for the value that is stored if it was stamped on the last write under
its key and nothing was removed there since. -/
theorem Recorded.writtenAs_iff (h : Recorded ds s) {key : Key} {expected : Nat} {p : Promotion}
    (stored : s.promotions.get? key = some p) :
    writtenAs ds expected = some (.promotion p) ↔ ∃ before q after,
      ds = before ++ .promotion q :: after ∧ q.key = key ∧ q.metadata.version = expected ∧
        ∀ d ∈ after, d.concerns key = false := by
  constructor
  · intro written
    obtain ⟨_, before, after, split, others⟩ :=
      lastDeed_eq_some_iff.mp (h.lastDeed_eq stored)
    exact ⟨before, p, after, split, h.sound.promotion_key stored,
      Option.some.inj (version_of_writtenAs written), others⟩
  · rintro ⟨before, q, after, split, hkey, rfl, others⟩
    have last : lastDeed ds key = some (.promotion q) :=
      lastDeed_eq_some_iff.mpr ⟨decide_eq_true hkey, before, after, split, others⟩
    rw [h.lastDeed_eq stored] at last
    cases last
    exact h.writtenAs_eq stored

/-- What calls on an empty store can rely on, if `s` is the store that they left and `ds`
what they did. -/
structure LosesNoUpdate (ds : List Deed) (s : Store) : Prop where
  /-- A version that is stamped is above all that were stamped before, on whatever resource. -/
  ascending : (ds.filterMap Deed.version?).Pairwise (· < ·)
  /-- The store counts its writes, so no version exceeds their number. -/
  counted : (ds.filterMap Deed.version?).length = s.version
  /-- What a call does is there after it, with the next version unless it was removed. -/
  told : ∀ (call : StoreCall) (d : Deed), call.deed? s = some d →
    d.Stands (call.apply s) ∧ ∀ v, d.version? = some v → v = s.version + 1
  silent : ∀ call : StoreCall, call.deed? s = none →
    (call.apply s).promotions = s.promotions ∧ (call.apply s).stages = s.stages ∧
      (call.apply s).freight = s.freight
  /-- A status is written exactly if it fits and the Promotion is still the value that was
  stored when the expected version was stamped on it. -/
  swaps : ∀ key expected status, s.available = true →
    ((∃ r, s.updateStatus key expected status = .ok r) ↔ ∃ p,
      s.promotions.get? key = some p ∧ status.unfit? p.spec = none ∧
        writtenAs ds expected = some (.promotion p))
  /-- That is to say, if nothing was written or removed under its key since. -/
  untouched : ∀ key expected p, s.promotions.get? key = some p →
    (writtenAs ds expected = some (.promotion p) ↔ ∃ before q after,
      ds = before ++ .promotion q :: after ∧ q.key = key ∧ q.metadata.version = expected ∧
        ∀ d ∈ after, d.concerns key = false)
  /-- The write changes the status and the version of this Promotion and nothing else. -/
  framed : ∀ key expected status v s', s.updateStatus key expected status = .ok (v, s') →
    ∃ p, s.promotions.get? key = some p ∧ v = s.version + 1 ∧
      (∀ k, s'.promotions.get? k =
        if k = key then some (p.withStatus v status) else s.promotions.get? k) ∧
      s'.stages = s.stages ∧ s'.freight = s.freight ∧ s'.available = s.available

/-- Whatever is called in whatever order, no status is written over a value that its writer
has not seen. -/
theorem losesNoUpdate_of_calls (calls : List StoreCall) :
    LosesNoUpdate (empty.deeds calls) (empty.run calls) := by
  have h : Recorded (empty.deeds calls) (empty.run calls) := recorded_empty.run calls
  generalize empty.deeds calls = ds at h ⊢
  generalize empty.run calls = s at h ⊢
  refine ⟨?_, ?_, ?_, ?_, fun _ _ _ => (h.updateStatus_isOk_iff ·),
    fun _ _ _ => h.writtenAs_iff, ?_⟩
  · rw [h.versions]
    exact List.pairwise_lt_range'
  · rw [h.versions]
    exact List.length_range'
  · intro call d hd
    have did := did_call h.sound call
    rw [hd] at did
    exact ⟨did.stands, fun v hv => did.version_eq hv⟩
  · intro call hd
    have did := did_call h.sound call
    rw [hd] at did
    exact did.unchanged
  · intro key expected status v s' written
    obtain ⟨old, stored, rfl, _, _, rfl, rfl⟩ := updateStatus_ok h.sound written
    exact ⟨old, stored, rfl, fun k => get?_writePromotion _ _ k, rfl, rfl, rfl⟩

end Store

end Drayage
