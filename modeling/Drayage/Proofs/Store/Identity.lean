import Drayage.Proofs.Store.Lineage
import Drayage.Proofs.Resource.Uid

/-!
# Which Promotions share an identity

A Promotion that comes without a uid gets one that was generated for it; one that comes with
a uid keeps it. So what is generated tells all Promotions apart, and two of them share a
uid, and with it a workspace, exactly if the later one was handed in with the uid of the
earlier.
-/

namespace Drayage

/-- The uid that a resource comes with when it is created or put. -/
def StoreCall.brought? : StoreCall → Option Uid
  | edit (.create p _) => some p.metadata.uid
  | edit (.putStage stage _) => some stage.metadata.uid
  | edit (.putFreight freight _) => some freight.metadata.uid
  | edit (.annotate _ _ _) | edit (.delete _) | edit (.setAvailable _)
  | updateStatus _ _ _ | requestReverification _ _ => none

/-- The uid that is generated for a resource that comes without one. -/
def StoreCall.generated? : StoreCall → Option Uid
  | edit (.create p candidate) => if p.metadata.uid.isUnset then some candidate else none
  | edit (.putStage stage candidate) =>
    if stage.metadata.uid.isUnset then some candidate else none
  | edit (.putFreight freight candidate) =>
    if freight.metadata.uid.isUnset then some candidate else none
  | edit (.annotate _ _ _) | edit (.delete _) | edit (.setAvailable _)
  | updateStatus _ _ _ | requestReverification _ _ => none

/-- All uids that a call shows. -/
def StoreCall.uids (call : StoreCall) : List Uid :=
  call.brought?.toList ++ call.generated?.toList

/-- Whatever is generated is a uid that was not seen before. -/
def Generates : List Uid → List StoreCall → Prop
  | _, [] => True
  | seen, call :: calls =>
    (∀ u ∈ call.generated?, u ≠ .unset ∧ u ∉ seen) ∧ Generates (seen ++ call.uids) calls

instance decidableGenerates : ∀ seen calls, Decidable (Generates seen calls)
  | _, [] => inferInstanceAs (Decidable True)
  | seen, call :: calls =>
    have := decidableGenerates (seen ++ call.uids) calls
    inferInstanceAs (Decidable (_ ∧ _))

/-- All uids have their 128 bits. -/
def AllFit (calls : List StoreCall) : Prop := ∀ call ∈ calls, ∀ u ∈ call.uids, u.Fits

instance (calls : List StoreCall) : Decidable (AllFit calls) :=
  inferInstanceAs (Decidable (∀ call ∈ calls, ∀ u ∈ call.uids, u.Fits))

namespace Birth

/-- The uid of a Promotion is the one that it came with, or one that was generated. -/
theorem uid_cases {s : Store} {call : StoreCall} {b : Birth} (h : call.birth? s = some b) :
    call.brought? = some b.given.metadata.uid ∧
      (b.given.metadata.uid ≠ .unset ∧ b.stored.metadata.uid = b.given.metadata.uid ∨
        b.given.metadata.uid = .unset ∧ call.generated? = some b.stored.metadata.uid) := by
  cases call with
  | edit e =>
    cases e with
    | create p candidate =>
      obtain ⟨r, created, rfl⟩ := Option.map_eq_some_iff.mp h
      rcases Store.createPromotion_cases (s := s) p candidate with ⟨e, eq⟩ | ⟨_, eq⟩
      · rw [eq] at created
        cases created
      · rw [eq] at created
        cases created
        have uid : (s.admitted p candidate).metadata.uid =
          if p.metadata.uid.isUnset then candidate else p.metadata.uid := rfl
        refine ⟨rfl, ?_⟩
        by_cases hu : p.metadata.uid = .unset
        · have unset : p.metadata.uid.isUnset = true := beq_iff_eq.mpr hu
          exact .inr ⟨hu, by simp [StoreCall.generated?, uid, unset]⟩
        · have set : p.metadata.uid.isUnset = false := beq_eq_false_iff_ne.mpr hu
          exact .inl ⟨hu, by simp [uid, set]⟩
    | annotate | delete | putStage | putFreight | setAvailable => cases h
  | updateStatus | requestReverification => cases h

theorem uid_mem {s : Store} {call : StoreCall} {b : Birth} (h : call.birth? s = some b) :
    b.stored.metadata.uid ∈ call.uids := by
  obtain ⟨brought, ⟨_, same⟩ | ⟨_, generated⟩⟩ := uid_cases h
  · simp [StoreCall.uids, brought, same]
  · simp [StoreCall.uids, generated]

/-- A later Promotion shares the uid of an earlier one exactly if it came with it. -/
def Distinct (b c : Birth) : Prop :=
  c.stored.metadata.uid = b.stored.metadata.uid ↔ c.given.metadata.uid = b.stored.metadata.uid

end Birth

namespace Store

variable {s : Store} {bs : List Birth} {seen : List Uid}

/-- All uids that were given to Promotions are known, and what is generated is none of them. -/
structure Known (seen : List Uid) (bs : List Birth) : Prop where
  set : ∀ b ∈ bs, b.stored.metadata.uid ≠ .unset
  seen : ∀ b ∈ bs, b.stored.metadata.uid ∈ seen
  distinct : bs.Pairwise Birth.Distinct

theorem known_nil : Known [] [] where
  set b hb := by cases hb
  seen b hb := by cases hb
  distinct := .nil

theorem Known.call (h : Known seen bs) {call : StoreCall}
    (fresh : ∀ u ∈ call.generated?, u ≠ .unset ∧ u ∉ seen) :
    Known (seen ++ call.uids) (bs ++ (call.birth? s).toList) := by
  cases birth : call.birth? s with
  | none =>
    rw [Option.toList_none, List.append_nil]
    exact ⟨h.set, fun b hb => List.mem_append_left _ (h.seen b hb), h.distinct⟩
  | some c =>
    have own := (Birth.uid_cases birth).2
    have set : c.stored.metadata.uid ≠ .unset := by
      rcases own with ⟨set, same⟩ | ⟨_, generated⟩
      · rwa [same]
      · exact (fresh _ generated).1
    have distinct (b : Birth) (hb : b ∈ bs) : b.Distinct c := by
      rcases own with ⟨_, same⟩ | ⟨unset, generated⟩
      · rw [Birth.Distinct, same]
      · rw [Birth.Distinct, unset]
        refine iff_of_false (fun same => ?_) fun same => h.set b hb same.symm
        exact (fresh _ generated).2 (same ▸ h.seen b hb)
    refine ⟨fun b hb => ?_, fun b hb => ?_, ?_⟩
    · rcases List.mem_append.mp hb with hb | hb
      · exact h.set b hb
      · rwa [List.mem_singleton.mp hb]
    · rcases List.mem_append.mp hb with hb | hb
      · exact List.mem_append_left _ (h.seen b hb)
      · rw [List.mem_singleton.mp hb]
        exact List.mem_append_right _ (Birth.uid_mem birth)
    · refine List.pairwise_append.mpr ⟨h.distinct, .cons (by simp) .nil, fun b hb d hd => ?_⟩
      rw [List.mem_singleton.mp hd]
      exact distinct b hb

theorem Known.run (h : Known seen bs) {calls : List StoreCall} (fresh : Generates seen calls) :
    Known (seen ++ calls.flatMap StoreCall.uids) (bs ++ s.births calls) := by
  induction calls generalizing s seen bs with
  | nil =>
    rw [births, List.flatMap_nil, List.append_nil, List.append_nil]
    exact h
  | cons call calls ih =>
    have := ih (s := call.apply s) (h.call (s := s) fresh.1) fresh.2
    rwa [List.append_assoc, List.append_assoc] at this

theorem fits_of_births {calls : List StoreCall} (fit : AllFit calls) {b : Birth}
    (hb : b ∈ s.births calls) : b.stored.metadata.uid.Fits := by
  induction calls generalizing s with
  | nil => cases hb
  | cons call calls ih =>
    rcases List.mem_append.mp hb with hb | hb
    · have shown := Birth.uid_mem (Option.mem_toList.mp hb)
      exact fit call List.mem_cons_self _ shown
    · exact ih (fun call later => fit call (List.mem_cons_of_mem _ later)) hb

/-- What a uid tells, if `bs` are the Promotions that were created, one after another, and
`s` is the store that is left. -/
structure Identified (bs : List Birth) (s : Store) : Prop where
  /-- Every Promotion that was created has a uid. -/
  set : ∀ b ∈ bs, b.stored.metadata.uid ≠ .unset
  /-- A later Promotion has the uid of an earlier one exactly if it came with it. -/
  reused_iff : bs.Pairwise fun b c =>
    c.stored.metadata.uid = b.stored.metadata.uid ↔
      c.given.metadata.uid = b.stored.metadata.uid
  /-- And just then they have the same workspace. -/
  shared_iff : ∀ root, bs.Pairwise fun b c =>
    Workspaces.pathOf root c.stored.metadata.uid =
        Workspaces.pathOf root b.stored.metadata.uid ↔
      c.given.metadata.uid = b.stored.metadata.uid
  /-- What is stored has the uid of the Promotion that was last created under its key. -/
  kept : ∀ key p, s.promotions.get? key = some p →
    ∃ b, lastBirth bs key = some b ∧ p.metadata.uid = b.stored.metadata.uid

/-- Whatever is called on an empty store, if no uid is generated that was seen before. -/
theorem identified_of_calls {calls : List StoreCall} (fresh : Generates [] calls)
    (fit : AllFit calls) : Identified (empty.births calls) (empty.run calls) := by
  have known : Known _ ([] ++ empty.births calls) := known_nil.run fresh
  rw [List.nil_append] at known
  refine ⟨known.set, known.distinct, fun root => ?_, fun key p stored => ?_⟩
  · refine known.distinct.imp_of_mem fun {b c} hb hc distinct => ?_
    rw [Workspaces.pathOf_inj (fits_of_births fit hc) (fits_of_births fit hb)]
    exact distinct
  · obtain ⟨b, last, became⟩ := (descended_calls calls).became stored
    exact ⟨b, last, became.uid⟩

/-- A Promotion with a given name and uid. -/
def named (name : String) (uid : Uid) : Promotion :=
  .fresh { Metadata.fresh "demo" name default with uid } ⟨"prod", "f1", [], []⟩

/-- `p1` gets a generated uid. Then `p2` is made from a copy of its metadata, and `p1` is
deleted and created again as it was. -/
def copied : List StoreCall :=
  [.edit (.create (named "p1" .unset) ⟨1⟩), .edit (.create (named "p2" ⟨1⟩) ⟨2⟩),
    .edit (.delete ⟨"demo", "p1"⟩), .edit (.create (named "p1" ⟨1⟩) ⟨3⟩)]

theorem identified_of_copied :
    Generates [] copied ∧ AllFit copied ∧
      Identified (empty.births copied) (empty.run copied) := by
  have fresh : Generates [] copied := by decide +kernel
  have fit : AllFit copied := by decide +kernel
  exact ⟨fresh, fit, identified_of_calls fresh fit⟩

/-- All three that were created have one uid, and two of them are there together and have
one workspace. -/
theorem reused_of_copied :
    Generates [] copied ∧ AllFit copied ∧
      (empty.births copied).map (·.stored.metadata.uid) = [⟨1⟩, ⟨1⟩, ⟨1⟩] ∧
      ((empty.run copied).promotions.values.map fun p =>
        (p.key, Workspaces.pathOf "/ws" p.metadata.uid)) =
        [(⟨"demo", "p1"⟩, "/ws/promotion-00000000-0000-0000-0000-000000000001"),
          (⟨"demo", "p2"⟩, "/ws/promotion-00000000-0000-0000-0000-000000000001")] := by
  decide +kernel

end Store

end Drayage
