import Drayage.Proofs.Store.Lineage

/-!
# Which stored statuses are unfit

A status that is written has to fit, but one that a Promotion is created with does not. So
an unfit status is stored exactly as long as a Promotion keeps the one that it came with,
and every write that takes it over, for a new phase, is refused.
-/

namespace Drayage

/-- What makes a status unfit is not its phase, nor when it started. -/
theorem PromotionStatus.unfit?_withPhase (status : PromotionStatus) (phase : Option Phase)
    (startedAt : Option Instant) (spec : PromotionSpec) :
    { status with phase, startedAt }.unfit? spec = status.unfit? spec := rfl

/-- A Promotion was created with a status that does not fit, and still has it. -/
def Birth.Blemished (b : Birth) (p : Promotion) : Prop :=
  b.given.status.unfit? b.given.spec ≠ none ∧ p.status = b.given.status

theorem Birth.Became.unfit_iff {b : Birth} {p : Promotion} (h : b.Became p) :
    p.status.unfit? p.spec ≠ none ↔ b.Blemished p := by
  constructor
  · intro unfit
    rcases h.status with same | fit
    · rw [same, h.spec] at unfit
      exact ⟨unfit, same⟩
    · exact absurd fit unfit
  · rintro ⟨unfit, same⟩
    rwa [same, h.spec]

namespace Store

variable {s : Store} {bs : List Birth}

/-- A write is refused as invalid exactly if its status does not fit, and nothing else is
wrong with it. -/
theorem updateStatus_invalid_iff {key : Key} {p : Promotion}
    (stored : s.promotions.get? key = some p) {expected : Nat} {status : PromotionStatus} :
    (∃ unfit, s.updateStatus key expected status = .error (.invalid key unfit)) ↔
      s.available = true ∧ expected = p.metadata.version ∧ status.unfit? p.spec ≠ none := by
  unfold updateStatus whenAvailable
  rw [stored]
  by_cases available : s.available = true
  · by_cases current : p.metadata.version = expected
    · cases unfit : status.unfit? p.spec <;> simp [available, current, unfit]
    · have outdated : expected ≠ p.metadata.version := fun h => current h.symm
      simp [available, current, outdated]
  · simp [available, outage]

/-- How far what is stored fits, if `bs` are the Promotions that were created, one after
another, and `s` is the store that is left. -/
structure Fitting (bs : List Birth) (s : Store) : Prop where
  /-- A stored status is unfit exactly if the Promotion came with it. -/
  unfit_iff : ∀ key p, s.promotions.get? key = some p →
    (p.status.unfit? p.spec ≠ none ↔ ∃ b, lastBirth bs key = some b ∧ b.Blemished p)
  /-- Just then a write that changes no more than the phase and the time of the start is
  refused as invalid. -/
  refused_iff : ∀ key p, s.promotions.get? key = some p → ∀ expected phase startedAt,
    ((∃ unfit, s.updateStatus key expected { p.status with phase, startedAt } =
        .error (.invalid key unfit)) ↔
      s.available = true ∧ expected = p.metadata.version ∧
        ∃ b, lastBirth bs key = some b ∧ b.Blemished p)

theorem Descended.unfit_iff (h : Descended bs s) {key : Key} {p : Promotion}
    (stored : s.promotions.get? key = some p) :
    p.status.unfit? p.spec ≠ none ↔ ∃ b, lastBirth bs key = some b ∧ b.Blemished p := by
  obtain ⟨b, last, became⟩ := h.became stored
  rw [became.unfit_iff]
  constructor
  · intro blemished
    exact ⟨b, last, blemished⟩
  · rintro ⟨b', last', blemished⟩
    rw [last] at last'
    cases last'
    exact blemished

/-- Whatever is called on an empty store in whatever order. -/
theorem fitting_of_calls (calls : List StoreCall) :
    Fitting (empty.births calls) (empty.run calls) where
  unfit_iff _ _ stored := (descended_calls calls).unfit_iff stored
  refused_iff key p stored expected phase startedAt := by
    rw [updateStatus_invalid_iff stored, PromotionStatus.unfit?_withPhase,
      (descended_calls calls).unfit_iff stored]

/-- A Promotion of one step that comes with a status in which five are done. -/
def ahead : Promotion :=
  { Promotion.fresh (.fresh "demo" "p1" default) ⟨"prod", "f1", [], [.ofKind "noop"]⟩ with
    status := { PromotionStatus.initial with currentStep := 5 } }

/-- It is stored as it came, and it cannot be made Pending or Running. -/
theorem unfit_of_ahead :
    let s := empty.run [.edit (.create ahead ⟨1⟩)]
    (s.promotions.get? ahead.key).map (fun p => p.status.unfit? p.spec) =
        some (some (.stepBeyond 5 1)) ∧
      ∀ phase startedAt, s.updateStatus ahead.key 1 { ahead.status with phase, startedAt } =
        .error (.invalid ahead.key (.stepBeyond 5 1)) := by
  refine ⟨?_, fun phase startedAt => ?_⟩
  · decide +kernel
  · rfl

end Store

end Drayage
