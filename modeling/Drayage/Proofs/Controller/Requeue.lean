import Drayage.Controller.Requeue
import Mathlib.Data.Option.Basic

/-!
# The earlier of interval and deadline

A running Promotion is looked at again when the interval is over or when its current step runs
out of time, whichever comes first. If nothing tells when the step does, it is the interval.

Sums and differences of times do not agree in leap seconds. So from a leap second on, the
interval can be over first by the sums and last by the differences.
-/

namespace Drayage

namespace Span

theorem isZero_eq_false_iff {s : Span} : s.isZero = false ↔ s ≠ .zero := by
  cases s
  simp [isZero, zero]

theorem addable_iff {s : Span} : s.addable = true ↔ s.nanos ≤ limit := by
  simp [addable]

end Span

namespace Promotion

variable {p : Promotion} {usual : String → Option Span} {interval limit : Span}
  {startedAt now deadline : Instant}

/-- How long the current step may take: as long as it says itself, or else as long as is usual
for steps of its kind. -/
def allowance? (p : Promotion) (usual : String → Option Span) : Option Span :=
  p.spec.steps[p.status.currentStep]?.bind fun declared =>
    (declared.retry.bind RetryPolicy.timeout).or (usual declared.uses)

/-- When the current step was first attempted, if it was. -/
def begunAt? (p : Promotion) : Option Instant :=
  p.status.records[p.status.currentStep]?.bind StepRecord.startedAt

/-- Nothing tells when the current step runs out of time. -/
inductive Unhurried (p : Promotion) (usual : String → Option Span) : Prop where
  | past (past : p.spec.steps.length ≤ p.status.currentStep)
  | unlimited (unlimited : p.allowance? usual = none)
  | zero (zero : p.allowance? usual = some .zero)
  /-- The step may take longer than can be added to an instant. -/
  | endless (limit : Span) (allowed : p.allowance? usual = some limit)
      (endless : Span.limit < limit.nanos)
  | unbegun (unbegun : p.begunAt? = none)

theorem timeLimit?_eq : p.timeLimit? usual =
    ((p.allowance? usual).filter fun limit => !limit.isZero).bind fun limit =>
      p.begunAt?.bind fun startedAt =>
        if limit.addable then some (startedAt, limit) else none := by
  unfold timeLimit? allowance? begunAt?
  dsimp only [Option.bind_eq_bind]
  simp only [Option.bind_assoc]
  cases p.spec.steps[p.status.currentStep]? <;> rfl

theorem timeLimit?_eq_some_iff : p.timeLimit? usual = some (startedAt, limit) ↔
    p.begunAt? = some startedAt ∧ p.allowance? usual = some limit ∧ limit ≠ .zero ∧
      limit.nanos ≤ Span.limit := by
  rw [timeLimit?_eq]
  constructor
  · intro h
    obtain ⟨allowed, hallowed, h⟩ := Option.bind_eq_some_iff.mp h
    obtain ⟨begun, hbegun, h⟩ := Option.bind_eq_some_iff.mp h
    obtain ⟨known, hurried⟩ := Option.filter_eq_some_iff.mp hallowed
    split at h
    · rename_i addable
      cases h
      refine ⟨hbegun, known, ?_, Span.addable_iff.mp addable⟩
      simpa [Span.isZero_eq_false_iff] using hurried
    · cases h
  · rintro ⟨hbegun, known, hurried, short⟩
    have filtered : (p.allowance? usual).filter (fun limit => !limit.isZero) = some limit := by
      rw [known, Option.filter_eq_some_iff]
      simpa [Span.isZero_eq_false_iff] using hurried
    rw [filtered, hbegun, Option.bind_some, Option.bind_some, if_pos (Span.addable_iff.mpr short)]

theorem timeLimit?_eq_none_iff : p.timeLimit? usual = none ↔ p.Unhurried usual := by
  constructor
  · intro none
    by_contra hurried
    cases allowed : p.allowance? usual with
    | none => exact hurried (.unlimited allowed)
    | some limit =>
      cases begun : p.begunAt? with
      | none => exact hurried (.unbegun begun)
      | some startedAt =>
        have limited : p.timeLimit? usual = some (startedAt, limit) := by
          refine timeLimit?_eq_some_iff.mpr ⟨begun, allowed, ?_, ?_⟩
          · rintro rfl
            exact hurried (.zero allowed)
          · exact Nat.le_of_not_lt fun long => hurried (.endless limit allowed long)
        rw [none] at limited
        cases limited
  · intro unhurried
    rw [Option.eq_none_iff_forall_ne_some]
    rintro ⟨startedAt, limit⟩ limited
    obtain ⟨begun, allowed, positive, short⟩ := timeLimit?_eq_some_iff.mp limited
    cases unhurried with
    | past past =>
      rw [allowance?, List.getElem?_eq_none past] at allowed
      cases allowed
    | unlimited unlimited =>
      rw [unlimited] at allowed
      cases allowed
    | zero zero =>
      rw [zero] at allowed
      exact positive (Option.some.inj allowed).symm
    | endless limit' allowed' long =>
      rw [allowed] at allowed'
      cases allowed'
      exact Nat.not_le.mpr long short
    | unbegun unbegun =>
      rw [unbegun] at begun
      cases begun

/-- A step whose time is limited is looked at after the interval, or at its deadline if that
comes first; at once if it has passed. -/
theorem nextDelay_of_limited (limited : p.timeLimit? usual = some (startedAt, limit))
    (converts : interval.addable = true) (horizon : now.add? interval ≠ none)
    (ends : startedAt.add? limit = some deadline) (present : now.Regular)
    (regular : deadline.Regular) :
    p.nextDelay usual interval now = some ⟨min interval.nanos (deadline.since now).toNat⟩ := by
  obtain ⟨later, hlater⟩ := Option.ne_none_iff_exists'.mp horizon
  have future := present.add hlater
  have comes := Instant.stamp_of_add? hlater future
  rw [Instant.base_of_regular present] at comes
  unfold nextDelay
  rw [limited]
  simp only [converts, if_true, ends, hlater, Option.bind_eq_bind, Option.bind_some, Option.pure_def,
    Instant.elapsed, Span.ofSigned, Instant.lt_iff_of_regular regular future,
    Instant.since_of_regular regular present, comes]
  split
  · congr
    omega
  · have : interval.nanos ≤ (deadline.stamp - now.stamp).toNat := by omega
    rw [Nat.min_eq_left this]

/-- The next look comes after the interval if nothing tells when the current step runs out of
time, and else after the interval or at the deadline, whichever comes first. -/
structure Timely (p : Promotion) (usual : String → Option Span) (interval : Span)
    (now : Instant) (delay : Span) : Prop where
  unhurried : p.Unhurried usual → delay = interval
  hurried : ¬ p.Unhurried usual → ∃ startedAt limit deadline, p.begunAt? = some startedAt ∧
    p.allowance? usual = some limit ∧ startedAt.add? limit = some deadline ∧
      (delay.nanos : Int) = min (interval.nanos : Int) (max 0 (deadline.since now))
  within : delay ≤ interval

/-- Where the interval can be added to the time, and to the start of a step what it may take,
there is a next look, and it comes in time, away from leap seconds. -/
theorem timely_nextDelay (p : Promotion) (usual : String → Option Span) (interval : Span)
    (now : Instant) (converts : interval.addable = true) (horizon : now.add? interval ≠ none)
    (present : now.Regular)
    (deadline : ∀ startedAt limit, p.begunAt? = some startedAt →
      p.allowance? usual = some limit → limit.addable = true →
        ∃ deadline, startedAt.add? limit = some deadline ∧ deadline.Regular) :
    ∃ delay, p.nextDelay usual interval now = some delay ∧
      p.Timely usual interval now delay := by
  cases limited : p.timeLimit? usual with
  | none =>
    have unhurried := timeLimit?_eq_none_iff.mp limited
    refine ⟨interval, ?_, fun _ => rfl, absurd unhurried, Nat.le_refl _⟩
    unfold nextDelay
    rw [limited]
  | some limit =>
    obtain ⟨startedAt, limit⟩ := limit
    obtain ⟨begun, allowed, -, short⟩ := timeLimit?_eq_some_iff.mp limited
    obtain ⟨deadline, ends, regular⟩ :=
      deadline startedAt limit begun allowed (Span.addable_iff.mpr short)
    refine ⟨_, nextDelay_of_limited limited converts horizon ends present regular,
      fun unhurried => ?_, fun _ => ⟨startedAt, limit, deadline, begun, allowed, ends, ?_⟩,
      Nat.min_le_left _ _⟩
    · rw [timeLimit?_eq_none_iff.mpr unhurried] at limited
      cases limited
    · dsimp only
      omega

/-- A Promotion whose one step started at some time. -/
def begunWith (step : DeclaredStep) (startedAt : Instant) : Promotion :=
  let p := Promotion.fresh (.fresh "demo" "p1" default) ⟨"prod", "f1", [], [step]⟩
  { p with status := { p.status with records := [.started "step-0" startedAt] } }

/-- A step that may take so many seconds. -/
def limited (seconds : Nat) : DeclaredStep :=
  { DeclaredStep.ofKind "wait" with retry := some ⟨some seconds, none⟩ }

/-- A Promotion whose step may take 200 seconds and started with the year 1970. -/
def halfway : Promotion := begunWith (limited 200) ⟨0, 0⟩

/-- A little later than halfway, it is the deadline that comes first. -/
theorem timely_nextDelay_of_halfway :
    let interval := Span.ofSeconds 300
    let now : Instant := ⟨100, 5⟩
    interval.addable = true ∧ now.add? interval ≠ none ∧ now.Regular ∧
      (∀ startedAt limit, halfway.begunAt? = some startedAt →
        halfway.allowance? (fun _ => none) = some limit → limit.addable = true →
          ∃ deadline, startedAt.add? limit = some deadline ∧ deadline.Regular) ∧
      halfway.nextDelay (fun _ => none) interval now = some ⟨99999999995⟩ ∧
      ∃ delay, halfway.nextDelay (fun _ => none) interval now = some delay ∧
        halfway.Timely (fun _ => none) interval now delay := by
  have converts : (Span.ofSeconds 300).addable = true := by decide +kernel
  have horizon : (⟨100, 5⟩ : Instant).add? (.ofSeconds 300) ≠ none := by decide +kernel
  have present : (⟨100, 5⟩ : Instant).Regular := by decide
  have deadline (startedAt : Instant) (limit : Span)
      (begun : halfway.begunAt? = some startedAt)
      (allowed : halfway.allowance? (fun _ => none) = some limit) (_ : limit.addable = true) :
      ∃ deadline, startedAt.add? limit = some deadline ∧ deadline.Regular := by
    cases show some ⟨0, 0⟩ = some startedAt from begun
    cases show some (.ofSeconds 200) = some limit from allowed
    exact ⟨⟨200, 0⟩, by decide +kernel, by decide⟩
  exact ⟨converts, horizon, present, deadline, by decide +kernel,
    timely_nextDelay halfway _ _ _ converts horizon present deadline⟩

/-- The middle of the leap second at the end of 2016. -/
def newYear : Instant := ⟨1483228799, 1500000000⟩

/-- A Promotion whose step may take ten seconds and started just before it. -/
def overNewYear : Promotion := begunWith (limited 10) ⟨1483228799, 600000000⟩

/-- A Promotion whose step started in it. -/
def inNewYear : Promotion := begunWith (.ofKind "brief") ⟨1483228799, 1200000000⟩

/-- At that time, the deadline is a little after the end of the interval, and still nearer than
the interval is long. And if the deadline itself is in a leap second, the next look can come
later than after the interval. -/
theorem untimely_of_newYear :
    let interval := Span.ofSeconds 10
    (interval.addable = true ∧ newYear.add? interval = some ⟨1483228809, 500000000⟩ ∧
      (⟨1483228799, 600000000⟩ : Instant).add? (.ofSeconds 10) = some ⟨1483228809, 600000000⟩ ∧
      (⟨1483228809, 600000000⟩ : Instant).since newYear = 9100000000 ∧
      overNewYear.nextDelay (fun _ => none) interval newYear = some interval ∧
      ¬ overNewYear.Timely (fun _ => none) interval newYear interval) ∧
    let brief := Span.ofMillis 500
    let now : Instant := ⟨1483228790, 200000000⟩
    now.add? interval ≠ none ∧
      (⟨1483228799, 1200000000⟩ : Instant).add? brief = some ⟨1483228799, 1700000000⟩ ∧
      inNewYear.nextDelay (fun _ => some brief) interval now = some ⟨10500000000⟩ ∧
      ¬ inNewYear.Timely (fun _ => some brief) interval now ⟨10500000000⟩ := by
  have begun : overNewYear.begunAt? = some ⟨1483228799, 600000000⟩ := rfl
  have allowed : overNewYear.allowance? (fun _ => none) = some (.ofSeconds 10) := rfl
  have ends : (⟨1483228799, 600000000⟩ : Instant).add? (.ofSeconds 10) =
      some ⟨1483228809, 600000000⟩ := by decide +kernel
  have apart : (⟨1483228809, 600000000⟩ : Instant).since newYear = 9100000000 := by decide +kernel
  refine ⟨⟨by decide +kernel, by decide +kernel, ends, apart, by decide +kernel, fun timely => ?_⟩,
    by decide +kernel, by decide +kernel, by decide +kernel, fun timely => ?_⟩
  · have hurried : ¬ overNewYear.Unhurried fun _ => none := by
      rw [← timeLimit?_eq_none_iff]
      decide +kernel
    obtain ⟨startedAt, limit, deadline, begun', allowed', ends', eq⟩ := timely.hurried hurried
    cases begun.symm.trans begun'
    cases allowed.symm.trans allowed'
    cases ends.symm.trans ends'
    rw [apart] at eq
    exact absurd eq (by decide)
  · exact absurd timely.within (by decide)

end Promotion

end Drayage
