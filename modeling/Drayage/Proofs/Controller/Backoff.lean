import Drayage.Proofs.Controller.Depot
import Drayage.Controller.Schedule

/-!
# How long a key that failed has to wait

A key waits for the base after its first failure and then twice as long after each further one,
up to a limit. It is its own failures that count, since it was last forgotten. But they count
only up to a ceiling: where the base is so short that the limit is not reached by then, the
delay stays below the limit for good.
-/

namespace Drayage

/-- The longest time that can be told: `2 ^ 64` seconds less a nanosecond. -/
def Span.longest : Nat := 2 ^ 64 * 10 ^ 9 - 1

namespace Backoff

variable (b : Backoff)

theorem nanos_delay (n : Nat) :
    (b.delay n).nanos = min (b.base.nanos * 2 ^ min n ceiling) b.limit.nanos := by
  show (Span.min ⟨b.base.nanos * 2 ^ min n ceiling⟩ b.limit).nanos = _
  unfold Span.min
  split
  · rename_i short
    exact (Nat.min_eq_left short).symm
  · rename_i long
    exact (Nat.min_eq_right (Nat.le_of_not_le long)).symm

theorem delay_mono {m n : Nat} (h : m ≤ n) : b.delay m ≤ b.delay n := by
  rw [Span.le_iff, nanos_delay, nanos_delay]
  have power : 2 ^ min m ceiling ≤ 2 ^ min n ceiling :=
    Nat.pow_le_pow_right (by decide) (by omega)
  have product := Nat.mul_le_mul_left b.base.nanos power
  omega

/-- The delay doubles without end if the limit comes first. -/
theorem nanos_delay_eq_iff (n : Nat) :
    (b.delay n).nanos = min (b.base.nanos * 2 ^ n) b.limit.nanos ↔
      n ≤ ceiling ∨ b.limit.nanos ≤ b.base.nanos * 2 ^ ceiling ∨ b.base.nanos = 0 := by
  rw [nanos_delay]
  by_cases few : n ≤ ceiling
  · rw [Nat.min_eq_left few]
    exact iff_of_true rfl (.inl few)
  · have many : ceiling < n := Nat.lt_of_not_le few
    rw [Nat.min_eq_right (Nat.le_of_lt many), or_iff_right few]
    by_cases none : b.base.nanos = 0
    · rw [none, Nat.zero_mul, Nat.zero_mul]
      exact iff_of_true rfl (.inr rfl)
    · have power : 2 ^ ceiling < 2 ^ n := Nat.pow_lt_pow_right (by decide) many
      have product := Nat.mul_lt_mul_of_pos_left power (Nat.pos_of_ne_zero none)
      rw [or_iff_left none]
      omega

/-- The delay as it comes out where numbers have a size: the factor stops short of `2 ^ 32`, and
a product that cannot be told counts as the limit. -/
def delayWithin (failures : Nat) : Span :=
  let factor := min (2 ^ min failures ceiling) (2 ^ 32 - 1)
  if b.base.nanos * factor ≤ Span.longest then .min ⟨b.base.nanos * factor⟩ b.limit else b.limit

/-- No number is ever too large. -/
theorem delayWithin_eq (short : b.limit.nanos ≤ Span.longest) (n : Nat) :
    b.delayWithin n = b.delay n := by
  have power : 2 ^ min n ceiling ≤ 2 ^ ceiling :=
    Nat.pow_le_pow_right (by decide) (Nat.min_le_right _ _)
  have factor : min (2 ^ min n ceiling) (2 ^ 32 - 1) = 2 ^ min n ceiling :=
    Nat.min_eq_left (Nat.le_trans power (by decide))
  unfold delayWithin
  dsimp only
  rw [factor]
  split
  · rfl
  · rename_i long
    have : b.limit.nanos < b.base.nanos * 2 ^ min n ceiling := by omega
    show b.limit = Span.min ⟨b.base.nanos * 2 ^ min n ceiling⟩ b.limit
    exact (if_neg (Nat.not_le.mpr this)).symm

end Backoff

namespace Act

variable {ω : Type} {k : Key}

/-- A key fails. -/
def fails (k : Key) : Act ω → Bool
  | .fail j => k = j
  | _ => false

/-- The failures of a key are forgotten. -/
def forgets (k : Key) : Act ω → Bool
  | .forget j => k = j
  | _ => false

/-- An act that matters to how often a key has failed. -/
def concerns (k : Key) (a : Act ω) : Bool := a.fails k || a.forgets k

/-- How often a key has failed since it was last forgotten, or since the start. -/
def failures (k : Key) (as : List (Act ω)) : Nat :=
  (as.reverse.takeWhile fun a => !a.forgets k).countP (·.fails k)

theorem failures_concat (as : List (Act ω)) (a : Act ω) :
    failures k (as ++ [a]) =
      if a.forgets k then 0 else failures k as + if a.fails k then 1 else 0 := by
  unfold failures
  rw [List.reverse_append, List.reverse_singleton, List.singleton_append, List.takeWhile_cons]
  cases a.forgets k with
  | true => rfl
  | false => exact List.countP_cons

/-- What happens to other keys does not count. -/
theorem failures_filter (as : List (Act ω)) :
    failures k (as.filter (·.concerns k)) = failures k as := by
  induction as using List.reverseRecOn with
  | nil => rfl
  | append_singleton as a ih =>
    rw [List.filter_append, failures_concat, ← ih]
    cases concern : a.concerns k with
    | true => rw [List.filter_cons_of_pos concern, List.filter_nil, failures_concat]
    | false =>
      obtain ⟨fails, forgets⟩ := Bool.or_eq_false_iff.mp concern
      rw [List.filter_cons_of_neg (ne_true_of_eq_false concern), List.filter_nil, List.append_nil,
        fails, forgets]
      rfl

/-- Until a key is forgotten, its failures add up. -/
theorem failures_le_append (as : List (Act ω)) {more : List (Act ω)}
    (kept : ∀ a ∈ more, a.forgets k = false) : failures k as ≤ failures k (as ++ more) := by
  induction more using List.reverseRecOn with
  | nil => exact Nat.le_of_eq (congrArg _ (List.append_nil as).symm)
  | append_singleton more a ih =>
    have before := ih fun a ha => kept a (List.mem_append_left _ ha)
    have last := kept a (List.mem_append_right _ List.mem_cons_self)
    rw [← List.append_assoc, failures_concat, last, if_neg Bool.false_ne_true]
    omega

end Act

namespace WorkQueue

variable {q q' : WorkQueue} {j k : Key}

/-- The failures that are counted, and what follows from them, are the same. -/
structure Recalls (q q' : WorkQueue) : Prop where
  failures : q'.failures = q.failures
  backoff : q'.backoff = q.backoff

theorem recalls_add : q.Recalls (q.add k) := by
  unfold add
  split
  · exact ⟨rfl, rfl⟩
  · dsimp only
    split <;> exact ⟨rfl, rfl⟩

theorem recalls_done : q.Recalls (q.done k) := by
  unfold done
  dsimp only
  split <;> exact ⟨rfl, rfl⟩

theorem recalls_get {h : Handout} (hget : q.get = some (h, q')) : q.Recalls q' := by
  unfold get at hget
  split at hget
  · cases hget
    exact ⟨rfl, rfl⟩
  · split at hget
    · cases hget
    · cases hget
      exact ⟨rfl, rfl⟩

theorem requeues_fail : (q.fail j).2.requeues k =
    if k = j then min (q.requeues k + 1) failureLimit else q.requeues k := by
  show ((q.failures.insert j _).get? k).getD 0 = _
  rw [Dict.get?_insert]
  simp only [Std.LawfulEqCmp.compare_eq_iff_eq]
  split
  · rename_i same
    rw [same]
    rfl
  · rfl

theorem requeues_forget : (q.forget j).requeues k = if k = j then 0 else q.requeues k := by
  show ((q.failures.erase j).get? k).getD 0 = _
  rw [Dict.get?_erase]
  simp only [Std.LawfulEqCmp.compare_eq_iff_eq]
  split <;> rfl

end WorkQueue

namespace Depot

variable {ω : Type} {o d d' : Depot ω} {a : Act ω} {as as' : List (Act ω)} {ks ks' : List Key}
  {k : Key} {b : Backoff}

theorem recalls_addAfter (delay : Span) : d.queue.Recalls (d.addAfter k delay).queue := by
  unfold addAfter
  split
  · exact WorkQueue.recalls_add
  · exact ⟨rfl, rfl⟩

/-- The queue of a depot changes its counts only when a key fails or is forgotten. -/
theorem turn_cases (turn : Turn d a d') :
    (∃ j, a = .fail j ∧ d'.queue = (d.queue.fail j).2) ∨
      (∃ j, a = .forget j ∧ d'.queue = d.queue.forget j) ∨
        (∀ k, a.concerns k = false) ∧ d.queue.Recalls d'.queue := by
  cases turn with
  | fail j => exact .inl ⟨j, rfl, rfl⟩
  | forget j => exact .inr (.inl ⟨j, rfl, rfl⟩)
  | add => exact .inr (.inr ⟨fun _ => rfl, WorkQueue.recalls_add⟩)
  | addAfter j delay => exact .inr (.inr ⟨fun _ => rfl, recalls_addAfter delay⟩)
  | fire => exact .inr (.inr ⟨fun _ => rfl, WorkQueue.recalls_add⟩)
  | get w j q hget => exact .inr (.inr ⟨fun _ => rfl, WorkQueue.recalls_get hget⟩)
  | leave w q hget => exact .inr (.inr ⟨fun _ => rfl, WorkQueue.recalls_get hget⟩)
  | done => exact .inr (.inr ⟨fun _ => rfl, WorkQueue.recalls_done⟩)
  | shutDown => exact .inr (.inr ⟨fun _ => rfl, ⟨rfl, rfl⟩⟩)

theorem backoff_turn (turn : Turn d a d') : d'.queue.backoff = d.queue.backoff := by
  rcases turn_cases turn with ⟨j, -, same⟩ | ⟨j, -, same⟩ | ⟨-, recalls⟩
  · rw [same]
    rfl
  · rw [same]
    rfl
  · exact recalls.backoff

theorem requeues_turn (turn : Turn d a d') : d'.queue.requeues k =
    if a.forgets k then 0
    else if a.fails k then min (d.queue.requeues k + 1) WorkQueue.failureLimit
    else d.queue.requeues k := by
  rcases turn_cases turn with ⟨j, rfl, same⟩ | ⟨j, rfl, same⟩ | ⟨unconcerned, recalls⟩
  · rw [same, WorkQueue.requeues_fail]
    simp [Act.forgets, Act.fails]
  · rw [same, WorkQueue.requeues_forget]
    simp [Act.forgets, Act.fails]
  · obtain ⟨fails, forgets⟩ := Bool.or_eq_false_iff.mp (unconcerned k)
    rw [fails, forgets, if_neg Bool.false_ne_true, if_neg Bool.false_ne_true]
    unfold WorkQueue.requeues
    rw [recalls.failures]

theorem backoff_run (h : Run (opening b) as ks d) : d.queue.backoff = b := by
  induction h with
  | start => rfl
  | next _ turn ih => exact (backoff_turn turn).trans ih

/-- The queue counts as many failures of a key as there were since it was last forgotten, as far
as it can count. -/
theorem requeues_run (h : Run (opening b) as ks d) :
    d.queue.requeues k = min (Act.failures k as) WorkQueue.failureLimit := by
  induction h with
  | start => rfl
  | next _ turn ih =>
    rw [requeues_turn turn, ih, Act.failures_concat]
    split
    · rfl
    · split
      · omega
      · rfl

theorem run_append (h : Run o as ks d) (h' : Run d as' ks' d') :
    Run o (as ++ as') (ks ++ ks') d' := by
  induction h' with
  | start =>
    rw [List.append_nil, List.append_nil]
    exact h
  | next _ turn ih =>
    rw [← List.append_assoc, ← List.append_assoc]
    exact ih.next turn

/-- More failures than the queue can count make no difference. -/
theorem delay_of_run (h : Run (opening b) as ks d) :
    (d.queue.fail k).1 = b.delay (Act.failures k as) := by
  show d.queue.backoff.delay (d.queue.requeues k) = _
  rw [backoff_run h, requeues_run h]
  have capped : min (min (Act.failures k as) WorkQueue.failureLimit) Backoff.ceiling =
      min (Act.failures k as) Backoff.ceiling := by
    have : Backoff.ceiling ≤ WorkQueue.failureLimit := by decide
    omega
  unfold Backoff.delay
  show Span.min ⟨b.base.nanos * 2 ^ min _ _⟩ _ = Span.min ⟨b.base.nanos * 2 ^ min _ _⟩ _
  rw [capped]

/-- How long a key has to wait that fails once more after some acts. -/
structure Paced (b : Backoff) (k : Key) (as : List (Act ω)) (d : Depot ω) : Prop where
  requeues : d.queue.requeues k = min (Act.failures k as) (2 ^ 32 - 1)
  delay : (d.queue.fail k).1.nanos =
    min (b.base.nanos * 2 ^ min (Act.failures k as) 31) b.limit.nanos
  /-- It is added again after this delay. -/
  added : ∀ s : Schedule ω, s.queue = d.queue →
    s.addRateLimited k = { s with queue := (d.queue.fail k).2 }.addAfter k (d.queue.fail k).1
  /-- The limit has to come before the ceiling, or the failures have to stop there. -/
  doubles_iff : (d.queue.fail k).1.nanos =
      min (b.base.nanos * 2 ^ Act.failures k as) b.limit.nanos ↔
    Act.failures k as ≤ 31 ∨ b.limit.nanos ≤ b.base.nanos * 2 ^ 31 ∨ b.base.nanos = 0
  /-- What happens to other keys does not matter. -/
  own : ∀ as' ks' d', Run (opening b) as' ks' d' →
    as'.filter (·.concerns k) = as.filter (·.concerns k) →
      (d'.queue.fail k).1 = (d.queue.fail k).1
  /-- Until the key is forgotten, it does not wait less. -/
  monotone : ∀ more ks' d', Run d more ks' d' → (∀ a ∈ more, a.forgets k = false) →
    (d.queue.fail k).1 ≤ (d'.queue.fail k).1
  /-- No number is too large on the way. -/
  within : b.limit.nanos ≤ Span.longest →
    b.delayWithin (d.queue.requeues k) = (d.queue.fail k).1

/-- However a queue is used. -/
theorem paced_of_run (h : Run (opening b) as ks d) (k : Key) : Paced b k as d where
  requeues := requeues_run h
  delay := by
    rw [delay_of_run h]
    exact b.nanos_delay _
  added s same := by
    unfold Schedule.addRateLimited
    rw [same]
  doubles_iff := by
    rw [delay_of_run h]
    exact b.nanos_delay_eq_iff _
  own as' ks' d' h' same := by
    rw [delay_of_run h, delay_of_run h', ← Act.failures_filter as, ← same, Act.failures_filter]
  monotone more ks' d' h' kept := by
    rw [delay_of_run h, delay_of_run (run_append h h')]
    exact b.delay_mono (Act.failures_le_append as kept)
  within short := by
    rw [b.delayWithin_eq short]
    show _ = d.queue.backoff.delay _
    rw [backoff_run h]

/-- A key fails twice while another one comes and goes. -/
def stumbling : List (Act Nat) :=
  [.fail ⟨"demo", "a"⟩, .fail ⟨"demo", "b"⟩, .addAfter ⟨"demo", "a"⟩ (.ofMillis 5),
    .fail ⟨"demo", "a"⟩, .forget ⟨"demo", "b"⟩]

/-- The third delay is twice the second one. -/
theorem paced_of_stumbling : ∃ ks d, Run (opening .standard) stumbling ks d ∧
    (d.queue.fail ⟨"demo", "a"⟩).1 = .ofMillis 20 ∧
      Paced .standard ⟨"demo", "a"⟩ stumbling d := by
  have played : ((opening .standard).play? stumbling).isSome := by decide +kernel
  have third : ((opening .standard).play? stumbling).map (·.queue.fail ⟨"demo", "a"⟩ |>.1) =
      some (.ofMillis 20) := by decide +kernel
  obtain ⟨d, hd⟩ := Option.isSome_iff_exists.mp played
  rw [hd] at third
  obtain ⟨ks, run⟩ := run_of_play? hd
  exact ⟨ks, d, run, Option.some.inj third, paced_of_run run _⟩

/-- From a millisecond on, with a limit of ten billion of them. -/
def slowly : Backoff := ⟨.ofMillis 1, .ofMillis (10 ^ 10)⟩

/-- After 32 failures the delay is what it was after 31, though the limit is far. -/
theorem unpaced_of_slowly : ∃ (as : List (Act Nat)) (ks : List Key) (d : Depot Nat),
    Run (opening slowly) as ks d ∧ Act.failures ⟨"demo", "a"⟩ as = 32 ∧
      (d.queue.fail ⟨"demo", "a"⟩).1 = .ofMillis (2 ^ 31) ∧
        (d.queue.fail ⟨"demo", "a"⟩).1.nanos ≠
          min (slowly.base.nanos * 2 ^ 32) slowly.limit.nanos := by
  let as : List (Act Nat) := List.replicate 32 (.fail ⟨"demo", "a"⟩)
  have played : ((opening slowly).play? as).isSome := by decide +kernel
  have last : ((opening slowly).play? as).map (·.queue.fail ⟨"demo", "a"⟩ |>.1) =
      some (.ofMillis (2 ^ 31)) := by decide +kernel
  obtain ⟨d, hd⟩ := Option.isSome_iff_exists.mp played
  rw [hd] at last
  obtain ⟨ks, run⟩ := run_of_play? hd
  have delay : (d.queue.fail ⟨"demo", "a"⟩).1 = .ofMillis (2 ^ 31) := Option.some.inj last
  exact ⟨as, ks, d, run, by decide +kernel, delay, by rw [delay]; decide +kernel⟩

end Depot

end Drayage
