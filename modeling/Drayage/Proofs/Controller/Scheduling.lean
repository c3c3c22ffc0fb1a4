import Drayage.Proofs.Controller.Fallback
import Drayage.Proofs.Controller.Queue
import Drayage.Proofs.Controller.Requeue
import Drayage.Controller.Manager

/-!
# Sums of times without a date

When the final status of a reconcile is a running one, the next look is told from two sums of
times. One of them may lie beyond the calendar, for a step may be given any number of seconds,
and so may the interval. The reconcile then breaks down after its write has landed. Nothing else
makes a reconcile break down, and the key that its worker was handed is held from then on.
-/

namespace Drayage

open Program

/-- How much an interval adds to an instant. One that is too long to be added counts as none. -/
def Span.reach (interval : Span) : Nat := if interval.nanos ≤ limit then interval.nanos else 0

namespace Promotion

variable {p q : Promotion} {usual : String → Option Span} {interval : Span} {now : Instant}

end Promotion

namespace Reconciler

variable {c : Reconciler} {p q : Promotion} {stage : Stage} {freight : Option Freight}
  {initial : Option Phase} {s s' : PromotionStatus} {replies : List Reply} {e : Ending} {key : Key}

/-- How a stretch of a reconcile of `p` ends that is its last: with the time being asked for,
to tell when to look again after the last status that was stored, which is a running one, or
with something else, and then without breaking down. -/
inductive Parts (c : Reconciler) (p : Promotion) : List Reply → Ending → Prop where
  | looks (q : Promotion) (same : q.spec = p.spec) (front : List Reply) (s : PromotionStatus)
      (stored : (front.filterMap Reply.stored?).getLast? = some s)
      (running : s.phase = some .running) (now : Instant) :
      Parts c p (front ++ [⟨.now, now⟩]) (c.lookAgain q s now)
  | leaves {replies : List Reply} {e : Ending} (last : Reply)
      (ends : replies.getLast? = some last) (other : last.request ≠ .now)
      (whole : ∀ crash, e ≠ .crashed crash) : Parts c p replies e

/-- What goes before makes no difference. -/
theorem Parts.extend (h : c.Parts p replies e) (front : List Reply) :
    c.Parts p (front ++ replies) e := by
  cases h with
  | looks q same between s stored running now =>
    rw [← List.append_assoc]
    refine .looks q same (front ++ between) s ?_ running now
    rw [List.filterMap_append, List.getLast?_append, stored]
    rfl
  | leaves last ends other whole =>
    refine .leaves last ?_ other whole
    rw [List.getLast?_append, ends]
    rfl

theorem write_ne_now : write p s ≠ .now := nofun

/-- The last thing that a final write asks for is a write. -/
theorem Persists.last {persisted : Except StoreError PromotionStatus}
    (h : Persists p s replies persisted) :
    ∃ last, replies.getLast? = some last ∧ last.request ≠ .now := by
  cases h with
  | written | refused | replaced | refusedAgain => exact ⟨_, rfl, write_ne_now⟩

theorem Persists.stored {written : PromotionStatus} (h : Persists p s replies (.ok written)) :
    (replies.filterMap Reply.stored?).getLast? = some written := by
  cases h with
  | written | replaced => rfl

/-- A Promotion was read, unless the reconcile is over at once. -/
theorem Visits.read (h : c.Visits key replies e) :
    (∃ p, replies.head? = some ⟨.getPromotion key, .ok (some p)⟩) ∨ ∀ crash, e ≠ .crashed crash := by
  cases h with
  | blind | absent => exact .inr nofun
  | ended p | unsupplied p | aborted p | unmarked p | approached p => exact .inl ⟨p, rfl⟩

end Reconciler

namespace Manager

variable {ε : Type} (m : Manager ε) (o : Operation ε)

/-- What is asked and answered when the manager has a worker reconcile a key. -/
def exchange (k : Key) : List Reply := (m.reconciler.reconcile k).told m.perform o.world

/-- A worker is done with a key and gets in line again. -/
structure Finishes (worker : Nat) (k : Key) : Prop where
  holds_iff : ∀ j, (m.work o (worker, .key k)).schedule.queue.Holds j ↔
    o.schedule.queue.Holds j ∧ j ≠ k
  idle : (m.work o (worker, .key k)).schedule.idle = o.schedule.idle ++ [worker]

end Manager

end Drayage
