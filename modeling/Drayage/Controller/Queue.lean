import Drayage.Resource.Key
import Drayage.Time.Span

/-!
# The work queue

The queue hands out the keys of Promotions. A key waits at most once and is never handed
out to two workers at the same time: a key that is added while it is being worked on
waits until its worker is done with it.
-/

namespace Drayage

/-- How long a key waits after it failed: the base, doubled with every failure up to the
limit. -/
structure Backoff where
  base : Span
  limit : Span
  deriving DecidableEq, Inhabited

namespace Backoff

def standard : Backoff := ⟨.ofMillis 5, .ofSeconds 1000⟩

/-- After so many failures the delay does not grow any more. -/
def ceiling : Nat := 31

def delay (b : Backoff) (failures : Nat) : Span :=
  .min ⟨b.base.nanos * 2 ^ Nat.min failures ceiling⟩ b.limit

end Backoff

structure WorkQueue where
  /-- The keys that wait, the first one longest. -/
  waiting : List Key
  /-- The keys that have to be worked on (again). -/
  wanted : Dict Key Unit
  /-- The keys that workers hold. -/
  held : Dict Key Unit
  failures : Dict Key Nat
  shuttingDown : Bool
  backoff : Backoff
  deriving DecidableEq, Inhabited

inductive Handout where
  | key (k : Key)
  | closed
  deriving DecidableEq, Inhabited

namespace WorkQueue

def empty (backoff : Backoff) : WorkQueue := ⟨[], ∅, ∅, ∅, false, backoff⟩

/-- Queues a key that does not wait yet. -/
def add (q : WorkQueue) (k : Key) : WorkQueue :=
  if q.shuttingDown || q.wanted.contains k then q
  else
    let wanted := q.wanted.insert k ()
    if q.held.contains k then { q with wanted }
    else { q with wanted, waiting := q.waiting ++ [k] }

/-- Hands out the key that has waited longest, if any. A queue that shuts down hands out
nothing more. -/
def get (q : WorkQueue) : Option (Handout × WorkQueue) :=
  if q.shuttingDown then some (.closed, q)
  else match q.waiting with
    | [] => none
    | k :: rest =>
      let q := { q with wanted := q.wanted.erase k, held := q.held.insert k () }
      some (.key k, { q with waiting := rest })

def done (q : WorkQueue) (k : Key) : WorkQueue :=
  let q := { q with held := q.held.erase k }
  if q.wanted.contains k then { q with waiting := q.waiting ++ [k] } else q

/-- Failures of a key since it was last forgotten. -/
def requeues (q : WorkQueue) (k : Key) : Nat := (q.failures.get? k).getD 0

def failureLimit : Nat := 2 ^ 32 - 1

/-- Counts a failure of a key, and tells after which delay it is to be added again. -/
def fail (q : WorkQueue) (k : Key) : Span × WorkQueue :=
  let n := q.requeues k
  (q.backoff.delay n, { q with failures := q.failures.insert k (Nat.min (n + 1) failureLimit) })

def forget (q : WorkQueue) (k : Key) : WorkQueue := { q with failures := q.failures.erase k }

def shutDown (q : WorkQueue) : WorkQueue := { q with shuttingDown := true }

def size (q : WorkQueue) : Nat := q.waiting.length

def isEmpty (q : WorkQueue) : Bool := q.waiting.isEmpty

end WorkQueue

end Drayage
