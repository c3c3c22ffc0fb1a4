import Drayage.Controller.Queue

/-!
# Keys that are added later

A schedule is a work queue together with a clock, the keys that are to be added at a later
time, and the workers that wait for a key. Whoever waits longest is served first.
-/

namespace Drayage

/-- Workers are known by a name of type `ω`. -/
structure Schedule (ω : Type) where
  queue : WorkQueue
  /-- The time that has passed since the start. -/
  time : Span
  /-- Keys with the times at which they are added, the earliest first. -/
  later : List (Span × Key)
  /-- The workers that wait for a key, the first one longest. -/
  idle : List ω
  deriving DecidableEq, Inhabited

namespace Schedule

variable {ω : Type}

def start (backoff : Backoff) : Schedule ω := ⟨.empty backoff, .zero, [], []⟩

def update (s : Schedule ω) (f : WorkQueue → WorkQueue) : Schedule ω :=
  { s with queue := f s.queue }

/-- Puts a key behind all that are due no later. -/
def enlist (due : Span) (k : Key) : List (Span × Key) → List (Span × Key)
  | [] => [(due, k)]
  | e :: rest => if e.1 ≤ due then e :: enlist due k rest else (due, k) :: e :: rest

/-- Clocks tell whole milliseconds, so a key is due at the next of them. -/
def tick (s : Span) : Span := .ofMillis ((s.nanos + (10 ^ 6 - 1)) / 10 ^ 6)

/-- Adds a key after a delay, or at once if there is none. -/
def addAfter (s : Schedule ω) (k : Key) (delay : Span) : Schedule ω :=
  if delay.isZero then s.update (·.add k)
  else { s with later := enlist (tick ⟨s.time.nanos + delay.nanos⟩) k s.later }

def addRateLimited (s : Schedule ω) (k : Key) : Schedule ω :=
  let (delay, queue) := s.queue.fail k
  { s with queue }.addAfter k delay

def enter (s : Schedule ω) (w : ω) : Schedule ω := { s with idle := s.idle ++ [w] }

def serve : (idle : List ω) → WorkQueue → List (ω × Handout) × List ω × WorkQueue
  | [], q => ([], [], q)
  | w :: idle, q =>
    match q.get with
    | none => ([], w :: idle, q)
    | some (h, q) =>
      let (served, idle, q) := serve idle q
      ((w, h) :: served, idle, q)

def deliver (s : Schedule ω) : List (ω × Handout) × Schedule ω :=
  let (served, idle, queue) := serve s.idle s.queue
  (served, { s with queue, idle })

def nextDue (s : Schedule ω) : Option Span := s.later.head?.map Prod.fst

def advanceTo (s : Schedule ω) (time : Span) : Schedule ω :=
  let due := s.later.takeWhile fun e => decide (e.1 ≤ time)
  { s with
    queue := due.foldl (fun q e => q.add e.2) s.queue
    time
    later := s.later.drop due.length }

/-- Lets time pass until `w` is served or `limit` is reached, in at most `steps` steps. -/
def awaitUntil [DecidableEq ω] (w : ω) (limit : Span) :
    (steps : Nat) → List (ω × Handout) → Schedule ω → List (ω × Handout) × Schedule ω
  | 0, served, s => (served, s)
  | steps + 1, served, s =>
    let (more, s) := s.deliver
    let served := served ++ more
    if served.any fun h => h.1 = w then (served, s)
    else match s.nextDue with
      | some due =>
        if due < limit then awaitUntil w limit steps served (s.advanceTo due) else (served, s)
      | none => (served, s)

/-- Has a new worker wait for a key, but not beyond `limit`. The answer tells what it got
and what the others did. -/
def await [DecidableEq ω] (w : ω) (limit : Span) (s : Schedule ω) :
    Option Handout × List (ω × Handout) × Schedule ω :=
  let (served, s) := awaitUntil w limit (s.later.length + 1) [] (s.enter w)
  let others := served.filter fun h => h.1 ≠ w
  match served.find? fun h => h.1 = w with
  | some (_, h) => (some h, others, s)
  | none => (none, others, { s with idle := s.idle.filter (· ≠ w) }.advanceTo limit)

end Schedule

end Drayage
