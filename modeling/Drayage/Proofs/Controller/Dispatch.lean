import Drayage.Controller.Manager
import Drayage.Proofs.Controller.Exchange
import Drayage.Proofs.Controller.Queue
import Drayage.Proofs.Controller.Reconciling
import Drayage.Proofs.Controller.Trigger
import Drayage.Proofs.Engine.Sequential

/-!
# Dispatch

The manager taken apart: the queue, the keys whose delay runs, whoever follows the events
of the store and the workers act one step at a time and in any order, while users edit
resources. There may be any number of workers, and the follower may fall behind at any
time, but then it lists what there is to do.
-/

namespace Drayage

open Relation Standing Store

/-- What is left to a worker between a reconcile and being done with its key. -/
inductive Chore where
  | forget
  | addAfter (delay : Span)
  | addRateLimited

/-- After a crash there is nobody who could do anything. -/
def Ending.chores : Ending → Option (List Chore)
  | .finished none => some [.forget]
  | .finished (some delay) => some [.forget, .addAfter delay]
  | .failed _ => some [.addRateLimited]
  | .crashed _ => none

inductive Task where
  | reconciling (rest : Program Ending)
  | tidying (chores : List Chore)

/-- A worker at work on a key. -/
structure Worker where
  key : Key
  task : Task

/-- Whoever follows the events of the store. One who fell behind lists the keys to work on
and adds them before going on. -/
inductive Follower where
  | following
  | listing
  | adding (keys : List Key)

/-- The keys that the follower is going to add, whatever else happens. -/
def Follower.Owes : Follower → Key → Prop
  | .following, _ => False
  | .listing, _ => True
  | .adding keys, k => k ∈ keys

structure Dispatch where
  world : World Unit
  queue : WorkQueue
  /-- The keys that are added once a delay has passed. -/
  timers : List Key
  /-- The number of events that were seen. -/
  seen : Nat
  follower : Follower
  workers : List Worker

namespace Dispatch

/-- Adds a key after a delay, or at once if there is none. -/
def addAfter (d : Dispatch) (k : Key) (delay : Span) : Dispatch :=
  if delay.isZero then { d with queue := d.queue.add k } else { d with timers := k :: d.timers }

def perform (d : Dispatch) (k : Key) : Chore → Dispatch
  | .forget => { d with queue := d.queue.forget k }
  | .addAfter delay => d.addAfter k delay
  | .addRateLimited => { d with queue := (d.queue.fail k).2 }.addAfter k (d.queue.fail k).1

/-- A manager about to start. The store has evolved in some way that suits its shard. -/
structure Opens (f : ShardFilter) (d : Dispatch) : Prop where
  store : ReflTransGen (Evolves f.intake fun _ _ => True) .empty d.world.store
  queue : ∃ b, d.queue = .empty b
  timers : d.timers = []
  seen : d.seen = d.world.store.published.size
  follower : d.follower = .listing
  workers : d.workers = []

inductive Turn (c : Reconciler) (d : Dispatch) : Dispatch → Prop where
  | edit (e : Edit) (h : e.Within (ShardFilter.ofConfig c.config).intake) :
      Turn c d { d with world := { d.world with store := e.apply d.world.store } }
  | disturb (clock : Instant) (workspaces : Workspaces) :
      Turn c d { d with world := { d.world with clock, workspaces } }
  | deliver (e : StoreEvent) (follows : d.follower = .following)
      (next : d.world.store.published[d.seen]? = some e) :
      Turn c d { d with
        seen := d.seen + 1
        queue := (e.keysToEnqueue (.ofConfig c.config)).foldl .add d.queue }
  /-- Events are lost, and the follower is told. -/
  | lag (seen : Nat) (later : d.seen ≤ seen) (h : seen ≤ d.world.store.published.size) :
      Turn c d { d with seen, follower := .listing }
  | list (ps : List Promotion) (lists : d.follower = .listing)
      (h : d.world.store.listPromotions = .ok ps) :
      Turn c d { d with follower := .adding (Manager.openKeys (.ofConfig c.config) ps) }
  | add (k : Key) (ks : List Key) (adds : d.follower = .adding (k :: ks)) :
      Turn c d { d with queue := d.queue.add k, follower := .adding ks }
  | follow (added : d.follower = .adding []) : Turn c d { d with follower := .following }
  | fire (front : List Key) (k : Key) (back : List Key) (h : d.timers = front ++ k :: back) :
      Turn c d { d with timers := front ++ back, queue := d.queue.add k }
  | get (k : Key) (q : WorkQueue) (h : d.queue.get = some (.key k, q)) :
      Turn c d { d with queue := q, workers := ⟨k, .reconciling (c.reconcile k)⟩ :: d.workers }
  | answer (front back : List Worker) (k : Key) (r : Request)
      (next : r.Answer → Program Ending) (a : r.Answer) (w : World Unit)
      (works : d.workers = front ++ ⟨k, .reconciling (.ask r next)⟩ :: back)
      (h : d.world.Answers Sequential.MayAnswer r a w) :
      Turn c d { d with
        world := w, workers := front ++ ⟨k, .reconciling (next a)⟩ :: back }
  | finish (front back : List Worker) (k : Key) (e : Ending) (chores : List Chore)
      (works : d.workers = front ++ ⟨k, .reconciling (.done e)⟩ :: back)
      (h : e.chores = some chores) :
      Turn c d { d with workers := front ++ ⟨k, .tidying chores⟩ :: back }
  /-- A worker is lost, and its key with it. -/
  | crash (front back : List Worker) (k : Key) (e : Ending)
      (works : d.workers = front ++ ⟨k, .reconciling (.done e)⟩ :: back)
      (h : e.chores = none) : Turn c d { d with workers := front ++ back }
  | tidy (front back : List Worker) (k : Key) (chore : Chore) (chores : List Chore)
      (works : d.workers = front ++ ⟨k, .tidying (chore :: chores)⟩ :: back) :
      Turn c d { d.perform k chore with workers := front ++ ⟨k, .tidying chores⟩ :: back }
  | finished (front back : List Worker) (k : Key)
      (works : d.workers = front ++ ⟨k, .tidying []⟩ :: back) :
      Turn c d { d with queue := d.queue.done k, workers := front ++ back }

/-- What can come about once a manager with this reconciler has started. -/
def Reached (c : Reconciler) (d : Dispatch) : Prop :=
  ∃ o, Opens (.ofConfig c.config) o ∧ ReflTransGen (Turn c) o d

/-- Nobody is going to look at a key unless something happens. -/
structure Idle (f : ShardFilter) (d : Dispatch) (k : Key) : Prop where
  waiting : k ∉ d.queue.waiting
  wanted : ¬ d.queue.Wants k
  held : ¬ d.queue.Holds k
  timers : k ∉ d.timers
  events : ¬ d.world.store.Due f d.seen k
  follower : ¬ d.follower.Owes k

end Dispatch

end Drayage
