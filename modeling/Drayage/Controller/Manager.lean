import Drayage.Controller.Reconcile
import Drayage.Controller.Schedule
import Drayage.Controller.Trigger
import Drayage.Controller.World
import Drayage.Json.Access

/-!
# The manager

The manager has workers reconcile the Promotions of a shard: all that have not ended when
it starts, and from then on those that an event of the store calls for. A reconcile that
fails is repeated after a growing delay. Reconciles take no time, so time passes only while
every worker waits.
-/

namespace Drayage

structure Manager (ε : Type) where
  reconciler : Reconciler
  /-- How requests are answered. -/
  perform : (r : Request) → StateM (World ε) r.Answer

structure Operation (ε : Type) where
  /-- Workers are known by their numbers. -/
  schedule : Schedule Nat
  /-- What has been seen of the store's events, while they are followed. -/
  watcher : Option Watcher
  /-- Why the manager could not start. -/
  failure : Option StoreError
  world : World ε

def Operation.overview {ε : Type} (o : Operation ε) (p : Promotion) : Json :=
  .record [("currentStep", .nat p.status.currentStep),
    ("lastHandledRefresh", .ofOption .text p.status.lastHandledRefresh),
    ("message", .ofOption .text p.status.message),
    ("phase", .ofOption (.text ·.name) p.status.phase),
    ("requeues", .nat (o.schedule.queue.requeues p.key)),
    ("state", .record p.status.state.entries),
    ("steps", .ofList (fun r => .list [.text r.name, .text r.status.name, .nat r.errorCount.toNat])
      p.status.records)]

namespace Manager

variable {ε : Type}

def filter (m : Manager ε) : ShardFilter := .ofConfig m.reconciler.config

/-- At least one worker is needed. -/
def workers (m : Manager ε) : Nat := Nat.max 1 m.reconciler.config.maxConcurrent

/-- The keys of the shard's Promotions that have not ended. -/
def openKeys (f : ShardFilter) (ps : List Promotion) : List Key :=
  (ps.filter fun p => f.accepts p.metadata && !p.status.isTerminal).map Promotion.key

def survey (m : Manager ε) : Program (Except StoreError (List Key)) := do
  match ← Program.request .listPromotions with
  | .ok ps => return .ok (openKeys m.filter ps)
  | .error e => return .error e

def addAll (s : Schedule Nat) (keys : List Key) : Schedule Nat :=
  s.update fun q => keys.foldl WorkQueue.add q

/-- Starts to follow the store, queues what there is to do and puts the workers in line. -/
def start (m : Manager ε) (world : World ε) : Operation ε :=
  let (keys, next) := m.survey.run m.perform world
  match keys with
  | .ok keys =>
    let schedule := (List.range m.workers).foldl Schedule.enter (.start .standard)
    ⟨addAll schedule keys, some ⟨world.store.published.size⟩, none, next⟩
  | .error e => ⟨.start .standard, none, some e, next⟩

/-- Takes in one delivery of the store. Whoever lost events looks at everything anew. -/
def receive (m : Manager ε) (o : Operation ε) : Delivery → Operation ε
  | .event e => { o with schedule := addAll o.schedule (e.keysToEnqueue m.filter) }
  | .lagged _ =>
    let (keys, world) := m.survey.run m.perform o.world
    match keys with
    | .ok keys => { o with schedule := addAll o.schedule keys, world }
    | .error _ => { o with world }

def follow (m : Manager ε) (o : Operation ε) : Operation ε :=
  match o.watcher with
  | none => o
  | some w =>
    let (deliveries, w) := w.receiveAll o.world.store.published
    deliveries.foldl m.receive { o with watcher := some w }

def conclude (s : Schedule Nat) (k : Key) : Ending → Schedule Nat
  | .finished none => s.update (·.forget k)
  | .finished (some delay) => (s.update (·.forget k)).addAfter k delay
  | .failed _ => s.addRateLimited k
  | .crashed _ => s

/-- A worker does what it was handed and gets in line again. A worker that crashes is
lost, and the key with it. -/
def work (m : Manager ε) (o : Operation ε) : Nat × Handout → Operation ε
  | (_, .closed) => o
  | (worker, .key k) =>
    let (ending, world) := (m.reconciler.reconcile k).run m.perform o.world
    let schedule := conclude o.schedule k ending
    match ending with
    | .crashed _ => { o with schedule, world }
    | .finished _ | .failed _ =>
      { o with schedule := (schedule.update (·.done k)).enter worker, world }

/-- Lets everybody act until nobody has anything to do at this time, at most `rounds`
times. -/
def settle (m : Manager ε) : (rounds : Nat) → Operation ε → Operation ε
  | 0, o => o
  | rounds + 1, o =>
    let o := m.follow { o with schedule := o.schedule.advanceTo o.schedule.time }
    let (served, schedule) := o.schedule.deliver
    let o := { o with schedule }
    if served.isEmpty then o else m.settle rounds (served.foldl m.work o)

/-- Lets time pass until `time`, which is looked at before the keys that are due then, in
at most `steps` steps. -/
def elapse (m : Manager ε) (rounds : Nat) (time : Span) :
    (steps : Nat) → Operation ε → Operation ε
  | 0, o => o
  | steps + 1, o =>
    let o := m.settle rounds o
    match o.schedule.nextDue with
    | some due =>
      if due < time then
        m.elapse rounds time steps { o with schedule := { o.schedule with time := due } }
      else { o with schedule := { o.schedule with time } }
    | none => { o with schedule := { o.schedule with time } }

def shutDown (o : Operation ε) : Operation ε :=
  match o.failure with
  | some _ => o
  | none => { o with schedule := o.schedule.update WorkQueue.shutDown, watcher := none }

end Manager

end Drayage
