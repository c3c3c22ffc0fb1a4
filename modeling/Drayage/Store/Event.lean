import Drayage.Resource.Stage

/-!
# Events of the store

Every change of a resource is published to the watchers of the store, together with the
value before it. A watcher that falls behind by more than `Watcher.capacity` events
loses the oldest of them and is told how many.
-/

namespace Drayage

inductive ChangeKind where
  | created
  | updated
  | deleted
  deriving DecidableEq, Inhabited

def ChangeKind.name : ChangeKind → String
  | created => "Created"
  | updated => "Updated"
  | deleted => "Deleted"

/-- A change of one resource. What was deleted is `new`, its last value. -/
structure Change (α : Type) where
  kind : ChangeKind
  old : Option α
  new : α
  deriving DecidableEq

namespace Change

variable {α : Type}

def created (new : α) : Change α := ⟨.created, none, new⟩

def updated (old new : α) : Change α := ⟨.updated, some old, new⟩

def deleted (last : α) : Change α := ⟨.deleted, none, last⟩

def replaced (old : Option α) (new : α) : Change α :=
  match old with
  | some old => updated old new
  | none => created new

end Change

inductive StoreEvent where
  | promotion (c : Change Promotion)
  | stage (c : Change Stage)
  | freight (c : Change Freight)
  deriving DecidableEq

/-- How many of the published events a watcher has seen. -/
structure Watcher where
  seen : Nat
  deriving DecidableEq, Inhabited

inductive Delivery where
  | event (e : StoreEvent)
  /-- So many events were lost. -/
  | lagged (missed : Nat)

namespace Watcher

/-- The number of events kept for a watcher. -/
def capacity : Nat := 1024

def receive (w : Watcher) (published : Array StoreEvent) : Option (Delivery × Watcher) :=
  if w.seen + capacity < published.size then
    some (.lagged (published.size - capacity - w.seen), ⟨published.size - capacity⟩)
  else published[w.seen]?.map fun e => (.event e, ⟨w.seen + 1⟩)

def drain (published : Array StoreEvent) : (fuel : Nat) → Watcher → List Delivery × Watcher
  | 0, w => ([], w)
  | fuel + 1, w =>
    match w.receive published with
    | none => ([], w)
    | some (d, w) =>
      let (ds, w) := drain published fuel w
      (d :: ds, w)

def receiveAll (w : Watcher) (published : Array StoreEvent) : List Delivery × Watcher :=
  drain published (capacity + 1) w

end Watcher

end Drayage
