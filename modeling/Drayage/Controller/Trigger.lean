import Drayage.Controller.Config
import Drayage.Store.Event
import Drayage.Resource.Annotations

/-!
# What sets a reconcile off

A controller serves the resources of its shard. Of the events of the store only those
matter that can change what is to be done: a new Promotion, a request made by annotation,
and a Stage that names another Promotion.
-/

namespace Drayage

structure ShardFilter where
  shard : Option String
  isDefault : Bool
  deriving DecidableEq, Inhabited

namespace ShardFilter

def of (shard : Option String) (isDefault : Bool) : ShardFilter :=
  ⟨shard.filter fun s => !s.isEmpty, isDefault⟩

def ofConfig (c : ControllerConfig) : ShardFilter := of c.shard c.isDefault

/-- A labelled resource belongs to the shard of its label, any other to the default
controller. -/
def accepts (f : ShardFilter) (m : Metadata) : Bool :=
  match (m.labels.get? Annotations.shardKey).filter fun label => !label.isEmpty with
  | some label => f.shard == some label
  | none => f.isDefault

end ShardFilter

namespace StoreEvent

/-- A change of a Promotion calls for a reconcile: it is new, what it asks for changed, or
a refresh or an abort was requested. -/
def promotionMatters (c : Change Promotion) : Bool :=
  match c.kind, c.old with
  | .created, _ => true
  | .deleted, _ => false
  | .updated, none => true
  | .updated, some old =>
    let (old, new) := (old.metadata, c.new.metadata)
    old.generation != new.generation
      || old.annotations.get? Annotations.refreshKey != new.annotations.get? Annotations.refreshKey
      || old.annotations.get? Annotations.abortKey != new.annotations.get? Annotations.abortKey

/-- The Promotion that an updated Stage names now and did not name before. -/
def admittedBy (c : Change Stage) : Option String :=
  match c.kind with
  | .updated =>
    let name := c.new.currentPromotionName
    if (c.old.bind Stage.currentPromotionName) = name then none else name
  | .created | .deleted => none

def keysToEnqueue (e : StoreEvent) (f : ShardFilter) : List Key :=
  match e with
  | .promotion c =>
    if f.accepts c.new.metadata && promotionMatters c then [c.new.key] else []
  | .stage c =>
    if f.accepts c.new.metadata then
      match admittedBy c with
      | some name => [⟨c.new.metadata.project, name⟩]
      | none => []
    else []
  | .freight _ => []

end StoreEvent

end Drayage
