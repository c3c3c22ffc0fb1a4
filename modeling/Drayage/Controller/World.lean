import Drayage.Controller.Program

/-!
# A world in memory

Surroundings in which everything is kept in memory: a clock that stands still, the
resources, the workspaces and the notices so far.
-/

namespace Drayage

/-- `extra` is whatever the runners of steps act on beside the rest. -/
structure World (ε : Type) where
  clock : Instant
  store : Store
  workspaces : Workspaces
  notices : Array Notice
  extra : ε
  deriving Inhabited

namespace World

variable {ε α : Type}

def now : StateM (World ε) Instant := fun w => (w.clock, w)

def query (op : Store → α) : StateM (World ε) α := fun w => (op w.store, w)

/-- Writes to the store; a write that fails changes nothing. -/
def attempt (op : Store → Store.Outcome α) : StateM (World ε) (Except StoreError α) := fun w =>
  match op w.store with
  | .ok (a, store) => (.ok a, { w with store })
  | .error e => (.error e, w)

def acquire (uid : Uid) : StateM (World ε) (Except FileError Bool) := fun w =>
  match w.workspaces.acquire uid with
  | .ok (fresh, workspaces) => (.ok fresh, { w with workspaces })
  | .error e => (.error e, w)

def release (uid : Uid) : StateM (World ε) (Except FileError Unit) := fun w =>
  match w.workspaces.release uid with
  | .ok workspaces => (.ok (), { w with workspaces })
  | .error e => (.error e, w)

def emit (n : Notice) : StateM (World ε) Unit := fun w =>
  ((), { w with notices := w.notices.push n })

/-- Answers the requests of a program, with an engine that acts on the same world. -/
def perform (engine : Engine (World ε)) : (r : Request) → StateM (World ε) r.Answer
  | .now => now
  | .getPromotion key => query (·.getPromotion key)
  | .getStage key => query (·.getStage key)
  | .getFreight key => query (·.getFreight key)
  | .listPromotions => query Store.listPromotions
  | .updateStatus key version status => attempt (·.updateStatus key version status)
  | .requestReverification key => fun w => attempt (·.requestReverification key w.clock) w
  | .acquire uid => acquire uid
  | .release uid => release uid
  | .promote context steps => engine context steps
  | .emit notice => emit notice

end World

end Drayage
