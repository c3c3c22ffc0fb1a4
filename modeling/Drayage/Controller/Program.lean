import Drayage.Controller.Notice
import Drayage.Engine.Basic
import Drayage.Store.Basic
import Drayage.Workspace.Basic

/-!
# Programs

What the controller does is written as a program: a value that names the next request to
its surroundings and says how it goes on with each answer. A program can be run at one
go, or stopped at any request while others make theirs.
-/

namespace Drayage

inductive Request where
  | now
  | getPromotion (key : Key)
  | getStage (key : Key)
  | getFreight (key : Key)
  | listPromotions
  | updateStatus (key : Key) (version : Nat) (status : PromotionStatus)
  | requestReverification (key : Key)
  | acquire (uid : Uid)
  | release (uid : Uid)
  | promote (context : PromotionContext) (steps : List Step)
  | emit (notice : Notice)

abbrev Request.Answer : Request → Type
  | .now => Instant
  | .getPromotion _ => Except StoreError (Option Promotion)
  | .getStage _ => Except StoreError (Option Stage)
  | .getFreight _ => Except StoreError (Option Freight)
  | .listPromotions => Except StoreError (List Promotion)
  | .updateStatus _ _ _ => Except StoreError Nat
  | .requestReverification _ => Except StoreError Unit
  | .acquire _ => Except FileError Bool
  | .release _ => Except FileError Unit
  | .promote _ _ => EngineAnswer
  | .emit _ => Unit

/-- A computation that makes requests and ends with a value. -/
inductive Program (α : Type) where
  | done (a : α)
  | ask (r : Request) (next : r.Answer → Program α)

namespace Program

variable {α β σ : Type}

def bind : Program α → (α → Program β) → Program β
  | .done a, f => f a
  | .ask r next, f => .ask r fun answer => (next answer).bind f

instance : Monad Program where
  pure := .done
  bind := bind

def request (r : Request) : Program r.Answer := .ask r .done

/-- Runs a program in a world in which `perform` answers the requests. -/
def run (perform : (r : Request) → StateM σ r.Answer) : Program α → StateM σ α
  | .done a => pure a
  | .ask r next => do run perform (next (← perform r))

theorem bind_assoc {γ : Type} (x : Program α) (f : α → Program β) (g : β → Program γ) :
    (x.bind f).bind g = x.bind fun a => (f a).bind g := by
  induction x with
  | done a => rfl
  | ask r next ih => exact congrArg (Program.ask r) (funext ih)

end Program

end Drayage
