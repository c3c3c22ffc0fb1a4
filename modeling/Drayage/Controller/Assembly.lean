import Drayage.Controller.Reconcile
import Drayage.Controller.World
import Drayage.Engine.Builtin
import Drayage.Engine.Sequential

/-!
# Putting a controller together

Only the store has to be given. Without an engine, steps are carried out one after
another by the given runners, or by the builtin ones.
-/

namespace Drayage

/-- What a controller cannot do without. -/
inductive AssemblyError where
  | missing (part : String)
  deriving DecidableEq, Inhabited

def AssemblyError.message : AssemblyError → String
  | missing part => part ++ " required"

structure Parts (ε : Type) where
  store : Option Store
  /-- Also tells how long steps may take by default, whichever engine carries them out. -/
  runners : Option (Registry (World ε))
  credentials : Option CredentialsSource
  engine : Option (Engine (World ε))
  config : Option ControllerConfig

structure Controller (ε : Type) where
  store : Store
  engine : Engine (World ε)
  reconciler : Reconciler

namespace Parts

variable {ε : Type}

def none : Parts ε := ⟨.none, .none, .none, .none, .none⟩

def noCredentials : CredentialsSource := fun _ _ _ => .ok .none

def assemble (p : Parts ε) (tempDir : String) : Except AssemblyError (Controller ε) :=
  match p.store with
  | .none => .error (.missing "store")
  | some store =>
    let registry := p.runners.getD (Builtin.registry World.now)
    let setting : Sequential.Setting (World ε) :=
      ⟨registry, p.credentials.getD noCredentials, World.now⟩
    .ok {
      store
      engine := p.engine.getD (Sequential.promote setting)
      reconciler := ⟨p.config.getD (.standard tempDir), registry.defaultTimeout⟩ }

end Parts

end Drayage
