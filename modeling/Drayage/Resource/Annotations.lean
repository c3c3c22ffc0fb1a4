import Drayage.Resource.Metadata

/-!
# Annotations

The annotations and labels that the controller understands, and what their values mean.
-/

namespace Drayage.Annotations

def abortKey : String := "relay.dev/abort"

/-- Asks for another look at the resource; the value is a token. -/
def refreshKey : String := "relay.dev/refresh"

def creatorKey : String := "relay.dev/create-actor"

def reverifyKey : String := "relay.dev/reverify"

/-- The label that assigns a resource to a shard. -/
def shardKey : String := "relay.dev/shard"

/-- Whom the annotation of the creator names when nobody is known. -/
def unknownActor : String := "unknown"

def controllerActor (controller : String) : String := "controller:" ++ controller

end Drayage.Annotations

namespace Drayage

inductive AbortAction where
  | terminate
  deriving DecidableEq, Inhabited

structure AbortRequest where
  action : AbortAction
  actor : Option String
  deriving DecidableEq, Inhabited

namespace AbortRequest

def terminate (actor : Option String) : AbortRequest := ⟨.terminate, actor⟩

def codec : Codec AbortRequest :=
  .record "AbortRequest"
    (.required "action" (.variants [.terminate] fun .terminate => "terminate") <|
      .maybe "actor" .text .done)
    (fun r => (r.action, r.actor, ())) (fun (action, actor, ()) => ⟨action, actor⟩)

def annotationValue (r : AbortRequest) : String := (codec.write r).compact

end AbortRequest

/-- Reads a value from a text that holds nothing else. -/
def Codec.parse {α : Type} (c : Codec α) (s : String) : Except DecodeError α := do
  let (j, complete) := Json.read s
  let a ← c.read j
  if complete then .ok a else .error .unreadable

namespace Annotations

def abortRequest (annotations : Dict String String) :
    Except DecodeError (Option AbortRequest) :=
  match annotations.get? abortKey with
  | none => .ok none
  | some value => (AbortRequest.codec.parse value).map some

/-- The refresh token, if it is not empty. -/
def refreshToken (annotations : Dict String String) : Option String :=
  (annotations.get? refreshKey).filter fun token => !token.isEmpty

/-- Who created the resource: what follows the only colon of the annotation, or all of
it. Nobody, if it is empty or names nobody. -/
def creator (annotations : Dict String String) : Option String := do
  let value ← annotations.get? creatorKey
  match Text.splitAt ':' value.toList with
  | [_, name] => some (String.ofList name)
  | _ => if value = unknownActor ∨ value.isEmpty then none else some value

end Annotations

end Drayage
