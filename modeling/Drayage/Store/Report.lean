import Drayage.Json.Access
import Drayage.Store.Event

/-!
# What watchers receive, as JSON
-/

namespace Drayage

/-- What a change is about, without the values themselves. -/
def Change.json {α : Type} (resource : String) (metadata : α → Metadata) (phase : Json)
    (c : Change α) : Json :=
  .record [("key", .text (metadata c.new).key.text), ("kind", .text c.kind.name),
    ("oldVersion", .ofOption (fun a => .nat (metadata a).version) c.old), ("phase", phase),
    ("resource", .text resource), ("version", .nat (metadata c.new).version)]

def Delivery.json : Delivery → Json
  | .event (.promotion c) =>
    c.json "Promotion" Promotion.metadata (.ofOption (.text ·.name) c.new.status.phase)
  | .event (.stage c) => c.json "Stage" Stage.metadata .null
  | .event (.freight c) => c.json "Freight" Freight.metadata .null
  | .lagged missed => .record [("lagged", .nat missed)]

end Drayage
