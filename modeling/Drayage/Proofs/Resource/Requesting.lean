import Drayage.Proofs.Json.Fields
import Drayage.Proofs.Json.Printing
import Drayage.Resource.Annotations

/-!
# Requests to abort in annotations

Whoever asks for an abort, the request is read back from the annotation that makes it. The
name may have any characters, and nothing depends on the other annotations.
-/

namespace Drayage

/-- What can be read is parsed from the text that is printed for it. -/
theorem Codec.parse_compact {α : Type} {c : Codec α} (faithful : c.Faithful) {a : α}
    (reads : c.Reads a) (readable : Json.Readable 0 (c.write a)) :
    c.parse (c.write a).compact = .ok a := by
  unfold parse
  rw [Json.read_compact readable]
  dsimp only
  rw [faithful.read_write reads]
  rfl

namespace AbortRequest

theorem faithful_codec : codec.Faithful :=
  Codec.faithful_record
    (.required (Codec.faithful_variants _ _) <| .maybe Codec.faithful_text .done)
    (by decide) fun _ => rfl

/-- Every request has a form on the wire, with the name or without one. -/
theorem reads_codec (r : AbortRequest) : codec.Reads r := by
  obtain ⟨⟨⟩, actor⟩ := r
  cases actor with
  | none => exact ⟨.record [("action", .text "terminate")], rfl⟩
  | some name => exact ⟨.record [("action", .text "terminate"), ("actor", .text name)], rfl⟩

theorem readable_write (r : AbortRequest) : Json.Readable 0 (codec.write r) := by
  obtain ⟨⟨⟩, actor⟩ := r
  refine .record (by decide) fun m hm => ?_
  cases actor with
  | none =>
    cases List.mem_singleton.mp hm
    exact .text _
  | some name =>
    rcases List.mem_pair.mp hm with rfl | rfl <;> exact .text _

theorem parse_annotationValue (r : AbortRequest) : codec.parse r.annotationValue = .ok r :=
  Codec.parse_compact faithful_codec r.reads_codec r.readable_write

end AbortRequest

namespace Annotations

/-- A request is read back from its annotation, whatever other annotations there are. -/
theorem abortRequest_of_annotationValue (r : AbortRequest) (annotations : Dict String String)
    (asked : annotations.get? abortKey = some r.annotationValue) :
    abortRequest annotations = .ok (some r) := by
  unfold abortRequest
  rw [asked]
  dsimp only
  rw [r.parse_annotationValue]
  rfl

/-- Somebody asks whose name has quotes, a backslash and control characters. -/
def unruly : AbortRequest := .terminate (some "\"a\\b\"\n\x00\x1f𝄞")

def unrulyAmongOthers : Dict String String := Dict.ofList
  [(refreshKey, "7"), (abortKey, unruly.annotationValue), (creatorKey, "admin:\"ann\"")]

theorem abortRequest_of_unruly :
    unrulyAmongOthers.get? abortKey = some unruly.annotationValue ∧
      abortRequest unrulyAmongOthers = .ok (some unruly) := by
  have asked : unrulyAmongOthers.get? abortKey = some unruly.annotationValue := by
    decide +kernel
  exact ⟨asked, abortRequest_of_annotationValue unruly unrulyAmongOthers asked⟩

end Annotations

end Drayage
