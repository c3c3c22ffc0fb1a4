/-!
# Boundaries between characters

A text can be cut between two characters, but not within one. A place that is told in bytes may
lie within a character; a search from there goes back to where that character begins.
-/

namespace Drayage.Text

/-- The boundary at which a search ends that goes back byte by byte. It breaks down if it would
have to go back beyond the beginning. -/
def lastBoundary? (text : String) : (bytes : Nat) → Option text.Pos
  | 0 => text.pos? ⟨0⟩
  | bytes + 1 =>
    match text.pos? ⟨bytes + 1⟩ with
    | some p => some p
    | none => lastBoundary? text bytes

theorem isSome_pos?_iff (text : String) (off : String.Pos.Raw) :
    (text.pos? off).isSome = true ↔ off.IsValid text := by
  unfold String.pos? String.Slice.pos?
  split
  · rename_i valid
    simpa using valid
  · rename_i invalid
    simpa using invalid

/-- Every text has a boundary at its beginning, so that the search ends. -/
theorem isSome_lastBoundary? (text : String) (bytes : Nat) :
    (lastBoundary? text bytes).isSome = true := by
  induction bytes with
  | zero => exact (isSome_pos?_iff text _).mpr String.Pos.Raw.isValid_zero
  | succ bytes ih =>
    unfold lastBoundary?
    split
    · rfl
    · exact ih

end Drayage.Text
