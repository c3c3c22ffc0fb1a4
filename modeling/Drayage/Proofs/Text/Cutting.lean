import Drayage.Text.Blank

/-!
# Texts in pieces

A text that is cut at every occurrence of a character is told by its pieces. Texts that are
joined by that character have the pieces of each of them, one after another, so it is their
pieces and not the texts themselves that can be told from what they are joined to.
-/

namespace Drayage.Text

variable {sep : Char} {v w cs ds : List Char}

theorem length_splitAt (sep : Char) (cs : List Char) :
    (splitAt sep cs).length = cs.count sep + 1 := by
  induction cs with
  | nil => rfl
  | cons c cs ih =>
    unfold splitAt
    split
    · rename_i same
      rw [List.length_cons, ih, same, List.count_cons_self]
    · rename_i other
      rw [List.count_cons_of_ne other]
      split
      · rename_i empty
        rw [empty] at ih
        cases ih
      · rename_i parts
        rw [parts] at ih
        exact ih

theorem splitAt_ne_nil (sep : Char) (cs : List Char) : splitAt sep cs ≠ [] :=
  List.ne_nil_of_length_pos (by rw [length_splitAt]; omega)

theorem splitAt_of_notMem (h : sep ∉ w) : splitAt sep w = [w] := by
  induction w with
  | nil => rfl
  | cons c w ih =>
    obtain ⟨other, bare⟩ := not_or.mp (mt List.mem_cons.mpr h)
    rw [splitAt, if_neg (Ne.symm other), ih bare]

/-- What is cut at one place is cut on either side of it. -/
theorem splitAt_append (cs ds : List Char) :
    splitAt sep (cs ++ sep :: ds) = splitAt sep cs ++ splitAt sep ds := by
  induction cs with
  | nil => exact if_pos rfl
  | cons c cs ih =>
    rw [List.cons_append, splitAt, splitAt, ih]
    split
    · rfl
    · obtain ⟨w, ws, pieces⟩ := List.exists_cons_of_ne_nil (splitAt_ne_nil sep cs)
      rw [pieces]
      rfl

theorem splitAt_pair (bare : sep ∉ v) (simple : sep ∉ w) :
    splitAt sep (v ++ sep :: w) = [v, w] := by
  rw [splitAt_append, splitAt_of_notMem bare, splitAt_of_notMem simple]
  rfl

theorem exists_pair_of_count (h : cs.count sep = 1) :
    ∃ v w, cs = v ++ sep :: w ∧ sep ∉ v ∧ sep ∉ w := by
  have mem : sep ∈ cs := List.count_pos_iff.mp (by omega)
  obtain ⟨v, w, rfl, bare⟩ := List.eq_append_cons_of_mem mem
  rw [List.count_append, List.count_eq_zero.mpr bare, List.count_cons_self] at h
  exact ⟨v, w, rfl, bare, List.count_eq_zero.mp (by omega)⟩

theorem intercalate_splitAt (sep : Char) (cs : List Char) :
    [sep].intercalate (splitAt sep cs) = cs := by
  induction cs with
  | nil => rfl
  | cons c cs ih =>
    obtain ⟨w, ws, pieces⟩ := List.exists_cons_of_ne_nil (splitAt_ne_nil sep cs)
    rw [pieces] at ih
    rw [splitAt, pieces]
    split
    · rename_i same
      rw [List.intercalate_cons_cons, ih, same]
      rfl
    · cases ws with
      | nil =>
        rw [List.intercalate_singleton] at ih ⊢
        rw [ih]
      | cons w' ws =>
        rw [List.intercalate_cons_cons] at ih ⊢
        rw [← ih]
        rfl

/-- A text is told by its pieces. -/
theorem splitAt_inj : splitAt sep cs = splitAt sep ds ↔ cs = ds := by
  constructor
  · intro h
    rw [← intercalate_splitAt sep cs, h, intercalate_splitAt]
  · exact congrArg _

theorem splitAt_join {glue : String} (single : glue.toList = [sep]) {ss : List String}
    (some : ss ≠ []) :
    splitAt sep (join glue ss).toList = ss.flatMap fun s => splitAt sep s.toList := by
  induction ss with
  | nil => exact absurd rfl some
  | cons s ss ih =>
    cases ss with
    | nil => rw [join, List.flatMap_singleton]
    | cons t ss =>
      have chars : (join glue (s :: t :: ss)).toList =
          s.toList ++ sep :: (join glue (t :: ss)).toList := by
        rw [join, String.toList_append, String.toList_append, single, List.append_assoc]
        rfl
      rw [chars, splitAt_append, ih (List.cons_ne_nil t ss)]
      rfl

end Drayage.Text
