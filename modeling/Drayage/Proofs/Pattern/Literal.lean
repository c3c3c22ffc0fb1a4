import Drayage.Pattern.Language
import Mathlib.Data.List.Basic

/-!
# Texts as patterns

Letters, digits and a few other characters have no meaning of their own in patterns, and the
dot stands for the dot among others. A text of such characters is a pattern that matches, at
least, every text in which it occurs.
-/

namespace Drayage

namespace Pattern

/-- Letters, digits and underscores, and `/`, `:`, `.` and `-`. -/
def isPlain (c : Char) : Bool :=
  Text.isWordCharacter c || c == '/' || c == ':' || c == '.' || c == '-'

/-- A text of plain characters. -/
def Plain (cs : List Char) : Prop := ∀ c ∈ cs, isPlain c = true

instance (cs : List Char) : Decidable (Plain cs) := List.decidableBAll _ cs

/-- The characters that a plain character stands for. -/
def standsFor (c : Char) : CharSet := if c = '.' then Parser.dot .standard else .single c

/-- The pattern of the characters of a text, one after another. -/
def spelled : List Char → Pattern
  | [] => .empty
  | c :: cs => .seq (.one (standsFor c)) (spelled cs)

theorem contains_standsFor (c : Char) : (standsFor c).contains c = true := by
  unfold standsFor
  split
  · rename_i dot
    rw [dot]
    decide
  · simp [CharSet.single, CharSet.contains]

/-! ## Reading -/

theorem token?_of_plain {c : Char} (plain : isPlain c = true) {s : Parser.State}
    (standard : s.modes = .standard) (cs : List Char) :
    Parser.token? s c cs = some (s.add (.one (standsFor c)), cs) := by
  have special {d : Char} (h : isPlain d = false) : c ≠ d := by
    rintro rfl
    rw [plain] at h
    cases h
  unfold Parser.token?
  split
  case h_9 =>
    rw [standard]
    rfl
  case h_13 noDot _ _ _ =>
    rw [standard, standsFor, if_neg noDot]
    rfl
  all_goals exact absurd rfl (special (by decide +kernel))

/-- Characters are read one by one, behind the parts that there are already. -/
theorem run?_of_plain {cs : List Char} (plain : Plain cs) {fuel : Nat} (enough : cs.length < fuel)
    {s : Parser.State} (standard : s.modes = .standard) (closed : s.outer = [])
    (sole : s.group.branches = []) :
    Parser.run? fuel s cs =
      some ((s.group.parts.filterMap id).foldl (fun acc p => .seq p acc) (spelled cs)) := by
  induction cs generalizing fuel s with
  | nil =>
    obtain ⟨fuel, rfl⟩ := Nat.exists_eq_add_of_lt enough
    unfold Parser.run? Parser.Group.value
    rw [Bracket.skip, closed, sole]
    rfl
  | cons c cs ih =>
    obtain ⟨fuel, rfl⟩ := Nat.exists_eq_add_of_lt enough
    obtain ⟨first, others⟩ := List.forall_mem_cons.mp plain
    have shown : Bracket.skip s.modes (c :: cs) = c :: cs := by
      rw [standard]
      rfl
    unfold Parser.run?
    rw [shown]
    dsimp only
    rw [token?_of_plain first standard]
    exact ih others (by rw [List.length_cons]; omega) standard closed sole

theorem parse?_of_plain {text : String} (plain : Plain text.toList) :
    parse? text = some (spelled text.toList) :=
  run?_of_plain plain (by rw [String.length_toList]; omega) rfl rfl rfl

/-! ## Matching -/

theorem mem_distinct {ps : List Place} {p : Place} : p ∈ distinct ps ↔ p ∈ ps := by
  unfold distinct
  induction ps with
  | nil => rfl
  | cons q ps ih =>
    rw [List.foldr_cons]
    split
    · rename_i known
      rw [ih, List.mem_cons]
      refine ⟨.inr, ?_⟩
      rintro (rfl | later)
      · exact ih.mp (List.contains_iff_mem.mp known)
      · exact later
    · rw [List.mem_cons, List.mem_cons, ih]

/-- A pattern of characters matches them wherever they stand. -/
theorem mem_ends_spelled (cs before rest : List Char) :
    ⟨cs.reverse ++ before, rest⟩ ∈ (spelled cs).ends ⟨before, cs ++ rest⟩ := by
  induction cs generalizing before with
  | nil => exact List.mem_singleton.mpr rfl
  | cons c cs ih =>
    have first : ends (.one (standsFor c)) ⟨before, c :: (cs ++ rest)⟩ =
        [⟨c :: before, cs ++ rest⟩] := by
      rw [ends, contains_standsFor, if_pos rfl]
    have others := ih (c :: before)
    show _ ∈ distinct ((ends (.one (standsFor c)) ⟨before, c :: (cs ++ rest)⟩).flatMap
      (spelled cs).ends)
    rw [mem_distinct, first, List.flatMap_singleton, List.reverse_cons, List.append_assoc]
    exact others

theorem mem_places (front before rest : List Char) :
    ⟨front.reverse ++ before, rest⟩ ∈ places before (front ++ rest) := by
  induction front generalizing before with
  | nil =>
    cases rest with
    | nil => exact List.mem_singleton.mpr rfl
    | cons c cs => exact List.mem_cons_self
  | cons c front ih =>
    rw [List.reverse_cons, List.append_assoc]
    exact List.mem_cons_of_mem _ (ih (c :: before))

theorem isMatch_spelled {cs : List Char} {t : String} (h : cs <:+: t.toList) :
    (spelled cs).isMatch t = true := by
  obtain ⟨front, rest, text⟩ := h
  rw [List.append_assoc] at text
  have place := mem_places front [] (cs ++ rest)
  rw [text] at place
  refine List.any_eq_true.mpr ⟨_, place, ?_⟩
  have found := mem_ends_spelled cs (front.reverse ++ []) rest
  simpa using List.ne_nil_of_mem found

end Pattern

/-- Every text of plain characters is a pattern, and it matches at least the texts in which it
occurs. -/
def PatternLanguage.TakesLiterally (patterns : PatternLanguage) : Prop :=
  ∀ text : String, Pattern.Plain text.toList → ∃ decides, patterns text = some decides ∧
    ∀ t : String, text.toList <:+: t.toList → decides t = true

theorem Pattern.takesLiterally_language : Pattern.language.TakesLiterally := by
  intro text plain
  refine ⟨(spelled text.toList).isMatch, ?_, fun t => isMatch_spelled⟩
  rw [language, parse?_of_plain plain]
  rfl

end Drayage
