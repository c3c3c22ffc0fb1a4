import Drayage.Data.Dict
import Drayage.Json.Codec

/-!
# Keys of resources

A resource is addressed by its project and its name within the project. Keys are
ordered by project, then by name.
-/

namespace Drayage

open Std

structure Key where
  project : String
  name : String
  deriving DecidableEq, Inhabited

namespace Key

def text (k : Key) : String := k.project ++ "/" ++ k.name

def pair (k : Key) : String × String := (k.project, k.name)

instance : Ord Key := ⟨fun a b => (compare a.project b.project).then (compare a.name b.name)⟩

theorem compare_def (a b : Key) :
    compare a b = (compare a.project b.project).then (compare a.name b.name) := rfl

instance : OrientedOrd Key where
  eq_swap {a b} := by
    have h1 : compare a.project b.project = (compare b.project a.project).swap :=
      OrientedCmp.eq_swap
    have h2 : compare a.name b.name = (compare b.name a.name).swap := OrientedCmp.eq_swap
    rw [compare_def, compare_def, Ordering.swap_then, h1, h2]

instance : TransOrd Key where
  isLE_trans {a b c} := by
    simp only [compare_def]
    intro hab hbc
    rw [Ordering.isLE_then_iff_or] at hab hbc ⊢
    rcases hab with hab | ⟨hab, hab'⟩
    · rcases hbc with hbc | ⟨hbc, _⟩
      · exact .inl (TransCmp.lt_trans hab hbc)
      · exact .inl (TransCmp.lt_of_lt_of_eq hab hbc)
    · rcases hbc with hbc | ⟨hbc, hbc'⟩
      · exact .inl (TransCmp.lt_of_eq_of_lt hab hbc)
      · exact .inr ⟨TransCmp.eq_trans hab hbc, TransCmp.isLE_trans hab' hbc'⟩

instance : LawfulEqOrd Key where
  eq_of_compare {a b} h := by
    rw [compare_def, Ordering.then_eq_eq] at h
    obtain ⟨h1, h2⟩ := h
    cases a; cases b
    simp_all

/-- The key that a text of the form `project/name` stands for; the name may hold
slashes. -/
def ofText (s : String) : Key :=
  match Text.splitOnce '/' s.toList with
  | some (project, name) => ⟨String.ofList project, String.ofList name⟩
  | none => ⟨"", s⟩

def codec : Codec Key :=
  .record "Key" (.required "namespace" .text (.required "name" .text .done))
    (fun k => (k.project, k.name, ())) (fun (p, n, ()) => ⟨p, n⟩)

end Key

end Drayage
