import Drayage.Proofs.Resource.Gathering
import Drayage.Proofs.Text.Cutting

/-!
# What the name of a collection tells

A collection is named after its Freight, to be told from collections of other Freight. The name
does not depend on the order in which the Freight came in. But it holds names between commas,
and a name may have commas itself, so what it tells is the names cut at their commas. Where no
name has one, these are the names.
-/

namespace Drayage

namespace References

variable {rs rs' : References}

/-- What is left of the names of some Freight, in ascending order, if they are cut at their
commas. -/
def pieces (rs : References) : List (List Char) :=
  rs.sortedNames.flatMap fun name => Text.splitAt ',' name.toList

/-- Freight without a comma in any name. -/
def Simple (rs : References) : Prop := ∀ name ∈ rs.names, ',' ∉ name.toList

theorem sortedNames_ne_nil (some : rs ≠ []) : rs.sortedNames ≠ [] := by
  intro none
  have same := rs.sortedNames_perm.length_eq
  rw [none, names, List.length_map] at same
  exact some (List.eq_nil_of_length_eq_zero same.symm)

/-- Sorted, the same names come to the same list. -/
theorem sortedNames_eq_iff : rs.sortedNames = rs'.sortedNames ↔ rs.names.Perm rs'.names := by
  constructor
  · intro same
    exact rs.sortedNames_perm.symm.trans (same ▸ rs'.sortedNames_perm)
  · intro same
    have perm := rs.sortedNames_perm.trans (same.trans rs'.sortedNames_perm.symm)
    exact rs.ascending_sortedNames.eq_of_perm rs'.ascending_sortedNames perm

/-- Freight is named alike if and only if the names have the same pieces. -/
theorem digest_eq_iff (some : rs ≠ []) (some' : rs' ≠ []) :
    digest rs = digest rs' ↔ rs.pieces = rs'.pieces := by
  have single : ",".toList = [','] := rfl
  unfold pieces
  rw [← Text.splitAt_join single (sortedNames_ne_nil some),
    ← Text.splitAt_join single (sortedNames_ne_nil some'), Text.splitAt_inj, String.toList_inj,
    digest_eq, digest_eq]

theorem pieces_of_simple (simple : rs.Simple) : rs.pieces = rs.sortedNames.map String.toList := by
  have whole : ∀ name ∈ rs.sortedNames, Text.splitAt ',' name.toList = [name.toList] :=
    fun name h => Text.splitAt_of_notMem (simple name (rs.sortedNames_perm.mem_iff.mp h))
  calc rs.pieces = rs.sortedNames.flatMap fun name => [name.toList] :=
        List.flatMap_congr whole
    _ = rs.sortedNames.map String.toList := List.flatMap_pure_eq_map _ _

/-- Of Freight without commas the pieces tell the names. -/
theorem perm_of_pieces (simple : rs.Simple) (simple' : rs'.Simple)
    (same : rs.pieces = rs'.pieces) : rs.names.Perm rs'.names := by
  rw [pieces_of_simple simple, pieces_of_simple simple'] at same
  exact sortedNames_eq_iff.mp (List.map_injective_iff.mpr (fun _ _ => String.toList_injective) same)

theorem gather_ne_nil {rs : List FreightReference} (some : rs ≠ []) : gather rs [] ≠ [] := by
  obtain ⟨r, rest, rfl⟩ := List.exists_cons_of_ne_nil some
  have there : r.origin ∈ origins (gather (r :: rest) []) := by
    rw [origins_gather, List.mem_eraseDups]
    exact List.mem_cons_self
  intro none
  rw [none] at there
  cases there

end References

namespace Collection

variable {rs rs' : List FreightReference}

theorem freight_ofList_ne_nil (some : rs ≠ []) : (ofList rs).freight ≠ [] := by
  rw [freight_ofList]
  exact References.gather_ne_nil some

/-- Names of different Freight that have the same pieces. -/
def Confused (c d : Collection) : Prop :=
  c.freight.pieces = d.freight.pieces ∧ ¬ c.freight.names.Perm d.freight.names

theorem id_ofList_eq_iff (some : rs ≠ []) (some' : rs' ≠ []) :
    (ofList rs).id = (ofList rs').id ↔ (ofList rs).freight.pieces = (ofList rs').freight.pieces := by
  unfold ofList
  rw [id_foldl_update some, id_foldl_update some']
  exact References.digest_eq_iff (freight_ofList_ne_nil some) (freight_ofList_ne_nil some')

theorem pieces_eq_of_perm {c d : Collection} (h : c.freight.names.Perm d.freight.names) :
    c.freight.pieces = d.freight.pieces := by
  unfold References.pieces
  rw [References.sortedNames_eq_iff.mpr h]

/-- The ids of two collections tell whether they have the same Freight, unless the pieces of its
names are the same for different Freight. For that, some name must have a comma. -/
theorem identified_iff_not_confused (some : rs ≠ []) (some' : rs' ≠ []) :
    (((ofList rs).id = (ofList rs').id ↔
        (ofList rs).freight.names.Perm (ofList rs').freight.names) ↔
      ¬ Confused (ofList rs) (ofList rs')) ∧
    ((ofList rs).freight.Simple → (ofList rs').freight.Simple →
      ¬ Confused (ofList rs) (ofList rs')) := by
  constructor
  · rw [id_ofList_eq_iff some some']
    constructor
    · rintro told ⟨same, other⟩
      exact other (told.mp same)
    · intro clear
      exact ⟨fun same => by_contra fun other => clear ⟨same, other⟩, pieces_eq_of_perm⟩
  · rintro simple simple' ⟨same, other⟩
    exact other (References.perm_of_pieces simple simple' same)

theorem id_ofList_of_spells {s : String} (some : rs ≠ []) (spells : (ofList rs).freight.Spells s) :
    (ofList rs).id = s :=
  (id_foldl_update some .empty).trans (References.spells_iff.mp spells).symm

/-- Some Freight from an origin. -/
def arrival (name origin : String) : FreightReference := .named name (.warehouse origin)

/-- The same names in another order, one of them after a replacement. -/
theorem identified_of_reordered :
    let rs := [arrival "f3" "a", arrival "f1" "b", arrival "f2" "a"]
    let rs' := [arrival "f1" "b", arrival "f2" "c"]
    rs ≠ [] ∧ rs' ≠ [] ∧ (ofList rs).id = "f1,f2" ∧ (ofList rs').id = "f1,f2" ∧
      (((ofList rs).id = (ofList rs').id ↔
          (ofList rs).freight.names.Perm (ofList rs').freight.names) ↔
        ¬ Confused (ofList rs) (ofList rs')) ∧
      ((ofList rs).freight.Simple → (ofList rs').freight.Simple →
        ¬ Confused (ofList rs) (ofList rs')) := by
  have ascending : Text.Ascending ["f1", "f2"] := by
    unfold Text.Ascending
    decide +kernel
  refine ⟨nofun, nofun, ?_, ?_, identified_iff_not_confused nofun nofun⟩
  · exact id_ofList_of_spells nofun ⟨["f1", "f2"], by decide, ascending, by decide⟩
  · exact id_ofList_of_spells nofun ⟨["f1", "f2"], by decide, ascending, by decide⟩

/-- A reference on the wire. -/
def written (name origin : String) : Json := .record [("name", .text name),
  ("origin", .record [("kind", .text "Warehouse"), ("name", .text origin)])]

/-- One reference with a comma in its name, and two without: the wire admits them, and the
collections of one and of the other have the same id. -/
theorem mistaken_for_another :
    FreightReference.codec.read (written "a,b" "x") = .ok (arrival "a,b" "x") ∧
      FreightReference.codec.read (written "a" "x") = .ok (arrival "a" "x") ∧
      FreightReference.codec.read (written "b" "y") = .ok (arrival "b" "y") ∧
      ¬ ((ofList [arrival "a,b" "x"]).id = (ofList [arrival "a" "x", arrival "b" "y"]).id ↔
        (ofList [arrival "a,b" "x"]).freight.names.Perm
          (ofList [arrival "a" "x", arrival "b" "y"]).freight.names) := by
  have ascending : Text.Ascending ["a", "b"] := by
    unfold Text.Ascending
    decide +kernel
  have one : (ofList [arrival "a,b" "x"]).id = "a,b" :=
    id_ofList_of_spells nofun ⟨["a,b"], .refl _, List.pairwise_singleton _ _, rfl⟩
  have two : (ofList [arrival "a" "x", arrival "b" "y"]).id = "a,b" :=
    id_ofList_of_spells nofun ⟨["a", "b"], .refl _, ascending, by decide⟩
  refine ⟨rfl, rfl, rfl, fun told => ?_⟩
  cases (told.mp (one.trans two.symm)).length_eq

end Collection

end Drayage
