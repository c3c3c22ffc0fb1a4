import Drayage.Proofs.Resource.Wire
import Drayage.Proofs.Text.Bytes
import Mathlib.Data.List.Forall2
import Mathlib.Data.List.Induction

/-!
# References as they come in

References come into a collection from a document or one by one. Whichever way they came, the
collection has the last one for every origin, in the order in which the origins came in first.
Since the first one that comes in by itself, it is named after the Freight it has.
-/

namespace Drayage

namespace References

/-- The last of some references that is from an origin. -/
def latestFor (o : Origin) (rs : List FreightReference) : Option FreightReference :=
  (rs.filter fun r => r.origin = o).getLast?

/-- The origins of some references, in their order. -/
def origins (rs : List FreightReference) : List Origin := rs.map FreightReference.origin

variable {o : Origin}

theorem latestFor_append (rs rs' : List FreightReference) :
    latestFor o (rs ++ rs') = (latestFor o rs').or (latestFor o rs) := by
  rw [latestFor, List.filter_append, List.getLast?_append]
  rfl

theorem latestFor_singleton (r : FreightReference) :
    latestFor o [r] = if r.origin = o then some r else none := by
  by_cases same : r.origin = o <;> simp [latestFor, same]

theorem latestFor_cons (r : FreightReference) (rs : List FreightReference) :
    latestFor o (r :: rs) = (latestFor o rs).or (if r.origin = o then some r else none) := by
  rw [← latestFor_singleton]
  exact latestFor_append [r] rs

theorem get?_upsert (r : FreightReference) (rs : References) :
    get? (upsert r rs) o = if r.origin = o then some r else get? rs o := by
  unfold get?
  induction rs with
  | nil => by_cases same : r.origin = o <;> simp [upsert, same]
  | cons s rs ih =>
    rw [upsert]
    by_cases replaced : s.origin = r.origin
    · by_cases same : r.origin = o <;> simp [replaced, same]
    · rw [if_neg replaced, List.find?_cons, List.find?_cons]
      by_cases found : s.origin = o
      · have unlike : r.origin ≠ o := fun same => replaced (found.trans same.symm)
        simp [found, unlike]
      · simp [found, ih]

theorem get?_gather (rs acc : References) :
    get? (gather rs acc) o = (latestFor o rs).or (get? acc o) := by
  induction rs generalizing acc with
  | nil => rfl
  | cons r rs ih =>
    show get? (gather rs (upsert r acc)) o = _
    rw [ih, get?_upsert, latestFor_cons, Option.or_assoc]
    by_cases same : r.origin = o <;> simp [same]

theorem origin_of_get? {rs : References} {r : FreightReference} (h : get? rs o = some r) :
    r.origin = o := by
  simpa using List.find?_some h

/-! ## The order of the origins -/

theorem origins_append (rs rs' : List FreightReference) :
    origins (rs ++ rs') = origins rs ++ origins rs' := List.map_append

theorem eraseDups_concat (os : List Origin) (o : Origin) :
    (os ++ [o]).eraseDups = if o ∈ os then os.eraseDups else os.eraseDups ++ [o] := by
  rw [List.eraseDups_append]
  by_cases known : o ∈ os <;> simp [List.removeAll, List.eraseDups_cons, known]

theorem origins_upsert (r : FreightReference) (rs : References) :
    origins (upsert r rs) =
      if r.origin ∈ origins rs then origins rs else origins rs ++ [r.origin] := by
  unfold origins
  induction rs with
  | nil => rfl
  | cons s rs ih =>
    rw [upsert]
    by_cases replaced : s.origin = r.origin
    · simp [replaced]
    · have other : r.origin ≠ s.origin := Ne.symm replaced
      rw [if_neg replaced, List.map_cons, ih]
      by_cases known : r.origin ∈ rs.map FreightReference.origin <;> simp [known, other]

theorem gather_append (rs rs' acc : References) :
    gather (rs ++ rs') acc = gather rs' (gather rs acc) := List.foldl_append

/-- The origins stand in the order in which each came in first. -/
theorem origins_gather (rs : List FreightReference) :
    origins (gather rs []) = (origins rs).eraseDups := by
  induction rs using List.reverseRecOn with
  | nil => rfl
  | append_singleton rs r ih =>
    rw [gather_append, origins_append]
    show origins (upsert r (gather rs [])) = (origins rs ++ [r.origin]).eraseDups
    rw [origins_upsert, eraseDups_concat, ih]
    simp only [List.mem_eraseDups]

/-- References from different origins are told by their origins. -/
theorem eq_filterMap_get? {rs : References} (distinct : rs.Distinct) :
    rs = (origins rs).filterMap fun o => get? rs o := by
  unfold origins
  rw [List.filterMap_map]
  have own : ∀ r ∈ rs, get? rs r.origin = some r := by
    induction rs with
    | nil => nofun
    | cons s rs ih =>
      obtain ⟨others, distinct⟩ := List.pairwise_cons.mp distinct
      intro r hr
      unfold get?
      rcases List.mem_cons.mp hr with rfl | hr
      · exact List.find?_cons_of_pos (decide_eq_true rfl)
      · rw [List.find?_cons_of_neg (by simpa using others r hr)]
        exact ih distinct r hr
  conv_lhs => rw [← List.filterMap_some (l := rs)]
  exact List.filterMap_congr fun r hr => (own r hr).symm

/-! ## Names -/

/-- The names of some Freight. -/
def names (rs : References) : List String := rs.map FreightReference.name

/-- A text that has the names of some Freight in the order of their bytes, with commas between
them. -/
def Spells (rs : References) (s : String) : Prop :=
  ∃ sorted : List String, sorted.Perm rs.names ∧ Text.Ascending sorted ∧ s = Text.join "," sorted

def sortedNames (rs : References) : List String :=
  rs.names.mergeSort fun a b => (compare a b).isLE

theorem digest_eq (rs : References) : digest rs = Text.join "," rs.sortedNames := rfl

theorem sortedNames_perm (rs : References) : rs.sortedNames.Perm rs.names :=
  List.mergeSort_perm _ _

theorem ascending_sortedNames (rs : References) : Text.Ascending rs.sortedNames :=
  Text.ascending_mergeSort rs.names

/-- There is one text that spells some Freight, its digest. -/
theorem spells_iff {rs : References} {s : String} : rs.Spells s ↔ s = digest rs := by
  constructor
  · rintro ⟨sorted, perm, ascending, rfl⟩
    rw [digest_eq, ascending.eq_of_perm rs.ascending_sortedNames
      (perm.trans rs.sortedNames_perm.symm)]
  · rintro rfl
    exact ⟨rs.sortedNames, rs.sortedNames_perm, rs.ascending_sortedNames, rfl⟩

/-! ## References from documents -/

/-- The references that the members of an object have, whatever the members are called. -/
def Lists : Json → List FreightReference → Prop
  | .record ms, rs => List.Forall₂ (fun m r => FreightReference.codec.read m.2 = .ok r) ms rs
  | _, _ => False

theorem lists_of_readMembers {ms : List (String × Json)} {es : List (String × FreightReference)}
    (h : Codec.readMembers FreightReference.codec ms = .ok es) :
    Lists (.record ms) (es.map Prod.snd) := by
  induction ms generalizing es with
  | nil =>
    cases h
    exact .nil
  | cons m ms ih =>
    obtain ⟨r, first, h⟩ := Codec.ok_of_bind h
    obtain ⟨es, others, h⟩ := Codec.ok_of_bind h
    cases h
    exact .cons first (ih others)

theorem lists_of_read {j : Json} {rs : References} (h : codec.read j = .ok rs) :
    ∃ given, Lists j given ∧ rs = gather given [] := by
  cases j with
  | record ms =>
    rw [read_record] at h
    obtain ⟨es, read, rfl⟩ := Codec.ok_of_map h
    exact ⟨es.map Prod.snd, lists_of_readMembers read, rfl⟩
  | null | bool | number | text | list | fault => cases h

end References

namespace Collection

/-- What a document has for the references of a collection. -/
def freightIn? : Json → Option Json
  | .record ms => Fields.valueOf "freight" ms
  | .list js => js[1]?
  | _ => none

/-- The references that a document gives for a collection, which are none if it does not
mention them. -/
def Gives (j : Json) (rs : List FreightReference) : Prop :=
  match freightIn? j with
  | some k => References.Lists k rs
  | none => rs = []

theorem gives_of_read {j : Json} {c : Collection} (h : codec.read j = .ok c) :
    ∃ given, Gives j given ∧ c.freight = References.gather given [] := by
  obtain ⟨⟨id, freight, verifications⟩, read, rfl⟩ := Codec.ok_of_map h
  have means : Fields.Means References.codec (.standsFor []) freight (freightIn? j) := by
    cases j with
    | record ms => exact (Fields.holds_of_read (by decide) read).2.1
    | list js =>
      have second := (Fields.holdsInTurn_of_read read).2.1
      rwa [List.head?_tail] at second
    | null | bool | number | text | fault => cases read
  unfold Gives
  cases given : freightIn? j with
  | some k =>
    rw [given] at means
    exact References.lists_of_read means
  | none =>
    rw [given] at means
    exact ⟨[], rfl, (Absence.standsFor.inj means).symm⟩

theorem freight_foldl_update (rs : List FreightReference) (c : Collection) :
    (rs.foldl update c).freight = References.gather rs c.freight := by
  induction rs generalizing c with
  | nil => rfl
  | cons r rs ih => exact ih (c.update r)

/-- What comes in last names the collection. -/
theorem id_foldl_update {rs : List FreightReference} (some : rs ≠ []) (c : Collection) :
    (rs.foldl update c).id = References.digest (rs.foldl update c).freight := by
  obtain ⟨rs, r, rfl⟩ := (List.eq_nil_or_concat' rs).resolve_left some
  rw [List.foldl_append]
  rfl

/-- A collection is called after the Freight it has. -/
def Named (c : Collection) : Prop := c.freight.Spells c.id

theorem named_foldl_update {rs : List FreightReference} (some : rs ≠ []) (c : Collection) :
    (rs.foldl update c).Named :=
  References.spells_iff.mpr (id_foldl_update some c)

/-- A collection has one reference for every origin that some references are from, the last
one, and they stand in the order in which the origins came in first. -/
structure Keeps (c : Collection) (history : List FreightReference) : Prop where
  distinct : c.freight.Distinct
  origins : References.origins c.freight = (References.origins history).eraseDups
  get? : ∀ o, c.get? o = References.latestFor o history

theorem keeps_of_gather {c : Collection} {history : List FreightReference}
    (h : c.freight = References.gather history []) : c.Keeps history where
  distinct := h ▸ References.Distinct.gather .nil history
  origins := h ▸ References.origins_gather history
  get? o := by
    rw [get?, h, References.get?_gather]
    exact Option.or_none

/-- What references that come in one by one are put together to. -/
def ofList (rs : List FreightReference) : Collection := rs.foldl update .empty

theorem freight_ofList (rs : List FreightReference) :
    (ofList rs).freight = References.gather rs [] := freight_foldl_update rs .empty

theorem keeps_ofList (rs : List FreightReference) : (ofList rs).Keeps rs :=
  keeps_of_gather (freight_ofList rs)

/-- However a document lists references, and whatever comes in after them, a collection keeps
the last one for every origin, and what comes in names it anew. -/
theorem keeps_of_read {j : Json} {c : Collection} (h : codec.read j = .ok c)
    (updates : List FreightReference) :
    ∃ given, Gives j given ∧ (updates.foldl update c).Keeps (given ++ updates) ∧
      (updates ≠ [] → (updates.foldl update c).Named) := by
  obtain ⟨given, gives, held⟩ := gives_of_read h
  refine ⟨given, gives, keeps_of_gather ?_, fun some => named_foldl_update some c⟩
  rw [freight_foldl_update, held, References.gather_append]

/-- A document that lists three references by names that are not their origins; two of them are
from the same one. -/
def mislabelled : Json :=
  let reference (name origin : String) : Json := .record [("name", .text name),
    ("origin", .record [("kind", .text "Warehouse"), ("name", .text origin)])]
  .record [("id", .text "stale"), ("freight", .record [("Warehouse/north", reference "old" "west"),
    ("second", .list [.text "oak", .list [.text "Warehouse", .text "east"]]),
    ("Warehouse/east", reference "new" "west")])]

/-- What comes in from a new origin goes to the end, and what comes in from a known one takes
its place. -/
theorem keeps_of_mislabelled :
    let held := ofList [.named "new" (.warehouse "west"), .named "oak" (.warehouse "east")]
    let updates := [.named "ash" (.warehouse "south"), .named "elm" (.warehouse "east")]
    codec.read mislabelled = .ok { held with id := "stale" } ∧
      (updates.foldl update { held with id := "stale" }).freight.names = ["new", "elm", "ash"] ∧
      ∃ given, Gives mislabelled given ∧
        (updates.foldl update { held with id := "stale" }).Keeps (given ++ updates) ∧
        (updates ≠ [] → (updates.foldl update { held with id := "stale" }).Named) :=
  ⟨rfl, rfl, keeps_of_read rfl _⟩

end Collection

end Drayage
