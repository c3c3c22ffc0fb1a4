import Drayage.Proofs.Resource.Gathering
import Drayage.Resource.Delivery

/-!
# Deliveries of Freight

What a Stage delivers is fixed by the origins it requests, the record of its last Promotion and
the target. It goes on record in its turn, and the next delivery is built from that. For every
origin that a Stage keeps requesting, it delivers what was promoted from there last, however
many Promotions from other origins came in between. What is not requested goes no further than
the Promotion that brought it.
-/

namespace Drayage

namespace Collection

/-- What a collection has for some requests, in their order. -/
def shareOf (c : Collection) (requests : List FreightRequest) : List FreightReference :=
  requests.filterMap fun request => c.get? request.origin

theorem mem_shareOf {c : Collection} {requests : List FreightRequest} {r : FreightReference}
    (h : r ∈ c.shareOf requests) : r.origin ∈ requests.map FreightRequest.origin := by
  obtain ⟨request, asked, found⟩ := List.mem_filterMap.mp h
  rw [References.origin_of_get? found]
  exact List.mem_map_of_mem asked

theorem shareOf_cons (c : Collection) (request : FreightRequest)
    (requests : List FreightRequest) :
    c.shareOf (request :: requests) = (c.get? request.origin).toList ++ c.shareOf requests := by
  unfold shareOf
  rw [List.filterMap_cons]
  cases c.get? request.origin <;> rfl

theorem origins_shareOf (c : Collection) (requests : List FreightRequest) :
    References.origins (c.shareOf requests) =
      (requests.map FreightRequest.origin).filter fun o => (c.get? o).isSome := by
  induction requests with
  | nil => rfl
  | cons request requests ih =>
    rw [shareOf_cons, References.origins_append, ih, List.map_cons]
    cases found : c.get? request.origin with
    | none => simp [References.origins, found]
    | some r =>
      have own : r.origin = request.origin := References.origin_of_get? found
      simp [References.origins, found, own]

theorem latestFor_get? (c : Collection) (o o' : Origin) :
    References.latestFor o (c.get? o').toList = if o' = o then c.get? o else none := by
  cases found : c.get? o' with
  | none =>
    by_cases same : o' = o
    · rw [if_pos same, ← same, found]
      rfl
    · rw [if_neg same]
      rfl
  | some r =>
    rw [Option.toList_some, References.latestFor_singleton, References.origin_of_get? found]
    by_cases same : o' = o
    · rw [if_pos same, if_pos same, ← same, found]
    · rw [if_neg same, if_neg same]

theorem latestFor_shareOf (c : Collection) (requests : List FreightRequest) (o : Origin) :
    References.latestFor o (c.shareOf requests) =
      if o ∈ requests.map FreightRequest.origin then c.get? o else none := by
  induction requests with
  | nil => rfl
  | cons request requests ih =>
    rw [shareOf_cons, References.latestFor_append, ih, latestFor_get?]
    by_cases same : request.origin = o
    · by_cases again : o ∈ requests.map FreightRequest.origin <;> simp [same, again]
    · have unlike : o ≠ request.origin := fun h => same h.symm
      simp [same, unlike]

end Collection

namespace Stage

/-- The origins that a Stage requests, in the order of its requests. -/
def origins (s : Stage) : List Origin := s.spec.requestedFreight.map FreightRequest.origin

/-- The collection that is on record for the last Promotion. -/
def record? (s : Stage) : Option Collection := do
  let last ← s.status.lastPromotion
  let status ← last.status
  status.collection

/-- What is on record for an origin. -/
def recordFor (s : Stage) (o : Origin) : Option FreightReference :=
  s.record?.bind fun c => c.get? o

variable {s s' : Stage}

/-- What is taken over from the record. -/
def kept (s : Stage) : List FreightReference :=
  match s.record? with
  | some c => c.shareOf s.spec.requestedFreight
  | none => []

/-- What comes in before the target; a Stage with a single request takes nothing over. -/
def handedOn (s : Stage) : List FreightReference := if 1 < s.origins.length then s.kept else []

theorem delivery_eq_ofList (s : Stage) (target : FreightReference) :
    s.delivery target = .ofList (s.handedOn ++ [target]) := by
  have handed : s.handedOn = match s.inherited with
      | some c => c.shareOf s.spec.requestedFreight
      | none => [] := by
    unfold handedOn inherited origins
    rw [List.length_map]
    split <;> rfl
  rw [Collection.ofList, List.foldl_append, handed]
  rfl

theorem keeps_delivery (s : Stage) (target : FreightReference) :
    (s.delivery target).Keeps (s.handedOn ++ [target]) := by
  rw [delivery_eq_ofList]
  exact Collection.keeps_ofList _

theorem latestFor_kept (s : Stage) (o : Origin) :
    References.latestFor o s.kept = if o ∈ s.origins then s.recordFor o else none := by
  unfold kept recordFor
  cases s.record? with
  | none => simp [References.latestFor]
  | some c => exact c.latestFor_shareOf _ o

theorem mem_kept {r : FreightReference} (h : r ∈ s.kept) : r.origin ∈ s.origins := by
  unfold kept at h
  split at h
  · exact Collection.mem_shareOf h
  · cases h

/-- The target for its own origin, and for the others what is on record if they are requested. -/
theorem get?_delivery (several : 1 < s.origins.length) (target : FreightReference)
    (o : Origin) : (s.delivery target).get? o =
      if target.origin = o then some target
      else if o ∈ s.origins then s.recordFor o else none := by
  rw [(s.keeps_delivery target).get?, handedOn, if_pos several, References.latestFor_append,
    References.latestFor_singleton, s.latestFor_kept]
  by_cases own : target.origin = o <;> simp [own]

theorem mem_delivery (several : 1 < s.origins.length) {target r : FreightReference}
    (h : r ∈ (s.delivery target).freight) : r = target ∨ r.origin ∈ s.origins := by
  rw [delivery_eq_ofList, Collection.freight_ofList, handedOn, if_pos several] at h
  rcases References.mem_gather h with h | h
  · cases h
  · rcases List.mem_append.mp h with h | h
    · exact .inr (mem_kept h)
    · exact .inl (List.mem_singleton.mp h)

/-! ## The whole delivery -/

/-- The origins that something is taken over for: those that are requested and on record, each
where it is requested first. -/
def inheritedOrigins (s : Stage) : List Origin :=
  if 1 < s.origins.length then (s.origins.filter fun o => (s.recordFor o).isSome).eraseDups
  else []

theorem origins_kept (s : Stage) :
    References.origins s.kept = s.origins.filter fun o => (s.recordFor o).isSome := by
  unfold kept recordFor
  cases s.record? with
  | none => simp [References.origins]
  | some c => exact c.origins_shareOf _

theorem eraseDups_origins_handedOn (s : Stage) :
    (References.origins s.handedOn).eraseDups = s.inheritedOrigins := by
  unfold handedOn inheritedOrigins
  split
  · rw [origins_kept]
  · rfl

theorem origins_delivery (s : Stage) (target : FreightReference) :
    References.origins (s.delivery target).freight =
      s.inheritedOrigins ++ if target.origin ∈ s.inheritedOrigins then [] else [target.origin] := by
  have known : target.origin ∈ References.origins s.handedOn ↔
      target.origin ∈ s.inheritedOrigins := by
    rw [← eraseDups_origins_handedOn, List.mem_eraseDups]
  rw [(s.keeps_delivery target).origins, References.origins_append]
  show (References.origins s.handedOn ++ [target.origin]).eraseDups = _
  rw [References.eraseDups_concat, eraseDups_origins_handedOn]
  by_cases own : target.origin ∈ s.inheritedOrigins <;> simp [known, own]

theorem get?_delivery_of_inherited {s : Stage} {o : Origin} (h : o ∈ s.inheritedOrigins)
    (target : FreightReference) : (s.delivery target).get? o =
      if o = target.origin then some target else s.recordFor o := by
  unfold inheritedOrigins at h
  split at h
  · rename_i several
    have requested : o ∈ s.origins := (List.mem_filter.mp (List.mem_eraseDups.mp h)).1
    rw [get?_delivery several, if_pos requested]
    simp only [eq_comm]
  · cases h

/-- A Stage delivers what is on record for the origins it requests, where each of them is
requested first, with the target in the place of what is from its own origin, or at the end;
and nothing else. The collection is named after that. -/
theorem freight_delivery (s : Stage) (target : FreightReference) :
    (s.delivery target).freight =
        (s.inheritedOrigins.filterMap fun o =>
          if o = target.origin then some target else s.recordFor o) ++
        (if target.origin ∈ s.inheritedOrigins then [] else [target]) ∧
      (s.delivery target).freight.Distinct ∧ (s.delivery target).Named := by
  have keeps := s.keeps_delivery target
  refine ⟨?_, keeps.distinct, ?_⟩
  · have taken : s.inheritedOrigins.filterMap (s.delivery target).get? =
        s.inheritedOrigins.filterMap fun o =>
          if o = target.origin then some target else s.recordFor o :=
      List.filterMap_congr fun o inherited => get?_delivery_of_inherited inherited target
    have own : (s.delivery target).get? target.origin = some target := by
      rw [keeps.get?, References.latestFor_append, References.latestFor_singleton, if_pos rfl]
      rfl
    have told : (s.delivery target).freight =
        (References.origins (s.delivery target).freight).filterMap (s.delivery target).get? :=
      References.eq_filterMap_get? keeps.distinct
    rw [told, origins_delivery, List.filterMap_append, taken]
    by_cases known : target.origin ∈ s.inheritedOrigins <;> simp [known, own]
  · rw [delivery_eq_ofList]
    exact Collection.named_foldl_update (List.concat_ne_nil target s.handedOn) .empty

/-! ## Many deliveries -/

/-- A Stage after a Promotion: it requests the same origins, and what was delivered is on
record. Everything else about it may be different. -/
structure Receives (s : Stage) (target : FreightReference) (s' : Stage) : Prop where
  origins : s'.origins = s.origins
  record : s'.record? = some (s.delivery target)

/-- A Stage after some Promotions, one after another. -/
inductive ReceivesAll (s : Stage) : List FreightReference → Stage → Prop where
  | none : ReceivesAll s [] s
  | next {targets : List FreightReference} {target : FreightReference} {s' s'' : Stage}
      (before : ReceivesAll s targets s') (receives : s'.Receives target s'') :
      ReceivesAll s (targets ++ [target]) s''

variable {targets : List FreightReference}

theorem ReceivesAll.origins (h : s.ReceivesAll targets s') : s'.origins = s.origins := by
  induction h with
  | none => rfl
  | next before receives ih => exact receives.origins.trans ih

/-- For an origin that is requested, the last Freight that was promoted from there is on
record, or else what was on record to begin with. -/
theorem ReceivesAll.recordFor (several : 1 < s.origins.length) (h : s.ReceivesAll targets s')
    {o : Origin} (requested : o ∈ s.origins) :
    s'.recordFor o = (References.latestFor o targets).or (s.recordFor o) := by
  induction h with
  | none => rfl
  | @next targets target s' s'' before receives ih =>
    rw [← before.origins] at several requested
    rw [Stage.recordFor, receives.record, Option.bind_some, get?_delivery several,
      if_pos requested, ih, References.latestFor_append, References.latestFor_singleton]
    by_cases own : target.origin = o <;> simp [own]

/-- However many Promotions a Stage with several requests has been through, the next one
delivers for every origin that is requested the last Freight from there, and nothing from
other origins but its own target. -/
theorem get?_delivery_of_receivesAll (several : 1 < s.origins.length)
    (h : s.ReceivesAll targets s') (target : FreightReference) (o : Origin) :
    (o ∈ s.origins → (s'.delivery target).get? o =
      (References.latestFor o (targets ++ [target])).or (s.recordFor o)) ∧
    (o ∉ s.origins →
      (s'.delivery target).get? o = (if target.origin = o then some target else none) ∧
        ∀ r ∈ (s'.delivery target).freight, r.origin = o → r = target) := by
  have same := h.origins
  have several' : 1 < s'.origins.length := same ▸ several
  rw [get?_delivery several', same]
  refine ⟨fun requested => ?_, fun unrequested => ⟨?_, fun r hr from_o => ?_⟩⟩
  · rw [if_pos requested, h.recordFor several requested, References.latestFor_append,
      References.latestFor_singleton]
    by_cases own : target.origin = o <;> simp [own]
  · rw [if_neg unrequested]
  · refine (mem_delivery several' hr).resolve_right fun requested => unrequested ?_
    rwa [from_o, same] at requested

/-- A Stage with a collection on record for its last Promotion. -/
def withRecord (s : Stage) (c : Collection) : Stage :=
  let last := { PromotionReference.named "last" with
    status := some { PromotionStatus.initial with collection := some c } }
  { s with status := { s.status with lastPromotion := some last } }

theorem receives_withRecord (s : Stage) (target : FreightReference) :
    s.Receives target (s.withRecord (s.delivery target)) := ⟨rfl, rfl⟩

def freightFrom (name origin : String) : FreightReference := .named name (.warehouse origin)

/-- It requests three origins, and holds Freight from two of them and from one it does not
request any more. -/
def threeOrigins : Stage :=
  let requests := ["a", "b", "c"].map fun name => FreightRequest.direct (.warehouse name)
  let held := [freightFrom "f1" "a", freightFrom "f2" "b", freightFrom "f3" "d"]
  (Stage.fresh (.fresh "demo" "prod" default) ⟨requests, none⟩).withRecord
    (held.foldl Collection.update .empty)

/-- After Freight from `a` and from `d` comes some from `c`: that from `b` is still there, and
that from `d` is not. -/
theorem get?_delivery_of_threeOrigins : ∃ (s s' : Stage) (targets : List FreightReference)
    (target : FreightReference), 1 < s.origins.length ∧ s.ReceivesAll targets s' ∧
      (["a", "b", "c", "d"].map fun name => (s'.delivery target).get? (.warehouse name)) =
        [some (freightFrom "f4" "a"), some (freightFrom "f2" "b"), some (freightFrom "f6" "c"),
          none] ∧
      ∀ o, (o ∈ s.origins → (s'.delivery target).get? o =
          (References.latestFor o (targets ++ [target])).or (s.recordFor o)) ∧
        (o ∉ s.origins →
          (s'.delivery target).get? o = (if target.origin = o then some target else none) ∧
            ∀ r ∈ (s'.delivery target).freight, r.origin = o → r = target) := by
  have several : 1 < threeOrigins.origins.length := by decide
  have received := (ReceivesAll.none.next (receives_withRecord threeOrigins
    (freightFrom "f4" "a"))).next (receives_withRecord _ (freightFrom "f5" "d"))
  exact ⟨_, _, _, freightFrom "f6" "c", several, received, by decide +kernel,
    get?_delivery_of_receivesAll several received (freightFrom "f6" "c")⟩

end Stage

end Drayage
