import Drayage.Proofs.Controller.Fallback
import Drayage.Proofs.Text.Cutting

/-!
# Who is named for an end

Every notice of an end should name somebody: whoever asked for the abort, else whoever
created the Promotion, and the controller where nobody is known. The annotation of the
creator may carry a tag before the name. If there is a tag but nobody behind it, the
controller does not step in.
-/

namespace Drayage

namespace Annotations

variable {annotations : Dict String String} {value name : String}

/-- Whom a text names: if it has just one colon, what follows the colon, and otherwise all
of it. -/
inductive Names : String → String → Prop where
  | tagged (tag name : String) (bare : ':' ∉ tag.toList) (simple : ':' ∉ name.toList) :
      Names (tag ++ ":" ++ name) name
  | whole (value : String) (other : value.toList.count ':' ≠ 1) : Names value value

theorem toList_tagged (tag name : String) :
    (tag ++ ":" ++ name).toList = tag.toList ++ ':' :: name.toList := by
  rw [String.toList_append, String.toList_append, List.append_assoc]
  rfl

theorem count_tagged {tag : String} (bare : ':' ∉ tag.toList) (simple : ':' ∉ name.toList) :
    (tag ++ ":" ++ name).toList.count ':' = 1 := by
  rw [toList_tagged, List.count_append, List.count_cons_self, List.count_eq_zero.mpr bare,
    List.count_eq_zero.mpr simple]

theorem exists_names (value : String) : ∃ name, Names value name := by
  by_cases one : value.toList.count ':' = 1
  · obtain ⟨tag, name, chars, bare, simple⟩ := Text.exists_pair_of_count one
    have tagged : value = String.ofList tag ++ ":" ++ String.ofList name := by
      apply String.toList_inj.mp
      rw [chars, toList_tagged, String.toList_ofList, String.toList_ofList]
    rw [tagged]
    exact ⟨_, .tagged _ _ (by rwa [String.toList_ofList]) (by rwa [String.toList_ofList])⟩
  · exact ⟨value, .whole value one⟩

/-- A text names one only. -/
theorem Names.unique {other : String} (h : Names value name) (h' : Names value other) :
    name = other := by
  cases h with
  | tagged tag name bare simple =>
    generalize same : tag ++ ":" ++ name = value at h'
    cases h' with
    | tagged tag' name' bare' simple' =>
      have parts : [tag.toList, name.toList] = [tag'.toList, other.toList] := by
        rw [← Text.splitAt_pair bare simple, ← Text.splitAt_pair bare' simple',
          ← toList_tagged, ← toList_tagged, same]
      exact String.toList_inj.mp (List.cons.inj (List.cons.inj parts).2).1
    | whole value several =>
      rw [← same, count_tagged bare simple] at several
      exact absurd rfl several
  | whole value several =>
    generalize same : value = value' at h'
    cases h' with
    | tagged tag name bare simple =>
      rw [same, count_tagged bare simple] at several
      exact absurd rfl several
    | whole => rfl

/-- Nobody goes by this name. -/
def Nobody (name : String) : Prop := name = "" ∨ name = unknownActor

/-- The annotation of the creator names somebody. -/
def CreatedBy (annotations : Dict String String) (name : String) : Prop :=
  ∃ value, annotations.get? creatorKey = some value ∧ Names value name ∧ ¬ Nobody name

/-- The annotation of the creator has a tag, but nobody behind it. -/
def TagsNobody (annotations : Dict String String) (name : String) : Prop :=
  Nobody name ∧ ∃ tag, ':' ∉ tag.toList ∧
    annotations.get? creatorKey = some (tag ++ ":" ++ name)

theorem Nobody.simple (h : Nobody name) : ':' ∉ name.toList := by
  rcases h with rfl | rfl <;> decide

theorem creator_of_tagged {tag : String} (stored : annotations.get? creatorKey =
    some (tag ++ ":" ++ name)) (bare : ':' ∉ tag.toList) (simple : ':' ∉ name.toList) :
    creator annotations = some name := by
  have parts : Text.splitAt ':' (tag ++ ":" ++ name).toList = [tag.toList, name.toList] := by
    rw [toList_tagged, Text.splitAt_pair bare simple]
  unfold creator
  simp only [stored, Option.bind_eq_bind, Option.bind_some, parts, String.ofList_toList]

theorem creator_of_whole (stored : annotations.get? creatorKey = some value)
    (other : value.toList.count ':' ≠ 1) :
    creator annotations = if value = unknownActor ∨ value.isEmpty then none else some value := by
  unfold creator
  simp only [stored, Option.bind_eq_bind, Option.bind_some]
  split
  · rename_i tag name parts
    have length := Text.length_splitAt ':' value.toList
    rw [parts] at length
    exact absurd (Nat.succ.inj length).symm other
  · rfl

theorem not_tagsNobody_of_createdBy {nobody : String} (h : CreatedBy annotations name) :
    ¬ TagsNobody annotations nobody := by
  rintro ⟨unnamed, tag, bare, stored⟩
  obtain ⟨value, known, names, named⟩ := h
  cases stored.symm.trans known
  exact named (names.unique (.tagged tag nobody bare unnamed.simple) ▸ unnamed)

theorem TagsNobody.unique {other : String} (h : TagsNobody annotations name)
    (h' : TagsNobody annotations other) : name = other := by
  obtain ⟨nobody, tag, bare, stored⟩ := h
  obtain ⟨nobody', tag', bare', stored'⟩ := h'
  have same : tag ++ ":" ++ name = tag' ++ ":" ++ other :=
    Option.some.inj (stored.symm.trans stored')
  exact Names.unique (.tagged tag name bare nobody.simple)
    (same ▸ .tagged tag' other bare' nobody'.simple)

/-- What is read of the annotation of the creator. -/
inductive Reads (annotations : Dict String String) : Option String → Prop where
  | creator (name : String) (known : CreatedBy annotations name) : Reads annotations (some name)
  | nobody (name : String) (nobody : TagsNobody annotations name) :
      Reads annotations (some name)
  | unknown (unknown : ∀ name, ¬ CreatedBy annotations name)
      (untagged : ∀ name, ¬ TagsNobody annotations name) : Reads annotations none

theorem reads_creator (annotations : Dict String String) :
    Reads annotations (creator annotations) := by
  cases stored : annotations.get? creatorKey with
  | none =>
    have unread : creator annotations = none := by
      unfold creator
      rw [stored]
      rfl
    rw [unread]
    refine .unknown ?_ ?_
    · rintro name ⟨value, known, _⟩
      cases stored.symm.trans known
    · rintro name ⟨_, tag, _, known⟩
      cases stored.symm.trans known
  | some value =>
    obtain ⟨name, names⟩ := exists_names value
    cases names with
    | tagged tag name bare simple =>
      rw [creator_of_tagged stored bare simple]
      by_cases nobody : Nobody name
      · exact .nobody name ⟨nobody, tag, bare, stored⟩
      · exact .creator name ⟨_, stored, .tagged tag name bare simple, nobody⟩
    | whole value several =>
      rw [creator_of_whole stored several]
      split
      · rename_i unnamed
        have unnamed : Nobody value := unnamed.symm.imp_left String.isEmpty_iff.mp
        refine .unknown ?_ ?_
        · rintro name ⟨value', known, names, named⟩
          cases stored.symm.trans known
          exact named (names.unique (.whole value several) ▸ unnamed)
        · rintro name ⟨nobody, tag, bare, tagged⟩
          cases stored.symm.trans tagged
          exact several (count_tagged bare nobody.simple)
      · rename_i named
        refine .creator value ⟨value, stored, .whole value several, fun unnamed => named ?_⟩
        exact unnamed.symm.imp_right String.isEmpty_iff.mpr

end Annotations

namespace Notice

/-- Who is named by a notice. -/
def actor? (n : Notice) : Option String := n.annotations.get? actorKey

theorem actor?_about (m : Metadata) (annotations : Dict String String) (severity : Severity)
    (reason message : String) :
    (about m annotations severity reason message).actor? = annotations.get? actorKey := rfl

theorem get?_annotationsFor (defaultActor : Option String) (p : Promotion)
    (freight : Option Freight) :
    (annotationsFor defaultActor p freight).get? actorKey = actorOf p defaultActor := by
  have artifacts_ne {α : Type} {key : String} {codec : Codec α} {items : List α}
      (other : key ≠ actorKey) : ∀ e ∈ artifacts key codec items, e.1 ≠ actorKey := by
    intro e he
    unfold artifacts at he
    split at he
    · cases he
    · cases List.mem_singleton.mp he
      exact other
  unfold annotationsFor Dict.ofList
  rw [List.foldl_append, Dict.get?_foldl_insert_of_forall_ne, List.foldl_append]
  · cases actorOf p defaultActor with
    | none =>
      rw [Option.map_none, Option.toList_none, List.foldl_nil,
        Dict.get?_foldl_insert_of_forall_ne, Dict.get?_empty]
      simp [projectKey, promotionKey, createTimeKey, stageKey, freightKey, actorKey]
    | some actor => simp [Dict.get?_insert]
  · cases freight with
    | none => exact fun e he => by cases he
    | some f =>
      intro e he
      simp only [List.mem_append] at he
      rcases he with ((he | he) | he) | he
      · obtain ⟨name, _, rfl⟩ := Option.map_eq_some_iff.mp (Option.mem_toList.mp he)
        show nicknameKey ≠ actorKey
        decide
      · exact artifacts_ne (by decide) e he
      · exact artifacts_ne (by decide) e he
      · exact artifacts_ne (by decide) e he

end Notice

namespace Reconciler

open Program Annotations

variable (c : Reconciler) {p : Promotion} {stage : Stage} {freight : Option Freight}
  {request : AbortRequest} {key : Key} {replies : List Reply} {e : Ending} {n : Notice}

/-- Who is to be named for a resource: its creator, and the controller if the creator is not
known. -/
inductive Owner (annotations : Dict String String) : String → Prop where
  | creator (name : String) (known : CreatedBy annotations name) : Owner annotations name
  | controller (unknown : ∀ name, ¬ CreatedBy annotations name) : Owner annotations c.actor

theorem actor_toList : c.actor.toList = "controller:".toList ++ c.config.name.toList :=
  String.toList_append

theorem not_nobody_actor : ¬ Nobody c.actor := by
  rintro (empty | unknown)
  · have chars := c.actor_toList
    rw [empty] at chars
    cases chars
  · have chars := c.actor_toList
    rw [unknown] at chars
    cases chars

variable {c} in
theorem Owner.ne_empty {annotations : Dict String String} {name : String}
    (h : c.Owner annotations name) : name ≠ "" := by
  cases h with
  | creator name known =>
    obtain ⟨_, _, _, named⟩ := known
    exact fun empty => named (.inl empty)
  | controller unknown => exact fun empty => c.not_nobody_actor (.inl empty)

/-- A notice names the owner of a Promotion, unless the annotation of its creator has a tag
with nobody behind it. What stands behind the tag is named then, or nothing if it is empty. -/
structure NamesOwner (p : Promotion) (n : Notice) : Prop where
  owner_iff : (∃ actor, n.actor? = some actor ∧ actor ≠ "" ∧
    c.Owner p.metadata.annotations actor) ↔ ∀ name, ¬ TagsNobody p.metadata.annotations name
  tagged : ∀ name, TagsNobody p.metadata.annotations name →
    n.actor? = if name = "" then none else some name

/-- A notice names whoever asked for an abort, and the controller if nobody is named. -/
structure NamesRequester (request : AbortRequest) (n : Notice) : Prop where
  named : ∃ actor, n.actor? = some actor ∧ actor ≠ ""
  requester : ∀ actor, request.actor = some actor → actor ≠ "" → n.actor? = some actor
  controller : request.actor = none ∨ request.actor = some "" → n.actor? = some c.actor

theorem namesOwner_of_actorOf (h : n.actor? = Notice.actorOf p (some c.actor)) :
    c.NamesOwner p n := by
  unfold Notice.actorOf at h
  have reads := reads_creator p.metadata.annotations
  generalize creator p.metadata.annotations = told at reads h
  cases reads with
  | creator name known =>
    have owner : c.Owner p.metadata.annotations name := .creator name known
    have named : n.actor? = some name := by
      rw [h, Option.some_or, Option.filter_some, if_pos (by simpa using owner.ne_empty)]
    have untagged : ∀ name, ¬ TagsNobody p.metadata.annotations name :=
      fun _ => not_tagsNobody_of_createdBy known
    exact ⟨iff_of_true ⟨name, named, owner.ne_empty, owner⟩ untagged,
      fun name tagged => absurd tagged (untagged name)⟩
  | unknown unknown untagged =>
    have owner : c.Owner p.metadata.annotations c.actor := .controller unknown
    have named : n.actor? = some c.actor := by
      rw [h, Option.none_or, Option.filter_some, if_pos (by simpa using owner.ne_empty)]
    exact ⟨iff_of_true ⟨c.actor, named, owner.ne_empty, owner⟩ untagged,
      fun name tagged => absurd tagged (untagged name)⟩
  | nobody name tagged =>
    have named : n.actor? = if name = "" then none else some name := by
      rw [h, Option.some_or, Option.filter_some]
      by_cases empty : name = ""
      · rw [if_pos empty, if_neg (by simpa using empty)]
      · rw [if_neg empty, if_pos (by simpa using empty)]
    refine ⟨iff_of_false ?_ fun untagged => untagged name tagged, fun name' tagged' => ?_⟩
    · rintro ⟨actor, names, _, owner⟩
      cases owner with
      | creator actor known => exact not_tagsNobody_of_createdBy known tagged
      | controller unknown =>
        rw [names] at named
        split at named
        · cases named
        · exact c.not_nobody_actor (Option.some.inj named ▸ tagged.1)
    · rw [← tagged.unique tagged', named]

theorem namesOwner_of_endNotice {s : PromotionStatus}
    (h : c.endNotice p stage freight s = some n) : c.NamesOwner p n := by
  apply c.namesOwner_of_actorOf
  unfold endNotice at h
  simp only [Option.bind_eq_bind, Option.bind_eq_some_iff, Option.pure_def, Option.some.injEq] at h
  obtain ⟨phase, _, reason, _, rfl⟩ := h
  rw [Notice.actor?_about, ← Notice.get?_annotationsFor _ p freight]
  split
  · rw [Dict.get?_insert, if_neg (by decide)]
  · rfl

theorem actorFor_ne_empty (request : AbortRequest) : request.actorFor c.config.name ≠ "" := by
  unfold AbortRequest.actorFor
  cases asked : request.actor.filter fun actor => !actor.isEmpty with
  | none => exact fun empty => c.not_nobody_actor (.inl empty)
  | some actor => simpa using (Option.filter_eq_some_iff.mp asked).2

theorem namesRequester_of_actorFor (h : n.actor? = some (request.actorFor c.config.name)) :
    c.NamesRequester request n where
  named := ⟨_, h, c.actorFor_ne_empty request⟩
  requester actor named present := by
    rw [h, AbortRequest.actorFor, named, Option.filter_some, if_pos (by simpa using present)]
    rfl
  controller unnamed := by
    rw [h, AbortRequest.actorFor]
    rcases unnamed with unnamed | unnamed <;> (rw [unnamed]; rfl)

theorem namesRequester_of_terminate {r : Except ReconcileError Unit}
    (course : (c.terminate request p freight).Course replies r)
    (emitted : n ∈ replies.filterMap Reply.emitted?) : c.NamesRequester request n := by
  unfold terminate at course
  split at course
  · obtain ⟨rfl, _⟩ := course_pure.mp course
    cases emitted
  · obtain ⟨now, rest, rfl, writing⟩ := course_request.mp course
    obtain ⟨a, rest, rfl, written⟩ := course_request.mp writing
    cases a with
    | error err =>
      obtain ⟨rfl, _⟩ := course_pure.mp written
      cases emitted
    | ok v =>
      obtain ⟨a, rest, rfl, released⟩ := course_request.mp written
      obtain ⟨_, rest, rfl, told⟩ := course_request.mp released
      obtain ⟨rfl, _⟩ := course_pure.mp told
      cases List.mem_singleton.mp emitted
      apply c.namesRequester_of_actorFor
      rw [Notice.actor?_about, Dict.get?_insert, if_pos Std.ReflCmp.compare_self]

theorem NamesOwner.congr {c : Reconciler} {q : Promotion} (h : c.NamesOwner q n)
    (same : q.metadata.annotations = p.metadata.annotations) : c.NamesOwner p n where
  owner_iff := same ▸ h.owner_iff
  tagged := same ▸ h.tagged

theorem namesOwner_of_executes {initial : Option Phase}
    (h : c.Executes p stage freight initial replies e)
    (emitted : n ∈ replies.filterMap Reply.emitted?) : c.NamesOwner p n := by
  cases h with
  | refused err promotes drafts stamps persists =>
    simp only [List.filterMap_append, promotes.unannounced, drafts.unannounced,
      stamps.unannounced, persists.unannounced, List.append_nil, List.not_mem_nil] at emitted
  | concluded promotes drafts stamps persists concludes =>
    simp only [List.filterMap_append, promotes.unannounced, drafts.unannounced,
      stamps.unannounced, persists.unannounced, concludes.emitted, List.nil_append,
      Option.mem_toList, closing] at emitted
    split at emitted
    · exact c.namesOwner_of_endNotice emitted
    · cases emitted

theorem namesOwner_of_approaches (h : c.Approaches key p freight replies e)
    (emitted : n ∈ replies.filterMap Reply.emitted?) : c.NamesOwner p n := by
  cases h with
  | blind | stageless | parked | refused => cases emitted
  | admitted stage named begins executes =>
    rename_i start rest q
    have emitted : n ∈ (start ++ rest).filterMap Reply.emitted? := emitted
    rw [List.filterMap_append, begins.unannounced] at emitted
    exact (c.namesOwner_of_executes executes emitted).congr begins.keeps.annotations

/-- What is emitted is emitted once the Promotion was read and found open. -/
theorem proceeds_of_emitted (course : (c.reconcile key).Course replies e)
    (emitted : n ∈ replies.filterMap Reply.emitted?) : ∃ p freight rest,
      replies.findSome? Reply.read? = some p ∧ (c.proceed key p freight).Course rest e ∧
        n ∈ rest.filterMap Reply.emitted? := by
  unfold reconcile at course
  obtain ⟨a, rest, rfl, reading⟩ := course_request.mp course
  rcases a with err | _ | p
  · obtain ⟨rfl, _⟩ := course_pure.mp reading
    cases emitted
  · obtain ⟨rfl, _⟩ := course_pure.mp reading
    cases emitted
  · dsimp only at reading
    split at reading
    · obtain ⟨rfl, _⟩ := course_pure.mp reading
      cases emitted
    · obtain ⟨a, rest, rfl, proceeding⟩ := course_request.mp reading
      cases a with
      | error err =>
        obtain ⟨rfl, _⟩ := course_pure.mp proceeding
        cases emitted
      | ok freight => exact ⟨p, freight, rest, rfl, proceeding, emitted⟩

/-- A notice of a reconcile is one of the abort that was asked for, or else of an end that the
Promotion has come to. -/
theorem names_of_reconcile (course : (c.reconcile key).Course replies e)
    (emitted : n ∈ replies.filterMap Reply.emitted?) : ∃ p,
      replies.findSome? Reply.read? = some p ∧
        (p.Unaborted ∧ c.NamesOwner p n ∨ ∃ request,
          Annotations.abortRequest p.metadata.annotations = .ok (some request) ∧
            c.NamesRequester request n) := by
  obtain ⟨p, freight, rest, read, proceeding, emitted⟩ := c.proceeds_of_emitted course emitted
  refine ⟨p, read, ?_⟩
  rcases unaborted_or_asked p with unaborted | ⟨request, asked⟩
  · rw [c.proceed_of_unaborted key freight unaborted] at proceeding
    refine .inl ⟨unaborted, ?_⟩
    split at proceeding
    · exact c.namesOwner_of_approaches (c.approaches_of_course proceeding) emitted
    · obtain ⟨_, r, rest, written, approaching, rfl⟩ := course_bind.mp proceeding
      rcases course_writeStatus written with ⟨v, rfl, rfl⟩ | ⟨err, rfl, rfl⟩
      · exact (c.namesOwner_of_approaches (c.approaches_of_course approaching) emitted).congr rfl
      · obtain ⟨rfl, _⟩ := course_pure.mp approaching
        cases emitted
  · unfold proceed at proceeding
    rw [asked] at proceeding
    obtain ⟨front, r, back, terminating, returning, rfl⟩ := course_bind.mp proceeding
    have last : back = [] := by
      cases r with
      | error err => exact (course_pure.mp returning).1
      | ok _ => exact (course_pure.mp returning).1
    rw [last, List.append_nil] at emitted
    exact .inr ⟨request, asked, c.namesRequester_of_terminate terminating emitted⟩

/-- Whom the notices of ends name, whatever the annotations are. -/
structure Attributes : Prop where
  announced : ∀ p stage freight s, s.isTerminal = true →
    ∃ n, c.endNotice p stage freight s = some n
  ended : ∀ p stage freight s n, c.endNotice p stage freight s = some n → c.NamesOwner p n
  terminated : ∀ request p freight replies r,
    (c.terminate request p freight).Course replies r →
      ∀ n ∈ replies.filterMap Reply.emitted?, c.NamesRequester request n
  reconciled : ∀ key replies e, (c.reconcile key).Course replies e →
    ∀ n ∈ replies.filterMap Reply.emitted?, ∃ p, replies.findSome? Reply.read? = some p ∧
      (p.Unaborted ∧ c.NamesOwner p n ∨ ∃ request,
        Annotations.abortRequest p.metadata.annotations = .ok (some request) ∧
          c.NamesRequester request n)

/-- An abort is put down to whoever asked for it or to the controller, any other end to the
owner, except for the creators that are nobody behind a tag. -/
theorem attributes : c.Attributes where
  announced p stage freight s ended := by
    obtain ⟨n, announced, _⟩ := c.endNotice_of_terminal p 0 stage freight ended
    exact ⟨n, announced⟩
  ended p stage freight s n h := c.namesOwner_of_endNotice h
  terminated request p freight replies r course n emitted :=
    c.namesRequester_of_terminate course emitted
  reconciled key replies e course n emitted := c.names_of_reconcile course emitted

/-- A Promotion whose creator has a tag and an empty name. -/
def taggedOnly : Promotion :=
  { (default : Promotion) with
    metadata := { (default : Metadata) with annotations := .ofList [(creatorKey, "admin:")] } }

/-- Its owner is the controller, but the notice of its end names nobody. -/
theorem unattributed_of_taggedOnly : ∃ (c : Reconciler) (s : PromotionStatus) (n : Notice),
    c.Owner taggedOnly.metadata.annotations "controller:promotion-controller" ∧
      c.endNotice taggedOnly default none s = some n ∧ n.actor? = none := by
  let c : Reconciler := ⟨default, fun _ => none⟩
  let s : PromotionStatus := { (default : PromotionStatus) with phase := some .succeeded }
  have tagged : TagsNobody taggedOnly.metadata.annotations "" :=
    ⟨.inl rfl, "admin", by decide, by decide⟩
  have owner : c.Owner taggedOnly.metadata.annotations c.actor :=
    .controller fun name known => not_tagsNobody_of_createdBy known tagged
  obtain ⟨n, announced, _⟩ := c.endNotice_of_terminal taggedOnly 0 default none (s := s) rfl
  exact ⟨c, s, n, owner, announced, (c.namesOwner_of_endNotice announced).tagged "" tagged⟩

end Reconciler

end Drayage
