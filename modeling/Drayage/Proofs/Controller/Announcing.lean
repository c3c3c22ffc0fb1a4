import Drayage.Proofs.Controller.Traffic

/-!
# Endings and their notices

A Promotion that has ended stays as it is. It ends once, by a write of one of the calls,
and that call emits one notice of it unless it is cut off just before.
-/

namespace Drayage.Traffic

open Relation Standing Store
open scoped List

/-- What has ended by `t` stays so up to `t'`, and what has ended by `t'` has ended once and
is announced once. -/
structure EndsOnceAndForAll (t t' : Traffic) : Prop where
  /-- A Promotion that has ended keeps its status until it is deleted. -/
  absorbed : ∀ k p, t.world.store.promotions.get? k = some p → p.status.isTerminal = true →
    (∃ c ∈ t.world.store.changesUpTo t'.world.store, c.kind = .deleted ∧ c.new.key = k) ∨
      ∃ q, t'.world.store.promotions.get? k = some q ∧ q.status = p.status
  endsOnce : t'.world.store.EndsOnce
  /-- Every ending was written by one of the calls. -/
  endings : t'.world.store.changes.filter Change.ends ~
    t'.calls.flatMap fun call => call.changes.filter Change.ends
  notices : t'.world.notices.toList ~ t'.calls.flatMap Call.notices
  /-- A call announces what it ends, one by one and nothing else. Only a call that has not
  returned may still have to do so. -/
  announced : ∀ call ∈ t'.calls, ∃ told owed, call.ended = told ++ owed ∧
    List.Forall₂ Notice.Announces call.notices told ∧ owed.length ≤ 1 ∧
      ∀ e, call.rest = .done e → owed = []

theorem owed_of_stands {T : Terms} {s : Store} {call : Call} {g : Standing}
    (h : call.Stands T s g) : ∃ told owed, call.ended = told ++ owed ∧
      List.Forall₂ Notice.Announces call.notices told ∧ owed.length ≤ 1 ∧
        ∀ e, call.rest = .done e → owed = [] := by
  obtain ⟨obeys, _, told, hended, hnotices⟩ := h
  refine ⟨told, g.owed, hended, hnotices, ?_, fun e he => ?_⟩
  · cases g with
    | owing p => exact Nat.le_refl _
    | unread | holding | parked | closed => exact Nat.zero_le _
  · rw [he] at obeys
    exact owed_of_ends obeys

/-- However calls, edits and the engine take turns, Promotions end once and for all, and
every ending is announced once. -/
theorem endsOnceAndForAll_of_turns {S : Surroundings} {t t' : Traffic} (h : Reached S t)
    (h' : ReflTransGen (Turn S) t t') : EndsOnceAndForAll t t' := by
  have lasting := Terms.lasting_true S.engine
  have orderly := orderly_reached lasting (fun _ _ => trivial) h
  obtain ⟨orderly', evolves⟩ := orderly_turns lasting (fun _ _ => trivial) orderly h'
  refine ⟨fun k p hp ended => absorbed_of_evolves evolves hp ended, orderly'.historic.endsOnce,
    orderly'.endings, orderly'.notices, fun call hcall => ?_⟩
  obtain ⟨g, stands⟩ := orderly'.calls call hcall
  exact owed_of_stands stands

/-- An engine that always breaks down. -/
def brokenEngine : Engine (World Unit) := fun _ _ w => (.crashed .silent, w)

/-- A Promotion that nobody looked at yet. -/
def unseen : Promotion :=
  Store.empty.admitted (.fresh (.fresh "a" "p" default) ⟨"s", "f", [], []⟩) ⟨1⟩

def withUnseen : World Unit :=
  ⟨default, (Edit.create unseen ⟨1⟩).apply .empty, .empty, #[], ()⟩

def abortUnseen : Program Ending :=
  (Reconciler.mk default fun _ => none).abort (.terminate none) unseen none

def afterAbort (w : World Unit) : World Unit :=
  (abortUnseen.run (World.perform brokenEngine) w).2

/-- A Promotion that is aborted, and aborted again by a call that started before. -/
theorem endsOnceAndForAll_of_aborts : ∃ S t t', Reached S t ∧ ReflTransGen (Turn S) t t' ∧
    (t.world.store.promotions.values.map fun p => p.status.phase) = [some .aborted] ∧
      t'.world.notices.size = 1 ∧ EndsOnceAndForAll t t' := by
  let S : Surroundings := ⟨fun _ _ a => a = .crashed .silent, .any⟩
  let abort := Call.start abortUnseen
  have broken : ∀ ctx steps w,
      S.engine ctx steps (brokenEngine ctx steps w).1 ∧ (brokenEngine ctx steps w).2 = w :=
    fun _ _ _ => ⟨rfl, rfl⟩
  have created : Turn S ⟨{ withUnseen with store := .empty }, []⟩ ⟨withUnseen, []⟩ :=
    .edit _ [] _ trivial
  -- both aborts go by what was read before the first of them
  have known : Change.created unseen ∈ withUnseen.store.changes := List.mem_cons_self
  have called : Turn S ⟨withUnseen, []⟩ ⟨withUnseen, [abort]⟩ := .abort _ [] _ _ _ _ known
  have again : Turn S ⟨withUnseen, [abort]⟩ ⟨withUnseen, [abort, abort]⟩ :=
    .abort _ [abort] _ _ _ _ known
  obtain ⟨call, _, first⟩ := turns_run broken [] [abort] withUnseen abort
  obtain ⟨call', _, second⟩ := turns_run broken [call] [] (afterAbort withUnseen) abort
  have reached : Reached S ⟨afterAbort withUnseen, [call, abort]⟩ :=
    ⟨_, ⟨rfl, rfl, rfl⟩, .head created (.head called (.head again first))⟩
  refine ⟨S, _, _, reached, second, ?_, ?_, endsOnceAndForAll_of_turns reached second⟩
  · show (afterAbort withUnseen).store.promotions.values.map (fun p => p.status.phase) = _
    decide +kernel
  · show (afterAbort (afterAbort withUnseen)).notices.size = 1
    decide +kernel

end Drayage.Traffic
