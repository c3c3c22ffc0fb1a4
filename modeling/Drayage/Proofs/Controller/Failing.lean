import Drayage.Controller.Outage
import Drayage.Proofs.Controller.Fallback
import Drayage.Proofs.Store.Versions

/-!
# Reconciles that fail

A store may refuse any request for reasons of its own. A reconcile that fails over it has
announced nothing, and all that it has written is what comes before the steps: that its
Promotion is pending, or running. What the engine reported, an abort and what takes the place
of a status that was not accepted are in the store completely, or not at all.
-/

namespace Drayage

open Program

/-- The store refuses a request, for any reason. -/
def Request.Denied (r : Request) (a : r.Answer) : Prop :=
  ∃ name refuse e, Outage.refusal r = some (name, refuse) ∧ a = refuse e

namespace Request

variable {key : Key}

theorem not_denied_read {p : Option Promotion} : ¬ (getPromotion key).Denied (.ok p) := by
  rintro ⟨name, refuse, e, refused, denied⟩
  cases refused
  cases denied

theorem not_denied_write {expected v : Nat} {s : PromotionStatus} :
    ¬ (updateStatus key expected s).Denied (.ok v) := by
  rintro ⟨name, refuse, e, refused, denied⟩
  cases refused
  cases denied

end Request

namespace Store

variable {s s' s'' : Store}

theorem grows_call (hs : s.Sound) (call : StoreCall) : s.Grows (call.apply s) := by
  cases call with
  | edit e =>
    have within : e.Within .any := by cases e <;> trivial
    exact (edited_apply hs within).grows
  | requestReverification key now =>
    exact (edited_requestReverification (I := .any) hs key now).grows
  | updateStatus key expected status =>
    show s.Grows (s.after (s.updateStatus key expected status))
    cases written : s.updateStatus key expected status with
    | error e => exact .refl s
    | ok r =>
      obtain ⟨old, _, _, _, _, version, same⟩ := updateStatus_ok hs written
      show s.Grows r.2
      rw [same]
      exact grows_writePromotion version

theorem grown_run (hs : s.Sound) (calls : List StoreCall) :
    (s.run calls).Sound ∧ s.Grows (s.run calls) := by
  induction calls generalizing s with
  | nil => exact ⟨hs, .refl s⟩
  | cons call calls ih =>
    obtain ⟨sound, grows⟩ := ih ((did_call hs call).sound hs)
    exact ⟨sound, (grows_call hs call).trans grows⟩

end Store

variable {ε : Type} {w w' : World ε} {p q : Promotion} {s s' : PromotionStatus}
  {replies front back : List Reply} {changes : List (Change Promotion)} {notices : List Notice}
  {e : Ending}

namespace World

/-- A world gives these replies, but its store may refuse any request. Others call the store
in between as they like. What the requests themselves have changed and announced comes with
it. -/
inductive Faces : World ε → List Reply → List (Change Promotion) → List Notice → World ε →
    Prop where
  | nil {w w' : World ε} (calls : List StoreCall) (others : w'.store = w.store.run calls) :
      Faces w [] [] [] w'
  | cons {w u v w' : World ε} {r : Request} {a : r.Answer} {replies : List Reply}
      {changes : List (Change Promotion)} {notices : List Notice} (calls : List StoreCall)
      (others : u.store = w.store.run calls)
      (answers : u.Answers (fun _ _ _ => True) r a v ∨ r.Denied a ∧ v = u)
      (rest : Faces v replies changes notices w') :
      Faces w (⟨r, a⟩ :: replies) (u.store.changesUpTo v.store ++ changes)
        (u.noticesUpTo v ++ notices) w'

theorem faces_append (h : w.Faces (front ++ back) changes notices w') :
    ∃ u changes₁ changes₂ notices₁ notices₂, w.Faces front changes₁ notices₁ u ∧
      u.Faces back changes₂ notices₂ w' ∧ changes = changes₁ ++ changes₂ ∧
        notices = notices₁ ++ notices₂ := by
  induction front generalizing w changes notices with
  | nil => exact ⟨w, [], changes, [], notices, .nil [] rfl, h, rfl, rfl⟩
  | cons reply front ih =>
    cases h with
    | cons calls others answers rest =>
      obtain ⟨u, _, _, _, _, first, later, rfl, rfl⟩ := ih rest
      exact ⟨u, _, _, _, _, .cons calls others answers first, later,
        (List.append_assoc _ _ _).symm, (List.append_assoc _ _ _).symm⟩

theorem notices_of_answers {r : Request} {a : r.Answer} (silent : Reply.emitted? ⟨r, a⟩ = none)
    (h : w.Answers (fun _ _ _ => True) r a w') : w'.notices = w.notices := by
  cases touches_of_answers h with
  | nothing | workspaces | store => rfl
  | notices n emits =>
    subst emits
    cases silent

/-- Nothing but an accepted write of a status changes a Promotion. -/
theorem unchanged_of_answers {r : Request} {a : r.Answer} (sound : w.store.Sound)
    (unwritten : Reply.stored? ⟨r, a⟩ = none) (h : w.Answers (fun _ _ _ => True) r a w') :
    w'.store.changes = w.store.changes ∧ w'.store.Sound ∧ w.store.Grows w'.store := by
  have still (same : w'.store = w.store) :
      w'.store.changes = w.store.changes ∧ w'.store.Sound ∧ w.store.Grows w'.store := by
    rw [same]
    exact ⟨rfl, sound, .refl _⟩
  cases r with
  | updateStatus key v s =>
    cases a with
    | ok v' => cases unwritten
    | error err => exact still (congrArg World.store h.refused.1)
  | requestReverification key =>
    obtain ⟨engine, served, _⟩ := h
    have after := snd_attempt (·.requestReverification key w.clock) w
    rw [show attempt (·.requestReverification key w.clock) w = (a, w') from served] at after
    cases show w' = _ from after
    have edited := Store.edited_requestReverification (I := .any) sound key w.clock
    exact ⟨(w.store.alike_requestReverification key w.clock).changes, edited.sound sound,
      edited.grows⟩
  | now | getPromotion | getStage | getFreight | listPromotions | acquire | release | promote
  | emit => exact still (store_of_answers id h)

end World

/-- Replies by which no status was written and no notice emitted. -/
structure Quiet (replies : List Reply) : Prop where
  unwritten : replies.filterMap Reply.stored? = []
  unannounced : replies.filterMap Reply.emitted? = []

theorem Quiet.append (hf : Quiet front) (hb : Quiet back) : Quiet (front ++ back) where
  unwritten := by rw [List.filterMap_append, hf.unwritten, hb.unwritten, List.append_nil]
  unannounced := by rw [List.filterMap_append, hf.unannounced, hb.unannounced, List.append_nil]

theorem Quiet.cons {reply : Reply} (h : Quiet (reply :: replies)) :
    Reply.stored? reply = none ∧ Reply.emitted? reply = none ∧ Quiet replies := by
  obtain ⟨unwritten, unannounced⟩ := h
  rw [List.filterMap_cons] at unwritten unannounced
  split at unwritten
  · split at unannounced
    · exact ⟨‹_›, ‹_›, unwritten, unannounced⟩
    · cases unannounced
  · cases unwritten

namespace World

theorem faces_quiet (h : w.Faces replies changes notices w') (sound : w.store.Sound)
    (quiet : Quiet replies) :
    changes = [] ∧ notices = [] ∧ w'.store.Sound ∧ w.store.Grows w'.store := by
  induction h with
  | nil calls others =>
    rw [others]
    exact ⟨rfl, rfl, Store.grown_run sound calls⟩
  | cons calls others answers rest ih =>
    rename_i w u v w' r a _ _ _
    obtain ⟨unwritten, unannounced, quiet⟩ := quiet.cons
    obtain ⟨sound, grows⟩ := others ▸ Store.grown_run sound calls
    obtain ⟨same, sound, onward, silent⟩ : v.store.changes = u.store.changes ∧ v.store.Sound ∧
        u.store.Grows v.store ∧ v.notices = u.notices := by
      rcases answers with answers | ⟨_, rfl⟩
      · obtain ⟨same, sound, onward⟩ := unchanged_of_answers sound unwritten answers
        exact ⟨same, sound, onward, notices_of_answers unannounced answers⟩
      · exact ⟨rfl, sound, .refl _, rfl⟩
    obtain ⟨rfl, rfl, sound, later⟩ := ih sound quiet
    refine ⟨?_, ?_, sound, (grows.trans onward).trans later⟩
    · rw [Store.changesUpTo_of_append (same.trans (List.append_nil _).symm), List.append_nil]
    · rw [noticesUpTo_of_eq silent, List.append_nil]

/-- A reply that is no refusal is the answer of the world. -/
theorem faces_answered {r : Request} {a : r.Answer}
    (h : w.Faces (⟨r, a⟩ :: replies) changes notices w') (granted : ¬ r.Denied a) :
    ∃ (calls : List StoreCall) (u v : World ε) (later : List (Change Promotion))
      (told : List Notice), u.store = w.store.run calls ∧
        u.Answers (fun _ _ _ => True) r a v ∧ v.Faces replies later told w' ∧
          changes = u.store.changesUpTo v.store ++ later ∧ notices = u.noticesUpTo v ++ told := by
  cases h with
  | cons calls others answers rest =>
    rcases answers with answers | ⟨denied, _⟩
    · exact ⟨calls, _, _, _, _, others, answers, rest, rfl, rfl⟩
    · exact absurd denied granted

/-- A Promotion that was read is pinned by its version from then on. -/
theorem faces_read {key : Key} (sound : w.store.Sound)
    (h : w.Faces (⟨.getPromotion key, .ok (some p)⟩ :: replies) changes notices w') :
    ∃ u : World ε, u.store.Sound ∧ u.store.Pins p ∧ u.Faces replies changes notices w' := by
  obtain ⟨calls, u, v, later, told, others, answers, rest, rfl, rfl⟩ :=
    faces_answered h Request.not_denied_read
  obtain ⟨sound, _⟩ := others ▸ Store.grown_run sound calls
  obtain ⟨rfl, _, stored⟩ := answers.read
  rw [Store.changesUpTo_of_append (List.append_nil _).symm, noticesUpTo_of_eq rfl]
  exact ⟨v, sound, Store.pins_of_stored sound stored, rest⟩

/-- A write that is accepted is made over the Promotion that it was meant for. -/
theorem faces_written {v : Nat} (sound : w.store.Sound) (pins : w.store.Pins p)
    (h : w.Faces (⟨Reconciler.write p s, .ok v⟩ :: replies) changes notices w') :
    ∃ (u : World ε) (later : List (Change Promotion)),
      changes = .updated p (p.withStatus v s) :: later ∧ u.store.Sound ∧
        u.store.Pins (p.withStatus v s) ∧ u.Faces replies later notices w' := by
  obtain ⟨calls, u, _, later, told, others, answers, rest, rfl, rfl⟩ :=
    faces_answered h Request.not_denied_write
  obtain ⟨sound, grows⟩ := others ▸ Store.grown_run sound calls
  obtain ⟨old, stored, _, version, _, fresh, rfl⟩ := answers.written sound
  cases (pins.grow grows).2 old stored version
  have one := Store.changes_writePromotion (s := u.store) (some p) (p.withStatus v s)
  have silent : u.noticesUpTo { u with
      store := u.store.writePromotion (some p) (p.withStatus v s) } = [] :=
    noticesUpTo_of_eq rfl
  rw [Store.changesUpTo_of_append one, silent]
  exact ⟨_, later, rfl, Store.sound_writePromotion sound fresh,
    Store.pins_writePromotion _ fresh, rest⟩

end World

/-- A status is readied for the steps: it gets its first phase, or is started. -/
inductive PromotionStatus.Readies (s : PromotionStatus) : PromotionStatus → Prop where
  | pending (unknown : s.phase = none) : Readies s { s with phase := some .pending }
  | running (waiting : s.phase ≠ some .running) (now : Instant) :
      Readies s { s with phase := some .running, startedAt := some now }

/-- A Promotion was only readied. -/
def Change.Readies (change : Change Promotion) : Prop :=
  ∃ old v s, change = .updated old (old.withStatus v s) ∧ old.status.Readies s

namespace Reconciler

variable {c : Reconciler} {stage : Stage} {freight : Option Freight} {initial : Option Phase}
  {err : ReconcileError}

/-- Replies by which a Promotion was readied, and nothing else was written or announced. -/
inductive ReadiesOnly : Promotion → List Reply → Prop where
  | quiet {p : Promotion} {replies : List Reply} (quiet : Quiet replies) : ReadiesOnly p replies
  | wrote {p : Promotion} {front back : List Reply} {s : PromotionStatus} {v : Nat}
      (quiet : Quiet front) (readies : p.status.Readies s)
      (rest : ReadiesOnly (p.withStatus v s) back) :
      ReadiesOnly p (front ++ ⟨write p s, .ok v⟩ :: back)

theorem ReadiesOnly.unannounced (h : ReadiesOnly p replies) :
    replies.filterMap Reply.emitted? = [] := by
  induction h with
  | quiet quiet => exact quiet.unannounced
  | wrote quiet readies rest ih =>
    rw [List.filterMap_append, quiet.unannounced]
    exact ih

theorem ReadiesOnly.isChain (h : ReadiesOnly p replies) :
    (p.status :: replies.filterMap Reply.stored?).IsChain PromotionStatus.Readies := by
  induction h with
  | quiet quiet =>
    rw [quiet.unwritten]
    exact .singleton _
  | wrote quiet readies rest ih =>
    rw [List.filterMap_append, quiet.unwritten]
    exact .cons_cons readies ih

/-- In a world whose store refuses what it likes, the Promotion was readied and that is all. -/
theorem ReadiesOnly.faces (h : ReadiesOnly p replies) (sound : w.store.Sound)
    (pins : w.store.Pins p) (faces : w.Faces replies changes notices w') :
    notices = [] ∧ ∀ change ∈ changes, change.Readies := by
  induction h generalizing w changes notices with
  | quiet quiet =>
    obtain ⟨rfl, rfl, _⟩ := World.faces_quiet faces sound quiet
    exact ⟨rfl, fun change hc => by cases hc⟩
  | wrote quiet readies rest ih =>
    obtain ⟨u, _, _, _, _, first, later, rfl, rfl⟩ := World.faces_append faces
    obtain ⟨rfl, rfl, sound, grows⟩ := World.faces_quiet first sound quiet
    obtain ⟨u', _, rfl, sound, pins, later⟩ := World.faces_written sound (pins.grow grows) later
    obtain ⟨rfl, readied⟩ := ih sound pins later
    refine ⟨rfl, fun change hc => ?_⟩
    rcases List.mem_cons.mp hc with rfl | hc
    · exact ⟨_, _, _, rfl, readies⟩
    · exact readied change hc

theorem ReadiesOnly.cons {reply : Reply} (h : ReadiesOnly p replies) (quiet : Quiet [reply]) :
    ReadiesOnly p (reply :: replies) := by
  cases h with
  | quiet rest => exact .quiet (quiet.append rest)
  | wrote between readies rest => exact .wrote (quiet.append between) readies rest

theorem ReadiesOnly.of_pends (h : Pends p front q) (rest : ReadiesOnly q back) :
    ReadiesOnly p (front ++ back) := by
  cases h with
  | known => exact rest
  | written unknown v =>
    show ReadiesOnly p ([] ++ ⟨write p (pended p.status), .ok v⟩ :: back)
    exact .wrote ⟨rfl, rfl⟩ (.pending unknown) rest

theorem ReadiesOnly.of_begins (h : Begins p front q) (rest : ReadiesOnly q back) :
    ReadiesOnly p (front ++ back) := by
  cases h with
  | running => exact rest
  | written waiting now v =>
    show ReadiesOnly p ([_] ++ ⟨write p (begun p.status now), .ok v⟩ :: back)
    exact .wrote ⟨rfl, rfl⟩ (.running waiting now) rest

/-- A failed attempt to carry out the steps has written nothing at all. -/
theorem quiet_of_executes (h : c.Executes p stage freight initial replies e)
    (failed : e = .failed err) : Quiet replies := by
  cases h with
  | concluded promotes drafts stamps persists concludes =>
    exact absurd failed (concludes.unfailed err)
  | refused err' promotes drafts stamps persists =>
    have refused : Quiet _ := ⟨by cases persists <;> rfl, persists.unannounced⟩
    exact Quiet.append ⟨promotes.unwritten.stored, promotes.unannounced⟩
      (Quiet.append ⟨drafts.unwritten.stored, drafts.unannounced⟩
        (Quiet.append ⟨stamps.unwritten.stored, stamps.unannounced⟩ refused))

theorem readiesOnly_of_approaches {key : Key} (h : c.Approaches key p freight replies e)
    (failed : e = .failed err) : ReadiesOnly p replies := by
  cases h with
  | blind | stageless | refused => exact .quiet ⟨rfl, rfl⟩
  | parked => cases failed
  | admitted stage named begins executes =>
    have rest := ReadiesOnly.of_begins begins (.quiet (quiet_of_executes executes failed))
    exact rest.cons ⟨rfl, rfl⟩

/-- A failed reconcile has written nothing, or it has read a Promotion and readied it. -/
theorem readiesOnly_of_failed {key : Key} (h : c.Visits key replies e) (failed : e = .failed err) :
    Quiet replies ∨ ∃ p rest, replies = ⟨.getPromotion key, .ok (some p)⟩ :: rest ∧
      ReadiesOnly p rest := by
  cases h with
  | blind | unsupplied | unmarked => exact .inl ⟨rfl, rfl⟩
  | absent | ended => cases failed
  | aborted p unended freight request asked terminates =>
    cases terminates with
    | ended | terminated => cases failed
    | refused => exact .inl ⟨rfl, rfl⟩
  | approached p unended freight unaborted pends approaches =>
    have rest := ReadiesOnly.of_pends pends (readiesOnly_of_approaches approaches failed)
    exact .inr ⟨p, _, rfl, rest.cons ⟨rfl, rfl⟩⟩

/-- What a reconcile has asked for does no harm: nothing was announced, and what was written has
readied the Promotion that was read, step by step. So it is in every world, whatever its store
refuses and whatever others do in between. -/
structure Harmless (replies : List Reply) : Prop where
  unannounced : replies.filterMap Reply.emitted? = []
  unread : replies.findSome? Reply.read? = none → replies.filterMap Reply.stored? = []
  readied : ∀ p, replies.findSome? Reply.read? = some p →
    (p.status :: replies.filterMap Reply.stored?).IsChain PromotionStatus.Readies
  faces : ∀ {ε : Type} {w w' : World ε} {changes : List (Change Promotion)}
    {notices : List Notice}, w.store.Sound → w.Faces replies changes notices w' →
      notices = [] ∧ ∀ change ∈ changes, change.Readies

/-- A reconcile that fails has done no harm, whatever it was answered. -/
theorem harmless_of_failed {key : Key} (h : (c.reconcile key).Course replies (.failed err)) :
    Harmless replies := by
  rcases readiesOnly_of_failed (c.visits_of_course h) rfl with
    quiet | ⟨p, rest, rfl, readies⟩
  · refine ⟨quiet.unannounced, fun _ => quiet.unwritten, fun p _ => ?_, fun sound faces => ?_⟩
    · rw [quiet.unwritten]
      exact .singleton _
    · obtain ⟨rfl, rfl, _⟩ := World.faces_quiet faces sound quiet
      exact ⟨rfl, fun change hc => by cases hc⟩
  · refine ⟨readies.unannounced, fun unread => ?_, fun q read => ?_, fun sound faces => ?_⟩
    · cases unread
    · cases read
      exact readies.isChain
    · obtain ⟨u, sound, pins, faces⟩ := World.faces_read sound faces
      exact readies.faces sound pins faces

end Reconciler

namespace World

variable (outages : ε → List Outage) (leave : List Outage → ε → ε) (engine : Engine (World ε))

/-- A request is answered as usual, but for the bookkeeping of the outages, or refused. -/
theorem perform_outage (r : Request) (w : World ε) : ∃ u : World ε, u.store = w.store ∧
    (Outage.perform outages leave (perform engine) r w = perform engine r u ∨
      ∃ a, r.Denied a ∧ Outage.perform outages leave (perform engine) r w = (a, u)) := by
  unfold Outage.perform
  cases refused : Outage.refusal r with
  | none => exact ⟨w, rfl, .inl rfl⟩
  | some refusal =>
    obtain ⟨name, refuse⟩ := refusal
    dsimp only
    refine ⟨{ w with extra := leave (Outage.strike name (outages w.extra)).2 w.extra }, rfl, ?_⟩
    cases (Outage.strike name (outages w.extra)).1 with
    | none => exact .inl rfl
    | some err => exact .inr ⟨_, ⟨name, refuse, err, refused, rfl⟩, rfl⟩

/-- A program that is run in a world with outages faces them. -/
theorem faces_told {α : Type} (quiet : ∀ ctx steps w, (engine ctx steps w).2 = w) (x : Program α)
    (w : World ε) : ∃ changes notices,
      w.Faces (x.told (Outage.perform outages leave (perform engine)) w) changes notices
        (x.run (Outage.perform outages leave (perform engine)) w).2 := by
  induction x generalizing w with
  | done a => exact ⟨_, _, .nil [] rfl⟩
  | ask r next ih =>
    let served := Outage.perform outages leave (perform engine) r w
    obtain ⟨changes, notices, rest⟩ := ih served.1 served.2
    obtain ⟨u, same, answered | ⟨a, denied, refused⟩⟩ := perform_outage outages leave engine r w
    · refine ⟨_, _, .cons [] same (.inl ⟨engine, answered.symm, ?_⟩) rest⟩
      exact fun ctx steps _ => ⟨trivial, quiet ctx steps u⟩
    · refine ⟨_, _, .cons [] same (.inr ⟨?_, congrArg Prod.snd refused⟩) rest⟩
      exact (congrArg Prod.fst refused) ▸ denied

end World

namespace Reconciler

/-- An engine that reports success. -/
def succeedingEngine : Engine (World (List Outage)) :=
  fun _ _ w => (.result ⟨.succeeded, none, 1, [], default, []⟩, w)

/-- A world in which the third write of a status finds the store down. -/
def unsteady : World (List Outage) :=
  ⟨default, Traffic.whereOneWaits.store, .empty, #[],
    [⟨"update_promotion_status", 2, .unavailable "down"⟩]⟩

/-- The success is not stored, and is neither announced nor seen. -/
theorem harmless_of_unsteady : ∃ (c : Reconciler) (key : Key) (replies : List Reply)
    (err : ReconcileError) (w' : World (List Outage)),
    (c.reconcile key).Course replies (.failed err) ∧
      (∃ changes notices, unsteady.Faces replies changes notices w') ∧
      (replies.filterMap Reply.stored?).map PromotionStatus.phase =
        [some .pending, some .running] ∧ Harmless replies := by
  let perform := Outage.perform id (fun left _ => left) (World.perform succeedingEngine)
  have failed : (Traffic.reconcileOne.run perform unsteady).1 =
      .failed (.store (.unavailable "down")) := by decide +kernel
  have course := course_run perform Traffic.reconcileOne unsteady
  rw [failed] at course
  have faces := World.faces_told id (fun left _ => left) succeedingEngine (fun _ _ _ => rfl)
    Traffic.reconcileOne unsteady
  exact ⟨_, _, _, _, _, course, faces, by decide +kernel, harmless_of_failed course⟩

end Reconciler

end Drayage
