import Drayage.Proofs.Controller.Fallback
import Drayage.Proofs.Controller.Following

/-!
# When Promotions started

A reconcile that makes a Promotion run writes the time down with it, and no later write takes
the time away: it is made over the very Promotion that the call has read, or over none. Where a
Promotion runs and nobody knows since when, it was itself created like that.
-/

namespace Drayage

open Program Relation Store

/-- Running, and nobody knows since when. -/
def PromotionStatus.Unstarted (s : PromotionStatus) : Prop :=
  s.phase = some .running ∧ s.startedAt = none

namespace Reconciler

variable {c : Reconciler} {p q : Promotion} {stage : Stage} {freight : Option Freight}
  {initial : Option Phase} {replies front back : List Reply} {e : Ending}
  {s s' : PromotionStatus}

/-- What is written over a Promotion has a time if it is running, unless the Promotion is
running without one. -/
def Timely (p : Promotion) (replies : List Reply) : Prop :=
  ∀ k v s a, (⟨.updateStatus k v s, a⟩ : Reply) ∈ replies → s.Unstarted →
    k = p.key ∧ v = p.metadata.version ∧ p.status.Unstarted

theorem Timely.append (hf : Timely p front) (hb : Timely p back) : Timely p (front ++ back) :=
  fun k v s a told => (List.mem_append.mp told).elim (hf k v s a) (hb k v s a)

theorem timely_of_unwritten (h : Unwritten replies) : Timely p replies := by
  intro k v s a told _
  cases a with
  | ok v' =>
    have : s ∈ replies.filterMap Reply.stored? := List.mem_filterMap.mpr ⟨_, told, rfl⟩
    rw [h.stored] at this
    cases this
  | error err =>
    have : err ∈ replies.filterMap Reply.refused? := List.mem_filterMap.mpr ⟨_, told, rfl⟩
    rw [h.refused] at this
    cases this

theorem timely_write {a : Except StoreError Nat} (h : s.Unstarted → p.status.Unstarted) :
    Timely p [⟨write p s, a⟩] := by
  intro k v s' a told unstarted
  cases List.mem_singleton.mp told
  exact ⟨rfl, rfl, h unstarted⟩

/-- A write by which the Promotion is not running afterwards needs no time. -/
theorem timely_of_phase {a : Except StoreError Nat} (h : s.phase ≠ some .running) :
    Timely p [⟨write p s, a⟩] :=
  timely_write fun unstarted => absurd unstarted.1 h

theorem Stamps.unstarted (h : Stamps p s replies s') : s'.Unstarted → s.Unstarted := by
  cases h <;> (unfold answering; split <;> exact id)

theorem Persists.timely {persisted : Except StoreError PromotionStatus}
    (h : Persists p s replies persisted) (fair : s.Unstarted → p.status.Unstarted) :
    Timely p replies := by
  have replaced (err : StoreError) (now : Instant) (a b : Except StoreError Nat) : Timely p
      [⟨write p s, a⟩, ⟨.now, now⟩, ⟨write p (fallback p s err now), b⟩] := by
    have resting : (fallback p s err now).phase ≠ some .running := fun h => by cases h
    have clock : Timely p [⟨.now, now⟩] := timely_of_unwritten ⟨rfl, rfl⟩
    exact (timely_write fair).append (clock.append (timely_of_phase resting))
  cases h with
  | written | refused => exact timely_write fair
  | replaced | refusedAgain => exact replaced _ _ _ _

theorem timely_of_executes (h : c.Executes p stage freight initial replies e)
    (running : p.status.phase = some .running) : Timely p replies := by
  -- the engine says nothing about times, so the one that was known is kept
  have fair {steps draft : List Reply} {promoted : Promoted} {s : PromotionStatus}
      (promotes : c.Promotes p stage freight steps promoted) (drafts : Drafts p promoted draft s) :
      s.Unstarted → p.status.Unstarted := by
    rintro ⟨phase, unknown⟩
    rcases c.drafted promotes drafts with ⟨⟨message, rfl⟩, _⟩ | ⟨f, fresh, r, _, _, _, rfl⟩
    · cases phase
    · refine ⟨running, ?_⟩
      cases r <;> cases fresh <;> exact unknown
  cases h with
  | concluded promotes drafts stamps persists concludes =>
    refine (timely_of_unwritten promotes.unwritten).append ?_
    refine (timely_of_unwritten drafts.unwritten).append ?_
    refine (timely_of_unwritten stamps.unwritten).append ?_
    exact (persists.timely fun h => fair promotes drafts (stamps.unstarted h)).append
      (timely_of_unwritten concludes.unwritten)
  | refused err promotes drafts stamps persists =>
    refine (timely_of_unwritten promotes.unwritten).append ?_
    refine (timely_of_unwritten drafts.unwritten).append ?_
    refine (timely_of_unwritten stamps.unwritten).append ?_
    exact persists.timely fun h => fair promotes drafts (stamps.unstarted h)

theorem timely_begun {a : Except StoreError Nat} (now : Instant) :
    Timely p [⟨write p (begun p.status now), a⟩] :=
  timely_write fun unstarted => by cases unstarted.2

theorem timely_of_approaches {key : Key} (h : c.Approaches key p freight replies e) :
    Timely p replies := by
  have seen (stage : Stage) :
      Timely p [⟨.getStage ⟨key.project, p.spec.stage⟩, .ok (some stage)⟩] :=
    timely_of_unwritten ⟨rfl, rfl⟩
  have clock (now : Instant) : Timely p [⟨.now, now⟩] := timely_of_unwritten ⟨rfl, rfl⟩
  cases h with
  | blind | stageless | parked => exact timely_of_unwritten ⟨rfl, rfl⟩
  | refused stage _ _ now err => exact (seen stage).append ((clock now).append (timely_begun now))
  | admitted stage _ begins executes =>
    have timely := timely_of_executes executes begins.phase
    cases begins with
    | running => exact (seen stage).append timely
    | written waiting now v =>
      refine (seen stage).append (((clock now).append (timely_begun now)).append ?_)
      intro k v' s a told unstarted
      cases (timely k v' s a told unstarted).2.2.2

theorem pended_phase : (pended s).phase ≠ some .running := by
  intro h
  cases h

/-- A call to end a Promotion leaves nothing running. -/
theorem resting_of_terminates {request : AbortRequest} {r : Except ReconcileError Unit}
    (h : c.Terminates request p freight replies r) {k : Key} {v : Nat}
    {a : Except StoreError Nat} (told : (⟨.updateStatus k v s, a⟩ : Reply) ∈ replies) :
    s.phase ≠ some .running := by
  have resting (actor : String) (now : Instant) :
      (p.status.terminated actor now).phase ≠ some .running := fun h => by cases h
  cases h with
  | ended => cases told
  | refused =>
    cases told with
    | tail _ told =>
      cases told with
      | head => exact resting _ _
      | tail _ told => cases told
  | terminated =>
    cases told with
    | tail _ told =>
      cases told with
      | head => exact resting _ _
      | tail _ told =>
        rcases told with _ | ⟨_, _ | ⟨_, told⟩⟩
        cases told

theorem timely_of_visits {key : Key} (h : c.Visits key replies e) {k : Key} {v : Nat}
    {a : Except StoreError Nat} (told : (⟨.updateStatus k v s, a⟩ : Reply) ∈ replies)
    (unstarted : s.Unstarted) : ∃ p, replies.head? = some ⟨.getPromotion key, .ok (some p)⟩ ∧
      p.key = k ∧ p.metadata.version = v ∧ p.status.Unstarted := by
  -- whatever comes after the first two reads is about the Promotion that was read
  have of_timely {p : Promotion} {freight : Option Freight} {back : List Reply}
      (h : Timely p back) (told : (⟨.updateStatus k v s, a⟩ : Reply) ∈
        (⟨.getPromotion key, .ok (some p)⟩ ::
          ⟨.getFreight ⟨key.project, p.spec.freight⟩, .ok freight⟩ :: back : List Reply)) :
      ∃ q, some ⟨.getPromotion key, .ok (some p)⟩ =
        some (⟨.getPromotion key, .ok (some q)⟩ : Reply) ∧ q.key = k ∧ q.metadata.version = v ∧
          q.status.Unstarted := by
    have reads : Timely p [⟨.getPromotion key, .ok (some p)⟩,
      ⟨.getFreight ⟨key.project, p.spec.freight⟩, .ok freight⟩] := timely_of_unwritten ⟨rfl, rfl⟩
    obtain ⟨rfl, rfl, was⟩ := (reads.append h) k v s a told unstarted
    exact ⟨p, rfl, rfl, rfl, was⟩
  cases h with
  | blind | absent | ended | unsupplied => simp at told
  | aborted p _ _ _ _ terminates =>
    refine of_timely (fun k v s a told unstarted => ?_) told
    exact absurd unstarted.1 (resting_of_terminates terminates told)
  | unmarked => exact of_timely (timely_of_phase pended_phase) told
  | approached p unended freight unaborted pends approaches =>
    refine of_timely ?_ told
    have timely := timely_of_approaches approaches
    cases pends with
    | known => exact timely
    | written unknown v =>
      refine (timely_of_phase pended_phase).append fun k' v' s' a' told' unstarted' => ?_
      cases (timely k' v' s' a' told' unstarted').2.2.1

end Reconciler

/-- A program that leaves no Promotion running without a time, unless it read it so at first. -/
def Program.KeepsTime (x : Program Ending) : Prop :=
  ∀ replies e k v s a, x.Course replies e → (⟨.updateStatus k v s, a⟩ : Reply) ∈ replies →
    s.Unstarted → ∃ key p, replies.head? = some ⟨.getPromotion key, .ok (some p)⟩ ∧
      p.key = k ∧ p.metadata.version = v ∧ p.status.Unstarted

namespace Reconciler

variable (c : Reconciler)

theorem keepsTime_reconcile (key : Key) : (c.reconcile key).KeepsTime := by
  intro replies e k v s a course told unstarted
  exact ⟨key, timely_of_visits (c.visits_of_course course) told unstarted⟩

theorem keepsTime_abort (request : AbortRequest) (p : Promotion) (freight : Option Freight) :
    (c.abort request p freight).KeepsTime := by
  intro replies e k v s a course told unstarted
  unfold abort at course
  obtain ⟨front, r, back, terminated, course, rfl⟩ := course_bind.mp course
  have nothing : back = [] := by
    cases r with
    | ok => exact (course_pure.mp course).1
    | error err => exact (course_pure.mp course).1
  rw [nothing, List.append_nil] at told
  exact absurd unstarted.1 (resting_of_terminates (c.terminates_of_course terminated) told)

end Reconciler

namespace Store

variable {I : Intake} {s s' : Store} {key : Key} {uid : Uid} {p : Promotion}

/-- The Promotion with this key was created as one that is running, without a time, and with
this uid. Since then it was neither deleted nor created again. -/
def CreatedUnstarted (s : Store) (key : Key) (uid : Uid) : Prop :=
  ∃ front new back, s.changes = front ++ .created new :: back ∧ new.key = key ∧
    new.metadata.uid = uid ∧ new.status.Unstarted ∧
    ∀ change ∈ back, change.new.key = key → change.kind = .updated

/-- A Promotion that is running without a time was created so. -/
def Explained (s : Store) : Prop :=
  ∀ key p, s.promotions.get? key = some p → p.status.Unstarted →
    s.CreatedUnstarted key p.metadata.uid

/-- A change of a Promotion that is there before and after it is an update. -/
theorem CreatedUnstarted.log (h : s.CreatedUnstarted key uid) (logs : s.Logs s')
    (before : s.promotions.get? key ≠ none) (after : s'.promotions.get? key ≠ none) :
    s'.CreatedUnstarted key uid := by
  obtain ⟨front, new, back, split, same, known, unstarted, others⟩ := h
  rcases logs with ⟨unchanged, -⟩ | ⟨c, was, is, turns, changes, hwas, his, -⟩
  · exact ⟨front, new, back, unchanged.trans split, same, known, unstarted, others⟩
  · refine ⟨front, new, back ++ [c], ?_, same, known, unstarted, ?_⟩
    · rw [changes, split, List.append_assoc, List.cons_append]
    · intro change there here
      rcases List.mem_append.mp there with early | last
      · exact others change early here
      · obtain rfl := List.mem_singleton.mp last
        subst here
        cases turns with
        | created => exact absurd hwas before
        | updated => rfl
        | deleted => exact absurd his after

theorem Explained.edit (h : s.Explained) (edited : Edited I s s') : s'.Explained := by
  intro key p stored unstarted
  have still : s'.promotions.get? key ≠ none := by simp [stored]
  have before {q : Promotion} (stored : s.promotions.get? key = some q)
      (unstarted : q.status.Unstarted) : s'.CreatedUnstarted key q.metadata.uid :=
    (h key q stored unstarted).log edited.logs (by simp [stored]) still
  cases edited with
  | same | available | put | marked | freight => exact before stored unstarted
  | created q candidate allowed absent =>
    rcases writePromotion_cases stored with ⟨rfl, rfl⟩ | stored
    · exact ⟨s.changes, s.admitted q candidate, [], changes_writePromotion _ _, rfl, rfl,
        unstarted, by simp⟩
    · exact before stored unstarted
  | annotated old mark value there =>
    rcases writePromotion_cases stored with ⟨rfl, rfl⟩ | stored
    · exact before (q := old) there unstarted
    · exact before stored unstarted
  | deleted => exact before (get?_of_removePromotion stored) unstarted

end Store

/-- A call keeps the time, and what it has read is still told apart by its version. -/
def Call.Timekept (s : Store) (call : Call) : Prop :=
  ∃ (x : Program Ending) (replies : List Reply), x.KeepsTime ∧ x.Leads replies call.rest ∧
    ∀ key p, (⟨.getPromotion key, .ok (some p)⟩ : Reply) ∈ replies → s.Pins p

namespace Call

variable {S : Surroundings} {w w' : World Unit} {call : Call} {r : Request}
  {next : r.Answer → Program Ending} {a : r.Answer}

theorem timekept_start {s : Store} {x : Program Ending} (hx : x.KeepsTime) :
    (start x).Timekept s :=
  ⟨x, [], hx, .nil x, fun key p told => by cases told⟩

theorem Timekept.grow {s s' : Store} (h : call.Timekept s) (grows : s.Grows s') :
    call.Timekept s' := by
  obtain ⟨x, replies, hx, leads, reads⟩ := h
  exact ⟨x, replies, hx, leads, fun key p told => (reads key p told).grow grows⟩

/-- A write by which a Promotion runs without a time is made over one that did. -/
theorem Timekept.unstarted {s : Store} (h : call.Timekept s) {old : Promotion} {v : Nat}
    {status : PromotionStatus} {next : Except StoreError Nat → Program Ending}
    (a : Except StoreError Nat) (asks : call.rest = .ask (.updateStatus old.key v status) next)
    (unstarted : status.Unstarted) (stored : s.promotions.get? old.key = some old)
    (version : old.metadata.version = v) : old.status.Unstarted := by
  obtain ⟨x, replies, hx, leads, reads⟩ := h
  obtain ⟨back, e, course⟩ := exists_course (next a)
  have told : (⟨.updateStatus old.key v status, a⟩ : Reply) ∈
      replies ++ ⟨.updateStatus old.key v status, a⟩ :: back :=
    List.mem_append_right _ List.mem_cons_self
  rw [asks] at leads
  obtain ⟨key, p, first, same, read, was⟩ :=
    hx _ e old.key v status _ (leads.course (.ask _ course)) told unstarted
  have told : (⟨.getPromotion key, .ok (some p)⟩ : Reply) ∈ replies := by
    cases replies with
    | nil => cases first
    | cons reply replies =>
      cases first
      exact List.mem_cons_self
  -- what is stored with the version that was read is what was read
  rwa [(reads key p told).2 old (same ▸ stored) (version.trans read.symm)]

theorem Timekept.explained (h : call.Timekept w.store) (asks : call.rest = .ask r next)
    (answers : w.Answers S.engine r a w') (sound : w.store.Sound)
    (logs : w.store.Logs w'.store) (explained : w.store.Explained) : w'.store.Explained := by
  intro key p stored unstarted
  have still : w'.store.promotions.get? key ≠ none := by simp [stored]
  have before {q : Promotion} (stored : w.store.promotions.get? key = some q)
      (unstarted : q.status.Unstarted) : w'.store.CreatedUnstarted key q.metadata.uid :=
    (explained key q stored unstarted).log logs (by simp [stored]) still
  by_cases unwritten : Reply.stored? ⟨r, a⟩ = none
  · have same : w'.promotion? key = w.promotion? key :=
      World.promotion?_of_answers unwritten (answers.mono fun _ _ _ _ => trivial)
    exact before (same.symm.trans stored) unstarted
  · cases r with
    | updateStatus k v status =>
      cases a with
      | error err => exact absurd rfl unwritten
      | ok v' =>
        obtain ⟨old, was, rfl, version, _, _, rfl⟩ := answers.written sound
        rcases writePromotion_cases stored with ⟨rfl, rfl⟩ | stored
        · exact before (q := old) was (h.unstarted (.ok v') asks unstarted was version)
        · exact before stored unstarted
    | now | getPromotion | getStage | getFreight | listPromotions | requestReverification
    | acquire | release | promote | emit => exact absurd rfl unwritten

theorem Timekept.resume (h : call.Timekept w.store) (asks : call.rest = .ask r next)
    (answers : w.Answers S.engine r a w') (sound : w.store.Sound)
    (grows : w.store.Grows w'.store) : (call.resume w w' (next a)).Timekept w'.store := by
  obtain ⟨x, replies, hx, leads, reads⟩ := h.grow grows
  rw [asks] at leads
  refine ⟨x, _, hx, leads.concat a, fun key p told => ?_⟩
  rcases List.mem_append.mp told with early | last
  · exact reads key p early
  · cases List.mem_singleton.mp last
    obtain ⟨_, _, stored⟩ := answers.read
    exact (pins_of_stored sound stored).grow grows

end Call

namespace Traffic

variable {S : Surroundings} {t t' : Traffic}

/-- What every turn preserves. -/
structure Timekept (t : Traffic) : Prop where
  explained : t.world.store.Explained
  calls : ∀ call ∈ t.calls, call.Timekept t.world.store

theorem timekept_opening (h : t.Opens) : t.Timekept := by
  obtain ⟨w, calls⟩ := t
  obtain ⟨hstore, _, hcalls⟩ := h
  dsimp only at hstore hcalls
  subst hcalls
  refine ⟨fun key p stored => ?_, fun call hcall => (List.not_mem_nil hcall).elim⟩
  rw [hstore] at stored
  cases stored

theorem Timekept.start (h : t.Timekept) {x : Program Ending} (hx : x.KeepsTime) :
    Timekept ⟨t.world, t.calls ++ [.start x]⟩ where
  explained := h.explained
  calls call hcall := by
    rcases List.mem_append.mp hcall with hcall | hcall
    · exact h.calls call hcall
    · cases List.mem_singleton.mp hcall
      exact Call.timekept_start hx

theorem timekept_turn {K : PromotionSpec → PromotionStatus → Prop} (ho : t.Orderly S K)
    (h : t.Timekept) (turn : Turn S t t') : t'.Timekept := by
  have sound := ho.historic.sound
  have evolves := evolves_turn ho turn
  have grows := evolves.grows
  cases turn with
  | reconcile w calls c key => exact h.start (c.keepsTime_reconcile key)
  | abort w calls c request freight read _ =>
    exact h.start (c.keepsTime_abort request read.new freight)
  | answer w w' front back call r next a asks answers =>
    have own := h.calls call (List.mem_append_right _ List.mem_cons_self)
    have explained := own.explained asks answers sound evolves.logs h.explained
    refine ⟨explained, fun other hother => ?_⟩
    have untouched (there : other ∈ front ++ call :: back) : other.Timekept w'.store :=
      (h.calls other there).grow grows
    rcases List.mem_append.mp hother with early | late
    · exact untouched (List.mem_append_left _ early)
    · rcases List.mem_cons.mp late with rfl | late
      · exact own.resume asks answers sound grows
      · exact untouched (List.mem_append_right _ (List.mem_cons_of_mem _ late))
  | edit w calls e within =>
    exact ⟨h.explained.edit (edited_apply sound within), fun call hcall =>
      (h.calls call hcall).grow grows⟩
  | disturb w calls clock workspaces => exact ⟨h.explained, h.calls⟩

/-- Whoever takes turns: a Promotion that is running, and nobody knows since when, was created
like that. -/
theorem explained_of_reached (h : Reached S t) : t.world.store.Explained := by
  obtain ⟨o, opens, turns⟩ := h
  have lasting := Terms.lasting_true S.engine
  suffices t.Timekept from this.explained
  induction turns with
  | refl => exact timekept_opening opens
  | tail turns turn ih =>
    have orderly := orderly_reached lasting (fun _ _ => trivial) ⟨o, opens, turns⟩
    exact timekept_turn orderly ih turn

end Traffic

end Drayage
