import Drayage.Proofs.Controller.Steadfast
import Drayage.Proofs.Controller.Unfinished

/-!
# The write that always lands

A reconcile that has attempted the steps of a Promotion writes what came of them. Unless the
store is down, or somebody else writes to the Promotion, this cannot go wrong whatever the
engine reported: what the store does not accept is replaced by a status that it does. What can
go wrong after that is the sum of times from which the next look is told.
-/

namespace Drayage

open Program

/-- The sums of times by which the next look at a Promotion is scheduled have dates. -/
def Promotion.Schedulable (p : Promotion) (runnerDefault : String → Option Span)
    (interval : Span) (now : Instant) : Prop :=
  ∀ startedAt limit, p.timeLimit? runnerDefault = some (startedAt, limit) →
    startedAt.add? limit ≠ none ∧
      now.add? (if interval.addable then interval else .zero) ≠ none

theorem Promotion.nextDelay_eq_none_iff (p : Promotion) (runnerDefault : String → Option Span)
    (interval : Span) (now : Instant) :
    p.nextDelay runnerDefault interval now = none ↔
      ¬ p.Schedulable runnerDefault interval now := by
  unfold nextDelay Schedulable
  cases p.timeLimit? runnerDefault with
  | none => simp
  | some limited =>
    obtain ⟨startedAt, limit⟩ := limited
    cases deadline : startedAt.add? limit with
    | none => simp [deadline]
    | some deadline' =>
      cases now.add? (if interval.addable then interval else .zero) <;> simp [deadline]

variable {ε : Type} {w w' : World ε} {p q : Promotion} {s s' : PromotionStatus}
  {replies : List Reply} {e : Ending}

/-- No write has found the store down. -/
def Up (replies : List Reply) : Prop :=
  ∀ reason, .unavailable reason ∉ replies.filterMap Reply.refused?

theorem up_append {front back : List Reply} : Up (front ++ back) ↔ Up front ∧ Up back := by
  simp only [Up, List.filterMap_append, List.mem_append, not_or, forall_and]

/-- The Promotion that is stored with a key. -/
def World.promotion? (key : Key) (w : World ε) : Option Promotion :=
  w.store.promotions.get? key

namespace World

variable {key : Key} {r : Request} {a : r.Answer}

/-- Nothing that a reconcile asks for touches a Promotion, but for a write that is accepted. -/
theorem promotion?_of_answers (unwritten : Reply.stored? ⟨r, a⟩ = none)
    (h : w.Answers (fun _ _ _ => True) r a w') : w'.promotion? key = w.promotion? key := by
  have still (unwriting : ¬ r.Writes) : w'.promotion? key = w.promotion? key := by
    rw [promotion?, store_of_answers unwriting h]
    rfl
  cases r with
  | updateStatus k v s =>
    cases a with
    | ok v' => cases unwritten
    | error err => rw [h.refused.1]
  | requestReverification k =>
    obtain ⟨engine, served, _⟩ := h
    have after := snd_attempt (·.requestReverification k w.clock) w
    rw [show attempt (·.requestReverification k w.clock) w = (a, w') from served] at after
    cases show w' = _ from after
    exact congrArg (Dict.get? · key) (w.store.alike_requestReverification k w.clock).promotions
  | now | getPromotion | getStage | getFreight | listPromotions | acquire | release | promote
  | emit => exact still id

theorem promotion?_given (unwritten : replies.filterMap Reply.stored? = [])
    (h : w.Gives (promotion? key) replies w') : w'.promotion? key = w.promotion? key := by
  induction h with
  | nil others => exact others
  | cons others answers rest ih =>
    rename_i r a _
    obtain ⟨first, later⟩ : Reply.stored? ⟨r, a⟩ = none ∧ _ := by
      rw [List.filterMap_cons] at unwritten
      split at unwritten
      · exact ⟨‹_›, unwritten⟩
      · cases unwritten
    exact (ih later).trans ((promotion?_of_answers first answers).trans others)

/-- A Promotion that is read is there. -/
theorem promotion?_read {p : Option Promotion}
    (h : w.Gives (promotion? key) (⟨.getPromotion key, .ok p⟩ :: replies) w') :
    w.promotion? key = p := by
  cases h with
  | cons others answers rest =>
    exact others.symm.trans answers.read.2.2

theorem gives_cons {κ : Type} {kept : World ε → κ} {reply : Reply}
    (h : w.Gives kept (reply :: replies) w') :
    ∃ u, w.Gives kept [reply] u ∧ u.Gives kept replies w' := by
  cases h with
  | cons others answers rest => exact ⟨_, .cons others answers (.nil rfl), rest⟩

theorem gives_trans {κ : Type} {kept : World ε → κ} {front back : List Reply} {u : World ε}
    (h : w.Gives kept front u) (h' : u.Gives kept back w') : w.Gives kept (front ++ back) w' := by
  induction h with
  | nil others => exact h'.after others
  | cons others answers _ ih => exact .cons others answers (ih h')

/-- What comes of a write over a Promotion that is there, if nobody else writes to it. -/
theorem promotion?_written {a : Except StoreError Nat} (there : w.promotion? p.key = some p)
    (h : w.Gives (promotion? p.key) [⟨Reconciler.write p s, a⟩] w') :
    (∃ v, a = .ok v ∧ s.unfit? p.spec = none ∧ w'.promotion? p.key = some (p.withStatus v s)) ∨
      (∃ unfit, a = .error (.invalid p.key unfit) ∧ s.unfit? p.spec = some unfit ∧
        w'.promotion? p.key = some p) ∨
      ∃ reason, a = .error (.unavailable reason) := by
  cases h with
  | cons others answers rest =>
    rename_i u v
    obtain ⟨engine, served, _⟩ := answers
    have served : perform engine (.updateStatus p.key p.metadata.version s) u = (a, v) := served
    have stored : u.store.promotions.get? p.key = some p := others.trans there
    have last : w'.promotion? p.key = v.promotion? p.key := promotion?_given rfl rest
    by_cases available : u.store.available = true
    · cases fit : s.unfit? p.spec with
      | none =>
        rw [perform_updateStatus_of_fit available stored fit] at served
        cases served
        exact .inl ⟨_, rfl, rfl, last.trans (u.store.get?_advanced p s)⟩
      | some unfit =>
        rw [perform_updateStatus_of_unfit available stored fit] at served
        cases served
        exact .inr (.inl ⟨unfit, rfl, rfl, last.trans stored⟩)
    · refine .inr (.inr ⟨"in-memory store marked unavailable", ?_⟩)
      have served : attempt (·.updateStatus p.key p.metadata.version s) u = (a, v) := served
      unfold attempt Store.updateStatus Store.whenAvailable at served
      dsimp only at served
      rw [if_neg available] at served
      cases served
      rfl

theorem promotion?_accepted {v : Nat} (there : w.promotion? p.key = some p)
    (h : w.Gives (promotion? p.key) [⟨Reconciler.write p s, .ok v⟩] w') :
    s.unfit? p.spec = none ∧ w'.promotion? p.key = some (p.withStatus v s) := by
  rcases promotion?_written there h with ⟨_, same, written⟩ | ⟨_, same, _⟩ | ⟨_, same⟩
  · cases same
    exact written
  · cases same
  · cases same

theorem promotion?_refused {err : StoreError} (up : ∀ reason, .unavailable reason ≠ err)
    (there : w.promotion? p.key = some p)
    (h : w.Gives (promotion? p.key) [⟨Reconciler.write p s, .error err⟩] w') :
    ∃ unfit, err = .invalid p.key unfit ∧ s.unfit? p.spec = some unfit ∧
      w'.promotion? p.key = some p := by
  rcases promotion?_written there h with ⟨_, same, _⟩ | ⟨unfit, same, why⟩ | ⟨reason, same⟩
  · cases same
  · cases same
    exact ⟨unfit, rfl, why⟩
  · cases same
    exact absurd rfl (up reason)

end World

namespace Reconciler

variable {c : Reconciler} {stage : Stage} {freight : Option Freight} {initial : Option Phase}

/-- What is written over a Promotion after its steps were attempted: what the engine answered,
or that the Promotion has errored. It is dated if it is the end, and answers the refresh. -/
inductive Proposes (c : Reconciler) (q : Promotion) (replies : List Reply) :
    PromotionStatus → Prop where
  | answered (stage : Stage) (f : Freight) (fresh : Bool) (r : Except EngineError EngineResult)
      (now : Instant) (called : (⟨c.engineCall q stage f fresh, .of r⟩ : Reply) ∈ replies) :
      Proposes c q replies (answering q ((resultStatus (startFor q stage f fresh) r).ended now))
  | errored (message : String) (now : Instant)
      (unanswered : ∀ r, .of r ∉ replies.filterMap Reply.engine?) :
      Proposes c q replies (answering q ((q.status.errored message).ended now))

/-- A status that the store does not accept is replaced by the one from before, errored. -/
structure FallsBack (q : Promotion) (replies : List Reply) (after : PromotionStatus) : Prop where
  kept : after = { q.status with
    phase := some .errored
    message := after.message
    finishedAt := after.finishedAt
    lastHandledRefresh := after.lastHandledRefresh }
  message : ∃ rest, after.message = some ("error updating status:" ++ rest)
  fits : (after.message.getD "").utf8ByteSize ≤ messageLimit
  finished : after.finishedAt ≠ none
  refreshed : after.lastHandledRefresh =
    (Annotations.refreshToken q.metadata.annotations).or q.status.lastHandledRefresh
  announced : ∃ n, replies.filterMap Reply.emitted? = [n] ∧ n.reason = Notice.erroredReason ∧
    n.object = q.key ∧ n.uid = q.metadata.uid

theorem lastHandledRefresh_answering (s : PromotionStatus) (now : Instant) :
    (answering q (s.ended now)).lastHandledRefresh =
      (Annotations.refreshToken q.metadata.annotations).or s.lastHandledRefresh := by
  have same : (s.ended now).lastHandledRefresh = s.lastHandledRefresh := by
    unfold PromotionStatus.ended
    split <;> rfl
  unfold answering
  cases Annotations.refreshToken q.metadata.annotations with
  | none => exact same
  | some token => rfl

theorem Proposes.refreshed (h : c.Proposes q replies s) : s.lastHandledRefresh =
    (Annotations.refreshToken q.metadata.annotations).or q.status.lastHandledRefresh := by
  cases h with
  | answered stage f fresh r now =>
    rw [lastHandledRefresh_answering]
    cases r <;> cases fresh <;> rfl
  | errored message now => exact lastHandledRefresh_answering _ now

theorem Stamps.eq (h : Stamps p s replies s') : ∃ now, s' = answering p (s.ended now) := by
  cases h with
  | unended unended => exact ⟨default, by rw [PromotionStatus.ended, unended]; rfl⟩
  | ended ended now => exact ⟨now, by rw [PromotionStatus.ended, if_pos ended]⟩

theorem proposes_of_drafted {steps draft stamp : List Reply} {promoted : Promoted}
    (promotes : c.Promotes p stage freight steps promoted) (drafts : Drafts p promoted draft s)
    (stamps : Stamps p s stamp s') : c.Proposes p (steps ++ (draft ++ stamp)) s' := by
  have uncalled := stamps.idle.engine
  obtain ⟨now, rfl⟩ := stamps.eq
  cases promotes with
  | unfound | unavailable | roomless =>
    cases drafts
    refine .errored _ now fun r hr => ?_
    rw [List.filterMap_append, List.filterMap_append, uncalled] at hr
    cases hr
  | crashed f found available fresh crash =>
    cases drafts
    refine .errored _ now fun r hr => ?_
    rw [List.filterMap_append, List.filterMap_append, uncalled] at hr
    cases r <;> cases List.mem_singleton.mp hr
  | answered f found available fresh r settles =>
    cases drafts
    exact .answered stage f fresh r now (List.mem_append_left _ (.tail _ (.head _)))

/-- What the final write comes to if nobody else writes to the Promotion. -/
theorem Persists.lands {persisted : Except StoreError PromotionStatus}
    (h : Persists p s replies persisted) (there : w.promotion? p.key = some p)
    (fit : p.status.unfit? p.spec = none) (gives : w.Gives (World.promotion? p.key) replies w')
    (up : Up replies) :
    ∃ written v, persisted = .ok written ∧ w'.promotion? p.key = some (p.withStatus v written) ∧
      (s.unfit? p.spec = none ∧ written = s ∨ ∃ unfit now, s.unfit? p.spec = some unfit ∧
        written = fallback p s (.invalid p.key unfit) now) := by
  cases h with
  | written v =>
    obtain ⟨fit, stored⟩ := World.promotion?_accepted there gives
    exact ⟨s, v, rfl, stored, .inl ⟨fit, rfl⟩⟩
  | refused err valid =>
    obtain ⟨_, rfl, _⟩ := World.promotion?_refused
      (fun reason same => up reason (same ▸ .head _)) there gives
    cases valid
  | replaced err invalid now v =>
    obtain ⟨u, first, gives⟩ := World.gives_cons gives
    obtain ⟨unfit, rfl, why, there⟩ := World.promotion?_refused
      (fun reason same => up reason (same ▸ .head _)) there first
    obtain ⟨u', second, gives⟩ := World.gives_cons gives
    have there := (World.promotion?_given rfl second).trans there
    exact ⟨_, v, rfl, (World.promotion?_accepted there gives).2, .inr ⟨unfit, now, why, rfl⟩⟩
  | refusedAgain err invalid now err' =>
    obtain ⟨u, first, gives⟩ := World.gives_cons gives
    obtain ⟨unfit, rfl, _, there⟩ := World.promotion?_refused
      (fun reason same => up reason (same ▸ .head _)) there first
    obtain ⟨u', second, gives⟩ := World.gives_cons gives
    have there := (World.promotion?_given rfl second).trans there
    obtain ⟨_, _, why, _⟩ := World.promotion?_refused
      (fun reason same => up reason (same ▸ .tail _ (.head _))) there gives
    -- what takes the place of a status that is not fit is fit
    rw [unfit?_fallback s _ now fit] at why
    cases why

/-- Only the end of a reconcile is announced. -/
theorem Promotes.unannounced {promoted : Promoted}
    (h : c.Promotes p stage freight replies promoted) :
    replies.filterMap Reply.emitted? = [] := by
  cases h with
  | unfound | unavailable | roomless | crashed => rfl
  | answered f found available fresh r settles => cases settles <;> rfl

theorem Drafts.unannounced {promoted : Promoted} (h : Drafts p promoted replies s) :
    replies.filterMap Reply.emitted? = [] := by
  cases h <;> rfl

theorem Stamps.unannounced (h : Stamps p s replies s') :
    replies.filterMap Reply.emitted? = [] := by
  cases h <;> rfl

theorem Persists.unannounced {persisted : Except StoreError PromotionStatus}
    (h : Persists p s replies persisted) : replies.filterMap Reply.emitted? = [] := by
  cases h <;> rfl

theorem Pends.unannounced (h : Pends p replies q) : replies.filterMap Reply.emitted? = [] := by
  cases h <;> rfl

theorem Begins.unannounced (h : Begins p replies q) : replies.filterMap Reply.emitted? = [] := by
  cases h <;> rfl

/-- At the end the notice of it is emitted, if it is one. -/
theorem Concludes.emitted (h : c.Concludes p stage freight initial s replies e) :
    replies.filterMap Reply.emitted? = (c.closing p stage freight initial s).toList := by
  cases h with
  | running running now =>
    have unended : ¬ (s.isTerminal = true ∧ s.phase ≠ initial) := by
      rw [PromotionStatus.isTerminal_of_phase running]
      exact fun h => by cases h.1
    rw [closing, if_neg unended]
    rfl
  | silent resting nothing =>
    rw [nothing]
    rfl
  | announced resting n closing =>
    rw [closing]
    rfl

/-- The status in the place of an unfit one tells why, is cut to what is kept, and its end is
announced like any other. -/
theorem fallsBack_of_fallback {front : List Reply} {err : StoreError} {now : Instant}
    (proposes : c.Proposes q front s) (unended : initial ≠ some .errored)
    (emitted : replies.filterMap Reply.emitted? =
      (c.closing q stage freight initial (fallback q s err now)).toList) :
    FallsBack q replies (fallback q s err now) where
  kept := rfl
  message := by
    have fits : "error updating status:".utf8ByteSize ≤ messageLimit := by decide
    obtain ⟨rest, same⟩ := truncate_append "error updating status:" (" " ++ err.message) fits
    refine ⟨rest, congrArg some (Eq.trans ?_ same)⟩
    rw [← String.append_assoc]
    rfl
  fits := (shortens_truncate _ _).fits
  finished := Option.some_ne_none _
  refreshed := proposes.refreshed
  announced := by
    have ends : (fallback q s err now).isTerminal = true ∧
        (fallback q s err now).phase ≠ initial := ⟨rfl, unended.symm⟩
    rw [closing, if_pos ends] at emitted
    exact ⟨_, emitted, rfl, rfl, rfl⟩

/-- A running Promotion is looked at again, if the sums of times by which that is scheduled
have dates. -/
theorem finished_lookAgain_iff (now : Instant) : (∃ delay, c.lookAgain p s now = .finished delay) ↔
    { p with status := s }.Schedulable c.runnerDefault c.config.interval now := by
  have overflows := Promotion.nextDelay_eq_none_iff { p with status := s } c.runnerDefault
    c.config.interval now
  unfold lookAgain
  cases delay : { p with status := s }.nextDelay c.runnerDefault c.config.interval now with
  | none => exact iff_of_false (by rintro ⟨_, h⟩; cases h) (overflows.mp delay)
  | some delay' =>
    refine iff_of_true ⟨_, rfl⟩ (not_not.mp fun h => ?_)
    cases delay.symm.trans (overflows.mpr h)

/-- The final write of a reconcile lands: it is made over `q`, to store `proposed`, and in the
end `after` is stored. -/
structure Lands (c : Reconciler) (w : World ε) (replies : List Reply) (e : Ending) (w' : World ε)
    (q : Promotion) (proposed after : PromotionStatus) : Prop where
  reached : ∃ front back a u, replies = front ++ ⟨write q proposed, a⟩ :: back ∧
    w.Gives (World.promotion? q.key) front u ∧ u.promotion? q.key = some q ∧
      c.Proposes q front proposed
  stored : ∃ v, w'.promotion? q.key = some (q.withStatus v after)
  accepted : proposed.unfit? q.spec = none → after = proposed
  replaced : proposed.unfit? q.spec ≠ none → FallsBack q replies after
  unfailed : ∀ err, e ≠ .failed err
  finished_iff : (∃ delay, e = .finished delay) ↔ (after.phase = some .running → ∀ now,
    replies.getLast? = some ⟨.now, now⟩ →
      { q with status := after }.Schedulable c.runnerDefault c.config.interval now)

/-- What goes before makes no difference, if it neither calls the engine nor emits notices. -/
theorem Lands.extend {u : World ε} {front back : List Reply} {proposed after : PromotionStatus}
    (h : c.Lands u back e w' q proposed after) (gives : w.Gives (World.promotion? q.key) front u)
    (uncalled : front.filterMap Reply.engine? = [])
    (unannounced : front.filterMap Reply.emitted? = []) :
    c.Lands w (front ++ back) e w' q proposed after := by
  obtain ⟨front', back', a, u', rfl, gives', there, proposes⟩ := h.reached
  refine ⟨⟨front ++ front', back', a, u', ?_, ?_, there, ?_⟩, h.stored, h.accepted, ?_,
    h.unfailed, ?_⟩
  · rw [List.append_assoc]
  · exact World.gives_trans gives gives'
  · cases proposes with
    | answered stage f fresh r now called =>
      exact .answered stage f fresh r now (List.mem_append_right _ called)
    | errored message now unanswered =>
      refine .errored message now fun r hr => unanswered r ?_
      rwa [List.filterMap_append, uncalled] at hr
  · intro unfit
    have fallsBack := h.replaced unfit
    refine { fallsBack with announced := ?_ }
    rw [List.filterMap_append, unannounced]
    exact fallsBack.announced
  · rw [List.getLast?_append_of_ne_nil _ (by simp)]
    exact h.finished_iff

/-- The final write is made in any case. -/
theorem Persists.attempted {persisted : Except StoreError PromotionStatus}
    (h : Persists p s replies persisted) : ∃ a rest, replies = ⟨write p s, a⟩ :: rest := by
  cases h with
  | written | refused | replaced | refusedAgain => exact ⟨_, _, rfl⟩

/-- A reconcile does not fail once its final write has landed. -/
theorem Concludes.unfailed (h : c.Concludes p stage freight initial s replies e)
    (err : ReconcileError) : e ≠ .failed err := by
  cases h with
  | running running now =>
    unfold lookAgain
    split <;> exact fun h => by cases h
  | silent | announced => exact fun h => by cases h

theorem Concludes.finished_iff_schedulable {front : List Reply}
    (h : c.Concludes p stage freight initial s replies e) :
    (∃ delay, e = .finished delay) ↔ (s.phase = some .running → ∀ now,
      (front ++ replies).getLast? = some ⟨.now, now⟩ →
        { p with status := s }.Schedulable c.runnerDefault c.config.interval now) := by
  cases h with
  | running running now =>
    rw [show (∃ delay, c.lookAgain p s now = .finished delay) ↔ _ from finished_lookAgain_iff now,
      List.getLast?_append_of_ne_nil _ (by simp)]
    constructor
    · intro schedulable _ _ last
      cases last
      exact schedulable
    · intro h
      exact h running now rfl
  | silent resting | announced resting =>
    exact iff_of_true ⟨none, rfl⟩ fun running => absurd running resting

/-- If nobody else writes to the Promotion, the steps are attempted over the Promotion that is
there, and the final write lands. -/
theorem landed_of_attempt {steps draft stamp writes rest : List Reply} {promoted : Promoted}
    {persisted : Except StoreError PromotionStatus}
    (promotes : c.Promotes p stage freight steps promoted) (drafts : Drafts p promoted draft s)
    (stamps : Stamps p s stamp s') (persists : Persists p s' writes persisted)
    (there : w.promotion? p.key = some p) (fit : p.status.unfit? p.spec = none)
    (gives : w.Gives (World.promotion? p.key) (steps ++ (draft ++ (stamp ++ (writes ++ rest)))) w')
    (up : Up (steps ++ (draft ++ (stamp ++ (writes ++ rest))))) :
    ∃ (u u' : World ε) (written : PromotionStatus) (v : Nat),
      w.Gives (World.promotion? p.key) (steps ++ (draft ++ stamp)) u ∧
      u.promotion? p.key = some p ∧ u'.Gives (World.promotion? p.key) rest w' ∧
      persisted = .ok written ∧ u'.promotion? p.key = some (p.withStatus v written) ∧
      (s'.unfit? p.spec = none ∧ written = s' ∨ ∃ unfit now, s'.unfit? p.spec = some unfit ∧
        written = fallback p s' (.invalid p.key unfit) now) := by
  have unwritten : (steps ++ (draft ++ stamp)).filterMap Reply.stored? = [] :=
    (promotes.unwritten.append (drafts.unwritten.append stamps.unwritten)).stored
  rw [← List.append_assoc draft, ← List.append_assoc steps] at gives
  obtain ⟨u, first, gives⟩ := World.gives_append gives
  obtain ⟨u', second, last⟩ := World.gives_append gives
  have there := (World.promotion?_given unwritten first).trans there
  obtain ⟨written, v, same, stored, outcome⟩ := persists.lands there fit second
    (up_append.mp (up_append.mp (up_append.mp (up_append.mp up).2).2).2).1
  exact ⟨u, u', written, v, first, there, last, same, stored, outcome⟩

theorem lands_of_executes (h : c.Executes p stage freight initial replies e)
    (there : w.promotion? p.key = some p) (fit : p.status.unfit? p.spec = none)
    (unended : initial ≠ some .errored) (gives : w.Gives (World.promotion? p.key) replies w')
    (up : Up replies) :
    ∃ proposed after, c.Lands w replies e w' p proposed after := by
  cases h with
  | refused err promotes drafts stamps persists =>
    rename_i steps draft stamp writes promoted s s'
    rw [← List.append_nil writes] at gives up
    obtain ⟨_, _, _, _, _, _, _, landed, _⟩ :=
      landed_of_attempt promotes drafts stamps persists there fit gives up
    cases landed
  | concluded promotes drafts stamps persists concludes =>
    rename_i steps draft stamp writes rest promoted s s' written
    obtain ⟨u, u', _, v, first, there, last, same, stored, outcome⟩ :=
      landed_of_attempt promotes drafts stamps persists there fit gives up
    cases same
    have stored := (World.promotion?_given concludes.unwritten.stored last).trans stored
    have proposes := proposes_of_drafted promotes drafts stamps
    have emitted : (steps ++ (draft ++ (stamp ++ (writes ++ rest)))).filterMap Reply.emitted? =
        (c.closing p stage freight initial written).toList := by
      simp only [List.filterMap_append, promotes.unannounced, drafts.unannounced,
        stamps.unannounced, persists.unannounced, concludes.emitted, List.nil_append]
    refine ⟨s', written, ?_, ⟨v, stored⟩, fun accepted => ?_, fun rejected => ?_,
      concludes.unfailed, ?_⟩
    · obtain ⟨a, others, rfl⟩ := persists.attempted
      exact ⟨_, others ++ rest, a, u, by simp, first, there, proposes⟩
    · rcases outcome with ⟨_, rfl⟩ | ⟨_, _, unfit, _⟩
      · rfl
      · cases accepted.symm.trans unfit
    · rcases outcome with ⟨fit, _⟩ | ⟨_, _, _, rfl⟩
      · exact absurd fit rejected
      · exact fallsBack_of_fallback proposes unended emitted
    · simp only [← List.append_assoc]
      exact concludes.finished_iff_schedulable

theorem Pends.there (h : Pends p replies q) (there : w.promotion? p.key = some p)
    (gives : w.Gives (World.promotion? p.key) replies w') : w'.promotion? q.key = some q := by
  cases h with
  | known => exact (World.promotion?_given rfl gives).trans there
  | written unknown v => exact (World.promotion?_accepted there gives).2

theorem Begins.there (h : Begins p replies q) (there : w.promotion? p.key = some p)
    (gives : w.Gives (World.promotion? p.key) replies w') : w'.promotion? q.key = some q := by
  cases h with
  | running => exact (World.promotion?_given rfl gives).trans there
  | written waiting now v =>
    obtain ⟨u, first, gives⟩ := World.gives_cons gives
    have there := (World.promotion?_given rfl first).trans there
    exact (World.promotion?_accepted there gives).2

theorem Pends.unfit? (h : Pends p replies q) : q.status.unfit? q.spec = p.status.unfit? p.spec := by
  cases h <;> rfl

theorem Begins.unfit? (h : Begins p replies q) :
    q.status.unfit? q.spec = p.status.unfit? p.spec := by
  cases h <;> rfl

/-- The Promotion as it is, if it is running, or begun. -/
inductive Underway (p : Promotion) : Promotion → Prop where
  | running (running : p.status.phase = some .running) : Underway p p
  | begun (waiting : p.status.phase ≠ some .running) (now : Instant) (v : Nat) :
      Underway p (p.withStatus v (begun p.status now))

theorem Begins.underway (h : Begins p replies q) : Underway p q := by
  cases h with
  | running running => exact .running running
  | written waiting now v => exact .begun waiting now v

/-- To give a Promotion its first phase makes no difference to how it begins. -/
theorem Underway.of_pends {r : Promotion} (h : Underway q r) (pends : Pends p replies q) :
    Underway p r := by
  cases pends with
  | known => exact h
  | written unknown v =>
    cases h with
    | running running => cases running
    | begun waiting now v' =>
      refine .begun (fun running => ?_) now v'
      cases unknown.symm.trans running

theorem lands_of_approaches {key : Key} (h : c.Approaches key p freight replies e)
    (there : w.promotion? p.key = some p) (fit : p.status.unfit? p.spec = none)
    (unended : p.status.isTerminal = false) (gives : w.Gives (World.promotion? p.key) replies w')
    (up : Up replies)
    (named : ∃ stage ∈ replies.filterMap Reply.stage?,
      stage.currentPromotionName = some p.metadata.name) :
    ∃ q proposed after, Underway p q ∧ c.Lands w replies e w' q proposed after := by
  obtain ⟨seen, hseen, named⟩ := named
  cases h with
  | blind | stageless => cases hseen
  | parked stage unnamed =>
    cases List.mem_singleton.mp (show seen ∈ [stage] from hseen)
    exact absurd named unnamed
  | refused stage _ waiting now err =>
    obtain ⟨u, first, gives⟩ := World.gives_cons gives
    obtain ⟨u', second, gives⟩ := World.gives_cons gives
    have there := (World.promotion?_given rfl first).trans there
    have there := (World.promotion?_given rfl second).trans there
    obtain ⟨_, _, why, _⟩ := World.promotion?_refused
      (fun reason same => up reason (same ▸ .head _)) there gives
    -- a Promotion that begins is as fit as before
    cases fit.symm.trans why
  | admitted stage _ begins executes =>
    rename_i start rest q
    have key := begins.keeps.key
    have unended : p.status.phase ≠ some .errored := by
      intro errored
      rw [PromotionStatus.isTerminal_of_phase errored] at unended
      cases unended
    rw [← List.cons_append] at gives up ⊢
    obtain ⟨u, early, late⟩ := World.gives_append gives
    obtain ⟨u', first, second⟩ := World.gives_cons early
    have there := begins.there ((World.promotion?_given rfl first).trans there) second
    obtain ⟨proposed, after, lands⟩ := lands_of_executes executes there (begins.unfit?.trans fit)
      unended (key ▸ late) (up_append.mp up).2
    exact ⟨q, proposed, after, begins.underway,
      lands.extend (key ▸ early) (begins.idle_read _ stage).engine begins.unannounced⟩

/-- A reconcile of a Promotion that is stored with a fit status gets to the steps, for it finds
that the Stage names the Promotion. Nobody else writes to the Promotion meanwhile, and no write
finds the store down. -/
structure Reaches (c : Reconciler) (p : Promotion) (w : World ε) (replies : List Reply)
    (e : Ending) (w' : World ε) : Prop where
  stored : w.promotion? p.key = some p
  fit : p.status.unfit? p.spec = none
  course : (c.reconcile p.key).Course replies e
  gives : w.Gives (World.promotion? p.key) replies w'
  up : Up replies
  named : ∃ stage ∈ replies.filterMap Reply.stage?,
    stage.currentPromotionName = some p.metadata.name

/-- The final write lands, whatever the engine has reported, and the reconcile does not fail.
It is finished exactly if the Promotion is not running then, or the sums of times by which the
next look is scheduled have dates. -/
theorem lands_of_reaches (h : c.Reaches p w replies e w') :
    ∃ q proposed after, Underway p q ∧ c.Lands w replies e w' q proposed after := by
  obtain ⟨there, fit, course, gives, up, seen, hseen, named⟩ := h
  cases c.visits_of_course course with
  | blind | absent | ended | unsupplied | unmarked => cases hseen
  | aborted p' unended freight request asked terminates => cases terminates <;> cases hseen
  | approached p' unended freight unaborted pends approaches =>
    rename_i mark rest q
    cases there.symm.trans (World.promotion?_read gives)
    have key := pends.keeps.key
    have known : q.status.isTerminal = false := by cases pends <;> first | exact unended | rfl
    have same : q.metadata.name = p.metadata.name := congrArg Key.name key
    have unseen : mark.filterMap Reply.stage? = [] := by cases pends <;> rfl
    have hseen : seen ∈ (mark ++ rest).filterMap Reply.stage? := hseen
    rw [List.filterMap_append, unseen, List.nil_append] at hseen
    rw [← List.cons_append, ← List.cons_append] at gives up ⊢
    obtain ⟨u, early, late⟩ := World.gives_append gives
    obtain ⟨u₁, first, later⟩ := World.gives_cons early
    obtain ⟨u₂, second, third⟩ := World.gives_cons later
    have there := (World.promotion?_given rfl first).trans there
    have there := pends.there ((World.promotion?_given rfl second).trans there) third
    obtain ⟨r, proposed, after, underway, lands⟩ :=
      lands_of_approaches approaches there (pends.unfit?.trans fit) known (key ▸ late)
        (up_append.mp up).2 ⟨seen, hseen, same ▸ named⟩
    have key' : r.key = q.key := by cases underway <;> rfl
    exact ⟨r, proposed, after, underway.of_pends pends,
      lands.extend (key'.trans key ▸ early) (pends.idle_read _ freight).engine pends.unannounced⟩

/-- An engine that reports more steps than there are. -/
def overreachingEngine : Engine (World Unit) :=
  fun _ _ w => (.result ⟨.succeeded, none, 2, [], default, []⟩, w)

/-- What is reported cannot be stored, and the Promotion errs. -/
theorem lands_of_overreaching : ∃ (c : Reconciler) (p : Promotion) (w w' : World Unit)
    (replies : List Reply) (e : Ending), c.Reaches p w replies e w' ∧
      (w'.promotion? p.key).map (fun p => (p.status.phase, p.status.message)) =
        some (some .errored, some ("error updating status: invalid status for a/p: " ++
          "currentStep 2 exceeds the 1 declared steps")) ∧
      ∃ q proposed after, Underway p q ∧ c.Lands w replies e w' q proposed after := by
  let w := Traffic.whereOneWaits
  let replies := Traffic.reconcileOne.told (World.perform overreachingEngine) w
  let left := Traffic.reconcileOne.run (World.perform overreachingEngine) w
  have unrefused : replies.filterMap Reply.refused? =
    [.invalid ⟨"a", "p"⟩ (.stepBeyond 2 1)] := by decide +kernel
  have reaches : Reaches ⟨default, fun _ => none⟩ unbegun w replies left.1 left.2 :=
    { stored := by decide +kernel
      fit := by decide +kernel
      course := course_run (World.perform overreachingEngine) Traffic.reconcileOne w
      gives := World.gives_run (fun _ _ _ => rfl) Traffic.reconcileOne w
      up := fun reason down => by
        rw [unrefused] at down
        cases List.mem_singleton.mp down
      named := by decide +kernel }
  exact ⟨_, _, _, _, _, _, reaches, by decide +kernel, lands_of_reaches reaches⟩

/-- A step that may take longer than there are dates. -/
def endless : DeclaredStep :=
  { DeclaredStep.ofKind "wait" with retry := some ⟨some (9 * 10 ^ 12), none⟩ }

def whereOneIsEndless : World Unit :=
  let p := Promotion.fresh (.fresh "a" "p" default) ⟨"s", "f", [], [endless]⟩
  { Traffic.whereOneWaits with
    store := (Traffic.oneWaits.dropLast ++ [Edit.create p ⟨3⟩]).foldl Edit.apply .empty }

def endlessPromotion : Promotion :=
  (whereOneIsEndless.store.promotions.get? ⟨"a", "p"⟩).getD default

/-- The status of the step in flight is stored, and the reconcile breaks down. -/
theorem crashed_of_endless : ∃ (c : Reconciler) (p : Promotion) (w w' : World Unit)
    (replies : List Reply) (crash : Crash), c.Reaches p w replies (.crashed crash) w' ∧
      (w'.promotion? p.key).map (fun p => p.status.phase) = some (some .running) := by
  let replies := Traffic.reconcileOne.told (World.perform Traffic.patientEngine) whereOneIsEndless
  let left := Traffic.reconcileOne.run (World.perform Traffic.patientEngine) whereOneIsEndless
  have crashed : left.1 = .crashed (.words "\x60DateTime + TimeDelta\x60 overflowed") := by
    decide +kernel
  have unrefused : replies.filterMap Reply.refused? = [] := by decide +kernel
  have reaches : Reaches ⟨default, fun _ => none⟩ endlessPromotion whereOneIsEndless replies
      left.1 left.2 :=
    { stored := by decide +kernel
      fit := by decide +kernel
      course := course_run (World.perform Traffic.patientEngine) Traffic.reconcileOne
        whereOneIsEndless
      gives := World.gives_run (fun _ _ _ => rfl) Traffic.reconcileOne whereOneIsEndless
      up := fun reason down => by
        rw [unrefused] at down
        cases down
      named := by decide +kernel }
  exact ⟨_, _, _, _, _, _, crashed ▸ reaches, by decide +kernel⟩

end Reconciler

end Drayage
