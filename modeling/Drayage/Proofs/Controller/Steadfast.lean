import Drayage.Proofs.Controller.Aborting

/-!
# Reconciles that stop for good

A reconcile that nobody interferes with stops for good only if there is nothing more to do:
its Promotion is gone, has ended, or is not the one that its Stage names. The one exception
is an engine that puts off a Promotion which it was asked to carry out. What it reports is
stored, so that the Promotion waits again, and nobody will look at it.
-/

namespace Drayage

open Program

variable {ε : Type} {w w' : World ε} {p q : Promotion} {s s' : PromotionStatus}
  {replies : List Reply} {e : Ending}

/-- A request by which something may be written to the store. -/
def Request.Writes : Request → Prop
  | .updateStatus _ _ _ | .requestReverification _ => True
  | .now | .getPromotion _ | .getStage _ | .getFreight _ | .listPromotions | .acquire _
  | .release _ | .promote _ _ | .emit _ => False

namespace World

variable {r : Request} {a : r.Answer}

/-- The part of a world that a request can change. -/
inductive Touches (w : World ε) (r : Request) : World ε → Prop where
  | nothing : Touches w r w
  | workspaces (workspaces : Workspaces) : Touches w r { w with workspaces }
  | store (writes : r.Writes) (store : Store) : Touches w r { w with store }
  | notices (n : Notice) (emits : r = .emit n) :
      Touches w r { w with notices := w.notices.push n }

theorem touches_of_answers {may : PromotionContext → List Step → EngineAnswer → Prop}
    (h : w.Answers may r a w') : w.Touches r w' := by
  obtain ⟨engine, served, quiet⟩ := h
  cases r with
  | updateStatus key v s =>
    have after := snd_attempt (·.updateStatus key v s) w
    rw [show attempt (·.updateStatus key v s) w = (a, w') from served] at after
    cases show w' = _ from after
    exact .store (show (Request.updateStatus key v s).Writes from trivial) _
  | requestReverification key =>
    have after := snd_attempt (·.requestReverification key w.clock) w
    rw [show attempt (·.requestReverification key w.clock) w = (a, w') from served] at after
    cases show w' = _ from after
    exact .store (show (Request.requestReverification key).Writes from trivial) _
  | promote ctx steps =>
    have same := (quiet ctx steps rfl).2
    rw [show engine ctx steps w = (a, w') from served] at same
    cases show w' = w from same
    exact .nothing
  | acquire uid =>
    unfold perform acquire at served
    dsimp only at served
    split at served
    · cases served
      exact .workspaces _
    · cases served
      exact .nothing
  | release uid =>
    unfold perform release at served
    dsimp only at served
    split at served
    · cases served
      exact .workspaces _
    · cases served
      exact .nothing
  | emit n =>
    cases served
    exact .notices n rfl
  | now | getPromotion | getStage | getFreight | listPromotions =>
    cases served
    exact .nothing

theorem store_of_answers (unwriting : ¬ r.Writes) (h : w.Answers (fun _ _ _ => True) r a w') :
    w'.store = w.store := by
  cases touches_of_answers h with
  | nothing | workspaces | notices => rfl
  | store writes => exact absurd writes unwriting

theorem gives_nil (h : w.Gives World.store [] w') : w'.store = w.store := by
  cases h with
  | nil others => exact others

theorem gives_unwriting (h : w.Gives World.store (⟨r, a⟩ :: replies) w') (unwriting : ¬ r.Writes) :
    w.Gives World.store replies w' := by
  cases h with
  | cons others answers rest => exact rest.after ((store_of_answers unwriting answers).trans others)

theorem promotion_of_given {key : Key} {p : Option Promotion}
    (h : w.Gives World.store (⟨.getPromotion key, .ok p⟩ :: replies) w') :
    w.store.available = true ∧ w.store.promotions.get? key = p := by
  cases h with
  | cons others answers rest =>
    exact others ▸ answers.read.2

theorem stage_of_given {key : Key} {stage : Option Stage}
    (h : w.Gives World.store (⟨.getStage key, .ok stage⟩ :: replies) w') :
    w.store.stages.get? key = stage := by
  cases h with
  | cons others answers rest =>
    rename_i u v
    obtain ⟨engine, served, _⟩ := answers
    have read : u.store.getStage key = .ok stage := congrArg Prod.fst served
    rw [others] at read
    unfold Store.getStage Store.whenAvailable at read
    split at read <;> cases read
    rfl

end World

namespace Store

/-- A Promotion that has not ended is stored as it was read, with a status that is fit. -/
structure Holds (s : Store) (p : Promotion) : Prop where
  available : s.available = true
  stored : s.promotions.get? p.key = some p
  fit : p.status.unfit? p.spec = none
  unended : p.status.isTerminal = false

/-- Two stores with the same Promotions and the same past. -/
structure Alike (s s' : Store) : Prop where
  promotions : s'.promotions = s.promotions
  available : s'.available = s.available
  changes : s'.changes = s.changes

theorem alike_of_eq {s s' : Store} (h : s' = s) : s.Alike s' := by
  rw [h]
  exact ⟨rfl, rfl, rfl⟩

theorem Alike.holds {s s' : Store} (h : s.Alike s') (held : s.Holds p) : s'.Holds p where
  available := h.available.trans held.available
  stored := by rw [h.promotions, held.stored]
  fit := held.fit
  unended := held.unended

theorem alike_requestReverification (s : Store) (key : Key) (now : Instant) :
    s.Alike (s.after (s.requestReverification key now)) := by
  rcases after_requestReverification key now with h | ⟨old, m, _, _, _, h⟩
  · exact alike_of_eq h
  · rw [h]
    exact ⟨rfl, rfl, changes_writeStage _ _⟩

/-- The store after a status was written over a Promotion. -/
def advanced (s : Store) (p : Promotion) (status : PromotionStatus) : Store :=
  s.writePromotion (some p) (p.withStatus (s.version + 1) status)

theorem get?_advanced (s : Store) (p : Promotion) (status : PromotionStatus) :
    (s.advanced p status).promotions.get? p.key = some (p.withStatus (s.version + 1) status) := by
  rw [advanced, get?_writePromotion, Promotion.key_withStatus, if_pos rfl]

theorem changes_advanced {s u : Store} (h : u.changes = s.changes) (p : Promotion)
    (status : PromotionStatus) : (u.advanced p status).changes =
      s.changes ++ [.updated p (p.withStatus (u.version + 1) status)] := by
  rw [← h]
  exact changes_writePromotion _ _

theorem Holds.advance {s : Store} (h : s.Holds p) {status : PromotionStatus}
    (fit : status.unfit? p.spec = none) (unended : status.isTerminal = false) :
    (s.advanced p status).Holds (p.withStatus (s.version + 1) status) where
  available := h.available
  stored := s.get?_advanced p status
  fit := fit
  unended := unended

end Store

namespace World

theorem gives_requestReverification {key : Key} {a : Except StoreError Unit}
    (h : w.Gives World.store (⟨.requestReverification key, a⟩ :: replies) w') :
    ∃ v : World ε, w.store.Alike v.store ∧ v.Gives World.store replies w' := by
  cases h with
  | cons others answers rest =>
    rename_i u v
    refine ⟨v, ?_, rest⟩
    obtain ⟨engine, served, _⟩ := answers
    have after := snd_attempt (·.requestReverification key u.clock) u
    rw [show attempt (·.requestReverification key u.clock) u = (a, v) from served] at after
    cases show v = _ from after
    rw [← others]
    exact u.store.alike_requestReverification key u.clock

/-- What comes of a write over a Promotion that is held, if nobody else writes. -/
theorem gives_write {a : Except StoreError Nat} (held : w.store.Holds p)
    (h : w.Gives World.store (⟨Reconciler.write p s, a⟩ :: replies) w') :
    (s.unfit? p.spec = none ∧ a = .ok (w.store.version + 1) ∧
      Gives World.store { w with store := w.store.advanced p s } replies w') ∨
    ∃ unfit, s.unfit? p.spec = some unfit ∧ a = .error (.invalid p.key unfit) ∧
      w.Gives World.store replies w' := by
  cases h with
  | cons others answers rest =>
    rename_i u v
    obtain ⟨engine, served, _⟩ := answers
    have served : perform engine (.updateStatus p.key p.metadata.version s) u = (a, v) := served
    have available : u.store.available = true := others ▸ held.available
    have stored : u.store.promotions.get? p.key = some p := others ▸ held.stored
    cases fit : s.unfit? p.spec with
    | none =>
      rw [perform_updateStatus_of_fit available stored fit] at served
      cases served
      refine .inl ⟨rfl, by rw [others], rest.after ?_⟩
      show u.store.advanced p s = w.store.advanced p s
      rw [others]
    | some unfit =>
      rw [perform_updateStatus_of_unfit available stored fit] at served
      cases served
      exact .inr ⟨unfit, rfl, rfl, rest.after others⟩

theorem gives_accepted {v : Nat} (held : w.store.Holds p)
    (h : w.Gives World.store (⟨Reconciler.write p s, .ok v⟩ :: replies) w') :
    s.unfit? p.spec = none ∧ v = w.store.version + 1 ∧
      Gives World.store { w with store := w.store.advanced p s } replies w' := by
  rcases gives_write held h with ⟨fit, accepted, rest⟩ | ⟨_, _, refused, _⟩
  · exact ⟨fit, Except.ok.inj accepted, rest⟩
  · cases refused

theorem gives_refused {err : StoreError} (held : w.store.Holds p)
    (h : w.Gives World.store (⟨Reconciler.write p s, .error err⟩ :: replies) w') :
    ∃ unfit, s.unfit? p.spec = some unfit ∧ err = .invalid p.key unfit ∧
      w.Gives World.store replies w' := by
  rcases gives_write held h with ⟨_, accepted, _⟩ | ⟨unfit, why, refused, rest⟩
  · cases accepted
  · exact ⟨unfit, why, Except.error.inj refused, rest⟩

theorem store_of_refused {err : StoreError} (held : w.store.Holds p)
    (h : w.Gives World.store [⟨Reconciler.write p s, .error err⟩] w') : w'.store = w.store := by
  obtain ⟨_, _, _, rest⟩ := gives_refused held h
  exact gives_nil rest

end World

/-- There is nothing more to do for a Promotion: it is gone, it has ended, or it is not the one
that its Stage names. -/
def Store.AtRest (s : Store) (key : Key) : Prop :=
  ∀ p, s.promotions.get? key = some p → p.status.isTerminal = true ∨
    ∃ stage, s.stages.get? ⟨key.project, p.spec.stage⟩ = some stage ∧
      stage.currentPromotionName ≠ some p.metadata.name

/-- A change of a Promotion that was running: it runs on, or it has ended. -/
def Change.Onward (change : Change Promotion) : Prop :=
  ∀ old, change.old = some old → old.status.phase = some .running →
    change.new.status.phase ≠ none ∧ change.new.status.phase ≠ some .pending

/-- The engine puts a Promotion off with a result that the store accepts. -/
def EngineResult.PutsOff (r : EngineResult) (spec : PromotionSpec) : Prop :=
  r.phase = .pending ∧ r.currentStep ≤ spec.steps.length ∧
    r.records.length ≤ spec.steps.length ∧ (r.message.getD "").utf8ByteSize ≤ messageLimit

/-- A Promotion is put off by one of the replies. -/
def PutOff (spec : PromotionSpec) (replies : List Reply) : Prop :=
  ∃ r, .result r ∈ replies.filterMap Reply.engine? ∧ r.PutsOff spec

/-- The rest of a reconcile stops for good only where nothing is left to do, and changes
Promotions only onward, unless the Promotion is put off. -/
structure Judged (key : Key) (spec : PromotionSpec) (replies : List Reply) (e : Ending)
    (s s' : Store) : Prop where
  grown : ∃ new, s'.changes = s.changes ++ new
  rests : (e = .finished none → s'.AtRest key) ↔ ¬ PutOff spec replies
  onward : (∀ change ∈ s.changesUpTo s', change.Onward) ↔ ¬ PutOff spec replies

theorem Store.atRest_of_ended {s : Store} {key : Key} (stored : s.promotions.get? key = some p)
    (ended : p.status.isTerminal = true) : s.AtRest key := by
  intro q hq
  rw [stored] at hq
  cases hq
  exact .inl ended

namespace Judged

variable {s₀ s s' u : Store} {key : Key} {spec : PromotionSpec} {front back : List Reply}
  {new : List (Change Promotion)} {status : PromotionStatus}

/-- Changes that lead onward make no difference. -/
theorem extend (h : Judged key spec back e s s') (changes : s.changes = s₀.changes ++ new)
    (onward : ∀ change ∈ new, change.Onward) (uncalled : front.filterMap Reply.engine? = []) :
    Judged key spec (front ++ back) e s₀ s' := by
  obtain ⟨⟨later, grown⟩, rests, leads⟩ := h
  have all : s'.changes = s₀.changes ++ (new ++ later) := by
    rw [grown, changes, List.append_assoc]
  have same : PutOff spec (front ++ back) ↔ PutOff spec back := by
    unfold PutOff
    rw [List.filterMap_append, uncalled, List.nil_append]
  refine ⟨⟨_, all⟩, rests.trans (not_congr same.symm), ?_⟩
  rw [same, ← leads, Store.changesUpTo_of_append all, Store.changesUpTo_of_append grown]
  constructor
  · intro h change hc
    exact h change (List.mem_append_right _ hc)
  · intro h change hc
    rcases List.mem_append.mp hc with hc | hc
    · exact onward change hc
    · exact h change hc

/-- Nothing was written. -/
theorem still (changes : s'.changes = s.changes) (rests : e = .finished none → s'.AtRest key)
    (uncalled : back.filterMap Reply.engine? = []) : Judged key spec back e s s' := by
  have none : s'.changes = s.changes ++ [] := by rw [changes, List.append_nil]
  have kept : ¬ PutOff spec back := by
    rintro ⟨r, hr, _⟩
    rw [uncalled] at hr
    cases hr
  refine ⟨⟨_, none⟩, iff_of_true rests kept, iff_of_true ?_ kept⟩
  rw [Store.changesUpTo_of_append none]
  intro change hc
  cases hc

/-- A status was written by which the Promotion runs on or ends. -/
theorem went (changes : u.changes = s.changes)
    (ended : e = .finished none → status.isTerminal = true) (known : status.phase ≠ none)
    (begun : status.phase ≠ some .pending) (kept : ¬ PutOff spec back) :
    Judged p.key spec back e s (u.advanced p status) := by
  have one := Store.changes_advanced changes p status
  refine ⟨⟨_, one⟩, iff_of_true ?_ kept, iff_of_true ?_ kept⟩
  · intro finished
    exact Store.atRest_of_ended (u.get?_advanced p status) (ended finished)
  · rw [Store.changesUpTo_of_append one]
    intro change hc _ _ _
    cases List.mem_singleton.mp hc
    exact ⟨known, begun⟩

/-- A running Promotion was left waiting, though its Stage names it. -/
theorem stuck {stage : Stage} (changes : u.changes = s.changes) (finished : e = .finished none)
    (running : p.status.phase = some .running) (pending : status.phase = some .pending)
    (stored : u.stages.get? ⟨p.key.project, p.spec.stage⟩ = some stage)
    (named : stage.currentPromotionName = some p.metadata.name) (putOff : PutOff spec back) :
    Judged p.key spec back e s (u.advanced p status) := by
  have one := Store.changes_advanced changes p status
  refine ⟨⟨_, one⟩, iff_of_false ?_ (not_not_intro putOff),
    iff_of_false ?_ (not_not_intro putOff)⟩
  · intro rests
    rcases rests finished _ (u.get?_advanced p status) with ended | ⟨stage', stored', unnamed⟩
    · have unended : status.isTerminal = false := PromotionStatus.isTerminal_of_phase pending
      rw [show (p.withStatus _ status).status.isTerminal = _ from unended] at ended
      cases ended
    · cases stored.symm.trans stored'
      exact unnamed named
  · rw [Store.changesUpTo_of_append one]
    intro onward
    exact (onward _ List.mem_cons_self p rfl running).2 pending

end Judged

theorem PromotionStatus.ended_of (known : s.phase ≠ none) (begun : s.phase ≠ some .pending)
    (stopped : s.phase ≠ some .running) : s.isTerminal = true := by
  unfold isTerminal
  cases hphase : s.phase with
  | none => exact absurd hphase known
  | some phase =>
    cases phase with
    | pending => exact absurd hphase begun
    | running => exact absurd hphase stopped
    | succeeded | failed | errored | aborted => rfl

namespace Store

/-- A Promotion was taken onward, from one store to another. -/
structure Taken (s s' : Store) (p q : Promotion) : Prop where
  held : s'.Holds q
  key : q.key = p.key
  spec : q.spec = p.spec
  stages : s'.stages = s.stages
  onward : ∃ new, s'.changes = s.changes ++ new ∧ ∀ change ∈ new, change.Onward

theorem Holds.taken {s : Store} (h : s.Holds p) : Taken s s p p where
  held := h
  key := rfl
  spec := rfl
  stages := rfl
  onward := ⟨[], (List.append_nil _).symm, fun change hc => by cases hc⟩

theorem Holds.taken_advanced {s : Store} (h : s.Holds p) {status : PromotionStatus}
    (fit : status.unfit? p.spec = none) (unended : status.isTerminal = false)
    (idle : p.status.phase ≠ some .running) :
    Taken s (s.advanced p status) p (p.withStatus (s.version + 1) status) where
  held := h.advance fit unended
  key := rfl
  spec := rfl
  stages := rfl
  onward := by
    refine ⟨_, changes_advanced rfl p status, fun change hc old same running => ?_⟩
    cases List.mem_singleton.mp hc
    cases same
    exact absurd running idle

end Store

namespace Reconciler

variable {c : Reconciler} {stage : Stage} {freight : Option Freight} {initial : Option Phase}
  {start rest : List Reply}

theorem Pends.taken (h : Pends p start q) (held : w.store.Holds p)
    (gives : w.Gives World.store (start ++ rest) w') :
    ∃ u : World ε, w.store.Taken u.store p q ∧ u.Gives World.store rest w' := by
  cases h with
  | known => exact ⟨w, held.taken, gives⟩
  | written unknown v =>
    have idle : p.status.phase ≠ some .running := by
      rw [unknown]
      exact fun h => by cases h
    obtain ⟨fit, rfl, later⟩ := World.gives_accepted held gives
    exact ⟨_, held.taken_advanced fit rfl idle, later⟩

theorem Begins.taken (h : Begins p start q) (held : w.store.Holds p)
    (gives : w.Gives World.store (start ++ rest) w') :
    ∃ u : World ε, w.store.Taken u.store p q ∧ u.Gives World.store rest w' := by
  cases h with
  | running => exact ⟨w, held.taken, gives⟩
  | written waiting now v =>
    obtain ⟨fit, rfl, later⟩ := World.gives_accepted held (World.gives_unwriting gives id)
    exact ⟨_, held.taken_advanced fit rfl waiting, later⟩

theorem Settles.alike (h : Settles p stage s replies) (gives : w.Gives World.store replies w') :
    w.store.Alike w'.store ∧ (s.phase ≠ some .succeeded → w'.store = w.store) := by
  cases h with
  | unended =>
    have same := World.gives_nil gives
    exact ⟨Store.alike_of_eq same, fun _ => same⟩
  | ended ended a =>
    have same := World.gives_nil (World.gives_unwriting gives id)
    exact ⟨Store.alike_of_eq same, fun _ => same⟩
  | repeated succeeded b a =>
    refine ⟨?_, fun h => absurd succeeded h⟩
    obtain ⟨u, alike, gives⟩ := World.gives_requestReverification gives
    rw [World.gives_nil (World.gives_unwriting gives id)]
    exact alike

theorem Promotes.alike {promoted : Promoted} (h : c.Promotes p stage freight replies promoted)
    (gives : w.Gives World.store replies w') : w.store.Alike w'.store ∧
      ((∀ s, promoted = .status s → s.phase ≠ some .succeeded) → w'.store = w.store) := by
  have same (h : w'.store = w.store) : w.store.Alike w'.store ∧
      ((∀ s, promoted = .status s → s.phase ≠ some .succeeded) → w'.store = w.store) :=
    ⟨Store.alike_of_eq h, fun _ => h⟩
  cases h with
  | unfound | unavailable => exact same (World.gives_nil gives)
  | roomless => exact same (World.gives_nil (World.gives_unwriting gives id))
  | crashed =>
    exact same (World.gives_nil (World.gives_unwriting (World.gives_unwriting gives id) id))
  | answered f found available fresh r settles =>
    obtain ⟨alike, stays⟩ :=
      settles.alike (World.gives_unwriting (World.gives_unwriting gives id) id)
    exact ⟨alike, fun h => stays (h _ rfl)⟩

theorem Drafts.still {promoted : Promoted} (h : Drafts p promoted replies s)
    (gives : w.Gives World.store replies w') : w'.store = w.store := by
  cases h with
  | status | failed => exact World.gives_nil gives
  | crashed => exact World.gives_nil (World.gives_unwriting gives id)

theorem Stamps.still (h : Stamps p s replies s') (gives : w.Gives World.store replies w') :
    w'.store = w.store := by
  cases h with
  | unended => exact World.gives_nil gives
  | ended => exact World.gives_nil (World.gives_unwriting gives id)

theorem Concludes.still (h : c.Concludes p stage freight initial s replies e)
    (gives : w.Gives World.store replies w') : w'.store = w.store := by
  cases h with
  | silent => exact World.gives_nil gives
  | running | announced => exact World.gives_nil (World.gives_unwriting gives id)

/-- Until the final write there is at most another verification asked for. -/
theorem alike_of_drafted {steps draft stamp : List Reply} {promoted : Promoted}
    (promotes : c.Promotes p stage freight steps promoted) (drafts : Drafts p promoted draft s)
    (stamps : Stamps p s stamp s')
    (gives : w.Gives World.store (steps ++ (draft ++ (stamp ++ rest))) w') :
    ∃ u : World ε, w.store.Alike u.store ∧ (s.phase ≠ some .succeeded → u.store = w.store) ∧
      u.Gives World.store rest w' := by
  obtain ⟨u₁, first, gives⟩ := World.gives_append gives
  obtain ⟨u₂, second, gives⟩ := World.gives_append gives
  obtain ⟨u, third, gives⟩ := World.gives_append gives
  have same : u.store = u₁.store := (stamps.still third).trans (drafts.still second)
  obtain ⟨alike, stays⟩ := promotes.alike first
  refine ⟨u, same ▸ alike, fun h => same.trans (stays fun s₁ hs => ?_), gives⟩
  subst hs
  cases drafts
  exact h

/-- What the final write comes to if nobody else writes: the status is in the store, or
it was not fit and the one in its place is. -/
theorem Persists.advances {persisted : Except StoreError PromotionStatus}
    (h : Persists p s replies persisted) (held : w.store.Holds p)
    (gives : w.Gives World.store (replies ++ rest) w') :
    ∃ (written : PromotionStatus) (u : World ε), persisted = .ok written ∧
      u.store = w.store.advanced p written ∧ u.Gives World.store rest w' ∧
      (written = s ∧ s.unfit? p.spec = none ∨
        written.phase = some .errored ∧ s.unfit? p.spec ≠ none) := by
  cases h with
  | written v =>
    obtain ⟨fit, _, later⟩ := World.gives_accepted held gives
    exact ⟨s, _, rfl, rfl, later, .inl ⟨rfl, fit⟩⟩
  | refused err valid =>
    obtain ⟨_, _, rfl, _⟩ := World.gives_refused held gives
    cases valid
  | replaced err invalid now v =>
    obtain ⟨unfit, why, _, gives⟩ := World.gives_refused held gives
    obtain ⟨_, _, later⟩ := World.gives_accepted held (World.gives_unwriting gives id)
    exact ⟨_, _, rfl, rfl, later, .inr ⟨rfl, why ▸ Option.some_ne_none _⟩⟩
  | refusedAgain err invalid now err' =>
    obtain ⟨_, _, _, gives⟩ := World.gives_refused held gives
    obtain ⟨_, why, _, _⟩ := World.gives_refused held (World.gives_unwriting gives id)
    -- what takes the place of a status that is not fit is fit
    rw [unfit?_fallback s err now held.fit] at why
    cases why

/-- A drafted status has a phase. It is pending and fit exactly if the Promotion was put off. -/
theorem putOff_iff {steps draft : List Reply} {promoted : Promoted}
    (promotes : c.Promotes p stage freight steps promoted) (drafts : Drafts p promoted draft s) :
    s.phase ≠ none ∧ (PutOff p.spec (steps ++ draft) ↔
      s.phase = some .pending ∧ s.unfit? p.spec = none) := by
  have errored (phase : s.phase = some .errored)
      (unanswered : ∀ r, .result r ∉ (steps ++ draft).filterMap Reply.engine?) :
      s.phase ≠ none ∧ (PutOff p.spec (steps ++ draft) ↔
        s.phase = some .pending ∧ s.unfit? p.spec = none) := by
    rw [phase]
    refine ⟨Option.some_ne_none _, iff_of_false ?_ ?_⟩
    · rintro ⟨r, hr, _⟩
      exact unanswered r hr
    · rintro ⟨pending, _⟩
      cases pending
  rcases drafted c promotes drafts with
    ⟨⟨message, rfl⟩, unanswered⟩ | ⟨f, fresh, r, _, answered, _, rfl⟩
  · exact errored rfl unanswered
  · cases r with
    | error err =>
      refine errored rfl fun r hr => ?_
      rw [answered] at hr
      cases List.mem_singleton.mp hr
    | ok r =>
      refine ⟨Option.some_ne_none _, ?_⟩
      unfold PutOff
      rw [answered, unfit?_eq_none_iff]
      constructor
      · rintro ⟨r', hr, pending, fit⟩
        cases List.mem_singleton.mp hr
        exact ⟨congrArg some pending, fit⟩
      · rintro ⟨pending, fit⟩
        exact ⟨r, List.mem_singleton_self _, Option.some.inj pending, fit⟩

/-- A reconcile looks again later exactly at a Promotion that is running. -/
theorem Concludes.finished_iff (h : c.Concludes p stage freight initial s replies e) :
    e = .finished none ↔ s.phase ≠ some .running := by
  cases h with
  | running running now =>
    refine iff_of_false ?_ fun resting => resting running
    unfold lookAgain
    split <;> exact fun h => by cases h
  | silent resting | announced resting => exact iff_of_true rfl resting

theorem judged_of_executes (h : c.Executes p stage freight initial replies e)
    (held : w.store.Holds p) (running : p.status.phase = some .running)
    (stored : w.store.stages.get? ⟨p.key.project, p.spec.stage⟩ = some stage)
    (named : stage.currentPromotionName = some p.metadata.name)
    (gives : w.Gives World.store replies w') :
    Judged p.key p.spec replies e w.store w'.store := by
  cases h with
  | refused err promotes drafts stamps persists =>
    rename_i steps draft stamp writes promoted s s'
    rw [← List.append_nil writes] at gives
    obtain ⟨u, alike, _, gives⟩ := alike_of_drafted promotes drafts stamps gives
    -- one of the two writes is accepted where nobody else writes
    obtain ⟨_, _, written, _⟩ := persists.advances (alike.holds held) gives
    cases written
  | concluded promotes drafts stamps persists concludes =>
    rename_i steps draft stamp writes rest promoted s s' written
    obtain ⟨u, alike, stays, gives⟩ := alike_of_drafted promotes drafts stamps gives
    obtain ⟨_, v, same, advanced, gives, outcome⟩ := persists.advances (alike.holds held) gives
    cases same
    obtain ⟨known, putOff⟩ := putOff_iff promotes drafts
    have putOff : PutOff p.spec (steps ++ (draft ++ (stamp ++ (writes ++ rest)))) ↔
        s.phase = some .pending ∧ s.unfit? p.spec = none := by
      rw [← putOff, PutOff, PutOff, engine_of_concluded stamps persists concludes]
    rw [concludes.still gives, advanced]
    rw [stamps.unfit?] at outcome
    -- what is stored is the drafted status or, if that is not fit, an errored one
    rcases outcome with ⟨rfl, fit⟩ | ⟨errored, unfit⟩
    · rw [← stamps.phase] at known putOff stays
      by_cases pending : written.phase = some .pending
      · have same := stays (by rw [pending]; decide)
        have finished := concludes.finished_iff.mpr (by rw [pending]; decide)
        exact .stuck alike.changes finished running pending (same ▸ stored) named
          (putOff.mpr ⟨pending, fit⟩)
      · have ended (finished : e = .finished none) : written.isTerminal = true :=
          PromotionStatus.ended_of known pending (concludes.finished_iff.mp finished)
        exact .went alike.changes ended known pending fun h => pending (putOff.mp h).1
    · have ended : written.isTerminal = true := PromotionStatus.isTerminal_of_phase errored
      refine .went alike.changes (fun _ => ended) ?_ ?_ fun h => unfit (putOff.mp h).2
      · rw [errored]
        exact Option.some_ne_none _
      · rw [errored]
        decide

theorem judged_of_approaches (h : c.Approaches p.key p freight replies e)
    (held : w.store.Holds p) (gives : w.Gives World.store replies w') :
    Judged p.key p.spec replies e w.store w'.store := by
  cases h with
  | blind err =>
    rw [World.gives_nil (World.gives_unwriting gives id)]
    exact .still rfl (fun h => by cases h) rfl
  | stageless =>
    rw [World.gives_nil (World.gives_unwriting gives id)]
    exact .still rfl (fun h => by cases h) rfl
  | parked stage unnamed =>
    have stored := World.stage_of_given gives
    rw [World.gives_nil (World.gives_unwriting gives id)]
    refine .still rfl (fun _ q hq => ?_) rfl
    rw [held.stored] at hq
    cases hq
    exact .inr ⟨stage, stored, unnamed⟩
  | refused stage named waiting now err =>
    have gives := World.gives_unwriting (World.gives_unwriting gives id) id
    rw [World.store_of_refused held gives]
    exact .still rfl (fun h => by cases h) rfl
  | admitted stage named begins executes =>
    rename_i start rest q
    have stored := World.stage_of_given gives
    obtain ⟨u, taken, gives⟩ := begins.taken held (World.gives_unwriting gives id)
    obtain ⟨new, grown, onward⟩ := taken.onward
    have judged : Judged q.key q.spec rest e u.store w'.store := by
      refine judged_of_executes executes taken.held begins.phase ?_ ?_ gives
      · rw [taken.stages, taken.key, taken.spec, stored]
      · rw [named, show q.metadata.name = p.metadata.name from congrArg Key.name taken.key]
    rw [taken.key, taken.spec] at judged
    exact judged.extend grown onward (begins.idle_read _ stage).engine

theorem judged_of_visits (h : c.Visits p.key replies e)
    (stored : w.store.promotions.get? p.key = some p) (fit : p.status.unfit? p.spec = none)
    (gives : w.Gives World.store replies w') :
    Judged p.key p.spec replies e w.store w'.store := by
  cases h with
  | blind err =>
    rw [World.gives_nil (World.gives_unwriting gives id)]
    exact .still rfl (fun h => by cases h) rfl
  | absent =>
    rw [(World.promotion_of_given gives).2] at stored
    cases stored
  | ended p' ended =>
    obtain ⟨_, read⟩ := World.promotion_of_given gives
    cases stored.symm.trans read
    rw [World.gives_nil (World.gives_unwriting gives id)]
    exact .still rfl (fun _ => Store.atRest_of_ended stored ended) rfl
  | unsupplied p' unended err =>
    rw [World.gives_nil (World.gives_unwriting (World.gives_unwriting gives id) id)]
    exact .still rfl (fun h => by cases h) rfl
  | aborted p' unended freight request asked terminates =>
    obtain ⟨available, read⟩ := World.promotion_of_given gives
    cases stored.symm.trans read
    have held : w.store.Holds p := ⟨available, stored, fit, unended⟩
    have gives := World.gives_unwriting (World.gives_unwriting gives id) id
    cases terminates with
    | ended ended =>
      rw [unended] at ended
      cases ended
    | refused _ now err =>
      have gives := World.gives_unwriting gives id
      rw [World.store_of_refused held gives]
      exact .still rfl (fun h => by cases h) rfl
    | terminated _ now v a n reason =>
      have gives := World.gives_unwriting gives id
      obtain ⟨_, _, gives⟩ := World.gives_accepted held gives
      rw [World.gives_nil (World.gives_unwriting (World.gives_unwriting gives id) id)]
      refine .went rfl (fun _ => rfl) (Option.some_ne_none _) (fun h => by cases h) ?_
      rintro ⟨r, hr, _⟩
      cases hr
  | unmarked p' unended freight unaborted unknown err =>
    obtain ⟨available, read⟩ := World.promotion_of_given gives
    cases stored.symm.trans read
    have held : w.store.Holds p := ⟨available, stored, fit, unended⟩
    have gives := World.gives_unwriting (World.gives_unwriting gives id) id
    rw [World.store_of_refused held gives]
    exact .still rfl (fun h => by cases h) rfl
  | approached p' unended freight unaborted pends approaches =>
    rename_i mark rest q
    obtain ⟨available, read⟩ := World.promotion_of_given gives
    cases stored.symm.trans read
    have held : w.store.Holds p := ⟨available, stored, fit, unended⟩
    obtain ⟨u, taken, gives⟩ :=
      pends.taken held (World.gives_unwriting (World.gives_unwriting gives id) id)
    obtain ⟨new, grown, onward⟩ := taken.onward
    rw [← taken.key] at approaches
    have judged := judged_of_approaches approaches taken.held gives
    rw [taken.key, taken.spec] at judged
    exact judged.extend grown onward (pends.idle_read p.key freight).engine

theorem store_of_absent {key : Key} (h : c.Visits key replies e)
    (absent : w.store.promotions.get? key = none) (gives : w.Gives World.store replies w') :
    w'.store = w.store := by
  cases h with
  | blind | absent => exact World.gives_nil (World.gives_unwriting gives id)
  | ended p | unsupplied p | aborted p | unmarked p | approached p =>
    cases absent.symm.trans (World.promotion_of_given gives).2

/-- A reconcile that nobody interferes with stops for good only if nothing is left to do for
its Promotion, and never takes one that was running back to where it has not begun, unless
the engine puts the Promotion off and the store accepts what it reports. -/
theorem steadfast_iff {key : Key} (sound : w.store.Sound)
    (fit : ∀ p, w.store.promotions.get? key = some p → p.status.unfit? p.spec = none)
    (course : (c.reconcile key).Course replies e) (gives : w.Gives World.store replies w') :
    let putOff := ∃ p, w.store.promotions.get? key = some p ∧ PutOff p.spec replies
    ((e = .finished none → w'.store.AtRest key) ↔ ¬ putOff) ∧
      ((∀ change ∈ w.store.changesUpTo w'.store, change.Onward) ↔ ¬ putOff) := by
  dsimp only
  have visits := c.visits_of_course course
  cases stored : w.store.promotions.get? key with
  | none =>
    have gone : ¬ ∃ q : Promotion, none = some q ∧ PutOff q.spec replies := by
      rintro ⟨q, hq, _⟩
      cases hq
    rw [store_of_absent visits stored gives]
    refine ⟨iff_of_true (fun _ q hq => ?_) gone, iff_of_true ?_ gone⟩
    · rw [stored] at hq
      cases hq
    · rw [Store.changesUpTo_of_append (List.append_nil _).symm]
      intro change hc
      cases hc
  | some p =>
    obtain rfl := sound.promotion_key stored
    have judged := judged_of_visits visits stored (fit p stored) gives
    have same : (∃ q, some p = some q ∧ PutOff q.spec replies) ↔ PutOff p.spec replies := by
      constructor
      · rintro ⟨q, hq, putOff⟩
        cases hq
        exact putOff
      · exact fun putOff => ⟨p, rfl, putOff⟩
    rw [same]
    exact ⟨judged.rests, judged.onward⟩

/-- The Promotion of `whereOneWaits`, at which nobody has looked yet. -/
def unbegun : Promotion := (Traffic.whereOneWaits.store.promotions.get? ⟨"a", "p"⟩).getD default

theorem sound_whereOneWaits : Traffic.whereOneWaits.store.Sound :=
  Store.sound_edits Store.sound_empty Traffic.oneWaits

theorem fit_whereOneWaits (h : Traffic.whereOneWaits.store.promotions.get? ⟨"a", "p"⟩ = some p) :
    p.status.unfit? p.spec = none := by
  have stored : Traffic.whereOneWaits.store.promotions.get? ⟨"a", "p"⟩ = some unbegun := by
    decide +kernel
  cases stored.symm.trans h
  decide +kernel

/-- A reconcile whose engine breaks down stops for good, and the Promotion has ended. -/
theorem steadfast_iff_of_crash : ∃ (c : Reconciler) (key : Key) (w w' : World Unit)
    (replies : List Reply) (e : Ending), (c.reconcile key).Course replies e ∧
      w.Gives World.store replies w' ∧ e = .finished none ∧ w'.store.AtRest key ∧
      let putOff := ∃ p, w.store.promotions.get? key = some p ∧ PutOff p.spec replies
      ((e = .finished none → w'.store.AtRest key) ↔ ¬ putOff) ∧
        ((∀ change ∈ w.store.changesUpTo w'.store, change.Onward) ↔ ¬ putOff) := by
  let replies := Traffic.reconcileOne.told (World.perform Traffic.brokenEngine)
    Traffic.whereOneWaits
  have course := course_run (World.perform Traffic.brokenEngine) Traffic.reconcileOne
    Traffic.whereOneWaits
  have gives : World.Gives World.store Traffic.whereOneWaits replies _ :=
    World.gives_run (fun _ _ _ => rfl) Traffic.reconcileOne Traffic.whereOneWaits
  have finished : (Traffic.reconcileOne.run (World.perform Traffic.brokenEngine)
      Traffic.whereOneWaits).1 = .finished none := by decide +kernel
  have answers : replies.filterMap Reply.engine? = [.crashed .silent] := by decide +kernel
  have steadfast := steadfast_iff sound_whereOneWaits (fun _ => fit_whereOneWaits) course gives
  refine ⟨_, _, _, _, _, _, course, gives, finished, ?_, steadfast⟩
  refine steadfast.1.mpr ?_ finished
  rintro ⟨p, _, r, hr, _⟩
  rw [answers] at hr
  cases List.mem_singleton.mp hr

/-- An engine that reports that it has not begun. -/
def postponingEngine : Engine (World Unit) :=
  fun _ _ w => (.result ⟨.pending, none, 0, [], default, []⟩, w)

def afterPostponing : World Unit :=
  (Traffic.reconcileOne.run (World.perform postponingEngine) Traffic.whereOneWaits).2

def postponed : Promotion := (afterPostponing.store.promotions.get? ⟨"a", "p"⟩).getD default

/-- The Promotion was running and waits again, its Stage names it, and nobody will look. -/
theorem stranded_of_postponing : ∃ (c : Reconciler) (key : Key) (w w' : World Unit)
    (replies : List Reply), w.store.Sound ∧
      (∀ p, w.store.promotions.get? key = some p → p.status.unfit? p.spec = none) ∧
      (c.reconcile key).Course replies (.finished none) ∧ w.Gives World.store replies w' ∧
      ¬ w'.store.AtRest key ∧ ¬ ∀ change ∈ w.store.changesUpTo w'.store, change.Onward := by
  have finished : (Traffic.reconcileOne.run (World.perform postponingEngine)
      Traffic.whereOneWaits).1 = .finished none := by decide +kernel
  have course := course_run (World.perform postponingEngine) Traffic.reconcileOne
    Traffic.whereOneWaits
  rw [finished] at course
  have gives : World.Gives World.store Traffic.whereOneWaits _ afterPostponing :=
    World.gives_run (fun _ _ _ => rfl) Traffic.reconcileOne Traffic.whereOneWaits
  refine ⟨_, _, _, _, _, sound_whereOneWaits, fun _ => fit_whereOneWaits, course, gives, ?_, ?_⟩
  · intro rests
    have stored : afterPostponing.store.promotions.get? ⟨"a", "p"⟩ = some postponed := by
      decide +kernel
    rcases rests _ stored with ended | ⟨stage, found, unnamed⟩
    · have unended : postponed.status.isTerminal = false := by decide +kernel
      rw [unended] at ended
      cases ended
    · have named : (afterPostponing.store.stages.get? ⟨"a", postponed.spec.stage⟩).map
          (·.currentPromotionName) = some (some postponed.metadata.name) := by decide +kernel
      rw [found] at named
      exact unnamed (Option.some.inj named)
  · intro onward
    have back : ∃ change ∈ Traffic.whereOneWaits.store.changesUpTo afterPostponing.store,
        ∃ old ∈ change.old, old.status.phase = some .running ∧
          change.new.status.phase = some .pending := by decide +kernel
    obtain ⟨change, hc, old, same, running, pending⟩ := back
    exact (onward change hc old same running).2 pending

end Reconciler

end Drayage
