import Drayage.Proofs.Controller.Announcing
import Drayage.Proofs.Controller.Shape
import Drayage.Proofs.Controller.Visit

/-!
# Vacated workspaces

A Promotion that has ended needs no workspace. A reconcile removes it if it was asked to abort
the Promotion, or if the engine was called and reported an end. A Promotion that ends in
another way, because its Freight is gone or because the store does not accept what the
engine reported, leaves behind the workspace that it had.
-/

namespace Drayage

open Program

/-- The engine reports the end of the Promotion, or reports nothing. -/
def EngineAnswer.Ends : EngineAnswer → Prop
  | .result r => r.phase.isTerminal = true
  | .error _ | .crashed _ => True

theorem EngineAnswer.ends_of (s : PromotionStatus) (r : Except EngineError EngineResult) :
    (EngineAnswer.of r).Ends ↔ (Reconciler.resultStatus s r).isTerminal = true := by
  cases r with
  | ok r => rfl
  | error e => exact iff_of_true trivial rfl

/-- Whether the workspace of a Promotion is there after a reply, if it was there before. -/
def Reply.occupies (uid : Uid) (there : Bool) : Reply → Bool
  | ⟨.acquire u, .ok _⟩ => there || Workspaces.nameOf u == Workspaces.nameOf uid
  | ⟨.release u, .ok _⟩ => there && Workspaces.nameOf u != Workspaces.nameOf uid
  | _ => there

namespace Workspaces

variable {ws ws' : Workspaces} {u uid : Uid}

theorem holds_acquire {fresh : Bool} (h : ws.acquire u = .ok (fresh, ws')) :
    ws'.holds uid = (ws.holds uid || nameOf u == nameOf uid) := by
  unfold acquire at h
  split at h
  · cases h
  · split at h
    · rename_i there
      cases h
      by_cases same : nameOf u = nameOf uid
      · rw [holds, same] at there
        simp [holds, there]
      · simp [same]
    · cases h
      by_cases same : nameOf uid = nameOf u
      · simp [holds, Dict.contains, Dict.get?_insert, same]
      · simp [holds, Dict.contains, Dict.get?_insert, same, Ne.symm same]

theorem holds_release (h : ws.release u = .ok ws') :
    ws'.holds uid = (ws.holds uid && nameOf u != nameOf uid) := by
  unfold release at h
  split at h
  · cases h
  · split at h
    · rename_i gone
      cases h
      by_cases same : nameOf u = nameOf uid
      · simp [holds, Dict.contains, ← same, gone]
      · simp [same]
    · cases h
    · cases h
      by_cases same : nameOf uid = nameOf u
      · simp [holds, Dict.contains, Dict.get?_erase, same]
      · simp [holds, Dict.contains, Dict.get?_erase, same, Ne.symm same]

end Workspaces

/-- What the replies make of the workspace is what has become of it. -/
theorem World.holds_given {ε : Type} {w w' : World ε} {uid : Uid} {replies : List Reply}
    (h : w.Gives (fun w => w.workspaces.holds uid) replies w') :
    w'.workspaces.holds uid = replies.foldl (Reply.occupies uid) (w.workspaces.holds uid) := by
  induction h with
  | nil others => exact others
  | cons others answers rest ih =>
    rename_i u v _ r a _
    rw [ih, List.foldl_cons, ← others]
    congr 1
    obtain ⟨engine, served, quiet⟩ := answers
    cases r with
    | acquire u' =>
      unfold perform World.acquire at served
      dsimp only at served
      split at served
      · rename_i acquired
        cases served
        exact Workspaces.holds_acquire acquired
      · cases served
        rfl
    | release u' =>
      unfold perform World.release at served
      dsimp only at served
      split at served
      · rename_i released
        cases served
        exact Workspaces.holds_release released
      · cases served
        rfl
    | promote ctx steps =>
      have same := (quiet ctx steps rfl).2
      rw [show engine ctx steps u = (a, v) from served] at same
      cases same
      rfl
    | updateStatus key v' s =>
      have after := World.snd_attempt (·.updateStatus key v' s) u
      rw [show World.attempt (·.updateStatus key v' s) u = (a, v) from served] at after
      cases show v = _ from after
      rfl
    | requestReverification key =>
      have after := World.snd_attempt (·.requestReverification key u.clock) u
      rw [show World.attempt (·.requestReverification key u.clock) u = (a, v) from served] at after
      cases show v = _ from after
      rfl
    | now | getPromotion | getStage | getFreight | listPromotions | emit =>
      cases served
      rfl

/-- Replies about other things than workspaces and steps. -/
structure Idle (replies : List Reply) : Prop where
  occupied : ∀ uid there, replies.foldl (Reply.occupies uid) there = there
  engine : replies.filterMap Reply.engine? = []

/-- In the end the workspace is gone exactly if the engine has reported an end, or was not
called and there was none. -/
def Vacates (uid : Uid) (there : Bool) (replies : List Reply) : Prop :=
  replies.foldl (Reply.occupies uid) there = false ↔
    (∃ a ∈ replies.filterMap Reply.engine?, a.Ends) ∨
      replies.filterMap Reply.engine? = [] ∧ there = false

variable {front back replies : List Reply} {uid : Uid} {there : Bool}

theorem Idle.append (hf : Idle front) (hb : Idle back) : Idle (front ++ back) where
  occupied uid there := by rw [List.foldl_append, hf.occupied, hb.occupied]
  engine := by rw [List.filterMap_append, hf.engine, hb.engine, List.append_nil]

theorem Idle.vacates (h : Idle replies) : Vacates uid there replies := by
  unfold Vacates
  rw [h.occupied, h.engine]
  simp

theorem Vacates.append_idle (h : Vacates uid there front) (hb : Idle back) :
    Vacates uid there (front ++ back) := by
  unfold Vacates
  rw [List.foldl_append, hb.occupied, List.filterMap_append, hb.engine, List.append_nil]
  exact h

theorem Vacates.idle_append (h : Vacates uid there back) (hf : Idle front) :
    Vacates uid there (front ++ back) := by
  unfold Vacates
  rw [List.foldl_append, hf.occupied, List.filterMap_append, hf.engine, List.nil_append]
  exact h

namespace Reconciler

variable {c : Reconciler} {p q : Promotion} {stage : Stage} {freight : Option Freight}
  {initial : Option Phase} {s s' : PromotionStatus} {e : Ending}

theorem Stamps.idle (h : Stamps p s replies s') : Idle replies := by
  cases h <;> exact ⟨fun _ _ => rfl, rfl⟩

theorem Persists.idle {r : Except StoreError PromotionStatus} (h : Persists p s replies r) :
    Idle replies := by
  cases h <;> exact ⟨fun _ _ => rfl, rfl⟩

theorem Concludes.idle (h : c.Concludes p stage freight initial s replies e) :
    Idle replies := by
  cases h <;> exact ⟨fun _ _ => rfl, rfl⟩

/-- After the status is drafted the engine is not called any more. -/
theorem engine_of_concluded {steps draft stamp writes rest : List Reply}
    {written : PromotionStatus} {persisted : Except StoreError PromotionStatus}
    (stamps : Stamps p s stamp s') (persists : Persists p s' writes persisted)
    (concludes : c.Concludes p stage freight initial written rest e) :
    (steps ++ (draft ++ (stamp ++ (writes ++ rest)))).filterMap Reply.engine? =
      (steps ++ draft).filterMap Reply.engine? := by
  simp only [List.filterMap_append, stamps.idle.engine, persists.idle.engine,
    concludes.idle.engine, List.append_nil]

theorem Pends.idle (h : Pends p replies q) : Idle replies := by
  cases h <;> exact ⟨fun _ _ => rfl, rfl⟩

theorem Begins.idle (h : Begins p replies q) : Idle replies := by
  cases h <;> exact ⟨fun _ _ => rfl, rfl⟩

/-- What a reconcile has asked for when it goes on to the Stage. -/
theorem Pends.idle_read (h : Pends p replies q) (key : Key) (freight : Option Freight) :
    Idle (⟨.getPromotion key, .ok (some p)⟩ ::
      ⟨.getFreight ⟨key.project, p.spec.freight⟩, .ok freight⟩ :: replies) :=
  ⟨h.idle.occupied, h.idle.engine⟩

/-- What it has asked for then until the steps are attempted. -/
theorem Begins.idle_read (h : Begins p replies q) (key : Key) (stage : Stage) :
    Idle (⟨.getStage key, .ok (some stage)⟩ :: replies) :=
  ⟨h.idle.occupied, h.idle.engine⟩

/-- A workspace that was there is removed at the end. -/
theorem Settles.occupied (h : Settles p stage s replies)
    (removed : replies.filterMap Reply.unremoved? = []) :
    replies.foldl (Reply.occupies p.metadata.uid) true = !s.isTerminal := by
  cases h with
  | unended unended =>
    rw [unended]
    rfl
  | ended ended a =>
    cases a with
    | error e => cases removed
    | ok _ => simp [Reply.occupies, ended]
  | repeated succeeded b a =>
    cases a with
    | error e => cases removed
    | ok _ => simp [Reply.occupies, PromotionStatus.isTerminal, succeeded, Phase.isTerminal]

theorem vacates_of_promotes {steps draft : List Reply} {promoted : Promoted}
    (promotes : c.Promotes p stage freight steps promoted) (drafts : Drafts p promoted draft s)
    (removed : (steps ++ draft).filterMap Reply.unremoved? = []) :
    Vacates p.metadata.uid there (steps ++ draft) := by
  cases promotes with
  | unfound missing =>
    cases drafts
    exact Idle.vacates ⟨fun _ _ => rfl, rfl⟩
  | unavailable f found unavailable =>
    cases drafts
    exact Idle.vacates ⟨fun _ _ => rfl, rfl⟩
  | roomless f found available err =>
    cases drafts
    exact Idle.vacates ⟨fun _ _ => rfl, rfl⟩
  | crashed f found available fresh crash =>
    cases drafts with
    | crashed _ a =>
      cases a with
      | error err => cases removed
      | ok _ =>
        refine iff_of_true ?_ (.inl ⟨.crashed crash, List.mem_cons_self, trivial⟩)
        simp [engineCall, Reply.occupies]
  | answered f found available fresh r settles =>
    rename_i tidying
    cases drafts
    rw [List.append_nil] at removed ⊢
    have left := settles.occupied removed
    have answers : (⟨.acquire p.metadata.uid, .ok fresh⟩ ::
        ⟨c.engineCall p stage f fresh, .of r⟩ :: tidying).filterMap Reply.engine? = [.of r] := by
      show .of r :: tidying.filterMap Reply.engine? = _
      rw [engine_of_settles settles]
    have occupied : (⟨.acquire p.metadata.uid, .ok fresh⟩ ::
        ⟨c.engineCall p stage f fresh, .of r⟩ :: tidying).foldl
          (Reply.occupies p.metadata.uid) there =
            !(resultStatus (startFor p stage f fresh) r).isTerminal := by
      simpa [engineCall, Reply.occupies] using left
    unfold Vacates
    rw [answers, occupied]
    simp [EngineAnswer.ends_of (startFor p stage f fresh)]

theorem vacates_of_executes (h : c.Executes p stage freight initial replies e)
    (removed : replies.filterMap Reply.unremoved? = []) :
    Vacates p.metadata.uid there replies := by
  cases h with
  | concluded promotes drafts stamps persists concludes =>
    rw [← List.append_assoc] at removed ⊢
    rw [List.filterMap_append, List.append_eq_nil_iff] at removed
    exact (vacates_of_promotes promotes drafts removed.1).append_idle
      (stamps.idle.append (persists.idle.append concludes.idle))
  | refused err promotes drafts stamps persists =>
    rw [← List.append_assoc] at removed ⊢
    rw [List.filterMap_append, List.append_eq_nil_iff] at removed
    exact (vacates_of_promotes promotes drafts removed.1).append_idle
      (stamps.idle.append persists.idle)

theorem vacates_of_approaches {key : Key} (h : c.Approaches key p freight replies e)
    (removed : replies.filterMap Reply.unremoved? = []) :
    Vacates p.metadata.uid there replies := by
  cases h with
  | blind | stageless | parked | refused => exact Idle.vacates ⟨fun _ _ => rfl, rfl⟩
  | admitted stage named begins executes =>
    rename_i start rest q
    have removed : (start ++ rest).filterMap Reply.unremoved? = [] := removed
    rw [List.filterMap_append, List.append_eq_nil_iff] at removed
    rw [← begins.keeps.uid]
    have vacates : Vacates _ there rest := vacates_of_executes executes removed.2
    have all := vacates.idle_append (begins.idle_read ⟨key.project, p.spec.stage⟩ stage)
    exact all

/-- A reconcile that ends a Promotion. Nobody else touches its workspace meanwhile, and what is
to be removed is removed. -/
structure Finishes {ε : Type} (c : Reconciler) (key : Key) (p : Promotion) (w : World ε)
    (replies : List Reply) (w' : World ε) : Prop where
  course : ∃ e, (c.reconcile key).Course replies e
  gives : w.Gives (fun w => w.workspaces.holds p.metadata.uid) replies w'
  read : replies.findSome? Reply.read? = some p
  removed : replies.filterMap Reply.unremoved? = []
  ended : ∃ s ∈ replies.filterMap Reply.stored?, s.isTerminal = true

/-- A reconcile that ends a Promotion vacates its workspace exactly if it was asked to abort,
or the engine has reported an end, or was not called and there was no workspace. -/
theorem vacated_iff {ε : Type} {key : Key} {w w' : World ε}
    (h : c.Finishes key p w replies w') :
    w'.workspaces.holds p.metadata.uid = false ↔
      ¬ p.Unaborted ∨ (∃ a ∈ replies.filterMap Reply.engine?, a.Ends) ∨
        replies.filterMap Reply.engine? = [] ∧ w.workspaces.holds p.metadata.uid = false := by
  obtain ⟨⟨e, course⟩, gives, read, removed, s, stored, ended⟩ := h
  rw [World.holds_given gives]
  generalize w.workspaces.holds p.metadata.uid = there
  cases c.visits_of_course course with
  | blind | absent => cases read
  | ended | unsupplied | unmarked => cases stored
  | aborted p' unended freight request asked terminates =>
    cases read
    cases terminates with
    | ended | refused => cases stored
    | terminated unended now v a n reason =>
      have aborted : ¬ p.Unaborted := fun unaborted => unaborted request asked
      cases a with
      | error err => cases removed
      | ok _ =>
        refine iff_of_true ?_ (.inl aborted)
        simp [write, Reply.occupies]
  | approached p' unended freight unaborted pends approaches =>
    cases read
    rename_i mark rest q
    have removed : (mark ++ rest).filterMap Reply.unremoved? = [] := removed
    rw [List.filterMap_append, List.append_eq_nil_iff] at removed
    have vacates : Vacates _ there rest := vacates_of_approaches approaches removed.2
    rw [pends.keeps.uid] at vacates
    rw [or_iff_right (not_not_intro unaborted)]
    have all := vacates.idle_append (pends.idle_read key freight)
    exact all

/-- A Promotion whose one step waits in its workspace. -/
def waiting : World Unit :=
  (Traffic.reconcileOne.run (World.perform Traffic.patientEngine) Traffic.whereOneWaits).2

def waitingPromotion : Promotion := (waiting.store.promotions.get? ⟨"a", "p"⟩).getD default

/-- If the engine breaks down over the step that waits, the workspace is vacated. -/
theorem vacated_iff_of_crash : ∃ (c : Reconciler) (key : Key) (p : Promotion)
    (w : World Unit) (replies : List Reply) (w' : World Unit),
    c.Finishes key p w replies w' ∧ w.workspaces.holds p.metadata.uid = true ∧
      replies.filterMap Reply.engine? = [.crashed .silent] ∧
      (w'.workspaces.holds p.metadata.uid = false ↔
        ¬ p.Unaborted ∨ (∃ a ∈ replies.filterMap Reply.engine?, a.Ends) ∨
          replies.filterMap Reply.engine? = [] ∧
            w.workspaces.holds p.metadata.uid = false) := by
  have finishes : Finishes _ _ waitingPromotion waiting _ _ :=
    { course := ⟨_, course_run (World.perform Traffic.brokenEngine) Traffic.reconcileOne waiting⟩
      gives := World.gives_run (fun _ _ _ => rfl) Traffic.reconcileOne waiting
      read := by decide +kernel
      removed := by decide +kernel
      ended := by decide +kernel }
  exact ⟨_, _, _, _, _, _, finishes, by decide +kernel, by decide +kernel, vacated_iff finishes⟩

/-- Its Freight is now of another origin, which the Stage does not ask for. -/
def withdrawn : World Unit :=
  let freight := Freight.fresh (.fresh "a" "f" default) (.warehouse "v")
  { waiting with store := (Edit.putFreight freight ⟨1⟩).apply waiting.store }

/-- The Promotion ends because its Freight is not available, and its workspace stays. -/
theorem occupied_of_withdrawn : ∃ (c : Reconciler) (key : Key) (p : Promotion)
    (w : World Unit) (replies : List Reply) (w' : World Unit),
    c.Finishes key p w replies w' ∧ w'.workspaces.holds p.metadata.uid = true := by
  have finishes : Finishes _ _ waitingPromotion withdrawn _ _ :=
    { course := ⟨_, course_run (World.perform Traffic.patientEngine) Traffic.reconcileOne
        withdrawn⟩
      gives := World.gives_run (fun _ _ _ => rfl) Traffic.reconcileOne withdrawn
      read := by decide +kernel
      removed := by decide +kernel
      ended := by decide +kernel }
  exact ⟨_, _, _, _, _, _, finishes, by decide +kernel⟩

end Reconciler

end Drayage
