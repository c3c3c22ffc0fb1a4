import Drayage.Proofs.Controller.Errand
import Drayage.Proofs.Controller.Exchange
import Drayage.Proofs.Controller.Ledger
import Mathlib.Logic.Relation

/-!
# What the files in a directory are worth

One Promotion is reconciled again and again, while others make their requests in between,
and a chronicle keeps a journal of it. Every step is attempted in a directory in which all
steps before it were completed, exactly as long as the engine does not go on from a step
that was written before the directory was made.

It can do so. A Promotion that ends loses its directory before its status is written. If
this write is refused, and so is that of the next reconcile, which has begun anew in
another directory, then the one after it goes on from the old step.
-/

namespace Drayage

open Relation Store

/-- A call of the engine whose steps do nothing to the world. -/
def Sequential.beside {σ : Type} (env : Setting σ) (x : σ) : Engine (World Unit) :=
  fun ctx steps w => ((promote env ctx steps x).1, w)

/-- A request for another Promotion than the one with this key and uid. -/
def Request.Spares (key : Key) (uid : Uid) : Request → Prop
  | .updateStatus k _ _ => k ≠ key
  | .acquire u | .release u => u ≠ uid
  | .now | .getPromotion _ | .getStage _ | .getFreight _ | .listPromotions
  | .requestReverification _ | .promote _ _ | .emit _ => True

/-- The reconciles of one Promotion, with what is left of the one that is under way. -/
structure Chronicle where
  world : World Unit
  rest : Program Ending
  journal : List Mark

namespace Chronicle

variable {σ : Type} {key : Key} {c : Reconciler} {d d' : Chronicle} {g : Errand}

/-- What the answer to a request adds to the journal. -/
def marksOf (env : Sequential.Setting σ) (x : σ) : (r : Request) → r.Answer → List Mark
  | .acquire _, .ok true => [.made]
  | .release _, .ok () => [.removed]
  | .updateStatus _ _ _, .ok _ => [.stored]
  | .promote ctx steps, _ => Sequential.marks env ctx steps x
  | _, _ => []

/-- The next request of the reconcile is answered. -/
def answered (env : Sequential.Setting σ) (x : σ) (d : Chronicle) : Chronicle :=
  match d.rest with
  | .done _ => d
  | .ask r next =>
    let (a, world) := World.perform (Sequential.beside env x) r d.world
    ⟨world, next a, d.journal ++ marksOf env x r a⟩

/-- The Promotion with a key was just created. -/
structure Opens (key : Key) (d : Chronicle) : Prop where
  sound : d.world.store.Sound
  created : ∃ p, d.world.store.promotions.get? key = some p ∧ p.status = .initial ∧
    d.world.workspaces.holds p.metadata.uid = false
  idle : ∃ e, d.rest = .done e
  blank : d.journal = []

/-- What happens next. -/
inductive Turn (c : Reconciler) (key : Key) : Chronicle → Chronicle → Prop where
  | begin (e : Ending) (d : Chronicle) (idle : d.rest = .done e) :
      Turn c key d { d with rest := c.reconcile key }
  | answer {σ : Type} (env : Sequential.Setting σ) (x : σ) (d : Chronicle) :
      Turn c key d (d.answered env x)
  | edit (e : Edit) (d : Chronicle) (spares : e.Spares key) :
      Turn c key d { d with world := { d.world with store := e.apply d.world.store } }
  | others (r : Request) (d : Chronicle)
      (spares : ∀ p, d.world.store.promotions.get? key = some p → r.Spares key p.metadata.uid) :
      Turn c key d { d with world := (World.perform (fun _ _ w => (default, w)) r d.world).2 }
  | clock (now : Instant) (d : Chronicle) :
      Turn c key d { d with world := { d.world with clock := now } }

def Reached (c : Reconciler) (key : Key) : Chronicle → Chronicle → Prop :=
  ReflTransGen (Turn c key)

/-- How far the reconcile has come agrees with what is stored. -/
def Agrees (key : Key) (s : PromotionStatus) (js : List Mark) : Errand → Prop
  | .unread k => k = key
  | .ready p | .inside p _ => p.key = key ∧ p.status = s ∧ s.isTerminal = false
  | .stopped p step => p.key = key ∧ ∀ i, step = some i → .reached i ∈ generation js
  | .closed => True

/-- What the journal and a reconcile say of the Promotion is true of the one that is stored. -/
structure Told (key : Key) (s : Store) (js : List Mark) (g : Errand) : Prop where
  sound : s.Sound
  stored : ∃ p, s.promotions.get? key = some p ∧ Ledger p.status js ∧ Agrees key p.status js g

/-- So it stays, whatever the reconcile that is under way is answered. -/
structure Faithful (key : Key) (g : Errand) (d : Chronicle) : Prop where
  told : Told key d.world.store d.journal g
  obeys : d.rest.Obeys Errand.rules Reconciler.Anyhow g

section Told

variable {s s' : Store} {js : List Mark} {r : Request} {a : r.Answer}

theorem Told.elsewhere (h : Told key s js g) (sound : s'.Sound)
    (kept : ∀ p, s.promotions.get? key = some p →
      ∃ p', s'.promotions.get? key = some p' ∧ p'.status = p.status) : Told key s' js g := by
  obtain ⟨p, stored, ledger, agrees⟩ := h.stored
  obtain ⟨p', stored', same⟩ := kept p stored
  rw [← same] at ledger agrees
  exact ⟨sound, p', stored', ledger, agrees⟩

theorem Told.reverified (h : Told key s js g) (k : Key) (now : Instant) :
    Told key (s.after (s.requestReverification k now)) js g := by
  have edited := edited_requestReverification (I := .any) h.sound k now
  refine h.elsewhere (edited.sound h.sound) fun p stored => ⟨p, ?_, rfl⟩
  rw [promotions_requestReverification]
  exact stored

/-- An answer that neither changes the store nor tells anything. -/
theorem Told.quiet (h : Told key s js g) (env : Sequential.Setting σ) (x : σ)
    (marks : marksOf env x r a = []) (after : g.after r a = g) :
    Told key s (js ++ marksOf env x r a) (g.after r a) := by
  rw [marks, List.append_nil, after]
  exact h

theorem Told.read {k : Key} (h : Told key s js (.unread k)) (env : Sequential.Setting σ)
    (x : σ) : Told key s (js ++ marksOf env x (.getPromotion k) (s.getPromotion k))
      ((Errand.unread k).after (.getPromotion k) (s.getPromotion k)) := by
  unfold Store.getPromotion whenAvailable
  split
  · cases found : s.promotions.get? k with
    | none => exact h.quiet env x rfl rfl
    | some p =>
      show Told key s (js ++ []) (if p.status.isTerminal then .closed else .ready p)
      obtain ⟨p', stored, ledger, same⟩ := h.stored
      have same : k = key := same
      rw [same, stored] at found
      cases found
      rw [List.append_nil]
      refine ⟨h.sound, p, stored, ledger, ?_⟩
      split
      · trivial
      · rename_i unended
        exact ⟨h.sound.promotion_key stored, rfl, Bool.eq_false_iff.mpr unended⟩
  · exact h.quiet env x rfl rfl

theorem Told.write {k : Key} {expected v : Nat} {status : PromotionStatus}
    (h : Told key s js g) (may : g.may (.updateStatus k expected status))
    (hu : s.updateStatus k expected status = .ok (v, s')) :
    Told key s' (js ++ [.stored]) (g.after (.updateStatus k expected status) (.ok v)) := by
  obtain ⟨p, stored, ledger, agrees⟩ := h.stored
  obtain ⟨old, found, same, _, _, rfl, rfl⟩ := updateStatus_ok h.sound hu
  let new := old.withStatus (s.version + 1) status
  have stored' (hk : key = k) : (s.writePromotion (some old) new).promotions.get? key = some new :=
    (get?_writePromotion _ _ _).trans (if_pos (hk.trans same.symm))
  have sound : (s.writePromotion (some old) new).Sound := sound_writePromotion h.sound rfl
  cases g with
  -- before the engine is called only the phase moves on
  | ready q =>
    obtain ⟨rfl, hs⟩ := may
    obtain ⟨hk, held, unended⟩ := agrees
    refine ⟨sound, _, stored' hk.symm, ledger.write ?_, ?_⟩
    · rcases hs with ended | ⟨unstarted, step⟩
      · exact .inl ended
      · rw [held] at unstarted step
        exact .inr (.inl (step.trans (ledger.unstarted unended unstarted)))
    · show Agrees key status _ (if status.isTerminal then .closed else _)
      split
      · trivial
      · rename_i unended
        exact ⟨hk, rfl, Bool.eq_false_iff.mpr unended⟩
  -- a step is written only if the engine has stopped at it in this directory
  | stopped q step =>
    obtain ⟨rfl, hs⟩ := may
    obtain ⟨hk, reached⟩ := agrees
    refine ⟨sound, _, stored' hk.symm, ledger.write ?_, trivial⟩
    rcases hs with ended | ⟨running, hstep⟩
    · exact .inl ended
    · exact .inr (.inr ⟨running, reached _ hstep⟩)
  | unread | inside | closed => exact may.elim

/-- Another directory, or none, is no matter for the stored status. -/
theorem Told.border {m : Mark} {g' : Errand} (h : Told key s js g) (hm : m.isBorder = true)
    (hg : ∀ status, Agrees key status js g → Agrees key status (js ++ [m]) g') :
    Told key s (js ++ [m]) g' := by
  obtain ⟨p, stored, ledger, agrees⟩ := h.stored
  exact ⟨h.sound, p, stored, ledger.border hm, hg p.status agrees⟩

/-- Without its directory, nothing is known of where a Promotion can go on. -/
theorem agrees_release {status : PromotionStatus} (uid : Uid) (a : Except FileError Unit)
    (ms : List Mark) (h : Agrees key status js g) :
    Agrees key status (js ++ ms) (g.after (.release uid) a) := by
  cases g with
  | stopped p step => exact ⟨h.1, fun i hi => by cases hi⟩
  | unread | ready | inside | closed => exact h

theorem Told.acquire {w w' : World Unit} {p : Promotion} {uid : Uid} {a : Except FileError Bool}
    (h : Told key w.store js (.ready p)) (env : Sequential.Setting σ) (x : σ)
    (hp : World.acquire uid w = (a, w')) :
    Told key w'.store (js ++ marksOf env x (.acquire uid) a)
      ((Errand.ready p).after (.acquire uid) a) := by
  unfold World.acquire at hp
  split at hp
  · rename_i fresh workspaces _
    cases hp
    -- a directory that was there already tells nothing new
    cases fresh with
    | true => exact h.border rfl fun _ agrees => agrees
    | false =>
      show Told key w.store (js ++ []) (.inside p false)
      rw [List.append_nil]
      exact ⟨h.sound, h.stored⟩
  · cases hp
    exact h.quiet env x rfl rfl

theorem Told.release {w w' : World Unit} {uid : Uid} {a : Except FileError Unit}
    (h : Told key w.store js g) (env : Sequential.Setting σ) (x : σ)
    (hp : World.release uid w = (a, w')) :
    Told key w'.store (js ++ marksOf env x (.release uid) a) (g.after (.release uid) a) := by
  unfold World.release at hp
  split at hp
  · cases hp
    exact h.border rfl fun status => agrees_release uid _ [.removed]
  · cases hp
    obtain ⟨p, stored, ledger, agrees⟩ := h.stored
    refine ⟨h.sound, p, stored, ?_, agrees_release uid _ [] agrees⟩
    show Ledger p.status (js ++ [])
    rw [List.append_nil]
    exact ledger

/-- What a call of the engine adds is in order exactly if it keeps pace. -/
theorem Told.call {p : Promotion} {fresh : Bool} {ctx : PromotionContext}
    (h : Told key s js (.inside p fresh)) (env : Sequential.Setting σ) (x : σ)
    (start : ctx.start = if fresh then 0 else p.status.currentStep) (steps : List Step) :
    Told key s (js ++ Sequential.marks env ctx steps x)
      ((Errand.inside p fresh).after (.promote ctx steps)
        (Sequential.promote env ctx steps x).1) := by
  obtain ⟨q, stored, ledger, hk, held, unended⟩ := h.stored
  refine ⟨h.sound, q, stored, ?_, ?_⟩
  · rcases Sequential.marks_cases env ctx steps x with nothing | ⟨ms, marks, strides, first⟩
    · rw [nothing, List.append_nil]
      exact ledger
    · rw [marks]
      refine ledger.call unended ?_ strides first
      cases fresh with
      | true => exact .inl start
      | false => exact .inr (start.trans (congrArg PromotionStatus.currentStep held))
  · cases answer : (Sequential.promote env ctx steps x).1 with
    | error e => exact ⟨hk, fun i hi => by cases hi⟩
    | crashed crash => exact ⟨hk, fun i hi => by cases hi⟩
    | result r =>
      refine ⟨hk, fun i hi => ?_⟩
      split at hi
      · rename_i running
        cases hi
        have reached := Sequential.reached_marks env ctx steps x answer running
        -- the step where the engine stopped is in the marks of this very call
        refine (mem_generation_append ?_).mpr (.inr reached)
        exact Sequential.border_marks env ctx steps x
      · cases hi

/-- What the world answers is what a reconcile on its errand may expect. -/
theorem expects_answer {w w' : World Unit} (sound : w.store.Sound) (may : g.may r)
    (env : Sequential.Setting σ) (x : σ)
    (hp : World.perform (Sequential.beside env x) r w = (a, w')) : g.expects r a := by
  cases r with
  | now | getStage | getFreight | listPromotions | emit | requestReverification | updateStatus
  | acquire | release => cases g <;> trivial
  | getPromotion k =>
    cases hp
    show g.expects (.getPromotion k) (w.store.getPromotion k)
    unfold Store.getPromotion whenAvailable
    split
    · cases found : w.store.promotions.get? k with
      | none => cases g <;> trivial
      | some p =>
        cases g with
        | unread k' =>
          cases (show k = k' from may)
          exact sound.promotion_key found
        | ready | inside | stopped | closed => trivial
    · cases g <;> trivial
  | promote ctx steps =>
    cases hp
    show g.expects (.promote ctx steps) (Sequential.promote env ctx steps x).1
    cases answer : (Sequential.promote env ctx steps x).1 with
    | error e => cases g <;> trivial
    | crashed crash => cases g <;> trivial
    | result r =>
      have phase := Sequential.phase_mayAnswer ⟨σ, env, x, answer⟩
      cases g <;> exact phase

/-- Every answer leaves behind what it tells. -/
theorem Told.answer {w w' : World Unit} (h : Told key w.store js g) (may : g.may r)
    (env : Sequential.Setting σ) (x : σ)
    (hp : World.perform (Sequential.beside env x) r w = (a, w')) :
    Told key w'.store (js ++ marksOf env x r a) (g.after r a) := by
  cases r with
  | now | getStage | getFreight | listPromotions | emit =>
    cases hp
    exact h.quiet env x rfl (by cases g <;> rfl)
  | requestReverification k =>
    have hp : World.attempt (·.requestReverification k w.clock) w = (a, w') := hp
    have after := World.snd_attempt (·.requestReverification k w.clock) w
    rw [hp] at after
    cases show w' = _ from after
    exact (h.reverified k w.clock).quiet env x rfl (by cases g <;> rfl)
  | getPromotion k =>
    cases g with
    | unread k' =>
      cases (show k = k' from may)
      cases hp
      exact h.read env x
    | ready | inside | stopped | closed => exact may.elim
  | updateStatus k v status =>
    have hp : World.attempt (·.updateStatus k v status) w = (a, w') := hp
    unfold World.attempt at hp
    split at hp
    · rename_i hu
      cases hp
      exact h.write may hu
    · cases hp
      exact h.quiet env x rfl (by cases g <;> rfl)
  | acquire uid =>
    cases g with
    | ready p => exact h.acquire env x hp
    | unread | inside | stopped | closed => exact may.elim
  | release uid => exact h.release env x hp
  | promote ctx steps =>
    cases g with
    | inside p fresh =>
      cases hp
      exact h.call env x may steps
    | unread | ready | stopped | closed => exact may.elim

/-- Requests for other Promotions leave this one alone. -/
theorem Told.others {w : World Unit} (h : Told key w.store js g)
    (spares : ∀ p, w.store.promotions.get? key = some p → r.Spares key p.metadata.uid) :
    Told key (World.perform (fun _ _ w => (default, w)) r w).2.store js g := by
  cases r with
  | now | getPromotion | getStage | getFreight | listPromotions | promote | emit => exact h
  | requestReverification k =>
    show Told key (World.attempt (·.requestReverification k w.clock) w).2.store js g
    rw [World.snd_attempt]
    exact h.reverified k w.clock
  | updateStatus k v status =>
    obtain ⟨p, stored, _⟩ := h.stored
    -- others write other Promotions
    have other : k ≠ key := spares p stored
    show Told key (World.attempt (·.updateStatus k v status) w).2.store js g
    unfold World.attempt
    split
    · rename_i hu
      obtain ⟨old, _, same, _, _, rfl, rfl⟩ := updateStatus_ok h.sound hu
      refine h.elsewhere (sound_writePromotion h.sound rfl) fun p stored => ⟨p, ?_, rfl⟩
      rw [get?_writePromotion, Promotion.key_withStatus, same, if_neg other.symm]
      exact stored
    · exact h
  | acquire uid =>
    show Told key (World.acquire uid w).2.store js g
    unfold World.acquire
    split <;> exact h
  | release uid =>
    show Told key (World.release uid w).2.store js g
    unfold World.release
    split <;> exact h

end Told

theorem faithful_opens (h : d.Opens key) : ∃ g, d.Faithful key g := by
  obtain ⟨p, stored, initial, _⟩ := h.created
  obtain ⟨e, idle⟩ := h.idle
  refine ⟨.closed, ⟨h.sound, p, stored, ?_, trivial⟩, ?_⟩
  · rw [h.blank]
    exact .nil (by rw [initial]; rfl)
  · rw [idle]
    trivial

theorem Faithful.answered (h : d.Faithful key g) (env : Sequential.Setting σ) (x : σ) :
    ∃ g', (d.answered env x).Faithful key g' := by
  obtain ⟨w, rest, js⟩ := d
  cases rest with
  | done e => exact ⟨g, h⟩
  | ask r next =>
    obtain ⟨may, goesOn⟩ := h.obeys
    have expects := expects_answer h.told.sound may env x rfl
    exact ⟨_, h.told.answer may env x rfl, goesOn _ expects⟩

theorem faithful_turn (h : d.Faithful key g) (ht : Turn c key d d') :
    ∃ g', d'.Faithful key g' := by
  cases ht with
  | begin e _ idle =>
    obtain ⟨p, stored, ledger, _⟩ := h.told.stored
    exact ⟨.unread key, ⟨h.told.sound, p, stored, ledger, rfl⟩, c.errand_reconcile key⟩
  | answer env x => exact h.answered env x
  | edit e _ spares =>
    -- an edit may change the version, but neither status nor journal
    have within : e.Within .any := by cases e <;> trivial
    have sound := (edited_apply h.told.sound within).sound h.told.sound
    exact ⟨g, h.told.elsewhere sound fun p stored => status_apply h.told.sound spares stored,
      h.obeys⟩
  | others r _ spares => exact ⟨g, h.told.others spares, h.obeys⟩
  | clock now => exact ⟨g, h.told, h.obeys⟩

theorem faithful_reached (ho : d.Opens key) (h : Reached c key d d') :
    ∃ g, d'.Faithful key g := by
  induction h with
  | refl => exact faithful_opens ho
  | tail _ ht ih =>
    obtain ⟨g, faithful⟩ := ih
    exact faithful_turn faithful ht

/-- However reconciles, edits and the requests of others take turns: all steps are attempted
in directories in which the steps before them were completed, exactly if the engine never
goes on from a step that was written before its directory was made. -/
theorem trustworthy_iff_keepsPace (ho : d.Opens key) (h : Reached c key d d') :
    Trustworthy d'.journal ↔ KeepsPace d'.journal := by
  obtain ⟨g, faithful⟩ := faithful_reached ho h
  obtain ⟨p, _, ledger, _⟩ := faithful.told.stored
  exact ledger.agrees

/-- A runner that reports what it is told to, one status for each attempt. -/
def scripted : Sequential.Setting (List StepStatus) :=
  let runner : Runner (List StepStatus) := ⟨none, fun _ x =>
    (.reported ⟨x.headD .succeeded, none, none, none⟩, x.tail)⟩
  ⟨.ofList [("try", runner)], fun _ _ _ => .ok none, pure default⟩

/-- What a user writes so that one Promotion of two steps can run. -/
def twoSteps : List Edit :=
  let origin := Origin.warehouse "w"
  let stage := Stage.fresh (.fresh "a" "s" default) ⟨[.direct origin], none⟩
  [.putFreight (.fresh (.fresh "a" "f" default) origin) ⟨1⟩,
    .putStage (stage.withCurrent (some (.named "p"))) ⟨2⟩,
    .create (.fresh (.fresh "a" "p" default) ⟨"s", "f", [], [.ofKind "try", .ofKind "try"]⟩) ⟨3⟩]

def onward : Reconciler := ⟨.standard "", fun _ => none⟩

def twoStepsKey : Key := ⟨"a", "p"⟩

def outset : Chronicle :=
  ⟨⟨default, twoSteps.foldl Edit.apply .empty, .empty, #[], ()⟩, .done (.finished none), []⟩

/-- A moment of a run: a reconcile begins, is answered some requests, or the Promotion is
annotated. -/
inductive Cue where
  | begin
  | answers (number : Nat) (reports : List StepStatus)
  | annotate (value : String)

/-- A reconcile begins unless one is under way. -/
def begun (d : Chronicle) : Chronicle :=
  match d.rest with
  | .done _ => { d with rest := onward.reconcile twoStepsKey }
  | .ask _ _ => d

def play (d : Chronicle) : Cue → Chronicle
  | .begin => d.begun
  | .answers number reports => Nat.repeat (answered scripted reports) number d
  | .annotate value =>
    { d with world := { d.world with
        store := (Edit.annotate twoStepsKey "note" value).apply d.world.store } }

theorem reached_play (cues : List Cue) (d : Chronicle) :
    Reached onward twoStepsKey d (cues.foldl play d) := by
  induction cues generalizing d with
  | nil => exact .refl
  | cons cue cues ih =>
    refine .trans ?_ (ih (play d cue))
    cases cue with
    | begin =>
      show Reached onward twoStepsKey d d.begun
      unfold begun
      split
      · rename_i e idle
        exact .single (.begin e d idle)
      · exact .refl
    | answers number reports =>
      show Reached onward twoStepsKey d (Nat.repeat (answered scripted reports) number d)
      induction number with
      | zero => exact .refl
      | succ n ih => exact .tail ih (.answer scripted reports _)
    | annotate value => exact .single (.edit (.annotate twoStepsKey "note" value) d trivial)

theorem opens_outset : Opens twoStepsKey outset where
  sound := sound_edits sound_empty twoSteps
  created := ⟨_, rfl, rfl, rfl⟩
  idle := ⟨_, rfl⟩
  blank := rfl

/-- The first step is completed and the second is still running. Then the second step
fails, but the Promotion is annotated before this is written, and the directory is gone. In
a new one the first step is still running when the Promotion is annotated again. -/
def setbacks : List Cue :=
  [.begin, .answers 12 [.succeeded, .running],
    .begin, .answers 5 [.failed], .annotate "1", .answers 3 [],
    .begin, .answers 5 [.running], .annotate "2", .answers 3 [],
    .begin, .answers 12 [.succeeded]]

/-- The engine attempts the second step where the first was not completed. -/
theorem untrustworthy_of_setbacks : ∃ c key d d', Opens key d ∧ Reached c key d d' ∧
    ¬ Trustworthy d'.journal := by
  refine ⟨onward, twoStepsKey, outset, setbacks.foldl play outset, opens_outset,
    reached_play setbacks outset, fun trust => ?_⟩
  have before : [.stored, .stored, .made, .called 0, .attempted 0, .completed 0, .attempted 1,
      .reached 1, .stored, .called 1, .attempted 1, .reached 1, .removed, .made, .called 0,
      .attempted 0, .reached 0, .called 1] ++ [Mark.attempted 1] <+:
        (setbacks.foldl play outset).journal := by decide +kernel
  have completed := trust _ 1 before 0 Nat.zero_lt_one
  exact absurd completed (by decide)

/-- As long as only the first of the two writes is refused, all is well. -/
theorem trustworthy_iff_keepsPace_of_setback : ∃ c key d d', Opens key d ∧ Reached c key d d' ∧
    .called 1 ∈ d'.journal ∧ (Trustworthy d'.journal ↔ KeepsPace d'.journal) := by
  have reached := reached_play (setbacks.take 6) outset
  exact ⟨onward, twoStepsKey, outset, _, opens_outset, reached, by decide +kernel,
    trustworthy_iff_keepsPace opens_outset reached⟩

end Chronicle

end Drayage
