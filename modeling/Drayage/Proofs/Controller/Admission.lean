import Drayage.Proofs.Controller.Starting
import Mathlib.Data.List.Basic

/-!
# Admission to the engine

A reconcile calls the engine once at most, and not before it has seen everything that a
Promotion needs to be let in. Its replies up to that request tell what it has seen, and the
moments at which it got them tell what the store and the workspaces were like.
-/

namespace Drayage

open Program Relation Store Traffic

namespace Reconciler

variable {c : Reconciler} {p q : Promotion} {stage : Stage} {freight : Option Freight}
  {initial : Option Phase} {replies : List Reply} {e : Ending} {s : PromotionStatus}

theorem Drafts.uncalled {promoted : Promoted} (h : Drafts p promoted replies s) :
    replies.filterMap Reply.engine? = [] := by
  cases h <;> rfl

/-- What a reconcile has seen when it calls the engine: `p` is the Promotion that it has read,
and `q` the one that it goes on with. -/
structure Sees (key : Key) (replies : List Reply) (p q : Promotion) (stage : Stage) (f : Freight)
    (fresh : Bool) : Prop where
  uncalled : replies.filterMap Reply.engine? = []
  read : replies.head? = some ⟨.getPromotion key, .ok (some p)⟩
  unended : p.status.isTerminal = false
  unaborted : p.Unaborted
  supplied : (⟨.getFreight ⟨key.project, p.spec.freight⟩, .ok (some f)⟩ : Reply) ∈ replies
  staged : (⟨.getStage ⟨key.project, p.spec.stage⟩, .ok (some stage)⟩ : Reply) ∈ replies
  named : stage.currentPromotionName = some p.metadata.name
  available : stage.isAvailable f = true
  underway : Underway p q
  /-- Where the Promotion was not running it was begun, after it had got its first phase. -/
  written : p.status.phase ≠ some .running → ∃ reads mark more back p' v now,
    replies = (reads ++ mark ++ more) ++ ⟨write p' (begun p.status now), .ok v⟩ :: back ∧
    (⟨.getPromotion key, .ok (some p)⟩ : Reply) ∈ reads ∧ Pends p mark p'
  acquired : replies.getLast? = some ⟨.acquire p.metadata.uid, .ok fresh⟩

theorem Begins.writes (h : Begins p replies q) (waiting : p.status.phase ≠ some .running) :
    ∃ v now, replies = [⟨.now, now⟩, ⟨write p (begun p.status now), .ok v⟩] := by
  cases h with
  | running running => exact absurd running waiting
  | written _ now v => exact ⟨v, now, rfl⟩

/-- A Promotion that has got its first phase was not running before, and is not now. -/
theorem Pends.waiting (h : Pends p replies q) (waiting : p.status.phase ≠ some .running) :
    q.status.phase ≠ some .running := by
  cases h with
  | known => exact waiting
  | written => exact pended_phase

/-- The engine is called for the progress that is stored, but from the first step on in a
workspace that was made for it. -/
theorem Underway.context {ctx : PromotionContext} {steps : List Step} {f : Freight} {fresh : Bool}
    (h : Underway p q) (same : c.engineCall q stage f fresh = .promote ctx steps) :
    steps = Step.ofDeclaredSteps p.spec.steps ∧
      ctx.workspace = Workspaces.pathOf c.config.workspaceRoot p.metadata.uid ∧
      ctx.start = (if fresh then 0 else p.status.currentStep) ∧
      ctx.records = (if fresh then [] else p.status.records) ∧ ctx.state = p.status.state := by
  cases same
  cases h <;> cases fresh <;> exact ⟨rfl, rfl, rfl, rfl, rfl⟩

end Reconciler

namespace Workspaces

variable {ws ws' : Workspaces} {uid : Uid} {fresh : Bool}

end Workspaces

/-- The Promotion with this key and uid is stored as one that is running, and it is known since
when, unless it was itself created as running without a time. -/
def Store.Runs (s : Store) (key : Key) (uid : Uid) : Prop :=
  ∃ p, s.promotions.get? key = some p ∧ p.metadata.uid = uid ∧ p.status.phase = some .running ∧
    (p.status.startedAt ≠ none ∨ s.CreatedUnstarted key uid)

namespace Traffic

open Reconciler

variable {S : Surroundings} {c : Reconciler} {o t : Traffic} {key : Key} {replies : List Reply}

section Runs

variable {p q : Promotion} {reads mark more : List Reply}

/-- A Promotion that was read is told apart by its version from then on. -/
theorem Follows.pins_read {x : Program Ending} (reached : Reached S o)
    (run : Follows S o x replies t)
    (told : (⟨.getPromotion key, .ok (some p)⟩ : Reply) ∈ replies) : t.world.store.Pins p := by
  obtain ⟨u, u', read⟩ := run.moment told
  obtain ⟨_, _, stored⟩ := read.answers.read
  have there := reached.turns read.before
  exact there.pins (.head read.turn read.after) (pins_of_stored there.sound stored)

/-- So is one that has got its first phase after that. -/
theorem Follows.pins_pended {x : Program Ending} (reached : Reached S o)
    (run : Follows S o x (reads ++ mark ++ more) t)
    (told : (⟨.getPromotion key, .ok (some p)⟩ : Reply) ∈ reads) (pends : Pends p mark q) :
    t.world.store.Pins q := by
  cases pends with
  | known =>
    exact run.pins_read reached (List.mem_append_left _ (List.mem_append_left _ told))
  | written unknown v =>
    rw [List.append_assoc] at run
    obtain ⟨u, u', before, wrote⟩ := run.split
    have there := reached.turns wrote.before
    obtain ⟨old, stored, _, version, _, rfl, after⟩ := wrote.answers.written there.sound
    -- the write was made over what was read
    cases (before.pins_read reached told).2 old stored version
    refine (there.turns (.single wrote.turn)).pins wrote.after ?_
    rw [after]
    exact pins_writePromotion _ rfl

/-- A Promotion that is read as running runs, and so does one that was written as begun. -/
theorem Follows.runs (reached : Reached S o) (run : Follows S o (c.reconcile key) replies t)
    {stage : Stage} {f : Freight} {fresh : Bool} (sees : Sees key replies p q stage f fresh) :
    ∃ u, ReflTransGen (Turn S) o u ∧ ReflTransGen (Turn S) u t ∧
      u.world.store.Runs key p.metadata.uid := by
  obtain ⟨u, u', read⟩ := run.moment (List.mem_of_mem_head? sees.read)
  obtain ⟨_, _, stored⟩ := read.answers.read
  have there := reached.turns read.before
  by_cases running : p.status.phase = some .running
  · refine ⟨u, read.before, .head read.turn read.after, p, stored, rfl, running, ?_⟩
    by_cases unknown : p.status.startedAt = none
    · exact .inr (explained_of_reached there key p stored ⟨running, unknown⟩)
    · exact .inl unknown
  · obtain ⟨reads, mark, more, back, p', v, now, rfl, told, pends⟩ := sees.written running
    obtain ⟨b, b', before, wrote⟩ := run.split
    obtain ⟨old, was, _, version, _, _, after⟩ :=
      wrote.answers.written (reached.turns wrote.before).sound
    cases (before.pins_pended reached told pends).2 old was version
    have here : key = p'.key := (there.sound.promotion_key stored).symm.trans pends.keeps.key.symm
    refine ⟨b', wrote.before.tail wrote.turn, wrote.after,
      p'.withStatus v (begun p.status now), ?_, pends.keeps.uid, rfl, .inl (Option.some_ne_none _)⟩
    rw [after, get?_writePromotion, Promotion.key_withStatus, if_pos here]

end Runs

end Traffic

end Drayage
