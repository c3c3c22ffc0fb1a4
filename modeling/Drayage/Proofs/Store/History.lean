import Drayage.Proofs.Store.Evolution
import Mathlib.Logic.Relation

/-!
# The history of a store

The changes that a store has published tell how its Promotions came to be what they are.
As long as statuses are only written over Promotions that have not ended, one that has
ended stays as it is, and it ends once for every time it is created.
-/

namespace Drayage

open Relation

namespace Change

/-- A change by which a Promotion ended. -/
def ends (c : Change Promotion) : Bool :=
  match c.kind, c.old with
  | .updated, some old => !old.status.isTerminal && c.new.status.isTerminal
  | _, _ => false

/-- How a change turns what is stored under its key, where a Promotion that has ended
keeps its status. -/
inductive Turns : Change Promotion → (before after : Option Promotion) → Prop where
  | created (new : Promotion) : Turns (created new) none (some new)
  | updated (old new : Promotion)
      (absorbed : old.status.isTerminal = true → new.status = old.status) :
      Turns (updated old new) (some old) (some new)
  | deleted (last : Promotion) : Turns (deleted last) (some last) none

end Change

namespace Store

variable {I : Intake} {K : PromotionSpec → PromotionStatus → Prop} {s s' : Store}

/-- What may become of a store if statuses are only written over Promotions that have not
ended, and only such as `K` allows. -/
inductive Evolves (I : Intake) (K : PromotionSpec → PromotionStatus → Prop) (s : Store) :
    Store → Prop where
  | edited {s' : Store} (h : Edited I s s') : Evolves I K s s'
  | advanced (p : Promotion) (status : PromotionStatus)
      (stored : s.promotions.get? p.key = some p) (unended : p.status.isTerminal = false)
      (fit : status.unfit? p.spec = none) (kept : K p.spec status) :
      Evolves I K s (s.writePromotion (some p) (p.withStatus (s.version + 1) status))

theorem Evolves.sound (hs : s.Sound) (h : Evolves I K s s') : s'.Sound := by
  cases h with
  | edited h => exact h.sound hs
  | advanced p status stored unended fit kept => exact sound_writePromotion hs rfl

theorem Evolves.grows (h : Evolves I K s s') : s.Grows s' := by
  cases h with
  | edited h => exact h.grows
  | advanced p status stored unended fit kept => exact grows_writePromotion rfl

theorem evolves_edits (hs : s.Sound) {es : List Edit} (h : ∀ e ∈ es, e.Within I) :
    ReflTransGen (Evolves I K) s (es.foldl Edit.apply s) := by
  induction es generalizing s with
  | nil => exact .refl
  | cons e es ih =>
    have edited := edited_apply hs (h e List.mem_cons_self)
    exact .head (.edited edited) (ih (edited.sound hs) fun e he => h e (List.mem_cons_of_mem _ he))

/-- One change is published and made, or else no Promotion changes. -/
def Logs (s s' : Store) : Prop :=
  (s'.changes = s.changes ∧ s'.promotions = s.promotions) ∨
    ∃ c before after, Change.Turns c before after ∧ s'.changes = s.changes ++ [c] ∧
      s.promotions.get? c.new.key = before ∧ s'.promotions.get? c.new.key = after ∧
      ∀ k, k ≠ c.new.key → s'.promotions.get? k = s.promotions.get? k

theorem logs_writePromotion {old : Option Promotion} {p : Promotion}
    (h : (Change.replaced old p).Turns (s.promotions.get? p.key) (some p)) :
    s.Logs (s.writePromotion old p) := by
  have new : (Change.replaced old p).new = p := by cases old <;> rfl
  refine .inr ⟨_, _, _, h, changes_writePromotion old p, by rw [new], ?_, fun k hk => ?_⟩
  · rw [new, get?_writePromotion, if_pos rfl]
  · rw [new] at hk
    rw [get?_writePromotion, if_neg hk]

theorem Edited.logs (h : Edited I s s') : s.Logs s' := by
  cases h with
  | same => exact .inl ⟨rfl, rfl⟩
  | available b => exact .inl ⟨rfl, rfl⟩
  | created p candidate allowed absent =>
    refine logs_writePromotion ?_
    rw [key_admitted, absent]
    exact .created _
  | annotated old mark value stored =>
    refine logs_writePromotion ?_
    rw [Promotion.key_annotated, stored]
    exact .updated old _ fun _ => rfl
  | deleted p stored =>
    refine .inr ⟨_, _, _, .deleted p, changes_removePromotion p, stored, ?_, fun k hk => ?_⟩
    · exact (get?_removePromotion p p.key).trans (if_pos rfl)
    · exact (get?_removePromotion p k).trans (if_neg hk)
  | put stage candidate allowed => exact .inl ⟨changes_writeStage _ _, rfl⟩
  | marked old m stored key labels => exact .inl ⟨changes_writeStage _ _, rfl⟩
  | freight old freight => exact .inl ⟨changes_writeFreight _ _, rfl⟩

theorem Evolves.logs (h : Evolves I K s s') : s.Logs s' := by
  cases h with
  | edited h => exact h.logs
  | advanced p status stored unended fit kept =>
    refine logs_writePromotion ?_
    rw [Promotion.key_withStatus, stored]
    exact .updated p _ fun ended => by rw [unended] at ended; cases ended

/-- An edit ends no Promotion. -/
theorem Edited.ends_eq_nil (h : Edited I s s') : (s.changesUpTo s').filter Change.ends = [] := by
  have none (h : s'.changes = s.changes) : (s.changesUpTo s').filter Change.ends = [] := by
    rw [changesUpTo_of_append (h.trans (List.append_nil _).symm), List.filter_nil]
  have one (c : Change Promotion) (hc : c.ends = false) (h : s'.changes = s.changes ++ [c]) :
      (s.changesUpTo s').filter Change.ends = [] := by
    rw [changesUpTo_of_append h]
    exact List.filter_cons_of_neg (by rw [hc]; exact Bool.false_ne_true)
  cases h with
  | same => exact none rfl
  | available b => exact none rfl
  | created p candidate allowed absent => exact one _ rfl (changes_writePromotion _ _)
  | annotated old mark value stored =>
    refine one _ ?_ (changes_writePromotion _ _)
    show (!old.status.isTerminal && old.status.isTerminal) = false
    exact Bool.not_and_self _
  | deleted p stored => exact one _ rfl (changes_removePromotion p)
  | put stage candidate allowed => exact none (changes_writeStage _ _)
  | marked old m stored key labels => exact none (changes_writeStage _ _)
  | freight old freight => exact none (changes_writeFreight _ _)

/-- A status that is written over one that is not terminal ends the Promotion if it is. -/
theorem ends_writePromotion {p : Promotion} (unended : p.status.isTerminal = false)
    (status : PromotionStatus) :
    let q := p.withStatus (s.version + 1) status
    (s.changesUpTo (s.writePromotion (some p) q)).filter Change.ends =
      if status.isTerminal then [.updated p q] else [] := by
  intro q
  have new : s.changesUpTo (s.writePromotion (some p) q) = [.updated p q] :=
    changesUpTo_of_append (changes_writePromotion _ _)
  have ends : (Change.updated p q).ends = status.isTerminal := by
    show (!p.status.isTerminal && status.isTerminal) = status.isTerminal
    rw [unended]
    rfl
  rw [new, List.filter_cons, ends, List.filter_nil]

theorem Logs.changes (h : s.Logs s') : s'.changes = s.changes ++ s.changesUpTo s' := by
  have grown {cs : List (Change Promotion)} (h : s'.changes = s.changes ++ cs) :
      s'.changes = s.changes ++ s.changesUpTo s' := by
    rw [changesUpTo_of_append h, h]
  rcases h with ⟨h, _⟩ | ⟨_, _, _, _, h, _⟩
  · exact grown (h.trans (List.append_nil _).symm)
  · exact grown h

/-- Between two endings of a Promotion it was created anew. -/
def EndsOnce (s : Store) : Prop :=
  ∀ front c mid d back, s.changes = front ++ c :: (mid ++ d :: back) → c.ends = true →
    d.ends = true → c.new.key = d.new.key →
    ∃ m ∈ mid, m.kind = .created ∧ m.new.key = c.new.key

/-- After the ending of a Promotion, and as long as it is not created anew, none is stored
that has not ended. -/
def StaysEnded (s : Store) : Prop :=
  ∀ front c mid, s.changes = front ++ c :: mid → c.ends = true →
    (∃ m ∈ mid, m.kind = .created ∧ m.new.key = c.new.key) ∨
      ∀ p, s.promotions.get? c.new.key = some p → p.status.isTerminal = true

theorem split_concat {α : Type} {l front mid : List α} {x c y : α}
    (h : l ++ [x] = front ++ c :: (mid ++ [y])) : l = front ++ c :: mid ∧ x = y := by
  rw [← List.cons_append, ← List.append_assoc] at h
  obtain ⟨hl, hx⟩ := List.append_inj' h rfl
  exact ⟨hl, (List.cons.inj hx).1⟩

theorem staysEnded_log (h : s.StaysEnded) (hl : s.Logs s') : s'.StaysEnded := by
  rcases hl with ⟨hc, hp⟩ | ⟨x, before, after, turns, hc, hbefore, hafter, others⟩
  · unfold StaysEnded
    rw [hc, hp]
    exact h
  · intro front c mid hsplit hends
    rw [hc] at hsplit
    rcases List.eq_nil_or_concat mid with rfl | ⟨mid, y, rfl⟩
    · -- the change is the ending itself
      obtain ⟨_, hx⟩ := List.append_inj' hsplit rfl
      cases hx
      cases turns with
      | created new => cases hends
      | deleted last => cases hends
      | updated old new absorbed =>
        refine .inr fun p hp => ?_
        rw [hafter] at hp
        cases hp
        exact (Bool.and_eq_true_iff.mp hends).2
    · rw [List.concat_eq_append] at hsplit ⊢
      obtain ⟨hfront, rfl⟩ := split_concat hsplit
      rcases h front c mid hfront hends with ⟨m, hm, created⟩ | hstored
      · exact .inl ⟨m, List.mem_append_left _ hm, created⟩
      -- the ending is older, and only a change of the same key matters
      · by_cases hk : c.new.key = x.new.key
        · rw [hk] at hstored ⊢
          rw [hafter]
          cases turns with
          | created new =>
            exact .inl ⟨_, List.mem_append_right _ List.mem_cons_self, rfl, rfl⟩
          | deleted last => exact .inr fun p hp => by cases hp
          | updated old new absorbed =>
            have ended := hstored old hbefore
            refine .inr fun p hp => ?_
            cases hp
            rw [absorbed ended]
            exact ended
        · rw [others _ hk]
          exact .inr hstored

theorem endsOnce_log (h : s.EndsOnce) (hstays : s.StaysEnded) (hl : s.Logs s') :
    s'.EndsOnce := by
  rcases hl with ⟨hc, _⟩ | ⟨x, before, after, turns, hc, hbefore, _, _⟩
  · unfold EndsOnce
    rw [hc]
    exact h
  · intro front c mid d back hsplit hcEnds hdEnds hk
    rw [hc] at hsplit
    rcases List.eq_nil_or_concat back with rfl | ⟨back, y, rfl⟩
    -- the second ending is the last change, which `StaysEnded` rules out
    · obtain ⟨hfront, rfl⟩ := split_concat hsplit
      rcases hstays front c mid hfront hcEnds with created | hstored
      · exact created
      · cases turns with
        | created new => cases hdEnds
        | deleted last => cases hdEnds
        | updated old new absorbed =>
          rw [hk] at hstored
          have ended := hstored old hbefore
          have unended := (Bool.and_eq_true_iff.mp hdEnds).1
          rw [ended] at unended
          cases unended
    -- both endings are older
    · have regrouped : s.changes ++ [x] = front ++ c :: ((mid ++ d :: back) ++ [y]) := by
        simpa using hsplit
      exact h front c mid d back (split_concat regrouped).1 hcEnds hdEnds hk

/-- What holds of a store that evolved from an empty one. Everything that was ever read from
it can still be told apart by its version. -/
structure Historic (K : PromotionSpec → PromotionStatus → Prop) (s : Store) : Prop where
  sound : s.Sound
  kept : ∀ {k p}, s.promotions.get? k = some p → K p.spec p.status
  read : ∀ c ∈ s.changes, s.Pins c.new ∧ K c.new.spec c.new.status
  endsOnce : s.EndsOnce
  staysEnded : s.StaysEnded

theorem historic_empty : Store.empty.Historic K where
  sound := sound_empty
  kept h := by cases h
  read c hc := by cases hc
  endsOnce front c mid d back h := by simp [changes, empty] at h
  staysEnded front c mid h := by simp [changes, empty] at h

/-- What a change leaves stored keeps what was kept before. -/
theorem kept_logs (hI : ∀ p, I.promotion p → K p.spec p.status)
    (hkept : ∀ {k p}, s.promotions.get? k = some p → K p.spec p.status)
    (h : Evolves I K s s') {c : Change Promotion} (hc : s'.changes = s.changes ++ [c]) :
    K c.new.spec c.new.status := by
  -- the change that was logged is the one that the store made
  have last {d : Change Promotion} (hd : s'.changes = s.changes ++ [d]) : c = d := by
    rw [hd] at hc
    exact (List.cons.inj (List.append_cancel_left hc)).1.symm
  have unchanged (hd : s'.changes = s.changes) : False := by
    have := congrArg List.length (hd.symm.trans hc)
    simp at this
  cases h with
  | advanced p status stored unended fit kept =>
    rw [last (changes_writePromotion _ _)]
    exact kept
  | edited h =>
    cases h with
    | created p candidate allowed absent =>
      rw [last (changes_writePromotion _ _)]
      exact hI p allowed
    | annotated old mark value stored =>
      rw [last (changes_writePromotion _ _)]
      exact hkept (p := old) stored
    | deleted p stored =>
      rw [last (changes_removePromotion p)]
      exact hkept stored
    | same => exact (unchanged rfl).elim
    | available b => exact (unchanged rfl).elim
    | put stage candidate allowed => exact (unchanged (changes_writeStage _ _)).elim
    | marked old m stored key labels => exact (unchanged (changes_writeStage _ _)).elim
    | freight old freight => exact (unchanged (changes_writeFreight _ _)).elim

theorem Historic.evolve (hI : ∀ p, I.promotion p → K p.spec p.status) (hs : s.Historic K)
    (h : Evolves I K s s') : s'.Historic K := by
  have sound := h.sound hs.sound
  have logs := h.logs
  have kept : ∀ {k p}, s'.promotions.get? k = some p → K p.spec p.status := by
    intro k p hp
    rcases logs with ⟨_, hsame⟩ | ⟨c, before, after, turns, hc, _, hafter, others⟩
    · rw [hsame] at hp
      exact hs.kept hp
    -- the only value that is new is that of the change
    · by_cases hk : k = c.new.key
      · rw [hk, hafter] at hp
        have new := kept_logs hI hs.kept h hc
        cases turns with
        | created q => cases hp; exact new
        | updated old q absorbed => cases hp; exact new
        | deleted last => cases hp
      · rw [others k hk] at hp
        exact hs.kept hp
  refine ⟨sound, kept, fun c hc => ?_, endsOnce_log hs.endsOnce hs.staysEnded logs,
    staysEnded_log hs.staysEnded logs⟩
  rcases logs with ⟨hsame, _⟩ | ⟨x, before, after, turns, hx, hbefore, hafter, _⟩
  · rw [hsame] at hc
    exact ⟨(hs.read c hc).1.grow h.grows, (hs.read c hc).2⟩
  · rw [hx] at hc
    rcases List.mem_append.mp hc with hc | hc
    · exact ⟨(hs.read c hc).1.grow h.grows, (hs.read c hc).2⟩
    · cases List.mem_singleton.mp hc
      refine ⟨?_, kept_logs hI hs.kept h hx⟩
      cases turns with
      | created new => exact pins_of_stored sound hafter
      | updated old new absorbed => exact pins_of_stored sound hafter
      | deleted last => exact (pins_of_stored hs.sound hbefore).grow h.grows

theorem pins_of_evolves (h : ReflTransGen (Evolves I K) s s') {p : Promotion}
    (pins : s.Pins p) : s'.Pins p := by
  induction h with
  | refl => exact pins
  | tail _ step ih => exact ih.grow step.grows

theorem changes_of_evolves (h : ReflTransGen (Evolves I K) s s') :
    s'.changes = s.changes ++ s.changesUpTo s' := by
  have grown : ∃ cs, s'.changes = s.changes ++ cs := by
    induction h with
    | refl => exact ⟨[], (List.append_nil _).symm⟩
    | tail _ step ih =>
      obtain ⟨cs, hcs⟩ := ih
      exact ⟨_, step.logs.changes.trans (by rw [hcs, List.append_assoc])⟩
  obtain ⟨cs, hcs⟩ := grown
  rw [changesUpTo_of_append hcs, hcs]

/-- A Promotion that has ended keeps its status until it is deleted. -/
theorem absorbed_of_evolves (h : ReflTransGen (Evolves I K) s s') {k : Key} {p : Promotion}
    (hp : s.promotions.get? k = some p) (ended : p.status.isTerminal = true) :
    (∃ c ∈ s.changesUpTo s', c.kind = .deleted ∧ c.new.key = k) ∨
      ∃ q, s'.promotions.get? k = some q ∧ q.status = p.status := by
  induction h with
  | refl => exact .inr ⟨p, hp, rfl⟩
  -- by induction on the evolution, at its last step
  | @tail b s'' path step ih =>
    have more : s.changesUpTo s'' = s.changesUpTo b ++ b.changesUpTo s'' := by
      have h := changes_of_evolves (path.tail step)
      rw [step.logs.changes, changes_of_evolves path, List.append_assoc] at h
      exact (List.append_cancel_left h).symm
    rw [more]
    rcases ih with ⟨c, hc, deleted⟩ | ⟨q, hq, status⟩
    · exact .inl ⟨c, List.mem_append_left _ hc, deleted⟩
    · rcases step.logs with ⟨_, hsame⟩ | ⟨c, before, after, turns, hc, hbefore, hafter, others⟩
      · rw [hsame]
        exact .inr ⟨q, hq, status⟩
      · by_cases hk : k = c.new.key
        · rw [hk] at hq ⊢
          rw [hafter]
          cases turns with
          | created new =>
            rw [hbefore] at hq
            cases hq
          | deleted last =>
            have new : Change.deleted last ∈ b.changesUpTo s'' := by
              rw [changesUpTo_of_append hc]
              exact List.mem_cons_self
            exact .inl ⟨_, List.mem_append_right _ new, rfl, rfl⟩
          | updated old new absorbed =>
            rw [hbefore] at hq
            cases hq
            rw [← status] at ended
            exact .inr ⟨new, rfl, (absorbed ended).trans status⟩
        · rw [others k hk]
          exact .inr ⟨q, hq, status⟩

end Store

end Drayage
