import Drayage.Proofs.Controller.Depot

/-!
# The work queue loses no work and makes none up

As long as the queue does not shut down, a key is to be worked on exactly if it was added
since it was handed out last. Such a key waits unless somebody holds it, and is handed out
after those, and only those, that got in line before it.
-/

namespace Drayage

namespace Act

variable {ω : Type} {as : List (Act ω)} {a : Act ω} {k : Key}

/-- The key that is added by an act. -/
def adds : Act ω → Option Key
  | .add k | .fire k => some k
  | .addAfter k delay => if delay.isZero then some k else none
  | _ => none

/-- The key that is handed out by an act. -/
def takes : Act ω → Option Key
  | .get _ k => some k
  | _ => none

/-- A key was added, and was not handed out since. -/
def Asked (as : List (Act ω)) (k : Key) : Prop :=
  ∃ before a after, as = before ++ a :: after ∧ a.adds = some k ∧
    ∀ b ∈ after, b.takes ≠ some k

theorem not_asked_nil : ¬ Asked ([] : List (Act ω)) k := by
  rintro ⟨before, a, after, h, -⟩
  exact List.append_ne_nil_of_right_ne_nil before (List.cons_ne_nil a after) h.symm

theorem asked_concat :
    Asked (as ++ [a]) k ↔ a.adds = some k ∨ (Asked as k ∧ a.takes ≠ some k) := by
  -- the last act is the one that adds the key, or it comes after that one
  constructor
  · rintro ⟨before, b, after, h, hb, later⟩
    rcases List.eq_nil_or_concat after with rfl | ⟨after, c, rfl⟩
    · obtain ⟨-, same⟩ := List.append_inj' h rfl
      cases same
      exact .inl hb
    · rw [List.concat_eq_append, ← List.cons_append, ← List.append_assoc] at h
      obtain ⟨split, same⟩ := List.append_inj' h rfl
      cases same
      rw [List.concat_eq_append] at later
      refine .inr ⟨⟨before, b, after, split, hb, fun e he => ?_⟩, ?_⟩
      · exact later e (List.mem_append_left _ he)
      · exact later a (List.mem_append_right _ List.mem_cons_self)
  · rintro (ha | ⟨⟨before, b, after, rfl, hb, later⟩, ha⟩)
    · exact ⟨as, a, [], rfl, ha, fun e he => nomatch he⟩
    · refine ⟨before, b, after ++ [a], by simp, hb, fun e he => ?_⟩
      rcases List.mem_append.mp he with he | he
      · exact later e he
      · rwa [List.mem_singleton.mp he]

end Act

namespace Depot

variable {ω : Type} {o d d' : Depot ω} {a : Act ω} {as : List (Act ω)} {ks : List Key} {k : Key}

theorem wants_turn (h : d.queue.Orderly) (turn : Turn d a d') :
    d'.queue.Wants k ↔ a.adds = some k ∨ (d.queue.Wants k ∧ a.takes ≠ some k) := by
  have added (j : Key) : (d.queue.add j).Wants k ↔
      some j = some k ∨ (d.queue.Wants k ∧ (none : Option Key) ≠ some k) := by
    rw [WorkQueue.wants_add h, or_comm, Option.some_inj, eq_comm]
    exact or_congr_right (and_iff_left (Option.some_ne_none k).symm).symm
  have unchanged : d.queue.Wants k ↔
      none = some k ∨ (d.queue.Wants k ∧ (none : Option Key) ≠ some k) := by simp
  cases turn with
  | add j => exact added j
  | addAfter j delay =>
    unfold addAfter Act.adds Act.takes
    dsimp only
    split
    · exact added j
    · exact unchanged
  | fire front j back timers => exact added j
  | get w j q hget =>
    refine ((WorkQueue.get_key h hget).2.2.1 k).trans ?_
    simp [Act.adds, Act.takes, eq_comm]
  | leave w q hget =>
    rw [WorkQueue.of_get_closed hget]
    exact unchanged
  | done front w j back hands => exact WorkQueue.wants_done.trans unchanged
  | fail j => exact unchanged
  | forget j => exact unchanged
  | shutDown => exact unchanged

theorem shuttingDown_turn (turn : Turn d a d') (open_ : a ≠ .shutDown) :
    d'.queue.shuttingDown = d.queue.shuttingDown := by
  cases turn with
  | add k => exact WorkQueue.shuttingDown_add k
  | addAfter k delay =>
    unfold addAfter
    split
    · exact WorkQueue.shuttingDown_add k
    · rfl
  | fire front k back timers => exact WorkQueue.shuttingDown_add k
  | get w k q hget =>
    obtain ⟨before, after, -⟩ := WorkQueue.of_get_key hget
    exact after.trans before.symm
  | leave w q hget => rw [WorkQueue.of_get_closed hget]
  | done front w k back hands => exact WorkQueue.shuttingDown_done k
  | fail k => rfl
  | forget k => rfl
  | shutDown => exact absurd rfl open_

/-- Keys leave the line in front and join it behind. -/
theorem line_turn (turn : Turn d a d') :
    d.queue.waiting ++ joined d d' = a.takes.toList ++ d'.queue.waiting := by
  -- unless a key is handed out, the old line is the front of the new one
  have longer {l : List Key} (h : d.queue.waiting <+: l) :
      d.queue.waiting ++ l.drop d.queue.waiting.length = l := by
    obtain ⟨more, rfl⟩ := h
    rw [List.drop_left]
  cases turn with
  | add k => exact longer (WorkQueue.waiting_add k)
  | addAfter k delay =>
    refine longer ?_
    unfold addAfter
    split
    · exact WorkQueue.waiting_add k
    · exact List.prefix_rfl
  | fire front k back timers => exact longer (WorkQueue.waiting_add k)
  | get w k q hget =>
    have waiting := (WorkQueue.of_get_key hget).2.2
    have shorter : q.waiting.length ≤ d.queue.waiting.length := by
      rw [waiting]
      exact Nat.le_succ _
    unfold joined
    rw [List.drop_eq_nil_of_le shorter, List.append_nil]
    exact waiting
  | leave w q hget =>
    rw [WorkQueue.of_get_closed hget]
    exact longer List.prefix_rfl
  | done front w k back hands => exact longer (WorkQueue.waiting_done k)
  | fail k => exact longer List.prefix_rfl
  | forget k => exact longer List.prefix_rfl
  | shutDown => exact longer List.prefix_rfl

theorem line_run (h : Run o as ks d) :
    o.queue.waiting ++ ks = as.filterMap Act.takes ++ d.queue.waiting := by
  induction h with
  | start => exact List.append_nil _
  | @next as ks d a d' _ turn ih =>
    have last : [a].filterMap Act.takes = a.takes.toList := by
      cases taken : a.takes <;> simp [taken]
    rw [← List.append_assoc, ih, List.append_assoc, line_turn turn, List.filterMap_append,
      List.append_assoc, last]

theorem orderly_run {b : Backoff} (h : Run (opening b) as ks d) (open_ : .shutDown ∉ as) :
    d.queue.Orderly := by
  have serving : d.queue.shuttingDown = false := by
    induction h with
    | start => rfl
    | next _ turn ih =>
      rw [List.mem_append, not_or] at open_
      refine (shuttingDown_turn turn fun closes => ?_).trans (ih open_.1)
      exact open_.2 (closes ▸ List.mem_cons_self)
  have orderly := (kept_run (kept_opening b) h).orderly
  rwa [WorkQueue.reopened_eq serving] at orderly

theorem wants_run {b : Backoff} (h : Run (opening b) as ks d) (open_ : .shutDown ∉ as) :
    d.queue.Wants k ↔ Act.Asked as k := by
  induction h with
  | start => simp [opening, WorkQueue.empty, WorkQueue.Wants, Dict.contains, Act.not_asked_nil]
  | next run turn ih =>
    rw [List.mem_append, not_or] at open_
    rw [wants_turn (orderly_run run open_.1) turn, ih open_.1, Act.asked_concat]

theorem asked_of_get {b : Backoff} (h : Run (opening b) as ks d) (open_ : .shutDown ∉ as)
    {before : List (Act ω)} {w : ω} (hget : before ++ [.get w k] <+: as) :
    Act.Asked before k := by
  induction h with
  | start => simp at hget
  | @next as ks d a d' run turn ih =>
    rw [List.mem_append, not_or] at open_
    rcases List.prefix_concat_iff.mp hget with last | earlier
    · obtain ⟨rfl, same⟩ := List.append_inj' last rfl
      cases same
      cases turn with
      | get w k q hget =>
        have waiting := (WorkQueue.of_get_key hget).2.2
        refine (wants_run run open_.1).mp (((orderly_run run open_.1).waits k).mp ?_).1
        rw [waiting]
        exact List.mem_cons_self
    · exact ih open_.1 earlier

/-- The queue does what was asked for, in the order of the line. -/
structure Served (as : List (Act ω)) (ks : List Key) (d : Depot ω) : Prop where
  wanted : ∀ k, d.queue.Wants k ↔ Act.Asked as k
  waits : ∀ k, Act.Asked as k → (∀ w, (w, k) ∉ d.hands) → k ∈ d.queue.waiting
  /-- A key that was added while a worker was at it waits once the worker is done. -/
  again : ∀ w k d', Act.Asked as k → Turn d (.done w k) d' → k ∈ d'.queue.waiting
  /-- Nothing is handed out that was not added since it was handed out last. -/
  earned : ∀ before w k, before ++ [.get w k] <+: as → Act.Asked before k
  inOrder : ks = as.filterMap Act.takes ++ d.queue.waiting
  /-- Whatever comes, the keys that wait are handed out next. -/
  upNext : ∀ as' ks' d', Run d as' ks' d' →
    d.queue.waiting ++ ks' = as'.filterMap Act.takes ++ d'.queue.waiting
  ready : ∀ k rest, d.queue.waiting = k :: rest → ∃ q, d.queue.get = some (.key k, q)

/-- However adders and workers take turns, no work is lost and none is made up. -/
theorem served_of_run {b : Backoff} (h : Run (opening b) as ks d) (open_ : .shutDown ∉ as) :
    Served as ks d := by
  have orderly := orderly_run h open_
  have kept := kept_run (kept_opening b) h
  refine ⟨fun _ => wants_run h open_, fun k asked free => ?_, fun w k d' asked turn => ?_,
    fun _ _ _ => asked_of_get h open_, line_run h, fun _ _ _ => line_run,
    fun _ _ => WorkQueue.get_of_waiting orderly.serving⟩
  · refine (orderly.waits k).mpr ⟨(wants_run h open_).mpr asked, fun held => ?_⟩
    obtain ⟨⟨w, _⟩, hw, rfl⟩ := List.mem_map.mp ((kept.held k).mp held)
    exact free w hw
  · have wanted : d.queue.Wants k := (wants_run h open_).mpr asked
    cases turn
    have longer : (d.queue.done k).waiting = d.queue.waiting ++ [k] :=
      congrArg WorkQueue.waiting (if_pos wanted)
    show k ∈ (d.queue.done k).waiting
    rw [longer]
    exact List.mem_append_right _ List.mem_cons_self

/-- A key is added while its worker is at it, and handed out again to another worker, after
the key that was in line before. -/
def overtime : List (Act Nat) :=
  [.add ⟨"demo", "p1"⟩, .get 1 ⟨"demo", "p1"⟩, .add ⟨"demo", "p2"⟩, .add ⟨"demo", "p1"⟩,
    .add ⟨"demo", "p1"⟩, .done 1 ⟨"demo", "p1"⟩, .get 1 ⟨"demo", "p2"⟩, .get 2 ⟨"demo", "p1"⟩]

theorem served_of_overtime : ∃ ks d, Run (opening .standard) overtime ks d ∧
    d.hands = [(2, ⟨"demo", "p1"⟩), (1, ⟨"demo", "p2"⟩)] ∧ Served overtime ks d := by
  have played : ((opening .standard).play? overtime).isSome := by decide +kernel
  have hands : ((opening .standard).play? overtime).map (·.hands) =
      some [(2, ⟨"demo", "p1"⟩), (1, ⟨"demo", "p2"⟩)] := by decide +kernel
  have open_ : Act.shutDown ∉ overtime := by
    unfold overtime
    simp
  obtain ⟨d, hd⟩ := Option.isSome_iff_exists.mp played
  rw [hd] at hands
  obtain ⟨ks, run⟩ := run_of_play? hd
  exact ⟨ks, d, run, Option.some.inj hands, served_of_run run open_⟩

end Depot

end Drayage
