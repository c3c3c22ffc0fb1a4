import Drayage.Controller.Queue

/-!
# What the work queue keeps

A key that is wanted either waits, once, or is being worked on, and a key that waits is
not worked on. So nobody is handed a key that somebody else holds, and no key that was
added is forgotten.
-/

namespace Drayage.WorkQueue

variable {q q' : WorkQueue} {j k : Key}

/-- A key is to be worked on (again). -/
def Wants (q : WorkQueue) (k : Key) : Prop := q.wanted.contains k = true

/-- A worker holds a key. -/
def Holds (q : WorkQueue) (k : Key) : Prop := q.held.contains k = true

/-- What a queue in use keeps to. -/
structure Orderly (q : WorkQueue) : Prop where
  serving : q.shuttingDown = false
  nodup : q.waiting.Nodup
  waits : ∀ k, k ∈ q.waiting ↔ q.Wants k ∧ ¬ q.Holds k

theorem contains_insert (d : Dict Key Unit) (k j : Key) :
    (d.insert k ()).contains j = true ↔ d.contains j = true ∨ j = k := by
  unfold Dict.contains
  rw [Dict.get?_insert]
  simp only [Std.LawfulEqCmp.compare_eq_iff_eq]
  split <;> simp_all

theorem contains_erase (d : Dict Key Unit) (k j : Key) :
    (d.erase k).contains j = true ↔ d.contains j = true ∧ j ≠ k := by
  unfold Dict.contains
  rw [Dict.get?_erase]
  simp only [Std.LawfulEqCmp.compare_eq_iff_eq]
  split <;> simp_all

theorem orderly_empty (b : Backoff) : (empty b).Orderly where
  serving := rfl
  nodup := .nil
  waits k := by simp [empty, Wants, Dict.contains]

theorem holds_add : (q.add k).Holds j ↔ q.Holds j := by
  unfold add
  split
  · rfl
  · dsimp only
    split <;> rfl

theorem wants_add (h : q.Orderly) : (q.add k).Wants j ↔ q.Wants j ∨ j = k := by
  unfold add
  rw [h.serving, Bool.false_or]
  split
  · rename_i wanted
    constructor
    · exact .inl
    · rintro (wants | rfl)
      · exact wants
      · exact wanted
  · dsimp only
    split <;> exact contains_insert _ _ _

theorem add_wanted (h : q.Orderly) (wanted : q.Wants k) : q.add k = q := by
  unfold add
  rw [h.serving, Bool.false_or]
  exact if_pos wanted

theorem add_held (h : q.Orderly) (unwanted : ¬ q.Wants k) (held : q.Holds k) :
    q.add k = { q with wanted := q.wanted.insert k () } := by
  unfold add
  rw [h.serving, Bool.false_or]
  exact (if_neg unwanted).trans (if_pos held)

theorem add_free (h : q.Orderly) (unwanted : ¬ q.Wants k) (free : ¬ q.Holds k) :
    q.add k = { q with wanted := q.wanted.insert k (), waiting := q.waiting ++ [k] } := by
  unfold add
  rw [h.serving, Bool.false_or]
  exact (if_neg unwanted).trans (if_neg free)

theorem nodup_snoc {ks : List Key} (h : ks.Nodup) (absent : k ∉ ks) : (ks ++ [k]).Nodup := by
  refine List.nodup_append.mpr ⟨h, List.pairwise_singleton _ k, fun a ha b hb hab => absent ?_⟩
  rw [List.mem_singleton.mp hb] at hab
  rwa [← hab]

theorem orderly_add (h : q.Orderly) (k : Key) : (q.add k).Orderly := by
  by_cases wanted : q.Wants k
  · rw [add_wanted h wanted]
    exact h
  · have absent : k ∉ q.waiting := fun hk => wanted ((h.waits k).mp hk).1
    have wants (j : Key) : (q.add k).Wants j ↔ q.Wants j ∨ j = k := wants_add h
    have holds (j : Key) : (q.add k).Holds j ↔ q.Holds j := holds_add
    -- a key that is held is only marked, and waits once it is done
    by_cases held : q.Holds k
    · rw [add_held h wanted held] at wants holds ⊢
      refine ⟨h.serving, h.nodup, fun j => ?_⟩
      rw [wants, holds]
      refine (h.waits j).trans ⟨fun ⟨hj, free⟩ => ⟨.inl hj, free⟩, ?_⟩
      rintro ⟨hj | rfl, free⟩
      · exact ⟨hj, free⟩
      · exact absurd held free
    · rw [add_free h wanted held] at wants holds ⊢
      refine ⟨h.serving, nodup_snoc h.nodup absent, fun j => ?_⟩
      rw [wants, holds, List.mem_append, List.mem_singleton, h.waits]
      constructor
      · rintro (⟨hj, free⟩ | rfl)
        · exact ⟨.inl hj, free⟩
        · exact ⟨.inr rfl, held⟩
      · rintro ⟨hj | rfl, free⟩
        · exact .inl ⟨hj, free⟩
        · exact .inr rfl

theorem orderly_addAll (h : q.Orderly) (ks : List Key) : (ks.foldl add q).Orderly := by
  induction ks generalizing q with
  | nil => exact h
  | cons k ks ih => exact ih (orderly_add h k)

theorem wants_addAll (h : q.Orderly) (ks : List Key) :
    (ks.foldl add q).Wants j ↔ q.Wants j ∨ j ∈ ks := by
  induction ks generalizing q with
  | nil => simp
  | cons k ks ih => rw [List.foldl_cons, ih (orderly_add h k), wants_add h, or_assoc, List.mem_cons]

theorem holds_addAll (ks : List Key) : (ks.foldl add q).Holds j ↔ q.Holds j := by
  induction ks generalizing q with
  | nil => rfl
  | cons k ks ih => rw [List.foldl_cons, ih, holds_add]

/-- What a worker is handed was free before. -/
theorem get_key (h : q.Orderly) (hget : q.get = some (.key k, q')) :
    ¬ q.Holds k ∧ q'.Orderly ∧ (∀ j, q'.Wants j ↔ q.Wants j ∧ j ≠ k) ∧
      ∀ j, q'.Holds j ↔ q.Holds j ∨ j = k := by
  unfold get at hget
  rw [h.serving, if_neg Bool.false_ne_true] at hget
  split at hget
  · cases hget
  · rename_i first rest hwaiting
    cases hget
    have nodup := h.nodup
    rw [hwaiting] at nodup
    have absent : k ∉ rest := (List.nodup_cons.mp nodup).1
    have free : ¬ q.Holds k := ((h.waits k).mp (by rw [hwaiting]; exact List.mem_cons_self)).2
    have wants : ∀ j, (q.wanted.erase k).contains j = true ↔ q.Wants j ∧ j ≠ k :=
      contains_erase q.wanted k
    have holds : ∀ j, (q.held.insert k ()).contains j = true ↔ q.Holds j ∨ j = k :=
      contains_insert q.held k
    refine ⟨free, ⟨rfl, (List.nodup_cons.mp nodup).2, fun j => ?_⟩, wants, holds⟩
    show j ∈ rest ↔
      (q.wanted.erase k).contains j = true ∧ ¬ (q.held.insert k ()).contains j = true
    rw [wants, holds]
    have known := h.waits j
    rw [hwaiting, List.mem_cons] at known
    constructor
    · intro hj
      have other : j ≠ k := fun hjk => absent (hjk ▸ hj)
      obtain ⟨hwants, hfree⟩ := known.mp (.inr hj)
      exact ⟨⟨hwants, other⟩, fun hheld => hheld.elim hfree other⟩
    · rintro ⟨⟨hwants, other⟩, hfree⟩
      exact (known.mpr ⟨hwants, fun hheld => hfree (.inl hheld)⟩).resolve_left other

theorem holds_done : (q.done k).Holds j ↔ q.Holds j ∧ j ≠ k := by
  unfold done
  dsimp only
  split <;> exact contains_erase _ _ _

theorem wants_done : (q.done k).Wants j ↔ q.Wants j := by
  unfold done
  dsimp only
  split <;> rfl

theorem orderly_done (h : q.Orderly) (held : q.Holds k) : (q.done k).Orderly := by
  have absent : k ∉ q.waiting := fun hk => ((h.waits k).mp hk).2 held
  have wants (j : Key) : (q.done k).Wants j ↔ q.Wants j := wants_done
  have holds (j : Key) : (q.done k).Holds j ↔ q.Holds j ∧ j ≠ k := holds_done
  by_cases wanted : q.Wants k
  · have longer : q.done k =
        { q with held := q.held.erase k, waiting := q.waiting ++ [k] } := if_pos wanted
    rw [longer] at wants holds ⊢
    refine ⟨h.serving, nodup_snoc h.nodup absent, fun j => ?_⟩
    rw [wants, holds, List.mem_append, List.mem_singleton, h.waits]
    -- the key was marked meanwhile, so it waits again
    by_cases hj : j = k
    · subst hj
      exact ⟨fun _ => ⟨wanted, fun h => h.2 rfl⟩, fun _ => .inr rfl⟩
    · constructor
      · rintro (⟨hwants, free⟩ | rfl)
        · exact ⟨hwants, fun h => free h.1⟩
        · exact absurd rfl hj
      · rintro ⟨hwants, free⟩
        exact .inl ⟨hwants, fun h => free ⟨h, hj⟩⟩
  · have shorter : q.done k = { q with held := q.held.erase k } := if_neg wanted
    rw [shorter] at wants holds ⊢
    refine ⟨h.serving, h.nodup, fun j => ?_⟩
    rw [wants, holds]
    refine (h.waits j).trans ⟨fun ⟨hwants, free⟩ => ⟨hwants, fun h => free h.1⟩, ?_⟩
    rintro ⟨hwants, free⟩
    refine ⟨hwants, fun h => free ⟨h, ?_⟩⟩
    rintro rfl
    exact wanted hwants

theorem orderly_forget (h : q.Orderly) (k : Key) : (q.forget k).Orderly :=
  ⟨h.serving, h.nodup, h.waits⟩

theorem orderly_fail (h : q.Orderly) (k : Key) : (q.fail k).2.Orderly :=
  ⟨h.serving, h.nodup, h.waits⟩

theorem shuttingDown_add (k : Key) : (q.add k).shuttingDown = q.shuttingDown := by
  unfold add
  split
  · rfl
  · dsimp only
    split <;> rfl

theorem shuttingDown_done (k : Key) : (q.done k).shuttingDown = q.shuttingDown := by
  unfold done
  dsimp only
  split <;> rfl

theorem of_get_key (h : q.get = some (.key k, q')) :
    q.shuttingDown = false ∧ q'.shuttingDown = false ∧ q.waiting = k :: q'.waiting := by
  unfold get at h
  split at h
  · cases h
  · rename_i serving
    split at h
    · cases h
    · rename_i waiting
      cases h
      exact ⟨eq_false_of_ne_true serving, eq_false_of_ne_true serving, waiting⟩

theorem of_get_closed (h : q.get = some (.closed, q')) : q' = q := by
  unfold get at h
  split at h
  · cases h
    rfl
  · split at h <;> cases h

theorem get_of_waiting {rest : List Key} (serving : q.shuttingDown = false)
    (h : q.waiting = k :: rest) : ∃ q', q.get = some (.key k, q') := by
  unfold get
  rw [serving, if_neg Bool.false_ne_true, h]
  exact ⟨_, rfl⟩

/-- Nobody jumps the queue. -/
theorem waiting_add (k : Key) : q.waiting <+: (q.add k).waiting := by
  unfold add
  split
  · exact List.prefix_rfl
  · dsimp only
    split
    · exact List.prefix_rfl
    · exact List.prefix_append _ _

theorem waiting_done (k : Key) : q.waiting <+: (q.done k).waiting := by
  unfold done
  dsimp only
  split
  · exact List.prefix_append _ _
  · exact List.prefix_rfl

end Drayage.WorkQueue
