import Drayage.Proofs.Engine.Trail

/-!
# What a journal tells of the stored status

The engine goes on from the step that is stored, or from the first. This is in order as
long as the stored step was reached in the directory that is there, and otherwise it is not.
-/

namespace Drayage

/-- What a journal tells of a status that is stored. -/
structure Ledger (s : PromotionStatus) (js : List Mark) : Prop where
  unstarted : s.isTerminal = false → s.phase ≠ some .running → s.currentStep = 0
  passed : ∀ j, .completed j ∈ generation js → ∃ e, j < e ∧ .reached e ∈ generation js
  reached : KeepsPace js → ∀ e, .reached e ∈ generation js → ∀ j < e, .completed j ∈ generation js
  stored : KeepsPace js → .stored ∈ generation js → s.isTerminal = false →
    ∀ j < s.currentStep, .completed j ∈ generation js
  agrees : Trustworthy js ↔ KeepsPace js

namespace Ledger

variable {s s' : PromotionStatus} {js ms : List Mark} {m : Mark}

theorem concat_prefix_singleton {b : List Mark} {k : Mark} :
    b ++ [k] <+: [m] ↔ b = [] ∧ k = m := by
  rcases b with _ | ⟨x, _ | _⟩ <;> simp

theorem trustworthy_concat (h : ∀ i, m ≠ .attempted i) :
    Trustworthy (js ++ [m]) ↔ Trustworthy js := by
  rw [trustworthy_append, and_iff_left]
  intro b i hi
  exact absurd (concat_prefix_singleton.mp hi).2.symm (h i)

theorem keepsPace_concat (h : ∀ i, m ≠ .called i) : KeepsPace (js ++ [m]) ↔ KeepsPace js := by
  rw [keepsPace_append, and_iff_left]
  intro b i hi
  exact absurd (concat_prefix_singleton.mp hi).2.symm (h i)

theorem nil (h : s.currentStep = 0) : Ledger s [] where
  unstarted _ _ := h
  passed j hj := by cases hj
  reached _ e he := by cases he
  stored _ hs := by cases hs
  agrees := by
    have none {before : List Mark} {m : Mark} : ¬ before ++ [m] <+: [] := by simp
    exact iff_of_true (fun _ _ h => (none h).elim) (fun _ _ h => (none h).elim)

/-- A new directory, or none, owes nothing to what was done before. -/
theorem border (h : Ledger s js) (hm : m.isBorder = true) : Ledger s (js ++ [m]) where
  unstarted := h.unstarted
  passed j hj := by
    rw [generation_border hm] at hj
    cases hj
  reached _ e he := by
    rw [generation_border hm] at he
    cases he
  stored _ hs := by
    rw [generation_border hm] at hs
    cases hs
  agrees := by
    rw [trustworthy_concat, keepsPace_concat]
    · exact h.agrees
    · rintro i rfl
      cases hm
    · rintro i rfl
      cases hm

/-- What is written while the directory is there is a step that a call has reached, or no
progress at all. -/
theorem write (h : Ledger s js) (hs : s'.isTerminal = true ∨ s'.currentStep = 0 ∨
    s'.phase = some .running ∧ .reached s'.currentStep ∈ generation js) :
    Ledger s' (js ++ [.stored]) := by
  have mem {m : Mark} : m ∈ generation (js ++ [.stored]) ↔ m ∈ generation js ∨ m = .stored := by
    rw [mem_generation_append (by simp [Mark.isBorder]), List.mem_singleton]
  have pace : KeepsPace (js ++ [.stored]) ↔ KeepsPace js := keepsPace_concat (by simp)
  constructor
  · intro unended unstarted
    rcases hs with ended | zero | ⟨running, _⟩
    · rw [ended] at unended
      cases unended
    · exact zero
    · exact absurd running unstarted
  · intro j hj
    obtain ⟨e, hlt, he⟩ := h.passed j (by simpa [mem] using hj)
    exact ⟨e, hlt, mem.mpr (.inl he)⟩
  · intro hpace e he j hj
    exact mem.mpr (.inl (h.reached (pace.mp hpace) e (by simpa [mem] using he) j hj))
  · intro hpace _ unended j hj
    rcases hs with ended | zero | ⟨_, reached⟩
    · rw [ended] at unended
      cases unended
    · omega
    -- the step that was reached is the one that is written
    · exact mem.mpr (.inl (h.reached (pace.mp hpace) _ reached j hj))
  · rw [trustworthy_concat (by simp), pace]
    exact h.agrees

variable {start : Nat}

/-- A call that keeps pace goes on behind steps that were completed. -/
theorem covered (h : Ledger s js) (unended : s.isTerminal = false)
    (hstart : start = 0 ∨ start = s.currentStep) (pace : KeepsPace (js ++ .called start :: ms)) :
    ∀ j < start, .completed j ∈ generation js := by
  obtain ⟨hpace, hcall⟩ := keepsPace_append.mp pace
  intro j hj
  have before := hcall [] start (by simp)
  rw [List.append_nil] at before
  -- what keeps pace is the first step, a status that was written, or a call that got as far
  rcases before with zero | stored | ⟨e, hle, reached⟩
  · omega
  · rcases hstart with zero | rfl
    · omega
    · exact h.stored hpace stored unended j hj
  · exact h.reached hpace e reached j (by omega)

/-- The step before one that is called was completed only if a call has got past it. -/
theorem paced (h : Ledger s js) (strides : Strides start ms) (first : [.attempted start] <+: ms)
    (trust : Trustworthy (js ++ .called start :: ms)) : KeepsPace (js ++ .called start :: ms) := by
  obtain ⟨htrust, hcall⟩ := trustworthy_append.mp trust
  refine keepsPace_append.mpr ⟨h.agrees.mp htrust, fun b i hi => ?_⟩
  rcases b with _ | ⟨x, b⟩
  · have same : i = start := by simpa using hi
    subst same
    rw [List.append_nil]
    rcases Nat.eq_zero_or_pos i with zero | positive
    · exact .inl zero
    · have last : .completed (i - 1) ∈ generation (js ++ [.called i]) :=
        hcall [.called i] i (List.cons_prefix_cons.mpr ⟨rfl, first⟩) (i - 1) (by omega)
      rw [mem_generation_append (by simp [Mark.isBorder])] at last
      obtain ⟨e, hlt, he⟩ := h.passed (i - 1) (by simpa using last)
      exact .inr (.inr ⟨e, by omega, he⟩)
  · have inside : .called i ∈ ms := by
      obtain ⟨_, hb⟩ := List.cons_prefix_cons.mp hi
      exact hb.subset (List.mem_append_right b (List.mem_singleton.mpr rfl))
    exact absurd inside (strides.not_called i)

/-- A call that goes on behind steps that were completed completes those from there on. -/
theorem trusted (h : Ledger s js) (strides : Strides start ms) (hjs : KeepsPace js)
    (covered : ∀ j < start, .completed j ∈ generation js) :
    Trustworthy (js ++ .called start :: ms) := by
  refine trustworthy_append.mpr ⟨h.agrees.mpr hjs, ?_⟩
  intro b k hk j hj
  rcases b with _ | ⟨x, b⟩
  · simp at hk
  · obtain ⟨rfl, hb⟩ := List.cons_prefix_cons.mp hk
    have plain : ∀ m ∈ .called start :: b, m.isBorder = false :=
      List.forall_mem_cons.mpr ⟨rfl, fun m hm =>
        strides.border m (hb.subset (List.mem_append_left _ hm))⟩
    rw [mem_generation_append plain, List.mem_cons]
    rcases Nat.lt_or_ge j start with hlt | hge
    · exact .inl (covered j hlt)
    · exact .inr (.inr (strides.completed_of_attempted hb j hge hj))

/-- A call that begins where the status stands, or at the first step, is in order exactly if
it keeps pace. -/
theorem call (h : Ledger s js) (unended : s.isTerminal = false)
    (hstart : start = 0 ∨ start = s.currentStep) (strides : Strides start ms)
    (first : [.attempted start] <+: ms) : Ledger s (js ++ .called start :: ms) := by
  have plain : ∀ m ∈ .called start :: ms, m.isBorder = false :=
    List.forall_mem_cons.mpr ⟨rfl, strides.border⟩
  have mem {m : Mark} : m ∈ generation (js ++ .called start :: ms) ↔
      m ∈ generation js ∨ m = .called start ∨ m ∈ ms := by
    rw [mem_generation_append plain, List.mem_cons]
  have earlier (pace : KeepsPace (js ++ .called start :: ms)) : KeepsPace js :=
    (keepsPace_append.mp pace).1
  have covered (pace : KeepsPace (js ++ .called start :: ms)) :=
    h.covered unended hstart pace
  constructor
  · exact h.unstarted
  · intro j hj
    rcases mem.mp hj with hj | hj | hj
    · obtain ⟨e, hlt, he⟩ := h.passed j hj
      exact ⟨e, hlt, mem.mpr (.inl he)⟩
    · cases hj
    · obtain ⟨e, hlt, he⟩ := strides.reached_of_completed hj
      exact ⟨e, hlt, mem.mpr (.inr (.inr he))⟩
  · intro pace e he j hj
    rcases mem.mp he with he | he | he
    · exact mem.mpr (.inl (h.reached (earlier pace) e he j hj))
    · cases he
    -- up to the start by those before, from there on by this call
    · rcases Nat.lt_or_ge j start with hlt | hge
      · exact mem.mpr (.inl (covered pace j hlt))
      · exact mem.mpr (.inr (.inr (strides.completed_of_reached he hge hj)))
  · intro pace hs _ j hj
    rcases mem.mp hs with hs | hs | hs
    · exact mem.mpr (.inl (h.stored (earlier pace) hs unended j hj))
    · cases hs
    · exact absurd hs strides.not_stored
  · constructor
    · exact h.paced strides first
    · intro pace
      exact h.trusted strides (earlier pace) (covered pace)

end Ledger

end Drayage
