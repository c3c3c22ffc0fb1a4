import Drayage.Proofs.Engine.Sequential

/-!
# The trail of a Promotion

What lies in the directory of a Promotion was left there by the steps since it was made.
A journal tells what the engine did, step by step, and what happened to the directory and
to the stored status in between.
-/

namespace Drayage

/-- An entry of a journal. -/
inductive Mark where
  | made
  | removed
  /-- A status was written. -/
  | stored
  /-- The engine goes on from a step. -/
  | called (start : Nat)
  | attempted (index : Nat)
  | completed (index : Nat)
  /-- A call of the engine ended at a step, or behind the last. -/
  | reached (index : Nat)
  deriving DecidableEq

/-- The directory is not the one that it was. -/
def Mark.isBorder : Mark → Bool
  | .made | .removed => true
  | .stored | .called _ | .attempted _ | .completed _ | .reached _ => false

/-- The marks since the directory was made or removed, the latest first. -/
def generation (journal : List Mark) : List Mark :=
  journal.reverse.takeWhile fun m => !m.isBorder

/-- Every step is attempted in a directory in which all steps before it were completed. -/
def Trustworthy (journal : List Mark) : Prop :=
  ∀ before i, before ++ [.attempted i] <+: journal → ∀ j < i, .completed j ∈ generation before

/-- The engine goes on from a step behind the first only if a status was written since the
directory was made, or if a call got as far as that. -/
def KeepsPace (journal : List Mark) : Prop :=
  ∀ before i, before ++ [.called i] <+: journal →
    i = 0 ∨ .stored ∈ generation before ∨ ∃ e, i ≤ e ∧ .reached e ∈ generation before

section Journal

variable {js ms : List Mark} {m : Mark}

theorem generation_border (h : m.isBorder = true) : generation (js ++ [m]) = [] := by
  unfold generation
  rw [List.reverse_append]
  exact List.takeWhile_cons_of_neg (by simp [h])

theorem mem_generation_append (h : ∀ m ∈ ms, m.isBorder = false) :
    m ∈ generation (js ++ ms) ↔ m ∈ generation js ∨ m ∈ ms := by
  unfold generation
  rw [List.reverse_append, List.takeWhile_append_of_pos, List.mem_append, List.mem_reverse]
  · exact or_comm
  · intro m hm
    rw [h m (List.mem_reverse.mp hm)]
    rfl

/-- What leads up to a mark of a longer journal. -/
theorem concat_prefix_append {before : List Mark} :
    before ++ [m] <+: js ++ ms ↔
      before ++ [m] <+: js ∨ ∃ b, before = js ++ b ∧ b ++ [m] <+: ms := by
  constructor
  -- the mark stands in `js`, or all of `js` comes before it
  · intro h
    rcases List.prefix_or_prefix_of_prefix h (List.prefix_append js ms) with h' | h'
    · exact .inl h'
    · obtain ⟨b, hb⟩ := h'
      rcases List.eq_nil_or_concat b with rfl | ⟨b, last, rfl⟩
      · rw [List.append_nil] at hb
        exact .inl (hb ▸ List.prefix_rfl)
      · rw [List.concat_eq_append, ← List.append_assoc] at hb
        obtain ⟨rfl, same⟩ := List.append_inj' hb rfl
        cases same
        rw [List.append_assoc] at h
        exact .inr ⟨b, rfl, (List.prefix_append_right_inj js).mp h⟩
  · rintro (h | ⟨b, rfl, h⟩)
    · exact h.trans (List.prefix_append js ms)
    · rw [List.append_assoc]
      exact (List.prefix_append_right_inj js).mpr h

theorem trustworthy_append : Trustworthy (js ++ ms) ↔ Trustworthy js ∧
    ∀ b i, b ++ [.attempted i] <+: ms → ∀ j < i, .completed j ∈ generation (js ++ b) := by
  constructor
  · intro h
    refine ⟨fun before i hi => h before i (concat_prefix_append.mpr (.inl hi)), ?_⟩
    intro b i hi
    exact h (js ++ b) i (concat_prefix_append.mpr (.inr ⟨b, rfl, hi⟩))
  · rintro ⟨hjs, hms⟩ before i hi
    rcases concat_prefix_append.mp hi with earlier | ⟨b, rfl, later⟩
    · exact hjs before i earlier
    · exact hms b i later

theorem keepsPace_append : KeepsPace (js ++ ms) ↔ KeepsPace js ∧
    ∀ b i, b ++ [.called i] <+: ms → i = 0 ∨ .stored ∈ generation (js ++ b) ∨
      ∃ e, i ≤ e ∧ .reached e ∈ generation (js ++ b) := by
  constructor
  · intro h
    refine ⟨fun before i hi => h before i (concat_prefix_append.mpr (.inl hi)), ?_⟩
    intro b i hi
    exact h (js ++ b) i (concat_prefix_append.mpr (.inr ⟨b, rfl, hi⟩))
  · rintro ⟨hjs, hms⟩ before i hi
    rcases concat_prefix_append.mp hi with earlier | ⟨b, rfl, later⟩
    · exact hjs before i earlier
    · exact hms b i later

end Journal

/-- What the engine does from the step at `i` on: it completes steps until there are no more
or one of them is not completed. -/
inductive Strides : Nat → List Mark → Prop where
  | finish (i : Nat) : Strides i [.reached i]
  | stop (i : Nat) : Strides i [.attempted i, .reached i]
  | go (i : Nat) {ms : List Mark} (h : Strides (i + 1) ms) :
      Strides i (.attempted i :: .completed i :: ms)

namespace Strides

variable {i : Nat} {ms : List Mark}

theorem border (h : Strides i ms) : ∀ m ∈ ms, m.isBorder = false := by
  induction h with
  | finish | stop => simp [Mark.isBorder]
  | go i h ih => simpa [Mark.isBorder] using ih

theorem not_stored (h : Strides i ms) : .stored ∉ ms := by
  induction h with
  | finish | stop => simp
  | go i h ih => simpa using ih

theorem not_called (h : Strides i ms) (k : Nat) : .called k ∉ ms := by
  induction h with
  | finish | stop => simp
  | go i h ih => simpa using ih

theorem le_reached (h : Strides i ms) {e : Nat} (he : .reached e ∈ ms) : i ≤ e := by
  induction h with
  | finish | stop => simp_all
  | go i h ih =>
    have := ih (by simpa using he)
    omega

theorem exists_reached (h : Strides i ms) : ∃ e, i ≤ e ∧ .reached e ∈ ms := by
  have somewhere : ∃ e, .reached e ∈ ms := by
    induction h with
    | finish i => exact ⟨i, by simp⟩
    | stop i => exact ⟨i, by simp⟩
    | go i h ih =>
      obtain ⟨e, he⟩ := ih
      exact ⟨e, by simp [he]⟩
  obtain ⟨e, he⟩ := somewhere
  exact ⟨e, h.le_reached he, he⟩

/-- The engine never skips a step. -/
theorem completed_of_reached (h : Strides i ms) {e : Nat} (he : .reached e ∈ ms) {j : Nat}
    (hj : i ≤ j) (hje : j < e) : .completed j ∈ ms := by
  induction h with
  | finish | stop =>
    simp_all
    omega
  | go i h ih =>
    rcases Nat.eq_or_lt_of_le hj with rfl | hlt
    · simp
    · have := ih (by simpa using he) hlt
      simp [this]

theorem reached_of_completed (h : Strides i ms) {j : Nat} (hj : .completed j ∈ ms) :
    ∃ e, j < e ∧ .reached e ∈ ms := by
  induction h with
  | finish | stop => simp at hj
  | @go i ms h ih =>
    have hj : j = i ∨ Mark.completed j ∈ ms := by simpa using hj
    rcases hj with rfl | hj
    · obtain ⟨e, hlt, he⟩ := h.exists_reached
      exact ⟨e, hlt, by simp [he]⟩
    · obtain ⟨e, hlt, he⟩ := ih hj
      exact ⟨e, hlt, by simp [he]⟩

theorem completed_of_attempted (h : Strides i ms) {b : List Mark} {k : Nat}
    (hk : b ++ [.attempted k] <+: ms) : ∀ j, i ≤ j → j < k → .completed j ∈ b := by
  -- `b` is cut where a step begins or between its attempt and its completion
  induction h generalizing b with
  | finish i => rcases b with _ | ⟨_, _ | _⟩ <;> simp at hk
  | stop i =>
    rcases b with _ | ⟨_, _ | ⟨_, _⟩⟩
    · have : k = i := by simpa using hk
      intro j h1 h2
      omega
    · simp at hk
    · simp at hk
  | go i h ih =>
    rcases b with _ | ⟨m, _ | ⟨m', b⟩⟩
    · have : k = i := by simpa using hk
      intro j h1 h2
      omega
    · simp at hk
    · obtain ⟨rfl, rfl, rest⟩ : m = .attempted i ∧ m' = .completed i ∧ _ := by simpa using hk
      intro j h1 h2
      rcases Nat.eq_or_lt_of_le h1 with rfl | hlt
      · simp
      · simp [ih rest j hlt h2]

end Strides

namespace Sequential

variable {σ : Type}

/-- The trail of a call from the step at `index` on. -/
def trail (env : Setting σ) (ctx : PromotionContext) :
    (index : Nat) → List Step → (resumed : Option StepRecord) → Progress → σ → List Mark
  | index, [], _, _, _ => [.reached index]
  | index, step :: rest, resumed, p, x =>
    let (record, x₁) := opening env step resumed x
    match runStep env ctx step record p.state x₁ with
    | (.error _, _) => [.attempted index, .reached index]
    | (.ok o, x₂) =>
      if o.verdict = .next then
        .attempted index :: .completed index ::
          trail env ctx (index + 1) rest none (p.add step o) x₂
      else [.attempted index, .reached index]

/-- What a call of the engine adds to the journal: nothing, if there is no step that it
could attempt. -/
def marks (env : Setting σ) (ctx : PromotionContext) (steps : List Step) (x : σ) : List Mark :=
  if steps.length ≤ ctx.start ∨ ctx.records.length < ctx.start then []
  else .called ctx.start :: trail env ctx ctx.start (steps.drop ctx.start)
    ctx.records[ctx.start]? ⟨ctx.records.take ctx.start, ctx.state, []⟩ x

/-- A step is completed if it has succeeded, was skipped or may fail. -/
def Completes (step : Step) (status : StepStatus) : Prop :=
  status = .succeeded ∨ status = .skipped ∨
    step.continueOnError = true ∧ (status = .failed ∨ status = .errored ∨ status = .aborted)

/-- The engine goes on to the next step exactly if this one is completed. -/
theorem Left.next_iff {step : Step} {o : StepOutcome} (h : Left step o) :
    o.verdict = .next ↔ Completes step o.record.status := by
  unfold Completes
  cases h with
  | completed record output check h =>
    rcases h with h | h
    · exact iff_of_true rfl (.inl h)
    · exact iff_of_true rfl (.inr (.inl h))
  | paused record message h =>
    refine iff_of_false (fun h => by cases h) ?_
    rw [show (Sequential.paused record message).record.status = .running from h]
    simp
  | halted record status message now h =>
    unfold Sequential.halted
    cases step.continueOnError with
    | true => exact iff_of_true rfl (.inr (.inr ⟨rfl, h⟩))
    | false =>
      refine iff_of_false (fun h => by cases h) ?_
      show ¬ (status = _ ∨ status = _ ∨ _)
      rcases h with rfl | rfl | rfl <;> simp

theorem strides_trail (env : Setting σ) (ctx : PromotionContext) (index : Nat)
    (steps : List Step) (resumed : Option StepRecord) (p : Progress) (x : σ) :
    Strides index (trail env ctx index steps resumed p x) := by
  induction steps generalizing index resumed p x with
  | nil => exact .finish index
  | cons step rest ih =>
    unfold trail
    obtain ⟨record, x₁⟩ := opening env step resumed x
    dsimp only
    split
    · exact .stop index
    · split
      · exact .go index (ih ..)
      · exact .stop index

/-- A call adds nothing, or it goes on from where it is told to. -/
theorem marks_cases (env : Setting σ) (ctx : PromotionContext) (steps : List Step) (x : σ) :
    marks env ctx steps x = [] ∨ ∃ ms, marks env ctx steps x = .called ctx.start :: ms ∧
      Strides ctx.start ms ∧ [.attempted ctx.start] <+: ms := by
  unfold marks
  split
  · exact .inl rfl
  · rename_i ready
    refine .inr ⟨_, rfl, strides_trail .., ?_⟩
    -- there is a step to attempt, since the call would add nothing otherwise
    cases hdrop : steps.drop ctx.start with
    | nil =>
      have := List.drop_eq_nil_iff.mp hdrop
      omega
    | cons step rest =>
      unfold trail
      obtain ⟨record, x₁⟩ := opening env step ctx.records[ctx.start]? x
      dsimp only
      split
      · simp
      · split <;> simp

theorem border_marks (env : Setting σ) (ctx : PromotionContext) (steps : List Step) (x : σ) :
    ∀ m ∈ marks env ctx steps x, m.isBorder = false := by
  rcases marks_cases env ctx steps x with nothing | ⟨ms, hms, strides, _⟩
  · rw [nothing]
    exact fun m hm => (List.not_mem_nil hm).elim
  · rw [hms]
    exact List.forall_mem_cons.mpr ⟨rfl, strides.border⟩

/-- The trail leads to where the result stands. -/
theorem reached_trail (env : Setting σ) (ctx : PromotionContext) (index : Nat)
    (steps : List Step) (resumed : Option StepRecord) (p : Progress) (x : σ) {r : EngineResult}
    (h : (advance env ctx index steps resumed p x).1 = .result r) :
    .reached r.currentStep ∈ trail env ctx index steps resumed p x := by
  induction steps generalizing index resumed p x with
  | nil =>
    cases h
    exact List.mem_singleton.mpr rfl
  | cons step rest ih =>
    -- trail and result are read off the same attempt
    rw [advance_cons] at h
    unfold trail
    generalize opening env step resumed x = opened at h ⊢
    obtain ⟨record, x₁⟩ := opened
    dsimp only at h ⊢
    generalize runStep env ctx step record p.state x₁ = attempt at h ⊢
    obtain ⟨outcome, x₂⟩ := attempt
    cases outcome with
    | error c => cases h
    | ok o =>
      unfold goOn at h
      dsimp only at h ⊢
      cases verdict : o.verdict with
      | next =>
        rw [verdict] at h
        rw [if_pos rfl]
        exact .tail _ (.tail _ (ih _ _ _ _ h))
      | pause message =>
        rw [verdict] at h
        cases h
        rw [if_neg (by intro h; cases h)]
        exact .tail _ (.head _)
      | halt phase message =>
        rw [verdict] at h
        cases h
        rw [if_neg (by intro h; cases h)]
        exact .tail _ (.head _)

/-- A call that leaves the Promotion running tells where it stands. -/
theorem reached_marks (env : Setting σ) (ctx : PromotionContext) (steps : List Step) (x : σ)
    {r : EngineResult} (h : (promote env ctx steps x).1 = .result r)
    (running : r.phase = .running) : .reached r.currentStep ∈ marks env ctx steps x := by
  unfold promote at h
  unfold marks
  split at h
  · cases h
  · split at h
    · cases h
    · rename_i inside enough
      by_cases none : steps.length ≤ ctx.start
      · rw [List.drop_eq_nil_iff.mpr none] at h
        cases h
        cases running
      · rw [if_neg (by omega)]
        exact .tail _ (reached_trail env ctx _ _ _ _ x h)

end Sequential

end Drayage
