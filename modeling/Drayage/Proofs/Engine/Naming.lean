import Drayage.Proofs.Engine.Outputs
import Mathlib.Data.List.Nodup

/-!
# The names of steps

A step without a name gets one from its position, and nothing keeps another step from having
been given just that name. Unless this happens, steps have different names if those that they
were given are different, and the output of a step stays as it is.
-/

namespace Drayage

/-- The name that a step was given; the empty name is none. -/
def DeclaredStep.ownName? (d : DeclaredStep) : Option String :=
  d.name.filter fun name => !name.isEmpty

/-- A step was given the name that another one gets from its position. -/
def Clashes (ds : List DeclaredStep) : Prop :=
  ∃ i j : Fin ds.length, ds[i].ownName? = none ∧ ds[j].ownName? = some (Step.positionName i)

instance (ds : List DeclaredStep) : Decidable (Clashes ds) :=
  inferInstanceAs (Decidable (∃ i j : Fin ds.length,
    ds[i].ownName? = none ∧ ds[j].ownName? = some (Step.positionName i)))

namespace Step

variable {ds : List DeclaredStep} {i j : Nat}

theorem positionName_inj : positionName i = positionName j ↔ i = j := by
  constructor
  · intro h
    have digits : i.repr = j.repr := (String.append_right_inj "step-").mp h
    have same : Nat.toDigits 10 i = Nat.toDigits 10 j := by
      simpa [Nat.repr] using congrArg String.toList digits
    have value := congrArg (Nat.ofDigitChars 10 · 0) same
    simpa [Nat.ofDigitChars_toDigits] using value
  · exact congrArg positionName

theorem getElem?_names (ds : List DeclaredStep) (i : Nat) :
    ((ofDeclaredSteps ds).map name)[i]? =
      ds[i]?.map fun d => d.ownName?.getD (positionName i) := by
  rw [List.getElem?_map, ofDeclaredSteps, getElem?_ofDeclaredFrom, Nat.zero_add, Option.map_map]
  rfl

/-- Steps that were given different names have different names, unless one was given the name
that another gets from its position. -/
theorem nodup_names_iff (distinct : (ds.filterMap DeclaredStep.ownName?).Nodup) :
    ((ofDeclaredSteps ds).map name).Nodup ↔ ¬ Clashes ds := by
  constructor
  · rintro nodup ⟨⟨i, hi⟩, ⟨j, hj⟩, unnamed, own⟩
    have unnamed : ds[i].ownName? = none := unnamed
    have own : ds[j].ownName? = some (positionName i) := own
    have same : ((ofDeclaredSteps ds).map name)[i]? = ((ofDeclaredSteps ds).map name)[j]? := by
      rw [getElem?_names, getElem?_names, List.getElem?_eq_getElem hi, List.getElem?_eq_getElem hj]
      simp [unnamed, own]
    obtain rfl := (List.getElem?_inj (by simpa using hi) nodup).mp same
    rw [unnamed] at own
    cases own
  · intro clear
    rw [List.nodup_iff_getElem?_ne_getElem?]
    intro i j before hj same
    have hj : j < ds.length := by simpa using hj
    have hi : i < ds.length := Nat.lt_trans before hj
    rw [getElem?_names, getElem?_names, List.getElem?_eq_getElem hi, List.getElem?_eq_getElem hj,
      Option.map_some, Option.map_some, Option.some.injEq] at same
    -- who was given a name, and who gets one from its position
    cases own : ds[i].ownName? with
    | none =>
      cases own' : ds[j].ownName? with
      | none =>
        rw [own, own'] at same
        exact Nat.ne_of_lt before (positionName_inj.mp same)
      | some given =>
        rw [own, own'] at same
        exact clear ⟨⟨i, hi⟩, ⟨j, hj⟩, own, own'.trans (congrArg some same.symm)⟩
    | some given =>
      cases own' : ds[j].ownName? with
      | none =>
        rw [own, own'] at same
        exact clear ⟨⟨j, hj⟩, ⟨i, hi⟩, own', own.trans (congrArg some same)⟩
      | some given' =>
        rw [own, own'] at same
        have apart := List.pairwise_iff_getElem.mp (List.pairwise_filterMap.mp distinct)
        exact apart i j hi hj before given own given' own' same

end Step

namespace Sequential

variable {σ : Type}

/-- The state after a call has under the name of a step what that step has put out in it, or
else what was there before. -/
structure KeepsOutputs (ctx : PromotionContext) (steps : List Step) (es : List (Nat × RunnerCall))
    (r : EngineResult) : Prop where
  own : ∀ e ∈ es, ∀ o, e.2.output? = some o → r.state.get? o.1 = some o.2
  unchanged : ∀ i step, steps[i]? = some step → (∀ e ∈ es, e.1 = i → e.2.output? = none) →
    r.state.get? step.name = ctx.state.get? step.name

variable {env : Setting σ} {ctx : PromotionContext} {steps : List Step} {x : σ}
  {es : List (Nat × RunnerCall)} {r : EngineResult} {o : String × Json}

/-- An output is kept under the name of the step of which it is. -/
theorem Engages.output_name {start : Nat} (h : Engages env steps start es) {e : Nat × RunnerCall}
    (he : e ∈ es) (output : e.2.output? = some o) : (steps.map Step.name)[e.1]? = some o.1 := by
  obtain ⟨step, here, serves⟩ := h.serves e he
  obtain ⟨report, -, hout⟩ := Option.bind_eq_some_iff.mp output
  obtain ⟨value, -, rfl⟩ := Option.map_eq_some_iff.mp hout
  simp [here, serves.name]

theorem keepsOutputs_of_nodup (distinct : (steps.map Step.name).Nodup)
    (answer : (promote env ctx steps x).1 = .result r) :
    KeepsOutputs ctx steps (engagements env ctx steps x) r := by
  obtain ⟨-, passes⟩ := passes_of_result answer
  have engages : Engages env steps ctx.start (engagements env ctx steps x) := passes.engages rfl
  obtain ⟨state, -⟩ := passes.collects
  -- outputs of different steps have different names
  have apart {e f : Nat × RunnerCall} {o o' : String × Json}
      (he : e ∈ engagements env ctx steps x) (hf : f ∈ engagements env ctx steps x)
      (output : e.2.output? = some o) (output' : f.2.output? = some o') (same : o.1 = o'.1) :
      e.1 = f.1 := by
    have here := engages.output_name he output
    have here' := engages.output_name hf output'
    rw [← same, ← here] at here'
    exact ((List.getElem?_inj (List.getElem?_eq_some_iff.mp here).1 distinct).mp here'.symm)
  have names : ((outputs (engagements env ctx steps x)).map Prod.fst).Nodup := by
    unfold outputs
    rw [List.Nodup, List.pairwise_map, List.pairwise_filterMap]
    refine engages.ordered.imp_of_mem ?_
    intro e f he hf before o output o' output' same
    exact Nat.ne_of_lt before (apart he hf output output' same)
  constructor
  · intro e he o output
    rw [state]
    exact SharedState.get?_laidOver_of_mem names (List.mem_filterMap.mpr ⟨e, he, output⟩)
  · intro i step here nothing
    rw [state]
    refine SharedState.get?_laidOver_of_forall_ne ?_
    intro o ho same
    obtain ⟨e, he, output⟩ := List.mem_filterMap.mp ho
    have there := engages.output_name he output
    have own : (steps.map Step.name)[i]? = some o.1 := by simp [here, same]
    have inside := (List.getElem?_eq_some_iff.mp there).1
    have position : e.1 = i := (List.getElem?_inj inside distinct).mp (there.trans own.symm)
    rw [nothing e he position] at output
    cases output

/-- Steps that were given different names have different names exactly if none was given the
name that another gets from its position; and then no call of the engine puts the output of a
step over that of another. -/
theorem apart_iff_not_clashes (ds : List DeclaredStep)
    (distinct : (ds.filterMap DeclaredStep.ownName?).Nodup) :
    (((Step.ofDeclaredSteps ds).map Step.name).Nodup ↔ ¬ Clashes ds) ∧
    (¬ Clashes ds → ∀ {σ : Type} (env : Setting σ) (ctx : PromotionContext) (x : σ)
      (r : EngineResult), (promote env ctx (Step.ofDeclaredSteps ds) x).1 = .result r →
        KeepsOutputs ctx (Step.ofDeclaredSteps ds)
          (engagements env ctx (Step.ofDeclaredSteps ds) x) r) := by
  refine ⟨Step.nodup_names_iff distinct, ?_⟩
  intro clear σ env ctx x r answer
  exact keepsOutputs_of_nodup ((Step.nodup_names_iff distinct).mpr clear) answer

/-- A step without a name, and one with a name. -/
def mixed (own : String) : List DeclaredStep :=
  [.ofKind "http", { DeclaredStep.ofKind "http" with name := some own }]

/-- Both steps put something out. -/
def telling : Prompter :=
  ⟨[.reported ⟨.succeeded, some (.text "first"), none, none⟩,
    .reported ⟨.succeeded, some (.text "second"), none, none⟩], []⟩

def mixedResult (own : String) (state : SharedState) : EngineResult :=
  ⟨.succeeded, none, 2, [⟨"step-0", .succeeded, some ⟨0, 0⟩, some ⟨0, 0⟩, 0, none⟩,
    ⟨own, .succeeded, some ⟨0, 0⟩, some ⟨0, 0⟩, 0, none⟩], state, []⟩

theorem apart_of_mixed :
    ((Step.ofDeclaredSteps (mixed "fetch")).map Step.name).Nodup ∧
      KeepsOutputs default (Step.ofDeclaredSteps (mixed "fetch"))
        (engagements (prompting "http") default (Step.ofDeclaredSteps (mixed "fetch")) telling)
        (mixedResult "fetch" (.ofList [("step-0", .text "first"), ("fetch", .text "second")])) := by
  have clear : ¬ Clashes (mixed "fetch") := by decide +kernel
  obtain ⟨names, keeps⟩ := apart_iff_not_clashes (mixed "fetch") (by decide)
  exact ⟨names.mpr clear, keeps clear _ _ _ _ (by decide +kernel)⟩

/-- The second step is called what the first is called by its position, and puts its output over
that of the first. -/
theorem overwritten_of_mixed : ((mixed "step-0").filterMap DeclaredStep.ownName?).Nodup ∧
    (Step.ofDeclaredSteps (mixed "step-0")).map Step.name = ["step-0", "step-0"] ∧
    (engagements (prompting "http") default (Step.ofDeclaredSteps (mixed "step-0")) telling).map
        (·.2.output?) = [some ("step-0", .text "first"), some ("step-0", .text "second")] ∧
    (promote (prompting "http") default (Step.ofDeclaredSteps (mixed "step-0")) telling).1 =
      .result (mixedResult "step-0" (.ofList [("step-0", .text "second")])) := by
  exact ⟨by decide, by decide +kernel, by decide +kernel, by decide +kernel⟩

end Sequential

end Drayage
