import Drayage.Controller.Program

/-!
# The conduct of programs

Rules say which requests a program may make, depending on a position that moves on with
every answer, and which answers it can expect. A program that obeys them keeps to the
rules whatever the answers are, so what is proved of the rules holds of the program at
every request, also when others make theirs in between.
-/

namespace Drayage

/-- Rules for programs, with positions of type `γ`. -/
structure Rules (γ : Type) where
  may : γ → Request → Prop
  /-- The answers that can be expected. -/
  expects : γ → (r : Request) → r.Answer → Prop
  after : γ → (r : Request) → r.Answer → γ

namespace Program

variable {α β γ : Type} {R : Rules γ}

/-- Every request is allowed where it is made, and the end is as wanted. -/
def Obeys (R : Rules γ) (ends : α → γ → Prop) : Program α → γ → Prop
  | .done a, g => ends a g
  | .ask r next, g => R.may g r ∧ ∀ a, R.expects g r a → Obeys R ends (next a) (R.after g r a)

theorem obeys_pure {ends : α → γ → Prop} {a : α} {g : γ} :
    Obeys R ends (pure a) g ↔ ends a g := Iff.rfl

theorem obeys_bind {ends : α → γ → Prop} {ends' : β → γ → Prop} {x : Program α}
    {f : α → Program β} {g : γ} (hx : Obeys R ends x g)
    (hf : ∀ a g', ends a g' → Obeys R ends' (f a) g') : Obeys R ends' (x >>= f) g := by
  show Obeys R ends' (x.bind f) g
  induction x generalizing g with
  | done a => exact hf a g hx
  | ask r next ih =>
    obtain ⟨hr, hnext⟩ := hx
    exact ⟨hr, fun a ha => ih a (hnext a ha)⟩

/-- A request that is followed by more. -/
theorem obeys_request {ends : β → γ → Prop} {r : Request} {f : r.Answer → Program β} {g : γ}
    (hr : R.may g r) (hf : ∀ a, R.expects g r a → Obeys R ends (f a) (R.after g r a)) :
    Obeys R ends (request r >>= f) g := ⟨hr, hf⟩

end Program

end Drayage
