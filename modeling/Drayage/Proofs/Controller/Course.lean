import Drayage.Proofs.Controller.Exchange

/-!
# Courses of programs

A program that was run to its end has a course: the requests that it has made, one after
another, with what each of them was answered. What can be said of a program whatever its
surroundings do is said of all its courses. What depends on the surroundings is said of a
world that gives the answers, while others do in between what they may.
-/

namespace Drayage

/-- A request together with what it was answered. -/
structure Reply where
  request : Request
  answer : request.Answer

namespace Reply

/-- The Promotion that was read. -/
def read? : Reply → Option Promotion
  | ⟨.getPromotion _, .ok p⟩ => p
  | _ => none

/-- The Stage that was read. -/
def stage? : Reply → Option Stage
  | ⟨.getStage _, .ok stage⟩ => stage
  | _ => none

/-- The status that was written. -/
def stored? : Reply → Option PromotionStatus
  | ⟨.updateStatus _ _ s, .ok _⟩ => some s
  | _ => none

/-- Why a status was not written. -/
def refused? : Reply → Option StoreError
  | ⟨.updateStatus _ _ _, .error e⟩ => some e
  | _ => none

/-- How the engine answered. -/
def engine? : Reply → Option EngineAnswer
  | ⟨.promote _ _, a⟩ => some a
  | _ => none

/-- The notice that was emitted. -/
def emitted? : Reply → Option Notice
  | ⟨.emit n, _⟩ => some n
  | _ => none

/-- Why a directory was not removed. -/
def unremoved? : Reply → Option FileError
  | ⟨.release _, .error e⟩ => some e
  | _ => none

end Reply

namespace Program

variable {α β σ : Type} {a b : α} {replies : List Reply}

/-- A program that is given these replies, one after another, ends with a value. -/
inductive Course : Program α → List Reply → α → Prop where
  | done (a : α) : Course (.done a) [] a
  | ask {r : Request} {next : r.Answer → Program α} {replies : List Reply} {b : α}
      (a : r.Answer) (rest : Course (next a) replies b) :
      Course (.ask r next) (⟨r, a⟩ :: replies) b

theorem course_pure : (pure a : Program α).Course replies b ↔ replies = [] ∧ b = a := by
  constructor
  · intro h
    cases h with
    | done => exact ⟨rfl, rfl⟩
  · rintro ⟨rfl, rfl⟩
    exact .done b

theorem course_bind {x : Program α} {f : α → Program β} {b : β} :
    (x >>= f).Course replies b ↔
      ∃ front a back, x.Course front a ∧ (f a).Course back b ∧ replies = front ++ back := by
  show (x.bind f).Course replies b ↔ _
  induction x generalizing replies with
  | done a =>
    constructor
    · intro h
      exact ⟨[], a, replies, .done a, h, rfl⟩
    · rintro ⟨front, a', back, first, rest, rfl⟩
      cases first with
      | done => exact rest
  | ask r next ih =>
    constructor
    · intro h
      cases h with
      | ask answer rest =>
        obtain ⟨front, a, back, first, later, rfl⟩ := (ih answer).mp rest
        exact ⟨_, a, back, .ask answer first, later, rfl⟩
    · rintro ⟨front, a, back, first, rest, rfl⟩
      cases first with
      | ask answer first => exact .ask answer ((ih answer).mpr ⟨_, a, back, first, rest, rfl⟩)

theorem course_request {r : Request} {f : r.Answer → Program α} :
    (request r >>= f).Course replies b ↔
      ∃ answer rest, replies = ⟨r, answer⟩ :: rest ∧ (f answer).Course rest b := by
  constructor
  · intro h
    cases (show (Program.ask r f).Course replies b from h) with
    | ask answer rest => exact ⟨answer, _, rfl, rest⟩
  · rintro ⟨answer, rest, rfl, h⟩
    exact .ask answer h

theorem run_request (perform : (r : Request) → StateM σ r.Answer) {r : Request}
    {f : r.Answer → Program α} (w : σ) :
    (request r >>= f).run perform w = (f (perform r w).1).run perform (perform r w).2 := rfl

theorem run_bind (perform : (r : Request) → StateM σ r.Answer) (x : Program α)
    (f : α → Program β) (w : σ) :
    (x >>= f).run perform w = (f (x.run perform w).1).run perform (x.run perform w).2 := by
  induction x generalizing w with
  | done a => rfl
  | ask r next ih => exact ih _ _

/-- The replies that a program gets when it is run in a world. -/
def told (perform : (r : Request) → StateM σ r.Answer) : Program α → σ → List Reply
  | .done _, _ => []
  | .ask r next, w =>
    let served := perform r w
    ⟨r, served.1⟩ :: told perform (next served.1) served.2

theorem course_run (perform : (r : Request) → StateM σ r.Answer) (x : Program α) (w : σ) :
    x.Course (x.told perform w) (x.run perform w).1 := by
  induction x generalizing w with
  | done a => exact .done a
  | ask r next ih => exact .ask _ (ih _ _)

end Program

namespace World

variable {ε κ : Type} {w w' : World ε} {kept : World ε → κ} {replies : List Reply}

/-- A world gives these replies, however the engine answers. Others may do anything in
between, but what `kept` tells of the world is left to the program. -/
inductive Gives (kept : World ε → κ) : World ε → List Reply → World ε → Prop where
  | nil {w w' : World ε} (others : kept w' = kept w) : Gives kept w [] w'
  | cons {w u v w' : World ε} {r : Request} {a : r.Answer} {replies : List Reply}
      (others : kept u = kept w) (answers : u.Answers (fun _ _ _ => True) r a v)
      (rest : Gives kept v replies w') : Gives kept w (⟨r, a⟩ :: replies) w'

/-- What others did before the first request makes no difference. -/
theorem Gives.after {u : World ε} (h : Gives kept u replies w') (others : kept u = kept w) :
    Gives kept w replies w' := by
  cases h with
  | nil others' => exact .nil (others'.trans others)
  | cons others' answers rest => exact .cons (others'.trans others) answers rest

theorem gives_append {front back : List Reply} (h : Gives kept w (front ++ back) w') :
    ∃ u, Gives kept w front u ∧ Gives kept u back w' := by
  induction front generalizing w with
  | nil => exact ⟨w, .nil rfl, h⟩
  | cons reply front ih =>
    cases h with
    | cons others answers rest =>
      obtain ⟨u, first, rest⟩ := ih rest
      exact ⟨u, .cons others answers first, rest⟩

/-- A program that is run in a world gets its replies from it, if the steps of the engine
leave alone what is to be kept. -/
theorem gives_run {α : Type} {engine : Engine (World ε)}
    (keeps : ∀ ctx steps w, kept (engine ctx steps w).2 = kept w) (x : Program α)
    (w : World ε) :
    Gives kept w (x.told (perform engine) w) (x.run (perform engine) w).2 := by
  induction x generalizing w with
  | done a => exact .nil rfl
  | ask r next ih =>
    have rest := ih (perform engine r w).1 (perform engine r w).2
    cases r with
    | promote ctx steps =>
      -- what the steps do to the world is put down to the others
      let answer : Engine (World ε) := fun _ _ u => ((engine ctx steps w).1, u)
      exact .cons rfl ⟨answer, rfl, fun _ _ _ => ⟨trivial, rfl⟩⟩ (rest.after (keeps ctx steps w))
    | now | getPromotion | getStage | getFreight | listPromotions | updateStatus
    | requestReverification | acquire | release | emit =>
      exact .cons rfl ⟨engine, rfl, fun _ _ h => by cases h⟩ rest

end World

end Drayage
