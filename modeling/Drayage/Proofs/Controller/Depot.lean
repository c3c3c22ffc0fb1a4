import Drayage.Proofs.Controller.Queue
import Mathlib.Data.List.Induction

/-!
# The work queue in use

Any number of workers and others act on a work queue, one at a time and in any order, even
while it shuts down. The one rule is that a worker says once that it is done with a key that
it was handed. A key then waits at most once, and nobody is handed a key that somebody holds.
-/

namespace Drayage

/-- A work queue in use. Workers are known by a name of type `ω`. -/
structure Depot (ω : Type) where
  queue : WorkQueue
  /-- The keys that are added once a delay has passed. -/
  timers : List Key
  /-- The keys that were handed out, with the workers that are not done with them. -/
  hands : List (ω × Key)

/-- What is done to a queue. A key that failed is added in two acts, `fail` and `addAfter`,
and others may act between them. -/
inductive Act (ω : Type) where
  | add (k : Key)
  | addAfter (k : Key) (delay : Span)
  /-- The delay of a key has passed. -/
  | fire (k : Key)
  | fail (k : Key)
  | get (w : ω) (k : Key)
  /-- A worker is told that there is nothing more to get. -/
  | leave (w : ω)
  | done (w : ω) (k : Key)
  | forget (k : Key)
  | shutDown

namespace Depot

variable {ω : Type}

def opening (b : Backoff) : Depot ω := ⟨.empty b, [], []⟩

/-- Adds a key after a delay, or at once if there is none. -/
def addAfter (d : Depot ω) (k : Key) (delay : Span) : Depot ω :=
  if delay.isZero then { d with queue := d.queue.add k } else { d with timers := k :: d.timers }

inductive Turn (d : Depot ω) : Act ω → Depot ω → Prop where
  | add (k : Key) : Turn d (.add k) { d with queue := d.queue.add k }
  | addAfter (k : Key) (delay : Span) : Turn d (.addAfter k delay) (d.addAfter k delay)
  | fire (front : List Key) (k : Key) (back : List Key) (h : d.timers = front ++ k :: back) :
      Turn d (.fire k) { d with queue := d.queue.add k, timers := front ++ back }
  | fail (k : Key) : Turn d (.fail k) { d with queue := (d.queue.fail k).2 }
  | get (w : ω) (k : Key) (q : WorkQueue) (h : d.queue.get = some (.key k, q)) :
      Turn d (.get w k) { d with queue := q, hands := (w, k) :: d.hands }
  | leave (w : ω) (q : WorkQueue) (h : d.queue.get = some (.closed, q)) :
      Turn d (.leave w) { d with queue := q }
  | done (front : List (ω × Key)) (w : ω) (k : Key) (back : List (ω × Key))
      (h : d.hands = front ++ (w, k) :: back) :
      Turn d (.done w k) { d with queue := d.queue.done k, hands := front ++ back }
  | forget (k : Key) : Turn d (.forget k) { d with queue := d.queue.forget k }
  | shutDown : Turn d .shutDown { d with queue := d.queue.shutDown }

/-- The keys that got in line by a turn: those beyond the former length of the line. -/
def joined (d d' : Depot ω) : List Key := d'.queue.waiting.drop d.queue.waiting.length

/-- Acts one after another, with the keys that got in line meanwhile. -/
inductive Run (o : Depot ω) : List (Act ω) → List Key → Depot ω → Prop where
  | start : Run o [] [] o
  | next {as : List (Act ω)} {ks : List Key} {d : Depot ω} {a : Act ω} {d' : Depot ω}
      (h : Run o as ks d) (turn : Turn d a d') : Run o (as ++ [a]) (ks ++ joined d d') d'

end Depot

namespace WorkQueue

variable {q q' : WorkQueue} {k : Key}

/-- The queue as if it did not shut down. -/
def reopened (q : WorkQueue) : WorkQueue := { q with shuttingDown := false }

theorem reopened_eq (h : q.shuttingDown = false) : q.reopened = q := by
  unfold reopened
  rw [← h]

theorem reopened_add (k : Key) :
    (q.add k).reopened = q.reopened ∨ (q.add k).reopened = q.reopened.add k := by
  -- a queue that shuts down takes no more keys
  cases closed : q.shuttingDown with
  | true =>
    unfold add
    rw [closed]
    exact .inl rfl
  | false =>
    rw [reopened_eq closed, reopened_eq ((shuttingDown_add k).trans closed)]
    exact .inr rfl

theorem reopened_done (k : Key) : (q.done k).reopened = q.reopened.done k := by
  unfold done
  dsimp only [reopened]
  split <;> rfl

end WorkQueue

namespace Depot

variable {ω : Type} {o d d' : Depot ω} {a : Act ω} {as : List (Act ω)} {ks : List Key}

/-- The keys that are held are those that workers are not done with, each one of them once. -/
structure Kept (d : Depot ω) : Prop where
  orderly : d.queue.reopened.Orderly
  held : ∀ k, d.queue.Holds k ↔ k ∈ d.hands.map Prod.snd
  single : (d.hands.map Prod.snd).Nodup

theorem kept_opening (b : Backoff) : (opening b : Depot ω).Kept where
  orderly := WorkQueue.orderly_empty b
  held k := by simp [opening, WorkQueue.empty, WorkQueue.Holds, Dict.contains]
  single := .nil

theorem Kept.add (h : d.Kept) (k : Key) : Kept { d with queue := d.queue.add k } where
  orderly := by
    rcases d.queue.reopened_add k with same | more
    · exact same ▸ h.orderly
    · exact more ▸ WorkQueue.orderly_add h.orderly k
  held j := WorkQueue.holds_add.trans (h.held j)
  single := h.single

theorem Kept.get (h : d.Kept) {w : ω} {k : Key} {q : WorkQueue}
    (hget : d.queue.get = some (.key k, q)) :
    Kept { d with queue := q, hands := (w, k) :: d.hands } := by
  have orderly := h.orderly
  rw [WorkQueue.reopened_eq (WorkQueue.of_get_key hget).1] at orderly
  obtain ⟨free, orderly', _, holds⟩ := WorkQueue.get_key orderly hget
  refine ⟨?_, fun j => ?_, ?_⟩
  · rw [WorkQueue.reopened_eq orderly'.serving]
    exact orderly'
  · rw [holds, h.held, List.map_cons, List.mem_cons]
    exact or_comm
  · rw [List.map_cons, List.nodup_cons, ← h.held]
    exact ⟨free, h.single⟩

theorem Kept.done (h : d.Kept) {front back : List (ω × Key)} {w : ω} {k : Key}
    (hands : d.hands = front ++ (w, k) :: back) :
    Kept { d with queue := d.queue.done k, hands := front ++ back } := by
  have held := h.held
  have single := h.single
  rw [hands, List.map_append, List.map_cons] at held single
  have apart : k ∉ (front ++ back).map Prod.snd ∧ ((front ++ back).map Prod.snd).Nodup := by
    rw [List.map_append]
    exact List.nodup_cons.mp (List.perm_middle.nodup_iff.mp single)
  refine ⟨?_, fun j => ?_, apart.2⟩
  · rw [WorkQueue.reopened_done]
    refine WorkQueue.orderly_done h.orderly ((held k).mpr ?_)
    exact List.mem_append_right _ List.mem_cons_self
  · rw [WorkQueue.holds_done, held, List.map_append]
    constructor
    · rintro ⟨hj, other⟩
      simpa [other] using hj
    · intro hj
      refine ⟨?_, fun same => apart.1 ?_⟩
      · rw [List.mem_append] at hj ⊢
        exact hj.imp id (List.mem_cons_of_mem _)
      · rw [← same, List.map_append]
        exact hj

theorem kept_turn (h : d.Kept) (turn : Turn d a d') : d'.Kept := by
  cases turn with
  | add k => exact h.add k
  | addAfter k delay =>
    unfold addAfter
    split
    · exact h.add k
    · exact ⟨h.orderly, h.held, h.single⟩
  | fire front k back timers =>
    have := h.add k
    exact ⟨this.orderly, this.held, this.single⟩
  | fail k => exact ⟨WorkQueue.orderly_fail h.orderly k, h.held, h.single⟩
  | get w k q hget => exact h.get hget
  | leave w q hget =>
    rw [WorkQueue.of_get_closed hget]
    exact h
  | done front w k back hands => exact h.done hands
  | forget k => exact ⟨WorkQueue.orderly_forget h.orderly k, h.held, h.single⟩
  | shutDown => exact ⟨h.orderly, h.held, h.single⟩

theorem kept_run (ho : o.Kept) (h : Run o as ks d) : d.Kept := by
  induction h with
  | start => exact ho
  | next _ turn ih => exact kept_turn ih turn

/-- What makes sure that workers are never at the same key. -/
structure Exclusive (d : Depot ω) : Prop where
  nodup : d.queue.waiting.Nodup
  wanted : ∀ k ∈ d.queue.waiting, d.queue.Wants k
  free : ∀ k ∈ d.queue.waiting, ¬ d.queue.Holds k
  placed : ∀ k, d.queue.Wants k → k ∈ d.queue.waiting ∨ d.queue.Holds k
  /-- What the queue takes for held is what workers are not done with. -/
  held : ∀ k, d.queue.Holds k ↔ ∃ w, (w, k) ∈ d.hands
  single : d.hands.Pairwise fun a b => a.2 ≠ b.2
  /-- Nobody is handed a key that somebody holds. -/
  handed : ∀ k q, d.queue.get = some (.key k, q) → ∀ w, (w, k) ∉ d.hands

/-- However adders and workers take turns, no two workers are ever at the same key. -/
theorem exclusive_of_run {b : Backoff} (h : Run (opening b) as ks d) : d.Exclusive := by
  have kept := kept_run (kept_opening b) h
  have held (k : Key) : d.queue.Holds k ↔ ∃ w, (w, k) ∈ d.hands := by
    rw [kept.held, List.mem_map]
    exact ⟨fun ⟨⟨w, _⟩, hw, same⟩ => ⟨w, same ▸ hw⟩, fun ⟨w, hw⟩ => ⟨(w, k), hw, rfl⟩⟩
  refine ⟨kept.orderly.nodup, fun k hk => ?_, fun k hk => ?_, fun k hk => ?_, held, ?_, ?_⟩
  · exact ((kept.orderly.waits k).mp hk).1
  · exact ((kept.orderly.waits k).mp hk).2
  · by_cases holds : d.queue.Holds k
    · exact .inr holds
    · exact .inl ((kept.orderly.waits k).mpr ⟨hk, holds⟩)
  · exact List.pairwise_map.mp kept.single
  · intro k q hget w hw
    have orderly := kept.orderly
    rw [WorkQueue.reopened_eq (WorkQueue.of_get_key hget).1] at orderly
    exact (WorkQueue.get_key orderly hget).1 ((held k).mpr ⟨w, hw⟩)

section Play

variable [DecidableEq ω]

/-- What an act makes of a depot, unless it is impossible. -/
def act? (d : Depot ω) : Act ω → Option (Depot ω)
  | .add k => some { d with queue := d.queue.add k }
  | .addAfter k delay => some (d.addAfter k delay)
  | .fire k =>
    if k ∈ d.timers then some { d with queue := d.queue.add k, timers := d.timers.erase k }
    else none
  | .fail k => some { d with queue := (d.queue.fail k).2 }
  | .get w k =>
    match d.queue.get with
    | some (.key j, q) =>
      if j = k then some { d with queue := q, hands := (w, k) :: d.hands } else none
    | _ => none
  | .leave _ =>
    match d.queue.get with
    | some (.closed, q) => some { d with queue := q }
    | _ => none
  | .done w k =>
    if (w, k) ∈ d.hands then
      some { d with queue := d.queue.done k, hands := d.hands.erase (w, k) }
    else none
  | .forget k => some { d with queue := d.queue.forget k }
  | .shutDown => some { d with queue := d.queue.shutDown }

def play? (d : Depot ω) (as : List (Act ω)) : Option (Depot ω) := as.foldlM act? d

theorem turn_of_act? (h : d.act? a = some d') : Turn d a d' := by
  cases a with
  | add k =>
    cases h
    exact .add k
  | addAfter k delay =>
    cases h
    exact .addAfter k delay
  | fire k =>
    simp only [act?] at h
    split at h
    · rename_i runs
      cases h
      obtain ⟨front, back, _, split, erased⟩ := List.exists_erase_eq runs
      rw [erased]
      exact .fire front k back split
    · cases h
  | fail k =>
    cases h
    exact .fail k
  | get w k =>
    simp only [act?] at h
    split at h
    · rename_i hget
      split at h
      · rename_i same
        cases h
        exact .get w k _ (same ▸ hget)
      · cases h
    · cases h
  | leave w =>
    simp only [act?] at h
    split at h
    · rename_i hget
      cases h
      exact .leave w _ hget
    · cases h
  | done w k =>
    simp only [act?] at h
    split at h
    · rename_i holds
      cases h
      obtain ⟨front, back, _, split, erased⟩ := List.exists_erase_eq holds
      rw [erased]
      exact .done front w k back split
    · cases h
  | forget k =>
    cases h
    exact .forget k
  | shutDown =>
    cases h
    exact .shutDown

theorem run_of_play? (h : o.play? as = some d) : ∃ ks, Run o as ks d := by
  induction as using List.reverseRecOn generalizing d with
  | nil =>
    cases h
    exact ⟨[], .start⟩
  | append_singleton as a ih =>
    unfold play? at h
    rw [List.foldlM_append] at h
    obtain ⟨d₁, played, last⟩ := Option.bind_eq_some_iff.mp h
    obtain ⟨ks, run⟩ := ih played
    have turn : Turn d₁ a d := turn_of_act? (by simpa using last)
    exact ⟨_, run.next turn⟩

end Play

/-- A key is added while its worker is at it and adds it once more itself, the queue shuts
down, and the worker is done. -/
def closing : List (Act Nat) :=
  [.add ⟨"demo", "p1"⟩, .get 1 ⟨"demo", "p1"⟩, .add ⟨"demo", "p1"⟩, .fail ⟨"demo", "p1"⟩,
    .addAfter ⟨"demo", "p1"⟩ ⟨0⟩, .shutDown, .add ⟨"demo", "p2"⟩, .done 1 ⟨"demo", "p1"⟩,
    .leave 1]

theorem exclusive_of_closing : ∃ ks d, Run (opening .standard) closing ks d ∧
    d.queue.shuttingDown = true ∧ d.queue.waiting = [⟨"demo", "p1"⟩] ∧ d.Exclusive := by
  have played : ((opening .standard).play? closing).isSome := by decide +kernel
  have shut : ((opening .standard).play? closing).map (·.queue.shuttingDown) = some true := by
    decide +kernel
  have line : ((opening .standard).play? closing).map (·.queue.waiting) =
      some [⟨"demo", "p1"⟩] := by decide +kernel
  obtain ⟨d, hd⟩ := Option.isSome_iff_exists.mp played
  rw [hd] at shut line
  obtain ⟨ks, run⟩ := run_of_play? hd
  exact ⟨ks, d, run, Option.some.inj shut, Option.some.inj line, exclusive_of_run run⟩

end Depot

end Drayage
