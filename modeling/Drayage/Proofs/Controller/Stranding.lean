import Drayage.Proofs.Controller.Dispatch

/-!
# No Promotion is stranded

As long as nobody works on a key, it is handed out once more or at rest. A worker that
takes a key over keeps this in mind: what it has read of the Promotion is still what is
asked for, unless the key is handed out once more.
-/

namespace Drayage

open Relation Standing Store

theorem Dict.mem_values {κ α : Type} [Ord κ] [Std.LawfulEqOrd κ] {d : Dict κ α} {k : κ} {a : α}
    (h : d.get? k = some a) : a ∈ d.values :=
  List.mem_map.mpr ⟨(k, a), mem_entries_of_find h, rfl⟩

/-- A chore after which the key is going to be added. -/
def Chore.Adds : Chore → Prop
  | .forget => False
  | .addAfter _ | .addRateLimited => True

namespace Dispatch

variable {f : ShardFilter} {d d' : Dispatch} {k : Key}

/-- A key is going to be handed out once more. -/
def Stirred (f : ShardFilter) (d : Dispatch) (k : Key) : Prop :=
  d.queue.Wants k ∨ k ∈ d.timers ∨ d.world.store.Due f d.seen k ∨ d.follower.Owes k

/-- A key is looked at again, or need not be. -/
def Calm (f : ShardFilter) (d : Dispatch) (k : Key) : Prop :=
  d.Stirred f k ∨ d.world.store.Rested k

/-- What a standing tells of the key that is worked on. -/
def Knows (f : ShardFilter) (d : Dispatch) (k : Key) : Standing → Prop
  | .unread j => j = k
  | .holding p => p.key = k ∧ p.status.unfit? p.spec = none ∧
      (d.Calm f k ∨ d.world.store.StillAsks k p)
  | .parked _ | .owing _ | .closed => d.Calm f k

/-- The rules that workers keep to. -/
def terms : Terms := ⟨fun _ _ => True, Sequential.MayAnswer⟩

/-- A worker that is done with its key leaves it calm. -/
def Minds (f : ShardFilter) (d : Dispatch) (x : Worker) : Prop :=
  match x.task with
  | .reconciling rest => ∃ g, rest.Obeys (rules terms) (Ends terms) g ∧
      g.Backed d.world.store ∧ d.Knows f x.key g
  | .tidying chores => (∃ chore ∈ chores, chore.Adds) ∨ d.Calm f x.key

/-- What every turn preserves. -/
structure Orderly (f : ShardFilter) (d : Dispatch) : Prop where
  sound : d.world.store.Sound
  served : d.world.store.Served f
  seen : d.seen ≤ d.world.store.published.size
  queue : d.queue.Orderly
  held : ∀ x ∈ d.workers, d.queue.Holds x.key
  distinct : (d.workers.map Worker.key).Nodup
  minds : ∀ x ∈ d.workers, d.Minds f x
  calm : ∀ k, ¬ d.queue.Holds k → d.Calm f k

/-- Whatever is known of a key stays known. -/
structure Eases (f : ShardFilter) (d d' : Dispatch) (k : Key) : Prop where
  calm : d.Calm f k → d'.Calm f k
  asks : ∀ p, d.world.store.StillAsks k p → d'.Calm f k ∨ d'.world.store.StillAsks k p
  grows : d.world.store.Grows d'.world.store

theorem eases_of_stirred (store : d'.world.store = d.world.store)
    (h : d.Stirred f k → d'.Calm f k) : Eases f d d' k where
  calm := by
    rintro (stirred | rested)
    · exact h stirred
    · refine .inr ?_
      rw [store]
      exact rested
  asks p asks := by
    rw [store]
    exact .inr asks
  grows := by
    rw [store]
    exact .refl _

theorem eases_of_evolves (ho : d.Orderly f) {K : PromotionSpec → PromotionStatus → Prop}
    {w : World Unit} (workers : List Worker)
    (h : Evolves f.intake K d.world.store w.store) :
    Eases f d { d with world := w, workers } k := by
  have due : w.store.Due f d.seen k → Stirred f { d with world := w, workers } k :=
    fun h => .inr (.inr (.inl h))
  refine ⟨?_, fun p asks => ?_, h.grows⟩
  · rintro ((wants | timer | hdue | owes) | rested)
    · exact .inl (.inl wants)
    · exact .inl (.inr (.inl timer))
    · exact .inl (due (hdue.evolve h))
    · exact .inl (.inr (.inr (.inr owes)))
    · exact (rested.evolve ho.served ho.seen h).imp due id
  · rcases asks.evolve ho.served ho.seen h with hdue | rested | asks
    · exact .inl (.inl (due hdue))
    · exact .inl (.inr rested)
    · exact .inr asks

theorem Knows.ease {g : Standing} (h : d.Knows f k g) (eases : Eases f d d' k) :
    d'.Knows f k g := by
  cases g with
  | unread j => exact h
  | holding p =>
    obtain ⟨key, fit, calm | asks⟩ := h
    · exact ⟨key, fit, .inl (eases.calm calm)⟩
    · exact ⟨key, fit, eases.asks p asks⟩
  | parked | owing | closed => exact eases.calm h

theorem Minds.ease {x : Worker} (h : d.Minds f x) (eases : Eases f d d' x.key) :
    d'.Minds f x := by
  unfold Minds at h ⊢
  split
  · rename_i rest task
    rw [task] at h
    obtain ⟨g, obeys, backed, knows⟩ := h
    exact ⟨g, obeys, backed.grow eases.grows, knows.ease eases⟩
  · rename_i chores task
    rw [task] at h
    exact h.imp id eases.calm

/-- A turn that leaves keys with those who hold them. -/
theorem Orderly.ease (ho : d.Orderly f) (sound : d'.world.store.Sound)
    (served : d'.world.store.Served f) (seen : d'.seen ≤ d'.world.store.published.size)
    (queue : d'.queue.Orderly) (holds : ∀ k, d'.queue.Holds k ↔ d.queue.Holds k)
    (keys : (d'.workers.map Worker.key).Sublist (d.workers.map Worker.key))
    (minds : ∀ x ∈ d'.workers, x ∈ d.workers ∨ d'.Minds f x) (eases : ∀ k, Eases f d d' k) :
    d'.Orderly f where
  sound := sound
  served := served
  seen := seen
  queue := queue
  held x hx := by
    obtain ⟨y, hy, hkey⟩ := List.mem_map.mp (keys.subset (List.mem_map_of_mem hx))
    rw [holds, ← hkey]
    exact ho.held y hy
  distinct := keys.nodup ho.distinct
  minds x hx := by
    rcases minds x hx with hx | hx
    · exact (ho.minds x hx).ease (eases x.key)
    · exact hx
  calm k free := (eases k).calm (ho.calm k fun h => free ((holds k).mpr h))

/-- A turn of the queue and of what is added to it. Whatever was going to be handed out still
is, or need not be. -/
theorem Orderly.rouse (ho : d.Orderly f) {queue : WorkQueue} {timers : List Key} {seen : Nat}
    {follower : Follower} (inside : seen ≤ d.world.store.published.size)
    (orderly : queue.Orderly) (holds : ∀ j, queue.Holds j ↔ d.queue.Holds j)
    (stirred : ∀ j, d.Stirred f j → Calm f { d with queue, timers, seen, follower } j) :
    Orderly f { d with queue, timers, seen, follower } :=
  ho.ease ho.sound ho.served inside orderly holds (.refl _) (fun _ => .inl) fun j =>
    eases_of_stirred rfl (stirred j)

theorem mem_of_eq_middle {α : Type} {l front back : List α} {x : α}
    (h : l = front ++ x :: back) : x ∈ l := by
  rw [h]
  exact List.mem_append_right _ List.mem_cons_self

theorem mem_middle {α : Type} {front back : List α} {x y : α} (h : y ∈ front ++ x :: back) :
    y = x ∨ y ∈ front ++ back :=
  List.mem_cons.mp (List.perm_middle.mem_iff.mp h)

theorem sublist_middle {α : Type} (front back : List α) (x : α) :
    (front ++ back).Sublist (front ++ x :: back) :=
  (List.Sublist.refl front).append (List.sublist_cons_self x back)

/-- A turn of one worker, who keeps its key. -/
theorem Orderly.work (ho : d.Orderly f) {front back : List Worker} {task task' : Task}
    (works : d.workers = front ++ ⟨k, task⟩ :: back)
    (works' : d'.workers = front ++ ⟨k, task'⟩ :: back) (sound : d'.world.store.Sound)
    (served : d'.world.store.Served f) (seen : d'.seen ≤ d'.world.store.published.size)
    (queue : d'.queue.Orderly) (holds : ∀ k, d'.queue.Holds k ↔ d.queue.Holds k)
    (minds : d'.Minds f ⟨k, task'⟩) (eases : ∀ k, Eases f d d' k) : d'.Orderly f := by
  refine ho.ease sound served seen queue holds ?_ (fun x hx => ?_) eases
  · rw [works, works', List.map_append, List.map_append]
    exact .refl _
  · rw [works'] at hx
    rcases mem_middle hx with rfl | hx
    · exact .inr minds
    · rw [works]
      exact .inl ((sublist_middle front back _).subset hx)

theorem rested_of_absent {s : Store} (h : s.promotions.get? k = none) : s.Rested k := by
  intro p hp
  rw [h] at hp
  cases hp

theorem rested_of_ended {s : Store} {p : Promotion} (h : s.promotions.get? k = some p)
    (ended : p.status.isTerminal = true) : s.Rested k := by
  intro q hq
  rw [h] at hq
  cases hq
  exact .inl ended

/-- A worker whose Promotion was not named by its Stage has seen all that it had to. -/
theorem rested_of_gated {s : Store} {p : Promotion} (asks : s.StillAsks p.key p)
    (unaborted : p.Unaborted) {stage : Stage}
    (hstage : s.stages.get? ⟨p.metadata.project, p.spec.stage⟩ = some stage)
    (unnamed : stage.currentPromotionName ≠ some p.metadata.name) : s.Rested p.key := by
  obtain ⟨q, hq, hspec, habort⟩ := asks
  intro q' hq'
  rw [hq] at hq'
  cases hq'
  rw [hspec]
  exact .inr ⟨unaborted_congr habort.symm unaborted, stage, hstage, unnamed⟩

/-- What a worker knows of its key after an answer. -/
theorem Knows.exchange (ho : d.Orderly f) {g : Standing} {r : Request} {a : r.Answer}
    {w : World Unit} (backed : g.Backed d.world.store) (h : g.Exchange terms d.world r a w)
    (knows : d.Knows f k g) (workers : List Worker) :
    Knows f { d with world := w, workers } k (g.after r a) := by
  have evolves : Evolves f.intake terms.keeps d.world.store w.store := h.evolves ho.sound backed
  have eased := knows.ease (eases_of_evolves ho workers evolves)
  cases h with
  | aside g r a h workspaces =>
    rw [after_aside h]
    exact eased
  | read key =>
    cases (show key = k from knows)
    unfold getPromotion whenAvailable
    split
    · cases hp : d.world.store.promotions.get? k with
      | none => exact .inr (rested_of_absent hp)
      | some p =>
        show Knows f _ k (if p.status.isTerminal then .closed else .holding p)
        split
        · rename_i ended
          exact .inr (rested_of_ended hp ended)
        · exact ⟨ho.sound.promotion_key hp, (ho.served.promotion hp).2, .inr ⟨p, hp, rfl, rfl⟩⟩
    · exact eased
  | gated p unaborted =>
    unfold getStage whenAvailable
    split
    · cases hstage : d.world.store.stages.get? ⟨p.metadata.project, p.spec.stage⟩ with
      | none => exact eased
      | some stage =>
        show Knows f _ k
          (if stage.currentPromotionName = some p.metadata.name then .holding p else .parked p)
        split
        · exact eased
        · rename_i unnamed
          -- what was read may be old, but then the key is calm already
          obtain ⟨rfl, _, calm | asks⟩ := knows
          · exact calm
          · exact .inr (rested_of_gated asks unaborted hstage unnamed)
    · exact eased
  | promoted p ctx steps a h => exact eased
  | wrote p status stored kept fit =>
    obtain ⟨rfl, _, _⟩ := knows
    let q := p.withStatus (d.world.store.version + 1) status
    have hq : (d.world.store.writePromotion (some p) q).promotions.get? p.key = some q :=
      (get?_writePromotion _ _ _).trans (if_pos rfl)
    show Knows f _ p.key (if status.isTerminal then .owing q else .holding q)
    split
    · rename_i ended
      exact .inr (rested_of_ended hq ended)
    · exact ⟨rfl, fit, .inr ⟨q, hq, rfl, rfl⟩⟩
  -- only a Promotion that is gone closes the matter
  | refused p status e h =>
    cases e with
    | notFound j =>
      obtain ⟨rfl, _, _⟩ := knows
      rcases updateStatus_error h with h | ⟨_, absent⟩ | ⟨_, h⟩ | ⟨_, _, h, _⟩
      · cases h
      · exact .inr (rested_of_absent absent)
      · cases h
      · cases h
    | conflict | invalid | alreadyExists | unavailable => exact eased
  | announced p n h => exact eased
  | reverified g key a =>
    have : g.after (.requestReverification key) a = g := by cases g <;> rfl
    rw [this]
    exact eased

/-- A worker that has ended its reconcile minds its key. -/
theorem minds_of_ends {g : Standing} {e : Ending} (ends : Ends terms e g)
    (knows : d.Knows f k g) {chores : List Chore} (h : e.chores = some chores) :
    (∃ chore ∈ chores, chore.Adds) ∨ d.Calm f k := by
  match e, h with
  | .finished (some delay), h =>
    cases h
    exact .inl ⟨_, List.mem_cons_of_mem _ List.mem_cons_self, trivial⟩
  | .failed e, h =>
    cases h
    exact .inl ⟨_, List.mem_cons_self, trivial⟩
  | .finished none, h =>
    refine .inr ?_
    rcases ends with rfl | ⟨p, rfl⟩ | ⟨p, rfl, unfit | pends⟩
    · exact knows
    · exact knows
    · exact absurd knows.2.1 unfit
    · obtain ⟨ctx, steps, r, ha, pending⟩ := pends
      exact absurd pending (Sequential.phase_mayAnswer ha)

/-- What a chore leaves as it was, and what it may add to. -/
structure Tended (d d' : Dispatch) : Prop where
  world : d'.world = d.world
  seen : d'.seen = d.seen
  follower : d'.follower = d.follower
  queue : d'.queue.Orderly
  holds : ∀ j, d'.queue.Holds j ↔ d.queue.Holds j
  wants : ∀ j, d.queue.Wants j → d'.queue.Wants j
  timers : ∀ j ∈ d.timers, j ∈ d'.timers

theorem Tended.stirred (h : Tended d d') (stirred : d.Stirred f k) : d'.Stirred f k := by
  unfold Stirred
  rw [h.world, h.seen, h.follower]
  exact stirred.imp (h.wants k) (.imp (h.timers k) id)

theorem Tended.addAfter (hq : d.queue.Orderly) (k : Key) (delay : Span) :
    Tended d (d.addAfter k delay) ∧ (d.addAfter k delay).Stirred f k := by
  unfold Dispatch.addAfter
  split
  · have wants {j : Key} : (d.queue.add k).Wants j ↔ d.queue.Wants j ∨ j = k :=
      WorkQueue.wants_add hq
    exact ⟨⟨rfl, rfl, rfl, WorkQueue.orderly_add hq k, fun _ => WorkQueue.holds_add,
      fun _ h => wants.mpr (.inl h), fun _ h => h⟩, .inl (wants.mpr (.inr rfl))⟩
  · exact ⟨⟨rfl, rfl, rfl, hq, fun _ => Iff.rfl, fun _ h => h,
      fun _ h => List.mem_cons_of_mem _ h⟩, .inr (.inl List.mem_cons_self)⟩

theorem Tended.perform (hq : d.queue.Orderly) (k : Key) (chore : Chore) :
    Tended d (d.perform k chore) ∧ (chore.Adds → (d.perform k chore).Stirred f k) := by
  cases chore with
  | forget =>
    exact ⟨⟨rfl, rfl, rfl, WorkQueue.orderly_forget hq k, fun _ => Iff.rfl, fun _ h => h,
      fun _ h => h⟩, fun h => h.elim⟩
  | addAfter delay =>
    obtain ⟨tended, stirred⟩ := Tended.addAfter (f := f) hq k delay
    exact ⟨tended, fun _ => stirred⟩
  | addRateLimited =>
    obtain ⟨tended, stirred⟩ := Tended.addAfter (f := f)
      (d := { d with queue := (d.queue.fail k).2 }) (WorkQueue.orderly_fail hq k) k
      (d.queue.fail k).1
    exact ⟨⟨tended.world, tended.seen, tended.follower, tended.queue, tended.holds,
      tended.wants, tended.timers⟩, fun _ => stirred⟩

/-- Once all is listed, every key is calm: what is open is going to be added. -/
theorem calm_of_listed (ho : d.Orderly f) {ps : List Promotion}
    (h : d.world.store.listPromotions = .ok ps) (k : Key) :
    Calm f { d with follower := .adding (Manager.openKeys f ps) } k := by
  unfold listPromotions whenAvailable at h
  split at h
  · cases h
    cases hp : d.world.store.promotions.get? k with
    | none => exact .inr (rested_of_absent hp)
    | some p =>
      cases ended : p.status.isTerminal with
      | true => exact .inr (rested_of_ended hp ended)
      | false =>
        -- what has not ended is listed, and so the follower owes it
        refine .inl (.inr (.inr (.inr ?_)))
        refine List.mem_map.mpr ⟨p, List.mem_filter.mpr ⟨Dict.mem_values hp, ?_⟩,
          ho.sound.promotion_key hp⟩
        rw [(ho.served.promotion hp).1, ended]
        rfl
  · cases h

theorem size_le_of_evolves {I : Intake} {K : PromotionSpec → PromotionStatus → Prop}
    {s s' : Store} (h : Evolves I K s s') : s.published.size ≤ s'.published.size := by
  rcases h.published with h | ⟨e, h⟩
  · exact Nat.le_of_eq (congrArg Array.size h.symm)
  · rw [h, Array.size_push]
    exact Nat.le_succ _

variable {c : Reconciler}

theorem Orderly.get (ho : d.Orderly f) {q : WorkQueue} (h : d.queue.get = some (.key k, q)) :
    Orderly f { d with
      queue := q, workers := ⟨k, .reconciling (c.reconcile k)⟩ :: d.workers } := by
  obtain ⟨free, orderly, wants, holds⟩ := WorkQueue.get_key ho.queue h
  have other {x : Worker} (hx : x ∈ d.workers) : x.key ≠ k :=
    fun hk => free (hk ▸ ho.held x hx)
  -- only the key that is handed out is wanted no more
  have eases {j : Key} (hj : j ≠ k) : Eases f d { d with
      queue := q, workers := ⟨k, .reconciling (c.reconcile k)⟩ :: d.workers } j :=
    eases_of_stirred rfl fun stirred => .inl (stirred.imp (fun h => (wants j).mpr ⟨h, hj⟩) id)
  refine ⟨ho.sound, ho.served, ho.seen, orderly, fun x hx => ?_, ?_, fun x hx => ?_,
    fun j hj => ?_⟩
  · rcases List.mem_cons.mp hx with rfl | hx
    · exact (holds k).mpr (.inr rfl)
    · exact (holds x.key).mpr (.inl (ho.held x hx))
  · refine List.nodup_cons.mpr ⟨fun hk => ?_, ho.distinct⟩
    obtain ⟨x, hx, hkey⟩ := List.mem_map.mp hk
    exact other hx hkey
  · rcases List.mem_cons.mp hx with rfl | hx
    · exact ⟨.unread k, c.obeys_reconcile (Terms.lasting_true _) k, trivial, rfl⟩
    · exact (ho.minds x hx).ease (eases (other hx))
  · have free : ¬ d.queue.Holds j ∧ j ≠ k :=
      ⟨fun h => hj ((holds j).mpr (.inl h)), fun h => hj ((holds j).mpr (.inr h))⟩
    exact (eases free.2).calm (ho.calm j free.1)

theorem Orderly.finished (ho : d.Orderly f) {front back : List Worker}
    (works : d.workers = front ++ ⟨k, .tidying []⟩ :: back) :
    Orderly f { d with queue := d.queue.done k, workers := front ++ back } := by
  have here := mem_of_eq_middle works
  have kept : ∀ x ∈ front ++ back, x ∈ d.workers := by
    rw [works]
    exact fun x hx => (sublist_middle front back _).subset hx
  have distinct := ho.distinct
  rw [works, (List.perm_middle.map Worker.key).nodup_iff] at distinct
  obtain ⟨absent, nodup⟩ := List.nodup_cons.mp distinct
  have eases (j : Key) :
      Eases f d { d with queue := d.queue.done k, workers := front ++ back } j :=
    eases_of_stirred rfl fun stirred =>
      .inl (stirred.imp (fun h => WorkQueue.wants_done.mpr h) id)
  refine ⟨ho.sound, ho.served, ho.seen, WorkQueue.orderly_done ho.queue (ho.held _ here),
    fun x hx => ?_, nodup, fun x hx => (ho.minds x (kept x hx)).ease (eases x.key),
    fun j hj => ?_⟩
  · have other : x.key ≠ k := fun hk => absent (List.mem_map.mpr ⟨x, hx, hk⟩)
    exact WorkQueue.holds_done.mpr ⟨ho.held x (kept x hx), other⟩
  · by_cases hk : j = k
    -- with no chores left the worker leaves its key calm
    · subst hk
      rcases ho.minds _ here with ⟨chore, hchore, _⟩ | calm
      · cases hchore
      · exact (eases j).calm calm
    · exact (eases j).calm (ho.calm j fun h => hj (WorkQueue.holds_done.mpr ⟨h, hk⟩))

theorem Orderly.answer (ho : d.Orderly f) {front back : List Worker} {r : Request}
    {next : r.Answer → Program Ending} {a : r.Answer} {w : World Unit}
    (works : d.workers = front ++ ⟨k, .reconciling (.ask r next)⟩ :: back)
    (h : d.world.Answers Sequential.MayAnswer r a w) :
    Orderly f { d with
      world := w, workers := front ++ ⟨k, .reconciling (next a)⟩ :: back } := by
  obtain ⟨g, obeys, backed, knows⟩ := ho.minds _ (mem_of_eq_middle works)
  have hx : g.Exchange terms d.world r a w := exchange_of_answers ho.sound backed obeys.1 h
  have evolves : Evolves f.intake terms.keeps d.world.store w.store := hx.evolves ho.sound backed
  have expected := hx.expects ho.sound (fun _ => trivial) backed
  exact ho.work works rfl (evolves.sound ho.sound) (evolves.served ho.served)
    (Nat.le_trans ho.seen (size_le_of_evolves evolves)) ho.queue (fun _ => Iff.rfl)
    ⟨_, obeys.2 a expected, hx.backed ho.sound backed, knows.exchange ho backed hx _⟩
    fun j => eases_of_evolves ho _ evolves

theorem Orderly.edit (ho : d.Orderly f) {w : World Unit}
    (h : Edited f.intake d.world.store w.store) : Orderly f { d with world := w } := by
  have evolves := Evolves.edited (K := fun _ _ => True) h
  exact ho.ease (evolves.sound ho.sound) (evolves.served ho.served)
    (Nat.le_trans ho.seen (size_le_of_evolves evolves)) ho.queue (fun _ => Iff.rfl)
    (.refl _) (fun _ => .inl) fun j => eases_of_evolves ho d.workers evolves

/-- A key that was due by an event is wanted once the event is delivered. -/
theorem Orderly.deliver (ho : d.Orderly f) {e : StoreEvent} (follows : d.follower = .following)
    (next : d.world.store.published[d.seen]? = some e) : Orderly f { d with
      seen := d.seen + 1, queue := (e.keysToEnqueue f).foldl .add d.queue } := by
  have inside : d.seen < d.world.store.published.size :=
    (Array.getElem?_eq_some_iff.mp next).1
  refine ho.rouse inside (WorkQueue.orderly_addAll ho.queue _)
    (fun _ => WorkQueue.holds_addAll _) fun j => ?_
  rintro (wants | timer | ⟨i, e', hi, he', hj⟩ | owes)
  · exact .inl (.inl ((WorkQueue.wants_addAll ho.queue _).mpr (.inl wants)))
  · exact .inl (.inr (.inl timer))
  · rcases Nat.lt_or_eq_of_le hi with hi | rfl
    · exact .inl (.inr (.inr (.inl ⟨i, e', hi, he', hj⟩)))
    · rw [next] at he'
      cases he'
      exact .inl (.inl ((WorkQueue.wants_addAll ho.queue _).mpr (.inr hj)))
  · rw [follows] at owes
    exact owes.elim

/-- A key that the follower owed is wanted once it is added. -/
theorem Orderly.add (ho : d.Orderly f) {ks : List Key} (adds : d.follower = .adding (k :: ks)) :
    Orderly f { d with queue := d.queue.add k, follower := .adding ks } := by
  have wants {j : Key} : (d.queue.add k).Wants j ↔ d.queue.Wants j ∨ j = k :=
    WorkQueue.wants_add ho.queue
  refine ho.rouse ho.seen (WorkQueue.orderly_add ho.queue k) (fun _ => WorkQueue.holds_add)
    fun j => ?_
  rintro (hj | timer | due | owes)
  · exact .inl (.inl (wants.mpr (.inl hj)))
  · exact .inl (.inr (.inl timer))
  · exact .inl (.inr (.inr (.inl due)))
  · rw [adds] at owes
    rcases List.mem_cons.mp owes with rfl | hj
    · exact .inl (.inl (wants.mpr (.inr rfl)))
    · exact .inl (.inr (.inr (.inr hj)))

/-- A key whose delay has passed is wanted. -/
theorem Orderly.fire (ho : d.Orderly f) {front back : List Key}
    (h : d.timers = front ++ k :: back) :
    Orderly f { d with timers := front ++ back, queue := d.queue.add k } := by
  have wants {j : Key} : (d.queue.add k).Wants j ↔ d.queue.Wants j ∨ j = k :=
    WorkQueue.wants_add ho.queue
  refine ho.rouse ho.seen (WorkQueue.orderly_add ho.queue k) (fun _ => WorkQueue.holds_add)
    fun j => ?_
  rintro (hj | timer | rest)
  · exact .inl (.inl (wants.mpr (.inl hj)))
  · rw [h] at timer
    rcases mem_middle timer with rfl | timer
    · exact .inl (.inl (wants.mpr (.inr rfl)))
    · exact .inl (.inr (.inl timer))
  · exact .inl (.inr (.inr rest))

/-- A worker that is lost leaves its key held. -/
theorem Orderly.lose (ho : d.Orderly f) {front back : List Worker} {x : Worker}
    (works : d.workers = front ++ x :: back) :
    Orderly f { d with workers := front ++ back } := by
  refine ho.ease ho.sound ho.served ho.seen ho.queue (fun _ => Iff.rfl) ?_
    (fun y hy => .inl ?_) fun j => eases_of_stirred rfl .inl
  · rw [works]
    exact (sublist_middle front back x).map Worker.key
  · rw [works]
    exact (sublist_middle front back x).subset hy

theorem Orderly.tidy (ho : d.Orderly f) {front back : List Worker} {chore : Chore}
    {chores : List Chore} (works : d.workers = front ++ ⟨k, .tidying (chore :: chores)⟩ :: back) :
    Orderly f { d.perform k chore with workers := front ++ ⟨k, .tidying chores⟩ :: back } := by
  obtain ⟨tended, adds⟩ := Tended.perform (f := f) ho.queue k chore
  have eases (j : Key) : Eases f d { d.perform k chore with
      workers := front ++ ⟨k, .tidying chores⟩ :: back } j :=
    eases_of_stirred (congrArg World.store tended.world) fun h => .inl (tended.stirred h)
  refine ho.work works rfl ?_ ?_ ?_ tended.queue tended.holds ?_ eases
  · rw [tended.world]
    exact ho.sound
  · rw [tended.world]
    exact ho.served
  · rw [tended.world, tended.seen]
    exact ho.seen
  -- the chore that adds the key was this one, or is still to be done
  · rcases ho.minds _ (mem_of_eq_middle works) with ⟨other, hother, hadds⟩ | calm
    · rcases List.mem_cons.mp hother with rfl | hother
      · exact .inr (.inl (adds hadds))
      · exact .inl ⟨other, hother, hadds⟩
    · exact .inr ((eases k).calm calm)

theorem orderly_turn (ho : d.Orderly (.ofConfig c.config)) (h : Turn c d d') :
    d'.Orderly (.ofConfig c.config) := by
  cases h with
  | edit e h => exact ho.edit (edited_apply ho.sound h)
  | disturb clock workspaces => exact ho.edit .same
  | deliver e follows next => exact ho.deliver follows next
  | lag seen later h =>
    -- the follower owes every key, whatever events were lost
    exact ho.rouse h ho.queue (fun _ => Iff.rfl) fun j _ => .inl (.inr (.inr (.inr trivial)))
  | list ps lists h =>
    exact ho.rouse ho.seen ho.queue (fun _ => Iff.rfl) fun j _ => calm_of_listed ho h j
  | add k ks adds => exact ho.add adds
  | follow added =>
    refine ho.rouse ho.seen ho.queue (fun _ => Iff.rfl) fun j => ?_
    rintro (hj | timer | due | owes)
    · exact .inl (.inl hj)
    · exact .inl (.inr (.inl timer))
    · exact .inl (.inr (.inr (.inl due)))
    · rw [added] at owes
      cases owes
  | fire front k back h => exact ho.fire h
  | get k q h => exact ho.get h
  | answer front back k r next a w works h => exact ho.answer works h
  | finish front back k e chores works h =>
    obtain ⟨g, ends, _, knows⟩ := ho.minds _ (mem_of_eq_middle works)
    exact ho.work works rfl ho.sound ho.served ho.seen ho.queue (fun _ => Iff.rfl)
      (minds_of_ends ends knows h) fun j => eases_of_stirred rfl .inl
  | crash front back k e works h => exact ho.lose works
  | tidy front back k chore chores works => exact ho.tidy works
  | finished front back k works => exact ho.finished works

theorem served_empty : Store.empty.Served f where
  promotion h := by cases h
  stage h := by cases h

theorem orderly_opening (h : d.Opens f) : d.Orderly f := by
  obtain ⟨store, ⟨b, queue⟩, timers, seen, follower, workers⟩ := h
  -- by induction on how the store has evolved before
  have known : d.world.store.Sound ∧ d.world.store.Served f := by
    generalize d.world.store = s at store
    induction store with
    | refl => exact ⟨sound_empty, served_empty⟩
    | tail _ evolves ih => exact ⟨evolves.sound ih.1, evolves.served ih.2⟩
  refine ⟨known.1, known.2, Nat.le_of_eq seen, ?_, ?_, ?_, ?_, fun k _ => .inl ?_⟩
  · rw [queue]
    exact WorkQueue.orderly_empty b
  · rw [workers]
    exact fun x hx => (List.not_mem_nil hx).elim
  · rw [workers]
    exact .nil
  · rw [workers]
    exact fun x hx => (List.not_mem_nil hx).elim
  · rw [Stirred, follower]
    exact .inr (.inr (.inr trivial))

theorem orderly_reached (h : Reached c d) : d.Orderly (.ofConfig c.config) := by
  obtain ⟨o, opens, turns⟩ := h
  induction turns with
  | refl => exact orderly_opening opens
  | tail _ turn ih => exact orderly_turn ih turn

/-- Whatever order things happen in: if nobody is going to look at a key, its Promotion is
absent or has ended, or it is not to be aborted and its Stage is there and names another
one or none. -/
theorem rested_of_idle (h : Reached c d) (idle : d.Idle (.ofConfig c.config) k) :
    d.world.store.Rested k := by
  rcases (orderly_reached h).calm k idle.held with (wants | timer | due | owes) | rested
  · exact absurd wants idle.wanted
  · exact absurd timer idle.timers
  · exact absurd due idle.events
  · exact absurd owes idle.follower
  · exact rested

/-- A worker can go on to the end of its reconcile while nothing else happens. -/
theorem turns_run {engine : Engine (World Unit)} (hengine : ∀ ctx steps w,
    Sequential.MayAnswer ctx steps (engine ctx steps w).1 ∧ (engine ctx steps w).2 = w)
    (front back : List Worker) {x : Program Ending} (d : Dispatch)
    (works : d.workers = front ++ ⟨k, .reconciling x⟩ :: back) :
    ReflTransGen (Turn c) d { d with
      world := (x.run (World.perform engine) d.world).2
      workers := front ++ ⟨k, .reconciling (.done (x.run (World.perform engine) d.world).1)⟩ ::
        back } := by
  induction x generalizing d with
  | done e =>
    obtain ⟨w, q, timers, seen, follower, workers⟩ := d
    cases works
    exact .refl
  | ask r next ih =>
    let served := World.perform engine r d.world
    have answered : d.world.Answers Sequential.MayAnswer r served.1 served.2 :=
      ⟨engine, rfl, fun ctx steps _ => hengine ctx steps d.world⟩
    have turn := Turn.answer (c := c) front back k r next served.1 served.2 works answered
    exact .head turn (ih served.1 { d with
      world := served.2, workers := front ++ ⟨k, .reconciling (next served.1)⟩ :: back } rfl)

/-- An engine that knows no steps. -/
def stepless : Engine (World Unit) := fun ctx steps w =>
  ((Sequential.promote ⟨∅, fun _ _ _ => .ok none, pure default⟩ ctx steps ()).1, w)

def parkedKey : Key := ⟨"a", "p"⟩

/-- A Promotion, and a Stage that does not name it. -/
def parkedEdits : List Edit :=
  let p : Promotion := .fresh (.fresh "a" "p" default) ⟨"s", "f", [], []⟩
  [.putStage (.fresh (.fresh "a" "s" default) ⟨[], none⟩) ⟨1⟩,
    .create { p with status := { p.status with phase := some .pending } } ⟨2⟩]

def parked : World Unit := ⟨default, parkedEdits.foldl Edit.apply .empty, .empty, #[], ()⟩

def onDuty : Reconciler := ⟨.standard "", fun _ => none⟩

def parkedRun : Ending × World Unit :=
  (onDuty.reconcile parkedKey).run (World.perform stepless) parked

/-- The queue before the only key that waits is handed out. -/
def parkedQueue : WorkQueue := (WorkQueue.empty .standard).add parkedKey

def handedOut : WorkQueue :=
  { parkedQueue with
    waiting := []
    wanted := parkedQueue.wanted.erase parkedKey
    held := parkedQueue.held.insert parkedKey () }

/-- A manager without timers, whose world is that of `parked` before or after the run. -/
def onDutyWith (world : World Unit) (queue : WorkQueue) (follower : Follower)
    (tasks : List Task) : Dispatch :=
  ⟨world, queue, [], parked.store.published.size, follower, tasks.map (⟨parkedKey, ·⟩)⟩

/-- After all was listed, a worker has found that nothing is to be done. -/
theorem rested_of_parked : ∃ c d k, Reached c d ∧ d.Idle (.ofConfig c.config) k ∧
    d.world.store.promotions.contains k = true ∧ d.world.store.Rested k := by
  let start : Task := .reconciling (onDuty.reconcile parkedKey)
  let w := parkedRun.2
  let forgot := handedOut.forget parkedKey
  have answers : ∀ ctx steps w,
      Sequential.MayAnswer ctx steps (stepless ctx steps w).1 ∧ (stepless ctx steps w).2 = w :=
    fun _ _ _ => ⟨⟨Unit, _, (), rfl⟩, rfl⟩
  have allowed : ∀ e ∈ parkedEdits, e.Within (ShardFilter.ofConfig onDuty.config).intake := by
    intro e he
    rcases List.mem_cons.mp he with rfl | he
    · rfl
    · cases List.mem_singleton.mp he
      exact ⟨rfl, rfl⟩
  have opens : Opens (.ofConfig onDuty.config)
      (onDutyWith parked (.empty .standard) .listing []) :=
    ⟨evolves_edits sound_empty allowed, ⟨_, rfl⟩, rfl, rfl, rfl, rfl⟩
  have keys : Manager.openKeys (.ofConfig onDuty.config) parked.store.promotions.values =
      [parkedKey] := by decide +kernel
  have ending : parkedRun.1 = .finished none := by decide +kernel
  have list : Turn onDuty (onDutyWith parked (.empty .standard) .listing [])
      (onDutyWith parked (.empty .standard) (.adding [parkedKey]) []) := by
    rw [← keys]
    exact .list _ rfl rfl
  have add : Turn onDuty (onDutyWith parked (.empty .standard) (.adding [parkedKey]) [])
      (onDutyWith parked parkedQueue (.adding []) []) := .add parkedKey [] rfl
  have follow : Turn onDuty (onDutyWith parked parkedQueue (.adding []) [])
      (onDutyWith parked parkedQueue .following []) := .follow rfl
  have get : Turn onDuty (onDutyWith parked parkedQueue .following [])
      (onDutyWith parked handedOut .following [start]) := .get parkedKey handedOut rfl
  have run : ReflTransGen (Turn onDuty) (onDutyWith parked handedOut .following [start])
      (onDutyWith w handedOut .following [.reconciling (.done parkedRun.1)]) :=
    turns_run answers [] [] _ rfl
  have finish : Turn onDuty
      (onDutyWith w handedOut .following [.reconciling (.done parkedRun.1)])
      (onDutyWith w handedOut .following [.tidying [.forget]]) :=
    .finish [] [] parkedKey parkedRun.1 _ rfl (by rw [ending]; rfl)
  have tidy : Turn onDuty (onDutyWith w handedOut .following [.tidying [.forget]])
      (onDutyWith w forgot .following [.tidying []]) := .tidy [] [] parkedKey .forget [] rfl
  have done : Turn onDuty (onDutyWith w forgot .following [.tidying []])
      (onDutyWith w (forgot.done parkedKey) .following []) := .finished [] [] parkedKey rfl
  have reached : Reached onDuty (onDutyWith w (forgot.done parkedKey) .following []) :=
    ⟨_, opens, .head list <| .head add <| .head follow <| .head get <| run.trans <|
      .head finish <| .head tidy <| .single done⟩
  have idle : Idle (.ofConfig onDuty.config)
      (onDutyWith w (forgot.done parkedKey) .following []) parkedKey := by
    refine ⟨by decide +kernel, ?_, ?_, List.not_mem_nil, ?_, id⟩
    · unfold WorkQueue.Wants
      decide +kernel
    · unfold WorkQueue.Holds
      decide +kernel
    · rintro ⟨i, e, hi, he, _⟩
      have size : parkedRun.2.store.published.size = parked.store.published.size := by
        decide +kernel
      have inside : i < parkedRun.2.store.published.size :=
        (Array.getElem?_eq_some_iff.mp he).1
      rw [size] at inside
      exact Nat.not_lt_of_le hi inside
  exact ⟨onDuty, _, parkedKey, reached, idle, by decide +kernel, rested_of_idle reached idle⟩

end Dispatch

end Drayage
