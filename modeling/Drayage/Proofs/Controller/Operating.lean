import Drayage.Proofs.Controller.Stranding

/-!
# A manager at work

A manager takes one thing after the other, which is one of the orders in which all those
who take part in a dispatch can act. So whatever is true of every dispatch is true of a
manager as well.
-/

namespace Drayage

open Relation Store

/-- Requests are answered as in a world in memory, by an engine whose steps do nothing to it. -/
def Manager.InMemory (m : Manager Unit) : Prop :=
  ∃ engine : Engine (World Unit), m.perform = World.perform engine ∧ ∀ ctx steps w,
    Sequential.MayAnswer ctx steps (engine ctx steps w).1 ∧ (engine ctx steps w).2 = w

namespace Dispatch

variable {c : Reconciler} {d : Dispatch} {k : Key}

theorem turns_adding (ks : List Key) (adds : d.follower = .adding ks) :
    ReflTransGen (Turn c) d { d with
      queue := ks.foldl .add d.queue, follower := .following } := by
  induction ks generalizing d with
  | nil => exact .single (.follow adds)
  | cons k ks ih =>
    let next : Dispatch := { d with queue := d.queue.add k, follower := .adding ks }
    exact .head (.add k ks adds) (ih (d := next) rfl)

/-- Keys whose delay has passed are added in the order in which they became due. -/
theorem turns_fire (ks rest : List Key) (h : d.timers.Perm (ks ++ rest)) :
    ∃ timers, timers.Perm rest ∧
      ReflTransGen (Turn c) d { d with timers, queue := ks.foldl .add d.queue } := by
  induction ks generalizing d with
  | nil => exact ⟨d.timers, h, .refl⟩
  | cons k ks ih =>
    -- timers have no order in a dispatch, so the next one can be picked out
    obtain ⟨front, back, split⟩ := List.append_of_mem (h.mem_iff.mpr List.mem_cons_self)
    have left : (front ++ back).Perm (ks ++ rest) := by
      rw [split] at h
      exact (List.perm_middle.symm.trans h).cons_inv
    obtain ⟨timers, perm, turns⟩ :=
      ih (d := { d with timers := front ++ back, queue := d.queue.add k }) left
    exact ⟨timers, perm, .head (.fire front k back split) turns⟩

/-- What a worker leaves behind when it has done its chores. -/
def tidied (d : Dispatch) (k : Key) (chores : List Chore) : Dispatch :=
  chores.foldl (fun d chore => d.perform k chore) d

theorem perform_workers (d : Dispatch) (ws : List Worker) (k : Key) (chore : Chore) :
    { d with workers := ws }.perform k chore = { d.perform k chore with workers := ws } := by
  have addAfter (d : Dispatch) (delay : Span) :
      { d with workers := ws }.addAfter k delay = { d.addAfter k delay with workers := ws } := by
    unfold Dispatch.addAfter
    split <;> rfl
  cases chore with
  | forget => rfl
  | addAfter delay => exact addAfter d delay
  | addRateLimited => exact addAfter { d with queue := (d.queue.fail k).2 } _

theorem tidied_workers (d : Dispatch) (ws : List Worker) (k : Key) (chores : List Chore) :
    { d with workers := ws }.tidied k chores = { d.tidied k chores with workers := ws } := by
  unfold tidied
  induction chores generalizing d with
  | nil => rfl
  | cons chore chores ih => rw [List.foldl_cons, perform_workers, ih]; rfl

/-- Chores are about the queue and what is added to it. -/
theorem tidied_frame (d : Dispatch) (k : Key) (chores : List Chore) :
    (d.tidied k chores).world = d.world ∧ (d.tidied k chores).seen = d.seen ∧
      (d.tidied k chores).follower = d.follower := by
  have addAfter (d : Dispatch) (delay : Span) : (d.addAfter k delay).world = d.world ∧
      (d.addAfter k delay).seen = d.seen ∧ (d.addAfter k delay).follower = d.follower := by
    unfold Dispatch.addAfter
    split <;> exact ⟨rfl, rfl, rfl⟩
  unfold tidied
  induction chores generalizing d with
  | nil => exact ⟨rfl, rfl, rfl⟩
  | cons chore chores ih =>
    obtain ⟨world, seen, follower⟩ := ih (d.perform k chore)
    have step : (d.perform k chore).world = d.world ∧ (d.perform k chore).seen = d.seen ∧
        (d.perform k chore).follower = d.follower := by
      cases chore with
      | forget => exact ⟨rfl, rfl, rfl⟩
      | addAfter delay => exact addAfter d delay
      | addRateLimited => exact addAfter { d with queue := (d.queue.fail k).2 } _
    exact ⟨world.trans step.1, seen.trans step.2.1, follower.trans step.2.2⟩

/-- A worker does all its chores and is done with its key. -/
theorem turns_tidy (front back : List Worker) (chores : List Chore)
    (works : d.workers = front ++ ⟨k, .tidying chores⟩ :: back) :
    ReflTransGen (Turn c) d { d.tidied k chores with
      queue := (d.tidied k chores).queue.done k, workers := front ++ back } := by
  induction chores generalizing d with
  | nil => exact .single (.finished front back k works)
  | cons chore chores ih =>
    let next : Dispatch := { d.perform k chore with
      workers := front ++ ⟨k, .tidying chores⟩ :: back }
    have turns := ih (d := next) rfl
    rw [tidied_workers] at turns
    exact .head (.tidy front back k chore chores works) turns

/-- The queue of a schedule, and the keys that it adds later. -/
structure Tallies (s : Schedule Nat) (d : Dispatch) : Prop where
  queue : d.queue = s.queue
  timers : d.timers.Perm (s.later.map Prod.snd)

theorem perm_enlist (due : Span) (k : Key) (later : List (Span × Key)) :
    (k :: later.map Prod.snd).Perm ((Schedule.enlist due k later).map Prod.snd) := by
  induction later with
  | nil => exact .refl _
  | cons e rest ih =>
    unfold Schedule.enlist
    split
    · exact (List.Perm.swap _ _ _).trans (ih.cons _)
    · exact .refl _

theorem Tallies.addAfter {s : Schedule Nat} (h : Tallies s d) (k : Key) (delay : Span) :
    Tallies (s.addAfter k delay) (d.addAfter k delay) := by
  unfold Schedule.addAfter Dispatch.addAfter
  split
  · exact ⟨congrArg (·.add k) h.queue, h.timers⟩
  · exact ⟨h.queue, (h.timers.cons k).trans (perm_enlist _ k s.later)⟩

/-- The chores of a worker are what the manager does after a reconcile. -/
theorem tallies_conclude {s : Schedule Nat} (h : Tallies s d) (k : Key) {e : Ending}
    {chores : List Chore} (he : e.chores = some chores) :
    Tallies (Manager.conclude s k e) (d.tidied k chores) := by
  have forget : Tallies (s.update (·.forget k)) (d.perform k .forget) :=
    ⟨congrArg (·.forget k) h.queue, h.timers⟩
  cases e with
  | finished delay =>
    cases delay with
    | none =>
      cases he
      exact forget
    | some delay =>
      cases he
      exact forget.addAfter k delay
  | failed e =>
    cases he
    show Tallies ({ s with queue := (s.queue.fail k).2 }.addAfter k (s.queue.fail k).1)
      ({ d with queue := (d.queue.fail k).2 }.addAfter k (d.queue.fail k).1)
    rw [h.queue]
    refine Tallies.addAfter (s := { s with queue := (s.queue.fail k).2 }) ?_ k _
    exact ⟨rfl, h.timers⟩
  | crashed crash => cases he

/-- A manager while its workers hold keys that they have not begun to work on. -/
structure Shows (c : Reconciler) (o : Operation Unit) (keys : List Key) (d : Dispatch) :
    Prop where
  world : d.world = o.world
  tallies : Tallies o.schedule d
  follower : d.follower = .following
  workers : d.workers = keys.map fun k => ⟨k, .reconciling (c.reconcile k)⟩

/-- The work of a manager on a key is what a worker can do while nothing else happens. -/
theorem shows_work {m : Manager Unit} (hm : m.InMemory) {o : Operation Unit} (worker : Nat)
    {front back : List Key} (h : Shows m.reconciler o (front ++ k :: back) d) :
    ∃ d', ReflTransGen (Turn m.reconciler) d d' ∧ d'.seen = d.seen ∧
      Shows m.reconciler (m.work o (worker, .key k)) (front ++ back) d' := by
  obtain ⟨engine, perform, hengine⟩ := hm
  let before := front.map fun k => (⟨k, .reconciling (m.reconciler.reconcile k)⟩ : Worker)
  let behind := back.map fun k => (⟨k, .reconciling (m.reconciler.reconcile k)⟩ : Worker)
  have workers : d.workers = before ++ ⟨k, .reconciling (m.reconciler.reconcile k)⟩ :: behind := by
    rw [h.workers, List.map_append, List.map_cons]
  -- the whole reconcile while nothing else happens
  have run := turns_run (c := m.reconciler) hengine before behind d workers
  rw [h.world, ← perform] at run
  cases served : (m.reconciler.reconcile k).run m.perform o.world with
  | mk ending world =>
    rw [served] at run
    unfold Manager.work
    dsimp only at run ⊢
    rw [served]
    dsimp only
    cases hchores : ending.chores with
    | none =>
      -- a crash loses the worker, and its key with it
      refine ⟨_, .tail run (.crash before behind k ending rfl hchores), rfl, ?_⟩
      cases ending with
      | finished delay => cases delay <;> cases hchores
      | failed e => cases hchores
      | crashed crash =>
        exact ⟨rfl, ⟨h.tallies.1, h.tallies.2⟩, h.follower, List.map_append.symm⟩
    | some chores =>
      let after : Dispatch := { d with world }
      let tidying : Dispatch := { after with workers := before ++ ⟨k, .tidying chores⟩ :: behind }
      let ended : Dispatch :=
        { after with workers := before ++ ⟨k, .reconciling (.done ending)⟩ :: behind }
      have finish : Turn m.reconciler ended tidying :=
        .finish before behind k ending chores rfl hchores
      have tidy := turns_tidy (c := m.reconciler) (d := tidying) before behind chores rfl
      rw [tidied_workers] at tidy
      obtain ⟨same, seen, follower⟩ := tidied_frame after k chores
      have tallies := tallies_conclude (d := after) ⟨h.tallies.1, h.tallies.2⟩ k hchores
      refine ⟨_, (run.tail finish).trans tidy, seen, ?_⟩
      cases ending with
      | crashed crash => cases hchores
      | finished delay =>
        exact ⟨same, ⟨congrArg (·.done k) tallies.1, tallies.2⟩, follower.trans h.follower,
          List.map_append.symm⟩
      | failed e =>
        exact ⟨same, ⟨congrArg (·.done k) tallies.1, tallies.2⟩, follower.trans h.follower,
          List.map_append.symm⟩

/-- Workers in line get the keys that wait. -/
theorem turns_serve (idle : List Nat) (hq : d.queue.Orderly) :
    ∃ handed : List (Nat × Key),
      (Schedule.serve idle d.queue).1 = handed.map (fun h => (h.1, .key h.2)) ∧
      ReflTransGen (Turn c) d { d with
        queue := (Schedule.serve idle d.queue).2.2
        workers := (handed.map fun h => ⟨h.2, .reconciling (c.reconcile h.2)⟩).reverse ++
          d.workers } := by
  induction idle generalizing d with
  | nil => exact ⟨[], rfl, .refl⟩
  | cons w idle ih =>
    unfold Schedule.serve
    cases hget : d.queue.get with
    | none => exact ⟨[], rfl, .refl⟩
    | some got =>
      obtain ⟨handout, q⟩ := got
      cases handout with
      -- a queue in use hands out nothing but keys
      | closed =>
        unfold WorkQueue.get at hget
        rw [hq.serving, if_neg Bool.false_ne_true] at hget
        split at hget <;> cases hget
      | key k =>
        obtain ⟨_, orderly, _⟩ := WorkQueue.get_key hq hget
        obtain ⟨handed, served, turns⟩ := ih (d := { d with
          queue := q, workers := ⟨k, .reconciling (c.reconcile k)⟩ :: d.workers }) orderly
        refine ⟨(w, k) :: handed, congrArg (_ :: ·) served, .head (.get k q hget) ?_⟩
        rw [List.map_cons, List.reverse_cons, List.append_assoc]
        exact turns

theorem shows_deliver {o : Operation Unit} (hq : d.queue.Orderly) (h : Shows c o [] d) :
    ∃ handed : List (Nat × Key),
      o.schedule.deliver.1 = handed.map (fun h => (h.1, .key h.2)) ∧
      ∃ d', ReflTransGen (Turn c) d d' ∧ d'.seen = d.seen ∧
        Shows c { o with schedule := o.schedule.deliver.2 } (handed.map Prod.snd).reverse d' := by
  obtain ⟨handed, served, turns⟩ := turns_serve (c := c) o.schedule.idle hq
  rw [h.tallies.queue] at served turns
  refine ⟨handed, served, _, turns, rfl, h.world, ⟨rfl, h.tallies.timers⟩, h.follower, ?_⟩
  show (handed.map _).reverse ++ d.workers = _
  rw [h.workers, List.map_nil, List.append_nil, ← List.map_reverse, ← List.map_reverse,
    List.map_map]
  rfl

theorem shows_works {m : Manager Unit} (hm : m.InMemory) (handed : List (Nat × Key))
    {o : Operation Unit} (h : Shows m.reconciler o (handed.map Prod.snd).reverse d) :
    ∃ d', ReflTransGen (Turn m.reconciler) d d' ∧ d'.seen = d.seen ∧
      Shows m.reconciler ((handed.map fun h => (h.1, .key h.2)).foldl m.work o) [] d' := by
  induction handed generalizing o d with
  | nil => exact ⟨d, .refl, rfl, h⟩
  | cons first handed ih =>
    obtain ⟨worker, k⟩ := first
    rw [List.map_cons, List.reverse_cons] at h
    obtain ⟨d₁, turns, seen, shows⟩ := shows_work hm worker h
    rw [List.append_nil] at shows
    obtain ⟨d₂, turns', seen', shows'⟩ := ih shows
    exact ⟨d₂, turns.trans turns', seen'.trans seen, shows'⟩

theorem shows_advance {o : Operation Unit} {keys : List Key} (h : Shows c o keys d)
    (time : Span) : ∃ d', ReflTransGen (Turn c) d d' ∧ d'.seen = d.seen ∧
      Shows c { o with schedule := o.schedule.advanceTo time } keys d' := by
  unfold Schedule.advanceTo
  dsimp only
  generalize hdue : (o.schedule.later.takeWhile fun e => decide (e.1 ≤ time)) = due
  obtain ⟨rest, split⟩ : due <+: o.schedule.later := hdue ▸ List.takeWhile_prefix _
  have timers : d.timers.Perm (due.map Prod.snd ++ rest.map Prod.snd) := by
    rw [← List.map_append, split]
    exact h.tallies.timers
  obtain ⟨left, perm, turns⟩ := turns_fire (c := c) _ _ timers
  refine ⟨_, turns, rfl, h.world, ⟨?_, ?_⟩, h.follower, h.workers⟩
  · rw [← h.tallies.queue, List.foldl_map]
  · rw [← split, List.drop_left]
    exact perm

theorem available_updateStatus (s : Store) (key : Key) (v : Nat) (status : PromotionStatus) :
    (s.after (s.updateStatus key v status)).available = s.available := by
  unfold updateStatus
  rw [after_whenAvailable]
  split
  · split
    · rfl
    · split
      · rfl
      · split <;> rfl
  · rfl

theorem available_requestReverification (s : Store) (key : Key) (now : Instant) :
    (s.after (s.requestReverification key now)).available = s.available := by
  rcases after_requestReverification key now with h | ⟨_, _, _, _, _, h⟩ <;> rw [h]
  rfl

/-- No request makes the store unavailable. -/
theorem available_run {α : Type} {engine : Engine (World Unit)}
    (hengine : ∀ ctx steps w, (engine ctx steps w).2 = w) (x : Program α) (w : World Unit) :
    (x.run (World.perform engine) w).2.store.available = w.store.available := by
  induction x generalizing w with
  | done a => rfl
  | ask r next ih =>
    refine (ih _ _).trans ?_
    cases r with
    | now | getPromotion | getStage | getFreight | listPromotions | emit => rfl
    | updateStatus key v status =>
      show (World.attempt _ w).2.store.available = _
      rw [World.snd_attempt]
      exact available_updateStatus w.store key v status
    | requestReverification key =>
      show (World.attempt _ w).2.store.available = _
      rw [World.snd_attempt]
      exact available_requestReverification w.store key w.clock
    | acquire uid =>
      show (World.acquire uid w).2.store.available = _
      unfold World.acquire
      split <;> rfl
    | release uid =>
      show (World.release uid w).2.store.available = _
      unfold World.release
      split <;> rfl
    | promote ctx steps =>
      show (engine ctx steps w).2.store.available = _
      rw [hengine]

variable {m : Manager Unit} {o : Operation Unit}

/-- While the store can be read, a survey finds the keys to work on. -/
theorem survey_run (hm : m.InMemory) {w : World Unit} (available : w.store.available = true) :
    m.survey.run m.perform w = (.ok (Manager.openKeys m.filter w.store.promotions.values), w) := by
  obtain ⟨engine, perform, _⟩ := hm
  have listed : World.perform engine .listPromotions w = (.ok w.store.promotions.values, w) :=
    congrArg (·, w) (if_pos available)
  rw [perform]
  unfold Manager.survey
  simp only [bind, Program.bind, Program.request, Program.run, StateT.bind, listed]
  rfl

/-- What a watcher is told next is something that the follower can be told. -/
theorem shows_receive (hm : m.InMemory) {w w' : Watcher} {delivery : Delivery}
    (available : o.world.store.available = true) (seen : d.seen = w.seen)
    (received : w.receive o.world.store.published = some (delivery, w'))
    (h : Shows m.reconciler o [] d) :
    ∃ d', ReflTransGen (Turn m.reconciler) d d' ∧ d'.seen = w'.seen ∧
      Shows m.reconciler (m.receive o delivery) [] d' ∧
      (m.receive o delivery).world = o.world ∧ (m.receive o delivery).watcher = o.watcher := by
  obtain ⟨world, ⟨queue, timers⟩, follower, workers⟩ := h
  unfold Watcher.receive at received
  split at received
  · rename_i behind
    cases received
    have surveyed := survey_run hm available
    have lists : d.world.store.listPromotions = .ok o.world.store.promotions.values := by
      rw [world]
      exact if_pos available
    unfold Manager.receive
    dsimp only
    rw [surveyed]
    let lagged : Dispatch := { d with
      seen := o.world.store.published.size - Watcher.capacity, follower := .listing }
    let keys := Manager.openKeys m.filter o.world.store.promotions.values
    -- events were lost: a lag, a list and what it adds
    have lag : Turn m.reconciler d lagged :=
      .lag _ (by rw [seen]; omega) (by rw [world]; omega)
    have list : Turn m.reconciler lagged { lagged with follower := .adding keys } :=
      .list _ rfl lists
    have add := turns_adding (c := m.reconciler) (d := { lagged with follower := .adding keys })
      keys rfl
    refine ⟨_, .head lag (.head list add), rfl, ?_, rfl, rfl⟩
    exact ⟨world, ⟨congrArg (fun q => keys.foldl .add q) queue, timers⟩, rfl, workers⟩
  · obtain ⟨e, next, same⟩ := Option.map_eq_some_iff.mp received
    cases same
    rw [← world, ← seen] at next
    refine ⟨_, .single (.deliver e follower next), congrArg (· + 1) seen, ?_, rfl, rfl⟩
    exact ⟨world, ⟨congrArg (fun q => (e.keysToEnqueue m.filter).foldl .add q) queue, timers⟩,
      follower, workers⟩

theorem shows_drain (hm : m.InMemory) (fuel : Nat) (w : Watcher)
    (available : o.world.store.available = true) (seen : d.seen = w.seen)
    (h : Shows m.reconciler o [] d) :
    let drained := Watcher.drain o.world.store.published fuel w
    ∃ d', ReflTransGen (Turn m.reconciler) d d' ∧ d'.seen = drained.2.seen ∧
      Shows m.reconciler (drained.1.foldl m.receive o) [] d' ∧
      (drained.1.foldl m.receive o).world = o.world ∧
      (drained.1.foldl m.receive o).watcher = o.watcher := by
  induction fuel generalizing o d w with
  | zero => exact ⟨d, .refl, seen, h, rfl, rfl⟩
  | succ fuel ih =>
    unfold Watcher.drain
    cases received : w.receive o.world.store.published with
    | none => exact ⟨d, .refl, seen, h, rfl, rfl⟩
    | some next =>
      obtain ⟨delivery, w'⟩ := next
      obtain ⟨d₁, turns, seen₁, shows, world, watcher⟩ := shows_receive hm available seen received h
      have := ih (o := m.receive o delivery) w' (by rw [world]; exact available) seen₁ shows
      rw [world] at this
      obtain ⟨d₂, turns', seen₂, shows', world', watcher'⟩ := this
      exact ⟨d₂, turns.trans turns', seen₂, shows', world', watcher'.trans watcher⟩

end Dispatch

namespace Manager

open Dispatch

variable {m : Manager Unit} {o : Operation Unit}

/-- Some dispatch comes to where the manager is, with nobody at work. -/
def Shown (m : Manager Unit) (o : Operation Unit) : Prop :=
  ∃ d, Reached m.reconciler d ∧ Shows m.reconciler o [] d ∧ o.watcher = some ⟨d.seen⟩ ∧
    o.world.store.available = true

theorem shown_start (hm : m.InMemory) {w : World Unit} (available : w.store.available = true)
    (store : ReflTransGen (Evolves m.filter.intake fun _ _ => True) .empty w.store) :
    Shown m (m.start w) := by
  have enter (names : List Nat) (s : Schedule Nat) :
      (names.foldl Schedule.enter s).queue = s.queue ∧
        (names.foldl Schedule.enter s).later = s.later := by
    induction names generalizing s with
    | nil => exact ⟨rfl, rfl⟩
    | cons name names ih => exact ih (s.enter name)
  obtain ⟨queue, later⟩ := enter (List.range m.workers) (.start .standard)
  unfold start
  rw [survey_run hm available]
  let keys := openKeys m.filter w.store.promotions.values
  let opening : Dispatch := ⟨w, .empty .standard, [], w.store.published.size, .listing, []⟩
  have list : Turn m.reconciler opening { opening with follower := .adding keys } :=
    .list _ rfl (if_pos available)
  have add := turns_adding (c := m.reconciler) (d := { opening with follower := .adding keys })
    keys rfl
  refine ⟨_, ⟨opening, ⟨store, ⟨_, rfl⟩, rfl, rfl, rfl, rfl⟩, .head list add⟩, ?_, rfl, available⟩
  refine ⟨rfl, ⟨?_, ?_⟩, rfl, rfl⟩
  · exact congrArg (fun q => keys.foldl .add q) queue.symm
  · show [].Perm (((List.range m.workers).foldl Schedule.enter (.start .standard)).later.map _)
    rw [later]
    exact .nil

theorem Shown.edit (h : Shown m o) {e : Edit} (within : e.Within m.filter.intake)
    (available : (e.apply o.world.store).available = true) :
    Shown m { o with world := { o.world with store := e.apply o.world.store } } := by
  obtain ⟨d, ⟨opening, opens, turns⟩, shows, watcher, _⟩ := h
  refine ⟨_, ⟨opening, opens, turns.tail (.edit e within)⟩, ?_, watcher, available⟩
  exact ⟨by rw [shows.world], ⟨shows.tallies.1, shows.tallies.2⟩, shows.follower, shows.workers⟩

theorem Shown.advance (h : Shown m o) (time : Span) :
    Shown m { o with schedule := o.schedule.advanceTo time } := by
  obtain ⟨d, ⟨opening, opens, turns⟩, shows, watcher, available⟩ := h
  obtain ⟨d', turns', seen, shows'⟩ := shows_advance shows time
  exact ⟨d', ⟨opening, opens, turns.trans turns'⟩, shows', by rw [seen]; exact watcher, available⟩

theorem Shown.follow (hm : m.InMemory) (h : Shown m o) : Shown m (m.follow o) := by
  obtain ⟨d, ⟨opening, opens, turns⟩, shows, watcher, available⟩ := h
  unfold Manager.follow
  rw [watcher]
  dsimp only
  let later := (Watcher.receiveAll ⟨d.seen⟩ o.world.store.published).2
  have drained := shows_drain (o := { o with watcher := some later }) hm (Watcher.capacity + 1)
    ⟨d.seen⟩ available rfl ⟨shows.world, shows.tallies, shows.follower, shows.workers⟩
  obtain ⟨d', turns', seen, shows', world, watcher'⟩ := drained
  refine ⟨d', ⟨opening, opens, turns.trans turns'⟩, shows', ?_, ?_⟩
  · rw [seen]
    exact watcher'
  · exact (congrArg (fun w => w.store.available) world).trans available

theorem frame_work (hm : m.InMemory) (o : Operation Unit) (h : Nat × Handout) :
    (m.work o h).watcher = o.watcher ∧
      (m.work o h).world.store.available = o.world.store.available := by
  obtain ⟨engine, perform, hengine⟩ := hm
  obtain ⟨worker, handout⟩ := h
  cases handout with
  | closed => exact ⟨rfl, rfl⟩
  | key k =>
    have available := available_run (fun ctx steps w => (hengine ctx steps w).2)
      (m.reconciler.reconcile k) o.world
    rw [← perform] at available
    unfold work
    dsimp only
    generalize (m.reconciler.reconcile k).run m.perform o.world = served at available ⊢
    obtain ⟨ending, world⟩ := served
    cases ending <;> exact ⟨rfl, available⟩

theorem frame_works (hm : m.InMemory) (served : List (Nat × Handout)) (o : Operation Unit) :
    (served.foldl m.work o).watcher = o.watcher ∧
      (served.foldl m.work o).world.store.available = o.world.store.available := by
  induction served generalizing o with
  | nil => exact ⟨rfl, rfl⟩
  | cons h served ih =>
    obtain ⟨watcher, available⟩ := ih (m.work o h)
    obtain ⟨watcher', available'⟩ := frame_work hm o h
    exact ⟨watcher.trans watcher', available.trans available'⟩

theorem Shown.settle (hm : m.InMemory) (rounds : Nat) (h : Shown m o) :
    Shown m (m.settle rounds o) := by
  induction rounds generalizing o with
  | zero => exact h
  | succ rounds ih =>
    unfold Manager.settle
    dsimp only
    -- a round: timers fire, events are followed, and those in line work
    have followed := (h.advance o.schedule.time).follow hm
    generalize m.follow _ = o₁ at followed ⊢
    obtain ⟨d, ⟨opening, opens, turns⟩, shows, watcher, available⟩ := followed
    have orderly := (orderly_reached ⟨opening, opens, turns⟩).queue
    obtain ⟨handed, hands, d₁, gets, seen, holds⟩ := shows_deliver orderly shows
    rw [hands]
    split
    · rename_i nobody
      have none : handed = [] := by
        cases handed with
        | nil => rfl
        | cons => cases nobody
      subst none
      exact ⟨d₁, ⟨opening, opens, turns.trans gets⟩, holds, by rw [seen]; exact watcher, available⟩
    · obtain ⟨d₂, works, seen', rests⟩ := shows_works hm handed holds
      obtain ⟨watcher', available'⟩ := frame_works hm (handed.map fun h => (h.1, .key h.2))
        { o₁ with schedule := o₁.schedule.deliver.2 }
      refine ih ⟨d₂, ⟨opening, opens, (turns.trans gets).trans works⟩, rests, ?_, ?_⟩
      · rw [seen', seen]
        exact watcher'.trans watcher
      · exact available'.trans available

theorem Shown.elapse (hm : m.InMemory) (rounds : Nat) (time : Span) (steps : Nat)
    (h : Shown m o) : Shown m (m.elapse rounds time steps o) := by
  have clock {o : Operation Unit} (h : Shown m o) (time : Span) :
      Shown m { o with schedule := { o.schedule with time } } := by
    obtain ⟨d, reached, shows, watcher, available⟩ := h
    exact ⟨d, reached, ⟨shows.world, ⟨shows.tallies.1, shows.tallies.2⟩, shows.follower,
      shows.workers⟩, watcher, available⟩
  induction steps generalizing o with
  | zero => exact h
  | succ steps ih =>
    unfold Manager.elapse
    dsimp only
    have settled := h.settle hm rounds
    split
    · split
      · exact ih (clock settled _)
      · exact clock settled time
    · exact clock settled time

/-- What becomes of a manager while users edit resources and time passes. The store stays
available. -/
inductive Operates (m : Manager Unit) : Operation Unit → Prop where
  | start (w : World Unit) (available : w.store.available = true)
      (store : ReflTransGen (Evolves m.filter.intake fun _ _ => True) .empty w.store) :
      Operates m (m.start w)
  | edit (o : Operation Unit) (e : Edit) (within : e.Within m.filter.intake)
      (available : (e.apply o.world.store).available = true) (h : Operates m o) :
      Operates m { o with world := { o.world with store := e.apply o.world.store } }
  | settle (o : Operation Unit) (rounds : Nat) (h : Operates m o) :
      Operates m (m.settle rounds o)
  | elapse (o : Operation Unit) (rounds : Nat) (time : Span) (steps : Nat) (h : Operates m o) :
      Operates m (m.elapse rounds time steps o)

/-- Wherever a manager comes to, a dispatch comes to as well. -/
theorem shown_of_operates (hm : m.InMemory) (h : Operates m o) : Shown m o := by
  induction h with
  | start w available store => exact shown_start hm available store
  | edit o e within available _ ih => exact ih.edit within available
  | settle o rounds _ ih => exact ih.settle hm rounds
  | elapse o rounds time steps _ ih => exact ih.elapse hm rounds time steps

/-- Of a manager that has nothing left to do for a key, nothing is asked for its Promotion. -/
theorem rested_of_operates (hm : m.InMemory) (h : Operates m o) {k : Key}
    (unwanted : ¬ o.schedule.queue.Wants k) (free : ¬ o.schedule.queue.Holds k)
    (later : k ∉ o.schedule.later.map Prod.snd)
    (told : ∀ w, o.watcher = some w → ¬ o.world.store.Due m.filter w.seen k) :
    o.world.store.Rested k := by
  obtain ⟨d, reached, shows, watcher, _⟩ := shown_of_operates hm h
  have calm := (orderly_reached reached).calm k (by rw [shows.tallies.queue]; exact free)
  rw [Calm, Stirred, shows.world, shows.follower, shows.tallies.queue,
    shows.tallies.timers.mem_iff] at calm
  rcases calm with (wants | timer | due | owes) | rested
  · exact absurd wants unwanted
  · exact absurd timer later
  · exact absurd due (told _ watcher)
  · exact owes.elim
  · exact rested

end Manager

end Drayage
