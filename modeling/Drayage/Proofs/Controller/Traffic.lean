import Drayage.Proofs.Controller.Exchange
import Drayage.Proofs.Controller.Reconciling
import Mathlib.Data.List.Forall2

/-!
# Traffic

Any number of calls of a controller are under way at the same time, and users edit
resources in between. A call may wait at any of its requests for as long as it likes, and
one that is never answered again is a call that was cut off.
-/

namespace Drayage

open Relation Standing Store
open scoped List

/-- What is left open: how the engine answers, and what users write. -/
structure Surroundings where
  engine : PromotionContext → List Step → EngineAnswer → Prop
  intake : Intake

/-- The terms on which statuses are kept as `K` says. -/
def Surroundings.terms (S : Surroundings) (K : PromotionSpec → PromotionStatus → Prop) : Terms :=
  ⟨K, S.engine⟩

/-- A call under way: what it still has to do, the changes it made, and the notices it
emitted. -/
structure Call where
  rest : Program Ending
  changes : List (Change Promotion)
  notices : List Notice

namespace Call

def start (x : Program Ending) : Call := ⟨x, [], []⟩

/-- The Promotions that a call ended, as it wrote them. -/
def ended (call : Call) : List Promotion := (call.changes.filter Change.ends).map Change.new

/-- The call after an answer that took the world from `w` to `w'`. -/
def resume (call : Call) (w w' : World Unit) (rest : Program Ending) : Call where
  rest := rest
  changes := call.changes ++ w.store.changesUpTo w'.store
  notices := call.notices ++ w.noticesUpTo w'

end Call

structure Traffic where
  world : World Unit
  calls : List Call

namespace Traffic

/-- Nothing was stored, emitted or called yet. -/
def Opens (t : Traffic) : Prop :=
  t.world.store = .empty ∧ t.world.notices = #[] ∧ t.calls = []

inductive Turn (S : Surroundings) : Traffic → Traffic → Prop where
  | reconcile (w : World Unit) (calls : List Call) (c : Reconciler) (key : Key) :
      Turn S ⟨w, calls⟩ ⟨w, calls ++ [.start (c.reconcile key)]⟩
  /-- A call to end a Promotion that was read at some time before. -/
  | abort (w : World Unit) (calls : List Call) (c : Reconciler) (request : AbortRequest)
      (freight : Option Freight) (read : Change Promotion) (h : read ∈ w.store.changes) :
      Turn S ⟨w, calls⟩ ⟨w, calls ++ [.start (c.abort request read.new freight)]⟩
  | answer (w w' : World Unit) (front back : List Call) (call : Call) (r : Request)
      (next : r.Answer → Program Ending) (a : r.Answer) (asks : call.rest = .ask r next)
      (h : w.Answers S.engine r a w') :
      Turn S ⟨w, front ++ call :: back⟩ ⟨w', front ++ call.resume w w' (next a) :: back⟩
  | edit (w : World Unit) (calls : List Call) (e : Edit) (h : e.Within S.intake) :
      Turn S ⟨w, calls⟩ ⟨{ w with store := e.apply w.store }, calls⟩
  | disturb (w : World Unit) (calls : List Call) (clock : Instant) (workspaces : Workspaces) :
      Turn S ⟨w, calls⟩ ⟨{ w with clock, workspaces }, calls⟩

/-- What can come about from the beginning. -/
def Reached (S : Surroundings) (t : Traffic) : Prop := ∃ o, o.Opens ∧ ReflTransGen (Turn S) o t

end Traffic

namespace Standing

/-- The notice that is owed, as the Promotion it is about. -/
def owed : Standing → List Promotion
  | .owing p => [p]
  | .unread _ | .holding _ | .parked _ | .closed => []

theorem owed_eq_nil {g : Standing} (h : ∀ p, g ≠ .owing p) : g.owed = [] := by
  cases g with
  | owing p => exact absurd rfl (h p)
  | unread | holding | parked | closed => rfl

theorem owed_of_ends {T : Terms} {e : Ending} {g : Standing} (h : Ends T e g) :
    g.owed = [] := by
  match e, h with
  | .finished none, .inl h => rw [h]; rfl
  | .finished none, .inr (.inl ⟨p, h⟩) => rw [h]; rfl
  | .finished none, .inr (.inr ⟨p, h, _⟩) => rw [h]; rfl
  | .finished (some _), h => exact owed_eq_nil h
  | .failed _, h => exact owed_eq_nil h
  | .crashed _, h => exact owed_eq_nil h

variable {ε : Type} {T : Terms} {w w' : World ε} {g : Standing} {r : Request} {a : r.Answer}

/-- Whoever makes a Promotion end owes the notice of it, until it is emitted. -/
theorem Exchange.owes (hs : w.store.Sound) (hg : g.Backed w.store)
    (h : Exchange T w g r a w') : ∃ told,
      g.owed ++ ((w.store.changesUpTo w'.store).filter Change.ends).map Change.new =
        told ++ (g.after r a).owed ∧ List.Forall₂ Notice.Announces (w.noticesUpTo w') told := by
  have quiet {u : World ε} (notices : u.notices = w.notices) :
      List.Forall₂ Notice.Announces (w.noticesUpTo u) [] := by
    rw [World.noticesUpTo_of_eq notices]
    exact .nil
  -- most exchanges end nothing and announce nothing
  have still {s : Store} (changes : (w.store.changesUpTo s).filter Change.ends = [])
      {u : World ε} (notices : u.notices = w.notices) (owed : (g.after r a).owed = g.owed) :
      ∃ told, g.owed ++ ((w.store.changesUpTo s).filter Change.ends).map Change.new =
        told ++ (g.after r a).owed ∧ List.Forall₂ Notice.Announces (w.noticesUpTo u) told := by
    refine ⟨[], ?_, quiet notices⟩
    rw [changes, owed]
    exact List.append_nil _
  have same : (w.store.changesUpTo w.store).filter Change.ends = [] :=
    (Edited.same (I := .any)).ends_eq_nil
  cases h with
  | aside g r a h workspaces => exact still same rfl (by rw [after_aside h])
  | read key =>
    refine still same rfl ?_
    rcases w.store.getPromotion key with e | _ | p
    · rfl
    · rfl
    · show (if p.status.isTerminal then Standing.closed else .holding p).owed = []
      split <;> rfl
  | gated p unaborted =>
    refine still same rfl ?_
    rcases w.store.getStage ⟨p.metadata.project, p.spec.stage⟩ with e | _ | stage
    · rfl
    · rfl
    · show (if stage.currentPromotionName = some p.metadata.name then Standing.holding p
        else .parked p).owed = []
      split <;> rfl
  | promoted p ctx steps a h => exact still same rfl rfl
  | refused p status e h =>
    refine still same rfl ?_
    cases e <;> rfl
  | reverified g key a =>
    refine still (edited_requestReverification (I := .any) hs key w.clock).ends_eq_nil rfl ?_
    cases g <;> rfl
  | announced p n h =>
    refine ⟨[p], ?_, ?_⟩
    · show [p] ++ ((w.store.changesUpTo w.store).filter Change.ends).map Change.new = [p] ++ []
      rw [same]
      rfl
    · rw [World.noticesUpTo_push]
      exact .cons h .nil
  | wrote p status stored kept fit =>
    refine ⟨[], ?_, quiet rfl⟩
    show ((w.store.changesUpTo (w.store.writePromotion (some p) _)).filter Change.ends).map
      Change.new = (if status.isTerminal then Standing.owing _ else .holding _).owed
    -- what is held had not ended, so a terminal status is an ending, and is owed
    rw [ends_writePromotion hg.2]
    cases status.isTerminal <;> rfl

end Standing

namespace Call

/-- A call keeps to the rules from where it stands, and has announced everything that it
ended but for what it owes. -/
def Stands (T : Terms) (s : Store) (call : Call) (g : Standing) : Prop :=
  call.rest.Obeys (rules T) (Ends T) g ∧ g.Backed s ∧
    ∃ told, call.ended = told ++ g.owed ∧ List.Forall₂ Notice.Announces call.notices told

variable {T : Terms} {call : Call} {g : Standing}

theorem stands_start {s : Store} {x : Program Ending} (hx : x.Obeys (rules T) (Ends T) g)
    (hg : g.Backed s) (owed : g.owed = []) : (start x).Stands T s g :=
  ⟨hx, hg, [], by rw [owed]; rfl, .nil⟩

theorem Stands.grow {s s' : Store} (h : call.Stands T s g) (hs : s.Grows s') :
    call.Stands T s' g :=
  ⟨h.1, h.2.1.grow hs, h.2.2⟩

theorem Stands.exchange {w : World Unit} (h : call.Stands T w.store g) {r : Request}
    {next : r.Answer → Program Ending} (asks : call.rest = .ask r next)
    (hs : w.store.Sound) {a : r.Answer} {w' : World Unit} (ha : w.Answers T.engine r a w') :
    g.Exchange T w r a w' := by
  have obeys := h.1
  rw [asks] at obeys
  exact exchange_of_answers hs h.2.1 obeys.1 ha

theorem Stands.resume {w : World Unit} (h : call.Stands T w.store g) {r : Request}
    {next : r.Answer → Program Ending} (asks : call.rest = .ask r next)
    (hs : w.store.Historic T.keeps) {a : r.Answer} {w' : World Unit}
    (hx : g.Exchange T w r a w') :
    (call.resume w w' (next a)).Stands T w'.store (g.after r a) := by
  obtain ⟨obeys, hg, told, hended, hnotices⟩ := h
  rw [asks] at obeys
  refine ⟨obeys.2 a (hx.expects hs.sound hs.kept hg), hx.backed hs.sound hg, ?_⟩
  obtain ⟨told', howed, hnew⟩ := hx.owes hs.sound hg
  refine ⟨told ++ told', ?_, List.rel_append hnotices hnew⟩
  calc (call.resume w w' (next a)).ended
      = call.ended ++ ((w.store.changesUpTo w'.store).filter Change.ends).map Change.new := by
        simp [ended, Call.resume]
    _ = told ++ (told' ++ (g.after r a).owed) := by rw [hended, List.append_assoc, howed]
    _ = told ++ told' ++ (g.after r a).owed := (List.append_assoc _ _ _).symm

end Call

namespace Traffic

variable {S : Surroundings} {K : PromotionSpec → PromotionStatus → Prop} {t t' : Traffic}

theorem turns_edits (w : World Unit) (calls : List Call) {es : List Edit}
    (h : ∀ e ∈ es, e.Within S.intake) : ReflTransGen (Turn S) ⟨w, calls⟩
      ⟨{ w with store := es.foldl Edit.apply w.store }, calls⟩ := by
  induction es generalizing w with
  | nil => exact .refl
  | cons e es ih =>
    have turn := Turn.edit (S := S) w calls e (h e List.mem_cons_self)
    exact .head turn (ih _ fun e he => h e (List.mem_cons_of_mem _ he))

/-- A call can be answered to its end while nothing else happens. -/
theorem turns_run {engine : Engine (World Unit)} (hengine : ∀ ctx steps w,
    S.engine ctx steps (engine ctx steps w).1 ∧ (engine ctx steps w).2 = w)
    (front back : List Call) (w : World Unit) (call : Call) :
    ∃ call', call'.rest = .done (call.rest.run (World.perform engine) w).1 ∧
      ReflTransGen (Turn S) ⟨w, front ++ call :: back⟩
        ⟨(call.rest.run (World.perform engine) w).2, front ++ call' :: back⟩ := by
  generalize hx : call.rest = x
  -- by induction on what is left of the call, with a turn for each request
  induction x generalizing w call with
  | done e => exact ⟨call, hx, .refl⟩
  | ask r next ih =>
    let served := World.perform engine r w
    have answered : w.Answers S.engine r served.1 served.2 :=
      ⟨engine, rfl, fun ctx steps _ => hengine ctx steps w⟩
    have turn := Turn.answer w served.2 front back call r next served.1 hx answered
    obtain ⟨call', hdone, turns⟩ := ih served.1 served.2
      (call.resume w served.2 (next served.1)) rfl
    exact ⟨call', hdone, .head turn turns⟩

/-- What every turn preserves. -/
structure Orderly (S : Surroundings) (K : PromotionSpec → PromotionStatus → Prop)
    (t : Traffic) : Prop where
  historic : t.world.store.Historic K
  calls : ∀ call ∈ t.calls, ∃ g, call.Stands (S.terms K) t.world.store g
  /-- Nobody but the calls ends a Promotion. -/
  endings : (t.world.store.changes.filter Change.ends).Perm
    (t.calls.flatMap fun call => call.changes.filter Change.ends)
  /-- Nobody but the calls emits notices. -/
  notices : t.world.notices.toList.Perm (t.calls.flatMap Call.notices)

theorem orderly_opening (h : t.Opens) : t.Orderly S K := by
  obtain ⟨w, calls⟩ := t
  obtain ⟨hstore, hnotices, hcalls⟩ := h
  dsimp only at hstore hnotices hcalls
  subst hcalls
  refine ⟨?_, fun call hcall => (List.not_mem_nil hcall).elim, ?_, ?_⟩
  · rw [hstore]
    exact historic_empty
  · rw [hstore]
    exact .nil
  · rw [hnotices]
    exact .nil

/-- What is added to one of several lists is added to all of them together. -/
theorem flatMap_perm {α β : Type} (f : α → List β) {l new : List β} {front back : List α}
    {x y : α} (h : l.Perm ((front ++ x :: back).flatMap f)) (hy : f y = f x ++ new) :
    (l ++ new).Perm ((front ++ y :: back).flatMap f) := by
  rw [List.flatMap_append, List.flatMap_cons] at h ⊢
  rw [hy]
  calc l ++ new ~ front.flatMap f ++ (f x ++ back.flatMap f) ++ new := h.append_right new
    _ = front.flatMap f ++ (f x ++ (back.flatMap f ++ new)) := by
      rw [List.append_assoc, List.append_assoc]
    _ ~ front.flatMap f ++ (f x ++ (new ++ back.flatMap f)) :=
      (List.perm_append_comm.append_left _).append_left _
    _ = front.flatMap f ++ (f x ++ new ++ back.flatMap f) := by rw [List.append_assoc]

/-- A new call has changed nothing and said nothing. -/
theorem flatMap_start {α : Type} (f : Call → List α) (calls : List Call) (call : Call)
    (h : f call = []) : (calls ++ [call]).flatMap f = calls.flatMap f := by
  rw [List.flatMap_append, List.flatMap_singleton, h, List.append_nil]

theorem evolves_turn (ho : t.Orderly S K) (h : Turn S t t') :
    Evolves S.intake K t.world.store t'.world.store := by
  cases h with
  | reconcile w calls c key => exact .edited .same
  | abort w calls c request freight read h => exact .edited .same
  | disturb w calls clock workspaces => exact .edited .same
  | edit w calls e h => exact .edited (edited_apply ho.historic.sound h)
  | answer w w' front back call r next a asks h =>
    obtain ⟨g, stands⟩ := ho.calls call (List.mem_append_right _ List.mem_cons_self)
    have sound := ho.historic.sound
    exact (stands.exchange asks sound h).evolves sound stands.2.1

theorem Orderly.start (ho : t.Orderly S K) {x : Program Ending} {g : Standing}
    (hx : x.Obeys (rules (S.terms K)) (Ends (S.terms K)) g) (hg : g.Backed t.world.store)
    (owed : g.owed = []) : Orderly S K ⟨t.world, t.calls ++ [.start x]⟩ where
  historic := ho.historic
  calls call hcall := by
    rcases List.mem_append.mp hcall with hcall | hcall
    · exact ho.calls call hcall
    · cases List.mem_singleton.mp hcall
      exact ⟨g, Call.stands_start hx hg owed⟩
  endings := by
    rw [flatMap_start _ t.calls (.start x) rfl]
    exact ho.endings
  notices := by
    rw [flatMap_start _ t.calls (.start x) rfl]
    exact ho.notices

theorem Orderly.answer {w w' : World Unit} {front back : List Call} {call : Call}
    (ho : Orderly S K ⟨w, front ++ call :: back⟩) (historic : w'.store.Historic K)
    (evolves : Evolves S.intake K w.store w'.store) {r : Request}
    {next : r.Answer → Program Ending} {a : r.Answer} (asks : call.rest = .ask r next)
    (h : w.Answers S.engine r a w') :
    Orderly S K ⟨w', front ++ call.resume w w' (next a) :: back⟩ := by
  have sound := ho.historic.sound
  obtain ⟨g, stands⟩ := ho.calls call (List.mem_append_right _ List.mem_cons_self)
  have hx := stands.exchange asks sound h
  refine ⟨historic, fun other hother => ?_, ?_, ?_⟩
  -- the others stand as before, for the store has only grown
  · have untouched : other ∈ front ++ call :: back →
        ∃ g, other.Stands (S.terms K) w'.store g := by
      intro hother
      obtain ⟨g, hg⟩ := ho.calls other hother
      exact ⟨g, hg.grow evolves.grows⟩
    rcases List.mem_append.mp hother with hother | hother
    · exact untouched (List.mem_append_left _ hother)
    · rcases List.mem_cons.mp hother with rfl | hother
      · exact ⟨_, stands.resume asks ho.historic hx⟩
      · exact untouched (List.mem_append_right _ (List.mem_cons_of_mem _ hother))
  · show (w'.store.changes.filter Change.ends) ~ _
    rw [evolves.logs.changes, List.filter_append]
    exact flatMap_perm _ ho.endings (List.filter_append _ _)
  · show w'.notices.toList ~ _
    rw [hx.notices]
    exact flatMap_perm _ ho.notices rfl

theorem orderly_turn (hT : (S.terms K).Lasting)
    (hI : ∀ p, S.intake.promotion p → K p.spec p.status) (ho : t.Orderly S K)
    (h : Turn S t t') : t'.Orderly S K := by
  have evolves := evolves_turn ho h
  have historic := ho.historic.evolve hI evolves
  cases h with
  | reconcile w calls c key => exact ho.start (c.obeys_reconcile hT key) trivial rfl
  | abort w calls c request freight read h =>
    -- whatever was read at some time is still pinned by its version
    obtain ⟨pins, kept⟩ := ho.historic.read read h
    refine ho.start (c.obeys_abort hT request freight kept) ?_ ?_
    · split
      · trivial
      · rename_i unended
        exact ⟨pins, Bool.eq_false_iff.mpr unended⟩
    · split <;> rfl
  | answer w w' front back call r next a asks h => exact ho.answer historic evolves asks h
  | edit w calls e h =>
    have edited := edited_apply ho.historic.sound h
    refine ⟨historic, fun call hcall => ?_, ?_, ho.notices⟩
    · obtain ⟨g, hg⟩ := ho.calls call hcall
      exact ⟨g, hg.grow edited.grows⟩
    · show ((e.apply w.store).changes.filter Change.ends) ~ _
      rw [edited.logs.changes, List.filter_append, edited.ends_eq_nil, List.append_nil]
      exact ho.endings
  | disturb w calls clock workspaces =>
    exact ⟨ho.historic, ho.calls, ho.endings, ho.notices⟩

theorem orderly_turns (hT : (S.terms K).Lasting)
    (hI : ∀ p, S.intake.promotion p → K p.spec p.status) (ho : t.Orderly S K)
    (h : ReflTransGen (Turn S) t t') :
    t'.Orderly S K ∧ ReflTransGen (Evolves S.intake K) t.world.store t'.world.store := by
  induction h with
  | refl => exact ⟨ho, .refl⟩
  | tail _ turn ih => exact ⟨orderly_turn hT hI ih.1 turn, ih.2.tail (evolves_turn ih.1 turn)⟩

theorem orderly_reached (hT : (S.terms K).Lasting)
    (hI : ∀ p, S.intake.promotion p → K p.spec p.status) (h : Reached S t) :
    t.Orderly S K := by
  obtain ⟨o, opens, turns⟩ := h
  exact (orderly_turns hT hI (orderly_opening opens) turns).1

theorem Reached.turns (h : Reached S t) (turns : ReflTransGen (Turn S) t t') : Reached S t' := by
  obtain ⟨o, opens, early⟩ := h
  exact ⟨o, opens, early.trans turns⟩

theorem Reached.sound (h : Reached S t) : t.world.store.Sound :=
  (orderly_reached (Terms.lasting_true S.engine) (fun _ _ => trivial) h).historic.sound

/-- What could be told apart by its version still can. -/
theorem Reached.pins (h : Reached S t) (turns : ReflTransGen (Turn S) t t') {p : Promotion}
    (pins : t.world.store.Pins p) : t'.world.store.Pins p := by
  have lasting := Terms.lasting_true S.engine
  have orderly := orderly_reached lasting (fun _ _ => trivial) h
  exact pins_of_evolves (orderly_turns lasting (fun _ _ => trivial) orderly turns).2 pins

end Traffic

end Drayage
