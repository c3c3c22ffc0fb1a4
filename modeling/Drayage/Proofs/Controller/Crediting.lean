import Drayage.Proofs.Controller.Account
import Drayage.Proofs.Controller.Chronicle
import Drayage.Proofs.Controller.Shape

/-!
# Health checks are neither lost nor repeated

While calls and edits take turns, a log is kept of all trials that the engine makes of
steps. Every status that is ever stored can be vouched for by some of them: they were made
for its Promotion one after another, each left the record of one completed step, and the
health checks of the status are those that they emitted.
-/

namespace Drayage

open Relation Store

namespace Promotion

variable {log : List Trial} {p : Promotion} {t : Tally}

/-- Some trials stand for a tally of a Promotion: one for each completed step, in the order
of the steps and of time. -/
def Vouched (log : List Trial) (p : Promotion) (t : Tally) : Prop :=
  ∃ ts : List Trial, ts.Sublist log ∧
    (∀ a ∈ ts, a.context.IsFor p ∧
      (Step.ofDeclaredSteps p.spec.steps)[a.index]? = some a.step) ∧
    Sequential.Credited ts t.completed t.checks

theorem vouched_empty : p.Vouched log .empty :=
  ⟨[], List.nil_sublist log, fun _ ha => (List.not_mem_nil ha).elim, .nil, rfl⟩

theorem Vouched.grow (h : p.Vouched log t) (new : List Trial) : p.Vouched (log ++ new) t := by
  obtain ⟨ts, noted, made, credited⟩ := h
  exact ⟨ts, noted.trans (List.sublist_append_left log new), made, credited⟩

/-- A call of the engine adds what its trials completed. -/
theorem Vouched.promoted {σ : Type} {env : Sequential.Setting σ} {ctx : PromotionContext}
    {x : σ} (h : p.Vouched log t) (own : ctx.IsFor p)
    {records : List (StepRecord × Nat)} {checks : List HealthCheck}
    (credited : Sequential.Credited ((Sequential.trials env ctx
      (Step.ofDeclaredSteps p.spec.steps) x).filter Trial.isCompleted) records checks) :
    p.Vouched (log ++ Sequential.trials env ctx (Step.ofDeclaredSteps p.spec.steps) x)
      ⟨t.completed ++ records, t.checks ++ checks⟩ := by
  obtain ⟨ts, noted, made, before⟩ := h
  refine ⟨_, noted.append List.filter_sublist, fun a ha => ?_, before.append credited⟩
  rcases List.mem_append.mp ha with ha | ha
  · exact made a ha
  · obtain ⟨same, found⟩ := Sequential.trials_cases (List.mem_filter.mp ha).1
    rw [same]
    exact ⟨own, found⟩

end Promotion

namespace Store

variable {log : List Trial} {s s' : Store}

/-- All statuses that are stored, or were at some time, can be vouched for. -/
structure Vouched (log : List Trial) (s : Store) : Prop where
  stored : ∀ k p, s.promotions.get? k = some p → p.Vouched log p.status.tally
  published : ∀ c ∈ s.changes, c.new.Vouched log c.new.status.tally

theorem vouched_opening : Store.empty.Vouched log where
  stored k p h := by cases h
  published c hc := by cases hc

theorem Vouched.grow (h : s.Vouched log) (new : List Trial) : s.Vouched (log ++ new) where
  stored k p hp := (h.stored k p hp).grow new
  published c hc := (h.published c hc).grow new

theorem vouched_writePromotion (h : s.Vouched log) {old : Option Promotion} {p : Promotion}
    (hp : p.Vouched log p.status.tally) : (s.writePromotion old p).Vouched log where
  stored k q hq := by
    rcases writePromotion_cases hq with ⟨_, rfl⟩ | hq
    · exact hp
    · exact h.stored k q hq
  published c hc := by
    rw [changes_writePromotion] at hc
    rcases List.mem_append.mp hc with hc | hc
    · exact h.published c hc
    · rw [List.mem_singleton.mp hc]
      cases old <;> exact hp

theorem Vouched.unchanged (h : s.Vouched log) (promotions : s'.promotions = s.promotions)
    (changes : s'.changes = s.changes) : s'.Vouched log where
  stored k p hp := h.stored k p (promotions ▸ hp)
  published c hc := h.published c (changes ▸ hc)

/-- Those who do not reconcile complete no steps. -/
theorem Edited.vouched (h : s.Vouched log) (he : Edited Traffic.sequential.intake s s') :
    s'.Vouched log := by
  cases he with
  | same => exact h
  | available b => exact h.unchanged rfl rfl
  | created p candidate allowed absent =>
    refine vouched_writePromotion h ?_
    show Promotion.Vouched log _ p.status.tally
    rw [show p.status = .initial from allowed]
    exact Promotion.vouched_empty
  | annotated old mark value stored => exact vouched_writePromotion h (h.stored _ old stored)
  | deleted p stored =>
    refine ⟨fun k q hq => h.stored k q (get?_of_removePromotion hq), fun c hc => ?_⟩
    rw [changes_removePromotion] at hc
    rcases List.mem_append.mp hc with hc | hc
    · exact h.published c hc
    · rw [List.mem_singleton.mp hc]
      exact h.stored _ p stored
  | put stage candidate allowed => exact h.unchanged rfl (changes_writeStage _ _)
  | marked old m stored key labels => exact h.unchanged rfl (changes_writeStage _ _)
  | freight old freight => exact h.unchanged rfl (changes_writeFreight _ _)

end Store

namespace Account

variable {log : List Trial} {s s' : Store} {g : Account}

/-- What is known of a Promotion that was read can be vouched for, and so can what the engine
came to. -/
def Backed (log : List Trial) (s : Store) : Account → Prop
  | holding p | inside p _ => s.Pins p ∧ p.Vouched log p.status.tally
  | answered p t => s.Pins p ∧ p.Vouched log p.status.tally ∧ p.Vouched log t
  | unread | closed => True

theorem Backed.grow (h : g.Backed log s) (grows : s.Grows s') (new : List Trial) :
    g.Backed (log ++ new) s' := by
  cases g with
  | holding p => exact ⟨h.1.grow grows, h.2.grow new⟩
  | inside p fresh => exact ⟨h.1.grow grows, h.2.grow new⟩
  | answered p t => exact ⟨h.1.grow grows, h.2.1.grow new, h.2.2.grow new⟩
  | unread | closed => trivial

theorem Backed.later (h : g.Backed log s) (grows : s.Grows s') : g.Backed log s' := by
  have := h.grow grows []
  rwa [List.append_nil] at this

theorem vouched_opening {p : Promotion} (h : p.Vouched log p.status.tally) (fresh : Bool) :
    p.Vouched log (opening p fresh) := by
  cases fresh with
  | true => exact Promotion.vouched_empty
  | false => exact h

end Account

/-- Traffic in which no engine ever answers. -/
def Traffic.unattended : Surroundings := ⟨fun _ _ _ => False, sequential.intake⟩

namespace Account

variable {log : List Trial} {w w' : World Unit} {g : Account} {r : Request} {a : r.Answer}

/-- A status that is written over a Promotion that is known can be vouched for. -/
theorem wrote (hs : w.store.Sound) (hv : w.store.Vouched log) {p : Promotion}
    (pins : w.store.Pins p) {status : PromotionStatus} (told : p.Vouched log status.tally)
    {v : Nat} {s : Store}
    (h : w.store.updateStatus p.key p.metadata.version status = .ok (v, s)) :
    s.Vouched log ∧ w.store.Grows s ∧ s.Pins (p.withStatus v status) := by
  obtain ⟨old, stored, _, hv', _, rfl, rfl⟩ := updateStatus_ok hs h
  -- the version pins the value that is held, so this is what was replaced
  cases pins.2 old stored hv'
  exact ⟨vouched_writePromotion hv told, grows_writePromotion rfl, pins_writePromotion _ rfl⟩

theorem answered_idle (hs : w.store.Sound) (hv : w.store.Vouched log)
    (hg : g.Backed log w.store) (idle : Idle r)
    (h : w.Answers Traffic.unattended.engine r a w') :
    w'.store.Vouched log ∧ (g.after r a).Backed log w'.store := by
  obtain ⟨engine, h, _⟩ := h
  rw [after_idle idle]
  have still (same : w'.store = w.store) :
      w'.store.Vouched log ∧ g.Backed log w'.store := by
    rw [same]
    exact ⟨hv, hg⟩
  cases r with
  | now => cases h; exact still rfl
  | getStage key => cases h; exact still rfl
  | getFreight key => cases h; exact still rfl
  | listPromotions => cases h; exact still rfl
  | emit notice => cases h; exact still rfl
  | release uid =>
    unfold World.perform World.release at h
    dsimp only at h
    split at h <;> (cases h; exact still rfl)
  | requestReverification key =>
    have h : World.attempt (·.requestReverification key w.clock) w = (a, w') := h
    have after := World.snd_attempt (·.requestReverification key w.clock) w
    rw [h] at after
    cases show w' = _ from after
    have edited := edited_requestReverification (I := Traffic.sequential.intake) hs key w.clock
    exact ⟨edited.vouched hv, hg.later edited.grows⟩
  | getPromotion | updateStatus | acquire | promote => exact idle.elim

theorem answered_read (hs : w.store.Sound) (hv : w.store.Vouched log) (key : Key) :
    (unread.after (.getPromotion key) (w.store.getPromotion key)).Backed log w.store := by
  unfold Store.getPromotion whenAvailable
  split
  · cases hp : w.store.promotions.get? key with
    | none => trivial
    | some p => exact ⟨pins_of_stored hs hp, hv.stored key p hp⟩
  · trivial

theorem answered_write (hs : w.store.Sound) (hv : w.store.Vouched log)
    (hg : g.Backed log w.store) {key : Key} {version : Nat} {status : PromotionStatus}
    (may : g.may (.updateStatus key version status)) {a : Except StoreError Nat}
    (h : World.attempt (·.updateStatus key version status) w = (a, w')) :
    w'.store.Vouched log ∧
      (g.after (.updateStatus key version status) a).Backed log w'.store := by
  unfold World.attempt at h
  cases g with
  | unread | inside | closed => exact may.elim
  | holding p =>
    obtain ⟨rfl, rfl, same⟩ := may
    have told : p.Vouched log status.tally := same ▸ hg.2
    split at h
    · rename_i v s written
      cases h
      obtain ⟨vouched, _, pins⟩ := wrote hs hv hg.1 told written
      exact ⟨vouched, pins, told⟩
    · cases h
      exact ⟨hv, hg⟩
  | answered p t =>
    obtain ⟨rfl, rfl, tally⟩ := may
    have told : p.Vouched log status.tally := by
      rcases tally with same | same
      · exact same ▸ hg.2.1
      · exact same ▸ hg.2.2
    split at h
    · rename_i v s written
      cases h
      exact ⟨(wrote hs hv hg.1 told written).1, trivial⟩
    · cases h
      exact ⟨hv, hg⟩

/-- What a reconcile knows can be vouched for, whatever it is answered, as long as it does not
call the engine. -/
theorem answered_aside (hs : w.store.Sound) (hv : w.store.Vouched log)
    (hg : g.Backed log w.store) (may : g.may r)
    (h : w.Answers Traffic.unattended.engine r a w') :
    w'.store.Vouched log ∧ (g.after r a).Backed log w'.store := by
  cases r with
  | now | getStage | getFreight | listPromotions | emit | release | requestReverification =>
    exact answered_idle hs hv hg trivial h
  | promote ctx steps =>
    obtain ⟨engine, _, answers⟩ := h
    exact (answers ctx steps rfl).1.elim
  | getPromotion key =>
    obtain ⟨engine, h, _⟩ := h
    cases h
    cases g with
    | unread => exact ⟨hv, answered_read hs hv key⟩
    | holding | inside | answered | closed => exact may.elim
  | acquire uid =>
    obtain ⟨engine, h, _⟩ := h
    cases g with
    | holding p =>
      unfold World.perform World.acquire at h
      dsimp only at h
      split at h <;> (cases h; exact ⟨hv, hg⟩)
    | unread | inside | answered | closed => exact may.elim
  | updateStatus key version status =>
    obtain ⟨engine, h, _⟩ := h
    exact answered_write hs hv hg may h

/-- What the engine comes to can be vouched for together with its trials. -/
theorem answered_promote {σ : Type} (env : Sequential.Setting σ) (x : σ) {s : Store}
    (hg : g.Backed log s) {ctx : PromotionContext} {steps : List Step}
    (may : g.may (.promote ctx steps))
    (resumable : Resumable steps.length ctx.start ctx.records) :
    (g.after (.promote ctx steps) (Sequential.promote env ctx steps x).1).Backed
      (log ++ Sequential.trials env ctx steps x) s := by
  cases g with
  | unread | holding | answered | closed => exact may.elim
  | inside p fresh =>
    obtain ⟨own, rfl, resumed⟩ := may
    obtain ⟨pins, told⟩ := hg
    have before := vouched_opening told fresh
    have records : completions ctx.records 0 = (opening p fresh).completed := by
      rw [resumed]
      cases fresh <;> rfl
    cases h : (Sequential.promote env ctx (Step.ofDeclaredSteps p.spec.steps) x).1 with
    | crashed crash => exact ⟨pins, told.grow _, told.grow _⟩
    | error e => exact ⟨pins, told.grow _, before.grow _⟩
    | result r =>
      obtain ⟨new, completed, credited⟩ := Sequential.credited_promote env resumable x h
      refine ⟨pins, told.grow _, ?_⟩
      rw [completed, records]
      exact before.promoted own credited

end Account

/-- Traffic, and all trials that the engine has made in it. -/
structure Logged where
  traffic : Traffic
  log : List Trial

namespace Logged

inductive Turn : Logged → Logged → Prop where
  /-- Anything but an answer of the engine. -/
  | aside (t t' : Traffic) (log : List Trial) (h : Traffic.Turn Traffic.unattended t t') :
      Turn ⟨t, log⟩ ⟨t', log⟩
  /-- The engine answers, with some runners, clock and credentials. -/
  | promoted {σ : Type} (env : Sequential.Setting σ) (x : σ) (w : World Unit)
      (front back : List Call) (call : Call) (log : List Trial) (ctx : PromotionContext)
      (steps : List Step) (next : EngineAnswer → Program Ending)
      (asks : call.rest = .ask (.promote ctx steps) next) :
      Turn ⟨⟨w, front ++ call :: back⟩, log⟩
        ⟨⟨w, front ++ call.resume w w (next (Sequential.promote env ctx steps x).1) :: back⟩,
          log ++ Sequential.trials env ctx steps x⟩

/-- Nothing was stored, called or attempted yet. -/
def Opens (t : Logged) : Prop := t.traffic.Opens ∧ t.log = []

def Reached (t : Logged) : Prop := ∃ o, o.Opens ∧ ReflTransGen Turn o t

variable {t t' : Logged}

/-- The log takes nothing away from what can happen. -/
theorem Turn.sequential (h : Turn t t') :
    Traffic.Turn Traffic.sequential t.traffic t'.traffic := by
  cases h with
  | promoted env x w front back call log ctx steps next asks =>
    refine .answer w w front back call (.promote ctx steps) next _ asks ?_
    exact ⟨Sequential.beside env x, rfl, fun _ _ _ => ⟨⟨_, env, x, rfl⟩, rfl⟩⟩
  | aside t t' log h =>
    cases h with
    | reconcile w calls c key => exact .reconcile w calls c key
    | abort w calls c request freight read h => exact .abort w calls c request freight read h
    | edit w calls e h => exact .edit w calls e h
    | disturb w calls clock workspaces => exact .disturb w calls clock workspaces
    | answer w w' front back call r next a asks h =>
      obtain ⟨engine, performed, answers⟩ := h
      refine .answer w w' front back call r next a asks ⟨engine, performed, ?_⟩
      exact fun ctx steps hr => (answers ctx steps hr).1.elim

/-- What is left of a call goes on from something that can be vouched for. -/
def Accounts (log : List Trial) (s : Store) (call : Call) : Prop :=
  ∃ g : Account, call.rest.Obeys Account.rules Reconciler.Whatever g ∧ g.Backed log s

/-- What every turn preserves. -/
structure Kept (t : Logged) : Prop where
  orderly : t.traffic.Orderly Traffic.sequential PromotionStatus.Shaped
  vouched : t.traffic.world.store.Vouched t.log
  calls : ∀ call ∈ t.traffic.calls, Accounts t.log t.traffic.world.store call

theorem shaped_of_intake {p : Promotion} (h : Traffic.sequential.intake.promotion p) :
    p.status.Shaped p.spec := by
  rw [show p.status = .initial from h]
  exact PromotionStatus.shaped_of_waiting (.inl rfl) ⟨rfl, rfl, rfl, rfl⟩

theorem kept_opening (h : t.Opens) : t.Kept := by
  obtain ⟨⟨w, calls⟩, log⟩ := t
  obtain ⟨opens, _⟩ := h
  have orderly : Traffic.Orderly Traffic.sequential PromotionStatus.Shaped ⟨w, calls⟩ :=
    Traffic.orderly_opening opens
  obtain ⟨hstore, _, hcalls⟩ := opens
  dsimp only at hstore hcalls
  subst hcalls
  refine ⟨orderly, ?_, fun call hcall => (List.not_mem_nil hcall).elim⟩
  rw [hstore]
  exact vouched_opening

section calls

variable {log log' : List Trial} {s s' : Store} {call : Call} {calls front back : List Call}

theorem Accounts.later (h : Accounts log s call)
    (others : ∀ g : Account, g.Backed log s → g.Backed log' s') : Accounts log' s' call := by
  obtain ⟨g, obeys, backed⟩ := h
  exact ⟨g, obeys, others g backed⟩

theorem calls_started (before : ∀ c ∈ calls, Accounts log s c) {x : Program Ending}
    {g : Account} (obeys : x.Obeys Account.rules Reconciler.Whatever g) (backed : g.Backed log s) :
    ∀ c ∈ calls ++ [.start x], Accounts log s c := by
  intro c hc
  rcases List.mem_append.mp hc with hc | hc
  · exact before c hc
  · rw [List.mem_singleton.mp hc]
    exact ⟨g, obeys, backed⟩

/-- A call that is answered goes on from what it knows then, and the others go on as before. -/
theorem calls_answered {call' : Call} (before : ∀ c ∈ front ++ call :: back, Accounts log s c)
    (others : ∀ g : Account, g.Backed log s → g.Backed log' s') (this : Accounts log' s' call') :
    ∀ c ∈ front ++ call' :: back, Accounts log' s' c := by
  intro c hc
  rcases List.mem_append.mp hc with hc | hc
  · exact (before c (List.mem_append_left _ hc)).later others
  · rcases List.mem_cons.mp hc with rfl | hc
    · exact this
    · exact (before c (List.mem_append_right _ (List.mem_cons_of_mem _ hc))).later others

end calls

/-- The engine is only called where a Promotion can go on. -/
theorem resumable_of_asks {T : Traffic} (ho : T.Orderly Traffic.sequential PromotionStatus.Shaped)
    {call : Call} (hcall : call ∈ T.calls) {ctx : PromotionContext} {steps : List Step}
    {next : EngineAnswer → Program Ending} (asks : call.rest = .ask (.promote ctx steps) next) :
    Resumable steps.length ctx.start ctx.records := by
  obtain ⟨g, obeys, _⟩ := ho.calls call hcall
  rw [asks] at obeys
  obtain ⟨may, _⟩ := obeys
  cases g with
  | unread | parked | owing | closed => exact may.elim
  | holding p =>
    obtain ⟨running, rfl, kept, target, collection, fresh, resumes⟩ := may
    rw [Step.length_ofDeclaredSteps, resumes.1, resumes.2.1]
    exact kept.resumable running target collection fresh

theorem kept_aside {T T' : Traffic} {log : List Trial} (hk : Kept ⟨T, log⟩)
    (orderly : T'.Orderly Traffic.sequential PromotionStatus.Shaped)
    (h : Traffic.Turn Traffic.unattended T T') : Kept ⟨T', log⟩ := by
  obtain ⟨before, vouched, calls⟩ := hk
  have sound := before.historic.sound
  cases h with
  | reconcile w cs c key =>
    exact ⟨orderly, vouched, calls_started calls (c.account_reconcile key) trivial⟩
  | abort w cs c request freight read h =>
    -- whatever was read at some time is still pinned by its version
    have known : Account.Backed log w.store (.holding read.new) :=
      ⟨(before.historic.read read h).1, vouched.published read h⟩
    exact ⟨orderly, vouched, calls_started calls (c.account_abort request freight) known⟩
  | edit w cs e h =>
    have edited := edited_apply sound h
    exact ⟨orderly, edited.vouched vouched,
      fun c hc => (calls c hc).later fun g hg => hg.later edited.grows⟩
  | disturb w cs clock workspaces => exact ⟨orderly, vouched, calls⟩
  | answer w w' front back call r next a asks h =>
    have mem : call ∈ front ++ call :: back := List.mem_append_right _ List.mem_cons_self
    obtain ⟨g, obeys, backed⟩ := calls call mem
    rw [asks] at obeys
    obtain ⟨vouched', backed'⟩ := Account.answered_aside sound vouched backed obeys.1 h
    have turn : Turn ⟨⟨w, front ++ call :: back⟩, log⟩
        ⟨⟨w', front ++ call.resume w w' (next a) :: back⟩, log⟩ :=
      .aside _ _ log (.answer w w' front back call r next a asks h)
    have grows := (Traffic.evolves_turn before turn.sequential).grows
    refine ⟨orderly, vouched', calls_answered calls (fun g hg => hg.later grows) ?_⟩
    exact ⟨_, obeys.2 a trivial, backed'⟩

theorem kept_turn (hk : t.Kept) (h : Turn t t') : t'.Kept := by
  have orderly := Traffic.orderly_turn Traffic.lasting_shaped (fun _ hp => shaped_of_intake hp)
    hk.orderly h.sequential
  cases h with
  | aside T T' log h => exact kept_aside hk orderly h
  | promoted env x w front back call log ctx steps next asks =>
    have mem : call ∈ front ++ call :: back := List.mem_append_right _ List.mem_cons_self
    have resumable := resumable_of_asks hk.orderly mem asks
    obtain ⟨g, obeys, backed⟩ := hk.calls call mem
    rw [asks] at obeys
    have same : w.store.Grows w.store := ⟨Nat.le_refl _, fun _ _ => .inl⟩
    refine ⟨orderly, hk.vouched.grow _, calls_answered hk.calls (fun g hg => hg.grow same _) ?_⟩
    exact ⟨_, obeys.2 _ trivial, Account.answered_promote env x backed obeys.1 resumable⟩

theorem kept_turns (hk : t.Kept) (h : ReflTransGen Turn t t') : t'.Kept := by
  induction h with
  | refl => exact hk
  | tail _ turn ih => exact kept_turn ih turn

/-- However reconciles, aborts and edits take turns, and however the steps end: the health
checks of a status are those that were emitted by the trials which completed its steps. -/
theorem vouched_of_reached (h : Reached t) : t.traffic.world.store.Vouched t.log := by
  obtain ⟨o, opens, turns⟩ := h
  exact (kept_turns (kept_opening opens) turns).vouched

theorem turns_aside {T T' : Traffic} (h : ReflTransGen (Traffic.Turn Traffic.unattended) T T')
    (log : List Trial) : ReflTransGen Turn ⟨T, log⟩ ⟨T', log⟩ := by
  induction h with
  | refl => exact .refl
  | tail _ turn ih => exact ih.tail (.aside _ _ log turn)

/-- A call can be answered to its end while nothing else happens. -/
theorem turns_run {σ : Type} (env : Sequential.Setting σ) (x : σ) (front back : List Call)
    (w : World Unit) (call : Call) (log : List Trial) :
    ∃ call' log', ReflTransGen Turn ⟨⟨w, front ++ call :: back⟩, log⟩
      ⟨⟨(call.rest.run (World.perform (Sequential.beside env x)) w).2,
        front ++ call' :: back⟩, log'⟩ := by
  generalize hrest : call.rest = rest
  -- by induction on what is left of the call, with a turn for each request
  induction rest generalizing w call log with
  | done e => exact ⟨call, log, .refl⟩
  | ask r next ih =>
    let served := World.perform (Sequential.beside env x) r w
    have step : ∃ log', Turn ⟨⟨w, front ++ call :: back⟩, log⟩
        ⟨⟨served.2, front ++ call.resume w served.2 (next served.1) :: back⟩, log'⟩ := by
      by_cases called : ∃ ctx steps, r = .promote ctx steps
      · obtain ⟨ctx, steps, rfl⟩ := called
        exact ⟨_, .promoted env x w front back call log ctx steps next hrest⟩
      · have answered : w.Answers Traffic.unattended.engine r served.1 served.2 :=
          ⟨Sequential.beside env x, rfl, fun ctx steps h => absurd ⟨ctx, steps, h⟩ called⟩
        exact ⟨log, .aside _ _ log (.answer w _ front back call r next _ hrest answered)⟩
    obtain ⟨log₁, turn⟩ := step
    obtain ⟨call', log', turns⟩ := ih served.1 served.2
      (call.resume w served.2 (next served.1)) log₁ rfl
    exact ⟨call', log', .head turn turns⟩

/-- A runner that is done at once and asks for a check. -/
def checking (name : String) : Runner Unit :=
  ⟨none, fun _ => pure (.reported { StepReport.succeeded with healthCheck := some ⟨name, none⟩ })⟩

/-- The first step is done, and the second waits. -/
def halfWay : Sequential.Setting Unit :=
  let waiting : Runner Unit := ⟨none, fun _ => pure (.reported (.running "in progress"))⟩
  ⟨.ofList [("deploy", checking "rollout"), ("wait", waiting)], fun _ _ _ => .ok none,
    pure default⟩

/-- The second step is done, too. -/
def allTheWay : Sequential.Setting Unit :=
  ⟨.ofList [("wait", checking "traffic")], fun _ _ _ => .ok none, pure default⟩

/-- What a user writes so that one Promotion of two steps can run. -/
def twoSteps : List Edit :=
  let origin := Origin.warehouse "w"
  let stage := Stage.fresh (.fresh "a" "s" default) ⟨[.direct origin], none⟩
  [.putFreight (.fresh (.fresh "a" "f" default) origin) ⟨1⟩,
    .putStage (stage.withCurrent (some (.named "p"))) ⟨2⟩,
    .create (.fresh (.fresh "a" "p" default) ⟨"s", "f", [], [.ofKind "deploy", .ofKind "wait"]⟩)
      ⟨3⟩]

def whereTwoWait : World Unit :=
  ⟨default, twoSteps.foldl Edit.apply .empty, .empty, #[], ()⟩

/-- The world after a reconcile whose engine has these runners. -/
def reconciled (env : Sequential.Setting Unit) (w : World Unit) : World Unit :=
  (Traffic.reconcileOne.run (World.perform (Sequential.beside env ())) w).2

/-- One reconcile after another, each answered to its end. -/
theorem turns_reconciled (env : Sequential.Setting Unit) (w : World Unit) (calls : List Call)
    (log : List Trial) : ∃ call log', ReflTransGen Turn ⟨⟨w, calls⟩, log⟩
      ⟨⟨reconciled env w, calls ++ [call]⟩, log'⟩ := by
  have called : Turn ⟨⟨w, calls⟩, log⟩ ⟨⟨w, calls ++ [.start Traffic.reconcileOne]⟩, log⟩ :=
    .aside _ _ log (.reconcile w calls _ _)
  obtain ⟨call, log', answered⟩ := turns_run env () calls [] w (.start Traffic.reconcileOne) log
  exact ⟨call, log', .head called answered⟩

/-- The world after both steps, each done in a reconcile of its own. -/
def whereTwoAreDone : World Unit := reconciled allTheWay (reconciled halfWay whereTwoWait)

/-- The steps of a Promotion are done in two reconciles, and both checks are there. -/
theorem vouched_of_twoSteps : ∃ t, Reached t ∧
    (t.traffic.world.store.promotions.values.map fun p =>
      (p.status.phase, p.status.healthChecks.map HealthCheck.uses)) =
        [(some .succeeded, ["rollout", "traffic"])] ∧
    t.traffic.world.store.Vouched t.log := by
  have allowed : ∀ e ∈ twoSteps, e.Within Traffic.unattended.intake := by
    intro e he
    rcases List.mem_cons.mp he with rfl | he
    · trivial
    · rcases List.mem_cons.mp he with rfl | he
      · trivial
      · cases List.mem_singleton.mp he
        rfl
  have written : ReflTransGen Turn ⟨⟨⟨default, .empty, .empty, #[], ()⟩, []⟩, []⟩
      ⟨⟨whereTwoWait, []⟩, []⟩ :=
    turns_aside (Traffic.turns_edits ⟨default, .empty, .empty, #[], ()⟩ [] allowed) []
  obtain ⟨first, log₁, paused⟩ := turns_reconciled halfWay whereTwoWait [] []
  obtain ⟨second, log₂, finished⟩ :=
    turns_reconciled allTheWay (reconciled halfWay whereTwoWait) ([] ++ [first]) log₁
  have reached : Reached ⟨⟨whereTwoAreDone, [] ++ [first] ++ [second]⟩, log₂⟩ :=
    ⟨_, ⟨⟨rfl, rfl, rfl⟩, rfl⟩, (written.trans paused).trans finished⟩
  refine ⟨⟨⟨whereTwoAreDone, [] ++ [first] ++ [second]⟩, log₂⟩, reached, ?_,
    vouched_of_reached reached⟩
  dsimp only
  decide +kernel

end Logged

end Drayage
