import Drayage.Proofs.Controller.Steadfast

/-!
# Work that need not succeed

A reconcile removes workspaces and asks for verifications, but nothing depends on whether
that works. Such requests are made once the engine has been called and whenever an abort is
through, and the program goes on in the same way whatever they are answered. So two
reconciles in the same world come to the same, though one of them may fail at all that.
-/

namespace Drayage

/-- A request that need not succeed. -/
def Request.Optional : Request → Prop
  | .release _ | .requestReverification _ => True
  | .now | .getPromotion _ | .getStage _ | .getFreight _ | .listPromotions
  | .updateStatus _ _ _ | .acquire _ | .promote _ _ | .emit _ => False

/-- The key under which a status was written, and the status. -/
def Reply.written? : Reply → Option (Key × PromotionStatus)
  | ⟨.updateStatus key _ s, .ok _⟩ => some (key, s)
  | _ => none

namespace Program

variable {α β : Type}

/-- A program that is about to end: it looks at the clock and announces something, but from
optional requests it takes no answer. If `writes`, it may write a status before, and how it
goes on depends only on whether that is accepted. -/
inductive Closes : (writes : Bool) → Program α → Prop where
  | done {writes : Bool} (a : α) : Closes writes (.done a)
  | optional {writes : Bool} {r : Request} (optional : r.Optional) {x : Program α}
      (rest : Closes writes x) : Closes writes (.ask r fun _ => x)
  | now {writes : Bool} {next : Instant → Program α} (rest : ∀ now, Closes writes (next now)) :
      Closes writes (.ask .now next)
  | emit {writes : Bool} (n : Notice) {x : Program α} (rest : Closes writes x) :
      Closes writes (.ask (.emit n) fun _ => x)
  | write {key : Key} {version : Nat} {s : PromotionStatus}
      {next : Except StoreError Nat → Program α} {x : Program α}
      (accepted : ∀ v, next (.ok v) = x) (rest : Closes false x)
      (refused : ∀ e, Closes true (next (.error e))) :
      Closes true (.ask (.updateStatus key version s) next)

/-- A program makes its optional requests only when it is about to end. -/
inductive Tolerates (writes : Bool) : Program α → Prop where
  | closing {x : Program α} (closes : Closes writes x) : Tolerates writes x
  | ask {r : Request} (required : ¬ r.Optional) {next : r.Answer → Program α}
      (rest : ∀ a, Tolerates writes (next a)) : Tolerates writes (.ask r next)

variable {writes : Bool} {x : Program α} {f : α → Program β}

theorem closes_optional {r : Request} (optional : r.Optional) (rest : Closes writes x) :
    Closes writes (request r >>= fun _ => x) := .optional optional rest

theorem closes_now {next : Instant → Program α} (rest : ∀ now, Closes writes (next now)) :
    Closes writes (request .now >>= next) := .now rest

theorem closes_emit (n : Notice) (rest : Closes writes x) :
    Closes writes (request (.emit n) >>= fun _ => x) := .emit n rest

theorem closes_write {key : Key} {version : Nat} {s : PromotionStatus}
    {next : Except StoreError Nat → Program α} (accepted : ∀ v, next (.ok v) = x)
    (rest : Closes false x) (refused : ∀ e, Closes true (next (.error e))) :
    Closes true (request (.updateStatus key version s) >>= next) := .write accepted rest refused

theorem tolerates_request {r : Request} (required : ¬ r.Optional) {next : r.Answer → Program α}
    (rest : ∀ a, Tolerates writes (next a)) : Tolerates writes (request r >>= next) :=
  .ask required rest

theorem Closes.weaken (h : Closes false x) : Closes writes x := by
  generalize hb : false = without at h
  induction h with
  | done a => exact .done a
  | optional optional rest ih => exact .optional optional (ih hb)
  | now rest ih => exact .now fun now => ih now hb
  | emit n rest ih => exact .emit n (ih hb)
  | write => cases hb

/-- A status may be written after what writes none. -/
theorem closes_bind (hx : Closes false x) (hf : ∀ a, Closes writes (f a)) :
    Closes writes (x >>= f) := by
  show Closes writes (x.bind f)
  generalize hb : false = without at hx
  induction hx with
  | done a => exact hf a
  | optional optional rest ih => exact .optional optional (ih hb)
  | now rest ih => exact .now fun now => ih now hb
  | emit n rest ih => exact .emit n (ih hb)
  | write => cases hb

/-- What writes no status may come after what writes one. -/
theorem closes_bind_of_closed (hx : Closes writes x) (hf : ∀ a, Closes false (f a)) :
    Closes writes (x >>= f) := by
  show Closes writes (x.bind f)
  induction hx with
  | done a => exact (hf a).weaken
  | optional optional rest ih => exact .optional optional ih
  | now rest ih => exact .now ih
  | emit n rest ih => exact .emit n ih
  | write accepted rest refused ih ih' =>
    exact .write (fun v => congrArg (Program.bind · f) (accepted v)) ih ih'

theorem tolerates_bind (hx : Tolerates false x) (hf : ∀ a, Closes writes (f a)) :
    Tolerates writes (x >>= f) := by
  show Tolerates writes (x.bind f)
  induction hx with
  | closing closes => exact .closing (closes_bind closes hf)
  | ask required rest ih => exact .ask required ih

end Program

namespace Reconciler

open Program

variable (c : Reconciler) {β : Type} {p : Promotion} {stage : Stage} {freight : Option Freight}
  {s : PromotionStatus}

theorem closes_settle (target : FreightReference) : Closes false (settle p stage target s) := by
  have last : Closes false (if s.isTerminal then
      Program.request (.release p.metadata.uid) >>= fun _ => pure () else pure ()) := by
    split
    · exact closes_optional trivial (.done ())
    · exact .done ()
  unfold settle
  dsimp only
  split
  · exact closes_optional trivial last
  · exact last

theorem tolerates_promote : Tolerates false (c.promote p stage freight) := by
  have closed {promoted : Promoted} : Tolerates false (pure promoted : Program Promoted) :=
    .closing (.done promoted)
  unfold promote
  split
  · exact closed
  · split
    · exact closed
    · refine tolerates_request id fun a => ?_
      cases a with
      | error e => exact closed
      | ok fresh =>
        refine tolerates_request id fun a => ?_
        cases a with
        | crashed crash => exact closed
        | result r => exact .closing (closes_bind (closes_settle _) fun _ => .done _)
        | error e => exact .closing (closes_bind (closes_settle _) fun _ => .done _)

theorem closes_newStatus (promoted : Promoted) : Closes false (newStatus p promoted) := by
  unfold newStatus
  cases promoted with
  | status s => exact .done s
  | failed e => exact .done _
  | crashed crash => exact closes_optional trivial (.done _)

theorem closes_stamp : Closes false (stamp p s) := by
  unfold stamp
  dsimp only
  split
  · refine closes_now fun now => ?_
    split <;> exact .done _
  · split <;> exact .done _

theorem closes_requeue : Closes false
    (if s.phase = some .running then do
        let now ← Program.request .now
        match { p with status := s }.nextDelay c.runnerDefault c.config.interval now with
        | some delay => return .finished (some delay)
        | none => return .crashed (.words "\x60DateTime + TimeDelta\x60 overflowed")
      else return .finished none : Program Ending) := by
  split
  · refine closes_now fun now => ?_
    split <;> exact .done _
  · exact .done _

theorem closes_conclude (initial : Option Phase) :
    Closes false (c.conclude p stage freight initial s) := by
  unfold conclude
  dsimp only
  split
  · split
    · exact closes_emit _ c.closes_requeue
    · exact c.closes_requeue
  · exact c.closes_requeue

theorem closes_persist : Closes true (persist p s) := by
  unfold persist
  refine closes_write (fun _ => rfl) (.done _) fun e => ?_
  dsimp only
  split
  · exact .done _
  · exact closes_now fun now => closes_write (fun _ => rfl) (.done _) fun e => .done _

theorem tolerates_execute (initial : Option Phase) :
    Tolerates true (c.execute p stage freight initial) := by
  unfold execute
  refine tolerates_bind c.tolerates_promote fun promoted => ?_
  refine closes_bind (closes_newStatus promoted) fun s => ?_
  refine closes_bind closes_stamp fun s => ?_
  refine closes_bind_of_closed closes_persist fun r => ?_
  cases r with
  | ok s => exact c.closes_conclude initial
  | error e => exact .done _

theorem closes_terminate (request : AbortRequest) :
    Closes true (c.terminate request p freight) := by
  unfold terminate
  split
  · exact .done _
  · refine closes_now fun now => closes_write (fun _ => rfl) ?_ fun e => .done _
    exact closes_optional trivial (closes_emit _ (.done _))

theorem tolerates_writeStatus {f : Except ReconcileError Promotion → Program Ending}
    (hf : ∀ r, Tolerates true (f r)) : Tolerates true (writeStatus p s >>= f) := by
  refine tolerates_request id fun a => ?_
  cases a with
  | ok v => exact hf _
  | error e => exact hf _

theorem tolerates_approach (key : Key) : Tolerates true (c.approach key p freight) := by
  have ending {e : Ending} : Tolerates true (pure e : Program Ending) := .closing (.done e)
  unfold approach
  refine tolerates_request id fun a => ?_
  rcases a with err | _ | stage
  · exact ending
  · exact ending
  · dsimp only
    split
    · unfold admitted
      dsimp only
      split
      · exact c.tolerates_execute _
      · refine tolerates_request id fun now => tolerates_writeStatus fun r => ?_
        cases r with
        | error err => exact ending
        | ok q => exact c.tolerates_execute _
    · exact ending

theorem tolerates_reconcile (key : Key) : Tolerates true (c.reconcile key) := by
  have ending {e : Ending} : Tolerates true (pure e : Program Ending) := .closing (.done e)
  unfold reconcile
  refine tolerates_request id fun a => ?_
  rcases a with err | _ | p
  · exact ending
  · exact ending
  · dsimp only
    split
    · exact ending
    · refine tolerates_request id fun a => ?_
      cases a with
      | error err => exact ending
      | ok freight =>
        dsimp only
        rcases unaborted_or_asked p with unaborted | ⟨request, asked⟩
        · rw [c.proceed_of_unaborted key freight unaborted]
          split
          · exact c.tolerates_approach key
          · refine tolerates_writeStatus fun r => ?_
            cases r with
            | error err => exact ending
            | ok q => exact c.tolerates_approach key
        · unfold proceed
          rw [asked]
          refine .closing (closes_bind_of_closed (c.closes_terminate request) fun r => ?_)
          cases r <;> exact .done _

end Reconciler

/-- Whether a status is accepted depends on the Promotions and on whether the store is
available. -/
theorem Store.updateStatus_congr {s s' : Store} (promotions : s.promotions = s'.promotions)
    (available : s.available = s'.available) (key : Key) (expected : Nat)
    (status : PromotionStatus) :
    (∃ old, s.updateStatus key expected status = .ok (s.version + 1,
        s.writePromotion (some old) (old.withStatus (s.version + 1) status)) ∧
      s'.updateStatus key expected status = .ok (s'.version + 1,
        s'.writePromotion (some old) (old.withStatus (s'.version + 1) status))) ∨
    ∃ e, s.updateStatus key expected status = .error e ∧
      s'.updateStatus key expected status = .error e := by
  unfold updateStatus whenAvailable
  rw [promotions, available]
  by_cases there : s'.available = true
  · rw [if_pos there, if_pos there]
    cases s'.promotions.get? key with
    | none => exact .inr ⟨_, rfl, rfl⟩
    | some old =>
      dsimp only
      split
      · exact .inr ⟨_, rfl, rfl⟩
      · cases status.unfit? old.spec with
        | some unfit => exact .inr ⟨_, rfl, rfl⟩
        | none => exact .inl ⟨old, rfl, rfl⟩
  · rw [if_neg there, if_neg there]
    exact .inr ⟨_, rfl, rfl⟩

variable {ε α : Type}

namespace World

/-- Requests are answered as in memory, but those that need not succeed may fail for any reason.
What a removal leaves of the workspaces is left open. -/
structure Tolerating (engine : Engine (World ε))
    (perform : (r : Request) → StateM (World ε) r.Answer) : Prop where
  required : ∀ r, ¬ r.Optional → perform r = World.perform engine r
  release : ∀ uid w, ∃ workspaces, (perform (.release uid) w).2 = { w with workspaces }
  reverify : ∀ key w, perform (.requestReverification key) w =
      World.perform engine (.requestReverification key) w ∨
    ∃ e, perform (.requestReverification key) w = (.error e, w)

/-- Two worlds in which the same was announced and the Promotions have the same statuses. If
`unwritten`, they are the same Promotions. -/
structure Alike (unwritten : Bool) (u v : World ε) : Prop where
  clock : u.clock = v.clock
  notices : u.notices = v.notices
  statuses : ∀ key, (u.store.promotions.get? key).map Promotion.status =
    (v.store.promotions.get? key).map Promotion.status
  same : unwritten = true →
    u.store.promotions = v.store.promotions ∧ u.store.available = v.store.available

variable {unwritten : Bool} {u v : World ε}

theorem Alike.refl (u : World ε) : Alike true u u :=
  ⟨rfl, rfl, fun _ => rfl, fun _ => ⟨rfl, rfl⟩⟩

theorem Alike.weaken (h : Alike unwritten u v) : Alike false u v :=
  ⟨h.clock, h.notices, h.statuses, fun no => by cases no⟩

/-- What an optional request leaves alone. -/
structure Spared (w w' : World ε) : Prop where
  clock : w'.clock = w.clock
  notices : w'.notices = w.notices
  promotions : w'.store.promotions = w.store.promotions
  available : w'.store.available = w.store.available

theorem Alike.spared {u' v' : World ε} (h : Alike unwritten u v) (hu : Spared u u')
    (hv : Spared v v') : Alike unwritten u' v' where
  clock := by rw [hu.clock, hv.clock, h.clock]
  notices := by rw [hu.notices, hv.notices, h.notices]
  statuses key := by rw [hu.promotions, hv.promotions, h.statuses]
  same unwritten := by
    obtain ⟨promotions, available⟩ := h.same unwritten
    exact ⟨by rw [hu.promotions, hv.promotions, promotions],
      by rw [hu.available, hv.available, available]⟩

variable {engine : Engine (World ε)}
  {perform perform' : (r : Request) → StateM (World ε) r.Answer}

theorem Tolerating.spared (h : Tolerating engine perform) {r : Request} (optional : r.Optional)
    (w : World ε) : Spared w (perform r w).2 := by
  cases r with
  | release uid =>
    obtain ⟨workspaces, left⟩ := h.release uid w
    rw [left]
    exact ⟨rfl, rfl, rfl, rfl⟩
  | requestReverification key =>
    rcases h.reverify key w with asked | ⟨e, failed⟩
    · have after := snd_attempt (·.requestReverification key w.clock) w
      have alike := w.store.alike_requestReverification key w.clock
      rw [asked]
      show Spared w (attempt (·.requestReverification key w.clock) w).2
      rw [after]
      exact ⟨rfl, rfl, alike.promotions, alike.available⟩
    · rw [failed]
      exact ⟨rfl, rfl, rfl, rfl⟩
  | now | getPromotion | getStage | getFreight | listPromotions | updateStatus | acquire
  | promote | emit => exact optional.elim

theorem Tolerating.updateStatus (h : Tolerating engine perform) (key : Key) (version : Nat)
    (s : PromotionStatus) (w : World ε) : perform (.updateStatus key version s) w =
      match w.store.updateStatus key version s with
      | .ok (v, store) => (.ok v, { w with store })
      | .error e => (.error e, w) := by
  rw [h.required _ id]
  show attempt (·.updateStatus key version s) w = _
  unfold attempt
  dsimp only
  cases w.store.updateStatus key version s <;> rfl

/-- Two runs of a program come to the same: they end with the same value, have written the same
statuses in the same order and announced the same. -/
structure Agree (perform perform' : (r : Request) → StateM (World ε) r.Answer) (x : Program α)
    (u v : World ε) : Prop where
  value : (x.run perform u).1 = (x.run perform' v).1
  written : (x.told perform u).filterMap Reply.written? =
    (x.told perform' v).filterMap Reply.written?
  emitted : (x.told perform u).filterMap Reply.emitted? =
    (x.told perform' v).filterMap Reply.emitted?
  alike : Alike false (x.run perform u).2 (x.run perform' v).2

/-- A request after which both go on with the same program. -/
theorem Agree.ask {r : Request} {next : r.Answer → Program α} {x : Program α}
    (hu : next (perform r u).1 = x) (hv : next (perform' r v).1 = x)
    (written : Reply.written? ⟨r, (perform r u).1⟩ = Reply.written? ⟨r, (perform' r v).1⟩)
    (emitted : Reply.emitted? ⟨r, (perform r u).1⟩ = Reply.emitted? ⟨r, (perform' r v).1⟩)
    (rest : Agree perform perform' x (perform r u).2 (perform' r v).2) :
    Agree perform perform' (.ask r next) u v where
  value := by
    show ((next _).run perform _).1 = ((next _).run perform' _).1
    rw [hu, hv, rest.value]
  written := by
    simp only [Program.told, List.filterMap_cons, hu, hv, written, rest.written]
  emitted := by
    simp only [Program.told, List.filterMap_cons, hu, hv, emitted, rest.emitted]
  alike := by
    show Alike false ((next _).run perform _).2 ((next _).run perform' _).2
    rw [hu, hv]
    exact rest.alike

/-- A status that is written in two worlds leaves both with the same statuses. -/
theorem Alike.written (h : Alike unwritten u v) {old : Promotion} {m n : Nat}
    {status : PromotionStatus} :
    Alike false
      { u with store := u.store.writePromotion (some old) (old.withStatus m status) }
      { v with store := v.store.writePromotion (some old) (old.withStatus n status) } where
  clock := h.clock
  notices := h.notices
  statuses key := by
    rw [Store.get?_writePromotion, Store.get?_writePromotion]
    show Option.map _ (if key = old.key then _ else _) =
      Option.map _ (if key = old.key then _ else _)
    split
    · rfl
    · exact h.statuses key
  same no := by cases no

theorem agree_of_closes {x : Program α} (hx : x.Closes unwritten) (alike : Alike unwritten u v)
    (h : Tolerating engine perform) (h' : Tolerating engine perform') :
    Agree perform perform' x u v := by
  induction hx generalizing u v with
  | done a => exact ⟨rfl, rfl, rfl, alike.weaken⟩
  | @optional _ r optional x rest ih =>
    have silent (a : r.Answer) :
        Reply.written? ⟨r, a⟩ = none ∧ Reply.emitted? ⟨r, a⟩ = none := by
      cases r with
      | release | requestReverification => exact ⟨rfl, rfl⟩
      | now | getPromotion | getStage | getFreight | listPromotions | updateStatus | acquire
      | promote | emit => exact optional.elim
    refine .ask rfl rfl ?_ ?_ (ih (alike.spared (h.spared optional u) (h'.spared optional v)))
    · rw [(silent _).1, (silent _).1]
    · rw [(silent _).2, (silent _).2]
  | now rest ih =>
    have same : (perform .now u).1 = (perform' .now v).1 := by
      rw [h.required .now id, h'.required .now id]
      exact alike.clock
    refine .ask rfl (by rw [same]) rfl rfl ?_
    rw [h.required .now id, h'.required .now id]
    exact ih _ alike
  | emit n rest ih =>
    refine .ask rfl rfl rfl rfl ?_
    rw [h.required (.emit n) id, h'.required (.emit n) id]
    refine ih ⟨alike.clock, ?_, alike.statuses, alike.same⟩
    exact congrArg (Array.push · n) alike.notices
  | @write key version s next x accepted rest refused ih ih' =>
    obtain ⟨promotions, available⟩ := alike.same rfl
    have left := h.updateStatus key version s u
    have right := h'.updateStatus key version s v
    rcases Store.updateStatus_congr promotions available key version s with
      ⟨old, stored, stored'⟩ | ⟨e, failed, failed'⟩
    · rw [stored] at left
      rw [stored'] at right
      refine .ask (x := x) ?_ ?_ ?_ rfl ?_
      · rw [left]
        exact accepted _
      · rw [right]
        exact accepted _
      · rw [left, right]
        rfl
      · rw [left, right]
        exact ih alike.written
    · rw [failed] at left
      rw [failed'] at right
      refine .ask (x := next (.error e)) (by rw [left]) (by rw [right]) ?_ rfl ?_
      · rw [left, right]
      · rw [left, right]
        exact ih' e alike

theorem agree_of_tolerates {x : Program α} (hx : x.Tolerates true)
    (h : Tolerating engine perform) (h' : Tolerating engine perform') (w : World ε) :
    Agree perform perform' x w w := by
  induction hx generalizing w with
  | closing closes => exact agree_of_closes closes (.refl w) h h'
  | @ask r required next rest ih =>
    have same : perform' r w = perform r w := by
      rw [h.required r required, h'.required r required]
    refine .ask rfl (by rw [same]) (by rw [same]) (by rw [same]) ?_
    rw [same]
    exact ih _ _

/-- Answers requests as in memory, but every optional one fails. -/
def performFailing (engine : Engine (World ε)) (removal : FileError) (verification : StoreError) :
    (r : Request) → StateM (World ε) r.Answer
  | .release _ => fun w => (.error removal, w)
  | .requestReverification _ => fun w => (.error verification, w)
  | r => World.perform engine r

theorem tolerating_performFailing (engine : Engine (World ε)) (removal : FileError)
    (verification : StoreError) :
    Tolerating engine (performFailing engine removal verification) where
  required r required := by
    cases r with
    | release | requestReverification => exact absurd trivial required
    | now | getPromotion | getStage | getFreight | listPromotions | updateStatus | acquire
    | promote | emit => rfl
  release _ w := ⟨w.workspaces, rfl⟩
  reverify _ _ := .inr ⟨verification, rfl⟩

theorem tolerating_perform (engine : Engine (World ε)) :
    Tolerating engine (World.perform engine) where
  required _ _ := rfl
  release uid w := ⟨w.workspaces.vacate uid, snd_release uid⟩
  reverify _ _ := .inl rfl

end World

/-- What a user writes so that Freight is promoted which its Stage holds and has verified. -/
def oneRepeats : List Edit :=
  let origin := Origin.warehouse "w"
  let freight := Freight.fresh (.fresh "a" "f" default) origin
  let verified : Verification := ⟨"v", "Successful", none⟩
  let held := { Collection.empty.update freight.reference with verifications := [verified] }
  let stage := (Stage.fresh (.fresh "a" "s" default) ⟨[.direct origin], none⟩).withCurrent
    (some (.named "p"))
  [.putFreight freight ⟨1⟩,
    .putStage { stage with status := { stage.status with freightHistory := [held] } } ⟨2⟩,
    .create (.fresh (.fresh "a" "p" default) ⟨"s", "f", [], [.ofKind "wait"]⟩) ⟨3⟩]

def whereOneRepeats : World Unit :=
  ⟨default, oneRepeats.foldl Edit.apply .empty, .empty, #[], ()⟩

/-- Whether an optional request succeeded. -/
def Reply.managed? : Reply → Option Bool
  | ⟨.release _, a⟩ => some a.isOk
  | ⟨.requestReverification _, a⟩ => some a.isOk
  | _ => none

namespace Reconciler

/-- Of two reconciles that start in the same world, with the same engine, it makes no difference
to what comes of them which optional requests fail in which of them. -/
theorem agree_of_reconcile (c : Reconciler) (key : Key) {engine : Engine (World ε)}
    {perform perform' : (r : Request) → StateM (World ε) r.Answer}
    (h : World.Tolerating engine perform) (h' : World.Tolerating engine perform')
    (w : World ε) : World.Agree perform perform' (c.reconcile key) w w :=
  World.agree_of_tolerates (c.tolerates_reconcile key) h h' w

end Reconciler

/-- A repeated success, once with everything working and once with the removal of the workspace
and the request for a verification both failing. -/
theorem agree_of_oneRepeats : ∃ (c : Reconciler) (key : Key) (engine : Engine (World Unit))
    (perform perform' : (r : Request) → StateM (World Unit) r.Answer) (w : World Unit),
    World.Tolerating engine perform ∧ World.Tolerating engine perform' ∧
      ((c.reconcile key).told perform w).filterMap Reply.managed? = [true, true] ∧
      ((c.reconcile key).told perform' w).filterMap Reply.managed? = [false, false] ∧
      ((c.reconcile key).told perform w).filterMap Reply.emitted? ≠ [] ∧
      World.Agree perform perform' (c.reconcile key) w w := by
  let engine : Engine (World Unit) :=
    fun _ _ w => (.result ⟨.succeeded, none, 1, [], default, []⟩, w)
  let c : Reconciler := ⟨default, fun _ => none⟩
  have works := World.tolerating_perform engine
  have fails := World.tolerating_performFailing engine .notDirectory Store.outage
  refine ⟨c, ⟨"a", "p"⟩, engine, _, _, whereOneRepeats, works, fails, ?_, ?_, ?_,
    c.agree_of_reconcile ⟨"a", "p"⟩ works fails whereOneRepeats⟩
  · decide +kernel
  · decide +kernel
  · decide +kernel

end Drayage
