import Drayage.Proofs.Controller.Failing

/-!
# Refreshes are recorded when they are handled

A refresh is asked for by a token, which the final write of a reconcile records as handled.
The token is that of the Promotion as it was read, and others may ask for another refresh
while the steps are carried out. Then the write is refused, for it is made against the
version that was read. So the token that is recorded is the one that is stored at that
moment, and it was there before the engine was called.
-/

namespace Drayage

open Program

/-- How a write over a Promotion treats its refresh. A running Promotion that is not to be
aborted gets its final status, and the refresh it asks for is handled with it, if it asks for
one. Any other write leaves the record as it is. -/
structure Promotion.Records (q : Promotion) (s : PromotionStatus) : Prop where
  final : q.status.phase = some .running → q.Unaborted → s.lastHandledRefresh =
    (Annotations.refreshToken q.metadata.annotations).or q.status.lastHandledRefresh
  early : ¬ (q.status.phase = some .running ∧ q.Unaborted) →
    s.lastHandledRefresh = q.status.lastHandledRefresh

namespace Reply

theorem exists_of_stored {reply : Reply} {s : PromotionStatus} (h : reply.stored? = some s) :
    ∃ key version v, reply = ⟨.updateStatus key version s, .ok v⟩ := by
  obtain ⟨r, a⟩ := reply
  cases r with
  | updateStatus key version s' =>
    cases a with
    | ok v =>
      cases h
      exact ⟨key, version, v, rfl⟩
    | error e => cases h
  | now | getPromotion | getStage | getFreight | listPromotions | requestReverification | acquire
  | release | promote | emit => cases h

/-- What a reconcile holds after a reply. Over a running Promotion it writes once. -/
def leaves : Reply → Option Promotion → Option Promotion
  | ⟨.updateStatus _ _ s, .ok v⟩, some p =>
    if p.status.phase = some .running then none else some (p.withStatus v s)
  | _, held => held

/-- A status is written over what is held, and the engine is called for a Promotion that is held
and running. -/
def Suits (held : Option Promotion) : Reply → Prop
  | ⟨.updateStatus key version s, .ok _⟩ =>
    ∃ q, held = some q ∧ key = q.key ∧ version = q.metadata.version ∧ q.Records s
  | ⟨.promote _ _, _⟩ => ∃ q, held = some q ∧ q.status.phase = some .running ∧ q.Unaborted
  | _ => True

end Reply

/-- What a reconcile holds after some replies. -/
def heldAfter (held : Option Promotion) (replies : List Reply) : Option Promotion :=
  replies.foldl (fun held reply => reply.leaves held) held

/-- All replies suit what is held when they come. -/
def Suit : Option Promotion → List Reply → Prop
  | _, [] => True
  | held, reply :: replies => reply.Suits held ∧ Suit (reply.leaves held) replies

variable {held : Option Promotion} {p q : Promotion} {replies front back : List Reply}

theorem heldAfter_append :
    heldAfter held (front ++ back) = heldAfter (heldAfter held front) back :=
  List.foldl_append

theorem suit_append : Suit held (front ++ back) ↔
    Suit held front ∧ Suit (heldAfter held front) back := by
  induction front generalizing held with
  | nil => exact (true_and _).symm.to_iff
  | cons reply front ih => exact (and_congr_right fun _ => ih).trans and_assoc.symm

theorem leaves_of_unwritten {reply : Reply} (unwritten : reply.stored? = none) :
    reply.leaves held = held := by
  obtain ⟨r, a⟩ := reply
  cases r with
  | updateStatus key version s =>
    cases a with
    | ok v => cases unwritten
    | error e => rfl
  | now | getPromotion | getStage | getFreight | listPromotions | requestReverification | acquire
  | release | promote | emit => rfl

/-- A reply by which nothing is written suits whatever is held, unless the engine was called. -/
theorem suits_of_inert {reply : Reply} (unwritten : reply.stored? = none)
    (uncalled : reply.engine? = none) : reply.Suits held := by
  obtain ⟨r, a⟩ := reply
  cases r with
  | updateStatus key version s =>
    cases a with
    | ok v => cases unwritten
    | error e => trivial
  | promote => cases uncalled
  | now | getPromotion | getStage | getFreight | listPromotions | requestReverification | acquire
  | release | emit => trivial

theorem heldAfter_of_unwritten (unwritten : replies.filterMap Reply.stored? = []) :
    heldAfter held replies = held := by
  have unwritten := List.filterMap_eq_nil_iff.mp unwritten
  induction replies with
  | nil => rfl
  | cons reply replies ih =>
    obtain ⟨first, later⟩ := List.forall_mem_cons.mp unwritten
    show heldAfter (reply.leaves held) replies = held
    rw [leaves_of_unwritten first, ih (List.filterMap_eq_nil_iff.mpr later) later]

theorem suit_of_inert (unwritten : replies.filterMap Reply.stored? = [])
    (uncalled : replies.filterMap Reply.engine? = []) : Suit held replies := by
  have unwritten := List.filterMap_eq_nil_iff.mp unwritten
  have uncalled := List.filterMap_eq_nil_iff.mp uncalled
  induction replies with
  | nil => trivial
  | cons reply replies ih =>
    obtain ⟨first, later⟩ := List.forall_mem_cons.mp unwritten
    obtain ⟨first', later'⟩ := List.forall_mem_cons.mp uncalled
    refine ⟨suits_of_inert first first', ?_⟩
    rw [leaves_of_unwritten first]
    exact ih (List.filterMap_eq_nil_iff.mpr later) (List.filterMap_eq_nil_iff.mpr later') later
      later'

namespace Reconciler

variable {c : Reconciler} {stage : Stage} {freight : Option Freight} {initial : Option Phase}
  {s s' : PromotionStatus} {e : Ending}

theorem suit_of_promotes {promoted : Promoted} (running : p.status.phase = some .running)
    (unaborted : p.Unaborted) (h : c.Promotes p stage freight replies promoted) :
    Suit (some p) replies := by
  have called : ∃ q, some p = some q ∧ q.status.phase = some .running ∧ q.Unaborted :=
    ⟨p, rfl, running, unaborted⟩
  cases h with
  | unfound | unavailable => trivial
  | roomless => exact ⟨trivial, trivial⟩
  | crashed => exact ⟨trivial, called, trivial⟩
  | answered f found available fresh r settles =>
    exact ⟨trivial, called,
      suit_of_inert settles.unwritten.stored (engine_of_settles settles)⟩

theorem suits_write (running : p.status.phase = some .running) (unaborted : p.Unaborted)
    (records : s.lastHandledRefresh =
      (Annotations.refreshToken p.metadata.annotations).or p.status.lastHandledRefresh) (v : Nat) :
    Reply.Suits (some p) ⟨write p s, .ok v⟩ :=
  ⟨p, rfl, rfl, rfl, fun _ _ => records, fun unfinal => absurd ⟨running, unaborted⟩ unfinal⟩

theorem suit_of_persists {persisted : Except StoreError PromotionStatus}
    (running : p.status.phase = some .running) (unaborted : p.Unaborted)
    (records : s.lastHandledRefresh =
      (Annotations.refreshToken p.metadata.annotations).or p.status.lastHandledRefresh)
    (h : Persists p s replies persisted) : Suit (some p) replies := by
  cases h with
  | written v => exact ⟨suits_write running unaborted records v, trivial⟩
  | refused => exact ⟨trivial, trivial⟩
  | replaced err invalid now v =>
    have replaces := suits_write (s := fallback p s err now) running unaborted records v
    exact ⟨trivial, trivial, replaces, trivial⟩
  | refusedAgain => exact ⟨trivial, trivial, trivial, trivial⟩

/-- Up to the final write nothing is written. -/
theorem suit_of_stamped {steps draft stamp : List Reply} {promoted : Promoted}
    (running : p.status.phase = some .running) (unaborted : p.Unaborted)
    (promotes : c.Promotes p stage freight steps promoted) (drafts : Drafts p promoted draft s)
    (stamps : Stamps p s stamp s') (rest : Suit (some p) back) :
    Suit (some p) (steps ++ (draft ++ (stamp ++ back))) := by
  refine suit_append.mpr ⟨suit_of_promotes running unaborted promotes, ?_⟩
  rw [heldAfter_of_unwritten promotes.unwritten.stored]
  have uncalled : draft.filterMap Reply.engine? = [] := by cases drafts <;> rfl
  refine suit_append.mpr ⟨suit_of_inert drafts.unwritten.stored uncalled, ?_⟩
  rw [heldAfter_of_unwritten drafts.unwritten.stored]
  refine suit_append.mpr ⟨suit_of_inert stamps.unwritten.stored stamps.idle.engine, ?_⟩
  rwa [heldAfter_of_unwritten stamps.unwritten.stored]

theorem suit_of_executes (running : p.status.phase = some .running) (unaborted : p.Unaborted)
    (h : c.Executes p stage freight initial replies e) : Suit (some p) replies := by
  cases h with
  | refused err promotes drafts stamps persists =>
    have records := (proposes_of_drafted promotes drafts stamps).refreshed
    exact suit_of_stamped running unaborted promotes drafts stamps
      (suit_of_persists running unaborted records persists)
  | concluded promotes drafts stamps persists concludes =>
    have records := (proposes_of_drafted promotes drafts stamps).refreshed
    refine suit_of_stamped running unaborted promotes drafts stamps (suit_append.mpr ⟨?_, ?_⟩)
    · exact suit_of_persists running unaborted records persists
    · exact suit_of_inert concludes.unwritten.stored concludes.idle.engine

theorem suit_of_pends (h : Pends p front q) (rest : Suit (some q) back) :
    Suit (some p) (front ++ back) := by
  cases h with
  | known => exact rest
  | written unknown v =>
    have resting : p.status.phase ≠ some .running := by
      rw [unknown]
      exact nofun
    have records : p.Records (pended p.status) :=
      ⟨fun running => absurd running resting, fun _ => rfl⟩
    refine ⟨⟨p, rfl, rfl, rfl, records⟩, ?_⟩
    show Suit (if p.status.phase = some .running then none else _) back
    rwa [if_neg resting]

theorem suit_of_begins (h : Begins p front q) (rest : Suit (some q) back) :
    Suit (some p) (front ++ back) := by
  cases h with
  | running => exact rest
  | written waiting now v =>
    have records : p.Records (begun p.status now) :=
      ⟨fun running => absurd running waiting, fun _ => rfl⟩
    refine ⟨trivial, ⟨p, rfl, rfl, rfl, records⟩, ?_⟩
    show Suit (if p.status.phase = some .running then none else _) back
    rwa [if_neg waiting]

theorem suit_of_approaches {key : Key} (unaborted : p.Unaborted)
    (h : c.Approaches key p freight replies e) : Suit (some p) replies := by
  cases h with
  | blind | stageless | parked => exact ⟨trivial, trivial⟩
  | refused => exact ⟨trivial, trivial, trivial, trivial⟩
  | admitted stage named begins executes =>
    refine ⟨trivial, suit_of_begins begins ?_⟩
    exact suit_of_executes begins.phase (begins.keeps.unaborted unaborted) executes

theorem suit_of_terminates {request : AbortRequest} {r : Except ReconcileError Unit}
    (asked : Annotations.abortRequest p.metadata.annotations = .ok (some request))
    (h : c.Terminates request p freight replies r) : Suit (some p) replies := by
  cases h with
  | ended => trivial
  | refused => exact ⟨trivial, trivial, trivial⟩
  | terminated unended now v a n =>
    have records : p.Records (p.status.terminated (request.actorFor c.config.name) now) :=
      ⟨fun _ unaborted => absurd asked (unaborted request), fun _ => rfl⟩
    exact ⟨trivial, ⟨p, rfl, rfl, rfl, records⟩, trivial, trivial, trivial⟩

/-- What follows the Promotion that was read suits it. -/
theorem suit_of_visits {key : Key} (h : c.Visits key replies e) :
    (replies.filterMap Reply.stored? = [] ∧ replies.filterMap Reply.engine? = []) ∨
      ∃ p rest, replies = ⟨.getPromotion key, .ok (some p)⟩ :: rest ∧ Suit (some p) rest := by
  cases h with
  | blind | absent | ended | unsupplied | unmarked => exact .inl ⟨rfl, rfl⟩
  | aborted p unended freight request asked terminates =>
    exact .inr ⟨p, _, rfl, trivial, suit_of_terminates asked terminates⟩
  | approached p unended freight unaborted pends approaches =>
    refine .inr ⟨p, _, rfl, trivial, suit_of_pends pends ?_⟩
    exact suit_of_approaches (pends.keeps.unaborted unaborted) approaches

end Reconciler

/-- A reply leaves what is held, or it is that of an accepted write. -/
theorem leaves_cases (reply : Reply) (p : Promotion) :
    (reply.stored? = none ∧ reply.leaves (some p) = some p) ∨
      ∃ key version s v, reply = ⟨.updateStatus key version s, .ok v⟩ ∧
        (p.status.phase = some .running ∧ reply.leaves (some p) = none ∨
          p.status.phase ≠ some .running ∧ reply.leaves (some p) = some (p.withStatus v s)) := by
  cases written : reply.stored? with
  | none => exact .inl ⟨rfl, leaves_of_unwritten written⟩
  | some s =>
    obtain ⟨key, version, v, rfl⟩ := Reply.exists_of_stored written
    refine .inr ⟨key, version, s, v, rfl, ?_⟩
    by_cases running : p.status.phase = some .running
    · exact .inl ⟨running, if_pos running⟩
    · exact .inr ⟨running, if_neg running⟩

theorem heldAfter_none (replies : List Reply) : heldAfter none replies = none := by
  induction replies with
  | nil => rfl
  | cons reply replies ih =>
    have same : reply.leaves none = none := by
      unfold Reply.leaves
      split
      · rename_i h
        cases h
      · rfl
    show heldAfter (reply.leaves none) replies = none
    rw [same, ih]

/-- A reconcile keeps what it holds, but for the statuses that it writes. -/
theorem keeps_of_heldAfter (h : heldAfter (some p) replies = some q) : p.Keeps q := by
  induction replies generalizing p with
  | nil =>
    cases h
    exact .refl _
  | cons reply replies ih =>
    replace h : heldAfter (reply.leaves (some p)) replies = some q := h
    rcases leaves_cases reply p with ⟨_, same⟩ | ⟨_, _, s, v, _, ⟨_, closed⟩ | ⟨_, written⟩⟩
    · exact ih (same ▸ h)
    · rw [closed, heldAfter_none] at h
      cases h
    · exact (p.keeps_withStatus v s).trans (ih (written ▸ h))

/-- Over a running Promotion a reconcile writes once. -/
theorem heldAfter_of_running (running : p.status.phase = some .running)
    (h : heldAfter (some p) replies = some q) : q = p := by
  induction replies with
  | nil =>
    cases h
    rfl
  | cons reply replies ih =>
    replace h : heldAfter (reply.leaves (some p)) replies = some q := h
    rcases leaves_cases reply p with ⟨_, same⟩ | ⟨_, _, s, v, _, ⟨_, closed⟩ | ⟨waiting, _⟩⟩
    · exact ih (same ▸ h)
    · rw [closed, heldAfter_none] at h
      cases h
    · exact absurd running waiting

/-- What is held when the engine has been called is a running Promotion that is not to be
aborted. -/
theorem running_of_called (called : replies.filterMap Reply.engine? ≠ [])
    (suit : Suit (some p) replies) (h : heldAfter (some p) replies = some q) :
    q.status.phase = some .running ∧ q.Unaborted := by
  induction replies generalizing p with
  | nil => exact absurd rfl called
  | cons reply replies ih =>
    replace h : heldAfter (reply.leaves (some p)) replies = some q := h
    obtain ⟨first, later⟩ := suit
    rcases leaves_cases reply p with ⟨_, same⟩ | ⟨_, _, s, v, rfl, ⟨_, closed⟩ | ⟨_, written⟩⟩
    · rw [same] at h later
      cases calls : reply.engine? with
      | none => exact ih (by rwa [List.filterMap_cons_none calls] at called) later h
      | some a =>
        obtain ⟨r, a⟩ := reply
        cases r with
        | promote ctx steps =>
          obtain ⟨p', here, running, unaborted⟩ := first
          cases here
          rw [heldAfter_of_running running h]
          exact ⟨running, unaborted⟩
        | now | getPromotion | getStage | getFreight | listPromotions | updateStatus
        | requestReverification | acquire | release | emit => cases calls
    · rw [closed, heldAfter_none] at h
      cases h
    · rw [written] at h later
      exact ih called later h

variable {ε : Type} {w w' u u' : World ε} {changes : List (Change Promotion)}
  {notices : List Notice} {s : PromotionStatus}

/-- What a store has kept was there before. -/
theorem Store.stored_of_grows {s s' : Store} (pins : s.Pins p) (grows : s.Grows s')
    (stored : s'.promotions.get? p.key = some p) : s.promotions.get? p.key = some p := by
  rcases grows.2 _ _ stored with before | later
  · exact before
  · exact absurd pins.1 (Nat.not_le_of_lt later)

namespace World

/-- A request by which nothing is written, after others have called the store. -/
theorem grown_of_unwritten {r : Request} {a : r.Answer} {calls : List StoreCall}
    (sound : w.store.Sound) (others : u.store = w.store.run calls)
    (answers : u.Answers (fun _ _ _ => True) r a u' ∨ r.Denied a ∧ u' = u)
    (unwritten : Reply.stored? ⟨r, a⟩ = none) :
    u'.store.Sound ∧ w.store.Grows u'.store := by
  obtain ⟨sound, grows⟩ := others ▸ Store.grown_run sound calls
  rcases answers with answers | ⟨_, rfl⟩
  · obtain ⟨_, sound, onward⟩ := unchanged_of_answers sound unwritten answers
    exact ⟨sound, grows.trans onward⟩
  · exact ⟨sound, grows⟩

/-- A write that is accepted finds the Promotion that it is made over. -/
theorem stored_of_accepted {v : Nat} (sound : w.store.Sound) (pins : w.store.Pins p)
    (answers : w.Answers (fun _ _ _ => True) (Reconciler.write p s) (.ok v) w') :
    w.store.promotions.get? p.key = some p ∧
      w'.store.promotions.get? p.key = some (p.withStatus v s) := by
  obtain ⟨old, stored, _, version, _, _, rfl⟩ := answers.written sound
  cases pins.2 old stored version
  exact ⟨stored, (Store.get?_writePromotion _ _ _).trans (if_pos rfl)⟩

/-- What is held stays pinned, whatever others do in between. -/
theorem faces_heldAfter (sound : w.store.Sound) (pins : w.store.Pins p)
    (suit : Suit (some p) replies) (faces : w.Faces replies changes notices w')
    (h : heldAfter (some p) replies = some q) : w'.store.Sound ∧ w'.store.Pins q := by
  induction replies generalizing w p changes notices with
  | nil =>
    cases h
    cases faces with
    | nil calls others =>
      obtain ⟨sound, grows⟩ := others ▸ Store.grown_run sound calls
      exact ⟨sound, pins.grow grows⟩
  | cons reply replies ih =>
    replace h : heldAfter (reply.leaves (some p)) replies = some q := h
    obtain ⟨first, later⟩ := suit
    rcases leaves_cases reply p with
      ⟨unwritten, same⟩ | ⟨_, _, s, v, rfl, ⟨_, closed⟩ | ⟨_, written⟩⟩
    · rw [same] at h later
      cases faces with
      | cons calls others answers rest =>
        obtain ⟨sound, grows⟩ := grown_of_unwritten sound others answers unwritten
        exact ih sound (pins.grow grows) later rest h
    · rw [closed, heldAfter_none] at h
      cases h
    · rw [written] at h later
      obtain ⟨_, here, rfl, rfl, _⟩ := first
      cases here
      obtain ⟨u, _, rfl, sound, pins, rest⟩ := faces_written sound pins faces
      exact ih sound pins later rest h

/-- If a Promotion that is held is still there in the end, it was there all the time. -/
theorem stored_of_faces (sound : w.store.Sound) (pins : w.store.Pins p)
    (suit : Suit (some p) replies) (faces : w.Faces replies changes notices w')
    (h : heldAfter (some p) replies = some q)
    (stored : w'.store.promotions.get? q.key = some q) :
    w.store.promotions.get? p.key = some p := by
  induction replies generalizing w p changes notices with
  | nil =>
    cases h
    cases faces with
    | nil calls others =>
      obtain ⟨_, grows⟩ := others ▸ Store.grown_run sound calls
      exact Store.stored_of_grows pins grows stored
  | cons reply replies ih =>
    replace h : heldAfter (reply.leaves (some p)) replies = some q := h
    obtain ⟨first, later⟩ := suit
    rcases leaves_cases reply p with
      ⟨unwritten, same⟩ | ⟨_, _, s, v, rfl, ⟨_, closed⟩ | ⟨_, written⟩⟩
    · rw [same] at h later
      cases faces with
      | cons calls others answers rest =>
        obtain ⟨sound, grows⟩ := grown_of_unwritten sound others answers unwritten
        exact Store.stored_of_grows pins grows (ih sound (pins.grow grows) later rest h)
    · rw [closed, heldAfter_none] at h
      cases h
    · obtain ⟨_, here, rfl, rfl, _⟩ := first
      cases here
      obtain ⟨calls, _, _, _, _, others, answers, _⟩ :=
        faces_answered faces Request.not_denied_write
      obtain ⟨sound, grows⟩ := others ▸ Store.grown_run sound calls
      have found := (stored_of_accepted sound (pins.grow grows) answers).1
      exact Store.stored_of_grows pins grows found

/-- What was read is stored under the key that was asked for. -/
theorem key_of_faces {key : Key} (sound : w.store.Sound)
    (h : w.Faces (⟨.getPromotion key, .ok (some p)⟩ :: replies) changes notices w') :
    p.key = key := by
  obtain ⟨calls, _, _, _, _, others, answers, _⟩ := faces_answered h Request.not_denied_read
  obtain ⟨sound, _⟩ := others ▸ Store.grown_run sound calls
  exact sound.promotion_key answers.read.2.2

/-- What others do after the last reply is put down to them. -/
theorem Faces.later (h : w.Faces replies changes notices u) {calls : List StoreCall}
    (others : u'.store = u.store.run calls) : w.Faces replies changes notices u' := by
  induction h with
  | nil before same =>
    refine .nil (before ++ calls) ?_
    rw [others, same]
    exact List.foldl_append.symm
  | cons before same answers rest ih => exact .cons before same answers (ih others)

/-- A status that was stored was stored at some moment. -/
theorem accepted_of_faces {k : Key} {n v : Nat}
    (h : w.Faces (front ++ ⟨.updateStatus k n s, .ok v⟩ :: back) changes notices w') :
    ∃ (changes : List (Change Promotion)) (notices : List Notice) (u u' : World ε),
      w.Faces front changes notices u ∧
        u.Answers (fun _ _ _ => True) (.updateStatus k n s) (.ok v) u' := by
  obtain ⟨u, changes₁, _, notices₁, _, first, rest, _, _⟩ := faces_append h
  obtain ⟨_, v, v', _, _, others, answers, _⟩ := faces_answered rest Request.not_denied_write
  exact ⟨changes₁, notices₁, v, v', first.later others, answers⟩

end World

/-- A status is stored over `q`, in a reconcile that has read `p`. It got `front` before that,
and the rest of what it gets is `back`. -/
structure Recorded (key : Key) (front back : List Reply) (v : Nat) (s : PromotionStatus)
    (u u' : World ε) (p q : Promotion) : Prop where
  /-- Before anything else the Promotion was read. -/
  read : front.head? = some ⟨.getPromotion key, .ok (some p)⟩
  stored : u.store.promotions.get? key = some q
  written : u'.store.promotions.get? key = some (q.withStatus v s)
  /-- It asks for what it has asked for when it was read. -/
  same : q.metadata.annotations = p.metadata.annotations
  records : q.Records s
  /-- Once the engine was called, nothing but the final status is written. -/
  called : front.filterMap Reply.engine? ≠ [] → q.status.phase = some .running ∧ q.Unaborted
  last : q.status.phase = some .running → back.filterMap Reply.stored? = []

/-- At every moment between the first reply and the end of them, the Promotion asks for what it has
asked for when it was read. -/
def AsksAlike (key : Key) (w : World ε) (replies : List Reply) (w' : World ε) (p : Promotion) :
    Prop :=
  ∀ (early late : List Reply) (m : World ε) (changes changes' : List (Change Promotion))
    (notices notices' : List Notice), replies = early ++ late → early ≠ [] →
      w.Faces early changes notices m → m.Faces late changes' notices' w' →
        ∃ o, m.store.promotions.get? key = some o ∧
          o.metadata.annotations = p.metadata.annotations

theorem asksAlike_of_stored {key : Key} (sound : w.store.Sound) (suit : Suit (some p) replies)
    (own : p.key = key) (held : heldAfter (some p) replies = some q)
    (stored : u.store.promotions.get? key = some q) :
    AsksAlike key w (⟨.getPromotion key, .ok (some p)⟩ :: replies) u p := by
  intro early late m changes changes' notices notices' split begun first later
  cases early with
  | nil => exact absurd rfl begun
  | cons reply early =>
    rw [List.cons_append, List.cons.injEq] at split
    obtain ⟨rfl, rfl⟩ := split
    obtain ⟨before, after⟩ := suit_append.mp suit
    rw [heldAfter_append] at held
    obtain ⟨w₀, sound, pins, first⟩ := World.faces_read sound first
    cases kept : heldAfter (some p) early with
    | none =>
      rw [kept, heldAfter_none] at held
      cases held
    | some o =>
      rw [kept] at held after
      have keeps := keeps_of_heldAfter kept
      have key := (keeps.trans (keeps_of_heldAfter held)).key
      obtain ⟨sound, pins⟩ := World.faces_heldAfter sound pins before first kept
      have there : u.store.promotions.get? q.key = some q := by rwa [key, own]
      refine ⟨o, ?_, keeps.annotations⟩
      rw [← own, ← keeps.key]
      exact World.stored_of_faces sound pins after later held there

/-- After its last write a reconcile holds nothing any more, and writes nothing. -/
theorem unwritten_of_closed (suit : Suit none replies) : replies.filterMap Reply.stored? = [] := by
  induction replies with
  | nil => rfl
  | cons reply replies ih =>
    obtain ⟨first, later⟩ := suit
    have same : heldAfter none [reply] = none := heldAfter_none [reply]
    have unwritten : reply.stored? = none := by
      cases written : reply.stored? with
      | none => rfl
      | some s =>
        obtain ⟨_, _, _, rfl⟩ := Reply.exists_of_stored written
        obtain ⟨_, held, _⟩ := first
        cases held
    rw [List.filterMap_cons_none unwritten]
    exact ih (same ▸ later)

/-- Whenever a status is stored, and whatever others have called meanwhile, a final one records
the refresh that its Promotion asks for at this moment, or what was recorded before if it asks
for none. Any other leaves the record. What the Promotion asks for has not changed since it was
read, which was before the engine was called. -/
theorem Reconciler.recorded_of_course {c : Reconciler} {key k : Key} {n v : Nat} {e : Ending}
    (sound : w.store.Sound)
    (course : (c.reconcile key).Course (front ++ ⟨.updateStatus k n s, .ok v⟩ :: back) e)
    (faces : w.Faces front changes notices u)
    (answers : u.Answers (fun _ _ _ => True) (.updateStatus k n s) (.ok v) u') :
    ∃ p q, Recorded key front back v s u u' p q ∧ AsksAlike key w front u p := by
  rcases c.suit_of_visits (c.visits_of_course course) with ⟨unwritten, _⟩ | ⟨p, rest, split, suit⟩
  · rw [List.filterMap_append] at unwritten
    cases (List.append_eq_nil_iff.mp unwritten).2
  · cases front with
    | nil => cases split
    | cons read front =>
      obtain ⟨rfl, rfl⟩ := List.cons.inj split
      have own := World.key_of_faces sound faces
      obtain ⟨w₀, sound', pins, told⟩ := World.faces_read sound faces
      obtain ⟨before, ⟨q, held, rfl, rfl, records⟩, after⟩ := suit_append.mp suit
      obtain ⟨sound', pins⟩ := World.faces_heldAfter sound' pins before told held
      have keeps := keeps_of_heldAfter held
      obtain ⟨stored, written⟩ := World.stored_of_accepted sound' pins answers
      rw [keeps.key, own] at stored written
      refine ⟨p, q, ?_, asksAlike_of_stored sound before own held stored⟩
      refine ⟨rfl, stored, written, keeps.annotations, records, ?_, fun running => ?_⟩
      · intro called
        have called : front.filterMap Reply.engine? ≠ [] := called
        exact running_of_called called before held
      · rw [held] at after
        have closed : Reply.leaves ⟨write q s, .ok v⟩ (some q) = none := if_pos running
        exact unwritten_of_closed (closed ▸ after)

/-- `whereOneWaits` after a refresh was asked for, with a store that refuses nothing. -/
def whereOneAsks : World (List Outage) :=
  let asks : Edit := .annotate ⟨"a", "p"⟩ Annotations.refreshKey "again"
  ⟨default, (Traffic.oneWaits ++ [asks]).foldl Edit.apply .empty, .empty, #[], []⟩

/-- The refresh that was asked for before is recorded with the success. -/
theorem recorded_of_whereOneAsks : ∃ (c : Reconciler) (key k : Key) (n v : Nat)
    (front back : List Reply) (s : PromotionStatus) (e : Ending)
    (changes : List (Change Promotion)) (notices : List Notice)
    (w u u' : World (List Outage)), w.store.Sound ∧
      (c.reconcile key).Course (front ++ ⟨.updateStatus k n s, .ok v⟩ :: back) e ∧
      w.Faces front changes notices u ∧
      u.Answers (fun _ _ _ => True) (.updateStatus k n s) (.ok v) u' ∧
      front.filterMap Reply.engine? ≠ [] ∧ s.lastHandledRefresh = some "again" ∧
      ∃ p q, Recorded key front back v s u u' p q ∧ AsksAlike key w front u p := by
  let engine := Reconciler.succeedingEngine
  let perform := Outage.perform id (fun left _ => left) (World.perform engine)
  let told := Traffic.reconcileOne.told perform whereOneAsks
  have sound : whereOneAsks.store.Sound := Store.sound_edits Store.sound_empty _
  have course := course_run perform Traffic.reconcileOne whereOneAsks
  obtain ⟨_, _, faces⟩ := World.faces_told id (fun left _ => left) engine (fun _ _ _ => rfl)
    Traffic.reconcileOne whereOneAsks
  have called : (told.take 10).filterMap Reply.engine? ≠ [] := by decide +kernel
  have tenth : ((told.drop 10).head?.bind Reply.stored?).map (·.lastHandledRefresh) =
    some (some "again") := by decide +kernel
  have split : told.take 10 ++ told.drop 10 = told := List.take_append_drop 10 told
  cases rest : told.drop 10 with
  | nil =>
    rw [rest] at tenth
    cases tenth
  | cons reply back =>
    rw [rest] at tenth split
    obtain ⟨s, stored, recorded⟩ := Option.map_eq_some_iff.mp tenth
    obtain ⟨k, n, v, rfl⟩ := Reply.exists_of_stored stored
    have course : Traffic.reconcileOne.Course told _ := course
    rw [← split] at course
    have faces : whereOneAsks.Faces told _ _ _ := faces
    rw [← split] at faces
    obtain ⟨_, _, u, u', faces, answers⟩ := World.accepted_of_faces faces
    exact ⟨_, _, _, _, _, _, _, _, _, _, _, _, _, _, sound, course, faces, answers, called,
      recorded, Reconciler.recorded_of_course sound course faces answers⟩

end Drayage
