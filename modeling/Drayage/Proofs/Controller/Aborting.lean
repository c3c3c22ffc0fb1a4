import Drayage.Proofs.Controller.Shape
import Drayage.Proofs.Controller.Vacating
import Drayage.Proofs.Resource.Requesting

/-!
# Requests to abort

A Promotion that is asked to abort is not taken further. It is ended with a message that
names whoever asked, and that is written as it is: if the name is so long that the store does
not keep the message, nothing is written, and asking again comes to the same.
-/

namespace Drayage

open Program

variable {ε : Type} {w : World ε} {key : Key} {p : Promotion} {request : AbortRequest}

namespace AbortRequest

/-- The message of an abort. -/
def words (request : AbortRequest) (controller : String) : String :=
  PromotionStatus.terminationMessage (request.actorFor controller)

/-- The message of an abort is one that the store keeps. -/
def Fits (request : AbortRequest) (controller : String) : Prop :=
  (request.words controller).utf8ByteSize ≤ messageLimit

end AbortRequest

theorem unfit?_terminated {actor : String} (now : Instant)
    (h : p.status.unfit? p.spec = none) :
    (p.status.terminated actor now).unfit? p.spec =
      if (PromotionStatus.terminationMessage actor).utf8ByteSize ≤ messageLimit then none
      else some (.messageTooLong (PromotionStatus.terminationMessage actor).utf8ByteSize) := by
  obtain ⟨step, records, _⟩ := unfit?_eq_none_iff.mp h
  rw [← PromotionStatus.length_abortedRecords _ now] at records
  unfold PromotionStatus.unfit? PromotionStatus.terminated
  dsimp only
  rw [if_neg (Nat.not_lt.mpr step), if_neg (Nat.not_lt.mpr records), Option.getD_some]
  split
  · rename_i long
    exact (if_neg (Nat.not_le.mpr long)).symm
  · rename_i short
    exact (if_pos (Nat.not_lt.mp short)).symm

namespace Json

/-- A character that stands for itself in a string. -/
def Plain (c : Char) : Prop := c ≠ '"' ∧ c ≠ '\\' ∧ 0x20 ≤ c.toNat

theorem escapeChar_plain {c : Char} (plain : Plain c) : escapeChar c = [c] := by
  obtain ⟨quote, backslash, visible⟩ := plain
  have other (b : Char) (control : b.toNat < 0x20) : c ≠ b := by
    rintro rfl
    exact Nat.not_lt.mpr visible control
  simp [escapeChar, quote, backslash, Nat.not_lt.mpr visible, other '\x08' (by decide),
    other '\x0c' (by decide), other '\n' (by decide), other '\r' (by decide),
    other '\t' (by decide)]

theorem printText_plain {cs : List Char} (plain : ∀ c ∈ cs, Plain c) :
    printText cs = '"' :: cs ++ ['"'] := by
  have same : cs.flatMap escapeChar = cs := by
    induction cs with
    | nil => rfl
    | cons c cs ih =>
      rw [List.flatMap_cons, escapeChar_plain (plain c List.mem_cons_self),
        ih fun d hd => plain d (List.mem_cons_of_mem _ hd), List.singleton_append]
  rw [printText, same]

end Json

namespace AbortRequest

/-- What an annotation that asks to abort begins with if somebody is named. -/
def opening : List Char := "\x7b\"action\":\"terminate\",\"actor\":\"".toList

/-- The annotation of somebody who asks to abort. -/
def askedBy (name : List Char) : String := String.ofList (opening ++ (name ++ ['"', '\x7d']))

/-- Somebody with a plain name asks in the way in which every request is written. -/
theorem annotationValue_terminate {name : List Char} (plain : ∀ c ∈ name, Json.Plain c) :
    (terminate (some (String.ofList name))).annotationValue = askedBy name := by
  have written : codec.write (terminate (some (String.ofList name))) =
      .record [("action", .text "terminate"), ("actor", .text (String.ofList name))] := rfl
  have beginning : opening = '\x7b' :: (Json.printText "action".toList ++
      ':' :: (Json.printText "terminate".toList ++
        ',' :: (Json.printText "actor".toList ++ [':', '"']))) := by
    decide
  rw [annotationValue, written, Json.compact, askedBy, beginning]
  simp only [Json.print, Json.printMembers, String.toList_ofList, Json.printText_plain plain,
    List.append_assoc, List.cons_append, List.nil_append]

theorem abortRequest_askedBy {name : List Char} (plain : ∀ c ∈ name, Json.Plain c) :
    Annotations.abortRequest (Dict.insert ∅ Annotations.abortKey (askedBy name)) =
      .ok (some (.terminate (some (String.ofList name)))) := by
  unfold Annotations.abortRequest
  rw [Dict.get?_insert, if_pos (by simp), ← annotationValue_terminate plain]
  dsimp only
  rw [parse_annotationValue]
  rfl

end AbortRequest

namespace Workspaces

variable {ws : Workspaces} {uid : Uid}

/-- If the workspace is there, it can be removed. -/
def Removable (ws : Workspaces) (uid : Uid) : Prop :=
  ws.holds uid = true → ∃ ws', ws.release uid = .ok ws'

/-- What becomes of the workspaces when one is released, if that works. -/
def vacate (ws : Workspaces) (uid : Uid) : Workspaces :=
  match ws.release uid with
  | .ok ws' => ws'
  | .error _ => ws

theorem holds_vacate : (ws.vacate uid).holds uid = false ↔ ws.Removable uid := by
  unfold vacate Removable
  cases released : ws.release uid with
  | ok ws' => simp [holds_release released]
  | error e => simp

end Workspaces

namespace World

theorem snd_release (uid : Uid) :
    (release uid w).2 = { w with workspaces := w.workspaces.vacate uid } := by
  unfold release Workspaces.vacate
  cases w.workspaces.release uid <;> rfl

end World

/-- A Promotion that is there, has not ended and is asked to abort, with nothing wrong but
perhaps the request. -/
structure Abortable (w : World ε) (key : Key) (p : Promotion) (request : AbortRequest) : Prop where
  sound : w.store.Sound
  available : w.store.available = true
  stored : w.store.promotions.get? key = some p
  unended : p.status.isTerminal = false
  fit : p.status.unfit? p.spec = none
  asked : Annotations.abortRequest p.metadata.annotations = .ok (some request)

namespace World

variable {engine : Engine (World ε)} {s : PromotionStatus}

theorem perform_updateStatus_of_fit (available : w.store.available = true)
    (stored : w.store.promotions.get? p.key = some p) (fit : s.unfit? p.spec = none) :
    perform engine (.updateStatus p.key p.metadata.version s) w =
      (.ok (w.store.version + 1), { w with
        store := w.store.writePromotion (some p) (p.withStatus (w.store.version + 1) s) }) := by
  show attempt (·.updateStatus p.key p.metadata.version s) w = _
  unfold attempt Store.updateStatus Store.whenAvailable
  simp [available, stored, fit, Promotion.withStatus]

theorem perform_updateStatus_of_unfit {unfit : Unfit} (available : w.store.available = true)
    (stored : w.store.promotions.get? p.key = some p) (h : s.unfit? p.spec = some unfit) :
    perform engine (.updateStatus p.key p.metadata.version s) w =
      (.error (.invalid p.key unfit), w) := by
  show attempt (·.updateStatus p.key p.metadata.version s) w = _
  unfold attempt Store.updateStatus Store.whenAvailable
  simp [available, stored, h]

end World

namespace Reconciler

variable (c : Reconciler) (engine : Engine (World ε))

/-- What is to come of a request to abort. -/
structure TakesEffect (w : World ε) (p : Promotion) (replies : List Reply) (e : Ending)
    (w' : World ε) : Prop where
  finished : e = .finished none
  aborted : ∃ q, w'.store.promotions.get? p.key = some q ∧
    q.metadata.uid = p.metadata.uid ∧ q.status.phase = some .aborted ∧
      q.status.finishedAt.isSome = true
  vacated : w'.workspaces.holds p.metadata.uid = false
  announced : ∃ n, w.noticesUpTo w' = [n] ∧ n.reason = Notice.abortedReason
  uncalled : replies.filterMap Reply.engine? = []

/-- No step is attempted for a Promotion that is asked to abort. -/
theorem uncalled_of_asked {replies : List Reply} {e : Ending}
    (course : (c.reconcile key).Course replies e)
    (read : replies.findSome? Reply.read? = some p)
    (asked : Annotations.abortRequest p.metadata.annotations = .ok (some request)) :
    replies.filterMap Reply.engine? = [] := by
  cases c.visits_of_course course with
  | blind | absent | ended | unsupplied | unmarked => rfl
  | aborted p' unended freight request' asked' terminates =>
    cases terminates <;> rfl
  | approached p' unended freight unaborted pends approaches =>
    cases read
    exact absurd asked (unaborted request)

theorem getPromotion_of_abortable (h : Abortable w key p request) :
    w.store.getPromotion key = .ok (some p) := by
  rw [Store.getPromotion, Store.whenAvailable, if_pos h.available, h.stored]

/-- A reconcile of a Promotion that is asked to abort is what the abort comes to. -/
theorem run_of_abortable (h : Abortable w key p request) : ∃ freight,
    (c.reconcile key).run (World.perform engine) w =
      let (r, w') := (c.terminate request p freight).run (World.perform engine) w
      (match r with
        | .ok () => .finished none
        | .error e => .failed e, w') := by
  let freight := w.store.freight.get? ⟨key.project, p.spec.freight⟩
  have reads : World.perform engine (.getPromotion key) w = (.ok (some p), w) :=
    congrArg (·, w) (getPromotion_of_abortable h)
  have supplies : World.perform engine (.getFreight ⟨key.project, p.spec.freight⟩) w =
      (.ok freight, w) := congrArg (·, w) (if_pos h.available)
  refine ⟨freight, ?_⟩
  unfold reconcile
  rw [run_request, reads]
  dsimp only
  rw [if_neg (Bool.not_eq_true _ ▸ h.unended), run_request, supplies]
  dsimp only
  unfold proceed
  rw [h.asked]
  dsimp only
  rw [run_bind]
  rcases (c.terminate request p freight).run (World.perform engine) w with ⟨e | _, w'⟩
  · rfl
  · rfl

theorem run_terminate_of_fits (h : Abortable w p.key p request)
    (fits : request.Fits c.config.name) (freight : Option Freight) :
    ∃ n s, n.reason = Notice.abortedReason ∧ s.phase = some .aborted ∧
      s.finishedAt.isSome = true ∧
      (c.terminate request p freight).run (World.perform engine) w =
        (.ok (), { w with
          store := w.store.writePromotion (some p) (p.withStatus (w.store.version + 1) s)
          workspaces := w.workspaces.vacate p.metadata.uid
          notices := w.notices.push n }) := by
  let actor := request.actorFor c.config.name
  let s := p.status.terminated actor w.clock
  let n := Notice.about p.metadata
    ((Notice.annotationsFor none p freight).insert Notice.actorKey actor) .normal
    Notice.abortedReason (s.message.getD "")
  have fit : s.unfit? p.spec = none := (unfit?_terminated w.clock h.fit).trans (if_pos fits)
  refine ⟨n, s, rfl, rfl, rfl, ?_⟩
  unfold terminate
  rw [if_neg (Bool.not_eq_true _ ▸ h.unended), run_request]
  show Program.run _ (Program.request (.updateStatus p.key p.metadata.version s) >>= _) w = _
  rw [run_request, World.perform_updateStatus_of_fit h.available h.stored fit]
  show (Except.ok (), (World.emit n (World.release p.metadata.uid _).2).2) = _
  rw [World.snd_release]
  rfl

theorem run_terminate_of_not_fits (h : Abortable w p.key p request)
    (long : ¬ request.Fits c.config.name) (freight : Option Freight) :
    (c.terminate request p freight).run (World.perform engine) w =
      (.error (.store (.invalid p.key
        (.messageTooLong (request.words c.config.name).utf8ByteSize))), w) := by
  let s := p.status.terminated (request.actorFor c.config.name) w.clock
  have unfit : s.unfit? p.spec =
      some (.messageTooLong (request.words c.config.name).utf8ByteSize) :=
    (unfit?_terminated w.clock h.fit).trans (if_neg long)
  unfold terminate
  rw [if_neg (Bool.not_eq_true _ ▸ h.unended), run_request]
  show Program.run _ (Program.request (.updateStatus p.key p.metadata.version s) >>= _) w = _
  rw [run_request, World.perform_updateStatus_of_unfit h.available h.stored unfit]
  rfl

/-- A request to abort takes effect exactly if its message fits and the workspace can be
removed. If the message does not fit, nothing happens at all. -/
theorem takesEffect_iff (h : Abortable w key p request) :
    let w' := ((c.reconcile key).run (World.perform engine) w).2
    let e := ((c.reconcile key).run (World.perform engine) w).1
    (TakesEffect w p ((c.reconcile key).told (World.perform engine) w) e w' ↔
      request.Fits c.config.name ∧ w.workspaces.Removable p.metadata.uid) ∧
    (¬ request.Fits c.config.name → w' = w ∧ e = .failed (.store (.invalid key
      (.messageTooLong (request.words c.config.name).utf8ByteSize)))) := by
  obtain rfl := h.sound.promotion_key h.stored
  obtain ⟨freight, run⟩ := c.run_of_abortable engine h
  have read : ((c.reconcile p.key).told (World.perform engine) w).findSome? Reply.read? =
      some p := by
    show List.findSome? _ (Reply.mk (.getPromotion p.key) (w.store.getPromotion p.key) :: _) = _
    rw [getPromotion_of_abortable h]
    rfl
  have uncalled := c.uncalled_of_asked (course_run (World.perform engine) (c.reconcile p.key) w)
    read h.asked
  rw [run]
  dsimp only
  by_cases fits : request.Fits c.config.name
  · obtain ⟨n, s, reason, phase, finished, terminated⟩ :=
      c.run_terminate_of_fits engine h fits freight
    rw [terminated]
    refine ⟨?_, fun long => absurd fits long⟩
    constructor
    · intro effect
      exact ⟨fits, Workspaces.holds_vacate.mp effect.vacated⟩
    · rintro ⟨_, removable⟩
      exact
        { finished := rfl
          aborted := by
            refine ⟨p.withStatus (w.store.version + 1) s, ?_, rfl, phase, finished⟩
            rw [Store.get?_writePromotion, Promotion.key_withStatus, if_pos rfl]
          vacated := Workspaces.holds_vacate.mpr removable
          announced := ⟨n, World.noticesUpTo_push w n, reason⟩
          uncalled }
  · have terminated := c.run_terminate_of_not_fits engine h fits freight
    rw [terminated]
    refine ⟨?_, fun _ => ⟨rfl, rfl⟩⟩
    constructor
    · intro effect
      cases effect.finished
    · rintro ⟨short, _⟩
      exact absurd short fits

/-- A Promotion that somebody asks to abort. -/
def asking (name : List Char) : Promotion :=
  let m := (Metadata.fresh "a" "p" default).annotate Annotations.abortKey
    (AbortRequest.askedBy name)
  .fresh m ⟨"s", "f", [], []⟩

def whereAsked (name : List Char) : World Unit :=
  ⟨default, (Edit.create (asking name) ⟨1⟩).apply .empty, .empty, #[], ()⟩

theorem abortable_whereAsked {name : List Char} (plain : ∀ c ∈ name, Json.Plain c) :
    Abortable (whereAsked name) ⟨"a", "p"⟩ (Store.empty.admitted (asking name) ⟨1⟩)
      (.terminate (some (String.ofList name))) where
  sound := Store.sound_edits Store.sound_empty [.create (asking name) ⟨1⟩]
  available := rfl
  stored := by
    show (Store.empty.writePromotion none (Store.empty.admitted (asking name) ⟨1⟩)).promotions.get?
      ⟨"a", "p"⟩ = _
    rw [Store.get?_writePromotion]
    exact if_pos rfl
  unended := rfl
  fit := rfl
  asked := AbortRequest.abortRequest_askedBy plain

/-- A name of some length. -/
def nameOf (length : Nat) : List Char := List.replicate length 'x'

theorem plain_nameOf {length : Nat} : ∀ c ∈ nameOf length, Json.Plain c := by
  intro c hc
  cases List.eq_of_mem_replicate hc
  exact ⟨by decide, by decide, by decide⟩

theorem utf8ByteSize_nameOf (length : Nat) :
    (String.ofList (nameOf length)).utf8ByteSize = length := by
  induction length with
  | zero => rfl
  | succ n ih =>
    show (String.ofList ('x' :: nameOf n)).utf8ByteSize = _
    rw [String.ofList_cons, String.utf8ByteSize_append, ih, String.utf8ByteSize_singleton]
    exact Nat.add_comm 1 n

theorem not_fits_nameOf {length : Nat} (long : messageLimit < length) (controller : String) :
    ¬ (AbortRequest.terminate (some (String.ofList (nameOf length)))).Fits controller := by
  have named : (String.ofList (nameOf length)).isEmpty = false := by
    rw [String.isEmpty, utf8ByteSize_nameOf]
    exact beq_false_of_ne (Nat.ne_of_gt (Nat.zero_lt_of_lt long))
  have actor : (AbortRequest.terminate (some (String.ofList (nameOf length)))).actorFor controller =
      String.ofList (nameOf length) := by
    unfold AbortRequest.actorFor AbortRequest.terminate
    rw [Option.filter_some_pos (by rw [named]; rfl), Option.getD_some]
  have words : (AbortRequest.terminate (some (String.ofList (nameOf length)))).words controller =
      "Promotion terminated by " ++ String.ofList (nameOf length) := by
    unfold AbortRequest.words PromotionStatus.terminationMessage
    rw [actor, named]
    rfl
  rw [AbortRequest.Fits, words, String.utf8ByteSize_append, utf8ByteSize_nameOf]
  omega

/-- The abort of somebody with a very long name never takes effect. -/
theorem ineffective_of_longName : ∃ (w : World Unit) (key : Key) (p : Promotion)
    (request : AbortRequest) (c : Reconciler) (engine : Engine (World Unit)),
    Abortable w key p request ∧
      ¬ TakesEffect w p ((c.reconcile key).told (World.perform engine) w)
        ((c.reconcile key).run (World.perform engine) w).1
        ((c.reconcile key).run (World.perform engine) w).2 := by
  let c := Reconciler.mk default fun _ => none
  have abortable := abortable_whereAsked (plain_nameOf : ∀ c ∈ nameOf 5000, Json.Plain c)
  refine ⟨_, _, _, _, c, Traffic.brokenEngine, abortable, fun effect => ?_⟩
  obtain ⟨freight, run⟩ := c.run_of_abortable Traffic.brokenEngine abortable
  have long := not_fits_nameOf (show messageLimit < 5000 by decide) c.config.name
  have finished := effect.finished
  rw [run, c.run_terminate_of_not_fits _ abortable long] at finished
  cases finished

/-- The abort of somebody with a short name takes effect. -/
theorem takesEffect_iff_of_shortName : ∃ (w : World Unit) (key : Key) (p : Promotion)
    (request : AbortRequest) (c : Reconciler) (engine : Engine (World Unit)),
    Abortable w key p request ∧
      let w' := ((c.reconcile key).run (World.perform engine) w).2
      let e := ((c.reconcile key).run (World.perform engine) w).1
      (TakesEffect w p ((c.reconcile key).told (World.perform engine) w) e w' ↔
        request.Fits c.config.name ∧ w.workspaces.Removable p.metadata.uid) ∧
      (¬ request.Fits c.config.name → w' = w ∧ e = .failed (.store (.invalid key
        (.messageTooLong (request.words c.config.name).utf8ByteSize)))) := by
  have abortable := abortable_whereAsked (plain_nameOf : ∀ c ∈ nameOf 3, Json.Plain c)
  exact ⟨_, _, _, _, Reconciler.mk default fun _ => none, Traffic.brokenEngine, abortable,
    takesEffect_iff _ _ abortable⟩

end Reconciler

end Drayage
