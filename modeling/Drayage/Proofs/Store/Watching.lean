import Drayage.Proofs.Store.Versions

/-!
# What a watcher can tell of the store

A call publishes one event for what it did and none if it did nothing, and the event says
what was stored before. So the events tell the content of the store: who knows the content
at the time of subscription and takes every event over has the content of today.
-/

namespace Drayage

namespace Change

variable {α : Type}

/-- What a change makes of the resources of its kind, which are stored under `key`. -/
def carry (key : α → Key) (c : Change α) (d : Dict Key α) : Dict Key α :=
  match c.kind with
  | .created | .updated => d.insert (key c.new) c.new
  | .deleted => d.erase (key c.new)

/-- A change says what was stored before it: nothing, the old value, or the value that it
takes away. -/
inductive Fits (key : α → Key) (d : Dict Key α) : Change α → Prop where
  | created (new : α) (absent : d.get? (key new) = none) : Fits key d (created new)
  | updated (old new : α) (stored : d.get? (key new) = some old) :
      Fits key d (updated old new)
  | deleted (last : α) (stored : d.get? (key last) = some last) : Fits key d (deleted last)

theorem fits_replaced (key : α → Key) (d : Dict Key α) (new : α) :
    Fits key d (replaced (d.get? (key new)) new) := by
  cases stored : d.get? (key new) with
  | none => exact .created new stored
  | some old => exact .updated old new stored

@[simp] theorem carry_replaced (key : α → Key) (d : Dict Key α) (old : Option α) (new : α) :
    (replaced old new).carry key d = d.insert (key new) new := by
  cases old <;> rfl

@[simp] theorem new_replaced (old : Option α) (new : α) : (replaced old new).new = new := by
  cases old <;> rfl

end Change

/-- What a store keeps of each resource. -/
structure Content where
  promotions : Dict Key Promotion
  stages : Dict Key Stage
  freight : Dict Key Freight

def Store.content (s : Store) : Content := ⟨s.promotions, s.stages, s.freight⟩

namespace StoreEvent

/-- The deed that an event reports. -/
def deed : StoreEvent → Deed
  | promotion c =>
    match c.kind with
    | .created | .updated => .promotion c.new
    | .deleted => .removal c.new.key
  | stage c => .stage c.new
  | freight c => .freight c.new

def Fits (x : Content) : StoreEvent → Prop
  | promotion c => c.Fits Promotion.key x.promotions
  | stage c => c.Fits (·.metadata.key) x.stages
  | freight c => c.Fits (·.metadata.key) x.freight

end StoreEvent

namespace Content

/-- Takes an event over: what was created or updated is put in, what was deleted is taken
out. -/
def take (x : Content) : StoreEvent → Content
  | .promotion c => { x with promotions := c.carry Promotion.key x.promotions }
  | .stage c => { x with stages := c.carry (·.metadata.key) x.stages }
  | .freight c => { x with freight := c.carry (·.metadata.key) x.freight }

def replay (x : Content) (es : List StoreEvent) : Content := es.foldl take x

theorem replay_append (x : Content) (es fs : List StoreEvent) :
    x.replay (es ++ fs) = (x.replay es).replay fs :=
  List.foldl_append

end Content

/-- The error that an operation fails with. -/
def Store.error? {α : Type} : Store.Outcome α → Option StoreError
  | .ok _ => none
  | .error e => some e

def Edit.error? (s : Store) : Edit → Option StoreError
  | .create p candidate => Store.error? (s.createPromotion p candidate)
  | .annotate key mark value => Store.error? (s.annotatePromotion key mark value)
  | .delete key => Store.error? (s.deletePromotion key)
  | .putStage stage candidate => Store.error? (s.putStage stage candidate)
  | .putFreight freight candidate => Store.error? (s.putFreight freight candidate)
  | .setAvailable _ => none

namespace StoreCall

/-- The error that a call returns. -/
def error? (s : Store) : StoreCall → Option StoreError
  | edit e => e.error? s
  | updateStatus key expected status => Store.error? (s.updateStatus key expected status)
  | requestReverification key now => Store.error? (s.requestReverification key now)

/-- There is nothing for a call to change: it deletes what is not there, or it is no
operation on a resource. -/
def Vain (s : Store) : StoreCall → Prop
  | edit (.delete key) => s.promotions.get? key = none
  | edit (.setAvailable _) => True
  | edit (.create _ _) | edit (.annotate _ _ _) | edit (.putStage _ _)
  | edit (.putFreight _ _) | updateStatus _ _ _ | requestReverification _ _ => False

end StoreCall

namespace Store

variable {s s' : Store}

/-- The events in `s'` that `s` has not published. -/
def newsUpTo (s s' : Store) : List StoreEvent := s'.published.toList.drop s.published.size

theorem newsUpTo_of_append {es : List StoreEvent}
    (h : s'.published.toList = s.published.toList ++ es) : s.newsUpTo s' = es := by
  rw [newsUpTo, h, ← Array.length_toList, List.drop_left]

/-- What a call publishes along with what it does. -/
inductive Told (s : Store) : Option StoreEvent → Store → Prop where
  | nothing : Told s none s
  | available (b : Bool) : Told s none (s.setAvailable b)
  | promotion (p : Promotion) :
      Told s (some (.promotion (.replaced (s.promotions.get? p.key) p)))
        (s.writePromotion (s.promotions.get? p.key) p)
  | stage (stage : Stage) :
      Told s (some (.stage (.replaced (s.stages.get? stage.metadata.key) stage)))
        (s.writeStage (s.stages.get? stage.metadata.key) stage)
  | freight (freight : Freight) :
      Told s (some (.freight (.replaced (s.freight.get? freight.metadata.key) freight)))
        (s.writeFreight (s.freight.get? freight.metadata.key) freight)
  | removal (p : Promotion) (stored : s.promotions.get? p.key = some p) :
      Told s (some (.promotion (.deleted p))) (s.removePromotion p)

theorem Told.published {e : Option StoreEvent} (h : Told s e s') :
    s'.published.toList = s.published.toList ++ e.toList := by
  cases h with
  | nothing => exact (List.append_nil _).symm
  | available b => exact (List.append_nil _).symm
  | promotion p => exact Array.toList_push
  | stage stage => exact Array.toList_push
  | freight freight => exact Array.toList_push
  | removal p stored => exact Array.toList_push

theorem Told.content_eq (h : Told s none s') : s'.content = s.content := by
  cases h <;> rfl

theorem Told.fits {e : StoreEvent} (h : Told s (some e) s') : e.Fits s.content := by
  cases h with
  | promotion p => exact Change.fits_replaced Promotion.key s.promotions p
  | stage stage => exact Change.fits_replaced (·.metadata.key) s.stages stage
  | freight freight => exact Change.fits_replaced (·.metadata.key) s.freight freight
  | removal p stored => exact .deleted p stored

theorem content_writePromotion (old : Option Promotion) (p : Promotion) :
    (s.writePromotion old p).content = s.content.take (.promotion (.replaced old p)) := by
  simp [content, Content.take, writePromotion]

theorem content_writeStage (old : Option Stage) (stage : Stage) :
    (s.writeStage old stage).content = s.content.take (.stage (.replaced old stage)) := by
  simp [content, Content.take, writeStage]

theorem content_writeFreight (old : Option Freight) (freight : Freight) :
    (s.writeFreight old freight).content =
      s.content.take (.freight (.replaced old freight)) := by
  simp [content, Content.take, writeFreight]

theorem Told.taken {e : StoreEvent} (h : Told s (some e) s') :
    s'.content = s.content.take e := by
  cases h with
  | promotion p => exact content_writePromotion _ p
  | stage stage => exact content_writeStage _ stage
  | freight freight => exact content_writeFreight _ freight
  | removal p stored => rfl

theorem told_writePromotion {old : Option Promotion} (p : Promotion)
    (h : s.promotions.get? p.key = old) : ∃ e, Told s e (s.writePromotion old p) := by
  subst h
  exact ⟨_, .promotion p⟩

theorem told_writeStage {old : Option Stage} (stage : Stage)
    (h : s.stages.get? stage.metadata.key = old) : ∃ e, Told s e (s.writeStage old stage) := by
  subst h
  exact ⟨_, .stage stage⟩

/-- Freight is put in the place of what was stored under its key. -/
theorem told_putFreight (freight : Freight) (candidate : Uid) :
    ∃ e, Told s e (s.after (s.putFreight freight candidate)) := by
  unfold putFreight
  rw [after_whenAvailable]
  split
  · -- stamping keeps the key, so the value before is found under that of the new one
    have renamed (m : Metadata) (h : m.key = freight.metadata.key) :
        ∃ e, Told s e (s.writeFreight (s.freight.get? freight.metadata.key)
          { freight with metadata := m }) := by
      rw [← h]
      exact ⟨_, .freight { freight with metadata := m }⟩
    exact renamed _ (key_stamped _ _ _ _)
  · exact ⟨none, .nothing⟩

theorem told_edit (hs : s.Sound) (e : Edit) : ∃ told, Told s told (e.apply s) := by
  cases e with
  | create p candidate =>
    show ∃ told, Told s told (s.after (s.createPromotion p candidate))
    rcases after_createPromotion p candidate with h | ⟨absent, h⟩
    · rw [h]
      exact ⟨none, .nothing⟩
    · rw [h]
      rw [← key_admitted (s := s) p candidate] at absent
      exact told_writePromotion _ absent
  | annotate key mark value =>
    show ∃ told, Told s told (s.after (s.annotatePromotion key mark value))
    rcases after_annotatePromotion key mark value with h | ⟨old, stored, h⟩
    · rw [h]
      exact ⟨none, .nothing⟩
    · rw [h]
      rw [← hs.promotion_key stored] at stored
      exact told_writePromotion _ stored
  | delete key =>
    show ∃ told, Told s told (s.after (s.deletePromotion key))
    rcases after_deletePromotion key with h | ⟨p, stored, h⟩
    · rw [h]
      exact ⟨none, .nothing⟩
    · rw [h]
      rw [← hs.promotion_key stored] at stored
      exact ⟨_, .removal p stored⟩
  | putStage stage candidate =>
    show ∃ told, Told s told (s.after (s.putStage stage candidate))
    rcases after_putStage stage candidate with h | h
    · rw [h]
      exact ⟨none, .nothing⟩
    · rw [h, ← key_renewed (s := s) stage candidate]
      exact ⟨_, .stage _⟩
  | putFreight freight candidate => exact told_putFreight freight candidate
  | setAvailable available => exact ⟨none, .available available⟩

theorem told_call (hs : s.Sound) (call : StoreCall) : ∃ e, Told s e (call.apply s) := by
  cases call with
  | edit e => exact told_edit hs e
  | updateStatus key expected status =>
    show ∃ e, Told s e (s.after (s.updateStatus key expected status))
    cases h : s.updateStatus key expected status with
    | error e => exact ⟨none, .nothing⟩
    | ok r =>
      obtain ⟨v, s'⟩ := r
      obtain ⟨old, stored, rfl, _, _, rfl, rfl⟩ := updateStatus_ok hs h
      exact told_writePromotion _ stored
  | requestReverification key now =>
    show ∃ e, Told s e (s.after (s.requestReverification key now))
    rcases after_requestReverification key now with h | ⟨old, m, stored, same, _, h⟩
    · rw [h]
      exact ⟨none, .nothing⟩
    · rw [h]
      rw [← hs.stage_key stored, ← same] at stored
      exact told_writeStage _ stored

/-- The event that a deed publishes reports that deed. -/
theorem Did.published {d : Option Deed} (h : Did s d s') :
    ∃ e : Option StoreEvent, s'.published.toList = s.published.toList ++ e.toList ∧
      d = e.map StoreEvent.deed := by
  cases h with
  | nothing => exact ⟨none, (List.append_nil _).symm, rfl⟩
  | available b => exact ⟨none, (List.append_nil _).symm, rfl⟩
  | promotion old p version =>
    refine ⟨some (.promotion (.replaced old p)), Array.toList_push, ?_⟩
    cases old <;> rfl
  | stage old stage version =>
    exact ⟨some (.stage (.replaced old stage)), Array.toList_push, by cases old <;> rfl⟩
  | freight old freight version =>
    exact ⟨some (.freight (.replaced old freight)), Array.toList_push, by cases old <;> rfl⟩
  | removal p => exact ⟨some (.promotion (.deleted p)), Array.toList_push, rfl⟩

theorem deed?_eq_of_told (hs : s.Sound) {call : StoreCall} {e : Option StoreEvent}
    (h : Told s e (call.apply s)) : call.deed? s = e.map StoreEvent.deed := by
  obtain ⟨e', published, hd⟩ := (did_call hs call).published
  have same : e.toList = e'.toList := List.append_cancel_left (h.published.symm.trans published)
  rw [hd, ← Option.head?_toList (o := e), same, Option.head?_toList]

theorem deed?_eq_none_iff_of_told {α : Type} {o : Outcome α} {told : α → Store → Option Deed}
    (h : ∀ a s', o = .ok (a, s') → told a s' ≠ none) :
    deed? o told = none ↔ error? o ≠ none := by
  cases o with
  | error e => exact iff_of_true rfl (Option.some_ne_none e)
  | ok r => exact iff_of_false (h r.1 r.2 rfl) (fun none => none rfl)

theorem requestReverification_ok (hs : s.Sound) {key : Key} {now : Instant}
    (h : s.requestReverification key now = .ok ((), s')) :
    ∃ old new, new.metadata.key = key ∧ s' = s.writeStage (some old) new := by
  unfold requestReverification whenAvailable at h
  split at h
  · split at h
    · cases h
    · rename_i old stored
      split at h
      · cases h
      · cases h
        refine ⟨old, _, ?_, rfl⟩
        show old.metadata.key = key
        exact hs.stage_key stored
  · cases h

theorem deed?_delete_eq_none_iff {key : Key} :
    Edit.deed? s (.delete key) = none ↔
      Edit.error? s (.delete key) ≠ none ∨ s.promotions.get? key = none := by
  show deed? (s.deletePromotion key) _ = none ↔ error? (s.deletePromotion key) ≠ none ∨ _
  unfold deletePromotion whenAvailable
  by_cases available : s.available
  · rw [if_pos available]
    cases s.promotions.get? key <;> simp [deed?, error?]
  · rw [if_neg available]
    simp [deed?, error?]

/-- A call does nothing if it fails or if there is nothing for it to change, and only then. -/
theorem deed?_eq_none_iff (hs : s.Sound) (call : StoreCall) :
    call.deed? s = none ↔ call.error? s ≠ none ∨ call.Vain s := by
  cases call with
  | edit e =>
    cases e with
    | delete key => exact deed?_delete_eq_none_iff
    | setAvailable available => exact iff_of_true rfl (.inr trivial)
    | create p candidate =>
      refine (deed?_eq_none_iff_of_told ?_).trans (or_false _).symm.to_iff
      exact fun p s' _ => Option.some_ne_none _
    | annotate key mark value =>
      refine (deed?_eq_none_iff_of_told ?_).trans (or_false _).symm.to_iff
      exact fun p s' _ => Option.some_ne_none _
    | putStage stage candidate =>
      refine (deed?_eq_none_iff_of_told ?_).trans (or_false _).symm.to_iff
      exact fun stage s' _ => Option.some_ne_none _
    | putFreight freight candidate =>
      refine (deed?_eq_none_iff_of_told ?_).trans (or_false _).symm.to_iff
      exact fun freight s' _ => Option.some_ne_none _
  | updateStatus key expected status =>
    refine (deed?_eq_none_iff_of_told ?_).trans (or_false _).symm.to_iff
    intro v s' h
    obtain ⟨old, _, rfl, _, _, rfl, rfl⟩ := updateStatus_ok hs h
    rw [get?_writePromotion, Promotion.key_withStatus, if_pos rfl]
    exact Option.some_ne_none _
  | requestReverification key now =>
    refine (deed?_eq_none_iff_of_told ?_).trans (or_false _).symm.to_iff
    intro _ s' h
    obtain ⟨old, new, rfl, rfl⟩ := requestReverification_ok hs h
    rw [get?_writeStage, if_pos rfl]
    exact Option.some_ne_none _

/-- A call that does something publishes one event, which tells what the call did. -/
theorem told_of_deed (hs : s.Sound) {call : StoreCall} (h : call.deed? s ≠ none) :
    ∃ e, s.newsUpTo (call.apply s) = [e] ∧ call.deed? s = some e.deed ∧ e.Fits s.content ∧
      (call.apply s).content = s.content.take e := by
  obtain ⟨e, told⟩ := told_call hs call
  have deed := deed?_eq_of_told hs told
  cases e with
  | none => exact absurd deed h
  | some e => exact ⟨e, newsUpTo_of_append told.published, deed, told.fits, told.taken⟩

theorem silent_of_no_deed (hs : s.Sound) {call : StoreCall} (h : call.deed? s = none) :
    s.newsUpTo (call.apply s) = [] ∧ (call.apply s).content = s.content := by
  obtain ⟨e, told⟩ := told_call hs call
  rw [deed?_eq_of_told hs told] at h
  cases e with
  | some e => cases h
  | none => exact ⟨newsUpTo_of_append told.published, told.content_eq⟩

theorem run_append (s : Store) (before later : List StoreCall) :
    s.run (before ++ later) = (s.run before).run later :=
  List.foldl_append

theorem sound_call (hs : s.Sound) (call : StoreCall) : (call.apply s).Sound :=
  (did_call hs call).sound hs

theorem sound_run (hs : s.Sound) (calls : List StoreCall) : (s.run calls).Sound := by
  induction calls generalizing s with
  | nil => exact hs
  | cons call calls ih => exact ih (sound_call hs call)

end Store

/-- Something is called, or a watcher asks for what is next. -/
inductive WatchAct where
  | call (c : StoreCall)
  | receive

/-- A store that is watched, and all that the watcher has received. -/
structure Watching where
  store : Store
  watcher : Watcher
  received : List Delivery

def Delivery.event? : Delivery → Option StoreEvent
  | event e => some e
  | lagged _ => none

namespace Watching

/-- A watcher sees what is published after it subscribed. -/
def subscribe (s : Store) : Watching := ⟨s, ⟨s.published.size⟩, []⟩

def act (w : Watching) : WatchAct → Watching
  | .call c => { w with store := c.apply w.store }
  | .receive =>
    match w.watcher.receive w.store.published with
    | none => w
    | some (delivery, watcher) => { w with watcher, received := w.received ++ [delivery] }

def run (w : Watching) (acts : List WatchAct) : Watching := acts.foldl act w

/-- The events that were received. -/
def events (w : Watching) : List StoreEvent := w.received.filterMap Delivery.event?

/-- What was published and not received yet. -/
def pending (w : Watching) : List StoreEvent := w.store.published.toList.drop w.watcher.seen

/-- Some events were lost. -/
def Lagged (w : Watching) : Prop := ∃ missed, .lagged missed ∈ w.received

variable {s : Store} {w : Watching}

/-- How a watched store goes on from the one at the time of subscription. -/
structure Follows (s : Store) (w : Watching) : Prop where
  sound : w.store.Sound
  published : w.store.published.toList = s.published.toList ++ s.newsUpTo w.store
  content : s.content.replay (s.newsUpTo w.store) = w.store.content
  seen : w.watcher.seen ≤ w.store.published.size
  events : ¬ w.Lagged → w.events ++ w.pending = s.newsUpTo w.store

theorem follows_subscribe (hs : s.Sound) : Follows s (subscribe s) := by
  have nothing : s.newsUpTo s = [] := Store.newsUpTo_of_append (List.append_nil _).symm
  have pending : (subscribe s).pending = [] := nothing
  refine ⟨hs, ?_, ?_, Nat.le_refl _, fun _ => ?_⟩
  · show _ = _ ++ s.newsUpTo s
    rw [nothing, List.append_nil]
    rfl
  · show s.content.replay (s.newsUpTo s) = s.content
    rw [nothing]
    rfl
  · show _ = s.newsUpTo s
    rw [pending, nothing]
    rfl

theorem Follows.call (h : Follows s w) (c : StoreCall) : Follows s (w.act (.call c)) := by
  obtain ⟨e, told⟩ := Store.told_call h.sound c
  have published := told.published
  have news : s.newsUpTo (c.apply w.store) = s.newsUpTo w.store ++ e.toList := by
    apply Store.newsUpTo_of_append
    rw [published, h.published, List.append_assoc]
  refine ⟨Store.sound_call h.sound c, ?_, ?_, ?_, fun unlagged => ?_⟩
  · show (c.apply w.store).published.toList = _ ++ s.newsUpTo (c.apply w.store)
    rw [news, published, h.published, List.append_assoc]
  · show s.content.replay (s.newsUpTo (c.apply w.store)) = (c.apply w.store).content
    rw [news, Content.replay_append, h.content]
    cases e with
    | none => exact told.content_eq.symm
    | some e => exact told.taken.symm
  · show w.watcher.seen ≤ (c.apply w.store).published.size
    have grown := congrArg List.length published
    rw [List.length_append, Array.length_toList, Array.length_toList] at grown
    have := h.seen
    omega
  · show w.events ++ (c.apply w.store).published.toList.drop w.watcher.seen =
      s.newsUpTo (c.apply w.store)
    have inside : w.watcher.seen ≤ w.store.published.toList.length := h.seen
    rw [news, published, List.drop_append_of_le_length inside, ← List.append_assoc,
      ← h.events unlagged]
    rfl

/-- A watcher receives that some events are lost, or the first one that is pending, or there
is nothing pending. -/
theorem receive_cases (w : Watching) :
    (w.watcher.receive w.store.published = none ∧ w.pending = []) ∨
      (∃ missed later, later ≤ w.store.published.size ∧
        w.watcher.receive w.store.published = some (.lagged missed, ⟨later⟩)) ∨
      ∃ e rest, w.pending = e :: rest ∧
        rest = w.store.published.toList.drop (w.watcher.seen + 1) ∧
        w.watcher.seen + 1 ≤ w.store.published.size ∧
        w.watcher.receive w.store.published = some (.event e, ⟨w.watcher.seen + 1⟩) := by
  unfold Watcher.receive
  split
  · exact .inr (.inl ⟨_, _, Nat.sub_le _ _, rfl⟩)
  · by_cases more : w.watcher.seen < w.store.published.size
    · refine .inr (.inr ⟨w.store.published[w.watcher.seen], _, ?_, rfl, more, ?_⟩)
      · exact List.drop_eq_getElem_cons (l := w.store.published.toList) more
      · rw [Array.getElem?_eq_getElem more]
        rfl
    · refine .inl ⟨?_, ?_⟩
      · rw [Array.getElem?_eq_none (Nat.le_of_not_lt more)]
        rfl
      · show w.store.published.toList.drop w.watcher.seen = []
        rw [List.drop_eq_nil_iff, Array.length_toList]
        exact Nat.le_of_not_lt more

/-- Who has nothing to receive has received everything. -/
theorem pending_eq_nil (h : w.watcher.receive w.store.published = none) : w.pending = [] := by
  rcases receive_cases w with ⟨_, all⟩ | ⟨_, _, _, lost⟩ | ⟨_, _, _, _, _, next⟩
  · exact all
  · rw [h] at lost
    cases lost
  · rw [h] at next
    cases next

theorem Follows.receive (h : Follows s w) : Follows s (w.act .receive) := by
  rcases receive_cases w with ⟨none, _⟩ | ⟨missed, later, inside, lost⟩ |
      ⟨e, rest, pending, hrest, inside, next⟩
  · have same : w.act .receive = w := by simp only [act, none]
    rw [same]
    exact h
  · have after : w.act .receive =
        { w with watcher := ⟨later⟩, received := w.received ++ [.lagged missed] } := by
      simp only [act, lost]
    rw [after]
    refine ⟨h.sound, h.published, h.content, inside, fun unlagged => ?_⟩
    exact absurd ⟨missed, List.mem_append_right _ List.mem_cons_self⟩ unlagged
  · have after : w.act .receive =
        { w with watcher := ⟨w.watcher.seen + 1⟩, received := w.received ++ [.event e] } := by
      simp only [act, next]
    rw [after]
    refine ⟨h.sound, h.published, h.content, inside, fun unlagged => ?_⟩
    have before : ¬ w.Lagged := fun ⟨missed, lost⟩ =>
      unlagged ⟨missed, List.mem_append_left _ lost⟩
    rw [← h.events before, pending, hrest]
    simp [Watching.events, Watching.pending, Delivery.event?]

theorem Follows.run (h : Follows s w) (acts : List WatchAct) : Follows s (w.run acts) := by
  induction acts generalizing w with
  | nil => exact h
  | cons a acts ih =>
    cases a with
    | call c => exact ih (h.call c)
    | receive => exact ih h.receive

end Watching

/-- What can be relied on by those who watch a store. -/
structure Mirrored (s : Store) (w : Watching) : Prop where
  /-- A call that succeeds with a change publishes one event. It reports what the call did
  and what was stored before, and to take it over is to make the change. -/
  told : ∀ call : StoreCall, call.error? w.store = none → ¬ call.Vain w.store →
    ∃ e, w.store.newsUpTo (call.apply w.store) = [e] ∧
      call.deed? w.store = some e.deed ∧ e.Fits w.store.content ∧
      (call.apply w.store).content = w.store.content.take e
  /-- A call that fails, or that changes nothing, publishes nothing. -/
  silent : ∀ call : StoreCall, call.error? w.store ≠ none ∨ call.Vain w.store →
    w.store.newsUpTo (call.apply w.store) = [] ∧
      (call.apply w.store).content = w.store.content
  /-- What was published since makes the content of then into that of now. -/
  replayed : s.content.replay (s.newsUpTo w.store) = w.store.content
  /-- A watcher to whom nothing is lost receives all of it, in this order. -/
  received : ¬ w.Lagged → w.events ++ w.pending = s.newsUpTo w.store
  /-- When nothing more is there to receive, it knows the content. -/
  known : ¬ w.Lagged → w.watcher.receive w.store.published = none →
    s.content.replay w.events = w.store.content

/-- Whatever is called after a watcher has subscribed, and whenever it receives in between,
the events that it has received determine the store. -/
theorem mirrored_of_acts (s : Store) (hs : s.Sound) (acts : List WatchAct) :
    Mirrored s ((Watching.subscribe s).run acts) := by
  have h : Watching.Follows s ((Watching.subscribe s).run acts) :=
    (Watching.follows_subscribe hs).run acts
  generalize (Watching.subscribe s).run acts = w at h ⊢
  refine ⟨fun call ok effective => ?_, fun call idle => ?_, h.content, h.events,
    fun unlagged caughtUp => ?_⟩
  · refine Store.told_of_deed h.sound fun idle => ?_
    rcases (Store.deed?_eq_none_iff h.sound call).mp idle with failed | vain
    · exact failed ok
    · exact effective vain
  · exact Store.silent_of_no_deed h.sound ((Store.deed?_eq_none_iff h.sound call).mpr idle)
  · have events := h.events unlagged
    rw [Watching.pending_eq_nil caughtUp, List.append_nil] at events
    rw [events]
    exact h.content

/-- A store with a Promotion. -/
def oneStored : Store :=
  .run .empty [.edit (.create (.fresh (.fresh "a" "p" default) ⟨"s", "f", [], []⟩) ⟨1⟩)]

/-- It is annotated and deleted while somebody watches. -/
def seenOff : List WatchAct :=
  [.call (.edit (.annotate ⟨"a", "p"⟩ "note" "1")), .receive,
    .call (.edit (.delete ⟨"a", "p"⟩)), .receive]

theorem mirrored_of_deletion :
    oneStored.Sound ∧ Mirrored oneStored ((Watching.subscribe oneStored).run seenOff) ∧
      oneStored.promotions.keys = [⟨"a", "p"⟩] ∧
      (oneStored.content.replay
        ((Watching.subscribe oneStored).run seenOff).events).promotions.keys = [] := by
  have sound : oneStored.Sound := Store.sound_run Store.sound_empty _
  refine ⟨sound, mirrored_of_acts oneStored sound seenOff, ?_, ?_⟩
  · decide +kernel
  · decide +kernel

end Drayage
