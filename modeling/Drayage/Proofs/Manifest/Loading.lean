import Drayage.Manifest.Loading
import Drayage.Proofs.Credentials.Lookup
import Drayage.Proofs.Store.Watching

/-!
# What loading manifests leaves behind

Stages and Freight are written before any Promotion is created. Of the manifests with one key
the last one counts, with the identity of what was there first; a Promotion takes no other
one's place, so at the first Promotion whose key is taken the loading ends.
-/

namespace Drayage

/-- What all kinds of resources have in common. -/
structure Carrier (α : Type) where
  metadata : α → Metadata
  set : α → Metadata → α
  metadata_set : ∀ a m, metadata (set a m) = m

def Stage.carrier : Carrier Stage :=
  ⟨Stage.metadata, fun s m => { s with metadata := m }, fun _ _ => rfl⟩

def Freight.carrier : Carrier Freight :=
  ⟨Freight.metadata, fun f m => { f with metadata := m }, fun _ _ => rfl⟩

def Promotion.carrier : Carrier Promotion :=
  ⟨Promotion.metadata, fun p m => { p with metadata := m }, fun _ _ => rfl⟩

namespace Metadata

/-- Stored metadata say what the given ones say, apart from what the store decides. -/
def Describes (m given : Metadata) : Prop :=
  m = { given with
    uid := m.uid, version := m.version, generation := m.generation, createdAt := m.createdAt }

theorem describes_stamped (given : Metadata) (previous : Option Metadata) (candidate : Uid)
    (version : Nat) : (Store.stamped given previous candidate version).Describes given := by
  unfold Store.stamped
  split <;> rfl

end Metadata

namespace Carrier

variable {α : Type} {C : Carrier α} {G : Uid → Prop} {d : Dict Key α} {a : α}
  {before after : Option α} {docs : List α}

def key (C : Carrier α) (a : α) : Key := (C.metadata a).key

/-- A resource as it is written in the place of the one with its key. -/
def written (C : Carrier α) (d : Dict Key α) (a : α) (candidate : Uid) (version : Nat) : α :=
  C.set a (Store.stamped (C.metadata a) ((d.get? (C.key a)).map C.metadata) candidate version)

theorem key_written (candidate : Uid) (version : Nat) :
    C.key (C.written d a candidate version) = C.key a := by
  rw [key, written, C.metadata_set, Store.key_stamped]
  rfl

/-- What is stored under one key after some resources with this key were written, if the uids
in `G` were generated. -/
structure Settles (C : Carrier α) (G : Uid → Prop) (before : Option α) (docs : List α)
    (after : Option α) : Prop where
  untouched : docs = [] → after = before
  /-- The last one counts. -/
  last : ∀ a, docs.getLast? = some a →
    ∃ m : Metadata, after = some (C.set a m) ∧ m.Describes (C.metadata a)
  /-- It keeps the identity of what was there before. -/
  kept : ∀ old, before = some old →
    ∃ new, after = some new ∧ (C.metadata new).uid = (C.metadata old).uid
  /-- If nothing was there, it has that of the first one, which is generated if need be. -/
  first : before = none → ∀ a, docs.head? = some a → ∃ new, after = some new ∧
    if (C.metadata a).uid.isUnset then G (C.metadata new).uid
    else (C.metadata new).uid = (C.metadata a).uid

theorem settles_nil (before : Option α) : C.Settles G before [] before where
  untouched _ := rfl
  last a h := by cases h
  kept old h := ⟨old, h, rfl⟩
  first _ a h := by cases h

/-- One more resource is written first. -/
theorem Settles.cons {m : Metadata} {candidate : Uid} {version : Nat}
    (h : C.Settles G (some (C.set a m)) docs after)
    (stamped : m = Store.stamped (C.metadata a) (before.map C.metadata) candidate version)
    (generated : G candidate) : C.Settles G before (a :: docs) after where
  untouched h := by cases h
  last b hb := by
    cases docs with
    | nil =>
      cases hb
      exact ⟨m, h.untouched rfl, stamped ▸ Metadata.describes_stamped _ _ _ _⟩
    | cons c docs => exact h.last b (by rwa [List.getLast?_cons_cons] at hb)
  kept old hold := by
    obtain ⟨new, stored, uid⟩ := h.kept _ rfl
    refine ⟨new, stored, uid.trans ?_⟩
    rw [C.metadata_set, stamped, hold]
    rfl
  first none b hb := by
    obtain ⟨new, stored, uid⟩ := h.kept _ rfl
    refine ⟨new, stored, ?_⟩
    cases hb
    rw [C.metadata_set, stamped, none] at uid
    have uid : (C.metadata new).uid =
      if (C.metadata a).uid.isUnset then candidate else (C.metadata a).uid := uid
    rw [uid]
    split
    · exact generated
    · rfl

/-- The same under all keys at once. -/
theorem settles_insert {candidate : Uid} {version : Nat} {new : α} {after : Key → Option α}
    (put : new = C.written d a candidate version) (generated : G candidate)
    (h : ∀ k, C.Settles G ((d.insert (C.key new) new).get? k)
      (docs.filter fun b => C.key b = k) (after k)) (k : Key) :
    C.Settles G (d.get? k) ((a :: docs).filter fun b => C.key b = k) (after k) := by
  have rest := h k
  rw [put, key_written, Dict.get?_insert] at rest
  by_cases same : C.key a = k
  · subst same
    rw [if_pos Std.ReflCmp.compare_self] at rest
    rw [List.filter_cons_of_pos (by simp)]
    exact rest.cons rfl generated
  · rw [if_neg fun h => same (Std.LawfulEqCmp.eq_of_compare h).symm] at rest
    rwa [List.filter_cons_of_neg (by simpa using same)]

/-- Something is there, if it was before or was written. -/
theorem Settles.ne_none (h : C.Settles G before docs after)
    (source : before ≠ none ∨ docs ≠ []) : after ≠ none := by
  rcases source with stored | written
  · obtain ⟨old, rfl⟩ := Option.ne_none_iff_exists'.mp stored
    obtain ⟨new, rfl, _⟩ := h.kept old rfl
    nofun
  · obtain ⟨m, rfl, _⟩ := h.last _ (List.getLast?_eq_some_getLast written)
    nofun

end Carrier

namespace Manifest

def stage? : Manifest → Option Stage
  | stage s => some s
  | freight _ | promotion _ | credentials _ => none

def freight? : Manifest → Option Freight
  | freight f => some f
  | stage _ | promotion _ | credentials _ => none

def promotion? : Manifest → Option Promotion
  | promotion p => some p
  | stage _ | freight _ | credentials _ => none

def secret? : Manifest → Option Secret
  | credentials s => some s
  | stage _ | freight _ | promotion _ => none

/-- It is about something that Promotions refer to. -/
def isPrerequisite : Manifest → Bool
  | stage _ | freight _ => true
  | promotion _ | credentials _ => false

/-- It goes to the store. -/
def isResource : Manifest → Bool
  | stage _ | freight _ | promotion _ => true
  | credentials _ => false

end Manifest

open Manifest

/-- An event reports that what a manifest describes was written, in the place of what was
stored or for the first time, if the uids in `G` were generated. -/
inductive StoreEvent.Reports (G : Uid → Prop) (x : Content) : Manifest → StoreEvent → Prop where
  | stage (s : Stage) (candidate : Uid) (version : Nat) (generated : G candidate) :
      Reports G x (.stage s) (.stage (.replaced (x.stages.get? s.metadata.key)
        (Stage.carrier.written x.stages s candidate version)))
  | freight (f : Freight) (candidate : Uid) (version : Nat) (generated : G candidate) :
      Reports G x (.freight f) (.freight (.replaced (x.freight.get? f.metadata.key)
        (Freight.carrier.written x.freight f candidate version)))
  | promotion (p : Promotion) (candidate : Uid) (version : Nat) (generated : G candidate)
      (absent : x.promotions.get? p.key = none) :
      Reports G x (.promotion p) (.promotion (.created
        (Promotion.carrier.written x.promotions p candidate version)))

namespace Content

variable {G : Uid → Prop} {x y z : Content} {ms ns : List Manifest} {es : List StoreEvent}

/-- Resources are written one after another, and every event reports one of them. -/
inductive Writes (G : Uid → Prop) :
    Content → List Manifest → List StoreEvent → Content → Prop where
  | nil (x : Content) : Writes G x [] [] x
  | cons {x y : Content} {m : Manifest} {ms : List Manifest} {e : StoreEvent}
      {es : List StoreEvent} (reports : StoreEvent.Reports G x m e)
      (rest : Writes G (x.take e) ms es y) : Writes G x (m :: ms) (e :: es) y

theorem Writes.split (h : Writes G x (ms ++ ns) es z) :
    ∃ before after y, es = before ++ after ∧ Writes G x ms before y ∧ Writes G y ns after z := by
  induction ms generalizing x es with
  | nil => exact ⟨[], es, x, rfl, .nil x, h⟩
  | cons m ms ih =>
    cases h with
    | cons reports rest =>
      obtain ⟨before, after, y, rfl, first, second⟩ := ih rest
      exact ⟨_ :: before, after, y, rfl, .cons reports first, second⟩

end Content

namespace Holdings

variable {h h' : Holdings} {G : Uid → Prop} {uid : Uid} {ms : List Manifest}

/-! ## One manifest -/

theorem put_stage (available : h.store.available = true) (s : Stage) :
    h.put uid (.stage s) = .ok { h with
      store := h.store.writeStage (h.store.stages.get? s.metadata.key)
        (Stage.carrier.written h.store.stages s uid (h.store.version + 1)) } := by
  show Except.map _ (h.store.putStage s uid) = _
  unfold Store.putStage Store.whenAvailable
  rw [if_pos available]
  rfl

theorem put_freight (available : h.store.available = true) (f : Freight) :
    h.put uid (.freight f) = .ok { h with
      store := h.store.writeFreight (h.store.freight.get? f.metadata.key)
        (Freight.carrier.written h.store.freight f uid (h.store.version + 1)) } := by
  show Except.map _ (h.store.putFreight f uid) = _
  unfold Store.putFreight Store.whenAvailable
  rw [if_pos available]
  rfl

theorem put_promotion (available : h.store.available = true) {p : Promotion}
    (absent : h.store.promotions.get? p.key = none) :
    h.put uid (.promotion p) = .ok { h with
      store := h.store.writePromotion none
        (Promotion.carrier.written h.store.promotions p uid (h.store.version + 1)) } := by
  have unstored : (h.store.promotions.get? (Promotion.carrier.key p)) = none := absent
  show Except.map _ (h.store.createPromotion p uid) = _
  unfold Store.createPromotion Store.whenAvailable
  rw [if_pos available, absent, Carrier.written, unstored]
  rfl

theorem put_taken (available : h.store.available = true) {p : Promotion}
    (taken : h.store.promotions.get? p.key ≠ none) :
    h.put uid (.promotion p) = .error (.alreadyExists p.key) := by
  obtain ⟨q, stored⟩ := Option.ne_none_iff_exists'.mp taken
  show Except.map _ (h.store.createPromotion p uid) = _
  unfold Store.createPromotion Store.whenAvailable
  rw [if_pos available, stored]
  rfl

theorem putEach_ok {between : Holdings} {m : Manifest} (put : h.put uid m = .ok between)
    (done : LoadSummary) (rest : List (Uid × Manifest)) :
    h.putEach done ((uid, m) :: rest) = between.putEach (done.count m) rest := by
  rw [putEach, put]

theorem putEach_error {e : StoreError} {m : Manifest} (put : h.put uid m = .error e)
    (done : LoadSummary) (rest : List (Uid × Manifest)) :
    h.putEach done ((uid, m) :: rest) = (.error e, h) := by
  rw [putEach, put]

/-! ## Many manifests -/

/-- What is there after manifests were loaded one after another. -/
structure Stocks (G : Uid → Prop) (h : Holdings) (ms : List Manifest) (h' : Holdings) :
    Prop where
  available : h'.store.available = true
  published : ∃ es, h'.store.published.toList = h.store.published.toList ++ es ∧
    Content.Writes G h.store.content (ms.filter isResource) es h'.store.content
  stages : ∀ k, Stage.carrier.Settles G (h.store.stages.get? k)
    ((ms.filterMap stage?).filter fun s => Stage.carrier.key s = k) (h'.store.stages.get? k)
  freight : ∀ k, Freight.carrier.Settles G (h.store.freight.get? k)
    ((ms.filterMap freight?).filter fun f => Freight.carrier.key f = k) (h'.store.freight.get? k)
  promotions : ∀ k, Promotion.carrier.Settles G (h.store.promotions.get? k)
    ((ms.filterMap promotion?).filter fun p => Promotion.carrier.key p = k)
    (h'.store.promotions.get? k)
  secrets : h'.secrets = (ms.filterMap secret?).foldl CredentialsDatabase.insert h.secrets

theorem stocks_nil (available : h.store.available = true) : Stocks G h [] h where
  available := available
  published := ⟨[], (List.append_nil _).symm, .nil _⟩
  stages _ := Carrier.settles_nil _
  freight _ := Carrier.settles_nil _
  promotions _ := Carrier.settles_nil _
  secrets := rfl

theorem published_push {m : Manifest} {e : StoreEvent} {between : Store}
    (reports : StoreEvent.Reports G h.store.content m e) (resource : m.isResource = true)
    (pushed : between.published = h.store.published.push e)
    (taken : between.content = h.store.content.take e)
    (rest : ∃ es, h'.store.published.toList = between.published.toList ++ es ∧
      Content.Writes G between.content (ms.filter isResource) es h'.store.content) :
    ∃ es, h'.store.published.toList = h.store.published.toList ++ es ∧
      Content.Writes G h.store.content ((m :: ms).filter isResource) es h'.store.content := by
  obtain ⟨es, published, writes⟩ := rest
  refine ⟨e :: es, ?_, ?_⟩
  · rw [published, pushed, Array.toList_push, List.append_assoc]
    rfl
  · rw [List.filter_cons_of_pos resource]
    exact .cons reports (taken ▸ writes)

/-- One manifest, and then the others. -/
theorem Stocks.cons {m : Manifest} {between : Holdings} (available : h.store.available = true)
    (generated : G uid) (put : h.put uid m = .ok between) (rest : Stocks G between ms h') :
    Stocks G h (m :: ms) h' := by
  cases m with
  | stage s =>
    rw [put_stage available] at put
    cases put
    exact { rest with
      published := published_push (.stage s uid _ generated) rfl rfl
        (Store.content_writeStage _ _) rest.published
      stages := Carrier.settles_insert rfl generated rest.stages }
  | freight f =>
    rw [put_freight available] at put
    cases put
    exact { rest with
      published := published_push (.freight f uid _ generated) rfl rfl
        (Store.content_writeFreight _ _) rest.published
      freight := Carrier.settles_insert rfl generated rest.freight }
  | promotion p =>
    by_cases absent : h.store.promotions.get? p.key = none
    · rw [put_promotion available absent] at put
      cases put
      exact { rest with
        published := published_push (.promotion p uid _ generated absent) rfl rfl
          (Store.content_writePromotion _ _) rest.published
        promotions := Carrier.settles_insert rfl generated rest.promotions }
    · rw [put_taken available absent] at put
      cases put
  | credentials s =>
    cases put
    exact { rest with }

/-- Promotions with keys of their own, of which nothing is stored. -/
structure New (stored : Dict Key Promotion) (ps : List Promotion) : Prop where
  absent : ∀ p ∈ ps, stored.get? p.key = none
  distinct : ps.Pairwise fun p q => p.key ≠ q.key

theorem New.tail {stored : Dict Key Promotion} {p q : Promotion} {ps : List Promotion}
    (new : New stored (p :: ps)) (same : q.key = p.key) : New (stored.insert q.key q) ps where
  absent r hr := by
    have other := (List.pairwise_cons.mp new.distinct).1 r hr
    rw [Dict.get?_insert, same, if_neg fun h => other (Std.LawfulEqCmp.eq_of_compare h).symm]
    exact new.absent r (List.mem_cons_of_mem _ hr)
  distinct := (List.pairwise_cons.mp new.distinct).2

/-- The key of a Promotion belongs to one that is stored or to an earlier one. -/
def Taken (stored : Dict Key Promotion) (front : List Promotion) (p : Promotion) : Prop :=
  stored.get? p.key ≠ none ∨ ∃ q ∈ front, q.key = p.key

theorem New.concat {stored : Dict Key Promotion} {p : Promotion} {ps : List Promotion}
    (new : New stored ps) (free : ¬ Taken stored ps p) : New stored (ps ++ [p]) where
  absent q hq := by
    rcases List.mem_append.mp hq with hq | hq
    · exact new.absent q hq
    · rw [List.mem_singleton.mp hq]
      exact not_not.mp fun held => free (.inl held)
  distinct := by
    refine List.pairwise_append.mpr ⟨new.distinct, List.pairwise_singleton _ _, ?_⟩
    intro q hq r hr
    rw [List.mem_singleton.mp hr]
    exact fun same => free (.inr ⟨q, hq, same⟩)

/-- If not all Promotions are new, there is a first one whose key is taken. -/
theorem new_or_taken (stored : Dict Key Promotion) (ps : List Promotion) :
    New stored ps ∨ ∃ front p back, ps = front ++ p :: back ∧ New stored front ∧
      Taken stored front p := by
  -- from the end, as what is taken first stays the first when one more comes
  induction ps using List.reverseRecOn with
  | nil => exact .inl ⟨fun p hp => (by cases hp), .nil⟩
  | append_singleton ps p ih =>
    rcases ih with new | ⟨front, q, back, rfl, new, taken⟩
    · by_cases taken : Taken stored ps p
      · exact .inr ⟨ps, p, [], rfl, new, taken⟩
      · exact .inl (new.concat taken)
    · exact .inr ⟨front, q, back ++ [p], by simp, new, taken⟩

/-- The first manifest is loaded, and the Promotions among the others are still new. -/
theorem exists_put (available : h.store.available = true) (uid : Uid) {m : Manifest}
    (new : New h.store.promotions ((m :: ms).filterMap promotion?)) :
    ∃ between, h.put uid m = .ok between ∧ between.store.available = true ∧
      New between.store.promotions (ms.filterMap promotion?) := by
  cases m with
  | stage s => exact ⟨_, put_stage available s, available, new⟩
  | freight f => exact ⟨_, put_freight available f, available, new⟩
  | promotion p =>
    have absent := new.absent p (List.mem_cons_self ..)
    exact ⟨_, put_promotion available absent, available,
      new.tail (Carrier.key_written (C := Promotion.carrier) _ _)⟩
  | credentials s => exact ⟨_, rfl, available, new⟩

/-- All manifests are loaded if the Promotions among them are new. -/
theorem exists_stocks (xs : List (Uid × Manifest)) (generated : ∀ x ∈ xs, G x.1)
    (available : h.store.available = true)
    (new : New h.store.promotions ((xs.map Prod.snd).filterMap promotion?)) :
    ∃ h', Stocks G h (xs.map Prod.snd) h' ∧ ∀ done rest, h.putEach done (xs ++ rest) =
      h'.putEach ((xs.map Prod.snd).foldl LoadSummary.count done) rest := by
  induction xs generalizing h with
  | nil => exact ⟨h, stocks_nil available, fun _ _ => rfl⟩
  | cons x xs ih =>
    obtain ⟨uid, m⟩ := x
    obtain ⟨between, put, available', new'⟩ := exists_put available uid new
    obtain ⟨h', stocks, runs⟩ :=
      ih (fun y hy => generated y (List.mem_cons_of_mem _ hy)) available' new'
    exact ⟨h', stocks.cons available (generated _ (List.mem_cons_self ..)) put,
      fun done rest => (putEach_ok put done _).trans (runs _ rest)⟩

theorem foldl_count (ms : List Manifest) (done : LoadSummary) :
    ms.foldl LoadSummary.count done =
      ⟨done.stages + (ms.filterMap stage?).length, done.freight + (ms.filterMap freight?).length,
        done.promotions + (ms.filterMap promotion?).length,
        done.credentials + (ms.filterMap secret?).length⟩ := by
  induction ms generalizing done with
  | nil => rfl
  | cons m ms ih =>
    rw [List.foldl_cons, ih]
    cases m <;> simp [List.filterMap_cons, LoadSummary.count, stage?, freight?, promotion?,
      secret?, Nat.add_comm, Nat.add_left_comm]

/-! ## The order of loading -/

/-- The manifests that are loaded when some Promotions are created: what is no Promotion comes
before. -/
def arranged (ms : List Manifest) (created : List Promotion) : List Manifest :=
  ms.filter (!isPromotion ·) ++ created.map .promotion

theorem filterMap_arranged {β : Type} {f : Manifest → Option β}
    (none : ∀ p, f (.promotion p) = none) (ms : List Manifest) (created : List Promotion) :
    (arranged ms created).filterMap f = ms.filterMap f := by
  have promotions : (f ∘ Manifest.promotion) = fun _ => Option.none := funext none
  rw [arranged, List.filterMap_append, List.filterMap_map, promotions, List.filterMap_filter]
  simp only [List.filterMap_none, List.append_nil]
  congr 1
  funext m
  cases m <;> simp [isPromotion, none]

theorem promotions_arranged (ms : List Manifest) (created : List Promotion) :
    (arranged ms created).filterMap promotion? = created := by
  have others : (ms.filter (!isPromotion ·)).filterMap promotion? = [] := by
    rw [List.filterMap_filter, List.filterMap_eq_nil_iff]
    intro m _
    cases m <;> rfl
  rw [arranged, List.filterMap_append, others, List.filterMap_map]
  exact List.filterMap_some

theorem resources_arranged (ms : List Manifest) (created : List Promotion) :
    (arranged ms created).filter isResource =
      ms.filter isPrerequisite ++ created.map .promotion := by
  rw [arranged, List.filter_append, List.filter_filter]
  congr 1
  · congr 1
    funext m
    cases m <;> rfl
  · rw [List.filter_eq_self]
    simp [isResource]

theorem filter_isPromotion (ms : List Manifest) :
    ms.filter isPromotion = (ms.filterMap promotion?).map .promotion := by
  induction ms with
  | nil => rfl
  | cons m ms ih =>
    cases m <;> simp [List.filterMap_cons, List.filter_cons, promotion?, isPromotion, ih]

theorem count_arranged (ms : List Manifest) (created : List Promotion) :
    (arranged ms created).foldl .count .zero =
      (⟨(ms.filterMap stage?).length, (ms.filterMap freight?).length, created.length,
        (ms.filterMap secret?).length⟩ : LoadSummary) := by
  rw [foldl_count, filterMap_arranged (fun _ => rfl), filterMap_arranged (fun _ => rfl),
    promotions_arranged, filterMap_arranged (fun _ => rfl)]
  simp only [LoadSummary.zero, Nat.zero_add]

/-- What a loading leaves behind that created some Promotions, if the uids in `G` were
generated. -/
structure Loads (G : Uid → Prop) (h : Holdings) (ms : List Manifest) (created : List Promotion)
    (h' : Holdings) : Prop where
  available : h'.store.available = true
  /-- All Stages and all Freight are published in their order, and only then the Promotions. -/
  published : ∃ puts creations between,
    h'.store.published.toList = h.store.published.toList ++ (puts ++ creations) ∧
      Content.Writes G h.store.content (ms.filter isPrerequisite) puts between ∧
      Content.Writes G between (created.map .promotion) creations h'.store.content
  stages : ∀ k, Stage.carrier.Settles G (h.store.stages.get? k)
    ((ms.filterMap stage?).filter fun s => Stage.carrier.key s = k) (h'.store.stages.get? k)
  freight : ∀ k, Freight.carrier.Settles G (h.store.freight.get? k)
    ((ms.filterMap freight?).filter fun f => Freight.carrier.key f = k) (h'.store.freight.get? k)
  promotions : ∀ k, Promotion.carrier.Settles G (h.store.promotions.get? k)
    (created.filter fun p => Promotion.carrier.key p = k) (h'.store.promotions.get? k)
  /-- Of the secrets with one key the last one is held. -/
  secrets : ∀ k, h'.secrets.secrets.get? k =
    (Secret.lastOf (ms.filterMap secret?) k).or (h.secrets.secrets.get? k)
  config : h'.secrets.config = h.secrets.config

/-- Which Promotions are created, and what a loading returns. -/
inductive Ends (stored : Dict Key Promotion) (ms : List Manifest) :
    List Promotion → Except ServiceError LoadSummary → Prop where
  | all (new : New stored (ms.filterMap promotion?)) :
      Ends stored ms (ms.filterMap promotion?)
        (.ok ⟨(ms.filterMap stage?).length, (ms.filterMap freight?).length,
          (ms.filterMap promotion?).length, (ms.filterMap secret?).length⟩)
  /-- The first Promotion whose key is taken is refused. -/
  | refused (front : List Promotion) (p : Promotion) (back : List Promotion)
      (split : ms.filterMap promotion? = front ++ p :: back) (new : New stored front)
      (taken : Taken stored front p) :
      Ends stored ms front (.error (.store (.alreadyExists p.key)))

theorem Stocks.loads {created : List Promotion} (stocks : Stocks G h (arranged ms created) h') :
    Loads G h ms created h' := by
  have stages := filterMap_arranged (f := stage?) (fun _ => rfl) ms created
  have freight := filterMap_arranged (f := freight?) (fun _ => rfl) ms created
  have secrets : h'.secrets = (ms.filterMap secret?).foldl .insert h.secrets := by
    rw [stocks.secrets, filterMap_arranged (fun _ => rfl)]
  rw [CredentialsDatabase.foldl_insert] at secrets
  obtain ⟨es, published, writes⟩ := stocks.published
  rw [resources_arranged] at writes
  obtain ⟨puts, creations, between, rfl, first, second⟩ := writes.split
  exact {
    available := stocks.available
    published := ⟨puts, creations, between, published, first, second⟩
    stages := stages ▸ stocks.stages
    freight := freight ▸ stocks.freight
    promotions := promotions_arranged ms created ▸ stocks.promotions
    secrets := fun k => by
      rw [secrets]
      exact Dict.get?_foldl_insert _ _
    config := by rw [secrets] }

/-- A key that is taken before is taken afterwards. -/
theorem Stocks.taken {front : List Promotion} {p : Promotion}
    (stocks : Stocks G h (arranged ms front) h') (taken : Taken h.store.promotions front p) :
    h'.store.promotions.get? p.key ≠ none := by
  have settles := stocks.promotions p.key
  rw [promotions_arranged] at settles
  refine settles.ne_none (taken.imp_right ?_)
  rintro ⟨q, hq, same⟩
  exact List.ne_nil_of_mem (List.mem_filter.mpr ⟨hq, decide_eq_true same⟩)

theorem map_snd_mapIdx (uids : Nat → Uid) (ms : List Manifest) :
    (ms.mapIdx fun i m => (uids i, m)).map Prod.snd = ms :=
  List.ext_getElem (by simp) (by simp)

/-- A loading gets as far as the Promotions are new. -/
theorem putEach_arranged (available : h.store.available = true) (uids : Nat → Uid)
    (ms : List Manifest) {front rest : List Promotion}
    (split : ms.filterMap promotion? = front ++ rest) (new : New h.store.promotions front) :
    ∃ h' xs, xs.map Prod.snd = rest.map Manifest.promotion ∧
      Stocks (fun u => ∃ i, u = uids i) h (arranged ms front) h' ∧
      h.putEach .zero ((ms.filter (!isPromotion ·) ++ ms.filter isPromotion).mapIdx
        fun i m => (uids i, m)) = h'.putEach ((arranged ms front).foldl .count .zero) xs := by
  have order : ms.filter (!isPromotion ·) ++ ms.filter isPromotion =
      arranged ms front ++ rest.map .promotion := by
    rw [filter_isPromotion, split, List.map_append, arranged, List.append_assoc]
  have done := map_snd_mapIdx uids (arranged ms front)
  have generated : ∀ x ∈ (arranged ms front).mapIdx fun i m => (uids i, m), ∃ i, x.1 = uids i := by
    intro x hx
    obtain ⟨i, _, rfl⟩ := List.mem_mapIdx.mp hx
    exact ⟨i, rfl⟩
  obtain ⟨h', stocks, runs⟩ := exists_stocks (G := fun u => ∃ i, u = uids i) _ generated available
    (by rwa [done, promotions_arranged])
  rw [done] at stocks runs
  rw [order, List.mapIdx_append]
  exact ⟨h', _, map_snd_mapIdx (fun i => uids (i + (arranged ms front).length)) _, stocks,
    runs .zero _⟩

theorem load_of_putEach {uids : Nat → Uid} {result : Except StoreError LoadSummary}
    (runs : h.putEach .zero ((ms.filter (!isPromotion ·) ++ ms.filter isPromotion).mapIdx
      fun i m => (uids i, m)) = (result, h')) :
    h.load uids ms = (result.mapError .store, h') := by
  simp only [load, runs]
  cases result <;> rfl

/-- Whatever is stored already, a loading writes everything but the Promotions, and creates them
up to the first one whose key is taken. -/
theorem loads_of_manifests (available : h.store.available = true) (uids : Nat → Uid)
    (ms : List Manifest) :
    ∃ created, Ends h.store.promotions ms created (h.load uids ms).1 ∧
      Loads (fun u => ∃ i, u = uids i) h ms created (h.load uids ms).2 := by
  rcases new_or_taken h.store.promotions (ms.filterMap promotion?) with
    new | ⟨front, p, back, split, new, taken⟩
  · obtain ⟨h', xs, none, stocks, runs⟩ :=
      putEach_arranged available uids ms (List.append_nil _).symm new
    rw [List.map_nil, List.map_eq_nil_iff] at none
    rw [none, count_arranged] at runs
    rw [load_of_putEach runs]
    exact ⟨_, .all new, stocks.loads⟩
  · obtain ⟨h', xs, next, stocks, runs⟩ := putEach_arranged available uids ms split new
    obtain ⟨⟨uid, m⟩, xs, rfl, rfl, _⟩ := List.map_eq_cons_iff.mp next
    have refused : h'.put uid (.promotion p) = .error (.alreadyExists p.key) :=
      put_taken stocks.available (stocks.taken taken)
    rw [load_of_putEach (runs.trans (putEach_error refused _ xs))]
    exact ⟨front, .refused front p back split new taken, stocks.loads⟩

/-- Two Stages with one name, and two Promotions with one name. -/
def doubled : List Manifest :=
  [.promotion (.fresh (.fresh "a" "p" default) ⟨"s", "f", [], []⟩),
    .stage (.fresh (.fresh "a" "s" default) ⟨[], none⟩),
    .credentials ⟨"c", "a", .git, "https://git.local/app", false, ⟨"u", "p", none⟩⟩,
    .promotion (.fresh (.fresh "a" "p" default) ⟨"s", "g", [], []⟩),
    .stage (.fresh (.fresh "a" "s" default) ⟨[], some ⟨[]⟩⟩)]

def unfilled : Holdings := ⟨.empty, .empty ⟨[], false⟩⟩

/-- The second Stage takes the place of the first one, and the second Promotion is refused. -/
theorem loads_of_doubled :
    unfilled.store.available = true ∧
      (unfilled.load (fun i => ⟨i + 1⟩) doubled).1 =
        .error (.store (.alreadyExists ⟨"a", "p"⟩)) ∧
      ∃ created, Ends unfilled.store.promotions doubled created
          (unfilled.load (fun i => ⟨i + 1⟩) doubled).1 ∧
        Loads (fun u => ∃ i : Nat, u = ⟨i + 1⟩) unfilled doubled created
          (unfilled.load (fun i => ⟨i + 1⟩) doubled).2 :=
  ⟨rfl, by decide +kernel, loads_of_manifests rfl (fun i => ⟨i + 1⟩) doubled⟩

end Holdings

end Drayage
