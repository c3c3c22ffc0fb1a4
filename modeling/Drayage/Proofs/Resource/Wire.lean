import Drayage.Credentials.Basic
import Drayage.Proofs.Json.Fields
import Drayage.Proofs.Resource.Uid
import Drayage.Proofs.Time.Rfc3339
import Drayage.Resource.Annotations
import Drayage.Resource.Stage

/-!
# Resources on the wire

What was read from a document is read again from the document that is written for it. The
codecs of uids, instants and references turn many spellings into one value, and write the one
of them that they read back; the records around them are lawful.
-/

namespace Drayage

open Codec

/-! ## Uids and instants -/

namespace Uid

theorem parses_codec : codec.Parses text parse? where
  write _ := rfl
  read_iff := by
    intro j u
    cases j with
    | text s =>
      unfold codec
      dsimp only
      split <;> simp_all
    | null | bool | number | list | record | fault => exact ⟨nofun, nofun⟩

theorem reads_codec {u : Uid} : codec.Reads u ↔ u.Fits :=
  parses_codec.reads_iff fits_of_parse? parse?_text

theorem faithful_codec : codec.Faithful :=
  parses_codec.faithful fun parsed => parse?_text (fits_of_parse? parsed)

end Uid

namespace Instant

theorem parses_codec : codec.Parses print parse? where
  write _ := rfl
  read_iff := by
    intro j t
    cases j with
    | text s =>
      unfold codec
      dsimp only
      split <;> simp_all
    | null | bool | number | list | record | fault => exact ⟨nofun, nofun⟩

theorem reads_codec {t : Instant} : codec.Reads t ↔ t.Legible :=
  parses_codec.reads_iff legible_of_parse? parse?_print

theorem faithful_codec : codec.Faithful :=
  parses_codec.faithful fun parsed => parse?_print (legible_of_parse? parsed)

end Instant

/-! ## Reading again -/

namespace Codec

variable {α τ : Type}

/-- Codecs that stand for what is missing with the time at which a document is read. What is
written does not depend on that time, nor does what can be read. -/
structure Steady (c : Instant → Codec α) : Prop where
  faithful : ∀ {now}, now.Legible → (c now).Faithful
  reads : ∀ {now later a}, now.Legible → later.Legible → (c now).Reads a → (c later).Reads a
  write : ∀ now later, (c now).write = (c later).write

theorem steady_record {title : String} {fs : Instant → Fields τ} {pair : α → τ} {make : τ → α}
    (lawful : ∀ {now}, now.Legible → (fs now).Lawful) (distinct : ∀ now, (fs now).names.Nodup)
    (same : ∀ v, pair (make v) = v)
    (reads : ∀ {now later v}, now.Legible → later.Legible → (fs now).Reads v → (fs later).Reads v)
    (write : ∀ now later, (fs now).write = (fs later).write) :
    Steady fun now => record title (fs now) pair make where
  faithful legible := faithful_record (lawful legible) (distinct _) same
  reads := by
    intro now later a legible legible' h
    obtain ⟨v, h, made⟩ := (reads_record (lawful legible) (distinct now)).mp h
    exact (reads_record (lawful legible') (distinct later)).mpr
      ⟨v, reads legible legible' h, made⟩
  write now later := funext fun a => congrArg Json.record (congrFun (write now later) (pair a))

/-- `d` reads a value from what `c` writes for it, if `c` has read that value: as a document,
and as a text, if the text is read as the document that it was printed from. -/
structure Returns (c d : Codec α) : Prop where
  document : ∀ {j a}, c.read j = .ok a → d.read (c.write a) = .ok a
  text : ∀ {s a}, c.parse s = .ok a →
    Json.read (c.write a).compact = (c.write a, true) → d.parse (c.write a).compact = .ok a

theorem read_of_parse {c : Codec α} {s : String} {a : α} (h : c.parse s = .ok a) :
    c.read (Json.read s).1 = .ok a := by
  obtain ⟨b, read, h⟩ := ok_of_bind (x := c.read (Json.read s).1)
    (f := fun b => if (Json.read s).2 then .ok b else .error .unreadable) h
  split at h
  · cases h
    exact read
  · cases h

theorem parse_of_read {c : Codec α} {s : String} {j : Json} {a : α}
    (printed : Json.read s = (j, true)) (h : c.read j = .ok a) : c.parse s = .ok a := by
  unfold parse
  rw [printed]
  dsimp only
  rw [h]
  rfl

theorem returns_of_document {c d : Codec α}
    (document : ∀ {j a}, c.read j = .ok a → d.read (c.write a) = .ok a) : c.Returns d where
  document := document
  text h printed := parse_of_read printed (document (read_of_parse h))

theorem Faithful.returns {c : Codec α} (faithful : c.Faithful) : c.Returns c :=
  returns_of_document fun h => faithful.read_write ⟨_, h⟩

theorem Steady.returns {c : Instant → Codec α} (steady : Steady c) {now later : Instant}
    (legible : now.Legible) (legible' : later.Legible) : (c now).Returns (c later) :=
  returns_of_document fun h => by
    rw [steady.write now later]
    exact (steady.faithful legible').read_write (steady.reads legible legible' ⟨_, h⟩)

end Codec

/-! ## Freight and collections -/

theorem OriginKind.faithful_codec : OriginKind.codec.Faithful := faithful_variants _ _

theorem Origin.faithful_codec : Origin.codec.Faithful :=
  faithful_record
    (.defaulted OriginKind.faithful_codec ⟨.text "Warehouse", rfl⟩ <| .required faithful_text .done)
    (by decide) fun _ => rfl

theorem Commit.faithful_codec : Commit.codec.Faithful :=
  faithful_record
    (.required faithful_text <| .maybe faithful_text <| .maybe faithful_text <|
      .maybe faithful_text <| .maybe faithful_text .done)
    (by decide) fun _ => rfl

theorem Image.faithful_codec : Image.codec.Faithful :=
  faithful_record
    (.required faithful_text <| .maybe faithful_text <| .maybe faithful_text .done)
    (by decide) fun _ => rfl

theorem Chart.faithful_codec : Chart.codec.Faithful :=
  faithful_record
    (.required faithful_text <| .nonempty <| .required faithful_text .done)
    (by decide) fun _ => rfl

theorem FreightReference.faithful_codec : FreightReference.codec.Faithful :=
  faithful_record
    (.required faithful_text <| .required Origin.faithful_codec <| .many Commit.faithful_codec <|
      .many Image.faithful_codec <| .many Chart.faithful_codec .done)
    (by decide) fun _ => rfl

theorem Verification.faithful_codec : Verification.codec.Faithful :=
  faithful_record
    (.required faithful_text <| .nonempty <| .maybe Instant.faithful_codec .done)
    (by decide) fun _ => rfl

namespace References

/-- At most one reference per origin. -/
def Distinct (rs : References) : Prop := rs.Pairwise fun r s => r.origin ≠ s.origin

theorem mem_upsert {r s : FreightReference} {rs : References} (h : s ∈ upsert r rs) :
    s = r ∨ s ∈ rs := by
  induction rs with
  | nil => exact .inl (List.mem_singleton.mp h)
  | cons t rs ih =>
    rw [upsert] at h
    split at h
    · exact (List.mem_cons.mp h).imp id (List.mem_cons_of_mem _)
    · rcases List.mem_cons.mp h with rfl | h
      · exact .inr List.mem_cons_self
      · exact (ih h).imp id (List.mem_cons_of_mem _)

theorem Distinct.upsert {rs : References} (distinct : rs.Distinct) (r : FreightReference) :
    (upsert r rs).Distinct := by
  induction rs with
  | nil => exact List.pairwise_singleton _ _
  | cons s rs ih =>
    obtain ⟨others, distinct⟩ := List.pairwise_cons.mp distinct
    rw [References.upsert]
    split
    · rename_i same
      exact List.pairwise_cons.mpr ⟨fun t ht => same ▸ others t ht, distinct⟩
    · rename_i unlike
      refine List.pairwise_cons.mpr ⟨fun t ht => ?_, ih distinct⟩
      rcases mem_upsert ht with rfl | ht
      · exact unlike
      · exact others t ht

theorem upsert_new {r : FreightReference} {rs : References}
    (h : ∀ s ∈ rs, s.origin ≠ r.origin) : upsert r rs = rs ++ [r] := by
  induction rs with
  | nil => rfl
  | cons s rs ih =>
    rw [upsert, if_neg (h s List.mem_cons_self), ih fun t ht => h t (List.mem_cons_of_mem _ ht)]
    rfl

/-- The references of a document, in its order. -/
def gather (rs acc : References) : References := rs.foldl (fun acc r => upsert r acc) acc

theorem Distinct.gather {acc : References} (distinct : acc.Distinct) (rs : References) :
    (gather rs acc).Distinct := by
  induction rs generalizing acc with
  | nil => exact distinct
  | cons r rs ih => exact ih (distinct.upsert r)

theorem mem_gather {r : FreightReference} {rs acc : References} (h : r ∈ gather rs acc) :
    r ∈ acc ∨ r ∈ rs := by
  induction rs generalizing acc with
  | nil => exact .inl h
  | cons s rs ih =>
    rcases ih h with h | h
    · rcases mem_upsert h with rfl | h
      · exact .inr List.mem_cons_self
      · exact .inl h
    · exact .inr (List.mem_cons_of_mem _ h)

/-- Distinct references stay in their order. -/
theorem gather_distinct {rs acc : References} (distinct : Distinct (acc ++ rs)) :
    gather rs acc = acc ++ rs := by
  induction rs generalizing acc with
  | nil => exact (List.append_nil _).symm
  | cons r rs ih =>
    have new : upsert r acc = acc ++ [r] := upsert_new fun s hs =>
      (List.pairwise_append.mp distinct).2.2 s hs r List.mem_cons_self
    have rest : gather rs (acc ++ [r]) = acc ++ [r] ++ rs := ih (by rwa [List.append_assoc])
    show gather rs (upsert r acc) = _
    rw [new, rest, List.append_assoc]
    rfl

theorem read_record (ms : List (String × Json)) : codec.read (.record ms) =
    (readMembers FreightReference.codec ms).map fun rs => gather (rs.map Prod.snd) [] := by
  show (readMembers FreightReference.codec ms).map _ = _
  congr 1
  funext rs
  show _ = (rs.map Prod.snd).foldl (fun acc r => upsert r acc) []
  rw [List.foldl_map]

/-- What a document names is distinct, and was read. -/
theorem reads_codec {rs : References} (h : codec.Reads rs) :
    rs.Distinct ∧ ∀ r ∈ rs, FreightReference.codec.Reads r := by
  obtain ⟨j, h⟩ := h
  cases j with
  | record ms =>
    rw [read_record] at h
    obtain ⟨es, read, rfl⟩ := ok_of_map h
    refine ⟨Distinct.gather .nil _, fun r hr => ?_⟩
    rcases mem_gather hr with hr | hr
    · cases hr
    · obtain ⟨e, he, rfl⟩ := List.mem_map.mp hr
      exact reads_of_readMembers read e he
  | null | bool | number | text | list | fault => cases h

theorem faithful_codec : codec.Faithful where
  read_write := by
    intro rs h
    obtain ⟨distinct, reads⟩ := reads_codec h
    have members : readMembers FreightReference.codec
        (rs.map fun r => (r.origin.text, FreightReference.codec.write r))
          = .ok (rs.map fun r => (r.origin.text, r)) := by
      have named : ∀ e ∈ rs.map fun r => (r.origin.text, r), FreightReference.codec.Reads e.2 := by
        simpa using reads
      have again := readMembers_write FreightReference.faithful_codec named
      rwa [List.map_map] at again
    show codec.read (.record _) = _
    rw [read_record, members]
    show Except.ok (gather ((rs.map fun r => (r.origin.text, r)).map Prod.snd) []) = _
    rw [List.map_map]
    exact congrArg Except.ok ((congrArg (gather · []) (List.map_id rs)).trans
      (gather_distinct distinct))
  solid _ _ := nofun

end References

theorem Collection.faithful_codec : Collection.codec.Faithful :=
  faithful_record
    (.nonempty <| .defaulted References.faithful_codec ⟨.record [], rfl⟩ <|
      .many Verification.faithful_codec .done)
    (by decide) fun _ => rfl

/-- Only the origins inside the references count, and the last reference for one of them. -/
example :
    let reference (name origin : String) : Json := .record [("name", .text name),
      ("origin", .record [("kind", .text "Warehouse"), ("name", .text origin)])]
    (Collection.codec.read (.record [("freight", .record [("first", reference "old" "west"),
        ("second", .list [.text "oak", .list [.text "Warehouse", .text "east"]]),
        ("third", reference "new" "west")])])).map Collection.codec.write
      = .ok (.record [("freight", .record [("Warehouse/west", reference "new" "west"),
          ("Warehouse/east", reference "oak" "east")])]) := rfl

theorem FreightStatus.faithful_codec : FreightStatus.codec.Faithful :=
  faithful_record (.textSet <| .textSet .done) (by decide) fun _ => rfl

/-! ## Promotions, Stages and credentials -/

theorem Phase.faithful_codec : Phase.codec.Faithful := faithful_variants _ _

theorem StepStatus.faithful_codec : StepStatus.codec.Faithful := faithful_variants _ _

theorem RetryPolicy.faithful_codec : RetryPolicy.codec.Faithful :=
  faithful_record
    (.maybe (faithful_natural _ _) <| .maybe faithful_nat32 .done)
    (by decide) fun _ => rfl

theorem Variable.faithful_codec : Variable.codec.Faithful :=
  faithful_record
    (.required faithful_text <| .defaulted faithful_text ⟨.text "", rfl⟩ .done)
    (by decide) fun _ => rfl

theorem DeclaredStep.faithful_codec : DeclaredStep.codec.Faithful :=
  faithful_record
    (.required faithful_text <| .maybe faithful_text <| .maybe faithful_text <|
      .defaulted faithful_bool ⟨.bool false, rfl⟩ <| .maybe RetryPolicy.faithful_codec <|
      .many Variable.faithful_codec <| .maybe faithful_opaqueData .done)
    (by decide) fun _ => rfl

theorem PromotionSpec.faithful_codec : PromotionSpec.codec.Faithful :=
  faithful_record
    (.required faithful_text <| .required faithful_text <| .many Variable.faithful_codec <|
      .defaulted (faithful_list DeclaredStep.faithful_codec) ⟨.list [], rfl⟩ .done)
    (by decide) fun _ => rfl

theorem StepRecord.faithful_codec : StepRecord.codec.Faithful :=
  faithful_record
    (.nonempty <| .required StepStatus.faithful_codec <| .maybe Instant.faithful_codec <|
      .maybe Instant.faithful_codec <| .defaulted faithful_nat32 ⟨.nat 0, rfl⟩ <|
      .maybe faithful_text .done)
    (by decide) fun _ => rfl

theorem HealthCheck.faithful_codec : HealthCheck.codec.Faithful :=
  faithful_record
    (.required faithful_text <| .maybe faithful_opaqueData .done)
    (by decide) fun _ => rfl

theorem PromotionStatus.faithful_codec : PromotionStatus.codec.Faithful :=
  faithful_record
    (.maybe Phase.faithful_codec <| .maybe faithful_text <|
      .defaulted (faithful_natural _ _) ⟨.nat 0, rfl⟩ <| .many StepRecord.faithful_codec <|
      .entries faithful_opaqueData <| .maybe FreightReference.faithful_codec <|
      .maybe Collection.faithful_codec <| .many HealthCheck.faithful_codec <|
      .maybe Instant.faithful_codec <| .maybe Instant.faithful_codec <| .maybe faithful_text .done)
    (by decide) fun _ => rfl

theorem Sources.faithful_codec : Sources.codec.Faithful :=
  faithful_record
    (.defaulted faithful_bool ⟨.bool false, rfl⟩ <| .many faithful_text .done)
    (by decide) fun _ => rfl

theorem FreightRequest.faithful_codec : FreightRequest.codec.Faithful :=
  faithful_record
    (.required Origin.faithful_codec <| .defaulted Sources.faithful_codec ⟨.record [], rfl⟩ .done)
    (by decide) fun _ => rfl

theorem VerificationSpec.faithful_codec : VerificationSpec.codec.Faithful :=
  faithful_record (.many faithful_text .done) (by decide) fun _ => rfl

theorem StageSpec.faithful_codec : StageSpec.codec.Faithful :=
  faithful_record
    (.defaulted (faithful_list FreightRequest.faithful_codec) ⟨.list [], rfl⟩ <|
      .maybe VerificationSpec.faithful_codec .done)
    (by decide) fun _ => rfl

theorem PromotionReference.faithful_codec : PromotionReference.codec.Faithful :=
  faithful_record
    (.required faithful_text <| .maybe FreightReference.faithful_codec <|
      .maybe PromotionStatus.faithful_codec <| .maybe Instant.faithful_codec .done)
    (by decide) fun _ => rfl

theorem StageStatus.faithful_codec : StageStatus.codec.Faithful :=
  faithful_record
    (.maybe PromotionReference.faithful_codec <| .maybe PromotionReference.faithful_codec <|
      .many Collection.faithful_codec .done)
    (by decide) fun _ => rfl

theorem Credentials.faithful_codec : Credentials.codec.Faithful :=
  faithful_record
    (.defaulted faithful_text ⟨.text "", rfl⟩ <| .defaulted faithful_text ⟨.text "", rfl⟩ <|
      .maybe faithful_text .done)
    (by decide) fun _ => rfl

theorem RepositoryKind.faithful_codec : RepositoryKind.codec.Faithful := faithful_variants _ _

theorem Secret.faithful_codec : Secret.codec.Faithful :=
  faithful_record
    (.required faithful_text <| .required faithful_text <|
      .required RepositoryKind.faithful_codec <| .required faithful_text <|
      .defaulted faithful_bool ⟨.bool false, rfl⟩ <| .required Credentials.faithful_codec .done)
    (by decide) fun _ => rfl

/-! ## Whole resources -/

theorem Metadata.steady_codec : Steady Metadata.codec :=
  steady_record
    (fun legible => .required faithful_text <| .required faithful_text <|
      .defaulted Uid.faithful_codec (Uid.reads_codec.mpr (by decide)) <|
      .defaulted (faithful_natural _ _) ⟨.nat 0, rfl⟩ <|
      .defaulted (faithful_natural _ _) ⟨.nat 0, rfl⟩ <| .entries faithful_text <|
      .entries faithful_text <|
      .defaulted Instant.faithful_codec (Instant.reads_codec.mpr legible) .done)
    (fun _ => of_decide_eq_true rfl) (fun _ => rfl) (fun _ _ reads => reads) fun _ _ => rfl

theorem Promotion.steady_codec : Steady Promotion.codec :=
  steady_record
    (fun legible => .required (Metadata.steady_codec.faithful legible) <|
      .required PromotionSpec.faithful_codec <|
      .defaulted PromotionStatus.faithful_codec ⟨.record [], rfl⟩ .done)
    (fun _ => of_decide_eq_true rfl) (fun _ => rfl)
    (fun legible legible' => And.imp_left (Metadata.steady_codec.reads legible legible'))
    fun now later => Fields.write_congr (Metadata.steady_codec.write now later) rfl

theorem Stage.steady_codec : Steady Stage.codec :=
  steady_record
    (fun legible => .required (Metadata.steady_codec.faithful legible) <|
      .defaulted StageSpec.faithful_codec ⟨.record [], rfl⟩ <|
      .defaulted StageStatus.faithful_codec ⟨.record [], rfl⟩ .done)
    (fun _ => of_decide_eq_true rfl) (fun _ => rfl)
    (fun legible legible' => And.imp_left (Metadata.steady_codec.reads legible legible'))
    fun now later => Fields.write_congr (Metadata.steady_codec.write now later) rfl

theorem Freight.steady_codec : Steady Freight.codec :=
  steady_record
    (fun legible => .required (Metadata.steady_codec.faithful legible) <|
      .maybe faithful_text <| .required Origin.faithful_codec <| .many Commit.faithful_codec <|
      .many Image.faithful_codec <| .many Chart.faithful_codec <|
      .defaulted FreightStatus.faithful_codec ⟨.record [], rfl⟩ .done)
    (fun _ => of_decide_eq_true rfl) (fun _ => rfl)
    (fun legible legible' => And.imp_left (Metadata.steady_codec.reads legible legible'))
    fun now later => Fields.write_congr (Metadata.steady_codec.write now later) rfl

/-- Everything that is sent and stored comes back as it was: read `now`, written, and read
again `later`. -/
structure Wire (now later : Instant) : Prop where
  promotion : (Promotion.codec now).Returns (Promotion.codec later)
  promotionStatus : PromotionStatus.codec.Returns PromotionStatus.codec
  stage : (Stage.codec now).Returns (Stage.codec later)
  freight : (Freight.codec now).Returns (Freight.codec later)
  collection : Collection.codec.Returns Collection.codec
  secret : Secret.codec.Returns Secret.codec

theorem Wire.returned {now later : Instant} (legible : now.Legible) (legible' : later.Legible) :
    Wire now later where
  promotion := Promotion.steady_codec.returns legible legible'
  promotionStatus := PromotionStatus.faithful_codec.returns
  stage := Stage.steady_codec.returns legible legible'
  freight := Freight.steady_codec.returns legible legible'
  collection := Collection.faithful_codec.returns
  secret := Secret.faithful_codec.returns

theorem Wire.returned_after_minute :
    (⟨0, 0⟩ : Instant).Legible ∧ (⟨60, 0⟩ : Instant).Legible ∧ Wire ⟨0, 0⟩ ⟨60, 0⟩ := by
  have before : (⟨0, 0⟩ : Instant).Legible := ⟨by decide, by decide, by decide, by decide⟩
  have after : (⟨60, 0⟩ : Instant).Legible := ⟨by decide, by decide, by decide, by decide⟩
  exact ⟨before, after, Wire.returned before after⟩

end Drayage
