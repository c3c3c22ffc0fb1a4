import Drayage.Controller.Outcome

/-!
# Messages are cut as little as possible

What is kept of a message that is too long is its longest beginning that fits and does not end
within a character, so that at most three bytes of the limit are given away. The status of a
Promotion that errors has such a message: whatever there is to say, the store accepts it if it
has accepted the status before.
-/

namespace Drayage

open Text

/-- What is kept of a message of which at most `limit` bytes are wanted. -/
structure Shortens (limit : Nat) (message kept : String) : Prop where
  front : ∃ rest, message = kept ++ rest
  fits : kept.utf8ByteSize ≤ limit
  /-- A cut at any other boundary between characters would keep less, or too much. -/
  longest : ∀ bytes, (⟨bytes⟩ : String.Pos.Raw).IsValid message → bytes ≤ limit →
    bytes ≤ kept.utf8ByteSize
  whole : message.utf8ByteSize ≤ limit → kept = message
  most : limit < message.utf8ByteSize → limit < kept.utf8ByteSize + 4

section Search

variable {text : String} {bytes : Nat} {stop : text.Pos}

theorem offset_of_pos? {off : String.Pos.Raw} (h : text.pos? off = some stop) :
    stop.offset = off := by
  unfold String.pos? String.Slice.pos? at h
  split at h
  · cases h
    rfl
  · cases h

/-- The search ends at the last boundary there is, since it looks at every byte on its way. -/
theorem last_of_lastBoundary? (h : lastBoundary? text bytes = some stop) :
    stop.offset.byteIdx ≤ bytes ∧ ∀ p : text.Pos, p.offset.byteIdx ≤ bytes → p ≤ stop := by
  induction bytes with
  | zero =>
    rw [lastBoundary?] at h
    have here : stop.offset.byteIdx = 0 := congrArg _ (offset_of_pos? h)
    refine ⟨Nat.le_of_eq here, fun p hp => ?_⟩
    rw [String.Pos.le_iff, String.Pos.Raw.le_iff]
    omega
  | succ bytes ih =>
    rw [lastBoundary?] at h
    split at h
    · rename_i found
      cases h
      have here : stop.offset.byteIdx = bytes + 1 := congrArg _ (offset_of_pos? found)
      refine ⟨Nat.le_of_eq here, fun p hp => ?_⟩
      rw [String.Pos.le_iff, String.Pos.Raw.le_iff]
      omega
    · rename_i within
      obtain ⟨before, last⟩ := ih h
      refine ⟨Nat.le_succ_of_le before, fun p hp => last p ?_⟩
      -- where the search has passed on, there is no boundary
      have other : p.offset.byteIdx ≠ bytes + 1 := by
        intro here
        have boundary := (isSome_pos?_iff text p.offset).mpr p.isValid
        rw [show p.offset = ⟨bytes + 1⟩ from String.Pos.Raw.ext here, within] at boundary
        cases boundary
      omega

/-- The character in which the search begins, if it does, has at most four bytes. -/
theorem lt_add_four_of_lastBoundary? (h : lastBoundary? text bytes = some stop)
    (beyond : bytes < text.utf8ByteSize) : bytes < stop.offset.byteIdx + 4 := by
  obtain ⟨before, last⟩ := last_of_lastBoundary? h
  have inside : stop ≠ text.endPos := by
    rintro rfl
    have here : text.endPos.offset.byteIdx = text.utf8ByteSize := rfl
    omega
  have next := String.Pos.byteIdx_offset_next stop inside
  have size := (stop.get inside).utf8Size_le_four
  have later : bytes < (stop.next inside).offset.byteIdx := by
    refine Nat.lt_of_not_le fun early => ?_
    exact Nat.not_le_of_lt (String.Pos.lt_iff.mp String.Pos.lt_next)
      (String.Pos.le_iff.mp (last (stop.next inside) early))
  omega

end Search

variable {limit : Nat} {message : String}

/-- A message that does not fit is cut where the search ends. -/
theorem splits_truncate (long : limit < message.utf8ByteSize) : ∃ stop,
    lastBoundary? message limit = some stop ∧
      stop.Splits (truncate limit message) (message.sliceFrom stop).copy := by
  obtain ⟨stop, found⟩ := Option.isSome_iff_exists.mp (isSome_lastBoundary? message limit)
  refine ⟨stop, found, ?_⟩
  unfold truncate
  simp only [if_pos long, found, Option.get_some]
  exact stop.splits

theorem truncate_of_fits (fits : message.utf8ByteSize ≤ limit) : truncate limit message = message :=
  if_neg (Nat.not_lt.mpr fits)

theorem shortens_truncate (limit : Nat) (message : String) :
    Shortens limit message (truncate limit message) := by
  rcases Nat.lt_or_ge limit message.utf8ByteSize with long | fits
  · obtain ⟨stop, found, splits⟩ := splits_truncate long
    obtain ⟨before, last⟩ := last_of_lastBoundary? found
    have size : stop.offset.byteIdx = (truncate limit message).utf8ByteSize :=
      congrArg _ splits.offset_eq_rawEndPos
    have most := lt_add_four_of_lastBoundary? found long
    rw [size] at before most
    refine ⟨⟨_, splits.eq_append⟩, before, fun bytes boundary fits => ?_,
      fun fits => absurd long (Nat.not_lt.mpr fits), fun _ => most⟩
    rw [← size]
    exact last (message.pos ⟨bytes⟩ boundary) fits
  · rw [truncate_of_fits fits]
    exact ⟨⟨"", String.append_empty.symm⟩, fits, fun bytes boundary _ => boundary.le_utf8ByteSize,
      fun _ => rfl, fun long => absurd long (Nat.not_lt.mpr fits)⟩

/-- What is cut off is cut off at the end. -/
theorem truncate_append (front back : String) (fits : front.utf8ByteSize ≤ limit) :
    ∃ rest, truncate limit (front ++ back) = front ++ rest := by
  rcases Nat.lt_or_ge limit (front ++ back).utf8ByteSize with long | whole
  · obtain ⟨stop, found, splits⟩ := splits_truncate long
    have between := @String.Pos.splits_append_rawEndPos front back
    obtain ⟨rest, kept, -⟩ := (between.le_iff_exists_eq_append splits).mp
      ((last_of_lastBoundary? found).2 _ fits)
    exact ⟨rest, kept⟩
  · exact ⟨back, truncate_of_fits whole⟩

theorem unfit?_eq_none_iff {s : PromotionStatus} {spec : PromotionSpec} :
    s.unfit? spec = none ↔ s.currentStep ≤ spec.steps.length ∧
      s.records.length ≤ spec.steps.length ∧
        (s.message.getD "").utf8ByteSize ≤ messageLimit := by
  unfold PromotionStatus.unfit?
  simp only
  constructor
  · intro h
    split at h
    · cases h
    · split at h
      · cases h
      · split at h
        · cases h
        · omega
  · rintro ⟨h1, h2, h3⟩
    rw [if_neg (by omega), if_neg (by omega), if_neg (by omega)]

/-- A fit status stays fit when its Promotion errors, for the message is cut to what the
store keeps. -/
theorem unfit?_errored {s : PromotionStatus} {spec : PromotionSpec} (message : String)
    (h : s.unfit? spec = none) : (s.errored message).unfit? spec = none := by
  obtain ⟨step, records, -⟩ := unfit?_eq_none_iff.mp h
  exact unfit?_eq_none_iff.mpr ⟨step, records, (shortens_truncate _ _).fits⟩

/-- Where a message is to be cut, the search for the place ends. What is kept is as much as fits,
and so a status that was fit errs with any message without becoming unfit. -/
theorem keepsMost_of_message (limit : Nat) (message : String) :
    (∃ stop, lastBoundary? message limit = some stop) ∧
      Shortens limit message (truncate limit message) ∧
      ∀ (s : PromotionStatus) (spec : PromotionSpec), s.unfit? spec = none →
        (s.errored message).unfit? spec = none :=
  ⟨Option.isSome_iff_exists.mp (isSome_lastBoundary? message limit), shortens_truncate limit message,
    fun _ _ fit => unfit?_errored message fit⟩

/-- A text of as many characters with two bytes each. -/
def accents (length : Nat) : String := String.ofList (List.replicate length 'é')

theorem utf8ByteSize_accents (length : Nat) : (accents length).utf8ByteSize = 2 * length := by
  unfold accents
  induction length with
  | zero => rfl
  | succ length ih =>
    have two : 'é'.utf8Size = 2 := by decide
    rw [List.replicate_succ, String.ofList_cons, String.utf8ByteSize_append, ih,
      String.utf8ByteSize_singleton, two]
    omega

def fetchAndShip : PromotionSpec := ⟨"s", "f", [], [.ofKind "git-clone", .ofKind "http"]⟩

/-- The second of two steps is to be attempted again. -/
def halfDone : PromotionStatus :=
  { (default : PromotionStatus) with
    phase := some .running
    message := some "down"
    currentStep := 1
    records := [⟨"step-0", .succeeded, some ⟨0, 0⟩, some ⟨1, 0⟩, 0, none⟩,
      ⟨"step-1", .running, some ⟨1, 0⟩, none, 1, some "down"⟩]
    startedAt := some ⟨0, 0⟩ }

/-- Five bytes are kept of twenty, and almost all that the store keeps of a text that is too
long for it. -/
theorem keepsMost_of_accents :
    truncate 5 (accents 10) = "éé" ∧ Shortens 5 (accents 10) (truncate 5 (accents 10)) ∧
      halfDone.unfit? fetchAndShip = none ∧
      { halfDone with message := some (accents 2100) }.unfit? fetchAndShip ≠ none ∧
      (halfDone.errored (accents 2100)).unfit? fetchAndShip = none ∧
      ∃ kept, (halfDone.errored (accents 2100)).message = some kept ∧
        messageLimit < kept.utf8ByteSize + 4 := by
  have fit : halfDone.unfit? fetchAndShip = none := by decide
  have long : messageLimit < (accents 2100).utf8ByteSize := by
    rw [utf8ByteSize_accents]
    decide
  obtain ⟨-, shortens, -⟩ := keepsMost_of_message 5 (accents 10)
  obtain ⟨-, cut, errored⟩ := keepsMost_of_message messageLimit (accents 2100)
  refine ⟨by decide, shortens, fit, fun whole => ?_, errored halfDone fetchAndShip fit, _, rfl,
    cut.most long⟩
  exact Nat.not_le_of_lt long (unfit?_eq_none_iff.mp whole).2.2

end Drayage
