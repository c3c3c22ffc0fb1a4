/-!
# Texts in the order of their bytes

Texts are compared character by character. In UTF-8 that is the order of their bytes: of two
characters the smaller one has the smaller byte where their bytes first differ.
-/

namespace Drayage.Text

/-- The bytes of a text in UTF-8. -/
def bytes (s : String) : List UInt8 := s.toByteArray.data.toList

theorem bytes_eq_flatMap (s : String) : bytes s = s.toList.flatMap String.utf8EncodeChar := by
  unfold bytes
  rw [← String.utf8Encode_toList]
  exact List.toList_data_toByteArray

/-- Whatever follows two characters, the bytes of the smaller one come first. -/
theorem encoded_lt {c d : Char} (h : c < d) (u v : List UInt8) :
    String.utf8EncodeChar c ++ u < String.utf8EncodeChar d ++ v := by
  have below : c.val.toNat < d.val.toNat := h
  have bound : d.val.toNat < 0x110000 := by
    rcases d.valid with low | ⟨-, high⟩
    · omega
    · exact high
  have twice (n : Nat) : n / 4096 = n / 64 / 64 := by omega
  have thrice (n : Nat) : n / 262144 = n / 64 / 64 / 64 := by omega
  unfold String.utf8EncodeChar
  dsimp only
  -- If one of them takes more bytes, its first byte is larger already.
  repeat' split
  all_goals simp only [List.cons_append, List.nil_append, List.cons_lt_cons_iff,
    UInt8.lt_iff_toNat_lt, ← UInt8.toNat_inj, UInt8.toNat_ofNat', twice, thrice]
  all_goals omega

theorem bytes_lt {s t : String} (h : s < t) : bytes s < bytes t := by
  rw [bytes_eq_flatMap, bytes_eq_flatMap]
  have h : List.Lex (· < ·) s.toList t.toList := h
  generalize s.toList = cs, t.toList = ds at h
  induction h with
  | @nil d ds =>
    obtain ⟨b, bs, first⟩ := List.exists_cons_of_ne_nil (String.utf8EncodeChar_ne_nil (c := d))
    rw [List.flatMap_cons, first]
    exact .nil
  | @cons c cs ds later ih =>
    rw [List.flatMap_cons, List.flatMap_cons]
    exact List.append_left_lt ih
  | @rel c cs d ds smaller =>
    rw [List.flatMap_cons, List.flatMap_cons]
    exact encoded_lt smaller _ _

/-- Texts are compared as their bytes are. -/
theorem bytes_le_iff {s t : String} : bytes s ≤ bytes t ↔ (compare s t).isLE = true := by
  have ordered : (compare s t).isLE = true ↔ s ≤ t :=
    isLE_compareOfLessAndEq String.le_antisymm String.not_le String.le_total
  rw [ordered]
  constructor
  · intro h
    exact String.not_lt.mp fun after => h (bytes_lt after)
  · intro h after
    rcases Std.lt_trichotomy s t with before | rfl | back
    · exact List.lt_asymm (bytes_lt before) after
    · exact List.lt_irrefl _ after
    · exact h back

/-- Texts in the order of their bytes. -/
def Ascending (ss : List String) : Prop := ss.Pairwise fun s t => bytes s ≤ bytes t

theorem ascending_mergeSort (ss : List String) :
    Ascending (ss.mergeSort fun s t => (compare s t).isLE) := by
  have total (s t : String) : ((compare s t).isLE || (compare t s).isLE) = true := by
    rw [Bool.or_eq_true, ← bytes_le_iff, ← bytes_le_iff]
    exact Std.le_total
  have sorted := List.pairwise_mergeSort (fun _ _ _ => Std.TransCmp.isLE_trans) total ss
  exact sorted.imp bytes_le_iff.mpr

/-- There is one ascending order of some texts. -/
theorem Ascending.eq_of_perm {ss ts : List String} (h : Ascending ss) (h' : Ascending ts)
    (perm : ss.Perm ts) : ss = ts := by
  refine perm.eq_of_pairwise (fun s t _ _ before after => ?_) h h'
  rw [bytes_le_iff] at before after
  exact Std.LawfulEqCmp.eq_of_compare (Std.OrientedCmp.isLE_antisymm before after)

end Drayage.Text
