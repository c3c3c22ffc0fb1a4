import Drayage.Workspace.Basic

/-!
# Reading uids

A uid of 128 bits is read back from its text, whichever of its spellings it came from. So
different uids have different texts, and different workspaces.
-/

namespace Drayage

namespace Uid

/-- A uid has 128 bits, which makes 32 hexadecimal digits. -/
def Fits (u : Uid) : Prop := u.value < 16 ^ 32

instance (u : Uid) : Decidable u.Fits := inferInstanceAs (Decidable (u.value < 16 ^ 32))

theorem hexValue?_digitChar {n : Nat} (h : n < 16) :
    Json.hexValue? (Nat.digitChar n) = some n := by
  revert n
  decide

theorem hexValue?_lt {c : Char} {n : Nat} (h : Json.hexValue? c = some n) : n < 16 := by
  unfold Json.hexValue? at h
  have bounds : ∀ a b : Char, a ≤ b → a.toNat ≤ b.toNat := fun a b h => h
  split at h
  · rename_i digit
    cases h
    have upper := bounds _ _ digit.2
    have : ('9' : Char).toNat = 57 ∧ ('0' : Char).toNat = 48 := by decide
    omega
  · split at h
    · rename_i letter
      cases h
      have upper := bounds _ _ letter.2
      have : ('f' : Char).toNat = 102 ∧ ('a' : Char).toNat = 97 := by decide
      omega
    · split at h
      · rename_i letter
        cases h
        have upper := bounds _ _ letter.2
        have : ('F' : Char).toNat = 70 ∧ ('A' : Char).toNat = 65 := by decide
        omega
      · cases h

@[simp] theorem length_digits (count n : Nat) : (digits count n).length = count := by
  induction count generalizing n with
  | zero => rfl
  | succ count ih => simp [digits, ih]

/-- The number that hexadecimal digits add to those before them. -/
def gather (n : Nat) (ds : List Char) : Option Nat :=
  ds.foldlM (fun n d => (Json.hexValue? d).map (n * 16 + ·)) n

theorem gather_digits (a count n : Nat) :
    gather a (digits count n) = some (a * 16 ^ count + n % 16 ^ count) := by
  induction count generalizing n with
  | zero => simp [digits, gather, Nat.mod_one]
  | succ count ih =>
    have last := hexValue?_digitChar (Nat.mod_lt n (by decide : 16 > 0))
    have split : n % 16 ^ (count + 1) = n / 16 % 16 ^ count * 16 + n % 16 := by
      rw [Nat.pow_succ', Nat.mod_mul]
      omega
    unfold gather at ih ⊢
    rw [digits, List.foldlM_append, ih]
    simp only [Option.bind_eq_bind, Option.bind_some, List.foldlM_cons, List.foldlM_nil, last,
      Option.map_some, split]
    rw [Nat.pow_succ]
    congr 1
    grind

theorem lt_of_gather {a n : Nat} {ds : List Char} (h : gather a ds = some n) :
    n < (a + 1) * 16 ^ ds.length := by
  induction ds generalizing a with
  | nil =>
    obtain rfl : a = n := Option.some.inj h
    simp
  | cons d ds ih =>
    obtain ⟨b, step, rest⟩ := Option.bind_eq_some_iff.mp h
    obtain ⟨k, value, rfl⟩ := Option.map_eq_some_iff.mp step
    have digit := hexValue?_lt value
    refine Nat.lt_of_lt_of_le (ih rest) ?_
    rw [List.length_cons, Nat.pow_succ', ← Nat.mul_assoc]
    exact Nat.mul_le_mul_right _ (by omega)

theorem ofDigits?_digits {u : Uid} (h : u.Fits) : ofDigits? (digits 32 u.value) = some u := by
  have value := gather_digits 0 32 u.value
  rw [Nat.zero_mul, Nat.zero_add, Nat.mod_eq_of_lt h] at value
  unfold gather at value
  unfold ofDigits?
  rw [if_pos (length_digits 32 _), value]
  rfl

theorem fits_of_ofDigits? {ds : List Char} {u : Uid} (h : ofDigits? ds = some u) : u.Fits := by
  unfold ofDigits? at h
  split at h
  · rename_i count
    obtain ⟨n, value, rfl⟩ := Option.map_eq_some_iff.mp h
    have := lt_of_gather value
    rwa [count, Nat.zero_add, Nat.one_mul] at this
  · cases h

theorem length_grouped {ds : List Char} (h : ds.length = 32) : (grouped ds).length = 36 := by
  simp [grouped, h]

/-- Five groups of the right lengths are found between the hyphens. -/
theorem ungrouped?_groups {a b c d e : List Char} (ha : a.length = 8) (hb : b.length = 4)
    (hc : c.length = 4) (hd : d.length = 4) (he : e.length = 12) :
    ungrouped? (a ++ '-' :: b ++ '-' :: c ++ '-' :: d ++ '-' :: e)
      = some (a ++ b ++ c ++ d ++ e) := by
  have past : ∀ {l : List Char} {n : Nat}, l.length ≤ n → l.drop n = [] :=
    List.drop_eq_nil_of_le
  simp [ungrouped?, List.drop_append, past, ha, hb, hc, hd, he]

theorem ungrouped?_grouped {ds : List Char} (h : ds.length = 32) :
    ungrouped? (grouped ds) = some ds := by
  have groups := ungrouped?_groups (a := ds.take 8) (b := (ds.drop 8).take 4)
    (c := (ds.drop 12).take 4) (d := (ds.drop 16).take 4) (e := ds.drop 20)
    (by simp [h]) (by simp [h]) (by simp [h]) (by simp [h]) (by simp [h])
  have joined : ds.take 8 ++ (ds.drop 8).take 4 ++ (ds.drop 12).take 4 ++ (ds.drop 16).take 4
      ++ ds.drop 20 = ds := by
    simp only [← List.take_add, List.take_append_drop]
  rwa [joined] at groups

theorem hex_of_mem_digits {count n : Nat} {c : Char} (h : c ∈ digits count n) :
    ∃ k < 16, c = Nat.digitChar k := by
  induction count generalizing n with
  | zero => cases h
  | succ count ih =>
    rcases List.mem_append.mp h with h | h
    · exact ih h
    · exact ⟨_, Nat.mod_lt n (by decide), List.mem_singleton.mp h⟩

/-- What starts with neither a brace nor a `u` has to be 32 digits or five groups. -/
theorem parse?_plain {s : String} {c : Char} {cs : List Char} (h : s.toList = c :: cs)
    (long : (c :: cs).length ≠ 32) (brace : c ≠ '\x7b') (lead : c ≠ 'u') :
    parse? s = (ungrouped? (c :: cs)).bind ofDigits? := by
  have urn : Text.dropLead? "urn:uuid:".toList (c :: cs) = none := if_neg (Ne.symm lead)
  unfold parse?
  simp only [h, if_neg long, urn, Option.getD_none]
  split
  · rename_i rest eq
    injection eq with eq
    exact absurd eq brace
  · rfl

theorem plain_digitChar :
    ∀ k < 16, Nat.digitChar k ≠ '\x7b' ∧ Nat.digitChar k ≠ 'u' := by
  decide

theorem grouped_cons (d : Char) (ds : List Char) : ∃ cs, grouped (d :: ds) = d :: cs :=
  ⟨_, rfl⟩

/-- A uid is read back from its text. -/
theorem parse?_text {u : Uid} (h : u.Fits) : parse? u.text = some u := by
  have read := ofDigits?_digits h
  have hex := @hex_of_mem_digits 32 u.value
  have count := length_digits 32 u.value
  have chars : u.text.toList = grouped (digits 32 u.value) := String.toList_ofList
  revert read hex count chars
  generalize digits 32 u.value = ds
  intro read hex count chars
  cases ds with
  | nil => cases count
  | cons d ds =>
    obtain ⟨k, small, first⟩ := hex (List.mem_cons_self)
    obtain ⟨brace, lead⟩ := plain_digitChar k small
    rw [← first] at brace lead
    have long := length_grouped count
    obtain ⟨cs, eq⟩ := grouped_cons d ds
    rw [eq] at chars long
    rw [parse?_plain chars (by omega) brace lead, ← eq, ungrouped?_grouped count]
    exact read

theorem fits_of_parse? {s : String} {u : Uid} (h : parse? s = some u) : u.Fits := by
  unfold parse? at h
  dsimp only at h
  split at h
  · exact fits_of_ofDigits? h
  · obtain ⟨ds, _, h⟩ := Option.bind_eq_some_iff.mp h
    exact fits_of_ofDigits? h

/-- Different uids have different texts. -/
theorem text_inj {u v : Uid} (hu : u.Fits) (hv : v.Fits) : u.text = v.text ↔ u = v := by
  constructor
  · intro h
    have same := parse?_text hu
    rw [h, parse?_text hv] at same
    exact (Option.some.inj same).symm
  · rintro rfl
    rfl

end Uid

namespace Workspaces

theorem below_inj {directory a b : String} : below directory a = below directory b ↔ a = b := by
  unfold below
  split <;> simp [String.append_right_inj]

/-- Uids that differ give workspaces that differ. -/
theorem pathOf_inj {root : String} {u v : Uid} (hu : u.Fits) (hv : v.Fits) :
    pathOf root u = pathOf root v ↔ u = v := by
  unfold pathOf nameOf
  rw [below_inj, String.append_right_inj, Uid.text_inj hu hv]

end Workspaces

end Drayage
