import Drayage.Json.Printer
import Drayage.Json.Reader
import Mathlib.Data.List.Forall2

/-!
# What is printed is read back

A value without doubles and without faults is read back from its compact text, if its
numbers have their usual sizes and it is not nested too deeply: `Readable` says which values
these are. The texts in it may have any characters.
-/

namespace Drayage.Json

/-! ## Texts -/

/-- A piece of a string that stands for a character. -/
inductive Piece.Stands : Piece → Char → Prop where
  | char (c : Char) : Stands (.char c) c
  | unit {c : Char} (control : c.toNat < 0x20) : Stands (.unit c.toNat) c

variable {c : Char} {cs rest : List Char} {ps : List Piece}

theorem scanText_char (quote : c ≠ '"') (backslash : c ≠ '\\') (visible : 0x20 ≤ c.toNat)
    (h : scanText cs = some (ps, rest)) : scanText (c :: cs) = some (.char c :: ps, rest) := by
  rw [scanText.eq_def]
  split
  · rename_i nothing
    cases nothing
  · rename_i quoted
    exact absurd (List.cons.inj quoted).1 quote
  · rename_i escaped
    exact absurd (List.cons.inj escaped).1 backslash
  · rename_i escaped
    exact absurd (List.cons.inj escaped).1 backslash
  · rename_i same
    obtain ⟨rfl, rfl⟩ := List.cons.inj same
    rw [if_neg (Nat.not_lt.mpr visible), if_neg backslash, h]
    rfl

theorem scanText_short {e : Char} (known : shortEscape? e = some c)
    (h : scanText cs = some (ps, rest)) :
    scanText ('\\' :: e :: cs) = some (.char c :: ps, rest) := by
  rw [scanText, known, h]
  · rfl
  · rintro _ _ _ _ _ rfl
    cases known

theorem scanText_unit (control : c.toNat < 0x20) (h : scanText cs = some (ps, rest)) :
    scanText ('\\' :: 'u' :: '0' :: '0' :: Nat.digitChar (c.toNat / 16) ::
      Nat.digitChar (c.toNat % 16) :: cs) = some (.unit c.toNat :: ps, rest) := by
  have digits : ∀ n < 0x20,
      hex4? '0' '0' (Nat.digitChar (n / 16)) (Nat.digitChar (n % 16)) = some n := by
    decide
  rw [scanText, digits _ control, h]
  rfl

/-- A character is scanned back from how it is written. -/
theorem scanText_escapeChar (c : Char) (h : scanText cs = some (ps, rest)) :
    ∃ p : Piece, p.Stands c ∧ scanText (escapeChar c ++ cs) = some (p :: ps, rest) := by
  by_cases short : c ∈ ['"', '\\', '\x08', '\x0c', '\n', '\r', '\t']
  · simp only [List.mem_cons, List.not_mem_nil, or_false] at short
    rcases short with rfl | rfl | rfl | rfl | rfl | rfl | rfl <;>
      exact ⟨_, .char _, scanText_short rfl h⟩
  · simp only [List.mem_cons, List.not_mem_nil, or_false, not_or] at short
    obtain ⟨quote, backslash, others⟩ := short
    simp only [escapeChar, quote, backslash, others, if_false]
    split
    · rename_i control
      exact ⟨_, .unit control, scanText_unit control h⟩
    · rename_i visible
      exact ⟨_, .char c, scanText_char quote backslash (Nat.not_lt.mp visible) h⟩

theorem scanText_escaped (cs rest : List Char) : ∃ ps : List Piece,
    List.Forall₂ Piece.Stands ps cs ∧
      scanText (cs.flatMap escapeChar ++ '"' :: rest) = some (ps, rest) := by
  induction cs with
  | nil => exact ⟨[], .nil, by rw [List.flatMap_nil, List.nil_append, scanText]⟩
  | cons c cs ih =>
    obtain ⟨ps, stand, scanned⟩ := ih
    obtain ⟨p, stands, first⟩ := scanText_escapeChar c scanned
    refine ⟨p :: ps, .cons stands stand, ?_⟩
    rw [List.flatMap_cons, List.append_assoc, first]

/-- A control character is no half of a surrogate pair. -/
theorem joinPieces_unit {u : Nat} (control : u < 0x20) (ps : List Piece) :
    joinPieces (.unit u :: ps) = (joinPieces ps).map (Char.ofNat u :: ·) := by
  have high : ¬ (0xd800 ≤ u ∧ u < 0xdc00) := by omega
  have low : ¬ (0xdc00 ≤ u ∧ u < 0xe000) := by omega
  have half : ¬ (0xd800 ≤ u ∧ u < 0xe000) := by omega
  rw [joinPieces.eq_def]
  split
  · rename_i nothing
    cases nothing
  · rename_i same
    cases same
  · rename_i same
    cases same
    rw [if_neg high, if_neg low]
  · rename_i same
    cases same
    rw [if_neg half]

theorem joinPieces_of_stands (h : List.Forall₂ Piece.Stands ps cs) : joinPieces ps = some cs := by
  induction h with
  | nil => rfl
  | cons stands later ih =>
    cases stands with
    | char c => rw [joinPieces, ih, Option.map_some]
    | unit control => rw [joinPieces_unit control, ih, Option.map_some, Char.ofNat_toNat]

/-- Whatever characters a string has, it is read from how it is written. -/
theorem readText_escaped (cs rest : List Char) :
    readText (cs.flatMap escapeChar ++ '"' :: rest) = (.text (String.ofList cs), some rest) := by
  obtain ⟨ps, stand, scanned⟩ := scanText_escaped cs rest
  unfold readText
  rw [scanned]
  dsimp only
  rw [joinPieces_of_stands stand]

/-! ## Whole numbers -/

theorem isDigit_of_mem_toDigits {n : Nat} {d : Char} (h : d ∈ Nat.toDigits 10 n) :
    isDigit d = true := by
  have digit := Nat.isDigit_of_mem_toDigits (by decide) (by decide) h
  simp only [Char.isDigit, Bool.and_eq_true, decide_eq_true_eq] at digit
  simp only [isDigit, Bool.and_eq_true, decide_eq_true_eq]
  exact digit

theorem toDigits_eq_cons (n : Nat) :
    ∃ d ds, Nat.toDigits 10 n = d :: ds ∧ isDigit d = true := by
  cases digits : Nat.toDigits 10 n with
  | nil => exact absurd digits Nat.toDigits_ne_nil
  | cons d ds => exact ⟨d, ds, rfl, isDigit_of_mem_toDigits (digits ▸ List.mem_cons_self)⟩

/-- A number is gathered from all of its digits as long as it fits. -/
theorem gather_of_lt {ds : List Char} {n : Nat} (fits : Nat.ofDigitChars 10 ds n < 2 ^ 64) :
    gather n ds = (Nat.ofDigitChars 10 ds n, 0) := by
  induction ds generalizing n with
  | nil => rfl
  | cons d ds ih =>
    have step : Nat.ofDigitChars 10 (d :: ds) n =
        Nat.ofDigitChars 10 ds (n * 10 + digitValue d) := by
      rw [Nat.ofDigitChars_cons, Nat.mul_comm]
      rfl
    rw [step] at fits ⊢
    have grows : n * 10 + digitValue d ≤ Nat.ofDigitChars 10 ds (n * 10 + digitValue d) := by
      rw [Nat.ofDigitChars_eq_ofDigitChars_zero]
      exact Nat.le_add_right_of_le (Nat.le_mul_of_pos_left _ (Nat.pow_pos (by decide)))
    rw [gather, if_pos (Nat.lt_of_le_of_lt grows fits), ih fits]

/-- The digits of a number begin with a zero only if there are no others. -/
theorem toDigits_ne_zero_cons (n : Nat) (d : Char) (ds : List Char) :
    Nat.toDigits 10 n ≠ '0' :: d :: ds := by
  induction n using Nat.strongRecOn generalizing d ds with
  | ind n ih =>
    intro same
    rw [Nat.toDigits_eq_if (by decide)] at same
    split at same
    · exact absurd (congrArg List.length same) (by simp)
    · rename_i large
      cases front : Nat.toDigits 10 (n / 10) with
      | nil => exact Nat.toDigits_ne_nil front
      | cons c cs =>
        rw [front, List.cons_append] at same
        obtain ⟨rfl, later⟩ := List.cons.inj same
        cases cs with
        | nil =>
          have zero : n / 10 = 0 := by
            have value : Nat.ofDigitChars 10 (Nat.toDigits 10 (n / 10)) 0 = n / 10 :=
              Nat.ofDigitChars_ten_toDigits
            rw [← value, front]
            rfl
          omega
        | cons e es => exact ih (n / 10) (by omega) e es front

/-- What sets a value off from what comes after it. -/
def marks : List Char := [',', ']', '\x7d']

/-- What may follow a value: nothing, or what sets it off. -/
def Follows (rest : List Char) : Prop := ∀ c ∈ rest.head?, c ∈ marks

theorem follows_nil : Follows [] := nofun

theorem follows_cons {c : Char} (h : c ∈ marks) (cs : List Char) : Follows (c :: cs) := by
  rintro d ⟨⟩
  exact h

theorem readNumber_toDigits {n : Nat} (small : n < 2 ^ 64) (negative : Bool)
    (follows : Follows rest) : readNumber negative (Nat.toDigits 10 n ++ rest) =
      (wholeNumber negative n, some rest) := by
  have digits : ∀ d ∈ Nat.toDigits 10 n, isDigit d = true := fun d => isDigit_of_mem_toDigits
  have gathered : gather 0 (Nat.toDigits 10 n) = (n, 0) := by
    have value : Nat.ofDigitChars 10 (Nat.toDigits 10 n) 0 = n := Nat.ofDigitChars_ten_toDigits
    rw [gather_of_lt (by rwa [value]), value]
  have ends : rest = [] ∨ ∃ c cs, rest = c :: cs ∧ (c = ',' ∨ c = ']' ∨ c = '\x7d') := by
    cases rest with
    | nil => exact .inl rfl
    | cons c cs => exact .inr ⟨c, cs, rfl, by simpa [marks] using follows c rfl⟩
  have apart : rest.takeWhile isDigit = [] ∧ rest.dropWhile isDigit = rest := by
    rcases ends with rfl | ⟨c, cs, rfl, rfl | rfl | rfl⟩ <;> exact ⟨rfl, rfl⟩
  unfold readNumber
  rw [List.takeWhile_append_of_pos digits, List.dropWhile_append_of_pos digits, apart.1, apart.2,
    List.append_nil]
  dsimp only
  split
  · rename_i none
    exact absurd none Nat.toDigits_ne_nil
  · rename_i zero
    exact absurd zero (toDigits_ne_zero_cons n _ _)
  · rw [gathered]
    rcases ends with rfl | ⟨c, cs, rfl, rfl | rfl | rfl⟩ <;> simp

/-! ## Values -/

/-- A number that is written in digits alone. -/
inductive Whole : Number → Prop where
  | natural {n : Nat} (small : n < 2 ^ 64) : Whole (.natural n)
  | negative {n : Nat} (positive : 0 < n) (small : n ≤ 2 ^ 63) : Whole (.negative n)

/-- A value that, inside `depth` arrays and objects, is read back from what is printed for
it. -/
inductive Readable : (depth : Nat) → Json → Prop where
  | null {depth : Nat} : Readable depth .null
  | bool {depth : Nat} (b : Bool) : Readable depth (.bool b)
  | number {depth : Nat} {n : Number} (whole : Whole n) : Readable depth (.number n)
  | text {depth : Nat} (s : String) : Readable depth (.text s)
  | list {depth : Nat} {items : List Json} (shallow : depth < depthLimit)
      (readable : ∀ j ∈ items, Readable (depth + 1) j) : Readable depth (.list items)
  | record {depth : Nat} {members : List (String × Json)} (shallow : depth < depthLimit)
      (readable : ∀ m ∈ members, Readable (depth + 1) m.2) : Readable depth (.record members)

variable {depth fuel : Nat} {j : Json}

theorem skipSpace_cons {c : Char} (visible : isSpace c = false) (cs : List Char) :
    skipSpace (c :: cs) = c :: cs :=
  List.dropWhile_cons_of_neg (ne_true_of_eq_false visible)

theorem isSpace_of_isDigit {c : Char} (h : isDigit c = true) : isSpace c = false := by
  have other (b : Char) (hb : isDigit b = false) : c ≠ b := by
    rintro rfl
    exact Bool.false_ne_true (hb.symm.trans h)
  simp [isSpace, other ' ' rfl, other '\n' rfl, other '\t' rfl, other '\r' rfl]

/-- A value begins with no blank, and with nothing that closes a list. -/
theorem print_eq_cons (h : Readable depth j) :
    ∃ c cs, j.print = c :: cs ∧ isSpace c = false ∧ c ≠ ']' := by
  cases h with
  | null => exact ⟨'n', _, by rw [print]; rfl, rfl, by decide⟩
  | bool b => cases b <;> exact ⟨_, _, by rw [print]; rfl, rfl, by decide⟩
  | number whole =>
    cases whole with
    | natural small =>
      rename_i n
      obtain ⟨d, ds, digits, digit⟩ := toDigits_eq_cons n
      refine ⟨d, ds, by rw [print, printNumber, digits], isSpace_of_isDigit digit, ?_⟩
      rintro rfl
      cases digit
    | negative positive small => exact ⟨'-', _, by rw [print, printNumber], rfl, by decide⟩
  | text s => exact ⟨'"', _, by rw [print, printText]; rfl, rfl, by decide⟩
  | list shallow readable => exact ⟨'[', _, by rw [print]; rfl, rfl, by decide⟩
  | record shallow readable => exact ⟨'\x7b', _, by rw [print]; rfl, rfl, by decide⟩

theorem printItems_eq_cons (h : Readable depth j) (js : List Json) :
    ∃ c cs, printItems (j :: js) = c :: cs ∧ isSpace c = false ∧ c ≠ ']' := by
  obtain ⟨c, cs, printed, opens⟩ := print_eq_cons h
  cases js with
  | nil => exact ⟨c, cs, by rw [printItems, printed], opens⟩
  | cons k ks => exact ⟨c, _, by rw [printItems, printed, List.cons_append], opens⟩

/-! The reader looks at one character and goes on as it says. -/

theorem readValue_quote (fuel depth : Nat) (cs : List Char) :
    readValue (fuel + 1) depth ('"' :: cs) = readText cs := by
  rw [readValue]
  rfl

theorem readValue_minus (fuel depth : Nat) (cs : List Char) :
    readValue (fuel + 1) depth ('-' :: cs) = readNumber true cs := by
  rw [readValue]
  rfl

theorem readValue_digit (fuel depth : Nat) {d : Char} (digit : isDigit d = true)
    (cs : List Char) : readValue (fuel + 1) depth (d :: cs) = readNumber false (d :: cs) := by
  rw [readValue, skipSpace_cons (isSpace_of_isDigit digit)]
  split
  case h_8 => rfl
  all_goals
    rename_i same
    obtain ⟨rfl, -⟩ := List.cons.inj same
    cases digit

theorem readValue_emptyList (shallow : depth < depthLimit) (fuel : Nat) (cs : List Char) :
    readValue (fuel + 1) depth ('[' :: ']' :: cs) = (.list [], some cs) := by
  rw [readValue]
  exact congrArg (·, some cs) (if_pos shallow)

theorem readValue_list (fuel depth : Nat) {c : Char} (visible : isSpace c = false)
    (filled : c ≠ ']') (cs : List Char) : readValue (fuel + 1) depth ('[' :: c :: cs) =
      let (items, after) := readItems fuel (depth + 1) (c :: cs)
      (enclose depth (.list items) after, after) := by
  have opened : skipSpace ('[' :: c :: cs) = '[' :: c :: cs := skipSpace_cons rfl _
  rw [readValue, opened]
  simp [skipSpace_cons visible, filled]

theorem readValue_emptyRecord (shallow : depth < depthLimit) (fuel : Nat) (cs : List Char) :
    readValue (fuel + 1) depth ('\x7b' :: '\x7d' :: cs) = (.record [], some cs) := by
  rw [readValue]
  exact congrArg (·, some cs) (if_pos shallow)

theorem readValue_record (fuel depth : Nat) (cs : List Char) :
    readValue (fuel + 1) depth ('\x7b' :: '"' :: cs) =
      let (members, after) := readMembers fuel (depth + 1) ('"' :: cs)
      (enclose depth (.record members) after, after) := by
  rw [readValue]
  rfl

/-- A value is read from what is printed for it, whatever follows. Three units of fuel for every
character are enough. -/
def ReadBack (depth : Nat) (j : Json) : Prop :=
  ∀ {fuel : Nat} {rest : List Char}, 3 * j.print.length ≤ fuel → Follows rest →
    readValue (fuel + 1) depth (j.print ++ rest) = (j, some rest)

theorem readBack_number {n : Number} (whole : Whole n) : ReadBack depth (.number n) := by
  intro fuel rest enough follows
  cases whole with
  | natural small =>
    rename_i n
    have read := readNumber_toDigits small false follows
    obtain ⟨d, ds, digits, digit⟩ := toDigits_eq_cons n
    rw [digits, List.cons_append] at read
    rw [print, printNumber, digits, List.cons_append, readValue_digit fuel depth digit, read]
    rfl
  | negative positive small =>
    have wide : (2 : Nat) ^ 63 < 2 ^ 64 := by decide
    rw [print, printNumber, List.cons_append, readValue_minus,
      readNumber_toDigits (Nat.lt_of_le_of_lt small wide) true follows, wholeNumber,
      if_neg (by decide), if_neg (by omega)]

theorem readBack_text (depth : Nat) (s : String) : ReadBack depth (.text s) := by
  intro fuel rest enough follows
  rw [print, printText, List.cons_append, List.cons_append, List.append_assoc, readValue_quote,
    List.singleton_append, readText_escaped, String.ofList_toList]

theorem readItems_print {js : List Json} (shown : ∀ k ∈ j :: js, ReadBack depth k)
    (enough : 3 * (printItems (j :: js)).length ≤ fuel) (rest : List Char) :
    readItems (fuel + 2) depth (printItems (j :: js) ++ ']' :: rest) = (j :: js, some rest) := by
  induction js generalizing j fuel with
  | nil =>
    have first : readValue (fuel + 1) depth (j.print ++ ']' :: rest) = (j, some (']' :: rest)) :=
      shown j List.mem_cons_self enough (follows_cons (by decide) _)
    rw [printItems, readItems, first]
    rfl
  | cons k ks ih =>
    rw [printItems, List.length_append, List.length_cons] at enough
    obtain ⟨fuel, rfl⟩ : ∃ f, fuel = f + 1 := ⟨fuel - 1, by omega⟩
    let others := printItems (k :: ks) ++ ']' :: rest
    have first : readValue (fuel + 2) depth (j.print ++ ',' :: others) =
        (j, some (',' :: others)) :=
      shown j List.mem_cons_self (by omega) (follows_cons (by decide) _)
    have later : readItems (fuel + 2) depth others = (k :: ks, some rest) :=
      ih (fun i hi => shown i (List.mem_cons_of_mem _ hi)) (by omega)
    have next : skipSpace (',' :: others) = ',' :: others := skipSpace_cons rfl _
    rw [printItems, List.append_assoc, List.cons_append, readItems, first]
    simp [next, later]

theorem readMembers_member {name : String} (shown : ReadBack depth j)
    (enough : 3 * j.print.length ≤ fuel) (follows : Follows rest) :
    readMembers (fuel + 2) depth (printText name.toList ++ ':' :: (j.print ++ rest)) =
      let (ms, after) := readMore (fuel + 1) depth rest
      ((name, j) :: ms, after) := by
  have opened : skipSpace (printText name.toList ++ ':' :: (j.print ++ rest)) =
      '"' :: (name.toList.flatMap escapeChar ++ '"' :: ':' :: (j.print ++ rest)) := by
    rw [printText, List.cons_append, List.cons_append, List.append_assoc]
    exact skipSpace_cons rfl _
  have parted : skipSpace (':' :: (j.print ++ rest)) = ':' :: (j.print ++ rest) :=
    skipSpace_cons rfl _
  rw [readMembers, opened]
  simp [readText_escaped, parted, shown enough follows]

theorem readMembers_print {m : String × Json} {ms : List (String × Json)}
    (shown : ∀ n ∈ m :: ms, ReadBack depth n.2)
    (enough : 3 * (printMembers (m :: ms)).length ≤ fuel) (rest : List Char) :
    readMembers (fuel + 2) depth (printMembers (m :: ms) ++ '\x7d' :: rest) =
      (m :: ms, some rest) := by
  induction ms generalizing m fuel with
  | nil =>
    obtain ⟨name, j⟩ := m
    rw [printMembers, List.length_append, List.length_cons] at enough
    have short : 3 * j.print.length ≤ fuel := by omega
    have last : readMore (fuel + 1) depth ('\x7d' :: rest) = ([], some rest) := by
      rw [readMore]
      rfl
    rw [printMembers, List.append_assoc, List.cons_append,
      readMembers_member (shown _ List.mem_cons_self) short (follows_cons (by decide) _), last]
  | cons n ns ih =>
    obtain ⟨name, j⟩ := m
    rw [printMembers, List.length_append, List.length_cons, List.length_append,
      List.length_cons] at enough
    have short : 3 * j.print.length ≤ fuel := by omega
    -- The two calls behind the comma are paid for by the comma itself.
    obtain ⟨fuel, rfl⟩ : ∃ f, fuel = f + 2 := ⟨fuel - 2, by omega⟩
    let others := printMembers (n :: ns) ++ '\x7d' :: rest
    have later : readMembers (fuel + 2) depth others = (n :: ns, some rest) :=
      ih (fun i hi => shown i (List.mem_cons_of_mem _ hi)) (by omega)
    have next : readMore (fuel + 3) depth (',' :: others) = (n :: ns, some rest) := by
      rw [readMore]
      exact later
    rw [printMembers, List.append_assoc, List.cons_append, List.append_assoc, List.cons_append,
      readMembers_member (shown _ List.mem_cons_self) short (follows_cons (by decide) _), next]

theorem readBack_list {items : List Json} (shallow : depth < depthLimit)
    (readable : ∀ j ∈ items, Readable (depth + 1) j)
    (shown : ∀ j ∈ items, ReadBack (depth + 1) j) : ReadBack depth (.list items) := by
  intro fuel rest enough follows
  rw [print, List.length_append, List.length_cons] at enough
  obtain ⟨fuel, rfl⟩ : ∃ f, fuel = f + 2 := ⟨fuel - 2, by omega⟩
  rw [print, List.append_assoc, List.cons_append, List.singleton_append]
  cases items with
  | nil => exact readValue_emptyList shallow _ _
  | cons j js =>
    obtain ⟨c, cs, printed, visible, filled⟩ :=
      printItems_eq_cons (readable j List.mem_cons_self) js
    have short : 3 * (printItems (j :: js)).length ≤ fuel := by omega
    have items := readItems_print shown short rest
    rw [printed, List.cons_append] at items ⊢
    rw [readValue_list _ _ visible filled, items]
    exact congrArg (·, some rest) (if_pos shallow)

theorem readBack_record {members : List (String × Json)} (shallow : depth < depthLimit)
    (shown : ∀ m ∈ members, ReadBack (depth + 1) m.2) : ReadBack depth (.record members) := by
  intro fuel rest enough follows
  rw [print, List.length_append, List.length_cons] at enough
  obtain ⟨fuel, rfl⟩ : ∃ f, fuel = f + 2 := ⟨fuel - 2, by omega⟩
  rw [print, List.append_assoc, List.cons_append, List.singleton_append]
  cases members with
  | nil => exact readValue_emptyRecord shallow _ _
  | cons m ms =>
    obtain ⟨cs, printed⟩ : ∃ cs, printMembers (m :: ms) = '"' :: cs := by
      cases ms <;> exact ⟨_, by rw [printMembers, printText]; rfl⟩
    have short : 3 * (printMembers (m :: ms)).length ≤ fuel := by omega
    have members := readMembers_print shown short rest
    rw [printed, List.cons_append] at members ⊢
    rw [readValue_record, members]
    exact congrArg (·, some rest) (if_pos shallow)

theorem Readable.readBack (h : Readable depth j) : ReadBack depth j := by
  induction h with
  | null =>
    intro fuel rest enough follows
    rw [readValue]
    rfl
  | bool b =>
    intro fuel rest enough follows
    rw [readValue]
    cases b <;> rfl
  | number whole => exact readBack_number whole
  | text s => exact readBack_text _ s
  | list shallow readable ih => exact readBack_list shallow readable ih
  | record shallow readable ih => exact readBack_record shallow ih

/-- What is printed is read back, and nothing is left over. -/
theorem read_compact (h : Readable 0 j) : read j.compact = (j, true) := by
  have all : readValue (3 * j.print.length + 3) 0 (j.print ++ []) = (j, some []) :=
    h.readBack (Nat.le_add_right _ _) follows_nil
  rw [List.append_nil] at all
  unfold read compact
  rw [String.toList_ofList]
  dsimp only
  rw [all]
  rfl

end Drayage.Json
