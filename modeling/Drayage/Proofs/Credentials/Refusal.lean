import Drayage.Credentials.Database
import Mathlib.Data.List.Basic

/-!
# URLs for which credentials are refused

Credentials that may not be sent unencrypted are refused by the URL as it was given, but
found by its normal form. So what matters is how a URL whose normal form begins with
`http://` may be spelled: after white space, and in any case for kinds of repositories
whose URLs are compared without regard to case.
-/

namespace Drayage

namespace Text

variable {lead cs rest : List Char}

theorem dropLead?_eq_some_iff : dropLead? lead cs = some rest ↔ cs = lead ++ rest := by
  induction lead generalizing cs with
  | nil => simp [dropLead?]
  | cons p lead ih =>
    cases cs with
    | nil => simp [dropLead?]
    | cons c cs =>
      unfold dropLead?
      split
      · rename_i same
        rw [ih, same, List.cons_append, List.cons.injEq, eq_self, true_and]
      · rename_i different
        simp [Ne.symm different]

theorem isSome_dropLead?_iff : (dropLead? lead cs).isSome = true ↔ lead <+: cs := by
  rw [Option.isSome_iff_exists]
  constructor
  · rintro ⟨rest, h⟩
    exact ⟨rest, (dropLead?_eq_some_iff.mp h).symm⟩
  · rintro ⟨rest, h⟩
    exact ⟨rest, dropLead?_eq_some_iff.mpr h.symm⟩

theorem prefix_dropEndWhile (p : Char → Bool) (cs : List Char) : dropEndWhile p cs <+: cs := by
  unfold dropEndWhile
  rw [← List.reverse_suffix, List.reverse_reverse]
  exact List.dropWhile_suffix p

theorem prefix_stripEnd (ending cs : List Char) : stripEnd ending cs <+: cs := by
  unfold stripEnd
  split
  · rename_i rest h
    rw [← List.reverse_suffix, List.reverse_reverse]
    exact ⟨ending.reverse, (dropLead?_eq_some_iff.mp h).symm⟩
  · exact List.prefix_refl cs

/-- What the URLs begin with to which everything is sent as it is. -/
def plainScheme : List Char := "http://".toList

theorem toNat_mem_plainScheme {t : Char} (ht : t ∈ plainScheme) :
    t.toNat ≠ 0 ∧ t.toNat ≠ 0x6b ∧ t.toNat ≤ 0x7a := by
  have all : plainScheme.all fun t => t.toNat ≠ 0 ∧ t.toNat ≠ 0x6b ∧ t.toNat ≤ 0x7a := by decide
  exact of_decide_eq_true (List.all_eq_true.mp all t ht)

theorem toLower_mem_plainScheme {t : Char} (ht : t ∈ plainScheme) : t.toLower = t := by
  have all : plainScheme.all fun t => t.toLower = t := by decide
  exact of_decide_eq_true (List.all_eq_true.mp all t ht)

/-- Letters that become ASCII letters are capital ASCII letters, or the Kelvin sign. -/
theorem lowerRuns_cases {r : Nat × Nat × Nat × Nat} (hr : r ∈ lowerRuns) :
    r = (0x41, 0x5a, 1, 0x61) ∨ r = (0x212a, 0x212a, 1, 0x6b) ∨ 0x7a < r.2.2.2 := by
  revert r
  decide +kernel

theorem toLower_ofNat {n : Nat} (lower : 0x41 ≤ n) (upper : n ≤ 0x5a) :
    (Char.ofNat n).toLower = Char.ofNat (n + 0x20) := by
  have all : ∀ n ∈ List.range' 0x41 26, (Char.ofNat n).toLower = Char.ofNat (n + 0x20) := by
    decide
  exact all n (List.mem_range'_1.mpr ⟨lower, by omega⟩)

theorem toNat_ofNat_cases (n : Nat) : (Char.ofNat n).toNat = n ∨ (Char.ofNat n).toNat = 0 := by
  unfold Char.ofNat
  by_cases valid : n.isValidChar
  · rw [dif_pos valid]
    exact .inl rfl
  · rw [dif_neg valid]
    exact .inr rfl

/-- What becomes a character of the scheme is that character, or its capital. -/
theorem toLower_of_lowerChar {c t : Char} (ht : t ∈ plainScheme) (h : lowerChar c = t) :
    c.toLower = t := by
  unfold lowerChar at h
  split at h
  · rename_i a b step lower found
    have inside := List.find?_some found
    simp only [Bool.and_eq_true, decide_eq_true_eq] at inside
    obtain ⟨⟨first, last⟩, _⟩ := inside
    obtain ⟨nonzero, notKelvin, ascii⟩ := toNat_mem_plainScheme ht
    have code : lower + c.toNat - a = t.toNat := by
      rcases toNat_ofNat_cases (lower + c.toNat - a) with same | zero
      · rw [← h, same]
      · rw [h] at zero
        exact absurd zero nonzero
    rcases lowerRuns_cases (List.mem_of_find?_eq_some found) with run | run | high
    · cases run
      have raised : c.toNat + 0x20 = t.toNat := by omega
      rw [← Char.ofNat_toNat c, toLower_ofNat first last, raised, Char.ofNat_toNat]
    · cases run
      omega
    · dsimp only at high
      omega
  · rw [h]
    exact toLower_mem_plainScheme ht

/-- A text whose lower case begins with a character of the scheme begins with that character
or its capital. -/
theorem lowerFrom_eq_cons {before cs rest : List Char} {t : Char} (ht : t ∈ plainScheme)
    (h : lowerFrom before cs = t :: rest) :
    ∃ c cs', cs = c :: cs' ∧ c.toLower = t ∧ lowerFrom (c :: before) cs' = rest := by
  cases cs with
  | nil => cases h
  | cons c cs =>
    have other {l : Char} (hl : l ∉ plainScheme) {tail : List Char} : l :: tail ≠ t :: rest := by
      intro same
      rw [(List.cons.inj same).1] at hl
      exact hl ht
    refine ⟨c, cs, rfl, ?_⟩
    unfold lowerFrom at h
    dsimp only at h
    split at h
    · split at h
      · exact absurd h (other (by decide))
      · exact absurd h (other (by decide))
    · split at h
      · exact absurd h (other (by decide))
      · obtain ⟨lower, tail⟩ := List.cons.inj h
        exact ⟨toLower_of_lowerChar ht lower, tail⟩

/-- A text whose lower case begins with the scheme begins with it in some case. -/
theorem prefix_of_lowerFrom {before : List Char} (hlead : ∀ t ∈ lead, t ∈ plainScheme)
    (h : lead <+: lowerFrom before cs) :
    ∃ scheme rest, cs = scheme ++ rest ∧ scheme.map Char.toLower = lead := by
  induction lead generalizing before cs with
  | nil => exact ⟨[], cs, rfl, rfl⟩
  | cons t lead ih =>
    obtain ⟨rest, lower⟩ := h
    obtain ⟨c, cs, rfl, cased, tail⟩ :=
      lowerFrom_eq_cons (hlead t List.mem_cons_self) lower.symm
    obtain ⟨scheme, rest, rfl, same⟩ :=
      ih (fun t ht => hlead t (List.mem_cons_of_mem _ ht)) ⟨rest, tail.symm⟩
    exact ⟨c :: scheme, rest, rfl, by rw [List.map_cons, cased, same]⟩

end Text

open Text

/-- Everything is sent to this URL as it is. -/
def Unencrypted (url : String) : Prop := plainScheme <+: url.toList

/-- How a URL begins: with white space, then the scheme in some case. -/
structure SpelledPlain (url : String) (blanks scheme rest : List Char) : Prop where
  text : url.toList = blanks ++ (scheme ++ rest)
  blank : ∀ c ∈ blanks, isBlank c = true
  cased : scheme.map Char.toLower = plainScheme

theorem spelledPlain_of_trim {url : String} {scheme rest : List Char}
    (text : (trim url).toList = scheme ++ rest) (cased : scheme.map Char.toLower = plainScheme) :
    ∃ blanks rest, SpelledPlain url blanks scheme rest := by
  obtain ⟨more, h⟩ := prefix_dropEndWhile isBlank (url.toList.dropWhile isBlank)
  rw [trim, String.toList_ofList] at text
  refine ⟨url.toList.takeWhile isBlank, rest ++ more, ?_, ?_, cased⟩
  · rw [← List.append_assoc scheme, ← text, h, List.takeWhile_append_dropWhile]
  · exact List.all_eq_true.mp List.all_takeWhile

/-- Whose normal form is unencrypted is spelled so, and exactly so if case matters. -/
theorem spelledPlain_of_normalize {kind : RepositoryKind} {url : String}
    (h : Unencrypted (kind.normalize url)) :
    ∃ blanks scheme rest, SpelledPlain url blanks scheme rest ∧
      (kind = .image ∨ kind = .generic → scheme = plainScheme) := by
  have exact (h : plainScheme <+: (trim url).toList) :
      ∃ blanks scheme rest, SpelledPlain url blanks scheme rest ∧ scheme = plainScheme := by
    obtain ⟨rest, text⟩ := h
    obtain ⟨blanks, rest, spelled⟩ := spelledPlain_of_trim text.symm (by decide)
    exact ⟨blanks, _, rest, spelled, rfl⟩
  have anyCase (h : plainScheme <+: (lowercase (trim url)).toList) :
      ∃ blanks scheme rest, SpelledPlain url blanks scheme rest := by
    rw [lowercase, String.toList_ofList] at h
    obtain ⟨scheme, rest, text, cased⟩ := prefix_of_lowerFrom (fun _ ht => ht) h
    obtain ⟨blanks, rest, spelled⟩ := spelledPlain_of_trim text cased
    exact ⟨blanks, scheme, rest, spelled⟩
  unfold Unencrypted at h
  cases kind with
  | git =>
    rw [RepositoryKind.normalize, String.toList_ofList] at h
    have slashless := h.trans (prefix_stripEnd _ _)
    obtain ⟨blanks, scheme, rest, spelled⟩ := anyCase (slashless.trans (prefix_dropEndWhile _ _))
    exact ⟨blanks, scheme, rest, spelled, by rintro (h | h) <;> cases h⟩
  | helm =>
    rw [RepositoryKind.normalize, String.toList_ofList] at h
    obtain ⟨blanks, scheme, rest, spelled⟩ := anyCase (h.trans (prefix_dropEndWhile _ _))
    exact ⟨blanks, scheme, rest, spelled, by rintro (h | h) <;> cases h⟩
  | image =>
    obtain ⟨blanks, scheme, rest, spelled, same⟩ := exact h
    exact ⟨blanks, scheme, rest, spelled, fun _ => same⟩
  | generic =>
    obtain ⟨blanks, scheme, rest, spelled, same⟩ := exact h
    exact ⟨blanks, scheme, rest, spelled, fun _ => same⟩

/-- Of all spellings one is seen through. -/
theorem SpelledPlain.unencrypted_iff {url : String} {blanks scheme rest : List Char}
    (h : SpelledPlain url blanks scheme rest) :
    Unencrypted url ↔ blanks = [] ∧ scheme = plainScheme := by
  unfold Unencrypted
  rw [h.text]
  constructor
  · intro lead
    cases blanks with
    | cons c blanks =>
      have first : 'h' = c := (List.cons_prefix_cons.mp lead).1
      have blank := h.blank c List.mem_cons_self
      rw [← first] at blank
      cases blank
    | nil =>
      have length : plainScheme.length = scheme.length := by
        rw [← h.cased, List.length_map]
      obtain ⟨more, text⟩ := lead
      rw [List.nil_append] at text
      exact ⟨rfl, (List.append_inj text length).1.symm⟩
  · rintro ⟨rfl, rfl⟩
    exact ⟨rest, rfl⟩

namespace CredentialsDatabase

variable {db : CredentialsDatabase} {patterns : PatternLanguage} {project url : String}
  {kind : RepositoryKind}

theorem refuses_iff (strict : db.config.allowOverHttp = false) :
    db.refuses url = true ↔ Unencrypted url := by
  unfold refuses
  rw [strict]
  exact isSome_dropLead?_iff

/-- No secret is searched that is for a URL. -/
def NoneServes (db : CredentialsDatabase) (patterns : PatternLanguage) (project : String)
    (kind : RepositoryKind) (url : String) : Prop :=
  ∀ s ∈ db.secrets.values, s.project ∈ db.searched project → s.kind = kind →
    serves patterns s (kind.normalize url) = false

theorem findIn_eq_none_iff {p : String} :
    db.findIn patterns p kind url = none ↔ ∀ s ∈ db.secrets.values, s.project = p →
      s.kind = kind → serves patterns s (kind.normalize url) = false := by
  unfold findIn
  rw [Option.map_eq_none_iff, List.find?_eq_none]
  refine forall₂_congr fun s _ => ?_
  simp only [Bool.and_eq_true, beq_iff_eq, not_and, Bool.not_eq_true, and_imp]

theorem findSome?_eq_none_iff :
    ((db.searched project).findSome? fun p => db.findIn patterns p kind url) = none ↔
      db.NoneServes patterns project kind url := by
  rw [List.findSome?_eq_none_iff]
  simp only [findIn_eq_none_iff, NoneServes]
  constructor
  · intro h s hs searched
    exact h s.project searched s hs rfl
  · rintro h p searched s hs rfl
    exact h s hs searched

/-- For a URL that is unencrypted in its normal form, credentials are withheld exactly if it
begins with the scheme as it was given, or there are none for it. It may be given with white
space before the scheme, and for Git and Helm with capitals in it: then it is served. -/
theorem get?_eq_none_iff (db : CredentialsDatabase) (patterns : PatternLanguage)
    (project : String) (kind : RepositoryKind) (url : String)
    (strict : db.config.allowOverHttp = false) (plain : Unencrypted (kind.normalize url)) :
    ∃ blanks scheme rest, SpelledPlain url blanks scheme rest ∧
      (kind = .image ∨ kind = .generic → scheme = plainScheme) ∧
      (db.get? patterns project kind url = none ↔
        (blanks = [] ∧ scheme = plainScheme) ∨ db.NoneServes patterns project kind url) := by
  obtain ⟨blanks, scheme, rest, spelled, cased⟩ := spelledPlain_of_normalize plain
  refine ⟨blanks, scheme, rest, spelled, cased, ?_⟩
  rw [← spelled.unencrypted_iff, ← refuses_iff strict, ← findSome?_eq_none_iff]
  unfold get?
  split
  · rename_i refused
    exact iff_of_true rfl (.inl refused)
  · rename_i served
    exact (or_iff_right served).symm

/-- A database with a secret for a repository that is reached unencrypted. -/
def oneSecret : CredentialsDatabase :=
  (empty .standard).insert ⟨"s", "a", .git, "http://git.local/app", false, ⟨"u", "p", none⟩⟩

theorem get?_eq_none_iff_of_given : oneSecret.config.allowOverHttp = false ∧
    Unencrypted (RepositoryKind.normalize .git "http://git.local/app") ∧
      oneSecret.get? (fun _ => none) "a" .git "http://git.local/app" = none := by
  have strict : oneSecret.config.allowOverHttp = false := rfl
  have plain : Unencrypted (RepositoryKind.normalize .git "http://git.local/app") := by
    show _ <+: _
    decide +kernel
  refine ⟨strict, plain, ?_⟩
  obtain ⟨blanks, scheme, rest, spelled, _, withheld⟩ :=
    get?_eq_none_iff oneSecret (fun _ => none) "a" .git "http://git.local/app" strict plain
  refine withheld.mpr (.inl (spelled.unencrypted_iff.mp ?_))
  show _ <+: _
  decide +kernel

/-- With capitals in the scheme the same URL gets the credentials. -/
theorem served_of_capitals : ∃ (db : CredentialsDatabase) (patterns : PatternLanguage)
    (project url : String) (kind : RepositoryKind), db.config.allowOverHttp = false ∧
      Unencrypted (kind.normalize url) ∧ db.get? patterns project kind url ≠ none := by
  refine ⟨oneSecret, fun _ => none, "a", "HTTP://git.local/app", .git, rfl, ?_, ?_⟩
  · show _ <+: _
    decide +kernel
  · decide +kernel

end CredentialsDatabase

end Drayage
