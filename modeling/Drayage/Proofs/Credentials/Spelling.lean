import Drayage.Proofs.Credentials.Lookup
import Mathlib.Data.List.DropRight

/-!
# Spellings of a URL

Two spellings of a URL stand for the same repository exactly if they have one normal form. A
normal form is made in one go: white space is taken off first, then slashes, then `.git`, and
nobody looks again at what comes to the end by that. So a URL and its normal form stand for
the same repository exactly if the normal form has none of these at its end.
-/

namespace Drayage

namespace Text

/-- All characters of a text are ASCII characters. -/
def Ascii (cs : List Char) : Prop := ∀ c ∈ cs, c.toNat < 0x80

instance (cs : List Char) : Decidable (Ascii cs) := List.decidableBAll _ cs

variable {c : Char} {cs ds : List Char}

theorem Ascii.mono (h : Ascii ds) (sub : cs ⊆ ds) : Ascii cs := fun c hc => h c (sub hc)

/-- What is to be known of an ASCII character is seen from all of them. -/
theorem forall_ascii (P : Char → Prop)
    (all : ∀ n ∈ List.range 0x80, P (Char.ofNat n)) (h : c.toNat < 0x80) : P c := by
  have seen := all c.toNat (List.mem_range.mpr h)
  rwa [Char.ofNat_toNat] at seen

theorem lowerChar_of_ascii (h : c.toNat < 0x80) : lowerChar c = c.toLower :=
  forall_ascii (fun c => lowerChar c = c.toLower) (by decide +kernel) h

theorem toLower_toLower_of_ascii (h : c.toNat < 0x80) : c.toLower.toLower = c.toLower :=
  forall_ascii (fun c => c.toLower.toLower = c.toLower) (by decide +kernel) h

theorem isBlank_toLower_of_ascii (h : c.toNat < 0x80) : isBlank c.toLower = isBlank c :=
  forall_ascii (fun c => isBlank c.toLower = isBlank c) (by decide +kernel) h

theorem toNat_toLower_of_ascii (h : c.toNat < 0x80) : c.toLower.toNat < 0x80 :=
  forall_ascii (fun c => c.toLower.toNat < 0x80) (by decide +kernel) h

theorem lowerFrom_of_ascii (h : Ascii cs) (before : List Char) :
    lowerFrom before cs = cs.map Char.toLower := by
  induction cs generalizing before with
  | nil => rfl
  | cons c cs ih =>
    have first : c.toNat < 0x80 := h c List.mem_cons_self
    have noSigma : c ≠ 'Σ' := by
      rintro rfl
      exact absurd first (by decide)
    have noDotted : c ≠ 'İ' := by
      rintro rfl
      exact absurd first (by decide)
    rw [lowerFrom, if_neg noSigma, if_neg noDotted, lowerChar_of_ascii first,
      ih (h.mono (List.subset_cons_self c cs))]
    rfl

/-! ## What is taken off at the end -/

theorem dropEndWhile_eq_self_iff {p : Char → Bool} :
    dropEndWhile p cs = cs ↔ ∀ c, [c] <:+ cs → p c = false := by
  show cs.rdropWhile p = cs ↔ _
  rw [List.rdropWhile_eq_self_iff]
  constructor
  · rintro kept c ⟨front, rfl⟩
    simpa using kept (by simp)
  · intro kept some
    rw [kept _ ⟨_, List.dropLast_append_getLast some⟩]
    exact Bool.false_ne_true

theorem stripEnd_eq_self_iff {ending : List Char} (some : ending ≠ []) :
    stripEnd ending cs = cs ↔ ¬ ending <:+ cs := by
  unfold stripEnd
  split
  · rename_i rest h
    have split : cs.reverse = ending.reverse ++ rest := dropLead?_eq_some_iff.mp h
    have back : cs = rest.reverse ++ ending := by
      rw [← List.reverse_reverse cs, split, List.reverse_append, List.reverse_reverse]
    refine iff_of_false (fun same => some ?_) (not_not_intro ⟨_, back.symm⟩)
    rw [same] at back
    simpa using back
  · rename_i h
    refine iff_of_true rfl fun ⟨front, back⟩ => ?_
    have lead : (dropLead? ending.reverse cs.reverse).isSome = true := by
      rw [isSome_dropLead?_iff, ← back, List.reverse_append]
      exact List.prefix_append _ _
    rw [h] at lead
    cases lead

/-- Two steps that only take something off leave a text as it is if each of them does. -/
theorem comp_eq_self_iff {f g : List Char → List Char} (hf : ∀ cs, f cs <+: cs)
    (hg : ∀ cs, g cs <+: cs) : f (g cs) = cs ↔ g cs = cs ∧ f cs = cs := by
  constructor
  · intro kept
    have whole : cs <+: g cs := by
      conv_lhs => rw [← kept]
      exact hf (g cs)
    have same : g cs = cs := (hg cs).eq_of_length_le whole.length_le
    rw [same] at kept
    exact ⟨same, kept⟩
  · rintro ⟨same, kept⟩
    rw [same, kept]

theorem dropEndWhile_idem (p : Char → Bool) (cs : List Char) :
    dropEndWhile p (dropEndWhile p cs) = dropEndWhile p cs :=
  List.rdropWhile_idempotent p cs

/-- A text that begins like one without white space at its front has none there either. -/
theorem dropWhile_eq_self_of_prefix {p : Char → Bool} (h : cs <+: ds)
    (kept : ds.dropWhile p = ds) : cs.dropWhile p = cs := by
  cases cs with
  | nil => rfl
  | cons c cs =>
    obtain ⟨rest, rfl⟩ := h
    refine List.dropWhile_cons_of_neg ?_
    simpa using (List.dropWhile_eq_self_iff.mp kept) (by simp)

end Text

open Text

namespace RepositoryKind

/-- What the characters of a URL become in its normal form. -/
def recase : RepositoryKind → Char → Char
  | git | helm => Char.toLower
  | image | generic => id

/-- What is left of the end of a URL in its normal form. -/
def strip : RepositoryKind → List Char → List Char
  | git, cs => stripEnd ".git".toList (dropEndWhile (· = '/') cs)
  | helm, cs => dropEndWhile (· = '/') cs
  | image, cs | generic, cs => cs

variable {kind : RepositoryKind} {url : String} {cs : List Char}

theorem prefix_strip (kind : RepositoryKind) (cs : List Char) : kind.strip cs <+: cs := by
  cases kind with
  | git => exact (prefix_stripEnd _ _).trans (prefix_dropEndWhile _ _)
  | helm => exact prefix_dropEndWhile _ _
  | image => exact List.prefix_refl cs
  | generic => exact List.prefix_refl cs

theorem normalize_of_ascii (ascii : Ascii (trim url).toList) :
    kind.normalize url = String.ofList (kind.strip ((trim url).toList.map kind.recase)) := by
  have lower : (lowercase (trim url)).toList = (trim url).toList.map Char.toLower := by
    rw [lowercase, String.toList_ofList, lowerFrom_of_ascii ascii]
  cases kind with
  | git => simp only [normalize, strip, recase, lower]
  | helm => simp only [normalize, strip, recase, lower]
  | image => simp [normalize, strip, recase]
  | generic => simp [normalize, strip, recase]

/-- An ending that a normal form is made without. -/
inductive Ending (kind : RepositoryKind) : List Char → Prop where
  | blank (c : Char) (h : isBlank c = true) : Ending kind [c]
  | slash (h : kind = .git ∨ kind = .helm) : Ending kind ['/']
  | git (h : kind = .git) : Ending kind ".git".toList

/-- A text has an ending that a normal form is made without. -/
def Loose (kind : RepositoryKind) (cs : List Char) : Prop :=
  ∃ ending, kind.Ending ending ∧ ending <:+ cs

theorem strip_eq_self_iff :
    kind.strip cs = cs ↔ ((kind = .git ∨ kind = .helm) → ¬ ['/'] <:+ cs) ∧
      (kind = .git → ¬ ".git".toList <:+ cs) := by
  have slashless : dropEndWhile (· = '/') cs = cs ↔ ¬ ['/'] <:+ cs := by
    rw [dropEndWhile_eq_self_iff]
    constructor
    · intro kept slash
      simpa using kept '/' slash
    · intro none c ending
      refine decide_eq_false ?_
      rintro rfl
      exact none ending
  cases kind with
  | git =>
    show stripEnd _ (dropEndWhile _ cs) = cs ↔ _
    rw [comp_eq_self_iff (prefix_stripEnd _) (prefix_dropEndWhile _), slashless,
      stripEnd_eq_self_iff (by decide)]
    simp
  | helm => simpa [strip] using slashless
  | image => simp [strip]
  | generic => simp [strip]

/-- Nothing is taken off at the end of a text exactly if it is not loose. -/
theorem strip_trimmed_eq_self_iff :
    kind.strip (dropEndWhile isBlank cs) = cs ↔ ¬ kind.Loose cs := by
  rw [comp_eq_self_iff (prefix_strip kind) (prefix_dropEndWhile isBlank),
    dropEndWhile_eq_self_iff, strip_eq_self_iff]
  constructor
  · rintro ⟨trimmed, slashless, gitless⟩ ⟨ending, h, atEnd⟩
    cases h with
    | blank c blank =>
      rw [trimmed c atEnd] at blank
      cases blank
    | slash h => exact slashless h atEnd
    | git h => exact gitless h atEnd
  · intro tight
    refine ⟨fun c atEnd => Bool.eq_false_iff.mpr fun blank => ?_, fun h atEnd => ?_,
      fun h atEnd => ?_⟩
    · exact tight ⟨_, .blank c blank, atEnd⟩
    · exact tight ⟨_, .slash h, atEnd⟩
    · exact tight ⟨_, .git h, atEnd⟩

/-- What a normal form has, whatever is at its end. -/
structure Formed (kind : RepositoryKind) (cs : List Char) : Prop where
  ascii : Ascii cs
  recased : ∀ c ∈ cs, kind.recase c = c
  unindented : cs.dropWhile isBlank = cs

theorem Formed.mono {ds : List Char} (h : kind.Formed ds) (lead : cs <+: ds) :
    kind.Formed cs where
  ascii := h.ascii.mono lead.subset
  recased c hc := h.recased c (lead.subset hc)
  unindented := dropWhile_eq_self_of_prefix lead h.unindented

theorem recase_of_ascii {c : Char} (h : c.toNat < 0x80) :
    (kind.recase c).toNat < 0x80 ∧ kind.recase (kind.recase c) = kind.recase c ∧
      isBlank (kind.recase c) = isBlank c := by
  cases kind with
  | git | helm =>
    exact ⟨toNat_toLower_of_ascii h, toLower_toLower_of_ascii h, isBlank_toLower_of_ascii h⟩
  | image | generic => exact ⟨h, rfl, rfl⟩

theorem formed_map_recase (ascii : Ascii cs) (unindented : cs.dropWhile isBlank = cs) :
    kind.Formed (cs.map kind.recase) where
  ascii := by
    intro c hc
    obtain ⟨d, hd, rfl⟩ := List.mem_map.mp hc
    exact (recase_of_ascii (ascii d hd)).1
  recased := by
    intro c hc
    obtain ⟨d, hd, rfl⟩ := List.mem_map.mp hc
    exact (recase_of_ascii (ascii d hd)).2.1
  unindented := by
    cases cs with
    | nil => rfl
    | cons c cs =>
      refine List.dropWhile_cons_of_neg ?_
      rw [(recase_of_ascii (ascii c List.mem_cons_self)).2.2]
      exact (List.dropWhile_eq_self_iff.mp unindented) (by simp)

theorem prefix_trim (url : String) : (trim url).toList <+: url.toList.dropWhile isBlank := by
  rw [trim, String.toList_ofList]
  exact prefix_dropEndWhile _ _

theorem ascii_trim (ascii : Ascii url.toList) : Ascii (trim url).toList :=
  ascii.mono
    (List.Subset.trans (prefix_trim url).subset (List.dropWhile_suffix isBlank).subset)

theorem formed_normalize (ascii : Ascii url.toList) :
    kind.Formed (kind.normalize url).toList := by
  rw [normalize_of_ascii (ascii_trim ascii), String.toList_ofList]
  have unindented : (trim url).toList.dropWhile isBlank = (trim url).toList :=
    dropWhile_eq_self_of_prefix (prefix_trim url) (List.dropWhile_idempotent _ _)
  exact (formed_map_recase (ascii_trim ascii) unindented).mono (prefix_strip kind _)

/-- Of what is formed like a normal form only the end can change. -/
theorem normalize_of_formed (h : kind.Formed url.toList) :
    kind.normalize url = String.ofList (kind.strip (dropEndWhile isBlank url.toList)) := by
  have trimmed : (trim url).toList = dropEndWhile isBlank url.toList := by
    rw [trim, String.toList_ofList, h.unindented]
  have recased : (dropEndWhile isBlank url.toList).map kind.recase =
      dropEndWhile isBlank url.toList :=
    (List.map_congr_left (h.mono (prefix_dropEndWhile isBlank _)).recased).trans (List.map_id _)
  rw [normalize_of_ascii (ascii_trim h.ascii), trimmed, recased]

theorem normalize_eq_self_iff (h : kind.Formed url.toList) :
    kind.normalize url = url ↔ ¬ kind.Loose url.toList := by
  rw [normalize_of_formed h, ← strip_trimmed_eq_self_iff]
  constructor
  · intro same
    rw [← String.toList_ofList (l := kind.strip _), same]
  · intro same
    rw [same, String.ofList_toList]

/-- Where case matters, so do slashes, and white space is all that is taken off. -/
theorem not_loose_normalize (exact : kind = .image ∨ kind = .generic) :
    ¬ kind.Loose (kind.normalize url).toList := by
  have same : kind.normalize url = trim url := by
    rcases exact with rfl | rfl <;> rfl
  rw [← strip_trimmed_eq_self_iff, same, trim, String.toList_ofList, dropEndWhile_idem]
  rcases exact with rfl | rfl <;> rfl

end RepositoryKind

namespace Dict

open Std

variable {κ α β : Type} [Ord κ] [TransOrd κ]

/-- Two values that a search does not tell apart may stand for each other. -/
theorem find?_values_insert_congr {p : α → Bool} {f : α → β} {a b : α} (found : p a = p b)
    (same : f a = f b) (d : Dict κ α) (k : κ) :
    ((d.insert k a).values.find? p).map f = ((d.insert k b).values.find? p).map f := by
  unfold values insert
  dsimp only
  have placed (es : List (κ × α)) : (((place k a es).map Prod.snd).find? p).map f =
      (((place k b es).map Prod.snd).find? p).map f := by
    have headed (rest : List α) :
        ((a :: rest).find? p).map f = ((b :: rest).find? p).map f := by
      rw [List.find?_cons, List.find?_cons, found]
      split
      · exact congrArg some same
      · rfl
    induction es with
    | nil => exact headed []
    | cons e es ih =>
      unfold place
      split
      · exact headed _
      · exact headed _
      · rw [List.map_cons, List.map_cons, List.find?_cons, List.find?_cons]
        split
        · rfl
        · exact ih
  exact placed d.entries

end Dict

namespace CredentialsDatabase

open Secret

variable {kind : RepositoryKind} {u v : String}

/-- Two URLs stand for the same repository of a kind. -/
structure Interchangeable (kind : RepositoryKind) (u v : String) : Prop where
  /-- A secret for one of them is for the other one. -/
  found : ∀ patterns (s : Secret), s.kind = kind → s.isPattern = false →
    (s.repoUrl = u → s.IsFor patterns v) ∧ (s.repoUrl = v → s.IsFor patterns u)
  /-- It makes no difference which of them is looked up, -/
  sought : ∀ (db : CredentialsDatabase) patterns project, db.refuses u = false →
    db.refuses v = false → db.get? patterns project kind u = db.get? patterns project kind v
  /-- nor which of them a secret has. -/
  stored : ∀ (db : CredentialsDatabase) (s : Secret) patterns project sought url,
    s.kind = kind → s.isPattern = false →
      (db.insert { s with repoUrl := u }).get? patterns project sought url =
        (db.insert { s with repoUrl := v }).get? patterns project sought url

theorem serves_withUrl {patterns : PatternLanguage} {s : Secret} (plain : s.isPattern = false)
    (url wanted : String) :
    serves patterns { s with repoUrl := url } wanted = (s.kind.normalize url == wanted) := by
  unfold serves
  dsimp only
  rw [plain]
  rfl

theorem get?_insert_congr {db : CredentialsDatabase} {s : Secret} {patterns : PatternLanguage}
    {project : String} {sought : RepositoryKind} {url : String} (plain : s.isPattern = false)
    (same : s.kind.normalize u = s.kind.normalize v) :
    (db.insert { s with repoUrl := u }).get? patterns project sought url =
      (db.insert { s with repoUrl := v }).get? patterns project sought url := by
  have found (p : String) : (db.insert { s with repoUrl := u }).findIn patterns p sought url =
      (db.insert { s with repoUrl := v }).findIn patterns p sought url := by
    let eligible (t : Secret) : Bool :=
      t.project == p && t.kind == sought && serves patterns t (sought.normalize url)
    have alike : eligible { s with repoUrl := u } = eligible { s with repoUrl := v } := by
      dsimp only [eligible]
      rw [serves_withUrl plain, serves_withUrl plain, same]
    exact Dict.find?_values_insert_congr (f := credentials) alike rfl db.secrets s.key
  unfold get?
  simp only [found]
  rfl

/-- Two URLs stand for the same repository exactly if they have one normal form. -/
theorem interchangeable_iff :
    Interchangeable kind u v ↔ kind.normalize u = kind.normalize v := by
  constructor
  · intro h
    have isFor := (h.found (fun _ => none) ⟨"", "", kind, u, false, ⟨"", "", none⟩⟩ rfl rfl).1 rfl
    cases isFor with
    | exact _ same => exact same
    | pattern _ marked => cases marked
  · intro same
    refine ⟨fun patterns s ofKind plain => ?_, fun db patterns project first second => ?_,
      fun db s patterns project sought url ofKind plain => ?_⟩
    · subst ofKind
      exact ⟨fun url => .exact plain (by rw [url, same]),
        fun url => .exact plain (by rw [url, same])⟩
    · unfold get? findIn
      rw [first, second, same]
    · subst ofKind
      exact get?_insert_congr plain same

/-- A URL and its normal form stand for the same repository exactly if the normal form has no
ending that normal forms are made without. For kinds whose URLs are only trimmed it has none. -/
theorem stable_iff (kind : RepositoryKind) (url : String) (ascii : Ascii url.toList) :
    (kind.normalize (kind.normalize url) = kind.normalize url ↔
        ¬ kind.Loose (kind.normalize url).toList) ∧
      (Interchangeable kind url (kind.normalize url) ↔
        ¬ kind.Loose (kind.normalize url).toList) ∧
      (kind = .image ∨ kind = .generic → ¬ kind.Loose (kind.normalize url).toList) := by
  have stable := kind.normalize_eq_self_iff (RepositoryKind.formed_normalize ascii)
  refine ⟨stable, ?_, RepositoryKind.not_loose_normalize⟩
  rw [interchangeable_iff, eq_comm]
  exact stable

theorem stable_iff_of_closed :
    Ascii " https://git.local/App.git/".toList ∧
      (RepositoryKind.normalize .git " https://git.local/App.git/" = "https://git.local/app") ∧
      Interchangeable .git " https://git.local/App.git/" "https://git.local/app" := by
  have ascii : Ascii " https://git.local/App.git/".toList := by decide +kernel
  have form : RepositoryKind.normalize .git " https://git.local/App.git/" =
      "https://git.local/app" := by decide +kernel
  have stable := (stable_iff .git _ ascii).1
  have same := (stable_iff .git _ ascii).2.1
  rw [form] at stable same
  exact ⟨ascii, form, same.mpr (stable.mp (by decide +kernel))⟩

/-- A secret for a repository in a directory of its own, which is called `.git`. -/
def dotGit : Secret := ⟨"s", "a", .git, "https://git.local/app/.git", false, ⟨"u", "p", none⟩⟩

/-- Without `.git` its URL ends in a slash, and a URL that ends in a slash has a normal form
without it. So the secret is not found by the normal form of its URL. -/
theorem unstable_of_dotGit :
    Ascii dotGit.repoUrl.toList ∧
      RepositoryKind.normalize .git dotGit.repoUrl = "https://git.local/app/" ∧
      RepositoryKind.normalize .git "https://git.local/app/" = "https://git.local/app" ∧
      (filled .standard [dotGit]).get? (fun _ => none) "a" .git dotGit.repoUrl =
        some ⟨"u", "p", none⟩ ∧
      (filled .standard [dotGit]).refuses "https://git.local/app/" = false ∧
      (filled .standard [dotGit]).get? (fun _ => none) "a" .git "https://git.local/app/" =
        none := by
  decide +kernel

end CredentialsDatabase

end Drayage
