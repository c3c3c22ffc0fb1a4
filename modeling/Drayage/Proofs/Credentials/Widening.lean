import Drayage.Proofs.Credentials.Lookup
import Drayage.Proofs.Pattern.Literal

/-!
# URLs taken as patterns

A pattern is taken as it is written and matched with the normal form of the URL that is looked
up. So a secret that is found by its URL is still found when the URL is taken as a pattern, if
the URL is not longer or otherwise written than its own normal form.
-/

namespace Drayage

namespace Text

/-- Plain characters are no white space. -/
theorem isBlank_of_plain {c : Char} (plain : Pattern.isPlain c = true) : isBlank c = false := by
  refine Bool.eq_false_iff.mpr fun blank => ?_
  obtain ⟨r, hr, first, last⟩ := inRanges_iff.mp blank
  have all : ∀ r ∈ blankRanges, ∀ n ∈ List.range' r.1 (r.2 + 1 - r.1),
      Pattern.isPlain (Char.ofNat n) = false := by decide +kernel
  have special := all r hr c.toNat (List.mem_range'_1.mpr ⟨first, by omega⟩)
  rw [Char.ofNat_toNat, plain] at special
  cases special

theorem trim_of_plain {s : String} (plain : Pattern.Plain s.toList) : trim s = s := by
  have kept {cs : List Char} (h : Pattern.Plain cs) : cs.dropWhile isBlank = cs := by
    cases cs with
    | nil => rfl
    | cons c cs =>
      refine List.dropWhile_cons_of_neg ?_
      rw [isBlank_of_plain (h c List.mem_cons_self)]
      exact Bool.false_ne_true
  have turned : Pattern.Plain s.toList.reverse := fun c hc => plain c (List.mem_reverse.mp hc)
  rw [trim, dropEndWhile, kept plain, kept turned, List.reverse_reverse, String.ofList_toList]

end Text

namespace Secret

variable {patterns : PatternLanguage} {s : Secret} {url : String}

/-- A secret with its URL taken as a pattern. -/
def asPattern (s : Secret) : Secret := { s with isPattern := true }

/-- The URL of a secret occurs in its own normal form, if that is more than the URL without
white space. -/
def OwnForm (s : Secret) : Prop :=
  s.kind = .git ∨ s.kind = .helm → s.repoUrl.toList <:+: (s.kind.normalize s.repoUrl).toList

theorem OwnForm.occurs (h : s.OwnForm) (plain : Pattern.Plain s.repoUrl.toList) :
    s.repoUrl.toList <:+: (s.kind.normalize s.repoUrl).toList := by
  have exact (same : s.kind.normalize s.repoUrl = Text.trim s.repoUrl) :
      s.repoUrl.toList <:+: (s.kind.normalize s.repoUrl).toList := by
    simp [same, Text.trim_of_plain plain]
  cases kind : s.kind with
  | git => exact kind ▸ h (.inl kind)
  | helm => exact kind ▸ h (.inr kind)
  | image =>
    rw [kind] at exact
    exact exact rfl
  | generic =>
    rw [kind] at exact
    exact exact rfl

theorem isFor_asPattern (literal : patterns.TakesLiterally)
    (plain : Pattern.Plain s.repoUrl.toList) (own : s.OwnForm) (exact : s.isPattern = false)
    (h : s.IsFor patterns url) : s.asPattern.IsFor patterns url := by
  obtain ⟨decides, means, matched⟩ := literal s.repoUrl plain
  cases h with
  | exact _ same =>
    refine .pattern decides rfl means (matched _ ?_)
    show _ <:+: (s.kind.normalize url).toList
    rw [← same]
    exact own.occurs plain
  | pattern _ marked =>
    rw [exact] at marked
    cases marked

theorem lastOf_concat (ss : List Secret) (s : Secret) (k : Key) :
    lastOf (ss ++ [s]) k = if s.key = k then some s else lastOf ss k :=
  latest_concat ss s

/-- What comes after a secret comes after it as a pattern. -/
theorem first_asPattern {ss : List Secret} {projects : List String} {kind : RepositoryKind}
    (isFor : s.IsFor patterns url → s.asPattern.IsFor patterns url)
    (h : First (lastOf (ss ++ [s])) projects patterns kind url s) :
    First (lastOf (ss ++ [s.asPattern])) projects patterns kind url s.asPattern := by
  obtain ⟨candidate, least⟩ := h
  refine ⟨⟨?_, candidate.project, candidate.kind, isFor candidate.isFor⟩, fun t ht => ?_⟩
  · rw [lastOf_concat, if_pos rfl]
  · have held := ht.held
    rw [lastOf_concat] at held
    split at held
    · exact .inl (Option.some.inj held).symm
    · rename_i other
      have other : ¬ s.key = t.key := other
      have before : Candidate (lastOf (ss ++ [s])) projects patterns kind url t := by
        refine ⟨?_, ht.project, ht.kind, ht.isFor⟩
        rw [lastOf_concat, if_neg other, held]
      rcases least t before with rfl | later
      · exact absurd rfl other
      · exact .inr later

end Secret

namespace CredentialsDatabase

open Secret

variable {config : CredentialsConfig} {ss : List Secret} {patterns : PatternLanguage}
  {project url : String} {kind : RepositoryKind} {s : Secret}

/-- A look-up finds a secret: it is the first one that is for the URL, and its credentials are
given out. -/
structure Finds (config : CredentialsConfig) (ss : List Secret) (patterns : PatternLanguage)
    (project : String) (kind : RepositoryKind) (url : String) (s : Secret) : Prop where
  first : First (lastOf ss) ((empty config).searched project) patterns kind url s
  given : (filled config ss).get? patterns project kind url = some s.credentials

theorem finds_of_first (served : (empty config).refuses url = false)
    (first : First (lastOf ss) ((empty config).searched project) patterns kind url s) :
    Finds config ss patterns project kind url s :=
  ⟨first, (get?_filled_eq_some_iff served).mpr ⟨s, first, rfl⟩⟩

theorem served_of_get? {db : CredentialsDatabase} {c : Credentials}
    (h : db.get? patterns project kind url = some c) : db.refuses url = false := by
  refine Bool.eq_false_iff.mpr fun refused => ?_
  rw [get?, if_pos refused] at h
  cases h

/-- The only secret is found wherever it is for the URL. -/
theorem finds_of_sole (served : (empty config).refuses url = false)
    (searched : s.project ∈ (empty config).searched project) (isFor : s.IsFor patterns url) :
    Finds config [s] patterns project s.kind url s := by
  refine finds_of_first served ⟨⟨?_, searched, rfl, isFor⟩, fun t ht => .inl ?_⟩
  · exact (lastOf_concat [] s s.key).trans (if_pos rfl)
  · have held : lastOf ([] ++ [s]) t.key = some t := ht.held
    rw [lastOf_concat] at held
    split at held
    · exact (Option.some.inj held).symm
    · cases held

/-- A secret that is found by its URL is also found if the URL is taken as a pattern, if it is
a plain text that is written like its own normal form. It comes last here, as those with other
keys may have come in any order. -/
theorem finds_asPattern (literal : patterns.TakesLiterally)
    (plain : Pattern.Plain s.repoUrl.toList) (own : s.OwnForm) (exact : s.isPattern = false)
    (found : Finds config (ss ++ [s]) patterns project s.kind url s) :
    Finds config (ss ++ [s.asPattern]) patterns project s.kind url s.asPattern := by
  have served := refuses_filled.symm.trans (served_of_get? found.given)
  exact finds_of_first served
    (first_asPattern (isFor_asPattern literal plain own exact) found.first)

/-- A secret by whose URL a repository is found however it is spelled. -/
def tidy : Secret := ⟨"s", "a", .git, "https://git.local/app", false, ⟨"u", "p", none⟩⟩

theorem finds_asPattern_of_tidy :
    Pattern.Plain tidy.repoUrl.toList ∧ tidy.OwnForm ∧ tidy.isPattern = false ∧
      Finds .standard ([] ++ [tidy]) Pattern.language "a" .git "https://git.local/App.git/" tidy ∧
      Finds .standard ([] ++ [tidy.asPattern]) Pattern.language "a" .git
        "https://git.local/App.git/" tidy.asPattern := by
  have plain : Pattern.Plain tidy.repoUrl.toList := by decide +kernel
  have own : tidy.OwnForm := fun _ => by decide +kernel
  have found : Finds .standard ([] ++ [tidy]) Pattern.language "a" tidy.kind
      "https://git.local/App.git/" tidy :=
    finds_of_sole (by decide +kernel) (by decide +kernel) (.exact rfl (by decide +kernel))
  exact ⟨plain, own, rfl, found,
    finds_asPattern Pattern.takesLiterally_language plain own rfl found⟩

/-- A secret whose URL ends in a slash. -/
def slashed : Secret := ⟨"s", "a", .git, "https://git.local/app/", false, ⟨"u", "p", none⟩⟩

/-- A pattern that asks for a slash at the end does not match the normal form, which has none. -/
theorem missed_of_slashed :
    Pattern.language.TakesLiterally ∧ Pattern.Plain slashed.repoUrl.toList ∧
      Finds .standard [slashed] Pattern.language "a" .git "https://git.local/app" slashed ∧
      (filled .standard [slashed.asPattern]).get? Pattern.language "a" .git
        "https://git.local/app" = none := by
  refine ⟨Pattern.takesLiterally_language, by decide +kernel, ?_, by decide +kernel⟩
  exact finds_of_sole (by decide +kernel) (by decide +kernel) (.exact rfl (by decide +kernel))

end CredentialsDatabase

end Drayage
