import Drayage.Pattern.Language
import Drayage.Proofs.Credentials.Refusal
import Drayage.Proofs.Data.Latest
import Drayage.Proofs.Text.Bytes

/-!
# Which secret a look-up finds

A look-up goes through the projects that it searches, and in each of them through the secrets
in the order of their names. So it finds the least of all secrets that are for the URL, by
the place of their project and then by their name. What else is stored, and in which order it
was stored, makes no difference.
-/

namespace Drayage

namespace Secret

/-- A secret is for a URL that has the same normal form as its own, or that its pattern
matches in its normal form. A text that is no pattern is for none. -/
inductive IsFor (patterns : PatternLanguage) (s : Secret) (url : String) : Prop where
  | exact (plain : s.isPattern = false)
      (same : s.kind.normalize s.repoUrl = s.kind.normalize url) : IsFor patterns s url
  | pattern (decides : String → Bool) (marked : s.isPattern = true)
      (means : patterns s.repoUrl = some decides)
      (matched : decides (s.kind.normalize url) = true) : IsFor patterns s url

/-- A secret comes before another one: its project comes before, or its name does in the same
project. -/
def Precedes (projects : List String) (s t : Secret) : Prop :=
  projects.idxOf s.project < projects.idxOf t.project ∨
    s.project = t.project ∧ s.name < t.name

/-- A secret that may be given out for a URL, of those that `held` tells by their keys. -/
structure Candidate (held : Key → Option Secret) (projects : List String)
    (patterns : PatternLanguage) (kind : RepositoryKind) (url : String) (s : Secret) : Prop where
  held : held s.key = some s
  project : s.project ∈ projects
  kind : s.kind = kind
  isFor : s.IsFor patterns url

/-- The first of all candidates. -/
structure First (held : Key → Option Secret) (projects : List String)
    (patterns : PatternLanguage) (kind : RepositoryKind) (url : String) (s : Secret) : Prop where
  candidate : Candidate held projects patterns kind url s
  least : ∀ t, Candidate held projects patterns kind url t → t = s ∨ Precedes projects s t

/-- The secret that came last with a key. -/
def lastOf (ss : List Secret) (k : Key) : Option Secret := latest key k ss

/-- Other projects and other kinds do not count. -/
theorem first_congr {held held' : Key → Option Secret} {projects : List String}
    {patterns : PatternLanguage} {kind : RepositoryKind} {url : String}
    (same : ∀ s : Secret, s.project ∈ projects → s.kind = kind →
      (held s.key = some s ↔ held' s.key = some s)) {s : Secret} :
    First held projects patterns kind url s ↔ First held' projects patterns kind url s := by
  have candidates (s : Secret) : Candidate held projects patterns kind url s ↔
      Candidate held' projects patterns kind url s :=
    ⟨fun ⟨stored, inProject, ofKind, isFor⟩ =>
      ⟨(same s inProject ofKind).mp stored, inProject, ofKind, isFor⟩,
    fun ⟨stored, inProject, ofKind, isFor⟩ =>
      ⟨(same s inProject ofKind).mpr stored, inProject, ofKind, isFor⟩⟩
  constructor
  · rintro ⟨candidate, least⟩
    exact ⟨(candidates s).mp candidate, fun t ht => least t ((candidates t).mpr ht)⟩
  · rintro ⟨candidate, least⟩
    exact ⟨(candidates s).mpr candidate, fun t ht => least t ((candidates t).mp ht)⟩

theorem serves_iff {patterns : PatternLanguage} {s : Secret} {url : String} :
    CredentialsDatabase.serves patterns s (s.kind.normalize url) = true ↔
      s.IsFor patterns url := by
  unfold CredentialsDatabase.serves
  constructor
  · intro h
    split at h
    · rename_i marked
      split at h
      · rename_i decides means
        exact .pattern decides marked means h
      · cases h
    · rename_i plain
      exact .exact (Bool.eq_false_iff.mpr plain) (beq_iff_eq.mp h)
  · intro h
    cases h with
    | exact plain same => simpa [plain] using same
    | pattern decides marked means matched => simpa [marked, means] using matched

theorem lt_iff_of_project {s t : Secret} (same : s.project = t.project) :
    compare s.key t.key = .lt ↔ s.name < t.name := by
  have names : compare s.key t.key = compare s.name t.name := by
    have self : compare t.project t.project = .eq := Std.ReflCmp.compare_self
    rw [Key.compare_def]
    show (compare s.project t.project).then _ = _
    rw [same, self]
    rfl
  rw [names]
  exact compareOfLessAndEq_eq_lt

end Secret

/-- In a list in ascending order the first element with a property is the least one with it. -/
theorem find?_eq_some_iff_least {α : Type} {R : α → α → Prop} (asymm : ∀ a b, R a b → ¬ R b a)
    {as : List α} (sorted : as.Pairwise R) {p : α → Bool} {a : α} :
    as.find? p = some a ↔ (a ∈ as ∧ p a = true) ∧ ∀ b ∈ as, p b = true → b = a ∨ R a b := by
  have least {a : α} (h : as.find? p = some a) : ∀ b ∈ as, p b = true → b = a ∨ R a b := by
    obtain ⟨_, before, after, rfl, skipped⟩ := List.find?_eq_some_iff_append.mp h
    intro b hb found
    rcases List.mem_append.mp hb with hb | hb
    · exact absurd found (by simpa using skipped b hb)
    · rcases List.mem_cons.mp hb with rfl | hb
      · exact .inl rfl
      · have below := (List.pairwise_append.mp sorted).2.1
        exact .inr ((List.pairwise_cons.mp below).1 b hb)
  constructor
  · intro h
    exact ⟨⟨List.mem_of_find?_eq_some h, List.find?_some h⟩, least h⟩
  · rintro ⟨⟨mem, found⟩, below⟩
    cases h : as.find? p with
    | none => exact absurd found (by simpa using List.find?_eq_none.mp h a mem)
    | some b =>
      rcases below b (List.mem_of_find?_eq_some h) (List.find?_some h) with rfl | after
      · rfl
      · rcases least h a mem found with rfl | before
        · rfl
        · exact absurd before (asymm a b after)

/-- What stands after the first occurrence of an element is what is not before it. -/
theorem idxOf_lt_idxOf_iff {as before after : List String} {a b : String}
    (split : as = before ++ a :: after) (first : a ∉ before) :
    as.idxOf a < as.idxOf b ↔ b ≠ a ∧ b ∉ before := by
  rw [split, List.idxOf_append_of_notMem first, List.idxOf_cons_self, Nat.add_zero]
  by_cases earlier : b ∈ before
  · rw [List.idxOf_append_of_mem earlier]
    have below := List.idxOf_lt_length_of_mem earlier
    exact iff_of_false (by omega) fun h => h.2 earlier
  · rw [List.idxOf_append_of_notMem earlier]
    by_cases same : b = a
    · rw [same, List.idxOf_cons_self]
      exact iff_of_false (by omega) fun h => h.1 rfl
    · rw [List.idxOf_cons_ne _ (Ne.symm same)]
      exact iff_of_true (by omega) ⟨same, earlier⟩

namespace CredentialsDatabase

open Secret

variable {db : CredentialsDatabase} {patterns : PatternLanguage} {project url : String}
  {kind : RepositoryKind}

/-- Secrets are stored under their own keys. -/
def Keyed (db : CredentialsDatabase) : Prop := ∀ k s, db.secrets.get? k = some s → s.key = k

theorem mem_values_iff (keyed : db.Keyed) {s : Secret} :
    s ∈ db.secrets.values ↔ db.secrets.get? s.key = some s := by
  unfold Dict.values
  rw [List.mem_map]
  constructor
  · rintro ⟨⟨k, t⟩, entry, rfl⟩
    have stored := Dict.get?_eq_some_iff.mpr entry
    show db.secrets.get? t.key = some t
    rw [keyed k t stored]
    exact stored
  · intro stored
    exact ⟨(s.key, s), Dict.get?_eq_some_iff.mp stored, rfl⟩

theorem pairwise_values (keyed : db.Keyed) :
    db.secrets.values.Pairwise fun s t => compare s.key t.key = .lt := by
  unfold Dict.values
  rw [List.pairwise_map]
  refine db.secrets.ascending.imp_of_mem fun {e f} he hf before => ?_
  rw [keyed e.1 e.2 (Dict.get?_eq_some_iff.mpr he), keyed f.1 f.2 (Dict.get?_eq_some_iff.mpr hf)]
  exact before

/-- The secrets of one project among which a look-up chooses. -/
theorem eligible_iff (keyed : db.Keyed) {projects : List String} {p : String}
    (searched : p ∈ projects) {s : Secret} :
    (s ∈ db.secrets.values ∧
        (s.project == p && s.kind == kind && serves patterns s (kind.normalize url)) = true) ↔
      Candidate db.secrets.get? projects patterns kind url s ∧ s.project = p := by
  rw [mem_values_iff keyed, Bool.and_eq_true, Bool.and_eq_true, beq_iff_eq, beq_iff_eq]
  constructor
  · rintro ⟨held, ⟨rfl, rfl⟩, served⟩
    exact ⟨⟨held, searched, rfl, serves_iff.mp served⟩, rfl⟩
  · rintro ⟨⟨held, _, rfl, isFor⟩, rfl⟩
    exact ⟨held, ⟨rfl, rfl⟩, serves_iff.mpr isFor⟩

/-- In one project the candidate with the least name is found. -/
theorem findIn_eq_some_iff (keyed : db.Keyed) {projects : List String} {p : String}
    (searched : p ∈ projects) {c : Credentials} :
    db.findIn patterns p kind url = some c ↔
      ∃ s, (Candidate db.secrets.get? projects patterns kind url s ∧ s.project = p) ∧
        s.credentials = c ∧ ∀ t, Candidate db.secrets.get? projects patterns kind url t →
          t.project = p → t = s ∨ s.name < t.name := by
  unfold findIn
  rw [Option.map_eq_some_iff]
  refine exists_congr fun s => ?_
  have asymm (s t : Secret) (before : compare s.key t.key = .lt) :
      ¬ compare t.key s.key = .lt := by
    rw [Std.OrientedCmp.gt_of_lt before]
    nofun
  rw [find?_eq_some_iff_least asymm (pairwise_values keyed), eligible_iff keyed searched]
  constructor
  · rintro ⟨⟨⟨candidate, rfl⟩, least⟩, given⟩
    refine ⟨⟨candidate, rfl⟩, given, fun t ht same => ?_⟩
    obtain ⟨ht, found⟩ := (eligible_iff keyed searched).mpr ⟨ht, same⟩
    exact (least t ht found).imp_right (lt_iff_of_project same.symm).mp
  · rintro ⟨⟨candidate, rfl⟩, given, least⟩
    refine ⟨⟨⟨candidate, rfl⟩, fun t ht found => ?_⟩, given⟩
    obtain ⟨ht, same⟩ := (eligible_iff keyed searched).mp ⟨ht, found⟩
    exact (least t ht same).imp_right (lt_iff_of_project same.symm).mpr

/-- In all projects together the first candidate is found. -/
theorem findSome?_eq_some_iff_first (keyed : db.Keyed) {projects : List String}
    {c : Credentials} :
    (projects.findSome? fun p => db.findIn patterns p kind url) = some c ↔
      ∃ s, First db.secrets.get? projects patterns kind url s ∧ s.credentials = c := by
  rw [List.findSome?_eq_some_iff]
  constructor
  · rintro ⟨before, p, after, split, found, none⟩
    have searched : p ∈ projects := by simp [split]
    obtain ⟨s, ⟨candidate, rfl⟩, given, least⟩ := (findIn_eq_some_iff keyed searched).mp found
    refine ⟨s, ⟨candidate, fun t ht => ?_⟩, given⟩
    have later {t : Secret} (ht : Candidate db.secrets.get? projects patterns kind url t) :
        t.project ∉ before := by
      intro earlier
      obtain ⟨stored, served⟩ := (eligible_iff keyed ht.project).mpr ⟨ht, rfl⟩
      have withheld := findIn_eq_none_iff.mp (none _ earlier) t stored rfl ht.kind
      rw [withheld, Bool.and_false] at served
      cases served
    by_cases same : t.project = s.project
    · exact (least t ht same).imp_right fun named => .inr ⟨same.symm, named⟩
    · exact .inr (.inl ((idxOf_lt_idxOf_iff split (later candidate)).mpr ⟨same, later ht⟩))
  · rintro ⟨s, ⟨candidate, least⟩, given⟩
    obtain ⟨before, after, split, first⟩ := List.eq_append_cons_of_mem candidate.project
    have precedes {t : Secret} (ht : Candidate db.secrets.get? projects patterns kind url t) :
        t.project ∉ before ∧ (t.project = s.project → t = s ∨ s.name < t.name) := by
      rcases least t ht with rfl | earlier | ⟨same, named⟩
      · exact ⟨first, fun _ => .inl rfl⟩
      · obtain ⟨other, later⟩ := (idxOf_lt_idxOf_iff split first).mp earlier
        exact ⟨later, fun same => absurd same other⟩
      · exact ⟨same ▸ first, fun _ => .inr named⟩
    refine ⟨before, s.project, after, split, ?_, fun p earlier => ?_⟩
    · exact (findIn_eq_some_iff keyed candidate.project).mpr
        ⟨s, ⟨candidate, rfl⟩, given, fun t ht => (precedes ht).2⟩
    · refine findIn_eq_none_iff.mpr fun t stored inProject ofKind => Bool.eq_false_iff.mpr ?_
      intro served
      have searched : p ∈ projects := by simp [split, earlier]
      have ht : Candidate db.secrets.get? projects patterns kind url t ∧ t.project = p :=
        (eligible_iff keyed searched).mp ⟨stored, by simp [inProject, ofKind, served]⟩
      exact (precedes ht.1).1 (inProject ▸ earlier)

/-- A database in which secrets were put one after another. -/
def filled (config : CredentialsConfig) (ss : List Secret) : CredentialsDatabase :=
  ss.foldl insert (empty config)

variable {config : CredentialsConfig} {ss : List Secret}

theorem foldl_insert (ss : List Secret) (db : CredentialsDatabase) :
    ss.foldl insert db = ⟨ss.foldl (fun d s => d.insert s.key s) db.secrets, db.config⟩ := by
  induction ss generalizing db with
  | nil => rfl
  | cons s ss ih => exact ih (db.insert s)

theorem config_filled : (filled config ss).config = config := by
  rw [filled, foldl_insert]
  rfl

theorem get?_secrets_filled : (filled config ss).secrets.get? = lastOf ss := by
  funext k
  rw [filled, foldl_insert]
  exact (Dict.get?_foldl_insert ss ∅).trans Option.or_none

theorem keyed_filled : (filled config ss).Keyed := by
  intro k s stored
  rw [get?_secrets_filled] at stored
  exact key_of_latest stored

theorem searched_filled :
    (filled config ss).searched project = (empty config).searched project := by
  rw [searched, config_filled]
  rfl

theorem refuses_filled : (filled config ss).refuses url = (empty config).refuses url := by
  unfold refuses
  rw [config_filled]
  rfl

/-- A URL that is not refused gets the credentials of the first candidate. -/
theorem get?_eq_some_iff_first (keyed : db.Keyed) (served : db.refuses url = false)
    {c : Credentials} :
    db.get? patterns project kind url = some c ↔
      ∃ s, First db.secrets.get? (db.searched project) patterns kind url s ∧
        s.credentials = c := by
  unfold get?
  rw [served]
  exact findSome?_eq_some_iff_first keyed

theorem get?_eq_none_iff_candidate (keyed : db.Keyed) (served : db.refuses url = false) :
    db.get? patterns project kind url = none ↔
      ∀ s, ¬ Candidate db.secrets.get? (db.searched project) patterns kind url s := by
  unfold get?
  rw [served]
  refine findSome?_eq_none_iff.trans ⟨fun none s candidate => ?_, fun none s stored => ?_⟩
  · have ⟨stored, eligible⟩ := (eligible_iff keyed candidate.project).mpr ⟨candidate, rfl⟩
    rw [none s stored candidate.project candidate.kind, Bool.and_false] at eligible
    cases eligible
  · rintro searched rfl
    refine Bool.eq_false_iff.mpr fun served => none s ?_
    exact ((eligible_iff keyed searched).mp ⟨stored, by simp [served]⟩).1

theorem get?_filled_eq_some_iff (served : (empty config).refuses url = false)
    {c : Credentials} :
    (filled config ss).get? patterns project kind url = some c ↔
      ∃ s, First (lastOf ss) ((empty config).searched project) patterns kind url s ∧
        s.credentials = c := by
  rw [get?_eq_some_iff_first keyed_filled (refuses_filled.trans served), searched_filled,
    get?_secrets_filled]

theorem get?_filled_eq_none_iff (served : (empty config).refuses url = false) :
    (filled config ss).get? patterns project kind url = none ↔
      ∀ s, ¬ Candidate (lastOf ss) ((empty config).searched project) patterns kind url s := by
  rw [get?_eq_none_iff_candidate keyed_filled (refuses_filled.trans served), searched_filled,
    get?_secrets_filled]

/-- What a look-up does in a database that was filled with `ss`, if it searches `projects` one
after another. -/
structure FindsFirst (config : CredentialsConfig) (ss : List Secret)
    (patterns : PatternLanguage) (project : String) (kind : RepositoryKind) (url : String)
    (projects : List String) : Prop where
  /-- It returns the credentials of the first candidate, of the secrets that came last with
  their keys. -/
  some_iff : ∀ c, (filled config ss).get? patterns project kind url = some c ↔
    ∃ s, First (lastOf ss) projects patterns kind url s ∧ s.credentials = c
  none_iff : (filled config ss).get? patterns project kind url = none ↔
    ∀ s, ¬ Candidate (lastOf ss) projects patterns kind url s
  /-- Secrets with different keys may have come in any other order. -/
  reordered : ∀ ss' : List Secret,
    (∀ k, (ss'.filter fun s => s.key = k) = ss.filter fun s => s.key = k) →
    (filled config ss').get? patterns project kind url =
      (filled config ss).get? patterns project kind url
  /-- Whatever else is stored, in other projects or of another kind. -/
  isolated : ∀ ss' : List Secret,
    (∀ s, s.project ∈ projects → s.kind = kind →
      (lastOf ss' s.key = some s ↔ lastOf ss s.key = some s)) →
    (filled config ss').get? patterns project kind url =
      (filled config ss).get? patterns project kind url

/-- Whatever was put into a database, a look-up for a URL that is not refused searches its own
project and then the global ones in ascending order. -/
theorem findsFirst_of_inserts (config : CredentialsConfig) (ss : List Secret)
    (patterns : PatternLanguage) (project : String) (kind : RepositoryKind) (url : String)
    (served : (empty config).refuses url = false) :
    ∃ globals : List String, globals.Perm config.globalProjects ∧ Text.Ascending globals ∧
      FindsFirst config ss patterns project kind url (project :: globals) := by
  have isolated (ss' : List Secret)
      (same : ∀ s, s.project ∈ (empty config).searched project → s.kind = kind →
        (lastOf ss' s.key = some s ↔ lastOf ss s.key = some s)) :
      (filled config ss').get? patterns project kind url =
        (filled config ss).get? patterns project kind url := by
    ext c
    rw [get?_filled_eq_some_iff served, get?_filled_eq_some_iff served]
    exact exists_congr fun s => and_congr_left fun _ => first_congr same
  refine ⟨_, List.mergeSort_perm _ _, Text.ascending_mergeSort _,
    fun c => get?_filled_eq_some_iff served, get?_filled_eq_none_iff served,
    fun ss' same => isolated ss' fun s _ _ => ?_, isolated⟩
  rw [lastOf, latest, same s.key]
  rfl

/-- A pattern that cannot be read, one that is wide, and two URLs, one of them in a global
project. -/
def crowded : List Secret :=
  [⟨"a-exact", "shared", .git, "https://git.local/app", false, ⟨"shared", "p", none⟩⟩,
    ⟨"c-exact", "demo", .git, "https://git.local/app", false, ⟨"exact", "p", none⟩⟩,
    ⟨"b-wide", "demo", .git, "^https://git.local/.*$", true, ⟨"wide", "p", none⟩⟩,
    ⟨"a-broken", "demo", .git, "(", true, ⟨"broken", "p", none⟩⟩]

/-- The wide pattern is found, as its name comes before that of the URL in the same project. -/
theorem findsFirst_of_crowded :
    (empty ⟨["shared"], false⟩).refuses "https://git.local/App.git" = false ∧
      (filled ⟨["shared"], false⟩ crowded).get? Pattern.language "demo" .git
        "https://git.local/App.git" = some ⟨"wide", "p", none⟩ ∧
      ∃ globals : List String, globals.Perm ["shared"] ∧ Text.Ascending globals ∧
        FindsFirst ⟨["shared"], false⟩ crowded Pattern.language "demo" .git
          "https://git.local/App.git" ("demo" :: globals) := by
  have served : (empty ⟨["shared"], false⟩).refuses "https://git.local/App.git" = false := by
    decide +kernel
  exact ⟨served, by decide +kernel, findsFirst_of_inserts _ _ _ _ _ _ served⟩

end CredentialsDatabase

end Drayage
