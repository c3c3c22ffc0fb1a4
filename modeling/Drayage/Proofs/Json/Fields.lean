import Drayage.Proofs.Json.Codec

/-!
# What records read back

A record that was read from an object holds in each field what the member of that name was
read as, and what its absence stands for if there is none; read from a list, it holds the
items in the order of its fields. The codec of a record is faithful if no two of its fields
have one name and all of them are lawful: their codecs are faithful, and what is left out is
what its absence stands for.
-/

namespace Drayage

namespace Fields

variable {α β τ : Type}

def names : {τ : Type} → Fields τ → List String
  | _, .done => []
  | _, .field name _ _ _ rest => name :: rest.names

/-- Values that the fields can read. -/
def Reads : {τ : Type} → Fields τ → τ → Prop
  | _, .done, _ => True
  | _, .field _ codec _ _ rest, (a, b) => codec.Reads a ∧ rest.Reads b

/-- Fields that read back what they write, and what they leave out. -/
inductive Lawful : {τ : Type} → Fields τ → Prop where
  | done : Lawful .done
  | field {α β : Type} {name : String} {codec : Codec α} {absence : Absence α}
      {omitted : α → Bool} {rest : Fields β} (faithful : codec.Faithful)
      (absent : ∀ a, absence = .standsFor a → codec.Reads a)
      (omittable : ∀ a, omitted a = true → absence = .standsFor a)
      (lawful : rest.Lawful) : Lawful (.field name codec absence omitted rest)

namespace Lawful

variable {name : String} {codec : Codec α} {rest : Fields β}

theorem required (faithful : codec.Faithful) (lawful : rest.Lawful) :
    (Fields.required name codec rest).Lawful :=
  .field faithful nofun nofun lawful

theorem defaulted {a : α} (faithful : codec.Faithful) (absent : codec.Reads a)
    (lawful : rest.Lawful) : (Fields.defaulted name codec a rest).Lawful := by
  refine .field faithful ?_ nofun lawful
  rintro _ ⟨⟩
  exact absent

theorem maybe (faithful : codec.Faithful) (lawful : rest.Lawful) :
    (Fields.maybe name codec rest).Lawful := by
  refine .field (Codec.faithful_optional faithful) ?_ ?_ lawful
  · rintro _ ⟨⟩
    exact ⟨.null, rfl⟩
  · intro a none
    rw [Option.isNone_iff_eq_none.mp none]

theorem many (faithful : codec.Faithful) (lawful : rest.Lawful) :
    (Fields.many name codec rest).Lawful := by
  refine .field (Codec.faithful_list faithful) ?_ ?_ lawful
  · rintro _ ⟨⟩
    exact ⟨.list [], rfl⟩
  · intro as none
    rw [List.isEmpty_iff.mp none]

/-- The same for dictionaries, whether as objects or as sets. -/
theorem unlessEmpty {γ : Type} {codec : Codec (Dict String γ)} (faithful : codec.Faithful)
    (absent : codec.Reads ∅) (lawful : rest.Lawful) :
    (Fields.field name codec (.standsFor ∅) Dict.isEmpty rest).Lawful := by
  refine .field faithful ?_ ?_ lawful
  · rintro _ ⟨⟩
    exact absent
  · rintro ⟨entries, ascending⟩ none
    obtain rfl : entries = [] := List.isEmpty_iff.mp none
    rfl

theorem entries (faithful : codec.Faithful) (lawful : rest.Lawful) :
    (Fields.entries name codec rest).Lawful :=
  unlessEmpty (Codec.faithful_dict faithful) ⟨.record [], rfl⟩ lawful

theorem textSet (lawful : rest.Lawful) :
    (Fields.field name .textSet (.standsFor ∅) Dict.isEmpty rest).Lawful :=
  unlessEmpty Codec.faithful_textSet ⟨.list [], rfl⟩ lawful

theorem nonempty (lawful : rest.Lawful) : (Fields.nonempty name rest).Lawful := by
  refine .field Codec.faithful_text ?_ ?_ lawful
  · rintro _ ⟨⟩
    exact ⟨.text "", rfl⟩
  · intro s none
    rw [String.isEmpty_iff.mp none]

end Lawful

/-- What is written for a record is made of what is written for its fields. -/
theorem write_congr {name : String} {codec codec' : Codec α} {absence absence' : Absence α}
    {omitted : α → Bool} {rest rest' : Fields β} (first : codec.write = codec'.write)
    (others : rest.write = rest'.write) :
    (field name codec absence omitted rest).write =
      (field name codec' absence' omitted rest').write := by
  funext ⟨a, b⟩
  rw [write, write, first, others]

theorem mem_names_of_mem_write {fs : Fields τ} {v : τ} {m : String × Json}
    (h : m ∈ fs.write v) : m.1 ∈ fs.names := by
  induction fs with
  | done => cases h
  | field name codec absence omitted rest ih =>
    obtain ⟨a, b⟩ := v
    unfold write at h
    split at h
    · exact List.mem_cons_of_mem _ (ih h)
    · rcases List.mem_cons.mp h with rfl | h
      · exact List.mem_cons_self
      · exact List.mem_cons_of_mem _ (ih h)

theorem takeAll_cons {fs : Fields τ} {key : String} {j : Json} {ms : List (String × Json)}
    {p q : fs.Partial} (h : fs.take key j p = .ok q) :
    fs.takeAll ((key, j) :: ms) p = fs.takeAll ms q := by
  rw [takeAll, h]
  rfl

section Members

variable {name : String} {codec : Codec α} {absence : Absence α} {omitted : α → Bool}
  {rest : Fields β} {a : Option α} {p q : rest.Partial}

theorem take_own {j : Json} {b : α} (h : codec.read j = .ok b) :
    (field name codec absence omitted rest).take name j (none, p) = .ok (some b, p) := by
  rw [take, if_pos rfl, h]
  rfl

theorem take_other {key : String} {j : Json} (h : key ≠ name) (step : rest.take key j p = .ok q) :
    (field name codec absence omitted rest).take key j (a, p) = .ok (a, q) := by
  cases a <;> rw [take, if_neg h, step] <;> rfl

/-- Members of other names are for the fields behind the first one. -/
theorem takeAll_rest {ms : List (String × Json)} (others : ∀ m ∈ ms, m.1 ≠ name)
    (h : rest.takeAll ms p = .ok q) :
    (field name codec absence omitted rest).takeAll ms (a, p) = .ok (a, q) := by
  induction ms generalizing p with
  | nil =>
    cases h
    rfl
  | cons m ms ih =>
    obtain ⟨key, j⟩ := m
    obtain ⟨next, step, h⟩ := Codec.ok_of_bind h
    exact (takeAll_cons (take_other (others (key, j) List.mem_cons_self) step)).trans
      (ih (fun n hn => others n (List.mem_cons_of_mem _ hn)) h)

theorem finish_some {b : α} {v : β} (h : rest.finish p = .ok v) :
    (field name codec absence omitted rest).finish (some b, p) = .ok (b, v) := by
  rw [finish, h]
  rfl

theorem finish_none {b : α} {v : β} (h : rest.finish p = .ok v) :
    (field name codec (.standsFor b) omitted rest).finish (none, p) = .ok (b, v) := by
  rw [finish, h]
  rfl

end Members

/-- Everything is taken in again from what was written. -/
theorem takeAll_write {fs : Fields τ} (lawful : fs.Lawful) (distinct : fs.names.Nodup) {v : τ}
    (h : fs.Reads v) :
    ∃ p, fs.takeAll (fs.write v) fs.nothing = .ok p ∧ fs.finish p = .ok v := by
  induction lawful with
  | done => exact ⟨(), rfl, rfl⟩
  | @field α β name codec absence omitted rest faithful absent omittable lawful ih =>
    obtain ⟨a, b⟩ := v
    obtain ⟨reads, others⟩ := h
    obtain ⟨fresh, distinct⟩ := List.nodup_cons.mp distinct
    obtain ⟨p, taken, finished⟩ := ih distinct others
    have unlike : ∀ m ∈ rest.write b, m.1 ≠ name := fun m hm same =>
      fresh (same ▸ mem_names_of_mem_write hm)
    rw [write]
    split
    · rename_i left
      obtain rfl := omittable a left
      exact ⟨(none, p), takeAll_rest unlike taken, finish_none finished⟩
    · exact ⟨(some a, p), (takeAll_cons (take_own (faithful.read_write reads))).trans
        (takeAll_rest unlike taken), finish_some finished⟩

/-! ## What records hold -/

/-- The value of the first member with a name. -/
def valueOf (name : String) (ms : List (String × Json)) : Option Json :=
  (ms.find? fun m => m.1 = name).map Prod.snd

/-- A value of a field: what was read, or what stands for nothing. -/
def Means (codec : Codec α) (absence : Absence α) (a : α) : Option Json → Prop
  | some j => codec.read j = .ok a
  | none => absence = .standsFor a

/-- The values of a record are those that the members have by name. -/
def Holds : {τ : Type} → Fields τ → List (String × Json) → τ → Prop
  | _, .done, _, _ => True
  | _, .field name codec absence _ rest, ms, (a, b) =>
    Means codec absence a (valueOf name ms) ∧ rest.Holds ms b

/-- The values of a record are those that the items have in their order. -/
def HoldsInTurn : {τ : Type} → Fields τ → List Json → τ → Prop
  | _, .done, js, _ => js = []
  | _, .field _ codec absence _ rest, js, (a, b) =>
    Means codec absence a js.head? ∧ rest.HoldsInTurn js.tail b

section Taking

variable {name : String} {codec : Codec α} {absence : Absence α} {omitted : α → Bool}
  {rest : Fields β} {a b : Option α} {p q : rest.Partial}

/-- A member is for the first field, which is free, or for the fields behind it. -/
theorem take_cases {key : String} {j : Json}
    (h : (field name codec absence omitted rest).take key j (a, p) = .ok (b, q)) :
    (key = name ∧ a = none ∧ (∃ x, codec.read j = .ok x ∧ b = some x) ∧ q = p) ∨
      (key ≠ name ∧ b = a ∧ rest.take key j p = .ok q) := by
  by_cases own : key = name
  · cases a with
    | some a =>
      rw [take, if_pos own] at h
      cases h
    | none =>
      rw [take, if_pos own] at h
      obtain ⟨x, read, same⟩ := Codec.ok_of_map h
      cases same
      exact .inl ⟨own, rfl, ⟨x, read, rfl⟩, rfl⟩
  · have h : (rest.take key j p).map (a, ·) = .ok (b, q) := by
      cases a <;> rwa [take, if_neg own] at h
    obtain ⟨next, step, same⟩ := Codec.ok_of_map h
    cases same
    exact .inr ⟨own, rfl, step⟩

/-- The fields behind the first one take in what is not for it. -/
theorem takeAll_others {ms : List (String × Json)}
    (h : (field name codec absence omitted rest).takeAll ms (a, p) = .ok (b, q)) :
    rest.takeAll (ms.filter fun m => m.1 ≠ name) p = .ok q := by
  induction ms generalizing a p with
  | nil =>
    cases h
    rfl
  | cons m ms ih =>
    obtain ⟨⟨a', p'⟩, step, later⟩ := Codec.ok_of_bind h
    rcases take_cases step with ⟨own, -, -, rfl⟩ | ⟨other, -, step⟩
    · rw [List.filter_cons_of_neg (by simpa using own)]
      exact ih later
    · rw [List.filter_cons_of_pos (by simpa using other)]
      exact (takeAll_cons step).trans (ih later)

theorem takeAll_some {ms : List (String × Json)} {x : α}
    (h : (field name codec absence omitted rest).takeAll ms (some x, p) = .ok (b, q)) :
    b = some x := by
  induction ms generalizing p with
  | nil =>
    cases h
    rfl
  | cons m ms ih =>
    obtain ⟨⟨a', p'⟩, step, later⟩ := Codec.ok_of_bind h
    rcases take_cases step with ⟨-, taken, -, -⟩ | ⟨-, rfl, -⟩
    · cases taken
    · exact ih later

/-- The first field has what the member of its name was read as, if there is one. -/
theorem takeAll_none {ms : List (String × Json)}
    (h : (field name codec absence omitted rest).takeAll ms (none, p) = .ok (b, q)) :
    (∃ j x, valueOf name ms = some j ∧ codec.read j = .ok x ∧ b = some x) ∨
      (valueOf name ms = none ∧ b = none) := by
  induction ms generalizing p with
  | nil =>
    cases h
    exact .inr ⟨rfl, rfl⟩
  | cons m ms ih =>
    obtain ⟨⟨a', p'⟩, step, later⟩ := Codec.ok_of_bind h
    rcases take_cases step with ⟨own, -, ⟨x, read, rfl⟩, -⟩ | ⟨other, rfl, -⟩
    · have first : valueOf name (m :: ms) = some m.2 := by
        rw [valueOf, List.find?_cons_of_pos (by simpa using own)]
        rfl
      exact .inl ⟨m.2, x, first, read, takeAll_some later⟩
    · have same : valueOf name (m :: ms) = valueOf name ms := by
        rw [valueOf, List.find?_cons_of_neg (by simpa using other)]
        rfl
      rw [same]
      exact ih later

/-- A field that has nothing is what its absence stands for. -/
theorem finish_cases {v : α × β}
    (h : (field name codec absence omitted rest).finish (a, p) = .ok v) :
    (a = some v.1 ∨ (a = none ∧ absence = .standsFor v.1)) ∧ rest.finish p = .ok v.2 := by
  cases a with
  | some x =>
    obtain ⟨y, finished, same⟩ := Codec.ok_of_bind (x := rest.finish p) h
    cases same
    exact ⟨.inl rfl, finished⟩
  | none =>
    cases absence with
    | required => cases h
    | standsFor x =>
      obtain ⟨y, finished, same⟩ := Codec.ok_of_bind (x := rest.finish p) h
      cases same
      exact ⟨.inr ⟨rfl, rfl⟩, finished⟩

end Taking

theorem valueOf_filter {name other : String} (unlike : name ≠ other)
    (ms : List (String × Json)) :
    valueOf name (ms.filter fun m => m.1 ≠ other) = valueOf name ms := by
  unfold valueOf
  rw [List.find?_filter]
  congr 2
  funext m
  by_cases own : m.1 = name <;> simp [own, unlike]

theorem holds_of_filter {fs : Fields τ} {other : String} (unlike : other ∉ fs.names)
    {ms : List (String × Json)} {v : τ} (h : fs.Holds (ms.filter fun m => m.1 ≠ other) v) :
    fs.Holds ms v := by
  induction fs with
  | done => trivial
  | field name codec absence omitted rest ih =>
    obtain ⟨first, later⟩ := not_or.mp (mt List.mem_cons.mpr unlike)
    obtain ⟨own, others⟩ := h
    rw [valueOf_filter (Ne.symm first)] at own
    exact ⟨own, ih later others⟩

theorem holds_of_finish {fs : Fields τ} (distinct : fs.names.Nodup) {ms : List (String × Json)}
    {p : fs.Partial} {v : τ} (taken : fs.takeAll ms fs.nothing = .ok p)
    (h : fs.finish p = .ok v) : fs.Holds ms v := by
  induction fs generalizing ms with
  | done => trivial
  | field name codec absence omitted rest ih =>
    obtain ⟨a, p⟩ := p
    obtain ⟨new, apart⟩ := List.nodup_cons.mp distinct
    obtain ⟨own, finished⟩ := finish_cases h
    have later := ih apart (takeAll_others taken) finished
    refine ⟨?_, holds_of_filter new later⟩
    rcases takeAll_none taken with ⟨j, x, found, read, rfl⟩ | ⟨missing, rfl⟩
    · rw [found]
      rcases own with same | ⟨absent, -⟩
      · cases same
        exact read
      · cases absent
    · rw [missing]
      rcases own with present | ⟨-, stands⟩
      · cases present
      · exact stands

/-- What was read from an object. -/
theorem holds_of_read {fs : Fields τ} (distinct : fs.names.Nodup) {title : String}
    {ms : List (String × Json)} {v : τ} (h : fs.read title (.record ms) = .ok v) :
    fs.Holds ms v := by
  obtain ⟨p, taken, finished⟩ := Codec.ok_of_bind h
  exact holds_of_finish distinct taken finished

theorem holdsInTurn_of_readList {fs : Fields τ} {shape : DecodeError} {js : List Json} {v : τ}
    (h : fs.readList shape js = .ok v) : fs.HoldsInTurn js v := by
  induction fs generalizing js with
  | done =>
    cases js with
    | nil => rfl
    | cons => cases h
  | field name codec absence omitted rest ih =>
    cases js with
    | nil =>
      cases absence with
      | required => cases h
      | standsFor a =>
        obtain ⟨b, others, h⟩ := Codec.ok_of_bind (x := rest.readList shape []) h
        cases h
        exact ⟨rfl, ih others⟩
    | cons j js =>
      obtain ⟨a, read, h⟩ := Codec.ok_of_bind h
      obtain ⟨b, others, h⟩ := Codec.ok_of_bind h
      cases h
      exact ⟨read, ih others⟩

/-- What was read from a list. -/
theorem holdsInTurn_of_read {fs : Fields τ} {title : String} {js : List Json} {v : τ}
    (h : fs.read title (.list js) = .ok v) : fs.HoldsInTurn js v := by
  unfold read at h
  dsimp only at h
  split at h
  · split at h <;> cases h
  · exact holdsInTurn_of_readList h

theorem reads_of_means {codec : Codec α} {absence : Absence α} {a : α} {j? : Option Json}
    (absent : ∀ a, absence = .standsFor a → codec.Reads a) (h : Means codec absence a j?) :
    codec.Reads a := by
  cases j? with
  | some j => exact ⟨j, h⟩
  | none => exact absent a h

theorem Holds.reads {fs : Fields τ} (lawful : fs.Lawful) {ms : List (String × Json)} {v : τ}
    (h : fs.Holds ms v) : fs.Reads v := by
  induction lawful with
  | done => trivial
  | field faithful absent omittable lawful ih => exact ⟨reads_of_means absent h.1, ih h.2⟩

theorem HoldsInTurn.reads {fs : Fields τ} (lawful : fs.Lawful) {js : List Json} {v : τ}
    (h : fs.HoldsInTurn js v) : fs.Reads v := by
  induction lawful generalizing js with
  | done => trivial
  | field faithful absent omittable lawful ih => exact ⟨reads_of_means absent h.1, ih h.2⟩

theorem reads_of_read {fs : Fields τ} (lawful : fs.Lawful) (distinct : fs.names.Nodup)
    {title : String} {j : Json} {v : τ} (h : fs.read title j = .ok v) : fs.Reads v := by
  cases j with
  | record ms => exact (holds_of_read distinct h).reads lawful
  | list js => exact (holdsInTurn_of_read h).reads lawful
  | null | bool | number | text | fault => cases h

theorem read_write {fs : Fields τ} (lawful : fs.Lawful) (distinct : fs.names.Nodup)
    {title : String} {v : τ} (h : fs.Reads v) : fs.read title (.record (fs.write v)) = .ok v := by
  obtain ⟨p, taken, finished⟩ := takeAll_write lawful distinct h
  unfold read
  dsimp only
  rw [taken]
  exact finished

end Fields

namespace Codec

variable {α τ : Type} {title : String} {fs : Fields τ} {pair : α → τ} {make : τ → α}

/-- The records that can be read are those made of values that the fields can read. -/
theorem reads_record (lawful : fs.Lawful) (distinct : fs.names.Nodup) {a : α} :
    (record title fs pair make).Reads a ↔ ∃ v, fs.Reads v ∧ make v = a := by
  constructor
  · rintro ⟨j, h⟩
    obtain ⟨v, read, made⟩ := ok_of_map h
    exact ⟨v, Fields.reads_of_read lawful distinct read, made⟩
  · rintro ⟨v, reads, rfl⟩
    refine ⟨.record (fs.write v), ?_⟩
    show (fs.read title (.record (fs.write v))).map make = .ok (make v)
    rw [Fields.read_write lawful distinct reads]
    rfl

theorem faithful_record (lawful : fs.Lawful) (distinct : fs.names.Nodup)
    (same : ∀ v, pair (make v) = v) : (record title fs pair make).Faithful where
  read_write := by
    intro a h
    obtain ⟨v, reads, rfl⟩ := (reads_record lawful distinct).mp h
    show (fs.read title (.record (fs.write (pair (make v))))).map make = .ok (make v)
    rw [same, Fields.read_write lawful distinct reads]
    rfl
  solid _ _ := nofun

end Codec

end Drayage
