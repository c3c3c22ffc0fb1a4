import Drayage.Json.Codec

/-!
# What codecs read back

A codec is faithful if it reads a value back from what it writes for it, whatever the value
was first read from. The codecs of scalars are, and every way to make codecs out of others
keeps it: for records, because what is left out of them is what its absence stands for.
-/

namespace Drayage

namespace Dict

variable {κ α : Type} [Ord κ] [Std.TransOrd κ]

theorem place_last {k : κ} {a : α} {es : List (κ × α)}
    (h : ∀ e ∈ es, compare e.1 k = .lt) : place k a es = es ++ [(k, a)] := by
  induction es with
  | nil => rfl
  | cons e es ih =>
    have after : compare k e.1 = .gt := Std.OrientedCmp.gt_of_lt (h e List.mem_cons_self)
    simp only [place, after]
    rw [ih fun f hf => h f (List.mem_cons_of_mem _ hf), List.cons_append]

theorem entries_foldl_insert {d : Dict κ α} {es : List (κ × α)}
    (h : (d.entries ++ es).Pairwise fun e f => compare e.1 f.1 = .lt) :
    (es.foldl (fun d e => d.insert e.1 e.2) d).entries = d.entries ++ es := by
  induction es generalizing d with
  | nil => exact (List.append_nil _).symm
  | cons e es ih =>
    have last : (d.insert e.1 e.2).entries = d.entries ++ [e] :=
      place_last fun f hf => (List.pairwise_append.mp h).2.2 f hf e List.mem_cons_self
    have step := ih (d := d.insert e.1 e.2) (by rwa [last, List.append_assoc])
    rwa [last, List.append_assoc] at step

/-- A dictionary is made again from its entries. -/
theorem ofList_entries (d : Dict κ α) : ofList d.entries = d := by
  have same : (ofList d.entries).entries = d.entries :=
    entries_foldl_insert (d := (∅ : Dict κ α)) d.ascending
  generalize ofList d.entries = e at same
  cases d
  cases e
  cases same
  rfl

theorem mem_entries_foldl_insert {d : Dict κ α} {es : List (κ × α)} {e : κ × α}
    (h : e ∈ (es.foldl (fun d e => d.insert e.1 e.2) d).entries) : e ∈ d.entries ∨ e ∈ es := by
  induction es generalizing d with
  | nil => exact .inl h
  | cons f es ih =>
    rcases ih h with h | h
    · rcases mem_place h with rfl | h
      · exact .inr List.mem_cons_self
      · exact .inl h
    · exact .inr (List.mem_cons_of_mem _ h)

theorem mem_of_mem_ofList {es : List (κ × α)} {e : κ × α} (h : e ∈ (ofList es).entries) :
    e ∈ es := by
  rcases mem_entries_foldl_insert h with h | h
  · cases h
  · exact h

end Dict

namespace Json

theorem canonicalMembers?_self {ms : List (String × Json)}
    (h : ∀ m ∈ ms, m.2.canonical? = some m.2) : canonicalMembers? ms = some ms := by
  induction ms with
  | nil => rfl
  | cons m ms ih =>
    obtain ⟨name, j⟩ := m
    unfold canonicalMembers?
    rw [h (name, j) List.mem_cons_self, ih fun n hn => h n (List.mem_cons_of_mem _ hn)]
    rfl

mutual

/-- What is in canonical form stays as it is. -/
theorem canonical?_canonical? : ∀ {j k : Json}, j.canonical? = some k → k.canonical? = some k
  | .null, _, rfl => rfl
  | .bool _, _, rfl => rfl
  | .number _, _, rfl => rfl
  | .text _, _, rfl => rfl
  | .list items, k, h => by
    unfold canonical? at h
    obtain ⟨js, items, rfl⟩ := Option.map_eq_some_iff.mp h
    exact congrArg (Option.map list) (canonicalItems?_canonicalItems? items)
  | .record members, k, h => by
    unfold canonical? at h
    obtain ⟨ms, members, rfl⟩ := Option.map_eq_some_iff.mp h
    have same : canonicalMembers? (Dict.ofList ms).entries = some (Dict.ofList ms).entries :=
      canonicalMembers?_self fun m hm =>
        canonical?_of_mem_members members m (Dict.mem_of_mem_ofList hm)
    unfold canonical?
    rw [same]
    exact congrArg (some ∘ record ∘ Dict.entries) (Dict.ofList_entries _)

theorem canonicalItems?_canonicalItems? : ∀ {js ks : List Json},
    canonicalItems? js = some ks → canonicalItems? ks = some ks
  | [], _, rfl => rfl
  | j :: js, ks, h => by
    unfold canonicalItems? at h
    obtain ⟨k, first, h⟩ := Option.bind_eq_some_iff.mp h
    obtain ⟨ks, rest, h⟩ := Option.bind_eq_some_iff.mp h
    cases h
    unfold canonicalItems?
    rw [canonical?_canonical? first, canonicalItems?_canonicalItems? rest]
    rfl

theorem canonical?_of_mem_members : ∀ {ms ns : List (String × Json)},
    canonicalMembers? ms = some ns → ∀ m ∈ ns, m.2.canonical? = some m.2
  | [], _, rfl => nofun
  | (name, j) :: ms, ns, h => by
    unfold canonicalMembers? at h
    obtain ⟨k, first, h⟩ := Option.bind_eq_some_iff.mp h
    obtain ⟨ns, rest, h⟩ := Option.bind_eq_some_iff.mp h
    cases h
    intro m hm
    rcases List.mem_cons.mp hm with rfl | hm
    · exact canonical?_canonical? first
    · exact canonical?_of_mem_members rest m hm

end

theorem canonical?_null {j : Json} (h : j.canonical? = some .null) : j = .null := by
  cases j with
  | null => rfl
  | bool | number | text | fault => cases h
  | list items =>
    unfold canonical? at h
    obtain ⟨_, _, h⟩ := Option.map_eq_some_iff.mp h
    cases h
  | record members =>
    unfold canonical? at h
    obtain ⟨_, _, h⟩ := Option.map_eq_some_iff.mp h
    cases h

end Json

namespace Codec

variable {α β : Type} {c : Codec α}

theorem ok_of_bind {x : Except DecodeError α} {f : α → Except DecodeError β} {b : β}
    (h : x >>= f = .ok b) : ∃ a, x = .ok a ∧ f a = .ok b := by
  cases x with
  | error e => cases h
  | ok a => exact ⟨a, rfl, h⟩

theorem ok_of_map {x : Except DecodeError α} {f : α → β} {b : β} (h : x.map f = .ok b) :
    ∃ a, x = .ok a ∧ f a = b := by
  cases x with
  | error e => cases h
  | ok a =>
    cases h
    exact ⟨a, rfl, rfl⟩

/-- A value that can be read. -/
def Reads (c : Codec α) (a : α) : Prop := ∃ j, c.read j = .ok a

/-- What can be read is read back from what is written for it, and only what was read from
`null` may be written as `null`. -/
structure Faithful (c : Codec α) : Prop where
  read_write : ∀ {a}, c.Reads a → c.read (c.write a) = .ok a
  solid : ∀ {j a}, c.read j = .ok a → j ≠ .null → c.write a ≠ .null

theorem faithful_text : Codec.text.Faithful where
  read_write _ := rfl
  solid _ _ := nofun

theorem faithful_bool : Codec.bool.Faithful where
  read_write _ := rfl
  solid _ _ := nofun

/-- Values that are written as texts, and read from whatever texts can be parsed. -/
structure Parses (c : Codec α) (print : α → String) (parse? : String → Option α) : Prop where
  write : ∀ a, c.write a = .text (print a)
  read_iff : ∀ {j a}, c.read j = .ok a ↔ ∃ s, j = .text s ∧ parse? s = some a

theorem Parses.reads_iff {print : α → String} {parse? : String → Option α} {good : α → Prop}
    (h : c.Parses print parse?) (sound : ∀ {s a}, parse? s = some a → good a)
    (back : ∀ {a}, good a → parse? (print a) = some a) {a : α} : c.Reads a ↔ good a := by
  constructor
  · rintro ⟨j, read⟩
    obtain ⟨s, -, parsed⟩ := h.read_iff.mp read
    exact sound parsed
  · exact fun well => ⟨.text (print a), h.read_iff.mpr ⟨_, rfl, back well⟩⟩

theorem Parses.faithful {print : α → String} {parse? : String → Option α}
    (h : c.Parses print parse?)
    (back : ∀ {s a}, parse? s = some a → parse? (print a) = some a) : c.Faithful where
  read_write := by
    rintro a ⟨j, read⟩
    obtain ⟨s, -, parsed⟩ := h.read_iff.mp read
    rw [h.write]
    exact h.read_iff.mpr ⟨_, rfl, back parsed⟩
  solid _ _ := by
    rw [h.write]
    nofun

theorem faithful_natural (bound : Nat) (name : String) : (natural bound name).Faithful where
  read_write := by
    rintro n ⟨j, h⟩
    have inside : n < bound := by
      unfold natural at h
      dsimp only at h
      split at h
      · split at h
        · cases h
          assumption
        · cases h
      · cases h
      · cases h
      · cases h
    exact if_pos inside
  solid _ _ := nofun

theorem faithful_nat32 : nat32.Faithful where
  read_write := by
    rintro n -
    have read : (natural UInt32.size "u32").read (.nat n.toNat) = .ok n.toNat :=
      if_pos n.toNat_lt_size
    show ((natural UInt32.size "u32").read (.nat n.toNat)).map UInt32.ofNat = .ok n
    rw [read, Except.map, UInt32.ofNat_toNat]
  solid _ _ := nofun

theorem reads_of_mapM {js : List Json} {as : List α} (h : js.mapM c.read = .ok as) :
    ∀ a ∈ as, c.Reads a := by
  induction js generalizing as with
  | nil =>
    cases h
    nofun
  | cons j js ih =>
    rw [List.mapM_cons] at h
    obtain ⟨a, first, h⟩ := ok_of_bind h
    obtain ⟨as, rest, h⟩ := ok_of_bind h
    cases h
    intro b hb
    rcases List.mem_cons.mp hb with rfl | hb
    · exact ⟨j, first⟩
    · exact ih rest b hb

theorem mapM_write (hc : c.Faithful) {as : List α} (h : ∀ a ∈ as, c.Reads a) :
    (as.map c.write).mapM c.read = .ok as := by
  induction as with
  | nil => rfl
  | cons a as ih =>
    rw [List.map_cons, List.mapM_cons, hc.read_write (h a List.mem_cons_self),
      ih fun b hb => h b (List.mem_cons_of_mem _ hb)]
    rfl

theorem reads_list {as : List α} (h : c.list.Reads as) : ∀ a ∈ as, c.Reads a := by
  obtain ⟨j, h⟩ := h
  cases j with
  | list js => exact reads_of_mapM h
  | null | bool | number | text | record | fault => cases h

theorem faithful_list (hc : c.Faithful) : c.list.Faithful where
  read_write h := mapM_write hc (reads_list h)
  solid _ _ := nofun

theorem reads_of_readMembers {ms : List (String × Json)} {es : List (String × α)}
    (h : readMembers c ms = .ok es) : ∀ e ∈ es, c.Reads e.2 := by
  induction ms generalizing es with
  | nil =>
    cases h
    nofun
  | cons m ms ih =>
    obtain ⟨a, first, h⟩ := ok_of_bind h
    obtain ⟨es, rest, h⟩ := ok_of_bind h
    cases h
    intro e he
    rcases List.mem_cons.mp he with rfl | he
    · exact ⟨m.2, first⟩
    · exact ih rest e he

theorem readMembers_write (hc : c.Faithful) {es : List (String × α)}
    (h : ∀ e ∈ es, c.Reads e.2) :
    readMembers c (es.map fun e => (e.1, c.write e.2)) = .ok es := by
  induction es with
  | nil => rfl
  | cons e es ih =>
    rw [List.map_cons]
    unfold readMembers
    rw [hc.read_write (h e List.mem_cons_self), ih fun f hf => h f (List.mem_cons_of_mem _ hf)]
    rfl

theorem faithful_dict (hc : c.Faithful) : c.dict.Faithful where
  read_write := by
    rintro d ⟨j, h⟩
    cases j with
    | record ms =>
      obtain ⟨es, read, rfl⟩ := ok_of_map h
      have reads : ∀ e ∈ (Dict.ofList es).entries, c.Reads e.2 := fun e he =>
        reads_of_readMembers read e (Dict.mem_of_mem_ofList he)
      show (readMembers c ((Dict.ofList es).entries.map _)).map Dict.ofList = _
      rw [readMembers_write hc reads]
      exact congrArg Except.ok (Dict.ofList_entries _)
    | null | bool | number | text | list | fault => cases h
  solid _ _ := nofun

theorem faithful_textSet : textSet.Faithful where
  read_write := by
    rintro d -
    have names : (d.keys.map Json.text).mapM text.read = .ok d.keys :=
      mapM_write faithful_text fun s _ => ⟨.text s, rfl⟩
    have entries : d.keys.map (·, ()) = d.entries := by
      rw [Dict.keys, List.map_map]
      exact List.map_id _
    show ((d.keys.map Json.text).mapM text.read).map _ = _
    rw [names]
    show Except.ok (Dict.ofList (d.keys.map (·, ()))) = _
    rw [entries, Dict.ofList_entries]
  solid _ _ := nofun

/-- What a value is known by is looked up again, since the first value that a name is found
for is always the same. -/
theorem faithful_variants (known : List α) (name : α → String) :
    (variants known name).Faithful where
  read_write := by
    rintro a ⟨j, h⟩
    have named {s : String} (found : variants.named known name s = .ok a) :
        variants.named known name (name a) = .ok a := by
      unfold variants.named at found
      split at found
      · rename_i b first
        cases found
        have same : name a = s := eq_of_beq (List.find?_some (p := (name · == s)) first)
        unfold variants.named
        rw [same, first]
      · cases found
    cases j with
    | text s => exact named h
    | record ms =>
      cases ms with
      | nil => cases h
      | cons m rest =>
        obtain ⟨s, j⟩ := m
        unfold variants at h
        dsimp only at h
        split at h
        · cases h
        · rename_i found
          split at h
          · cases h
            exact named found
          · cases h
    | null | bool | number | list | fault => cases h
  solid _ _ := nofun

theorem read_opaqueData {j a : Json} (h : opaqueData.read j = .ok a) : j.canonical? = some a := by
  unfold opaqueData at h
  dsimp only at h
  split at h
  · cases h
    assumption
  · cases h

theorem faithful_opaqueData : opaqueData.Faithful where
  read_write := by
    rintro a ⟨j, h⟩
    have same := Json.canonical?_canonical? (read_opaqueData h)
    unfold opaqueData
    dsimp only
    rw [id, same]
  solid := by
    rintro j a h solid rfl
    exact solid (Json.canonical?_null (read_opaqueData h))

theorem read_optional_of_ne {j : Json} (h : j ≠ .null) :
    c.optional.read j = (c.read j).map some := by
  cases j with
  | null => exact absurd rfl h
  | bool | number | text | list | record | fault => rfl

/-- What can be absent is either `null` or something else that was read. -/
theorem read_optional {j : Json} {a : Option α} (h : c.optional.read j = .ok a) :
    (j = .null ∧ a = none) ∨ ∃ b, j ≠ .null ∧ c.read j = .ok b ∧ a = some b := by
  by_cases null : j = .null
  · subst null
    cases h
    exact .inl ⟨rfl, rfl⟩
  · rw [read_optional_of_ne null] at h
    obtain ⟨b, read, rfl⟩ := ok_of_map h
    exact .inr ⟨b, null, read, rfl⟩

theorem faithful_optional (hc : c.Faithful) : c.optional.Faithful where
  read_write := by
    rintro a ⟨j, h⟩
    rcases read_optional h with ⟨rfl, rfl⟩ | ⟨b, solid, read, rfl⟩
    · rfl
    · show c.optional.read (c.write b) = _
      rw [read_optional_of_ne (hc.solid read solid), hc.read_write ⟨j, read⟩]
      rfl
  solid := by
    intro j a h solid
    rcases read_optional h with ⟨rfl, rfl⟩ | ⟨b, _, read, rfl⟩
    · exact absurd rfl solid
    · exact hc.solid read solid

end Codec

end Drayage
