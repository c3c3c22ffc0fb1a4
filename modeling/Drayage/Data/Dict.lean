/-!
# Dictionaries

A dictionary is a list of key–value pairs in strictly ascending key order, so its
entries have one fixed order. `get?_insert` and `get?_erase` describe every update
through look-up.
-/

namespace Drayage

open Std

structure Dict (κ : Type) (α : Type) [Ord κ] where
  entries : List (κ × α)
  ascending : entries.Pairwise (fun e f => compare e.1 f.1 = .lt)

namespace Dict

variable {κ : Type} {α : Type} {β : Type} [Ord κ]

instance [DecidableEq κ] [DecidableEq α] : DecidableEq (Dict κ α) := fun a b =>
  decidable_of_iff (a.entries = b.entries) <| by
    cases a; cases b; simp

instance : EmptyCollection (Dict κ α) := ⟨⟨[], .nil⟩⟩

instance : Inhabited (Dict κ α) := ⟨∅⟩

def find (k : κ) : List (κ × α) → Option α
  | [] => none
  | (j, a) :: rest => if compare k j = .eq then some a else find k rest

def get? (d : Dict κ α) (k : κ) : Option α := find k d.entries

def contains (d : Dict κ α) (k : κ) : Bool := (d.get? k).isSome

def keys (d : Dict κ α) : List κ := d.entries.map Prod.fst

def values (d : Dict κ α) : List α := d.entries.map Prod.snd

def size (d : Dict κ α) : Nat := d.entries.length

def isEmpty (d : Dict κ α) : Bool := d.entries.isEmpty

def mapValues (f : κ → α → β) (d : Dict κ α) : Dict κ β :=
  ⟨d.entries.map fun e => (e.1, f e.1 e.2), List.pairwise_map.mpr d.ascending⟩

/-- Puts an entry at its place, over an entry with the same key. -/
def place (k : κ) (a : α) : List (κ × α) → List (κ × α)
  | [] => [(k, a)]
  | (j, b) :: rest =>
    match compare k j with
    | .lt => (k, a) :: (j, b) :: rest
    | .eq => (k, a) :: rest
    | .gt => (j, b) :: place k a rest

theorem mem_place {k : κ} {a : α} {es : List (κ × α)} {e : κ × α} (h : e ∈ place k a es) :
    e = (k, a) ∨ e ∈ es := by
  induction es with
  | nil => simpa [place] using h
  | cons f rest ih =>
    simp only [place] at h
    split at h <;> grind

@[simp] theorem get?_empty (k : κ) : (∅ : Dict κ α).get? k = none := rfl

theorem mem_entries_of_find [LawfulEqOrd κ] {k : κ} {a : α} {es : List (κ × α)}
    (h : find k es = some a) : (k, a) ∈ es := by
  induction es with
  | nil => simp [find] at h
  | cons f rest ih =>
    simp only [find] at h
    split at h
    · rename_i heq
      obtain rfl := LawfulEqCmp.eq_of_compare heq
      obtain rfl := Option.some.inj h
      simp
    · exact List.mem_cons_of_mem _ (ih h)

theorem find_map [LawfulEqOrd κ] (f : κ → α → β) (k : κ) (es : List (κ × α)) :
    find k (es.map fun e => (e.1, f e.1 e.2)) = (find k es).map (f k) := by
  induction es with
  | nil => rfl
  | cons e rest ih =>
    by_cases hk : compare k e.1 = .eq
    · obtain rfl := LawfulEqCmp.eq_of_compare hk
      simp [find]
    · simpa [find, hk] using ih

theorem get?_mapValues [LawfulEqOrd κ] (f : κ → α → β) (d : Dict κ α) (k : κ) :
    (d.mapValues f).get? k = (d.get? k).map (f k) := find_map f k d.entries

variable [TransOrd κ]

theorem ascending_place (k : κ) (a : α) {es : List (κ × α)}
    (h : es.Pairwise (fun e f => compare e.1 f.1 = .lt)) :
    (place k a es).Pairwise (fun e f => compare e.1 f.1 = .lt) := by
  induction es with
  | nil => simp [place]
  | cons f rest ih =>
    obtain ⟨hf, hrest⟩ := List.pairwise_cons.1 h
    simp only [place]
    split
    · rename_i hlt
      refine List.pairwise_cons.2 ⟨fun e he => ?_, h⟩
      rcases List.mem_cons.1 he with rfl | he
      · exact hlt
      · exact TransCmp.lt_trans hlt (hf e he)
    · rename_i heq
      refine List.pairwise_cons.2 ⟨fun e he => ?_, hrest⟩
      exact TransCmp.lt_of_eq_of_lt heq (hf e he)
    · rename_i hgt
      refine List.pairwise_cons.2 ⟨fun e he => ?_, ih hrest⟩
      rcases mem_place he with rfl | he
      · exact OrientedCmp.lt_of_gt hgt
      · exact hf e he

def insert (d : Dict κ α) (k : κ) (a : α) : Dict κ α :=
  ⟨place k a d.entries, ascending_place k a d.ascending⟩

def erase (d : Dict κ α) (k : κ) : Dict κ α :=
  ⟨d.entries.filter (fun e => compare k e.1 != .eq), d.ascending.filter _⟩

/-- Entries put in one after another, so the last one with a key counts. -/
def ofList (es : List (κ × α)) : Dict κ α := es.foldl (fun d e => d.insert e.1 e.2) ∅

/-- The entries of `e` laid over those of `d`. -/
def overlay (d e : Dict κ α) : Dict κ α := e.entries.foldl (fun d e => d.insert e.1 e.2) d

theorem find_place (k j : κ) (a : α) (es : List (κ × α)) :
    find j (place k a es) = if compare j k = .eq then some a else find j es := by
  induction es with
  | nil => simp [place, find]
  | cons f rest ih =>
    simp only [place]
    split
    · simp [find]
    · rename_i heq
      by_cases hjk : compare j k = .eq
      · simp [find, hjk]
      · have : compare j f.1 ≠ .eq := fun h =>
          hjk (TransCmp.eq_trans h (OrientedCmp.eq_symm heq))
        simp [find, hjk, this]
    · rename_i hgt
      by_cases hjk : compare j k = .eq
      · have : compare j f.1 ≠ .eq := fun h => by
          have := TransCmp.eq_trans (OrientedCmp.eq_symm hjk) h
          simp [this] at hgt
        simp [find, this, ih, hjk]
      · simp [find, ih, hjk]

theorem get?_insert (d : Dict κ α) (k j : κ) (a : α) :
    (d.insert k a).get? j = if compare j k = .eq then some a else d.get? j :=
  find_place k j a d.entries

theorem find_filter (k j : κ) (es : List (κ × α)) :
    find j (es.filter (fun e => compare k e.1 != .eq)) =
      if compare j k = .eq then none else find j es := by
  induction es with
  | nil => simp [find]
  | cons f rest ih =>
    by_cases hkf : compare k f.1 = .eq
    · by_cases hjk : compare j k = .eq
      · simp [hkf, ih, hjk]
      · have : compare j f.1 ≠ .eq := fun h =>
          hjk (TransCmp.eq_trans h (OrientedCmp.eq_symm hkf))
        simp [hkf, ih, hjk, find, this]
    · by_cases hjk : compare j k = .eq
      · have : compare j f.1 ≠ .eq := fun h =>
          hkf (TransCmp.eq_trans (OrientedCmp.eq_symm hjk) h)
        simp [hkf, ih, hjk, find, this]
      · simp [hkf, ih, hjk, find]

theorem get?_erase (d : Dict κ α) (k j : κ) :
    (d.erase k).get? j = if compare j k = .eq then none else d.get? j :=
  find_filter k j d.entries

variable [LawfulEqOrd κ]

/-- Entries under other keys make no difference to what is looked up. -/
theorem get?_foldl_insert_of_forall_ne {k : κ} {es : List (κ × α)} {d : Dict κ α}
    (h : ∀ e ∈ es, e.1 ≠ k) :
    (es.foldl (fun d e => d.insert e.1 e.2) d).get? k = d.get? k := by
  induction es generalizing d with
  | nil => rfl
  | cons e es ih =>
    have other : compare k e.1 ≠ .eq := by
      intro same
      exact h e (.head _) (LawfulEqCmp.eq_of_compare same).symm
    calc (es.foldl (fun d e => d.insert e.1 e.2) (d.insert e.1 e.2)).get? k
      _ = (d.insert e.1 e.2).get? k := ih fun f hf => h f (.tail _ hf)
      _ = d.get? k := by rw [get?_insert, if_neg other]

theorem find_of_mem_entries {k : κ} {a : α} {es : List (κ × α)}
    (hs : es.Pairwise (fun e f => compare e.1 f.1 = .lt)) (h : (k, a) ∈ es) :
    find k es = some a := by
  induction es with
  | nil => simp at h
  | cons f rest ih =>
    obtain ⟨hf, hrest⟩ := List.pairwise_cons.1 hs
    rcases List.mem_cons.1 h with rfl | h
    · simp [find]
    · have hlt := hf _ h
      have : compare k f.1 ≠ .eq := fun heq => by
        have := OrientedCmp.eq_symm heq
        simp [this] at hlt
      simp [find, this, ih hrest h]

theorem get?_eq_some_iff {d : Dict κ α} {k : κ} {a : α} :
    d.get? k = some a ↔ (k, a) ∈ d.entries :=
  ⟨mem_entries_of_find, find_of_mem_entries d.ascending⟩

end Dict

end Drayage
