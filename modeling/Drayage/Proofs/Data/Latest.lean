import Drayage.Data.Dict
import Mathlib.Data.List.Induction

/-!
# The last value with a key

Values that are put into a dictionary one after another replace each other by their keys. So
what is found under a key is the last value that came with it, whatever came in between.
-/

namespace Drayage

open Std

variable {κ α : Type} [DecidableEq κ] {key : α → κ} {k : κ}

/-- The last of some values with a key. -/
def latest (key : α → κ) (k : κ) (as : List α) : Option α :=
  (as.filter fun a => key a = k).getLast?

theorem latest_concat (as : List α) (a : α) :
    latest key k (as ++ [a]) = if key a = k then some a else latest key k as := by
  unfold latest
  rw [List.filter_append]
  by_cases same : key a = k <;> simp [same]

theorem key_of_latest {as : List α} {a : α} (h : latest key k as = some a) : key a = k := by
  have found := List.mem_of_getLast? h
  exact of_decide_eq_true (List.mem_filter.mp found).2

namespace Dict

variable [Ord κ] [TransOrd κ] [LawfulEqOrd κ]

theorem get?_foldl_insert (as : List α) (d : Dict κ α) :
    (as.foldl (fun d a => d.insert (key a) a) d).get? k = (latest key k as).or (d.get? k) := by
  induction as using List.reverseRecOn with
  | nil => rfl
  | append_singleton as a ih =>
    rw [List.foldl_append, latest_concat]
    show ((as.foldl (fun d a => d.insert (key a) a) d).insert (key a) a).get? k = _
    rw [get?_insert, ih]
    simp only [LawfulEqCmp.compare_eq_iff_eq, eq_comm (a := k)]
    split <;> rfl

end Dict

end Drayage
