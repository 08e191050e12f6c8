import Mathlib.Logic.Function.Basic
import Mathlib.Tactic.Common

/-!
# Maps filled in order

Entries are stored one after the other, so a key is bound to the value of its last
entry, and to nothing when it has none.

-/

namespace TelemetrixDb

variable {K V : Type} [DecidableEq K]

/-- The map after storing one entry. -/
def store (m : K → Option V) (entry : K × V) : K → Option V :=
  Function.update m entry.1 (some entry.2)

/-- The map after storing some entries. -/
def storeAll (m : K → Option V) (entries : List (K × V)) : K → Option V := entries.foldl store m

/-- Where some element has a key there is a last one. -/
theorem exists_last_of_key {α K : Type} (key : α → K) {l : List α} {k : K}
    (h : ∃ a ∈ l, key a = k) : ∃ before a after, l = before ++ a :: after ∧ key a = k ∧
      ∀ later ∈ after, key later ≠ k := by
  induction l with
  | nil => simp at h
  | cons first l ih =>
      by_cases later : ∃ a ∈ l, key a = k
      · obtain ⟨before, a, after, rfl, same, last⟩ := ih later
        exact ⟨first :: before, a, after, rfl, same, last⟩
      · refine ⟨[], first, l, rfl, ?_, fun a mem same => later ⟨a, mem, same⟩⟩
        obtain ⟨a, mem, same⟩ := h
        rcases List.mem_cons.mp mem with rfl | mem
        · exact same
        · exact absurd ⟨a, mem, same⟩ later

namespace storeAll

variable {m : K → Option V} {entries before after : List (K × V)} {k : K} {v : V}

/-- Entries of other keys leave a key alone. -/
theorem of_absent (h : ∀ entry ∈ entries, entry.1 ≠ k) : storeAll m entries k = m k := by
  induction entries generalizing m with
  | nil => rfl
  | cons entry entries ih =>
      rw [List.forall_mem_cons] at h
      calc
        storeAll (store m entry) entries k = store m entry k := ih h.2
        _ = m k := Function.update_of_ne (Ne.symm h.1) _ _

/-- A key is bound to the value of its last entry. -/
theorem of_last (last : ∀ entry ∈ after, entry.1 ≠ k) :
    storeAll m (before ++ (k, v) :: after) k = some v := by
  have split : storeAll m (before ++ (k, v) :: after) =
      storeAll (store (storeAll m before) (k, v)) after := by
    simp [storeAll, List.foldl_append]
  rw [split, of_absent last]
  exact Function.update_self _ _ _

/-- A fresh map binds exactly the keys that have an entry. -/
theorem ne_none_iff : storeAll (fun _ => none) entries k ≠ none ↔ ∃ entry ∈ entries, entry.1 = k := by
  constructor
  · intro bound
    by_contra absent
    push Not at absent
    exact bound (of_absent absent)
  · intro h
    obtain ⟨before, ⟨key, v⟩, after, rfl, rfl, last⟩ := exists_last_of_key Prod.fst h
    simp [of_last last]

end storeAll

end TelemetrixDb
