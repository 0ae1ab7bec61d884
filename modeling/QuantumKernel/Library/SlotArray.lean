import Mathlib.Data.List.FinRange
import Mathlib.Logic.Function.Basic
import Mathlib.Tactic

/-! # Arrays of slots

An array of `n` slots is a function from their indices.  `findSlot` is the loop that looks for
the first slot with a property, and `slotsWith` are the slots that a loop over the whole array
acts on, in order.
-/

namespace SlotArray

variable {α : Type} {n : Nat}

/-- The first slot with a property. -/
def findSlot (p : Fin n → Bool) : Option (Fin n) := (List.finRange n).find? p

/-- The slots with a property, from the first to the last. -/
def slotsWith (p : Fin n → Bool) : List (Fin n) := (List.finRange n).filter p

variable {p q : Fin n → Bool} {i j : Fin n}

theorem findSlot_eq_none : findSlot p = none ↔ ∀ i, p i = false := by
  rw [findSlot, List.find?_eq_none]
  exact ⟨fun all i => Bool.eq_false_iff.mpr (all i (List.mem_finRange i)),
    fun all i _ => Bool.eq_false_iff.mp (all i)⟩

theorem findSlot_holds (found : findSlot p = some i) : p i = true := List.find?_some found

/-- The slots before the first one do not have the property. -/
theorem findSlot_first (found : findSlot p = some i) (before : j < i) : p j = false := by
  obtain ⟨-, front, back, split, none⟩ := List.find?_eq_some_iff_append.mp found
  have sorted := List.pairwise_lt_finRange n
  have member := List.mem_finRange j
  rw [split, List.mem_append] at member
  rw [split, List.pairwise_append] at sorted
  cases member with
  | inl early => exact Bool.eq_false_iff.mpr (by simpa using none j early)
  | inr late =>
    cases late with
    | head => exact absurd before (lt_irrefl _)
    | tail _ later => exact absurd before (List.rel_of_pairwise_cons sorted.2.1 later).not_gt

theorem mem_slotsWith : i ∈ slotsWith p ↔ p i = true := by
  rw [slotsWith, List.mem_filter]
  exact and_iff_right (List.mem_finRange i)

theorem slotsWith_nodup (p : Fin n → Bool) : (slotsWith p).Nodup := (List.nodup_finRange n).filter p

theorem slotsWith_congr (same : ∀ i, p i = q i) : slotsWith p = slotsWith q :=
  List.filter_congr fun i _ => same i

theorem slotsWith_eq_nil : slotsWith p = [] ↔ ∀ i, p i = false := by
  rw [slotsWith, List.filter_eq_nil_iff]
  exact ⟨fun all i => Bool.eq_false_iff.mpr (all i (List.mem_finRange i)),
    fun all i _ => Bool.eq_false_iff.mp (all i)⟩

/-! ## Marking a slot -/

/-- The property with one more slot. -/
def mark (p : Fin n → Bool) (i : Fin n) : Fin n → Bool := fun j => if j = i then true else p j

/-- A loop over the array comes to a marked slot somewhere. -/
theorem slotsWith_mark_perm (fresh : p i = false) : (slotsWith (mark p i)).Perm (slotsWith p ++ [i]) := by
  have apart : (slotsWith p ++ [i]).Nodup := by
    rw [List.nodup_append]
    refine ⟨slotsWith_nodup p, List.nodup_singleton i, fun j member k single same => ?_⟩
    rw [List.mem_singleton] at single
    rw [mem_slotsWith, same, single, fresh] at member
    cases member
  refine (List.perm_ext_iff_of_nodup (slotsWith_nodup _) apart).mpr fun j => ?_
  rw [mem_slotsWith, List.mem_append, mem_slotsWith, List.mem_singleton, mark]
  by_cases here : j = i
  · simp [here]
  · simp [here]

theorem length_slotsWith_mark (fresh : p i = false) :
    (slotsWith (mark p i)).length = (slotsWith p).length + 1 := by
  rw [(slotsWith_mark_perm fresh).length_eq, List.length_append, List.length_singleton]

/-- The slots with a property, split by another. -/
theorem length_slotsWith_split (p q : Fin n → Bool) :
    (slotsWith p).length =
      (slotsWith fun i => p i && q i).length + (slotsWith fun i => p i && !q i).length := by
  have split := List.length_eq_length_filter_add (l := slotsWith p) q
  rw [slotsWith, List.filter_filter, List.filter_filter] at split
  rw [slotsWith, split]
  congr 2
  · exact List.filter_congr fun i _ => Bool.and_comm _ _
  · exact List.filter_congr fun i _ => Bool.and_comm _ _

theorem length_slotsWith_le (p : Fin n → Bool) : (slotsWith p).length ≤ n :=
  (List.length_filter_le _ _).trans_eq (List.length_finRange)

end SlotArray
