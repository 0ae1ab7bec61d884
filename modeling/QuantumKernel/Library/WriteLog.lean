import Mathlib.Data.List.Basic
import Mathlib.Tactic

/-! # A log of writes to one byte array

Several writers store ranges of bytes in one array, and the log lists their writes in
order.  `latest` is the byte that a log leaves at an offset: that of the last write that
covers it.  `Carries` says that an array is as the log leaves it, wherever the log says
anything.
-/

namespace WriteLog

variable {ι : Type*}

/-- Bytes that a writer stored from an offset on. -/
structure Write (ι : Type*) where
  writer : ι
  offset : Nat
  bytes : List UInt8

/-- The byte that a write stores at an offset, if it covers it. -/
def Write.byteAt (w : Write ι) (o : Nat) : Option UInt8 :=
  if w.offset ≤ o then w.bytes[o - w.offset]? else none

/-- The byte of the last write that covers an offset. -/
def latest : List (Write ι) → Nat → Option UInt8
  | [], _ => none
  | w :: rest, o => (latest rest o).or (w.byteAt o)

/-- The array of `size` bytes holds what the log leaves in it. -/
def Carries (log : List (Write ι)) (bytes : Nat → UInt8) (size : Nat) : Prop :=
  ∀ o b, latest log o = some b → o < size ∧ bytes o = b

variable {log rest : List (Write ι)} {w : Write ι} {o size size' n : Nat} {b : UInt8}
  {bytes bytes' source : Nat → UInt8} {p q : Write ι → Bool}

theorem Write.byteAt_bounds (found : w.byteAt o = some b) :
    w.offset ≤ o ∧ o < w.offset + w.bytes.length := by
  rw [Write.byteAt, Option.ite_none_right_eq_some] at found
  obtain ⟨low, inside⟩ := found
  have high := (List.getElem?_eq_some_iff.mp inside).1
  exact ⟨low, by omega⟩

theorem Write.bytes_ne_nil (found : w.byteAt o = some b) : w.bytes ≠ [] := by
  intro empty
  have bounds := Write.byteAt_bounds found
  rw [empty, List.length_nil] at bounds
  omega

theorem latest_append (log rest : List (Write ι)) (o : Nat) :
    latest (log ++ rest) o = (latest rest o).or (latest log o) := by
  induction log with
  | nil => simp [latest]
  | cons w log ih => rw [List.cons_append, latest, latest, ih, Option.or_assoc]

theorem latest_mem (found : latest log o = some b) : ∃ w ∈ log, w.byteAt o = some b := by
  induction log with
  | nil => cases found
  | cons w rest ih =>
    rw [latest, Option.or_eq_some_iff] at found
    rcases found with later | ⟨-, here⟩
    · obtain ⟨w', member, covers⟩ := ih later
      exact ⟨w', List.mem_cons_of_mem w member, covers⟩
    · exact ⟨w, List.mem_cons_self, here⟩

/-- Writes of no bytes do not count. -/
theorem latest_filter_congr (same : ∀ w ∈ log, w.bytes ≠ [] → p w = q w) (o : Nat) :
    latest (log.filter p) o = latest (log.filter q) o := by
  induction log with
  | nil => rfl
  | cons w rest ih =>
    have ih := ih fun w' member => same w' (List.mem_cons_of_mem w member)
    by_cases empty : w.bytes = []
    · have nothing : w.byteAt o = none := by simp [Write.byteAt, empty]
      have skip (r : Write ι → Bool) : latest ((w :: rest).filter r) o = latest (rest.filter r) o := by
        rw [List.filter_cons]
        split
        · rw [latest, nothing, Option.or_none]
        · rfl
      rw [skip p, skip q, ih]
    · have agree := same w List.mem_cons_self empty
      rw [List.filter_cons, List.filter_cons, agree]
      split
      · rw [latest, latest, ih]
      · exact ih

theorem latest_filter_true (all : ∀ w ∈ log, w.bytes ≠ [] → p w = true) (o : Nat) :
    latest (log.filter p) o = latest log o := by
  have filtered := latest_filter_congr (q := fun _ => true) all o
  rwa [List.filter_true] at filtered

theorem Carries.congr (carries : Carries log bytes size)
    (same : ∀ o, latest rest o = latest log o) : Carries rest bytes size := by
  intro o b found
  exact carries o b (same o ▸ found)

/-- One more write, to an array that may have grown. -/
theorem Carries.append (carries : Carries log bytes size) (longer : size ≤ size')
    (room : w.bytes ≠ [] → w.offset + w.bytes.length ≤ size')
    (stored : ∀ k b, w.byteAt k = some b → bytes' k = b)
    (kept : ∀ k < size, w.byteAt k = none → bytes' k = bytes k) :
    Carries (log ++ [w]) bytes' size' := by
  intro o b found
  rw [latest_append, Option.or_eq_some_iff] at found
  simp only [latest, Option.none_or] at found
  rcases found with here | ⟨missed, earlier⟩
  · have bounds := Write.byteAt_bounds here
    have fits := room (Write.bytes_ne_nil here)
    exact ⟨by omega, stored o b here⟩
  · obtain ⟨inside, holds⟩ := carries o b earlier
    exact ⟨by omega, (kept o inside missed).trans holds⟩

end WriteLog
