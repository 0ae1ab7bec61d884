import Mathlib.Tactic

/-! # A ring in a list of cells

The first `size` cells of a list are a ring.  Data is written from a position on, which need
not lie in the ring: position `pos` is the cell `pos % size`.  Data that was written is held
until a whole round later (`Holds.write`), and where it does not go over the end of the ring
it is a part of the list (`Holds.take_drop`).
-/

namespace RingBuffer

variable {α : Type}

/-- The data, cell by cell. -/
def write (size : Nat) (cells : List α) (pos : Nat) : List α → List α
  | [] => cells
  | x :: rest => write size (cells.set (pos % size) x) (pos + 1) rest

/-- The data is in the ring at a position. -/
def Holds (size : Nat) (cells : List α) (pos : Nat) (data : List α) : Prop :=
  ∀ k < data.length, cells[(pos + k) % size]? = data[k]?

variable {size pos start i : Nat} {cells data old : List α}

@[simp] theorem length_write : (write size cells pos data).length = cells.length := by
  induction data generalizing cells pos with
  | nil => rfl
  | cons x rest ih => rw [write, ih, List.length_set]

/-- A round later the cells are the same. -/
theorem write_of_mod (same : start % size = pos % size) :
    write size cells start data = write size cells pos data := by
  induction data generalizing cells start pos with
  | nil => rfl
  | cons x rest ih =>
    have next : (start + 1) % size = (pos + 1) % size := by rw [Nat.add_mod, same, ← Nat.add_mod]
    rw [write, write, same, ih next]

/-- Different positions of one round are different cells. -/
theorem cell_ne {a b : Nat} (lt : a < b) (round : b < a + size) : a % size ≠ b % size := by
  intro same
  have zero : (b - a) % size = 0 := Nat.sub_mod_eq_zero_of_mod_eq same.symm
  rw [Nat.mod_eq_of_lt (by omega)] at zero
  omega

theorem write_elsewhere (outside : ∀ k < data.length, (pos + k) % size ≠ i) :
    (write size cells pos data)[i]? = cells[i]? := by
  induction data generalizing cells pos with
  | nil => rfl
  | cons x rest ih =>
    have first : pos % size ≠ i := outside 0 (Nat.zero_lt_succ _)
    rw [write, ih, List.getElem?_set_ne first]
    intro k inside
    have next := outside (k + 1) (Nat.succ_lt_succ inside)
    rwa [← Nat.add_assoc, Nat.add_right_comm] at next

/-- Data that fits into the ring is there after it is written. -/
theorem holds_write (positive : 0 < size) (inside : size ≤ cells.length) (room : data.length ≤ size) :
    Holds size (write size cells pos data) pos data := by
  induction data generalizing cells pos with
  | nil => exact fun k none => absurd none (Nat.not_lt_zero k)
  | cons x rest ih =>
    rw [List.length_cons] at room
    intro k bound
    cases k with
    | zero =>
      have cell : pos % size < cells.length := lt_of_lt_of_le (Nat.mod_lt pos positive) inside
      have later (k : Nat) (before : k < rest.length) : (pos + 1 + k) % size ≠ pos % size :=
        (cell_ne (by omega) (by omega)).symm
      rw [Nat.add_zero, write, write_elsewhere later, List.getElem?_set_self cell]
      rfl
    | succ k =>
      have cell : size ≤ (cells.set (pos % size) x).length := by rwa [List.length_set]
      have later : Holds size (write size (cells.set (pos % size) x) (pos + 1) rest) (pos + 1) rest :=
        ih cell (by omega)
      have held := later k (Nat.lt_of_succ_lt_succ bound)
      rw [Nat.add_right_comm, Nat.add_assoc] at held
      exact held

/-- Writing behind held data, up to a round later, leaves it alone. -/
theorem Holds.write (held : Holds size cells start old) (behind : start + old.length ≤ pos)
    (room : pos + data.length ≤ start + size) : Holds size (write size cells pos data) start old := by
  intro k bound
  rw [← held k bound]
  exact write_elsewhere fun j inside => (cell_ne (by omega) (by omega)).symm

/-- A round later the position is the same. -/
theorem Holds.of_mod (held : Holds size cells start data) (same : start % size = pos % size) :
    Holds size cells pos data := by
  intro k bound
  rw [← held k bound, Nat.add_mod, ← same, ← Nat.add_mod]

theorem Holds.left (held : Holds size cells start (old ++ data)) : Holds size cells start old := by
  intro k bound
  rw [held k (by rw [List.length_append]; omega), List.getElem?_append_left bound]

/-- Data that does not go over the end of the ring is a part of the list. -/
theorem Holds.take_drop (held : Holds size cells start data) (inside : start + data.length ≤ size) : (cells.drop start).take data.length = data := by
  refine List.ext_getElem? fun k => ?_
  by_cases bound : k < data.length
  · rw [List.getElem?_take_of_lt bound, List.getElem?_drop, ← held k bound, Nat.mod_eq_of_lt (by omega)]
  · rw [List.getElem?_eq_none (not_lt.mp bound), List.getElem?_eq_none]
    rw [List.length_take]
    omega

end RingBuffer
