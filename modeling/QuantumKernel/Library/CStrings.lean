import QuantumKernel.Library.ByteStore

/-! # NUL-terminated strings in memory

`StringAt mem p text` says that the characters of `text` stand at `p`, none of them is NUL, and a
NUL is behind the last one.  The rules say which part of a string is a string again, and that only
the bytes of a string matter to it.
-/

namespace ByteStore

/-- The string at `p` is `text`. -/
def StringAt (mem : Bytes) (p : Nat) : List UInt8 → Prop
  | [] => mem p = 0
  | c :: rest => mem p = c ∧ c ≠ 0 ∧ StringAt mem (p + 1) rest

instance (mem : Bytes) : (p : Nat) → (text : List UInt8) → Decidable (StringAt mem p text)
  | p, [] => inferInstanceAs (Decidable (mem p = 0))
  | p, c :: rest =>
    have := instDecidableStringAt mem (p + 1) rest
    inferInstanceAs (Decidable (mem p = c ∧ c ≠ 0 ∧ StringAt mem (p + 1) rest))

variable {mem mem' : Bytes} {text : List UInt8} {p n k : Nat} {c : UInt8}

theorem stringAt_iff : StringAt mem p text ↔
    (List.range' p text.length).map mem = text ∧ 0 ∉ text ∧ mem (p + text.length) = 0 := by
  induction text generalizing p with
  | nil => simp [StringAt]
  | cons c rest ih =>
    rw [StringAt, ih, List.length_cons, List.range'_succ, List.map_cons, List.cons.injEq, List.mem_cons, not_or,
      Nat.add_assoc, Nat.add_comm 1]
    constructor
    · exact fun ⟨first, notNul, chars, absent, nul⟩ => ⟨⟨first, chars⟩, ⟨Ne.symm notNul, absent⟩, nul⟩
    · exact fun ⟨⟨first, chars⟩, ⟨notNul, absent⟩, nul⟩ => ⟨first, Ne.symm notNul, chars, absent, nul⟩

/-- Only the bytes of the string and its NUL matter. -/
theorem StringAt.frame (string : StringAt mem p text)
    (same : ∀ k, p ≤ k → k ≤ p + text.length → mem' k = mem k) : StringAt mem' p text := by
  induction text generalizing p with
  | nil => exact (same p (le_refl p) (le_refl p)).trans string
  | cons c rest ih =>
    obtain ⟨first, notNul, tail⟩ := string
    rw [List.length_cons] at same
    refine ⟨(same p (le_refl p) (by omega)).trans first, notNul, ih tail fun k low high => ?_⟩
    exact same k (by omega) (by omega)

theorem StringAt.nul (string : StringAt mem p text) : mem (p + text.length) = 0 := by
  induction text generalizing p with
  | nil => exact string
  | cons c rest ih =>
    have behind := ih string.2.2
    rwa [Nat.add_right_comm, Nat.add_assoc] at behind

theorem StringAt.char (string : StringAt mem p text) (found : text[k]? = some c) :
    mem (p + k) = c ∧ c ≠ 0 := by
  induction text generalizing p k with
  | nil => cases found
  | cons d rest ih =>
    obtain ⟨first, notNul, tail⟩ := string
    cases k with
    | zero =>
      cases found
      exact ⟨first, notNul⟩
    | succ k =>
      have later := ih tail found
      rwa [Nat.add_right_comm] at later

/-- A string can be read from any of its characters on. -/
theorem StringAt.drop (string : StringAt mem p text) (inside : n ≤ text.length) :
    StringAt mem (p + n) (text.drop n) := by
  induction text generalizing p n with
  | nil =>
    obtain rfl := Nat.le_zero.mp inside
    exact string
  | cons c rest ih =>
    cases n with
    | zero => exact string
    | succ n =>
      have tail := ih string.2.2 (Nat.le_of_succ_le_succ inside)
      rwa [Nat.add_assoc, Nat.add_comm 1] at tail

/-- A NUL behind the first `n` characters leaves these. -/
theorem StringAt.take (string : StringAt mem p text) (same : ∀ k, p ≤ k → k < p + n → mem' k = mem k)
    (stop : mem' (p + n) = 0) (inside : n ≤ text.length) : StringAt mem' p (text.take n) := by
  induction n generalizing p text with
  | zero => exact stop
  | succ n ih =>
    cases text with
    | nil => cases inside
    | cons c rest =>
      obtain ⟨first, notNul, tail⟩ := string
      refine ⟨(same p (le_refl p) (by omega)).trans first, notNul, ?_⟩
      refine ih tail (fun k low high => same k (by omega) (by omega)) ?_ (Nat.le_of_succ_le_succ inside)
      rwa [Nat.add_assoc, Nat.add_comm 1]

end ByteStore
