import Mathlib.Data.List.Nodup
import Mathlib.Tactic

/-! # Rings of a next pointer

`Walk next a l b`: following `next` from `a` passes exactly the nodes `l`, in order,
and arrives at `b`.  A ring is a list of different nodes whose walk comes back to its
first node.  A ring may be read from any of its nodes (`IsRing.rotate`), and a new
node is linked in behind a given one by two stores (`IsRing.insert`).
-/

namespace LinkedRing

variable {α : Type*}

/-- Following `next` from `a` passes the nodes `l` and arrives at `b`. -/
inductive Walk (next : α → α) : α → List α → α → Prop
  | nil (a : α) : Walk next a [] a
  | cons {a b : α} {l : List α} : Walk next (next a) l b → Walk next a (a :: l) b

/-- The nodes `l` are different and `next` leads from each to the one after it, and from
the last to the first. -/
structure IsRing (next : α → α) (l : List α) : Prop where
  nodup : l.Nodup
  nonempty : l ≠ []
  closed : ∃ a, Walk next a l a

variable {next next' : α → α} {a b c x t : α} {l m p q : List α}

/-! ## Walks -/

theorem Walk.append (first : Walk next a l b) (second : Walk next b m c) :
    Walk next a (l ++ m) c := by
  induction first with
  | nil => exact second
  | cons _ ih => exact .cons (ih second)

theorem Walk.split (walk : Walk next a (l ++ m) c) : ∃ b, Walk next a l b ∧ Walk next b m c := by
  induction l generalizing a with
  | nil => exact ⟨a, .nil a, walk⟩
  | cons x l ih =>
    cases walk with
    | cons rest =>
      obtain ⟨b, first, second⟩ := ih rest
      exact ⟨b, .cons first, second⟩

theorem Walk.congr (walk : Walk next a l b) (agree : ∀ x ∈ l, next' x = next x) :
    Walk next' a l b := by
  induction walk with
  | nil a => exact .nil a
  | @cons a b l _ ih =>
    refine .cons ?_
    rw [agree a List.mem_cons_self]
    exact ih fun x member => agree x (List.mem_cons_of_mem _ member)

/-- A walk starts at its first node. -/
theorem Walk.head_eq (walk : Walk next a (x :: l) b) : a = x := by
  cases walk
  rfl

theorem Walk.nil_eq (walk : Walk next a [] b) : a = b := by
  cases walk
  rfl

theorem Walk.tail (walk : Walk next a (x :: l) b) : Walk next (next x) l b := by
  cases walk with
  | cons rest => exact rest

/-! ## Rings -/

/-- A ring, read from its first node. -/
theorem IsRing.walk (ring : IsRing next (x :: l)) : Walk next x (x :: l) x := by
  obtain ⟨a, walk⟩ := ring.closed
  obtain rfl := walk.head_eq
  exact walk

/-- A ring, read from its second node. -/
theorem IsRing.walk_next (ring : IsRing next (x :: l)) : Walk next (next x) (l ++ [x]) (next x) :=
  ring.walk.tail.append (.cons (.nil _))

theorem IsRing.rotate (ring : IsRing next (p ++ q)) : IsRing next (q ++ p) := by
  obtain ⟨a, walk⟩ := ring.closed
  obtain ⟨b, first, second⟩ := walk.split
  refine ⟨(List.perm_append_comm.nodup_iff).mp ring.nodup, ?_, b, second.append first⟩
  have nonempty := ring.nonempty
  simp only [ne_eq, List.append_eq_nil_iff, not_and] at nonempty ⊢
  exact fun empty other => nonempty other empty

/-- A new node behind `x`. -/
theorem IsRing.insert [DecidableEq α] (ring : IsRing next (p ++ x :: q)) (fresh : t ∉ p ++ x :: q) :
    IsRing (Function.update (Function.update next t (next x)) x t) (p ++ x :: t :: q) := by
  have nodup := ring.nodup
  have turned : IsRing next (x :: (q ++ p)) := ring.rotate
  have notHere : x ∉ q ++ p := (List.nodup_cons.mp turned.nodup).1
  simp only [List.mem_append, List.mem_cons, not_or] at fresh notHere
  obtain ⟨notP, ne, notQ⟩ := fresh
  have rest := turned.walk.tail
  have kept : Walk (Function.update (Function.update next t (next x)) x t) (next x) (q ++ p) x := by
    refine rest.congr fun y member => ?_
    have notX : y ≠ x := by
      rintro rfl
      exact (List.mem_append.mp member).elim notHere.1 notHere.2
    have notT : y ≠ t := by
      rintro rfl
      exact (List.mem_append.mp member).elim notQ notP
    rw [Function.update_of_ne notX, Function.update_of_ne notT]
  have inserted : IsRing (Function.update (Function.update next t (next x)) x t)
      (x :: t :: (q ++ p)) := by
    refine ⟨?_, List.cons_ne_nil _ _, x, .cons ?_⟩
    · refine List.nodup_cons.mpr ⟨?_, List.nodup_cons.mpr ⟨?_, (List.nodup_cons.mp turned.nodup).2⟩⟩
      · simp only [List.mem_cons, List.mem_append, not_or]
        exact ⟨Ne.symm ne, notHere⟩
      · simp only [List.mem_append, not_or]
        exact ⟨notQ, notP⟩
    · rw [Function.update_self]
      refine .cons ?_
      rw [Function.update_of_ne ne, Function.update_self]
      exact kept
  exact (show IsRing _ ((x :: t :: q) ++ p) from inserted).rotate

/-- Pointers outside the ring do not matter. -/
theorem IsRing.congr (ring : IsRing next l) (agree : ∀ x ∈ l, next' x = next x) : IsRing next' l := by
  obtain ⟨nodup, nonempty, a, walk⟩ := ring
  exact ⟨nodup, nonempty, a, walk.congr agree⟩

/-- Every node of a ring is reached from every other one. -/
theorem IsRing.iterate (ring : IsRing next l) (first : a ∈ l) (second : b ∈ l) :
    ∃ n, next^[n] a = b := by
  obtain ⟨p, q, rfl⟩ := List.append_of_mem first
  have turned : IsRing next (a :: (q ++ p)) := ring.rotate
  have member : b ∈ a :: (q ++ p) :=
    (show (p ++ a :: q).Perm ((a :: q) ++ p) from List.perm_append_comm).subset second
  obtain ⟨m, r, split⟩ := List.append_of_mem member
  have walk := turned.walk
  rw [split] at walk
  obtain ⟨c, start, rest⟩ := walk.split
  obtain rfl := rest.head_eq
  refine ⟨m.length, ?_⟩
  clear walk rest split member turned ring first second
  induction start with
  | nil => rfl
  | cons _ ih => exact ih

/-- A ring, read from a given node. -/
theorem IsRing.turn (ring : IsRing next l) (member : x ∈ l) :
    ∃ m, IsRing next (x :: m) ∧ (x :: m).Perm l := by
  obtain ⟨p, q, rfl⟩ := List.append_of_mem member
  exact ⟨q ++ p, ring.rotate, (show ((x :: q) ++ p).Perm (p ++ x :: q) from List.perm_append_comm)⟩

/-- The pointers of a ring stay in it. -/
theorem IsRing.next_mem (ring : IsRing next l) (member : x ∈ l) : next x ∈ l := by
  obtain ⟨m, turned, same⟩ := ring.turn member
  have rest := turned.walk.tail
  cases m with
  | nil =>
    rw [rest.nil_eq]
    exact member
  | cons y m =>
    rw [rest.head_eq]
    exact same.subset (List.mem_cons_of_mem _ List.mem_cons_self)

end LinkedRing
