import Mathlib.Data.List.Nodup
import Mathlib.Data.Set.Insert
import Mathlib.Tactic

/-! # Chains in a successor table

A successor table stores singly linked lists without nodes: `next a` is the cell
after `a`, and a value satisfying `stop` ends the list.  `cell` says which values
are cells of the table at all.  No cell may read as an end mark (`excl` below),
which makes the chain from a given head unique and free of repetitions.

`Separate` is the family invariant: every head of a set starts a chain, and the
chains of different heads share no cell.  `Separate.rebuild` and `Separate.remove`
are the two ways a table is edited: one chain grows (or is started) with cells that
no chain used, or one chain is given up.  `Covered` says that the chains of the heads are all
there is: no cell in use is lost.  A chain that grows and keeps its cells, or one that is given
up cell by cell, keeps the table covered.
-/

namespace LinkedTable

variable {α : Type*}

/-- `Chain next cell stop a l`: following `next` from `a` visits exactly the cells
`l`, in order, and then reads an end mark. -/
inductive Chain (next : α → α) (cell stop : α → Prop) : α → List α → Prop
  | last {a : α} : cell a → stop (next a) → Chain next cell stop a [a]
  | link {a : α} {l : List α} : cell a → Chain next cell stop (next a) l →
      Chain next cell stop a (a :: l)

/-- Every head starts a chain, and two different heads start disjoint ones. -/
def Separate (next : α → α) (cell stop : α → Prop) (heads : Set α) : Prop :=
  (∀ a ∈ heads, ∃ l, Chain next cell stop a l) ∧
  ∀ a ∈ heads, ∀ b ∈ heads, a ≠ b → ∀ l m, Chain next cell stop a l → Chain next cell stop b m →
    l.Disjoint m

/-- Every cell in use is on the chain of a head. -/
def Covered (next : α → α) (cell stop : α → Prop) (free : α) (heads : Set α) : Prop :=
  ∀ x, cell x → next x ≠ free → ∃ a ∈ heads, ∃ l, Chain next cell stop a l ∧ x ∈ l

variable {next next' : α → α} {cell stop : α → Prop} {a b x free : α} {l m : List α}

/-! ## One chain -/

theorem Chain.eq_cons (chain : Chain next cell stop a l) : ∃ t, l = a :: t := by
  cases chain with
  | last => exact ⟨[], rfl⟩
  | link _ rest => exact ⟨_, rfl⟩

theorem Chain.head_mem (chain : Chain next cell stop a l) : a ∈ l := by
  obtain ⟨t, rfl⟩ := chain.eq_cons
  exact List.mem_cons_self

theorem Chain.ne_nil (chain : Chain next cell stop a l) : l ≠ [] := by
  obtain ⟨t, rfl⟩ := chain.eq_cons
  exact List.cons_ne_nil a t

theorem Chain.cell_of_mem (chain : Chain next cell stop a l) : ∀ x ∈ l, cell x := by
  induction chain with
  | last valid _ => simpa using valid
  | link valid _ ih =>
    intro x member
    rcases List.mem_cons.mp member with rfl | later
    · exact valid
    · exact ih x later

/-- The value stored in a cell of a chain is the next cell or an end mark. -/
theorem Chain.next_of_mem (chain : Chain next cell stop a l) :
    ∀ x ∈ l, cell (next x) ∨ stop (next x) := by
  induction chain with
  | last _ ends => intro x member; rw [List.mem_singleton.mp member]; exact Or.inr ends
  | link _ rest ih =>
    intro x member
    rcases List.mem_cons.mp member with rfl | later
    · exact Or.inl (rest.cell_of_mem _ rest.head_mem)
    · exact ih x later

theorem Chain.next_ne_free (chain : Chain next cell stop a l)
    (notCell : ¬ cell free) (notStop : ¬ stop free) : ∀ x ∈ l, next x ≠ free := by
  intro x member same
  rcases chain.next_of_mem x member with valid | ends
  · exact notCell (same ▸ valid)
  · exact notStop (same ▸ ends)

theorem Chain.unique (excl : ∀ x, cell x → ¬ stop x) (first : Chain next cell stop a l)
    (second : Chain next cell stop a m) : l = m := by
  induction first generalizing m with
  | last _ ends =>
    cases second with
    | last => rfl
    | link _ rest => exact absurd ends (excl _ (rest.cell_of_mem _ rest.head_mem))
  | link _ rest ih =>
    cases second with
    | last _ ends => exact absurd ends (excl _ (rest.cell_of_mem _ rest.head_mem))
    | link _ other => rw [ih other]

/-- A chain can be entered at any of its cells. -/
theorem Chain.suffix (chain : Chain next cell stop a l) {p t : List α} (split : l = p ++ x :: t) :
    Chain next cell stop x (x :: t) := by
  induction chain generalizing p with
  | last valid ends =>
    cases p with
    | nil => obtain ⟨rfl, rfl⟩ := List.cons.inj split; exact .last valid ends
    | cons _ p => simp at split
  | link valid rest ih =>
    cases p with
    | nil => obtain ⟨rfl, rfl⟩ := List.cons.inj split; exact .link valid rest
    | cons _ p => exact ih (List.cons.inj split).2

theorem Chain.nodup (excl : ∀ x, cell x → ¬ stop x) (chain : Chain next cell stop a l) :
    l.Nodup := by
  induction chain with
  | last => exact List.nodup_singleton _
  | @link b l valid rest ih =>
    refine List.nodup_cons.mpr ⟨?_, ih⟩
    intro member
    obtain ⟨p, t, split⟩ := List.append_of_mem member
    -- entering the tail at `b` would give a second, shorter chain from `b`
    have again : Chain next cell stop b (b :: t) := rest.suffix split
    have same := Chain.unique excl (Chain.link valid rest) again
    rw [split] at same
    have := congrArg List.length same
    simp only [List.length_cons, List.length_append] at this
    omega

theorem Chain.congr (chain : Chain next cell stop a l) (agree : ∀ x ∈ l, next' x = next x) :
    Chain next' cell stop a l := by
  induction chain with
  | last valid ends => exact .last valid (by rw [agree _ List.mem_cons_self]; exact ends)
  | link valid rest ih =>
    refine .link valid ?_
    rw [agree _ List.mem_cons_self]
    exact ih fun x member => agree x (List.mem_cons_of_mem _ member)

theorem Chain.next_getElem (chain : Chain next cell stop a l) (i : Nat) (bound : i + 1 < l.length) :
    next l[i] = l[i + 1] := by
  induction chain generalizing i with
  | last => simp at bound
  | link _ rest ih =>
    obtain ⟨t, rfl⟩ := rest.eq_cons
    cases i with
    | zero => rfl
    | succ i => exact ih i (by simpa using bound)

theorem Chain.stop_getLast (chain : Chain next cell stop a l) :
    stop (next (l.getLast chain.ne_nil)) := by
  induction chain with
  | last _ ends => exact ends
  | link _ rest ih => rw [List.getLast_cons rest.ne_nil]; exact ih

/-- Linking a chain to the end of another: the last cell of `l` is redirected to the
head of `m`, and nothing else on either chain changes. -/
theorem Chain.append (chain : Chain next cell stop a l)
    (redirected : next' (l.getLast chain.ne_nil) = b)
    (agree : ∀ x ∈ l, x ≠ l.getLast chain.ne_nil → next' x = next x)
    (excl : ∀ x, cell x → ¬ stop x) (tail : Chain next' cell stop b m) :
    Chain next' cell stop a (l ++ m) := by
  induction chain with
  | last valid _ => exact .link valid (redirected ▸ tail)
  | @link c l valid rest ih =>
    have lastEq : (c :: l).getLast (List.cons_ne_nil c l) = l.getLast rest.ne_nil :=
      List.getLast_cons rest.ne_nil
    have fresh : c ∉ l := (List.nodup_cons.mp (Chain.nodup excl (Chain.link valid rest))).1
    have headNext : next' c = next c := by
      apply agree c List.mem_cons_self
      rw [lastEq]
      exact fun same => fresh (same ▸ List.getLast_mem rest.ne_nil)
    refine .link valid ?_
    rw [headNext]
    refine ih (by rw [← lastEq]; exact redirected) ?_
    intro x member notLast
    exact agree x (List.mem_cons_of_mem _ member) (by rw [lastEq]; exact notLast)

/-! ## Families of chains -/

/-- The chain of another head is untouched by the change of one, and avoids it. -/
theorem Separate.other {heads : Set α} (sep : Separate next cell stop heads)
    (notCell : ¬ cell free) (notStop : ¬ stop free)
    (source : ∀ x ∈ m, next x = free ∨ (a ∈ heads ∧ ∃ l, Chain next cell stop a l ∧ x ∈ l))
    (frame : ∀ x, next x ≠ free → x ∉ m → next' x = next x) :
    ∀ b ∈ heads, b ≠ a → ∀ l, Chain next cell stop b l → Chain next' cell stop b l ∧ l.Disjoint m := by
  intro b inHeads ne l old
  have apart : l.Disjoint m := by
    intro x inOld inNew
    rcases source x inNew with wasFree | ⟨aHead, k, oldA, inA⟩
    · exact old.next_ne_free notCell notStop x inOld wasFree
    · exact sep.2 b inHeads a aHead ne l k old oldA inOld inA
  refine ⟨old.congr fun x member => ?_, apart⟩
  exact frame x (old.next_ne_free notCell notStop x member) fun inNew => apart member inNew

/-- One chain is started or changed: its new cells come from its old chain or were
free, and no cell in use outside it was written.  All other chains survive. -/
theorem Separate.rebuild {heads : Set α} (sep : Separate next cell stop heads)
    (notCell : ¬ cell free) (notStop : ¬ stop free) (excl : ∀ x, cell x → ¬ stop x)
    (chain : Chain next' cell stop a m)
    (source : ∀ x ∈ m, next x = free ∨ (a ∈ heads ∧ ∃ l, Chain next cell stop a l ∧ x ∈ l))
    (frame : ∀ x, next x ≠ free → x ∉ m → next' x = next x) :
    Separate next' cell stop (insert a heads) := by
  have other := sep.other notCell notStop source frame
  have otherUnique : ∀ b ∈ heads, b ≠ a → ∀ l, Chain next' cell stop b l →
      Chain next cell stop b l := by
    intro b inHeads ne l new
    obtain ⟨k, old⟩ := sep.1 b inHeads
    rw [Chain.unique excl new (other b inHeads ne k old).1]
    exact old
  constructor
  · intro b member
    by_cases same : b = a
    · exact ⟨m, same ▸ chain⟩
    · have inHeads := Set.mem_of_mem_insert_of_ne member same
      obtain ⟨l, old⟩ := sep.1 b inHeads
      exact ⟨l, (other b inHeads same l old).1⟩
  · intro b bMember c cMember ne l k chainB chainC
    by_cases bSame : b = a
    · subst bSame
      have cNe : c ≠ b := fun h => ne h.symm
      have inHeads := Set.mem_of_mem_insert_of_ne cMember cNe
      rw [Chain.unique excl chainB chain]
      exact (other c inHeads cNe k (otherUnique c inHeads cNe k chainC)).2.symm
    · have bHeads := Set.mem_of_mem_insert_of_ne bMember bSame
      have oldB := otherUnique b bHeads bSame l chainB
      by_cases cSame : c = a
      · subst cSame
        rw [Chain.unique excl chainC chain]
        exact (other b bHeads bSame l oldB).2
      · have cHeads := Set.mem_of_mem_insert_of_ne cMember cSame
        exact sep.2 b bHeads c cHeads ne l k oldB (otherUnique c cHeads cSame k chainC)

/-- One chain is given up: only its cells were written. -/
theorem Separate.remove {heads : Set α} (sep : Separate next cell stop heads) (inHeads : a ∈ heads)
    (excl : ∀ x, cell x → ¬ stop x) (chain : Chain next cell stop a l)
    (frame : ∀ x, x ∉ l → next' x = next x) :
    Separate next' cell stop (heads \ {a}) := by
  have other : ∀ b ∈ heads \ {a}, ∀ m, Chain next cell stop b m → Chain next' cell stop b m := by
    intro b member m old
    refine old.congr fun x inM => frame x fun inL => ?_
    exact sep.2 b member.1 a inHeads member.2 m l old chain inM inL
  have old : ∀ b ∈ heads \ {a}, ∀ m, Chain next' cell stop b m → Chain next cell stop b m := by
    intro b member m new
    obtain ⟨k, before⟩ := sep.1 b member.1
    rw [Chain.unique excl new (other b member k before)]
    exact before
  refine ⟨fun b member => ?_, fun b bMem c cMem ne m k chainB chainC => ?_⟩
  · obtain ⟨m, before⟩ := sep.1 b member.1
    exact ⟨m, other b member m before⟩
  · exact sep.2 b bMem.1 c cMem.1 ne m k (old b bMem m chainB) (old c cMem k chainC)

/-- A chain that was started or grew loses no cell, when it keeps the ones it had. -/
theorem Covered.rebuild {heads : Set α} (covered : Covered next cell stop free heads)
    (sep : Separate next cell stop heads) (notCell : ¬ cell free) (notStop : ¬ stop free)
    (chain : Chain next' cell stop a m)
    (source : ∀ x ∈ m, next x = free ∨ (a ∈ heads ∧ ∃ l, Chain next cell stop a l ∧ x ∈ l))
    (keeps : a ∈ heads → ∀ l, Chain next cell stop a l → l ⊆ m) (frame : ∀ x, x ∉ m → next' x = next x) :
    Covered next' cell stop free (insert a heads) := by
  intro x valid used
  by_cases inNew : x ∈ m
  · exact ⟨a, Set.mem_insert a heads, m, chain, inNew⟩
  · rw [frame x inNew] at used
    obtain ⟨b, inHeads, l, old, member⟩ := covered x valid used
    have ne : b ≠ a := by
      rintro rfl
      exact inNew (keeps inHeads l old member)
    have kept := sep.other notCell notStop source (fun x _ out => frame x out) b inHeads ne l old
    exact ⟨b, Set.mem_insert_of_mem a inHeads, l, kept.1, member⟩

/-- A chain that was given up loses no cell, when all of its cells are free. -/
theorem Covered.remove {heads : Set α} (covered : Covered next cell stop free heads)
    (sep : Separate next cell stop heads) (inHeads : a ∈ heads) (excl : ∀ x, cell x → ¬ stop x)
    (chain : Chain next cell stop a l) (freed : ∀ x ∈ l, next' x = free)
    (frame : ∀ x, x ∉ l → next' x = next x) : Covered next' cell stop free (heads \ {a}) := by
  intro x valid used
  have out : x ∉ l := fun member => used (freed x member)
  rw [frame x out] at used
  obtain ⟨b, bHeads, m, old, member⟩ := covered x valid used
  have ne : b ≠ a := by
    rintro rfl
    exact out (Chain.unique excl old chain ▸ member)
  refine ⟨b, ⟨bHeads, ne⟩, m, old.congr fun y inM => frame y fun inL => ?_, member⟩
  exact sep.2 b bHeads a inHeads ne m l old chain inM inL

end LinkedTable
