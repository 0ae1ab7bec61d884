import QuantumKernel.Library.Bindings
import QuantumKernel.Exec.Loader

/-! # Sequences of mappings

The loops of `load_elf` and `exec` map runs of pages.  A call without a page table and
without memory for one maps nothing; of the others, the last one for a page decides what
the page is mapped to.
-/

namespace QuantumKernel.Exec

open Pages Bindings

/-- The flags of every mapping that a program gets. -/
def userFlags : UInt32 := pagePresent ||| pageWrite ||| pageUser

/-- The pages that a loop maps, with their frames. -/
def pagesFrom (virt phys : UInt32) (count : Nat) : List (UInt32 × UInt32) :=
  (List.range count).map fun i => (virt + UInt32.ofNat i * 0x1000, phys + UInt32.ofNat i * 0x1000)

/-- The calls of `paging_map_page`, one after another. -/
def mapAll (p : Paging) (ctx : UInt32) (calls : List (UInt32 × UInt32)) : Paging :=
  calls.foldl (fun p call => pagingMapPage p ctx call.1 call.2 userFlags) p

/-- The calls that find a page table, or get one. -/
def mapped (ctx : UInt32) : Paging → List (UInt32 × UInt32) → List (UInt32 × UInt32)
  | _, [] => []
  | p, call :: rest =>
    (if Backed p ctx call.1 then [call] else []) ++ mapped ctx (pagingMapPage p ctx call.1 call.2 userFlags) rest

/-- The frame of the last mapping for the page of an address. -/
def frameOf (calls : List (UInt32 × UInt32)) (v : UInt32) : Option UInt32 :=
  lookupLast (calls.map fun call => (pageOf call.1, call.2)) (pageOf v)

variable {p q : Paging} {ctx virt phys v w frame : UInt32} {calls calls' : List (UInt32 × UInt32)} {count : Nat}

theorem mapPages_eq (p : Paging) (ctx virt phys : UInt32) (count : Nat) :
    mapPages p ctx virt phys count = mapAll p ctx (pagesFrom virt phys count) := by
  rw [mapPages, mapAll, pagesFrom, List.foldl_map]
  rfl

theorem frameOf_append (calls calls' : List (UInt32 × UInt32)) (v : UInt32) :
    frameOf (calls ++ calls') v = (frameOf calls' v).or (frameOf calls v) := by
  rw [frameOf, List.map_append, lookupLast_append]
  rfl

theorem frameOf_eq_none : frameOf calls v = none ↔ ∀ call ∈ calls, pageOf v ≠ pageOf call.1 := by
  rw [frameOf, lookupLast_eq_none, List.forall_mem_map]

/-- The page table entry that the mappings leave. -/
def entryAfter (calls : List (UInt32 × UInt32)) (before v : UInt32) : UInt32 :=
  match frameOf calls v with
  | some frame => baseOf frame ||| userFlags
  | none => before

theorem entryAfter_append (calls calls' : List (UInt32 × UInt32)) (before v : UInt32) :
    entryAfter (calls ++ calls') before v = entryAfter calls' (entryAfter calls before v) v := by
  rw [entryAfter, entryAfter, entryAfter, frameOf_append]
  cases frameOf calls' v with
  | none => rfl
  | some frame => rfl

/-- Without a page table there is no entry. -/
theorem entry_of_missing {c : PageContext} (missing : c.tables (directoryIndex v) = none) : c.entry v = 0 := by
  rw [PageContext.entry, missing]

/-- One call. -/
theorem pagingMapPage_entryAfter (p : Paging) (ctx virt phys v : UInt32) :
    ((pagingMapPage p ctx virt phys userFlags).context ctx).entry v =
      entryAfter (if Backed p ctx virt then [(virt, phys)] else []) ((p.context ctx).entry v) v := by
  rw [pagingMapPage_entry]
  by_cases backed : Backed p ctx virt
  · rw [if_pos backed, if_pos backed, entryAfter, frameOf]
    by_cases samePage : pageOf v = pageOf virt
    · simp [lookupLast_cons, samePage]
    · simp [lookupLast_cons, samePage]
  · rw [if_neg backed, if_neg backed]
    split
    · rename_i samePage
      -- the page has no table, before and after
      have missing := not_not.mp (not_or.mp backed).1
      rw [← (same_entry_iff.mpr samePage).1] at missing
      exact (entry_of_missing missing).symm
    · rfl

/-- **The last mapping of a page decides.** -/
theorem mapAll_entry (calls : List (UInt32 × UInt32)) (p : Paging) (ctx v : UInt32) :
    ((mapAll p ctx calls).context ctx).entry v =
      entryAfter (mapped ctx p calls) ((p.context ctx).entry v) v := by
  induction calls generalizing p with
  | nil => rfl
  | cons call rest ih =>
    have first := pagingMapPage_entryAfter p ctx call.1 call.2 v
    rw [mapped, entryAfter_append, ← first]
    exact ih (pagingMapPage p ctx call.1 call.2 userFlags)

theorem mapAll_directoryOk (calls : List (UInt32 × UInt32)) (ok : DirectoryOk (p.context ctx)) :
    DirectoryOk ((mapAll p ctx calls).context ctx) := by
  induction calls generalizing p with
  | nil => exact ok
  | cons call rest ih => exact ih (pagingMapPage_directoryOk ok call.1 call.2 userFlags)

theorem mapAll_other {other : UInt32} (ne : other ≠ ctx) (calls : List (UInt32 × UInt32)) (p : Paging) :
    (mapAll p ctx calls).context other = p.context other := by
  induction calls generalizing p with
  | nil => rfl
  | cons call rest ih =>
    rw [mapAll, List.foldl_cons, ← pagingMapPage_other (p := p) ne call.1 call.2 userFlags]
    exact ih _

/-- The address to which a mapped page translates. -/
theorem physicalOf_frame (frame v : UInt32) :
    physicalOf (baseOf frame ||| userFlags) v = baseOf frame ||| offsetOf v := physicalOf_present frame v

end QuantumKernel.Exec
