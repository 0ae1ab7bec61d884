import QuantumKernel.Library.Transition
import QuantumKernel.Net.Stack

/-! # The ARP table as a map

`arp_add_entry` scans the table three times: for an entry of the address, for a free slot and
for the oldest entry.  `SlotFor` says which slot the scans arrive at.  Whichever it is, the
entry written there is the only one for its address, and so the table stays a partial map
from addresses that loses at most the entry that was in the slot.
-/

namespace QuantumKernel.Net

open Transition SlotArray

/-- The slot that `arp_add_entry` writes. -/
inductive SlotFor (table : Fin 16 → ArpEntry) (ip : UInt32) (i : Fin 16) : Prop
  | updated : (table i).isFor ip = true → SlotFor table ip i
  | inserted : (∀ j, (table j).isFor ip = false) → (table i).valid = false → SlotFor table ip i
  | evicted : (∀ j, (table j).isFor ip = false) → (∀ j, (table j).valid = true) →
      (∀ j, (table i).timestamp ≤ (table j).timestamp) → SlotFor table ip i

/-- No two valid slots hold the same address. -/
def UniqueIps (table : Fin 16 → ArpEntry) : Prop :=
  ∀ i j, (table i).valid = true → (table j).valid = true → (table i).ip = (table j).ip → i = j

variable {n s s' : Stack} {table : Fin 16 → ArpEntry} {ip other : UInt32} {mac mac' : Mac} {i j : Fin 16}
  {e : ArpEntry}

theorem ArpEntry.isFor_iff : e.isFor ip = true ↔ e.valid = true ∧ e.ip = ip := by
  rw [isFor, Bool.and_eq_true, beq_iff_eq]

/-! ## Lookups -/

theorem arpLookup_eq_none : arpLookup n ip = none ↔ ∀ i, (n.arpTable i).isFor ip = false := by
  rw [arpLookup, Option.map_eq_none_iff, findSlot_eq_none]

/-- A lookup finds an entry. -/
theorem arpLookup_entry (found : arpLookup n ip = some mac) :
    ∃ i, (n.arpTable i).isFor ip = true ∧ (n.arpTable i).mac = mac := by
  obtain ⟨i, first, same⟩ := Option.map_eq_some_iff.mp found
  exact ⟨i, findSlot_holds first, same⟩

/-- With unique addresses it does not matter that a lookup stops at the first entry. -/
theorem UniqueIps.arpLookup_eq (unique : UniqueIps n.arpTable) (entry : (n.arpTable i).isFor ip = true) :
    arpLookup n ip = some (n.arpTable i).mac := by
  cases found : arpLookup n ip with
  | none =>
    rw [arpLookup_eq_none.mp found i] at entry
    cases entry
  | some mac =>
    obtain ⟨j, first, rfl⟩ := arpLookup_entry found
    rw [ArpEntry.isFor_iff] at entry first
    rw [unique i j entry.1 first.1 (entry.2.trans first.2.symm)]

/-- A lookup depends on the entries for its address only. -/
theorem arpLookup_congr {m : Stack} (unique : UniqueIps m.arpTable)
    (same : ∀ i, (n.arpTable i).isFor ip = true ∨ (m.arpTable i).isFor ip = true →
      m.arpTable i = n.arpTable i) : arpLookup m ip = arpLookup n ip := by
  cases found : arpLookup n ip with
  | none =>
    rw [arpLookup_eq_none] at found ⊢
    intro i
    refine Bool.eq_false_iff.mpr fun entry => ?_
    rw [same i (Or.inr entry), found i] at entry
    cases entry
  | some mac =>
    obtain ⟨i, entry, rfl⟩ := arpLookup_entry found
    have kept := same i (Or.inl entry)
    rw [← kept] at entry
    rw [unique.arpLookup_eq entry, kept]

/-! ## The scans -/

/-- One round of the loop for the oldest entry keeps the lower of two timestamps. -/
theorem oldest_fold (slots : List (Fin 16)) (start : Fin 16) :
    ∀ j ∈ start :: slots,
      (table (slots.foldl (fun oldest i =>
        if (table i).timestamp < (table oldest).timestamp then i else oldest) start)).timestamp ≤
          (table j).timestamp := by
  induction slots generalizing start with
  | nil => simp
  | cons i rest ih =>
    intro j member
    rw [List.foldl_cons]
    by_cases younger : (table i).timestamp < (table start).timestamp
    · rw [if_pos younger]
      cases member with
      | head => exact UInt32.le_trans (ih i i List.mem_cons_self) (UInt32.le_of_lt younger)
      | tail _ later => exact ih i j later
    · rw [if_neg younger]
      cases member with
      | head => exact ih start start List.mem_cons_self
      | tail _ later =>
        cases later with
        | head => exact UInt32.le_trans (ih start start List.mem_cons_self) (UInt32.not_lt.mp younger)
        | tail _ last => exact ih start j (List.mem_cons_of_mem _ last)

/-- The third scan finds a lowest timestamp. -/
theorem oldestSlot_le (table : Fin 16 → ArpEntry) (j : Fin 16) :
    (table (oldestSlot table)).timestamp ≤ (table j).timestamp := by
  refine oldest_fold _ _ j ?_
  have all := List.mem_finRange j
  rwa [List.finRange_succ] at all

/-! ## The queue leaves the table alone -/

theorem processSlot_arpTable (mac : Mac) (ip : UInt32) (sent : List Frame × Stack) (i : Fin 8) :
    (processSlot mac ip sent i).2.arpTable = sent.2.arpTable := by
  rw [processSlot]
  split
  · rfl
  · rfl

theorem processSlots_arpTable (mac : Mac) (ip : UInt32) (slots : List (Fin 8)) (sent : List Frame × Stack) :
    (slots.foldl (processSlot mac ip) sent).2.arpTable = sent.2.arpTable := by
  induction slots generalizing sent with
  | nil => rfl
  | cons i rest ih => rw [List.foldl_cons, ih, processSlot_arpTable]

theorem ipProcessArpQueue_arpTable (n : Stack) (ip : UInt32) :
    (ipProcessArpQueue n ip).2.arpTable = n.arpTable := by
  rw [ipProcessArpQueue]
  cases arpLookup n ip with
  | none => rfl
  | some mac => exact processSlots_arpTable mac ip _ ([], n)

/-- `arp_add_entry` writes one entry. -/
theorem arpAddEntry_arpTable (n : Stack) (ip : UInt32) (mac : Mac) :
    ∃ i, SlotFor n.arpTable ip i ∧
      (arpAddEntry n ip mac).2.arpTable = Function.update n.arpTable i ⟨ip, mac, n.ticks, true⟩ := by
  rw [arpAddEntry]
  cases known : findSlot fun i => (n.arpTable i).isFor ip with
  | some i =>
    have entry := findSlot_holds known
    refine ⟨i, .updated entry, ?_⟩
    rw [ArpEntry.isFor_iff] at entry
    simp only [← entry.1, ← entry.2]
  | none =>
    rw [findSlot_eq_none] at known
    cases free : findSlot fun i => !(n.arpTable i).valid with
    | some i =>
      have unused := findSlot_holds free
      refine ⟨i, .inserted known ?_, ipProcessArpQueue_arpTable _ ip⟩
      rwa [Bool.not_eq_true'] at unused
    | none =>
      rw [findSlot_eq_none] at free
      refine ⟨oldestSlot n.arpTable, .evicted known ?_ (oldestSlot_le n.arpTable),
        ipProcessArpQueue_arpTable _ ip⟩
      intro j
      have used := free j
      rwa [Bool.not_eq_false'] at used

/-! ## Writing a slot -/

/-- The written entry is the only one for its address. -/
theorem SlotFor.alone (slot : SlotFor table ip i) (unique : UniqueIps table)
    (valid : (table j).valid = true) (same : (table j).ip = ip) : j = i := by
  have entry : (table j).isFor ip = true := ArpEntry.isFor_iff.mpr ⟨valid, same⟩
  cases slot with
  | updated here =>
    rw [ArpEntry.isFor_iff] at here
    exact unique j i valid here.1 (same.trans here.2.symm)
  | inserted none _ =>
    rw [none j] at entry
    cases entry
  | evicted none _ _ =>
    rw [none j] at entry
    cases entry

theorem UniqueIps.update (unique : UniqueIps table) (slot : SlotFor table ip i) (ticks : UInt32) :
    UniqueIps (Function.update table i ⟨ip, mac, ticks, true⟩) := by
  intro j k validJ validK same
  by_cases hereJ : j = i
  · by_cases hereK : k = i
    · rw [hereJ, hereK]
    · rw [hereJ, Function.update_self, Function.update_of_ne hereK] at same
      rw [Function.update_of_ne hereK] at validK
      exact absurd (slot.alone unique validK same.symm) hereK
  · rw [Function.update_of_ne hereJ] at validJ same
    by_cases hereK : k = i
    · rw [hereK, Function.update_self] at same
      exact absurd (slot.alone unique validJ same) hereJ
    · rw [Function.update_of_ne hereK] at validK same
      exact unique j k validJ validK same

theorem UniqueIps.arpAddEntry (unique : UniqueIps n.arpTable) (ip : UInt32) (mac : Mac) :
    UniqueIps (arpAddEntry n ip mac).2.arpTable := by
  obtain ⟨i, slot, table⟩ := arpAddEntry_arpTable n ip mac
  rw [table]
  exact unique.update slot n.ticks

theorem UniqueIps.init (n : Stack) (ip : UInt32) : UniqueIps (arpInit n ip).arpTable :=
  fun _ _ valid => Bool.noConfusion valid

/-- The address is found with the address that it was added with. -/
theorem arpLookup_added (unique : UniqueIps n.arpTable) (ip : UInt32) (mac : Mac) :
    arpLookup (arpAddEntry n ip mac).2 ip = some mac := by
  have unique' := unique.arpAddEntry ip mac
  obtain ⟨i, slot, table⟩ := arpAddEntry_arpTable n ip mac
  have entry : ((arpAddEntry n ip mac).2.arpTable i).isFor ip = true := by
    rw [table, Function.update_self, ArpEntry.isFor_iff]
    exact ⟨rfl, rfl⟩
  rw [unique'.arpLookup_eq entry, table, Function.update_self]

/-- Other addresses keep their entries, unless the entry was in the written slot. -/
theorem arpLookup_kept (unique : UniqueIps n.arpTable) (ne : other ≠ ip)
    (table : (arpAddEntry n ip mac).2.arpTable = Function.update n.arpTable i ⟨ip, mac, n.ticks, true⟩)
    (elsewhere : (n.arpTable i).isFor other = false) :
    arpLookup (arpAddEntry n ip mac).2 other = arpLookup n other := by
  refine arpLookup_congr (unique.arpAddEntry ip mac) fun j entry => ?_
  rw [table] at entry ⊢
  by_cases here : j = i
  · rw [here, Function.update_self, elsewhere] at entry
    cases entry with
    | inl gone => cases gone
    | inr new => exact absurd (ArpEntry.isFor_iff.mp new).2.symm ne
  · exact Function.update_of_ne here _ _

/-- An evicted address is gone. -/
theorem arpLookup_evicted (unique : UniqueIps n.arpTable)
    (table : (arpAddEntry n ip mac).2.arpTable = Function.update n.arpTable i ⟨ip, mac, n.ticks, true⟩)
    (evicted : (n.arpTable i).isFor other = true) (ne : other ≠ ip) :
    arpLookup (arpAddEntry n ip mac).2 other = none := by
  rw [arpLookup_eq_none]
  intro j
  refine Bool.eq_false_iff.mpr fun entry => ?_
  rw [table] at entry
  rw [ArpEntry.isFor_iff] at evicted entry
  by_cases here : j = i
  · rw [here, Function.update_self] at entry
    exact ne entry.2.symm
  · rw [Function.update_of_ne here] at entry
    exact here (unique j i entry.1 evicted.1 (entry.2.trans evicted.2.symm))

/-! ## Runs -/

/-- A call of `arp_add_entry` at some time. -/
structure AddCall where
  ticks : UInt32
  ip : UInt32
  mac : Mac

def Stack.addStep (n : Stack) (call : AddCall) : Option (Unit × Stack) :=
  some ((), (arpAddEntry { n with ticks := call.ticks } call.ip call.mac).2)

theorem UniqueIps.run {calls : List (AddCall × Unit)}
    (run : Run Stack.addStep (fun _ _ => True) s calls s') (unique : UniqueIps s.arpTable) :
    UniqueIps s'.arpTable := by
  refine run.invariant (fun s => UniqueIps s.arpTable) (fun s call _ s' unique _ done => ?_) unique
  cases done
  exact UniqueIps.arpAddEntry (n := { s with ticks := call.ticks }) unique call.ip call.mac

/-- After any additions the table is a map: an addition sets its own address, and takes away at
most one other, the one with the lowest timestamp of a full table. -/
theorem arp_cache_bounded_map (n : Stack) (localIp : UInt32) {calls : List (AddCall × Unit)}
    (run : Run Stack.addStep (fun _ _ => True) (arpInit n localIp) calls s) (call : AddCall) :
    UniqueIps s.arpTable ∧
      ∃ s', s.addStep call = some ((), s') ∧ UniqueIps s'.arpTable ∧
        arpLookup s' call.ip = some call.mac ∧
        ((∀ other, other ≠ call.ip → arpLookup s' other = arpLookup s other) ∨
          ∃ i, (∀ j, (s.arpTable j).valid = true) ∧ arpLookup s call.ip = none ∧
            (∀ j, (s.arpTable i).timestamp ≤ (s.arpTable j).timestamp) ∧
            arpLookup s' (s.arpTable i).ip = none ∧
            ∀ other, other ≠ call.ip → other ≠ (s.arpTable i).ip →
              arpLookup s' other = arpLookup s other) := by
  have unique := UniqueIps.run run (.init n localIp)
  have unique' : UniqueIps { s with ticks := call.ticks }.arpTable := unique
  refine ⟨unique, _, rfl, unique'.arpAddEntry call.ip call.mac, arpLookup_added unique' _ _, ?_⟩
  obtain ⟨i, slot, table⟩ := arpAddEntry_arpTable { s with ticks := call.ticks } call.ip call.mac
  have kept (other : UInt32) (ne : other ≠ call.ip) (elsewhere : (s.arpTable i).isFor other = false) :=
    arpLookup_kept unique' ne table elsewhere
  cases slot with
  | updated here =>
    refine Or.inl fun other ne => kept other ne (Bool.eq_false_iff.mpr fun entry => ne ?_)
    exact (ArpEntry.isFor_iff.mp entry).2.symm.trans (ArpEntry.isFor_iff.mp here).2
  | inserted _ free =>
    refine Or.inl fun other ne => kept other ne (Bool.eq_false_iff.mpr fun entry => ?_)
    exact absurd free ((ArpEntry.isFor_iff.mp entry).1 ▸ Bool.noConfusion)
  | evicted absent full oldest =>
    have entry : (s.arpTable i).isFor (s.arpTable i).ip = true := ArpEntry.isFor_iff.mpr ⟨full i, rfl⟩
    have ne : (s.arpTable i).ip ≠ call.ip := fun same =>
      absurd (absent i) (Bool.eq_false_iff.not.mpr (not_not.mpr (same ▸ entry)))
    refine Or.inr ⟨i, full, arpLookup_eq_none.mpr absent, oldest, arpLookup_evicted unique' table entry ne,
      fun other ne' differ => kept other ne' (Bool.eq_false_iff.mpr fun here => differ ?_)⟩
    exact (ArpEntry.isFor_iff.mp here).2.symm

/-- The seventeenth address takes the place of the first. -/
theorem arp_cache_seventeenth :
    ∃ calls s s', Run Stack.addStep (fun _ _ => True) (arpInit Stack.zero 0) calls s ∧
      (calls.length = 16 ∧ (∀ i, (s.arpTable i).valid = true) ∧ arpLookup s 1 = some broadcast) ∧
      s.addStep ⟨16, 17, broadcast⟩ = some ((), s') ∧ arpLookup s' 17 = some broadcast ∧
      arpLookup s' 1 = none ∧ ∀ other, other ≠ 17 → other ≠ 1 → arpLookup s' other = arpLookup s other := by
  obtain ⟨calls, s, run, full, oldest, evicted⟩ := Run.exists_of_replay Stack.addStep (fun _ _ => True)
    (arpInit Stack.zero 0)
    ((List.range 16).map fun k => ⟨UInt32.ofNat k, UInt32.ofNat (k + 1), broadcast⟩)
    (fun calls s =>
      (calls.length = 16 ∧ (∀ i, (s.arpTable i).valid = true) ∧ arpLookup s 1 = some broadcast) ∧
      (∀ i, (∀ j, (s.arpTable i).timestamp ≤ (s.arpTable j).timestamp) → (s.arpTable i).ip = 1) ∧
      (s.addStep ⟨16, 17, broadcast⟩).all fun result => arpLookup result.2 1 = none) (by decide +kernel)
  obtain ⟨-, s', done, -, found, changes⟩ := arp_cache_bounded_map Stack.zero 0 run ⟨16, 17, broadcast⟩
  rw [done, Option.all_some, decide_eq_true_eq] at evicted
  refine ⟨calls, s, s', run, full, done, found, evicted, ?_⟩
  rcases changes with kept | ⟨i, -, -, least, -, kept⟩
  · exact fun other ne _ => kept other ne
  · rwa [oldest i least] at kept

end QuantumKernel.Net
