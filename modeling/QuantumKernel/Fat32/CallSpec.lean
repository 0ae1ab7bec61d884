import QuantumKernel.Fat32.DirectoryEdits
import QuantumKernel.Fat32.FreeSpace

/-! # Open, close, mkdir and unlink

The specifications of the calls that change a directory, over volumes.  Each theorem
covers one outcome of a call: which entry was found or inserted, and which cluster
chain was allocated or given up.
-/

namespace QuantumKernel.Fat32

open ByteStore LinkedTable

/-- The slot a handle remembers. -/
def Fat32File.slot (file : Fat32File) : Slot := (file.dirCluster, file.dirEntryOffset)

/-- The handle `fat32_open` fills in for an entry. -/
def handleFor (entry : Fat32Dirent) (σ : Slot) (flags : UInt8) : Fat32File :=
  finishOpen { Fat32File.zero with
    dirCluster := σ.1
    dirEntryOffset := σ.2
    firstCluster := entry.firstCluster
    currentCluster := entry.firstCluster
    fileSize := entry.fileSize
    attr := entry.attr } flags

/-- The handle for an entry whose clusters were freed by `FAT32_O_TRUNC`. -/
def truncatedHandle (entry : Fat32Dirent) (σ : Slot) (flags : UInt8) : Fat32File :=
  finishOpen { Fat32File.zero with
    dirCluster := σ.1
    dirEntryOffset := σ.2
    firstCluster := 0
    currentCluster := 0
    fileSize := 0
    attr := entry.attr } flags

variable {g : Fat32Fs} {cwd : UInt32} {v v' : Volume} {s : Fat32State} {n : UInt32}
  {l l' m : List UInt32} {σ : Slot} {path : CString} {flags : UInt8} {file : Fat32File} {fuel : Nat}

@[simp] theorem handleFor_slot (entry : Fat32Dirent) (σ : Slot) (flags : UInt8) :
    (handleFor entry σ flags).slot = σ := rfl
@[simp] theorem handleFor_isOpen (entry : Fat32Dirent) (σ : Slot) (flags : UInt8) :
    (handleFor entry σ flags).isOpen = true := rfl
@[simp] theorem handleFor_flags (entry : Fat32Dirent) (σ : Slot) (flags : UInt8) :
    (handleFor entry σ flags).flags = flags := rfl
@[simp] theorem handleFor_firstCluster (entry : Fat32Dirent) (σ : Slot) (flags : UInt8) :
    (handleFor entry σ flags).firstCluster = entry.firstCluster := rfl
@[simp] theorem handleFor_fileSize (entry : Fat32Dirent) (σ : Slot) (flags : UInt8) :
    (handleFor entry σ flags).fileSize = entry.fileSize := rfl
@[simp] theorem handleFor_attr (entry : Fat32Dirent) (σ : Slot) (flags : UInt8) :
    (handleFor entry σ flags).attr = entry.attr := rfl
@[simp] theorem truncatedHandle_slot (entry : Fat32Dirent) (σ : Slot) (flags : UInt8) :
    (truncatedHandle entry σ flags).slot = σ := rfl
@[simp] theorem truncatedHandle_isOpen (entry : Fat32Dirent) (σ : Slot) (flags : UInt8) :
    (truncatedHandle entry σ flags).isOpen = true := rfl
@[simp] theorem truncatedHandle_flags (entry : Fat32Dirent) (σ : Slot) (flags : UInt8) :
    (truncatedHandle entry σ flags).flags = flags := rfl
@[simp] theorem truncatedHandle_firstCluster (entry : Fat32Dirent) (σ : Slot) (flags : UInt8) :
    (truncatedHandle entry σ flags).firstCluster = 0 := rfl
@[simp] theorem truncatedHandle_fileSize (entry : Fat32Dirent) (σ : Slot) (flags : UInt8) :
    (truncatedHandle entry σ flags).fileSize = 0 := rfl

/-! ## `fat32_close` -/

theorem fat32Close_closed (closed : file.isOpen = false) : fat32Close s file = (-1, file, s) := by
  rw [fat32Close, if_pos (by simp [closed])]

theorem fat32Close_spec (chain : FatChain g v cwd l) (opened : file.isOpen = true)
    (member : file.slot ∈ g.dirSlots l) (h : Stores g cwd v s) :
    ∃ s', fat32Close s file = (0, { file with isOpen := false }, s') ∧
      Stores g cwd (v.closeAt file.slot file) s' := by
  have inRange := chain.cell_of_mem _ (mem_dirSlots.mp member).1
  obtain ⟨s₁, s₂, read, write, stores⟩ := editCluster_spec h inRange
    (closeEntry_local file.slot.2.toNat file) (h.geometry.slot_inside member).1
  refine ⟨s₂, ?_, stores⟩
  have readFile : fat32ReadCluster s file.dirCluster = (0, s₁) := read
  have writeFile : fat32WriteCluster { s₁ with
      clusterBuffer := closeEntry s₁.clusterBuffer file.dirEntryOffset.toNat file }
      file.dirCluster = (0, s₂) := write
  rw [fat32Close, if_neg (not_not.mpr opened), readFile]
  simp only [ne_eq, not_true_eq_false, if_false, writeFile]

/-! ## `fat32_unlink` -/

theorem fat32Unlink_missing (enough : 4294967296 ≤ fuel) (chain : FatChain g v cwd l)
    (missing : v.lookup (g.dirSlots l) (fat32ToShortName path) = none) (h : Stores g cwd v s) :
    ∃ s', fat32Unlink fuel s path = some (-1, s') ∧ Stores g cwd v s' := by
  have short := FatChain.length_lt h.geometry chain
  obtain ⟨s', find, stores⟩ := fat32FindEntry_spec path (by omega : _ < fuel) chain h
  refine ⟨s', ?_, stores⟩
  rw [missing] at find
  simp only [fat32Unlink, h.current, find, Option.map_none, Option.bind_eq_bind, Option.bind_some]

/-- Deleting an entry, once its clusters are free. -/
theorem eraseEntry_spec (chain : FatChain g v cwd l) (member : σ ∈ g.dirSlots l)
    (h : Stores g cwd v s) :
    ∃ s₁ s₂, fat32ReadCluster s σ.1 = (0, s₁) ∧
      fat32WriteCluster { s₁ with clusterBuffer := fill s₁.clusterBuffer σ.2.toNat 0xE5 1 } σ.1 =
        (0, s₂) ∧
      Stores g cwd (v.eraseAt σ) s₂ :=
  editCluster_spec h (chain.cell_of_mem _ (mem_dirSlots.mp member).1)
    (unlinkEntry_local σ.2.toNat) (h.geometry.slot_inside member).1

/-- The entry owns no cluster. -/
theorem fat32Unlink_empty (enough : 4294967296 ≤ fuel) (chain : FatChain g v cwd l)
    (found : v.lookup (g.dirSlots l) (fat32ToShortName path) = some σ)
    (empty : (v.dirent σ).firstCluster = 0) (h : Stores g cwd v s) :
    ∃ s', fat32Unlink fuel s path = some (0, s') ∧ Stores g cwd (v.eraseAt σ) s' := by
  have short := FatChain.length_lt h.geometry chain
  obtain ⟨s₁, find, stores₁⟩ := fat32FindEntry_spec path (by omega : _ < fuel) chain h
  obtain ⟨s₂, s₃, read, write, stores₃⟩ := eraseEntry_spec chain (Volume.lookup_some found).1 stores₁
  refine ⟨s₃, ?_, stores₃⟩
  rw [found] at find
  have small : ¬ 2 ≤ (v.dirent σ).firstCluster := by rw [empty]; decide
  simp only [fat32Unlink, h.current, find, Option.map_some, Option.bind_eq_bind, Option.bind_some,
    if_neg small, read, ne_eq, not_true_eq_false, if_false, write]

/-- The chain of the entry is given up. -/
theorem fat32Unlink_chain (enough : 4294967296 ≤ fuel) (chain : FatChain g v cwd l)
    (found : v.lookup (g.dirSlots l) (fat32ToShortName path) = some σ)
    (owned : FatChain g v (v.dirent σ).firstCluster m) (apart : l.Disjoint m)
    (h : Stores g cwd v s) :
    ∃ s', fat32Unlink fuel s path = some (0, s') ∧
      Stores g cwd ((v.freeAll m).eraseAt σ) s' := by
  have short := FatChain.length_lt h.geometry chain
  have shortM := FatChain.length_lt h.geometry owned
  have inRange := owned.cell_of_mem _ owned.head_mem
  obtain ⟨s₁, find, stores₁⟩ := fat32FindEntry_spec path (by omega : _ < fuel) chain h
  obtain ⟨s₂, free, stores₂⟩ := fat32FreeClusterChain_spec (by omega : _ < fuel) owned stores₁
  have kept : FatChain g (v.freeAll m) cwd l := by
    refine chain.congr fun c member => ?_
    rw [Volume.freeAll]
    simp only [if_neg (fun inM => apart member inM)]
  obtain ⟨s₃, s₄, read, write, stores₄⟩ :=
    eraseEntry_spec kept (Volume.lookup_some found).1 stores₂
  refine ⟨s₄, ?_, stores₄⟩
  rw [found] at find
  simp only [fat32Unlink, h.current, find, Option.map_some, Option.bind_eq_bind, Option.bind_some,
    if_pos inRange.two_le, free, read, ne_eq, not_true_eq_false, if_false, write]

/-! ## `fat32_open` of an existing file -/

theorem fat32Open_found (file : Fat32File) (enough : 4294967296 ≤ fuel) (chain : FatChain g v cwd l)
    (found : v.lookup (g.dirSlots l) (fat32ToShortName path) = some σ)
    (keeps : hasFlag flags fat32OTrunc = false ∨ (v.dirent σ).firstCluster = 0)
    (h : Stores g cwd v s) :
    ∃ s', fat32Open fuel s file (some path) flags = some (0, handleFor (v.dirent σ) σ flags, s') ∧
      Stores g cwd v s' := by
  have short := FatChain.length_lt h.geometry chain
  obtain ⟨s₁, find, stores₁⟩ := fat32FindEntry_spec path (by omega : _ < fuel) chain h
  refine ⟨s₁, ?_, stores₁⟩
  rw [found] at find
  have noFree : ¬ (hasFlag flags fat32OTrunc = true ∧ 2 ≤ (v.dirent σ).firstCluster) := by
    rintro ⟨trunc, large⟩
    rcases keeps with off | empty
    · rw [off] at trunc
      cases trunc
    · rw [empty] at large
      exact absurd large (by decide)
  simp only [fat32Open, h.current, find, Option.map_some, Option.bind_eq_bind, Option.bind_some,
    if_neg noFree]
  rfl

theorem fat32Open_truncates (file : Fat32File) (enough : 4294967296 ≤ fuel) (chain : FatChain g v cwd l)
    (found : v.lookup (g.dirSlots l) (fat32ToShortName path) = some σ)
    (trunc : hasFlag flags fat32OTrunc = true) (owned : FatChain g v (v.dirent σ).firstCluster m)
    (h : Stores g cwd v s) :
    ∃ s', fat32Open fuel s file (some path) flags =
        some (0, truncatedHandle (v.dirent σ) σ flags, s') ∧
      Stores g cwd (v.freeAll m) s' := by
  have short := FatChain.length_lt h.geometry chain
  have shortM := FatChain.length_lt h.geometry owned
  have inRange := owned.cell_of_mem _ owned.head_mem
  obtain ⟨s₁, find, stores₁⟩ := fat32FindEntry_spec path (by omega : _ < fuel) chain h
  obtain ⟨s₂, free, stores₂⟩ := fat32FreeClusterChain_spec (by omega : _ < fuel) owned stores₁
  refine ⟨s₂, ?_, stores₂⟩
  rw [found] at find
  have frees : hasFlag flags fat32OTrunc = true ∧ 2 ≤ (v.dirent σ).firstCluster :=
    ⟨trunc, inRange.two_le⟩
  simp only [fat32Open, h.current, find, Option.map_some, Option.bind_eq_bind, Option.bind_some,
    if_pos frees, free]
  rfl

theorem fat32Open_missing (file : Fat32File) (enough : 4294967296 ≤ fuel) (chain : FatChain g v cwd l)
    (missing : v.lookup (g.dirSlots l) (fat32ToShortName path) = none)
    (noCreat : hasFlag flags fat32OCreat = false) (h : Stores g cwd v s) :
    ∃ s', fat32Open fuel s file (some path) flags = some (-1, Fat32File.zero, s') ∧
      Stores g cwd v s' := by
  have short := FatChain.length_lt h.geometry chain
  obtain ⟨s₁, find, stores₁⟩ := fat32FindEntry_spec path (by omega : _ < fuel) chain h
  refine ⟨s₁, ?_, stores₁⟩
  rw [missing] at find
  simp only [fat32Open, h.current, find, Option.map_none, Option.bind_eq_bind, Option.bind_some,
    noCreat, Bool.false_eq_true, not_false_eq_true, if_true]

/-! ## Creation -/

/-- Only letters change, and they become capitals. -/
theorem toUpper_eq_of_not_capital {c d : UInt8} (same : toUpper c = d) (notCapital : d < 0x41 ∨ 0x5A < d) : c = d := by
  rw [toUpper] at same
  split at same
  · rename_i lower
    have low := UInt8.le_iff_toNat_le.mp lower.1
    have high := UInt8.le_iff_toNat_le.mp lower.2
    have value := UInt8.toNat_sub_of_le c 32 (UInt8.le_trans (by decide) lower.1)
    rw [same] at value
    simp only [UInt8.lt_iff_toNat_lt, UInt8.reduceToNat] at notCapital value low high
    omega
  · exact same

theorem toUpper_ne_zero {c : UInt8} (nonzero : c ≠ 0) : toUpper c ≠ 0 := fun zero =>
  nonzero (toUpper_eq_of_not_capital zero (by decide))

/-- A path never becomes a name that marks the end of a directory. -/
theorem fat32ToShortName_zero_ne (path : CString) : fat32ToShortName path 0 ≠ 0 := by
  obtain ⟨chars, noZero⟩ := path
  cases chars with
  | nil =>
    change (0x20 : UInt8) ≠ 0
    decide
  | cons c rest =>
    have nonzero : c ≠ 0 := fun zero => noZero (by rw [zero]; exact List.mem_cons_self)
    simp only [fat32ToShortName]
    split
    · exact toUpper_ne_zero nonzero
    · simp

theorem newEntry_not_end (path : CString) (attr : UInt8) (first : UInt32) :
    ¬ (newEntry (fat32ToShortName path) attr first).IsEnd := fat32ToShortName_zero_ne path

/-- A new entry is live unless its name starts with the mark of a deleted entry. -/
theorem newEntry_live_iff (path : CString) (attr : UInt8) (notLfn : attr ≠ fat32AttrLfn)
    (first : UInt32) :
    (newEntry (fat32ToShortName path) attr first).IsLive ↔ fat32ToShortName path 0 ≠ 0xE5 :=
  ⟨fun live => live.2.1, fun notDeleted => ⟨newEntry_not_end path attr first, notDeleted, notLfn⟩⟩

/-- The volume on which a creation starts: the new entry's cluster is already taken. -/
theorem fresh_directory (geo : Geometry g) (chain : FatChain g v cwd l) (free : v.fat n = fat32FreeCluster) :
    FatChain g (v.setFat n fat32EocMax) cwd l ∧ n ∉ l := by
  have notIn : n ∉ l := fun member => FatChain.ne_free geo chain n member free
  refine ⟨chain.congr fun c member => ?_, notIn⟩
  rw [Volume.setFat_fat, Function.update_of_ne]
  exact fun same => notIn (same ▸ member)

theorem fat32Mkdir_spec (path : CString) (enough : 4294967296 ≤ fuel) (chain : FatChain g v cwd l)
    (h : Stores g cwd v s) :
    (∃ s', fat32Mkdir fuel s path = some (-1, s') ∧ Stores g cwd v s' ∧ (v.freeClusters g).card ≤ 1) ∨
    ∃ n s' v' l' σ, g.InRange n ∧ v.fat n = fat32FreeCluster ∧
      Inserted g (v.setFat n fat32EocMax) v' cwd l l' σ
        (newEntry (fat32ToShortName path) fat32AttrDirectory n) ∧
      fat32Mkdir fuel s path = some (0, s') ∧ Stores g cwd (v'.setData n fun _ => 0) s' := by
  have short := FatChain.length_lt h.geometry chain
  rw [fat32Mkdir]
  rcases fat32AllocCluster_spec h with ⟨s₁, alloc, stores₁, full⟩ | ⟨n, s₁, alloc, inRange, free, stores₁⟩
  · exact Or.inl ⟨s₁, by simp only [alloc, if_true], stores₁,
      (full.card_freeClusters h.geometry.fats).trans_le (Nat.zero_le 1)⟩
  · have fresh := (fresh_directory h.geometry chain free).1
    simp only [alloc, if_neg inRange.ne_zero, stores₁.current]
    rcases fat32CreateEntry_spec path fat32AttrDirectory n (by omega : _ < fuel) fresh stores₁ with
      ⟨s₂, create, stores₂, full⟩ | ⟨s₂, v', l', σ, create, stores₂, inserted⟩
    · obtain ⟨s₃, undo, stores₃⟩ := fat32FreeClusterChain_spec
        (by simp only [List.length_singleton]; omega : _ < fuel) (fresh_chain inRange) stores₂
      rw [freeAll_fresh free] at stores₃
      refine Or.inl ⟨s₃, ?_, stores₃, full.card_le_one h.geometry.fats (by decide)⟩
      simp only [create, Option.bind_eq_bind, Option.bind_some, undo]
      rfl
    · obtain ⟨s₃, zero, stores₃, -⟩ := fat32WriteCluster_spec
        (stores₂.withBuffer (fill s₂.clusterBuffer 0 0 s₂.gFs.bytesPerCluster.toNat)) inRange
      have blank : g.clip (fill s₂.clusterBuffer 0 0 s₂.gFs.bytesPerCluster.toNat) = fun _ => 0 := by
        rw [stores₂.field_bytes]
        exact Fat32Fs.clip_blank _
      simp only [blank] at stores₃
      refine Or.inr ⟨n, s₃, v', l', σ, inRange, free, inserted, ?_, stores₃⟩
      simp only [create, Option.bind_eq_bind, Option.bind_some, ne_eq, not_true_eq_false, if_false,
        zero]

/-- `fat32_open` of an absent name with `FAT32_O_CREAT`.  A name starting with the mark of
a deleted entry cannot be found again, so its cluster is released and the call fails. -/
theorem fat32Open_creates (file : Fat32File) (enough : 4294967296 ≤ fuel) (chain : FatChain g v cwd l)
    (absent : ∀ τ, ¬ v.Names (g.dirSlots l) (fat32ToShortName path) τ)
    (creat : hasFlag flags fat32OCreat = true) (h : Stores g cwd v s) :
    (∃ s', fat32Open fuel s file (some path) flags = some (-1, Fat32File.zero, s') ∧
      Stores g cwd v s' ∧ (v.freeClusters g).card ≤ 1) ∨
    ∃ n s' v' l' σ, g.InRange n ∧ v.fat n = fat32FreeCluster ∧
      Inserted g (v.setFat n fat32EocMax) v' cwd l l' σ
        (newEntry (fat32ToShortName path) fat32AttrArchive n) ∧
      (fat32ToShortName path 0 ≠ 0xE5 ∧
        fat32Open fuel s file (some path) flags = some (0,
          handleFor (newEntry (fat32ToShortName path) fat32AttrArchive n) σ flags, s') ∧
        Stores g cwd v' s' ∨
      fat32ToShortName path 0 = 0xE5 ∧
        fat32Open fuel s file (some path) flags = some (-1, Fat32File.zero, s') ∧
        Stores g cwd (v'.freeAll [n]) s') := by
  have short := FatChain.length_lt h.geometry chain
  obtain ⟨s₁, find, stores₁⟩ := fat32FindEntry_spec path (by omega : _ < fuel) chain h
  rw [Volume.lookup_absent absent] at find
  simp only [fat32Open, h.current, find, Option.map_none, Option.bind_eq_bind, Option.bind_some,
    creat, not_true_eq_false, if_false]
  rcases fat32AllocCluster_spec stores₁ with
    ⟨s₂, alloc, stores₂, full⟩ | ⟨n, s₂, alloc, inRange, free, stores₂⟩
  · exact Or.inl ⟨s₂, by simp only [alloc, if_true], stores₂,
      (full.card_freeClusters h.geometry.fats).trans_le (Nat.zero_le 1)⟩
  · obtain ⟨fresh, notIn⟩ := fresh_directory h.geometry chain free
    simp only [alloc, if_neg inRange.ne_zero]
    rcases fat32CreateEntry_spec path fat32AttrArchive n (by omega : _ < fuel) fresh stores₂ with
      ⟨s₃, create, stores₃, full⟩ | ⟨s₃, v', l', σ, create, stores₃, inserted⟩
    · obtain ⟨s₄, undo, stores₄⟩ := fat32FreeClusterChain_spec
        (by simp only [List.length_singleton]; omega : _ < fuel) (fresh_chain inRange) stores₃
      rw [freeAll_fresh free] at stores₄
      refine Or.inl ⟨s₄, ?_, stores₄, full.card_le_one h.geometry.fats (by decide)⟩
      simp only [create, Option.bind_some, undo]
      rfl
    · have longer : l'.length < 268435447 := FatChain.length_lt h.geometry inserted.grown.chain
      obtain ⟨s₄, find', stores₄⟩ := fat32FindEntry_spec path (by omega : _ < fuel)
        inserted.grown.chain stores₃
      by_cases dead : fat32ToShortName path 0 = 0xE5
      · -- the first character marks the new entry as deleted, so it is not found again
        have notLive : ¬ (newEntry (fat32ToShortName path) fat32AttrArchive n).IsLive :=
          fun live => live.2.1 dead
        rw [inserted.lookup_dead notLive absent] at find'
        -- the cluster is given back
        have own : FatChain g v' n [n] :=
          (inserted.grown.other_chain h.geometry (fresh_chain (v := v) inRange)
            (List.singleton_disjoint.mpr notIn)).1
        obtain ⟨s₅, undo, stores₅⟩ := fat32FreeClusterChain_spec
          (by simp only [List.length_singleton]; omega : _ < fuel) own stores₄
        refine Or.inr ⟨n, s₅, v', l', σ, inRange, free, inserted, Or.inr ⟨dead, ?_, stores₅⟩⟩
        simp only [create, Option.bind_some, ne_eq, not_true_eq_false, if_false, find',
          Option.map_none, undo]
      · have live : (newEntry (fat32ToShortName path) fat32AttrArchive n).IsLive :=
          (newEntry_live_iff path _ (by decide) n).mpr dead
        have located : v'.lookup (g.dirSlots l') (fat32ToShortName path) = some σ :=
          inserted.lookup_new live rfl absent
        rw [located] at find'
        refine Or.inr ⟨n, s₄, v', l', σ, inRange, free, inserted, Or.inl ⟨dead, ?_, stores₄⟩⟩
        simp only [create, Option.bind_some, ne_eq, not_true_eq_false, if_false, find',
          Option.map_some]
        simp only [handleFor, newEntry_firstCluster]
        rfl

end QuantumKernel.Fat32
