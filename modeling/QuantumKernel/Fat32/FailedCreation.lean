import QuantumKernel.Fat32.DirectoryMap

/-! # A creation that fails

`fat32_open` and `fat32_mkdir` allocate a cluster before they know whether the directory
has room for the entry.  When there is none, the cluster goes back, and the volume is
what it was.
-/

namespace QuantumKernel.Fat32

open ByteStore LinkedTable

/-- What the driver reads of the volume, entry by entry and cluster by cluster, is the same. -/
structure VolumeKept (s s' : Fat32State) : Prop where
  entries : ∀ c, (fat32ReadFat s' c).1 = (fat32ReadFat s c).1
  clusters : ∀ c, s.gFs.InRange c → SameCluster s s' c

variable {s s' : Fat32State} {v : Volume} {l : List UInt32} {path : CString} {file file' : Fat32File}
  {flags : UInt8} {fuel : Nat}

theorem Stores.volumeKept (before : Stores s.gFs s.gCurrentDirCluster v s)
    (after : Stores s.gFs s.gCurrentDirCluster v s') : VolumeKept s s' where
  entries := fun c => (after.readFat_eq c).trans (before.readFat_eq c).symm
  clusters := fun _ inRange => before.sameCluster after inRange rfl

/-! ## Names -/

theorem toUpper_eq_mark {c : UInt8} (mark : toUpper c = 0xE5) : c = 0xE5 :=
  toUpper_eq_of_not_capital mark (by decide)

/-- A short name starts with the mark of a deleted entry only if the path does. -/
theorem fat32ToShortName_ne_mark (first : path.val.head? ≠ some 0xE5) :
    fat32ToShortName path 0 ≠ 0xE5 := by
  obtain ⟨chars, noZero⟩ := path
  cases chars with
  | nil =>
    change (0x20 : UInt8) ≠ 0xE5
    decide
  | cons c rest =>
    have notMark : c ≠ 0xE5 := fun same => first (congrArg some same)
    simp only [fat32ToShortName]
    split
    · exact fun mark => notMark (toUpper_eq_mark mark)
    · simp

/-! ## The calls -/

theorem fat32Mkdir_failure (enough : 4294967296 ≤ fuel) (chain : FatChain s.gFs v s.gCurrentDirCluster l)
    (stores : Stores s.gFs s.gCurrentDirCluster v s) (failed : fat32Mkdir fuel s path = some (-1, s')) :
    Stores s.gFs s.gCurrentDirCluster v s' := by
  rcases fat32Mkdir_spec path enough chain stores with ⟨t, run, kept, -⟩ | ⟨n, t, -, -, -, -, -, -, run, -⟩
  · rw [failed] at run
    cases run
    exact kept
  · rw [failed] at run
    exact absurd (congrArg (Option.map Prod.fst) run) (by simp)

theorem fat32Open_failure (enough : 4294967296 ≤ fuel) (wellFormed : WellFormed s.gFs s.gCurrentDirCluster v l)
    (stores : Stores s.gFs s.gCurrentDirCluster v s) (first : path.val.head? ≠ some 0xE5)
    (failed : fat32Open fuel s file (some path) flags = some (-1, file', s')) :
    Stores s.gFs s.gCurrentDirCluster v s' := by
  have chain := wellFormed.chain
  -- a call that returned 0 did not fail
  have succeeded {f : Fat32File} {t : Fat32State}
      (run : fat32Open fuel s file (some path) flags = some (0, f, t)) : False :=
    absurd (congrArg (Option.map Prod.fst) (failed.symm.trans run)) (by simp)
  cases found : v.lookup (s.gFs.dirSlots l) (fat32ToShortName path) with
  | some σ =>
    by_cases keeps : hasFlag flags fat32OTrunc = false ∨ (v.dirent σ).firstCluster = 0
    · obtain ⟨t, run, -⟩ := fat32Open_found file enough chain found keeps stores
      exact (succeeded run).elim
    · obtain ⟨trunc, nonempty⟩ := not_or.mp keeps
      obtain ⟨member, live, -⟩ := Volume.lookup_some found
      obtain ⟨m, owned, -⟩ := (wellFormed.entry σ member live).resolve_left nonempty
      obtain ⟨t, run, -⟩ := fat32Open_truncates file enough chain found (by simpa using trunc) owned stores
      exact (succeeded run).elim
  | none =>
    by_cases creat : hasFlag flags fat32OCreat = true
    · have absent := fun τ => Volume.lookup_none wellFormed.ends found (σ := τ)
      rcases fat32Open_creates file enough chain absent creat stores with
        ⟨t, run, kept, -⟩ | ⟨n, t, v', l', σ, -, -, -, ⟨-, run, -⟩ | ⟨mark, -, -⟩⟩
      · rw [failed] at run
        cases run
        exact kept
      · exact (succeeded run).elim
      · exact absurd mark (fat32ToShortName_ne_mark first)
    · obtain ⟨t, run, kept⟩ := fat32Open_missing file enough chain found (by simpa using creat) stores
      rw [failed] at run
      cases run
      exact kept

/-- **A failed creation leaves the volume untouched.**  On a mounted volume with a
well-formed current directory and for a path that does not start with the mark of a
deleted entry: when `fat32_open` or `fat32_mkdir` returns -1, every FAT entry and every
byte of every cluster reads as before the call. -/
theorem failed_creation_keeps_volume (enough : 4294967296 ≤ fuel) (mounted : Mounted s)
    (wellFormed : WellFormed s.gFs s.gCurrentDirCluster s.volume l)
    (first : path.val.head? ≠ some 0xE5) :
    (∀ file flags file' s', fat32Open fuel s file (some path) flags = some (-1, file', s') →
      VolumeKept s s') ∧
    ∀ s', fat32Mkdir fuel s path = some (-1, s') → VolumeKept s s' := by
  have stores := Stores.of_geometry mounted.geometry mounted.drive
  refine ⟨fun file flags file' s' failed => ?_, fun s' failed => ?_⟩
  · exact stores.volumeKept (fat32Open_failure enough wellFormed stores first failed)
  · exact stores.volumeKept (fat32Mkdir_failure enough wellFormed.chain stores failed)

/-- A full root directory on a volume with a single free cluster. -/
def crowdedDrive : Nat → Bytes :=
  smallDrive (fun c => if c = 9 then fat32FreeCluster else fat32EocMax) fun c k =>
    if c = 2 then letterEntry (0x41 + UInt8.ofNat (k / 32)) 0 (k % 32) else 0

theorem crowdedDrive_wellFormed : WellFormed (mountedOn smallFs crowdedDrive).gFs
    (mountedOn smallFs crowdedDrive).gCurrentDirCluster (mountedOn smallFs crowdedDrive).volume [2] :=
  .of_unused smallFs_geometry (.last (by decide) (by decide +kernel)) (by decide +kernel)
    (by decide +kernel)

/-- The free cluster is allocated for the new directory and given back, because the
root directory cannot grow. -/
theorem failed_creation_keeps_volume_crowded :
    ∃ s', fat32Mkdir 4294967296 (mountedOn smallFs crowdedDrive) (letterPath 0x71 (by decide)) =
        some (-1, s') ∧
      VolumeKept (mountedOn smallFs crowdedDrive) s' := by
  have failed : (fat32Mkdir 4294967296 (mountedOn smallFs crowdedDrive)
      (letterPath 0x71 (by decide))).map (fun result => result.1) = some (-1) := by
    decide +kernel
  obtain ⟨⟨status, s'⟩, run, rfl⟩ := Option.map_eq_some_iff.mp failed
  exact ⟨s', run, (failed_creation_keeps_volume (by decide) ⟨smallFs_geometry, fun _ => rfl⟩
    crowdedDrive_wellFormed (by decide)).2 s' run⟩

end QuantumKernel.Fat32
