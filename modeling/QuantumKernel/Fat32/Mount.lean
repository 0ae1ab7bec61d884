import QuantumKernel.Fat32.DirectorySpec

/-! # Mounting, and the working directory

`fat32_mount` takes the layout of the volume from its first sector.  `fat32_chdir` keeps the
working directory twice: its cluster in `g_current_dir_cluster`, and the names that lead there
from the root in `path_stack`.
-/

namespace QuantumKernel.Fat32

open ByteStore

/-- The fields of `fat32_boot_sector_t` that are read. -/
structure BootRecord where
  bytesPerSector : UInt16
  sectorsPerCluster : UInt8
  reservedSectors : UInt16
  numFats : UInt8
  totalSectors32 : UInt32
  fatSize32 : UInt32
  rootCluster : UInt32
  fsInfo : UInt16

/-- The packed structure at the start of a buffer. -/
def bootRecordAt (buffer : Bytes) : BootRecord where
  bytesPerSector := load16 buffer 11
  sectorsPerCluster := buffer 13
  reservedSectors := load16 buffer 14
  numFats := buffer 16
  totalSectors32 := load32 buffer 32
  fatSize32 := load32 buffer 36
  rootCluster := load32 buffer 44
  fsInfo := load16 buffer 48

/-- `fat32_mount`; `none` stands for the division by zero of a volume without sectors in a
cluster. -/
def fat32Mount (s : Fat32State) : Option (Int32 × Fat32State) :=
  match s.readSectorBuffer 0 with
  | (.ok, s) =>
    let boot := bootRecordAt s.sectorBuffer
    let s := { s with gFs.boot := ⟨boot.fatSize32⟩ }
    if boot.bytesPerSector.toUInt32 ≠ fat32SectorSize then some (-1, s)
    else
      match s.readSectorBuffer boot.fsInfo.toUInt32 with
      | (.ok, s) =>
        let fatBeginLba := boot.reservedSectors.toUInt32
        let clusterBeginLba := fatBeginLba + boot.numFats.toUInt32 * boot.fatSize32
        let s := { s with
          gFs.fsinfo := ⟨load32 s.sectorBuffer 492⟩
          gFs.fatBeginLba := fatBeginLba
          gFs.clusterBeginLba := clusterBeginLba
          gFs.rootDirFirstCluster := boot.rootCluster }
        if boot.rootCluster < 2 then some (-1, s)
        else if boot.sectorsPerCluster = 0 then none
        else
          let sectorsPerCluster := boot.sectorsPerCluster.toUInt32
          some (0, { s with
            gFs.sectorsPerCluster := sectorsPerCluster
            gFs.bytesPerCluster := sectorsPerCluster * fat32SectorSize
            gFs.numFats := boot.numFats
            gFs.totalClusters := (boot.totalSectors32 - clusterBeginLba) / sectorsPerCluster })
      | (_, s) => some (-1, s)
  | (_, s) => some (-1, s)

/-! ## `fat32_chdir` -/

/-- `MAX_PATH_DEPTH`. -/
def maxPathDepth : Nat := 16

/-- `MAX_NAME_LEN`. -/
def maxNameLen : Nat := 12

/-- The driver with `path_stack` and `path_depth`. -/
structure WorkingDirectory where
  fs : Fat32State
  pathStack : Nat → CString
  pathDepth : Nat

/-- `strncpy(path_stack[path_depth], path, MAX_NAME_LEN-1)` and the NUL after it. -/
def clipName (path : CString) : CString :=
  ⟨path.val.take (maxNameLen - 1), fun zero => path.property (List.mem_of_mem_take zero)⟩

/-- `"/"` and `".."`. -/
def rootPath : CString := ⟨[0x2F], by decide⟩
def parentPath : CString := ⟨[0x2E, 0x2E], by decide⟩

/-- The loop of `fat32_chdir` over `path_stack[i]` and the `remaining` names from there on; no
cluster stands for a name that is not found. -/
def resolveLoop (fuel : Nat) (pathStack : Nat → CString) :
    Nat → Nat → Fat32State → UInt32 → Option (Option UInt32 × Fat32State)
  | 0, _, s, cluster => some (some cluster, s)
  | remaining + 1, i, s, cluster => do
    let (found, s) ← fat32FindEntry fuel s cluster (pathStack i)
    match found with
    | none => some (none, s)
    | some found => resolveLoop fuel pathStack remaining (i + 1) s found.entry.firstCluster

/-- `fat32_chdir`. -/
def fat32Chdir (fuel : Nat) (w : WorkingDirectory) (path : CString) : Option (Int32 × WorkingDirectory) :=
  if path.val = rootPath.val then
    some (0, { w with fs.gCurrentDirCluster := w.fs.gFs.rootDirFirstCluster, pathDepth := 0 })
  else if path.val = parentPath.val then
    if 0 < w.pathDepth then do
      let w := { w with pathDepth := w.pathDepth - 1 }
      if w.pathDepth = 0 then
        some (0, { w with fs.gCurrentDirCluster := w.fs.gFs.rootDirFirstCluster })
      else
        let (cluster, s) ← resolveLoop fuel w.pathStack w.pathDepth 0 w.fs w.fs.gFs.rootDirFirstCluster
        match cluster with
        | none => some (-1, { w with fs := s })
        | some cluster => some (0, { w with fs := { s with gCurrentDirCluster := cluster } })
    else some (0, w)
  else do
    let (found, s) ← fat32FindEntry fuel w.fs w.fs.gCurrentDirCluster path
    let w := { w with fs := s }
    match found with
    | none => some (-1, w)
    | some found =>
      if ¬ IsDirectoryAttr found.entry.attr then some (-1, w)
      else
        let w := { w with fs.gCurrentDirCluster := found.entry.firstCluster }
        if w.pathDepth < maxPathDepth then
          some (0, { w with
            pathStack := Function.update w.pathStack w.pathDepth (clipName path)
            pathDepth := w.pathDepth + 1 })
        else some (0, w)

/-! ## Reading a volume that does not change -/

/-- The drive answers every command. -/
def Fat32State.Reliable (s : Fat32State) : Prop := ∀ n, s.ata.outcome n = .ok

/-- `t` differs from `s` in the buffers of the driver and in the working directory only. -/
structure SameVolume (s t : Fat32State) : Prop where
  gFs : t.gFs = s.gFs
  sector : t.ata.sector = s.ata.sector
  outcome : t.ata.outcome = s.ata.outcome

/-- The size of a cluster, as `fat32_mount` computes it. -/
structure Fat32Fs.ClusterSize (g : Fat32Fs) : Prop where
  bytes : g.bytesPerCluster = g.sectorsPerCluster * fat32SectorSize
  small : g.sectorsPerCluster.toNat < 256

variable {s s' t t' : Fat32State} {c cluster : UInt32} {fuel : Nat} {name : ShortName} {w w' : WorkingDirectory}
  {path : CString} {status : Int32} {buffer buffer' : Bytes}

theorem SameVolume.refl (s : Fat32State) : SameVolume s s := ⟨rfl, rfl, rfl⟩

theorem SameVolume.trans {u : Fat32State} (first : SameVolume s t) (second : SameVolume t u) : SameVolume s u :=
  ⟨second.gFs.trans first.gFs, second.sector.trans first.sector, second.outcome.trans first.outcome⟩

theorem SameVolume.symm (same : SameVolume s t) : SameVolume t s :=
  ⟨same.gFs.symm, same.sector.symm, same.outcome.symm⟩

theorem SameVolume.reliable (same : SameVolume s t) (reliable : s.Reliable) : t.Reliable := fun n => by
  rw [same.outcome]
  exact reliable n

/-- What a cluster read leaves in the buffer depends on the volume only. -/
theorem fat32ReadSectors_same (lba : UInt32) (reliable : s.Reliable) (remaining : Nat) (i : UInt32)
    (small : i.toNat + remaining < 256) (same : SameVolume s s') (agree : ∀ k < 512 * i.toNat, s.clusterBuffer k = s'.clusterBuffer k) :
    ∃ t t', fat32ReadSectors lba remaining i s = (0, t) ∧ fat32ReadSectors lba remaining i s' = (0, t') ∧
      SameVolume s t ∧ SameVolume s' t' ∧ t.gCurrentDirCluster = s.gCurrentDirCluster ∧
      t'.gCurrentDirCluster = s'.gCurrentDirCluster ∧
      ∀ k < 512 * (i.toNat + remaining), t.clusterBuffer k = t'.clusterBuffer k := by
  induction remaining generalizing i s s' with
  | zero => exact ⟨s, s', rfl, rfl, .refl s, .refl s', rfl, rfl, agree⟩
  | succ remaining ih =>
    have next : (i + 1).toNat = i.toNat + 1 := by
      rw [UInt32.toNat_add, show (1 : UInt32).toNat = 1 from rfl]
      omega
    have base : (i * fat32SectorSize).toNat = 512 * i.toNat := by
      rw [UInt32.toNat_mul, fat32SectorSize, show (512 : UInt32).toNat = 512 from rfl]
      omega
    let load (s : Fat32State) : Fat32State := { s with
      ata.command := s.ata.command + 1
      clusterBuffer := copy s.clusterBuffer (512 * i.toNat)
        (copy (fun k => s.clusterBuffer (512 * i.toNat + k)) 0 (s.ata.sector (ataProgram (lba + i)).sector) 512) 512 }
    have round (s : Fat32State) (reliable : s.Reliable) :
        fat32ReadSectors lba (remaining + 1) i s = fat32ReadSectors lba remaining (i + 1) (load s) := by
      rw [fat32ReadSectors]
      simp only [ataReadSector, reliable s.ata.command, base, if_true]
      rfl
    have loaded : ∀ k < 512 * (i + 1).toNat, (load s).clusterBuffer k = (load s').clusterBuffer k := by
      intro k bound
      rw [next] at bound
      by_cases low : k < 512 * i.toNat
      · exact (copy_outside (.inl low)).trans ((agree k low).trans (copy_outside (.inl low)).symm)
      · have inside : k - 512 * i.toNat < 0 + 512 := by omega
        refine (copy_inside (by omega) (by omega)).trans ((copy_inside (Nat.zero_le _) inside).trans ?_)
        refine Eq.trans ?_ ((copy_inside (by omega) (by omega)).trans (copy_inside (Nat.zero_le _) inside)).symm
        rw [same.sector]
    have both : SameVolume (load s) (load s') := ⟨same.gFs, same.sector, same.outcome⟩
    have answers : (load s).Reliable := reliable
    obtain ⟨t, t', run, run', keeps, keeps', cwd, cwd', buffers⟩ := ih answers (i + 1) (by omega) both loaded
    refine ⟨t, t', (round s reliable).trans run, (round s' (same.reliable reliable)).trans run',
      ⟨keeps.gFs, keeps.sector, keeps.outcome⟩, ⟨keeps'.gFs, keeps'.sector, keeps'.outcome⟩, cwd, cwd', ?_⟩
    rw [next, Nat.add_right_comm] at buffers
    exact buffers

theorem fat32ReadCluster_same (reliable : s.Reliable) (size : s.gFs.ClusterSize) (same : SameVolume s s') (c : UInt32) :
    ∃ status t t', fat32ReadCluster s c = (status, t) ∧ fat32ReadCluster s' c = (status, t') ∧
      SameVolume s t ∧ SameVolume s' t' ∧ t.gCurrentDirCluster = s.gCurrentDirCluster ∧
      t'.gCurrentDirCluster = s'.gCurrentDirCluster ∧
      (status = 0 → ∀ k < s.gFs.bytesPerCluster.toNat, t.clusterBuffer k = t'.clusterBuffer k) := by
  have address : fat32ClusterToLba s' c = fat32ClusterToLba s c := by
    rw [fat32ClusterToLba, fat32ClusterToLba, same.gFs]
  have bytes : s.gFs.bytesPerCluster.toNat = 512 * s.gFs.sectorsPerCluster.toNat := by
    have small := size.small
    rw [size.bytes, UInt32.toNat_mul, fat32SectorSize, show (512 : UInt32).toNat = 512 from rfl]
    omega
  rw [fat32ReadCluster, fat32ReadCluster, address, same.gFs]
  by_cases none : fat32ClusterToLba s c = 0
  · refine ⟨-1, s, s', if_pos none, if_pos none, .refl s, .refl s', rfl, rfl, fun success => ?_⟩
    exact absurd success (by decide)
  · obtain ⟨t, t', run, run', keeps, keeps', cwd, cwd', buffers⟩ :=
      fat32ReadSectors_same (fat32ClusterToLba s c) reliable s.gFs.sectorsPerCluster.toNat 0
        (by simpa using size.small) same (fun k below => absurd below (Nat.not_lt_zero k))
    refine ⟨0, t, t', (if_neg none).trans run, (if_neg none).trans run', keeps, keeps', cwd, cwd', fun _ k bound => ?_⟩
    rw [bytes] at bound
    exact buffers k (by simpa using bound)

theorem fat32ReadFat_same (reliable : s.Reliable) (same : SameVolume s s') (c : UInt32) :
    ∃ value t t', fat32ReadFat s c = (value, t) ∧ fat32ReadFat s' c = (value, t') ∧
      SameVolume s t ∧ SameVolume s' t' ∧ t.gCurrentDirCluster = s.gCurrentDirCluster ∧
      t'.gCurrentDirCluster = s'.gCurrentDirCluster := by
  rw [fat32ReadFat, fat32ReadFat, same.gFs]
  by_cases outside : c < 2 ∨ s.gFs.totalClusters + 2 ≤ c
  · exact ⟨_, s, s', if_pos outside, if_pos outside, .refl s, .refl s', rfl, rfl⟩
  · rw [if_neg outside, if_neg outside]
    simp only [Fat32State.readSectorBuffer, ataReadSector, reliable s.ata.command,
      same.reliable reliable s'.ata.command]
    have offset : (fat32EntryOffset c).toNat + 4 ≤ 512 := by
      rw [fat32EntryOffset, fat32SectorSize, UInt32.toNat_mod, UInt32.toNat_mul,
        show (512 : UInt32).toNat = 512 from rfl, show (4 : UInt32).toNat = 4 from rfl]
      omega
    have loaded (lba : UInt32) :
        load32 (copy s'.sectorBuffer 0 (s'.ata.sector (ataProgram lba).sector) 512) (fat32EntryOffset c).toNat =
          load32 (copy s.sectorBuffer 0 (s.ata.sector (ataProgram lba).sector) 512) (fat32EntryOffset c).toNat := by
      refine load32_congr fun k bound => ?_
      rw [copy_inside (Nat.zero_le _) (by omega), copy_inside (Nat.zero_le _) (by omega), same.sector]
    rw [loaded]
    exact ⟨_, _, _, rfl, rfl, ⟨rfl, rfl, rfl⟩, ⟨same.gFs.symm ▸ rfl, rfl, rfl⟩, rfl, rfl⟩

theorem scanSlots_congr (stop accept : Fat32Dirent → Bool) (remaining i : Nat)
    (agree : ∀ k < 32 * (i + remaining), buffer k = buffer' k) :
    scanSlots stop accept buffer remaining i = scanSlots stop accept buffer' remaining i := by
  induction remaining generalizing i with
  | zero => rfl
  | succ remaining ih =>
    have entry : direntAt buffer (32 * i) = direntAt buffer' (32 * i) :=
      direntAt_congr fun k small => agree _ (by omega)
    rw [scanSlots, scanSlots, entry, ih (i + 1) fun k bound => agree k (by omega)]

/-- **A lookup depends on the volume only**, and changes nothing but the buffers. -/
theorem fat32FindLoop_same {found : Option FoundEntry} (reliable : s.Reliable) (size : s.gFs.ClusterSize)
    (same : SameVolume s s') (done : fat32FindLoop name fuel s cluster = some (found, t)) :
    SameVolume s t ∧ t.gCurrentDirCluster = s.gCurrentDirCluster ∧
      ∃ t', fat32FindLoop name fuel s' cluster = some (found, t') ∧ SameVolume s' t' ∧
        t'.gCurrentDirCluster = s'.gCurrentDirCluster := by
  induction fuel generalizing s s' cluster with
  | zero => cases done
  | succ fuel ih =>
    obtain ⟨status, s₁, s₁', read, read', keeps, keeps', cwd, cwd', buffers⟩ :=
      fat32ReadCluster_same reliable size same cluster
    rw [fat32FindLoop, read] at done
    rw [fat32FindLoop, read', same.gFs]
    by_cases inside : 2 ≤ cluster ∧ cluster < fat32EocMin ∧ cluster < s.gFs.totalClusters + 2
    · rw [if_pos inside] at done ⊢
      simp only at done ⊢
      by_cases failed : status ≠ 0
      · rw [if_pos failed] at done ⊢
        cases done
        exact ⟨keeps, cwd, s₁', rfl, keeps', cwd'⟩
      · rw [if_neg failed] at done ⊢
        have entries : 32 * (0 + entriesPerCluster s.gFs) ≤ s.gFs.bytesPerCluster.toNat := by
          rw [entriesPerCluster, sizeofDirent, UInt32.toNat_div, show (32 : UInt32).toNat = 32 from rfl]
          omega
        -- both buffers hold the cluster, so both scans stop at the same slot
        have agree := buffers (not_not.mp failed)
        have scan := scanSlots_congr atEnd (named name) (entriesPerCluster s.gFs) 0
          fun k bound => agree k (by omega)
        rw [keeps'.gFs, same.gFs, ← scan]
        rw [keeps.gFs] at done
        cases outcome : scanSlots atEnd (named name) s₁.clusterBuffer (entriesPerCluster s.gFs) 0 with
        | stopped =>
          rw [outcome] at done
          cases done
          exact ⟨keeps, cwd, s₁', rfl, keeps', cwd'⟩
        | found i =>
          have bound : i < entriesPerCluster s.gFs := by
            have below := scanSlots_found_lt outcome
            omega
          have entry : direntAt s₁.clusterBuffer (32 * i) = direntAt s₁'.clusterBuffer (32 * i) :=
            direntAt_congr fun k small => agree (32 * i + k) (by omega)
          rw [outcome] at done
          simp only [entry] at done ⊢
          cases done
          exact ⟨keeps, cwd, s₁', rfl, keeps', cwd'⟩
        | exhausted =>
          rw [outcome] at done
          simp only at done ⊢
          obtain ⟨next, s₂, s₂', fat, fat', keeps₂, keeps₂', cwd₂, cwd₂'⟩ :=
            fat32ReadFat_same (keeps.reliable reliable) (keeps.symm.trans (same.trans keeps')) cluster
          rw [fat] at done
          rw [fat']
          have sofar := keeps.trans keeps₂
          obtain ⟨keeps₃, cwd₃, t', run, keeps₃', cwd₃'⟩ := ih (sofar.reliable reliable) (by rwa [sofar.gFs])
            (sofar.symm.trans (same.trans (keeps'.trans keeps₂'))) done
          exact ⟨sofar.trans keeps₃, cwd₃.trans (cwd₂.trans cwd), t', run, (keeps'.trans keeps₂').trans keeps₃',
            cwd₃'.trans (cwd₂'.trans cwd')⟩
    · rw [if_neg inside] at done ⊢
      cases done
      exact ⟨.refl _, rfl, s', rfl, .refl s', rfl⟩

end QuantumKernel.Fat32
