import QuantumKernel.Fat32.CallSpec

/-! # A drive that fails

`OnDisk` is `Stores` without the promise that the drive answers.  A command that fails moves no
data, so each function of `Fat.lean` leaves the volume as it was or changes it by what its
commands did before the first failure.
-/

namespace QuantumKernel.Fat32

open ByteStore LinkedTable

/-- The driver is mounted with geometry `g`, and the drive holds `v`. -/
structure OnDisk (g : Fat32Fs) (cwd : UInt32) (v : Volume) (s : Fat32State) : Prop where
  geometry : Geometry g
  gFs : s.gFs = { g with fsinfo := s.gFs.fsinfo }
  current : s.gCurrentDirCluster = cwd
  volume : Volume.of g s.ata.sector = v

/-- The drive answers its `n`-th command. -/
def Fat32State.Answers (s : Fat32State) (n : Nat) : Prop := s.ata.outcome n = .ok

instance (s : Fat32State) (n : Nat) : Decidable (s.Answers n) := inferInstanceAs (Decidable (_ = _))

/-- The same state with a drive that answers from now on. -/
def Fat32State.repaired (s : Fat32State) : Fat32State := { s with ata.outcome := fun _ => .ok }

/-- `t` is reached from `s` by `count` commands that stored nothing. -/
structure Idle (s t : Fat32State) (count : Nat) : Prop where
  gFs : t.gFs = s.gFs
  current : t.gCurrentDirCluster = s.gCurrentDirCluster
  sector : t.ata.sector = s.ata.sector
  outcome : t.ata.outcome = s.ata.outcome
  command : t.ata.command = s.ata.command + count

variable {g : Fat32Fs} {cwd : UInt32} {v v' : Volume} {s s' t : Fat32State} {a c lba value : UInt32} {n : Nat}
  {l : List UInt32} {σ : Slot}

theorem OnDisk.stores (h : OnDisk g cwd v s) : Stores g cwd v s.repaired :=
  ⟨h.geometry, h.gFs, h.current, fun _ => rfl, h.volume⟩

theorem Idle.refl (s : Fat32State) : Idle s s 0 := ⟨rfl, rfl, rfl, rfl, rfl⟩

theorem Idle.trans {m : Nat} (first : Idle s t n) (second : Idle t s' m) : Idle s s' (n + m) :=
  ⟨second.gFs.trans first.gFs, second.current.trans first.current, second.sector.trans first.sector,
    second.outcome.trans first.outcome, by rw [second.command, first.command, Nat.add_assoc]⟩

theorem Idle.onDisk (idle : Idle s t n) (h : OnDisk g cwd v s) : OnDisk g cwd v t where
  geometry := h.geometry
  gFs := by rw [idle.gFs]; exact h.gFs
  current := idle.current.trans h.current
  volume := by rw [idle.sector]; exact h.volume

theorem Idle.answers (idle : Idle s t n) (k : Nat) : t.Answers k ↔ s.Answers k := by
  rw [Fat32State.Answers, Fat32State.Answers, idle.outcome]

/-! ## One command -/

theorem ataReadSector_fails {ata : AtaDrive} (fails : ata.outcome ata.command ≠ .ok) (lba : UInt32) (buffer : Bytes) :
    ataReadSector ata lba buffer = (ata.outcome ata.command, buffer, { ata with command := ata.command + 1 }) := by
  rw [ataReadSector]
  split
  · rename_i answers
    exact absurd answers fails
  · rfl

theorem ataWriteSector_fails {ata : AtaDrive} (fails : ata.outcome ata.command ≠ .ok) (lba : UInt32)
    (buffer : Bytes) :
    ataWriteSector ata lba buffer = (ata.outcome ata.command, { ata with command := ata.command + 1 }) := by
  rw [ataWriteSector]
  split
  · rename_i answers
    exact absurd answers fails
  · rfl

theorem Fat32State.readSectorBuffer_answers (answers : s.Answers s.ata.command) (lba : UInt32) :
    s.readSectorBuffer lba = (.ok, { s with
      ata.command := s.ata.command + 1
      sectorBuffer := copy s.sectorBuffer 0 (s.ata.sector (ataProgram lba).sector) 512 }) := by
  have answers : s.ata.outcome s.ata.command = .ok := answers
  simp only [readSectorBuffer, ataReadSector, answers]

theorem Fat32State.readSectorBuffer_fails (fails : ¬ s.Answers s.ata.command) (lba : UInt32) :
    ∃ err ≠ AtaError.ok, s.readSectorBuffer lba = (err, { s with ata.command := s.ata.command + 1 }) := by
  refine ⟨s.ata.outcome s.ata.command, fails, ?_⟩
  rw [readSectorBuffer, ataReadSector_fails fails]

theorem Fat32State.writeSectorBuffer_answers (answers : s.Answers s.ata.command) (lba : UInt32) :
    s.writeSectorBuffer lba = (.ok, { s with
      ata.command := s.ata.command + 1
      ata.sector := Function.update s.ata.sector (ataProgram lba).sector
        (copy (s.ata.sector (ataProgram lba).sector) 0 s.sectorBuffer 512) }) := by
  have answers : s.ata.outcome s.ata.command = .ok := answers
  simp only [writeSectorBuffer, ataWriteSector, answers]

theorem Fat32State.writeSectorBuffer_fails (fails : ¬ s.Answers s.ata.command) (lba : UInt32) :
    ∃ err ≠ AtaError.ok, s.writeSectorBuffer lba = (err, { s with ata.command := s.ata.command + 1 }) := by
  refine ⟨s.ata.outcome s.ata.command, fails, ?_⟩
  rw [writeSectorBuffer, ataWriteSector_fails fails]

/-! ## `fat32_read_fat` -/

/-- A FAT entry is read, or its place is taken by `FAT32_BAD_CLUSTER`. -/
theorem fat32ReadFat_faults (h : OnDisk g cwd v s) (inRange : g.InRange c) :
    ∃ t, fat32ReadFat s c = (if s.Answers s.ata.command then v.fat c else fat32BadCluster, t) ∧
      Idle s t 1 ∧ t.clusterBuffer = s.clusterBuffer := by
  have valid : ¬ (c < 2 ∨ s.gFs.totalClusters + 2 ≤ c) := by
    intro invalid
    exact (h.stores.readFat_range c).mp invalid inRange
  by_cases answers : s.Answers s.ata.command
  · obtain ⟨t, run, -, -⟩ := fat32ReadFat_spec h.stores c
    have valueEq : (fat32ReadFat s.repaired c).1 = v.fat c := by rw [run]
    have here := Fat32State.readSectorBuffer_answers answers (s.gFs.fatBeginLba + c * 4 / fat32SectorSize)
    have there := Fat32State.readSectorBuffer_answers (s := s.repaired) rfl
      (s.gFs.fatBeginLba + c * 4 / fat32SectorSize)
    have same : s.repaired.gFs = s.gFs := rfl
    rw [fat32ReadFat, same, if_neg valid, there] at valueEq
    rw [fat32ReadFat, if_neg valid, here, if_pos answers]
    exact ⟨_, Prod.ext valueEq rfl, ⟨rfl, rfl, rfl, rfl, rfl⟩, rfl⟩
  · obtain ⟨err, notOk, fails⟩ := Fat32State.readSectorBuffer_fails answers
      (s.gFs.fatBeginLba + c * 4 / fat32SectorSize)
    rw [fat32ReadFat, if_neg valid, fails, if_neg answers]
    cases err with
    | ok => exact absurd rfl notOk
    | noDrive | timeout | drq | device | badBuffer | unknown =>
      exact ⟨_, rfl, ⟨rfl, rfl, rfl, rfl, rfl⟩, rfl⟩

/-! ## `fat32_write_fat` -/

/-- The number of the command after a `fat32_write_fat` that began with the command `n`, for
`copies` copies of the FAT: it stops at the first failure. -/
def fatWriteEnd (outcome : Nat → AtaError) : Nat → Nat → Nat
  | 0, n => n
  | copies + 1, n =>
    if outcome n ≠ .ok then n + 1
    else if outcome (n + 1) ≠ .ok then n + 2
    else fatWriteEnd outcome copies (n + 2)

theorem Geometry.program_fatSector (geo : Geometry g) {i : UInt8} (copy : i.toNat < g.numFats.toNat)
    (inRange : g.InRange c) : (ataProgram (fat32FatSector g i c)).sector = g.fatSector i.toNat c := by
  have below := (geo.fatSector_lt copy inRange).2
  have fits := geo.data_fits
  rw [ataProgram_sector, geo.fat32FatSector_toNat copy inRange]
  exact Nat.mod_eq_of_lt (by omega)

/-- What the loop of `fat32_write_fat` leaves, from the copy `i` on. -/
structure CopiesWritten (g : Fat32Fs) (s t : Fat32State) (c : UInt32) (i copies : Nat) : Prop where
  gFs : t.gFs = s.gFs
  current : t.gCurrentDirCluster = s.gCurrentDirCluster
  outcome : t.ata.outcome = s.ata.outcome
  buffer : t.clusterBuffer = s.clusterBuffer
  command : t.ata.command = fatWriteEnd s.ata.outcome copies s.ata.command
  sector : ∀ n, t.ata.sector n ≠ s.ata.sector n → ∃ j, i ≤ j ∧ j < g.numFats.toNat ∧ n = g.fatSector j c

/-- A round of the loop whose commands succeed. -/
def Fat32State.copyWritten (s : Fat32State) (g : Fat32Fs) (i : Nat) (c value : UInt32) : Fat32State :=
  { s with
    ata.sector := Function.update s.ata.sector (g.fatSector i c)
      (store32 (s.ata.sector (g.fatSector i c)) (c.toNat % 128 * 4) value)
    ata.command := s.ata.command + 2
    sectorBuffer := store32 (copy s.sectorBuffer 0 (s.ata.sector (g.fatSector i c)) 512) (c.toNat % 128 * 4) value }

theorem Fat32State.copyWritten_sector (s : Fat32State) (g : Fat32Fs) (i : Nat) (c value : UInt32) :
    (s.copyWritten g i c value).ata.sector = Function.update s.ata.sector (g.fatSector i c)
      (store32 (s.ata.sector (g.fatSector i c)) (c.toNat % 128 * 4) value) := rfl

theorem writeFatCopies_round (h : OnDisk g cwd v s) (inRange : g.InRange c) {i : UInt8} (value : UInt32) (copies : Nat)
    (bound : i.toNat < g.numFats.toNat) :
    (s.Answers s.ata.command ∧ s.Answers (s.ata.command + 1) →
      fat32WriteFatCopies c value (copies + 1) i s =
        fat32WriteFatCopies c value copies (i + 1) (s.copyWritten g i.toNat c value)) ∧
    (¬ (s.Answers s.ata.command ∧ s.Answers (s.ata.command + 1)) →
      ∃ t, fat32WriteFatCopies c value (copies + 1) i s = (-1, t) ∧ t.gFs = s.gFs ∧
        t.gCurrentDirCluster = s.gCurrentDirCluster ∧ t.ata.outcome = s.ata.outcome ∧
        t.clusterBuffer = s.clusterBuffer ∧ t.ata.sector = s.ata.sector ∧
        t.ata.command = if s.Answers s.ata.command then s.ata.command + 2 else s.ata.command + 1) := by
  have row : fat32FatSector s.gFs i c = fat32FatSector g i c := h.stores.fatSector_eq i c
  have address := h.geometry.program_fatSector bound inRange
  have offset := h.geometry.fat32EntryOffset_toNat inRange
  have inSector : c.toNat % 128 * 4 + 4 ≤ 512 := by omega
  -- the state with the sector in the buffer, and the entry changed there
  let s₁ : Fat32State := { s with
    ata.command := s.ata.command + 1
    sectorBuffer := store32 (copy s.sectorBuffer 0 (s.ata.sector (g.fatSector i.toNat c)) 512)
      (c.toNat % 128 * 4) value }
  have start (first : s.Answers s.ata.command) {err : AtaError} {t : Fat32State}
      (write : s₁.writeSectorBuffer (fat32FatSector g i c) = (err, t)) :
      fat32WriteFatCopies c value (copies + 1) i s =
        if err = .ok then fat32WriteFatCopies c value copies (i + 1) t else (-1, t) := by
    rw [fat32WriteFatCopies, row, Fat32State.readSectorBuffer_answers first, address]
    simp only [row, offset]
    rw [show _ = (err, t) from write]
    cases err with
    | ok | noDrive | timeout | drq | device | badBuffer | unknown => rfl
  constructor
  · rintro ⟨first, second⟩
    rw [start first (Fat32State.writeSectorBuffer_answers (s := s₁) second _), if_pos rfl, address]
    simp only [s₁, store32_copy inSector]
    rfl
  · intro failure
    by_cases first : s.Answers s.ata.command
    · have second : ¬ s₁.Answers s₁.ata.command := fun second => failure ⟨first, second⟩
      obtain ⟨err, notOk, fails⟩ := Fat32State.writeSectorBuffer_fails second (fat32FatSector g i c)
      rw [start first fails, if_neg notOk]
      exact ⟨_, rfl, rfl, rfl, rfl, rfl, rfl, (if_pos first).symm⟩
    · obtain ⟨err, notOk, fails⟩ := Fat32State.readSectorBuffer_fails first (fat32FatSector s.gFs i c)
      rw [fat32WriteFatCopies, fails]
      cases err with
      | ok => exact absurd rfl notOk
      | noDrive | timeout | drq | device | badBuffer | unknown =>
        exact ⟨_, rfl, rfl, rfl, rfl, rfl, rfl, (if_neg first).symm⟩

theorem fatWriteEnd_failure {outcome : Nat → AtaError} (copies : Nat)
    (failure : ¬ (outcome n = .ok ∧ outcome (n + 1) = .ok)) :
    fatWriteEnd outcome (copies + 1) n = if outcome n = .ok then n + 2 else n + 1 := by
  rw [fatWriteEnd]
  by_cases first : outcome n = .ok
  · rw [if_neg (not_not.mpr first), if_pos first, if_pos fun second => failure ⟨first, second⟩]
  · rw [if_pos first, if_neg first]

theorem fatWriteEnd_success {outcome : Nat → AtaError} (copies : Nat) (first : outcome n = .ok)
    (second : outcome (n + 1) = .ok) : fatWriteEnd outcome (copies + 1) n = fatWriteEnd outcome copies (n + 2) := by
  rw [fatWriteEnd, if_neg (not_not.mpr first), if_neg (not_not.mpr second)]

theorem writeFatCopies_written (h : OnDisk g cwd v s) (inRange : g.InRange c) (value : UInt32) (copies : Nat)
    (i : UInt8) (count : i.toNat + copies = g.numFats.toNat) :
    ∃ status t, fat32WriteFatCopies c value copies i s = (status, t) ∧ CopiesWritten g s t c i.toNat copies := by
  induction copies generalizing i s v with
  | zero => exact ⟨0, s, rfl, rfl, rfl, rfl, rfl, rfl, fun n changed => absurd rfl changed⟩
  | succ copies ih =>
    have bound : i.toNat < g.numFats.toNat := by omega
    have next : (i + 1).toNat = i.toNat + 1 := by
      have small := g.numFats.toNat_lt
      rw [UInt8.toNat_add, show (1 : UInt8).toNat = 1 from rfl]
      omega
    obtain ⟨success, failure⟩ := writeFatCopies_round h inRange value copies bound
    by_cases both : s.Answers s.ata.command ∧ s.Answers (s.ata.command + 1)
    · have onDisk : OnDisk g cwd _ (s.copyWritten g i.toNat c value) := ⟨h.geometry, h.gFs, h.current, rfl⟩
      obtain ⟨status, t, run, written⟩ := ih onDisk (i + 1) (by omega)
      refine ⟨status, t, (success both).trans run, written.gFs, written.current, written.outcome, written.buffer, ?_, ?_⟩
      · rw [written.command, fatWriteEnd_success copies both.1 both.2]
        rfl
      · intro n changed
        by_cases here : n = g.fatSector i.toNat c
        · exact ⟨i.toNat, le_rfl, bound, here⟩
        · have kept : (s.copyWritten g i.toNat c value).ata.sector n = s.ata.sector n := Function.update_of_ne here _ _
          obtain ⟨j, low, high, place⟩ := written.sector n (by rwa [kept])
          exact ⟨j, by omega, high, place⟩
    · obtain ⟨t, run, gFs, current, outcome, buffer, sector, command⟩ := failure both
      refine ⟨-1, t, run, gFs, current, outcome, buffer, ?_, fun n changed => absurd (by rw [sector]) changed⟩
      rw [command, fatWriteEnd_failure copies both]
      rfl

/-- The volume does not depend on the further copies of the FAT. -/
theorem Volume.of_copies (geo : Geometry g) (inRange : g.InRange c) {sector sector' : Nat → Bytes}
    (changes : ∀ n, sector' n ≠ sector n → ∃ j, 1 ≤ j ∧ j < g.numFats.toNat ∧ n = g.fatSector j c) :
    Volume.of g sector' = Volume.of g sector := by
  have first : 0 < g.numFats.toNat := geo.fats_pos
  have rowC := (geo.fatSector_lt first inRange).1
  apply Volume.ext
  · funext d
    simp only [Volume.of]
    by_cases rangeD : g.InRange d
    · have rowD := (geo.fatSector_lt first rangeD).1
      have kept : sector' (g.fatSector 0 d) = sector (g.fatSector 0 d) := by
        by_contra changed
        obtain ⟨j, later, -, place⟩ := changes _ changed
        have zero := (Fat32Fs.fatSector_inj rowD rowC place).1
        omega
      rw [kept]
    · rw [if_neg rangeD, if_neg rangeD]
  · funext d k
    simp only [Volume.of]
    have kept (i : Nat) : sector' (g.dataSector d + i) = sector (g.dataSector d + i) := by
      by_contra changed
      obtain ⟨j, -, bound, place⟩ := changes _ changed
      have below := (geo.fatSector_lt bound inRange).2
      have start : g.clusterBeginLba.toNat ≤ g.dataSector d := Nat.le_add_right _ _
      omega
    rw [kept]

/-- The first copy is what counts. -/
theorem Volume.of_copyWritten (geo : Geometry g) (inRange : g.InRange c) (s : Fat32State) (value : UInt32) :
    Volume.of g (s.copyWritten g 0 c value).ata.sector = (Volume.of g s.ata.sector).setFat c (value &&& 0x0FFFFFFF) := by
  have first : 0 < g.numFats.toNat := geo.fats_pos
  rw [← Volume.of_storeCopies geo inRange]
  symm
  refine Volume.of_copies geo inRange fun n changed => ?_
  by_cases stored : ∃ j < g.numFats.toNat, 0 ≤ j ∧ n = g.fatSector j c
  · obtain ⟨j, bound, -, place⟩ := stored
    refine ⟨j, Nat.one_le_iff_ne_zero.mpr ?_, bound, place⟩
    rintro rfl
    apply changed
    rw [Fat32Fs.storeCopies, if_pos ⟨0, first, le_rfl, place⟩, Fat32State.copyWritten_sector, place,
      Function.update_self]
  · apply absurd _ changed
    have other : n ≠ g.fatSector 0 c := fun here => stored ⟨0, first, le_rfl, here⟩
    rw [Fat32Fs.storeCopies, if_neg stored, Fat32State.copyWritten_sector, Function.update_of_ne other]

/-- **`fat32_write_fat` on a drive that fails** changes the entry if the commands for the first copy
succeed, and nothing else. -/
theorem fat32WriteFat_faults (h : OnDisk g cwd v s) (inRange : g.InRange c) (value : UInt32) :
    ∃ status t, fat32WriteFat s c value = (status, t) ∧
      OnDisk g cwd (if s.Answers s.ata.command ∧ s.Answers (s.ata.command + 1) then v.setFat c (value &&& 0x0FFFFFFF)
        else v) t ∧
      t.ata.outcome = s.ata.outcome ∧ t.clusterBuffer = s.clusterBuffer ∧
      t.ata.command = fatWriteEnd s.ata.outcome g.numFats.toNat s.ata.command := by
  have valid : ¬ (c < 2 ∨ s.gFs.totalClusters + 2 ≤ c) := by
    intro invalid
    exact (h.stores.readFat_range c).mp invalid inRange
  have numFats : s.gFs.numFats = g.numFats := by rw [h.gFs]
  have first : 0 < g.numFats.toNat := h.geometry.fats_pos
  obtain ⟨copies, count⟩ : ∃ k, g.numFats.toNat = k + 1 := ⟨g.numFats.toNat - 1, by omega⟩
  obtain ⟨success, failure⟩ := writeFatCopies_round h inRange (value &&& 0x0FFFFFFF) copies (i := 0) first
  rw [fat32WriteFat, if_neg valid, numFats, count]
  by_cases both : s.Answers s.ata.command ∧ s.Answers (s.ata.command + 1)
  · have onDisk : OnDisk g cwd _ (s.copyWritten g 0 c (value &&& 0x0FFFFFFF)) := ⟨h.geometry, h.gFs, h.current, rfl⟩
    obtain ⟨status, t, run, written⟩ :=
      writeFatCopies_written onDisk inRange (value &&& 0x0FFFFFFF) copies (0 + 1) (by rw [count, Nat.add_comm]; rfl)
    refine ⟨status, t, (success both).trans run, ⟨h.geometry, ?_, written.current.trans h.current, ?_⟩, written.outcome,
      written.buffer, ?_⟩
    · rw [written.gFs]
      exact h.gFs
    · rw [if_pos both, Volume.of_copies h.geometry inRange written.sector, ← h.volume,
        Volume.of_copyWritten h.geometry inRange, UInt32.and_assoc, UInt32.and_self]
    · rw [written.command, fatWriteEnd_success copies both.1 both.2]
      rfl
  · obtain ⟨t, run, gFs, current, outcome, buffer, sector, command⟩ := failure both
    refine ⟨-1, t, run, ⟨h.geometry, ?_, current.trans h.current, ?_⟩, outcome, buffer, ?_⟩
    · rw [gFs]
      exact h.gFs
    · rw [sector, if_neg both]
      exact h.volume
    · rw [command, fatWriteEnd_failure copies both]
      rfl

/-! ## Clusters -/

/-- `fat32_read_cluster` loads the cluster if all its commands succeed. -/
theorem fat32ReadSectors_faults (inRange : g.InRange c) (start : lba.toNat = g.dataSector c) (remaining : Nat)
    (i : UInt32) (count : i.toNat + remaining = g.sectorsPerCluster.toNat) (h : OnDisk g cwd v s) :
    ∃ status t m, fat32ReadSectors lba remaining i s = (status, t) ∧ Idle s t m ∧
      (status = 0 ∨ status = -1) ∧ (status = 0 ↔ ∀ k < remaining, s.Answers (s.ata.command + k)) ∧
      (status = 0 → m = remaining ∧ (∀ k < i.toNat * 512, t.clusterBuffer k = s.clusterBuffer k) ∧
        ∀ k < g.sectorsPerCluster.toNat * 512, i.toNat * 512 ≤ k →
          t.clusterBuffer k = s.ata.sector (g.dataSector c + k / 512) (k % 512)) := by
  induction remaining generalizing i s with
  | zero =>
    refine ⟨0, s, 0, rfl, .refl s, .inl rfl, iff_of_true rfl (fun k below => absurd below (Nat.not_lt_zero k)), ?_⟩
    exact fun _ => ⟨rfl, fun _ _ => rfl, fun k _ _ => by omega⟩
  | succ remaining ih =>
    obtain ⟨address, below, base, next⟩ := h.stores.sector_round inRange start (i := i) (by omega)
    have program : (ataProgram (lba + i)).sector = g.dataSector c + i.toNat := by
      rw [ataProgram_sector, address, Nat.mod_eq_of_lt below]
    by_cases first : s.Answers s.ata.command
    · let s₁ : Fat32State := { s with
        ata.command := s.ata.command + 1
        clusterBuffer := copy s.clusterBuffer (i.toNat * 512)
          (copy (fun k => s.clusterBuffer (i.toNat * 512 + k)) 0 (s.ata.sector (g.dataSector c + i.toNat)) 512) 512 }
      have idle : Idle s s₁ 1 := ⟨rfl, rfl, rfl, rfl, rfl⟩
      -- this sector answers; the rest of the loop starts from `s₁`
      have round : fat32ReadSectors lba (remaining + 1) i s = fat32ReadSectors lba remaining (i + 1) s₁ := by
        have first : s.ata.outcome s.ata.command = .ok := first
        rw [fat32ReadSectors]
        simp only [base, ataReadSector, first, program, if_true]
        rfl
      obtain ⟨status, t, m, run, idle', values, success, loaded⟩ := ih (i + 1) (by omega) (idle.onDisk h)
      refine ⟨status, t, 1 + m, round.trans run, idle.trans idle', values, success.trans ?_, fun done => ?_⟩
      · constructor
        · intro later k bound
          cases k with
          | zero => exact first
          | succ k =>
            have answers := (idle.answers _).mp (later k (by omega))
            rwa [idle.command, Nat.add_assoc, Nat.add_comm 1 k] at answers
        · intro all k bound
          rw [idle.answers, idle.command, Nat.add_assoc, Nat.add_comm 1 k]
          exact all (k + 1) (by omega)
      · obtain ⟨commands, kept, rest⟩ := loaded done
        rw [next, Nat.succ_mul] at kept rest
        refine ⟨by omega, fun k low => ?_, fun k high low => ?_⟩
        · exact (kept k (Nat.lt_add_right 512 low)).trans (copy_outside (Or.inl low))
        · -- a byte of this sector, or of a later one
          by_cases current : k < i.toNat * 512 + 512
          · have row : k / 512 = i.toNat := by omega
            have column : k - i.toNat * 512 = k % 512 := by omega
            refine (kept k (by omega)).trans ((copy_inside low (by omega)).trans ?_)
            refine (copy_inside (by omega) (by omega)).trans ?_
            rw [row, column, Nat.sub_zero]
          · exact rest k high (Nat.le_of_not_lt current)
    · let s₁ : Fat32State := { s with
        ata.command := s.ata.command + 1
        clusterBuffer := copy s.clusterBuffer (i.toNat * 512) (fun k => s.clusterBuffer (i.toNat * 512 + k)) 512 }
      refine ⟨-1, s₁, 1, ?_, ⟨rfl, rfl, rfl, rfl, rfl⟩, .inr rfl, ?_, fun done => absurd done (by decide)⟩
      · have first : s.ata.outcome s.ata.command ≠ .ok := first
        rw [fat32ReadSectors]
        simp only [base, ataReadSector_fails first, if_neg first]
        rfl
      · refine iff_of_false (by decide) fun all => first ?_
        simpa using all 0 (Nat.succ_pos remaining)

theorem fat32ReadCluster_faults (h : OnDisk g cwd v s) (inRange : g.InRange c) :
    ∃ status t m, fat32ReadCluster s c = (status, t) ∧ Idle s t m ∧ (status = 0 ∨ status = -1) ∧
      (status = 0 ↔ ∀ k < g.sectorsPerCluster.toNat, s.Answers (s.ata.command + k)) ∧
      (status = 0 → m = g.sectorsPerCluster.toNat ∧ ∀ k < g.bytesPerCluster.toNat, t.clusterBuffer k = v.data c k) := by
  have lba : fat32ClusterToLba s c = fat32ClusterToLba s.repaired c := rfl
  have start := h.stores.clusterToLba_toNat inRange
  have sectors : s.gFs.sectorsPerCluster = g.sectorsPerCluster := h.stores.field_sectors
  obtain ⟨status, t, m, run, idle, values, success, loaded⟩ :=
    fat32ReadSectors_faults inRange start g.sectorsPerCluster.toNat 0 (by simp) h
  refine ⟨status, t, m, ?_, idle, values, success, fun done => ?_⟩
  · rw [fat32ReadCluster, sectors, lba]
    exact (if_neg (h.stores.clusterToLba_ne_zero inRange)).trans run
  · obtain ⟨commands, -, rest⟩ := loaded done
    refine ⟨commands, fun k bound => ?_⟩
    rw [rest k (by rw [← h.geometry.bytes_toNat]; exact bound) (by simp), ← h.volume]
    simp only [Volume.of, if_pos (And.intro inRange bound)]

/-- What a cluster write stores on a drive that fails: the sectors before the first failure. -/
structure Stored (g : Fat32Fs) (s t : Fat32State) (c : UInt32) (i done : Nat) : Prop where
  gFs : t.gFs = s.gFs
  current : t.gCurrentDirCluster = s.gCurrentDirCluster
  outcome : t.ata.outcome = s.ata.outcome
  sector : ∀ n, t.ata.sector n = if g.dataSector c + i ≤ n ∧ n < g.dataSector c + i + done then
    copy (s.ata.sector n) 0 (fun k => s.clusterBuffer ((n - g.dataSector c) * 512 + k)) 512 else s.ata.sector n

theorem fat32WriteSectors_faults (inRange : g.InRange c) (start : lba.toNat = g.dataSector c) (remaining : Nat)
    (i : UInt32) (count : i.toNat + remaining = g.sectorsPerCluster.toNat) (h : OnDisk g cwd v s) :
    ∃ status t done, fat32WriteSectors lba remaining i s = (status, t) ∧ Stored g s t c i.toNat done ∧
      done ≤ remaining ∧ (∀ k < done, s.Answers (s.ata.command + k)) ∧
      (status = 0 ∧ done = remaining ∨ status = -1 ∧ done < remaining ∧ ¬ s.Answers (s.ata.command + done)) := by
  induction remaining generalizing i s v with
  | zero =>
    refine ⟨0, s, 0, rfl, ⟨rfl, rfl, rfl, fun n => ?_⟩, le_rfl, fun k below => absurd below (Nat.not_lt_zero k),
      .inl ⟨rfl, rfl⟩⟩
    rw [if_neg (by omega)]
  | succ remaining ih =>
    obtain ⟨address, below, base, next⟩ := h.stores.sector_round inRange start (i := i) (by omega)
    have program : (ataProgram (lba + i)).sector = g.dataSector c + i.toNat := by
      rw [ataProgram_sector, address, Nat.mod_eq_of_lt below]
    by_cases first : s.Answers s.ata.command
    · let s₁ : Fat32State := { s with
        ata.command := s.ata.command + 1
        ata.sector := Function.update s.ata.sector (g.dataSector c + i.toNat)
          (copy (s.ata.sector (g.dataSector c + i.toNat)) 0 (fun k => s.clusterBuffer (i.toNat * 512 + k)) 512) }
      have onDisk : OnDisk g cwd _ s₁ := ⟨h.geometry, h.gFs, h.current, rfl⟩
      -- this sector is stored; the rest of the loop starts from `s₁`
      have round : fat32WriteSectors lba (remaining + 1) i s = fat32WriteSectors lba remaining (i + 1) s₁ := by
        have first : s.ata.outcome s.ata.command = .ok := first
        rw [fat32WriteSectors]
        simp only [base, ataWriteSector, first, program, if_true]
        rfl
      obtain ⟨status, t, done, run, stored, most, answered, ended⟩ := ih (i + 1) (by omega) onDisk
      have command (k : Nat) : s₁.Answers (s₁.ata.command + k) ↔ s.Answers (s.ata.command + (k + 1)) := by
        show s.Answers (s.ata.command + 1 + k) ↔ _
        rw [Nat.add_assoc, Nat.add_comm 1 k]
      refine ⟨status, t, done + 1, round.trans run, ⟨stored.gFs, stored.current, stored.outcome, fun n => ?_⟩, by omega,
        fun k bound => ?_, ?_⟩
      · rw [stored.sector n, next]
        dsimp only [s₁]
        -- a sector of the drive: this one, a later one of the cluster, or one outside
        by_cases here : n = g.dataSector c + i.toNat
        · subst here
          rw [if_neg (by omega), if_pos (by omega), Function.update_self, Nat.add_sub_cancel_left]
        · rw [Function.update_of_ne here]
          by_cases later : g.dataSector c + (i.toNat + 1) ≤ n ∧ n < g.dataSector c + (i.toNat + 1) + done
          · rw [if_pos later, if_pos (by omega)]
          · rw [if_neg later, if_neg (by omega)]
      · cases k with
        | zero => exact first
        | succ k => exact (command k).mp (answered k (by omega))
      · rcases ended with ⟨zero, all⟩ | ⟨failed, less, stop⟩
        · exact .inl ⟨zero, by omega⟩
        · exact .inr ⟨failed, by omega, mt (command done).mpr stop⟩
    · refine ⟨-1, { s with ata.command := s.ata.command + 1 }, 0, ?_, ⟨rfl, rfl, rfl, fun n => ?_⟩, Nat.zero_le _,
        fun k below => absurd below (Nat.not_lt_zero k), .inr ⟨rfl, Nat.succ_pos _, first⟩⟩
      · have first : s.ata.outcome s.ata.command ≠ .ok := first
        rw [fat32WriteSectors]
        simp only [ataWriteSector_fails first, if_neg first]
      · rw [if_neg (by omega)]

/-- The volume after the first `done` sectors of a cluster were written. -/
theorem Volume.of_stored (geo : Geometry g) (inRange : g.InRange c) {done : Nat} (stored : Stored g s t c 0 done)
    (most : done ≤ g.sectorsPerCluster.toNat) {bytes : Bytes}
    (inside : ∀ k < g.bytesPerCluster.toNat,
      bytes k = if k / 512 < done then s.clusterBuffer k else (Volume.of g s.ata.sector).data c k)
    (outside : ∀ k, g.bytesPerCluster.toNat ≤ k → bytes k = 0) :
    Volume.of g t.ata.sector = (Volume.of g s.ata.sector).setData c bytes :=
  Volume.of_storeSectors geo inRange most s.clusterBuffer stored.sector inside outside

/-- The commands that store the sector of a slot, and those before it, succeed. -/
def Fat32State.StoresSlot (s : Fat32State) (σ : Slot) : Prop := ∀ k ≤ σ.2.toNat / 512, s.Answers (s.ata.command + k)

instance (s : Fat32State) (σ : Slot) : Decidable (s.StoresSlot σ) :=
  inferInstanceAs (Decidable (∀ k ≤ σ.2.toNat / 512, _))

/-- **Writing an edited slot** changes the slot or leaves the volume alone: a slot lies in one sector. -/
theorem editSlot_faults (h : OnDisk g cwd v s) (inRange : g.InRange σ.1) (member : σ ∈ g.dirSlots l)
    (loaded : ∀ k < g.bytesPerCluster.toNat, s.clusterBuffer k = v.data σ.1 k) {edit : Bytes → Bytes}
    (isLocal : LocalEdit edit σ.2.toNat (σ.2.toNat + 32)) :
    ∃ status t, fat32WriteCluster { s with clusterBuffer := edit s.clusterBuffer } σ.1 = (status, t) ∧
      t.ata.outcome = s.ata.outcome ∧ (status = 0 ∨ status = -1) ∧
      (status = 0 ↔ ∀ k < g.sectorsPerCluster.toNat, s.Answers (s.ata.command + k)) ∧
      OnDisk g cwd (if s.StoresSlot σ then v.editCluster σ.1 edit else v) t := by
  obtain ⟨fits, aligned⟩ := h.geometry.slot_inside member
  have size := h.geometry.bytes_toNat
  let s₁ : Fat32State := { s with clusterBuffer := edit s.clusterBuffer }
  have onDisk₁ : OnDisk g cwd v s₁ := ⟨h.geometry, h.gFs, h.current, h.volume⟩
  have lba : fat32ClusterToLba s₁ σ.1 = fat32ClusterToLba s₁.repaired σ.1 := rfl
  obtain ⟨status, t, done, run, stored, most, answered, ended⟩ :=
    fat32WriteSectors_faults inRange (onDisk₁.stores.clusterToLba_toNat inRange) g.sectorsPerCluster.toNat 0 (by simp)
      onDisk₁
  have sectors : s₁.gFs.sectorsPerCluster = g.sectorsPerCluster := onDisk₁.stores.field_sectors
  have run : fat32WriteCluster s₁ σ.1 = (status, t) := by
    rw [fat32WriteCluster, sectors, lba]
    exact (if_neg (onDisk₁.stores.clusterToLba_ne_zero inRange)).trans run
  refine ⟨status, t, run, stored.outcome, ?_, ?_, ⟨h.geometry, ?_, stored.current.trans h.current, ?_⟩⟩
  · rcases ended with ⟨zero, -⟩ | ⟨failed, -⟩
    · exact .inl zero
    · exact .inr failed
  · rcases ended with ⟨zero, all⟩ | ⟨failed, less, stop⟩
    · rw [all] at answered
      exact iff_of_true zero answered
    · rw [failed]
      exact iff_of_false (by decide) fun all => stop (all done less)
  · rw [stored.gFs]
    exact h.gFs
  · -- the bytes of the buffer outside of the slot are those of the cluster
    have past (k : Nat) (beyond : g.bytesPerCluster.toNat ≤ k) : v.data σ.1 k = 0 := by
      rw [← h.volume]
      simp only [Volume.of]
      rw [if_neg fun both => absurd both.2 (Nat.not_lt.mpr beyond)]
    have kept (k : Nat) (bound : k < g.bytesPerCluster.toNat) (other : k < σ.2.toNat ∨ σ.2.toNat + 32 ≤ k) :
        edit s.clusterBuffer k = v.data σ.1 k := by
      rw [isLocal.outside _ k other, loaded k bound]
    -- the entry changes on the drive exactly if the sector of its slot is written
    by_cases slot : s.StoresSlot σ
    · have reached : σ.2.toNat / 512 < done := by
        rcases ended with ⟨-, all⟩ | ⟨-, -, stop⟩
        · omega
        · by_contra short
          exact stop (slot done (by omega))
      rw [if_pos slot, Volume.editCluster, ← h.volume]
      refine Volume.of_stored h.geometry inRange stored most (fun k bound => ?_) fun k beyond => ?_
      · show edit ((Volume.of g s.ata.sector).data σ.1) k = if k / 512 < done then edit s.clusterBuffer k else
          (Volume.of g s.ata.sector).data σ.1 k
        rw [h.volume]
        by_cases inSlot : σ.2.toNat ≤ k ∧ k < σ.2.toNat + 32
        · rw [if_pos (by omega)]
          exact isLocal.inside _ _ (fun i _ high => (loaded i (by omega)).symm) k inSlot.1 inSlot.2
        · rw [isLocal.outside _ k (by omega), kept k bound (by omega), ite_self]
      · rw [isLocal.outside _ k (by omega), h.volume]
        exact past k beyond
    · have short : done ≤ σ.2.toNat / 512 := by
        by_contra reached
        exact slot fun k below => answered k (by omega)
      rw [if_neg slot]
      have same : v.setData σ.1 (v.data σ.1) = v := Volume.ext rfl (Function.update_eq_self _ _)
      rw [← same, ← h.volume]
      refine Volume.of_stored h.geometry inRange stored most (fun k bound => ?_) fun k beyond => ?_
      · show (Volume.of g s.ata.sector).data σ.1 k = if k / 512 < done then edit s.clusterBuffer k else
          (Volume.of g s.ata.sector).data σ.1 k
        rw [h.volume]
        split
        · exact (kept k bound (by omega)).symm
        · rfl
      · rw [h.volume]
        exact past k beyond

end QuantumKernel.Fat32
