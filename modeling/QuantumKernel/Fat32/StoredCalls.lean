import QuantumKernel.Fat32.Updates
import QuantumKernel.Fat32.UnlinkFaults

/-! # What a reported success means

The lists of `Updates.lean` account for what a call leaves on the drive.  A call that reports
success has looked at the results of some of its commands; the others may have failed.
-/

namespace QuantumKernel.Fat32

open ByteStore

/-! ## The list accounts for the drive -/

/-- A command that succeeds stores its bytes. -/
def Update.apply (outcome : Nat → AtaError) (sector : Nat → Bytes) (u : Update) : Nat → Bytes :=
  match u.store with
  | some (n, bytes) =>
    if outcome u.command = .ok then Function.update sector n (copy (sector n) 0 bytes 512) else sector
  | none => sector

/-- The sectors after the commands of a list. -/
def replayUpdates (outcome : Nat → AtaError) (log : List Update) (sector : Nat → Bytes) : Nat → Bytes :=
  log.foldl (Update.apply outcome) sector

/-- Between `s` and `t` the drive changed by the commands of the list, and those whose results are
looked at succeeded in case of `success`. -/
structure Accounts (s t : Fat32State) (log : List Update) (success : Prop) : Prop where
  outcome : t.ata.outcome = s.ata.outcome
  sector : t.ata.sector = replayUpdates s.ata.outcome log s.ata.sector
  checked : success → ∀ u ∈ log, u.dropped = false → s.ata.outcome u.command = .ok

/-- Nothing was to be stored. -/
abbrev Quiet (s t : Fat32State) : Prop := Accounts s t [] True

variable {s s' t : Fat32State} {log log' : List Update} {p q r : Prop} {u : Update} {cluster value lba : UInt32}
  {fuel : Nat} {path : CString} {file : Fat32File}

theorem Accounts.refl (s : Fat32State) (p : Prop) : Accounts s s [] p :=
  ⟨rfl, rfl, fun _ _ member => absurd member List.not_mem_nil⟩

theorem Accounts.trans (first : Accounts s t log p) (second : Accounts t s' log' q) (both : r → p ∧ q) :
    Accounts s s' (log ++ log') r where
  outcome := second.outcome.trans first.outcome
  sector := by
    rw [second.sector, first.sector, first.outcome]
    exact (List.foldl_append ..).symm
  checked := by
    intro success u member
    rcases List.mem_append.mp member with early | late
    · exact first.checked (both success).1 u early
    · rw [← first.outcome]
      exact second.checked (both success).2 u late

theorem Accounts.weaken (accounts : Accounts s t log p) (less : q → p) : Accounts s t log q :=
  ⟨accounts.outcome, accounts.sector, fun success => accounts.checked (less success)⟩

theorem Quiet.before (quiet : Quiet s t) (accounts : Accounts t s' log p) : Accounts s s' log p :=
  quiet.trans accounts fun success => ⟨trivial, success⟩

theorem Accounts.quiet (accounts : Accounts s t log p) (quiet : Quiet t s') : Accounts s s' log p := by
  have both := accounts.trans quiet fun success => ⟨success, trivial⟩
  rwa [List.append_nil] at both

theorem Accounts.dropped (accounts : Accounts s t log p) (q : Prop) : Accounts s t (dropResult log) q where
  outcome := accounts.outcome
  sector := by
    rw [accounts.sector, replayUpdates, replayUpdates, dropResult, List.foldl_map]
    rfl
  checked := by
    intro _ u member kept
    obtain ⟨w, -, rfl⟩ := List.mem_map.mp member
    cases kept

theorem Accounts.single (outcome : t.ata.outcome = s.ata.outcome)
    (sector : t.ata.sector = u.apply s.ata.outcome s.ata.sector) :
    Accounts s t [u] (s.ata.outcome u.command = .ok) := by
  refine ⟨outcome, sector, fun success w member _ => ?_⟩
  rw [List.mem_singleton.mp member]
  exact success

theorem Accounts.cons (first : Accounts s t [u] p) (rest : Accounts t s' log q) (both : r → p ∧ q) :
    Accounts s s' (u :: log) r := first.trans rest both

theorem Accounts.failed (fails : ¬ p) (outcome : t.ata.outcome = s.ata.outcome)
    (sector : t.ata.sector = u.apply s.ata.outcome s.ata.sector) : Accounts s t [u] p :=
  (Accounts.single outcome sector).weaken fun success => absurd success fails

theorem Quiet.of_eq (outcome : t.ata.outcome = s.ata.outcome) (sector : t.ata.sector = s.ata.sector) : Quiet s t :=
  ⟨outcome, sector, fun _ _ member => absurd member List.not_mem_nil⟩

/-! ### The FAT and the data area -/

theorem fat32ReadFat_quiet (s : Fat32State) (cluster : UInt32) : Quiet s (fat32ReadFat s cluster).2 := by
  rw [fat32ReadFat]
  split
  · exact .refl s True
  · by_cases answers : s.Answers s.ata.command
    · rw [Fat32State.readSectorBuffer_answers answers]
      exact .of_eq rfl rfl
    · obtain ⟨err, notOk, fails⟩ := Fat32State.readSectorBuffer_fails answers
        (s.gFs.fatBeginLba + cluster * 4 / fat32SectorSize)
      rw [fails]
      cases err with
      | ok => exact absurd rfl notOk
      | noDrive | timeout | drq | device | badBuffer | unknown =>
        exact .of_eq rfl rfl

/-- One round of `fat32_write_fat`: the read, and the write if the read succeeds. -/
theorem fatCopyUpdates_accounts (cluster value : UInt32) (copies : Nat) (i : UInt8) (s : Fat32State) :
    Accounts s (fat32WriteFatCopies cluster value copies i s).2 (fatCopyUpdates cluster value copies i s)
      ((fat32WriteFatCopies cluster value copies i s).1 = 0) := by
  induction copies generalizing i s with
  | zero => exact .refl s _
  | succ copies ih =>
    rw [fat32WriteFatCopies, fatCopyUpdates]
    have failed : ¬ (-1 : Int32) = 0 := by decide
    by_cases first : s.Answers s.ata.command
    · rw [Fat32State.readSectorBuffer_answers first]
      let s₁ : Fat32State := { s with
        ata.command := s.ata.command + 1
        sectorBuffer := store32
          (copy s.sectorBuffer 0 (s.ata.sector (ataProgram (fat32FatSector s.gFs i cluster)).sector) 512)
          (fat32EntryOffset cluster).toNat value }
      have read : Accounts s s₁ [⟨s.ata.command, none, false⟩] _ := .single rfl rfl
      -- each copy takes a command to read its sector and one to write it
      by_cases second : s₁.Answers s₁.ata.command
      · have write := Fat32State.writeSectorBuffer_answers second (fat32FatSector s.gFs i cluster)
        simp only [s₁] at write
        simp only [write]
        refine read.cons (Accounts.cons (p := s₁.Answers s₁.ata.command) ?_ (ih (i + 1) _) fun success =>
          ⟨second, success⟩) fun success => ⟨first, success⟩
        exact .single rfl (if_pos second).symm
      · obtain ⟨err, notOk, fails⟩ := Fat32State.writeSectorBuffer_fails second (fat32FatSector s.gFs i cluster)
        simp only [s₁] at fails
        simp only [fails]
        cases err with
        | ok => exact absurd rfl notOk
        | noDrive | timeout | drq | device | badBuffer | unknown =>
          refine read.cons (q := False) ?_ fun success => absurd success failed
          exact .failed not_false rfl (if_neg second).symm
    · obtain ⟨err, notOk, fails⟩ := Fat32State.readSectorBuffer_fails first (fat32FatSector s.gFs i cluster)
      rw [fails]
      cases err with
      | ok => exact absurd rfl notOk
      | noDrive | timeout | drq | device | badBuffer | unknown =>
        exact .failed failed rfl rfl

theorem writeFatUpdates_accounts (s : Fat32State) (cluster value : UInt32) :
    Accounts s (fat32WriteFat s cluster value).2 (writeFatUpdates s cluster value)
      ((fat32WriteFat s cluster value).1 = 0) := by
  rw [fat32WriteFat, writeFatUpdates]
  split
  · exact .refl s _
  · exact fatCopyUpdates_accounts cluster (value &&& 0x0FFFFFFF) s.gFs.numFats.toNat 0 s

theorem allocLoopUpdates_accounts (remaining : Nat) (cluster : UInt32) (s : Fat32State) :
    Accounts s (fat32AllocLoop remaining cluster s).2 (allocLoopUpdates remaining cluster s) True := by
  induction remaining generalizing cluster s with
  | zero => exact .refl s True
  | succ remaining ih =>
    simp only [fat32AllocLoop, allocLoopUpdates]
    generalize (if s.gFs.totalClusters + 2 ≤ cluster then 2 else cluster) = d
    refine (fat32ReadFat_quiet s d).before ?_
    split
    · exact ((writeFatUpdates_accounts _ d fat32EocMax).dropped True).quiet (.of_eq rfl rfl)
    · exact ih (d + 1) _

theorem allocUpdates_accounts (s : Fat32State) : Accounts s (fat32AllocCluster s).2 (allocUpdates s) True :=
  allocLoopUpdates_accounts _ _ s

theorem freeChainUpdates_accounts {fuel : Nat} (run : fat32FreeClusterChain fuel s cluster = some t) :
    Accounts s t (freeChainUpdates fuel s cluster) True := by
  induction fuel generalizing s cluster with
  | zero => cases run
  | succ fuel ih =>
    rw [fat32FreeClusterChain] at run
    rw [freeChainUpdates]
    split at run
    · rename_i go
      rw [if_pos go]
      refine (fat32ReadFat_quiet s cluster).before ?_
      exact ((writeFatUpdates_accounts _ cluster fat32FreeCluster).dropped True).trans (ih run) fun _ => ⟨trivial, trivial⟩
    · rename_i stop
      rw [if_neg stop]
      cases run
      exact .refl _ True

theorem fat32ReadSectors_quiet (lba : UInt32) (remaining : Nat) (i : UInt32) (s : Fat32State) :
    Quiet s (fat32ReadSectors lba remaining i s).2 := by
  induction remaining generalizing i s with
  | zero => exact .refl s True
  | succ remaining ih =>
    rw [fat32ReadSectors]
    by_cases answers : s.ata.outcome s.ata.command = .ok
    · simp only [ataReadSector, answers, if_true]
      refine Quiet.before ?_ (ih (i + 1) _)
      exact .of_eq rfl rfl
    · simp only [ataReadSector_fails answers, if_neg answers]
      exact .of_eq rfl rfl

theorem fat32ReadCluster_quiet (s : Fat32State) (cluster : UInt32) : Quiet s (fat32ReadCluster s cluster).2 := by
  rw [fat32ReadCluster]
  split
  · exact .refl s True
  · exact fat32ReadSectors_quiet _ _ 0 s

theorem writeSectorsUpdates_accounts (lba : UInt32) (remaining : Nat) (i : UInt32) (s : Fat32State) :
    Accounts s (fat32WriteSectors lba remaining i s).2 (writeSectorsUpdates lba remaining i s)
      ((fat32WriteSectors lba remaining i s).1 = 0) := by
  induction remaining generalizing i s with
  | zero => exact .refl s _
  | succ remaining ih =>
    rw [fat32WriteSectors, writeSectorsUpdates]
    by_cases answers : s.ata.outcome s.ata.command = .ok
    · simp only [ataWriteSector, answers, if_true]
      refine Accounts.cons (p := s.ata.outcome s.ata.command = .ok) ?_ (ih (i + 1) _) fun success => ⟨answers, success⟩
      exact .single rfl (if_pos answers).symm
    · simp only [ataWriteSector_fails answers, if_neg answers]
      exact .failed (by decide) rfl (if_neg answers).symm

theorem writeClusterUpdates_accounts (s : Fat32State) (cluster : UInt32) :
    Accounts s (fat32WriteCluster s cluster).2 (writeClusterUpdates s cluster)
      ((fat32WriteCluster s cluster).1 = 0) := by
  rw [fat32WriteCluster, writeClusterUpdates]
  split
  · exact .refl s _
  · exact writeSectorsUpdates_accounts _ _ 0 s

/-- The cluster buffer is filled and written. -/
theorem bufferUpdates_accounts (s : Fat32State) (buffer : Bytes) (cluster : UInt32) :
    Accounts s (fat32WriteCluster { s with clusterBuffer := buffer } cluster).2
      (writeClusterUpdates { s with clusterBuffer := buffer } cluster)
      ((fat32WriteCluster { s with clusterBuffer := buffer } cluster).1 = 0) := by
  have filled : Quiet s { s with clusterBuffer := buffer } := .of_eq rfl rfl
  exact filled.before (writeClusterUpdates_accounts _ cluster)

/-! ### Directories -/

theorem fat32FindLoop_quiet {name : ShortName} {found : Option FoundEntry} {fuel : Nat}
    (run : fat32FindLoop name fuel s cluster = some (found, t)) : Quiet s t := by
  induction fuel generalizing s cluster with
  | zero => cases run
  | succ fuel ih =>
    simp only [fat32FindLoop] at run
    split at run
    · refine (fat32ReadCluster_quiet s cluster).before ?_
      split at run
      · cases run
        exact .refl _ True
      · split at run
        · cases run
          exact .refl _ True
        · cases run
          exact .refl _ True
        · exact (fat32ReadFat_quiet _ cluster).before (ih run)
    · cases run
      exact .refl _ True

theorem createLoopUpdates_accounts {name : ShortName} {attr : UInt8} {first : UInt32} {status : Int32} {fuel : Nat}
    (run : fat32CreateLoop name attr first fuel s cluster = some (status, t)) :
    Accounts s t (createLoopUpdates name attr first fuel s cluster) (status = 0) := by
  induction fuel generalizing s cluster with
  | zero => cases run
  | succ fuel ih =>
    simp only [fat32CreateLoop] at run
    simp only [createLoopUpdates]
    split at run
    · rename_i go
      rw [if_pos go]
      refine (fat32ReadCluster_quiet s cluster).before ?_
      split at run
      · rename_i failed
        cases run
        simp only [if_pos failed]
        exact .refl _ _
      · rename_i loaded
        simp only [if_neg loaded]
        cases result : scanSlots (fun _ => false) reusable (fat32ReadCluster s cluster).2.clusterBuffer
            (entriesPerCluster (fat32ReadCluster s cluster).2.gFs) 0 with
        | found i =>
          -- the entry is stored, and its result is that of the call
          simp only [result] at run ⊢
          obtain ⟨rfl, rfl⟩ := Prod.ext_iff.mp (Option.some.inj run)
          exact bufferUpdates_accounts _ _ cluster
        | stopped | exhausted =>
          simp only [result] at run ⊢
          refine (fat32ReadFat_quiet _ cluster).before ?_
          split at run
          · rename_i ends
            simp only [if_pos ends]
            refine (allocUpdates_accounts _).trans ?_ fun success => ⟨trivial, success⟩
            split at run
            · rename_i full
              cases run
              simp only [if_pos full]
              exact .refl _ _
            · rename_i room
              simp only [if_neg room]
              refine ((writeFatUpdates_accounts _ cluster _).dropped True).trans ?_ fun success => ⟨trivial, success⟩
              exact ((bufferUpdates_accounts _ _ _).dropped True).trans (ih run) fun success => ⟨trivial, success⟩
          · rename_i inner
            simp only [if_neg inner]
            exact ih run
    · rename_i stop
      cases run
      rw [if_neg stop]
      exact .refl _ _

/-! ### Files -/

theorem nextOrAppendUpdates_accounts (s : Fat32State) (cluster : UInt32) :
    Accounts s (fat32NextOrAppend s cluster).2 (nextOrAppendUpdates s cluster) True := by
  simp only [fat32NextOrAppend, nextOrAppendUpdates]
  refine (fat32ReadFat_quiet s cluster).before ?_
  split
  · refine (allocUpdates_accounts _).trans ?_ fun _ => ⟨trivial, trivial⟩
    split
    · exact .refl _ True
    · exact (writeFatUpdates_accounts _ cluster _).dropped True
  · exact .refl _ True

theorem writeSkipUpdates_accounts (skip : Nat) (s : Fat32State) (cluster : UInt32) :
    Accounts s (fat32WriteSkip skip s cluster).2 (writeSkipUpdates skip s cluster) True := by
  induction skip generalizing s cluster with
  | zero => exact .refl s True
  | succ skip ih =>
    rw [fat32WriteSkip, writeSkipUpdates]
    split
    · have next := nextOrAppendUpdates_accounts s cluster
      cases step : fat32NextOrAppend s cluster with
      | mk result s₁ =>
        rw [step] at next
        cases result with
        | none => exact next.trans (.refl s₁ True) fun _ => ⟨trivial, trivial⟩
        | some c => exact next.trans (ih s₁ c) fun _ => ⟨trivial, trivial⟩
    · exact .refl s True

theorem writeLoopUpdates_accounts {data : Bytes} {fuel : Nat} {file' : Fat32File}
    {written size offset written' : UInt32}
    (run : fat32WriteLoop data fuel s file written size cluster offset = some (written', file', t)) :
    Accounts s t (writeLoopUpdates data fuel s written size cluster offset) (written' = written + size) := by
  induction fuel generalizing s file written size cluster offset with
  | zero => cases run
  | succ fuel ih =>
    -- a loop that stops with bytes left returns less than it was asked for
    have unfinished {b z : UInt32} (more : 0 < z) : ¬ b = b + z := by
      intro same
      have zero : z = 0 := by simpa using same
      rw [zero] at more
      exact absurd more (by decide)
    simp only [fat32WriteLoop] at run
    simp only [writeLoopUpdates]
    split at run
    · rename_i go
      rw [if_pos go]
      -- the cluster is read first where a part of it is kept, which stores nothing
      have loaded : Quiet s (if 0 < offset ∨ size < s.gFs.bytesPerCluster then fat32ReadCluster s cluster else (0, s)).2 := by
        split
        · exact fat32ReadCluster_quiet s cluster
        · exact .refl s True
      generalize (if 0 < offset ∨ size < s.gFs.bytesPerCluster then fat32ReadCluster s cluster else (0, s)) = read
        at run loaded
      obtain ⟨status, s₁⟩ := read
      simp only at run loaded ⊢
      refine loaded.before ?_
      split at run
      · rename_i failed
        cases run
        simp only [if_pos failed]
        exact .refl _ _
      · rename_i present
        simp only [if_neg present]
        generalize (if size < s₁.gFs.bytesPerCluster - offset then size else s₁.gFs.bytesPerCluster - offset) = toCopy
          at run
        have stored := bufferUpdates_accounts s₁
          (copy s₁.clusterBuffer offset.toNat (fun k => data (written.toNat + k)) toCopy.toNat) cluster
        split at run
        · rename_i failed
          cases run
          simp only [if_pos failed]
          refine stored.trans (.refl _ True) fun whole => absurd whole (unfinished go.1)
        · rename_i done
          simp only [if_neg done]
          -- the rounds to come are asked for the rest, so the total is the same
          have rest : written + toCopy + (size - toCopy) = written + size := by
            rw [UInt32.add_assoc, UInt32.add_comm toCopy, UInt32.sub_add_cancel]
          refine stored.trans (q := written' = written + size) ?_ fun whole => ⟨not_not.mp done, whole⟩
          split at run
          · rename_i more
            simp only [if_pos more]
            have next := nextOrAppendUpdates_accounts (fat32WriteCluster { s₁ with
              clusterBuffer := copy s₁.clusterBuffer offset.toNat (fun k => data (written.toNat + k)) toCopy.toNat }
              cluster).2 cluster
            split at run
            · rename_i s₂ full
              cases run
              simp only [full] at next ⊢
              exact next.trans (.refl _ True) fun whole => absurd whole (rest ▸ unfinished more)
            · rename_i c s₂ step
              simp only [step] at next ⊢
              rw [← rest]
              exact next.trans (ih run) fun whole => ⟨trivial, whole⟩
          · rename_i last
            simp only [if_neg last]
            rw [← rest]
            exact ih run
    · rename_i stop
      rw [if_neg stop]
      cases run
      exact .refl _ _

theorem writeFromUpdates_accounts {data : Bytes} {size : UInt32} {status : Int32} {file' : Fat32File}
    (run : fat32WriteFrom fuel s file data size = some (status, file', t)) :
    Accounts s t (writeFromUpdates fuel s file data size) (status = size.toInt32) := by
  simp only [fat32WriteFrom] at run
  simp only [writeFromUpdates]
  have skipped := writeSkipUpdates_accounts (file.position / s.gFs.bytesPerCluster).toNat s file.firstCluster
  split at run
  · rename_i s₁ full
    cases run
    simp only [full] at skipped ⊢
    exact skipped.trans (.refl _ True) fun _ => ⟨trivial, trivial⟩
  · rename_i c s₁ step
    simp only [step] at skipped ⊢
    simp only [Option.bind_eq_bind, Option.bind_eq_some_iff] at run
    obtain ⟨⟨written, file₁, s₂⟩, loop, same⟩ := run
    cases same
    refine skipped.trans (writeLoopUpdates_accounts loop) fun whole => ⟨trivial, ?_⟩
    rw [UInt32.zero_add]
    have same := congrArg Int32.toUInt32 whole
    rwa [UInt32.toUInt32_toInt32, UInt32.toUInt32_toInt32] at same

theorem writeUpdates_accounts {data : Option Bytes} {size : UInt32} {status : Int32} {file' : Fat32File}
    (run : fat32Write fuel s file data size = some (status, file', t)) :
    Accounts s t (writeUpdates fuel s file data size) (status = size.toInt32) := by
  cases data with
  | none =>
    cases run
    exact .refl _ _
  | some data =>
    simp only [fat32Write] at run
    simp only [writeUpdates]
    split at run
    · rename_i closed
      rw [if_pos closed]
      cases run
      exact .refl _ _
    · rename_i opened
      rw [if_neg opened]
      split at run
      · rename_i empty
        rw [if_pos empty]
        refine (allocUpdates_accounts s).trans ?_ fun whole => ⟨trivial, whole⟩
        split at run
        · rename_i full
          cases run
          simp only [if_pos full]
          exact .refl _ _
        · rename_i room
          simp only [if_neg room]
          exact writeFromUpdates_accounts run
      · rename_i present
        rw [if_neg present]
        exact writeFromUpdates_accounts run

theorem closeUpdates_accounts (s : Fat32State) (file : Fat32File) :
    Accounts s (fat32Close s file).2.2 (closeUpdates s file) True := by
  simp only [fat32Close, closeUpdates]
  split
  · exact .refl s True
  · refine (fat32ReadCluster_quiet s file.dirCluster).before ?_
    split
    · exact .refl _ True
    · exact (bufferUpdates_accounts _ _ _).dropped True

theorem mkdirUpdates_accounts {status : Int32} (run : fat32Mkdir fuel s path = some (status, t)) :
    Accounts s t (mkdirUpdates fuel s path) (status = 0) := by
  simp only [fat32Mkdir] at run
  simp only [mkdirUpdates]
  refine (allocUpdates_accounts s).trans ?_ fun success => ⟨trivial, success⟩
  split at run
  · rename_i full
    cases run
    simp only [if_pos full]
    exact .refl _ _
  · rename_i room
    simp only [if_neg room]
    simp only [Option.bind_eq_bind, Option.bind_eq_some_iff] at run
    obtain ⟨⟨created, s₁⟩, create, run⟩ := run
    have entry := createLoopUpdates_accounts create
    simp only [create, createUpdates]
    refine entry.trans (q := True) ?_ fun success => ⟨?_, trivial⟩
    · split at run
      · rename_i failed
        obtain ⟨s₂, free, same⟩ := Option.bind_eq_some_iff.mp run
        cases same
        simp only [if_pos failed]
        exact freeChainUpdates_accounts free
      · rename_i made
        simp only [if_neg made]
        cases run
        exact (bufferUpdates_accounts _ _ _).dropped True
    · split at run
      · obtain ⟨s₂, free, same⟩ := Option.bind_eq_some_iff.mp run
        cases same
        exact absurd success (by decide)
      · rename_i made
        exact not_not.mp made

theorem unlinkUpdates_accounts {status : Int32} (run : fat32Unlink fuel s path = some (status, t)) :
    Accounts s t (unlinkUpdates fuel s path) (status = 0) := by
  simp only [fat32Unlink, Option.bind_eq_bind, Option.bind_eq_some_iff] at run
  obtain ⟨⟨found, s₁⟩, find, run⟩ := run
  have quiet := fat32FindLoop_quiet find
  simp only [unlinkUpdates, find]
  refine quiet.before ?_
  cases found with
  | none =>
    cases run
    exact .refl _ _
  | some found =>
    obtain ⟨entry, cluster, offset⟩ := found
    simp only at run ⊢
    -- the run goes on in the same way whether there was a chain to free or not
    obtain ⟨s₂, freed, run⟩ : ∃ s₂, (if 2 ≤ entry.firstCluster then fat32FreeClusterChain fuel s₁ entry.firstCluster
        else some s₁) = some s₂ ∧ (if (fat32ReadCluster s₂ cluster).1 ≠ 0 then some (-1, (fat32ReadCluster s₂ cluster).2)
          else some (fat32WriteCluster { (fat32ReadCluster s₂ cluster).2 with
            clusterBuffer := fill (fat32ReadCluster s₂ cluster).2.clusterBuffer offset.toNat 0xE5 1 } cluster)) =
          some (status, t) := by
      split at run
      · rename_i large
        obtain ⟨s₂, free, run⟩ := Option.bind_eq_some_iff.mp run
        exact ⟨s₂, by rw [if_pos large, free], run⟩
      · rename_i small
        exact ⟨s₁, if_neg small, run⟩
    have gaveUp : Accounts s₁ s₂ (if 2 ≤ entry.firstCluster then freeChainUpdates fuel s₁ entry.firstCluster else [])
        True := by
      split at freed
      · rename_i large
        rw [if_pos large]
        exact freeChainUpdates_accounts freed
      · rename_i small
        rw [if_neg small]
        cases freed
        exact .refl _ True
    simp only [freed]
    refine gaveUp.trans ?_ fun success => ⟨trivial, success⟩
    refine (fat32ReadCluster_quiet s₂ cluster).before ?_
    split at run
    · rename_i failed
      cases run
      simp only [if_pos failed]
      exact .refl _ _
    · rename_i loaded
      simp only [if_neg loaded]
      obtain ⟨rfl, rfl⟩ := Prod.ext_iff.mp (Option.some.inj run)
      exact bufferUpdates_accounts _ _ cluster

theorem openUpdates_accounts {path : Option CString} {flags : UInt8} {status : Int32} {file' : Fat32File}
    (run : fat32Open fuel s file path flags = some (status, file', t)) :
    Accounts s t (openUpdates fuel s path flags) (status = 0) := by
  cases path with
  | none =>
    cases run
    exact .refl _ _
  | some path =>
    simp only [fat32Open, Option.bind_eq_bind, Option.bind_eq_some_iff] at run
    obtain ⟨⟨found, s₁⟩, find, run⟩ := run
    have quiet := fat32FindLoop_quiet find
    simp only [openUpdates, find]
    refine quiet.before ?_
    cases found with
    | some found =>
      obtain ⟨entry, cluster, offset⟩ := found
      simp only at run ⊢
      split at run
      · rename_i truncates
        rw [if_pos truncates]
        obtain ⟨s₂, free, same⟩ := Option.bind_eq_some_iff.mp run
        cases same
        exact (freeChainUpdates_accounts free).weaken fun _ => trivial
      · rename_i keeps
        rw [if_neg keeps]
        cases run
        exact .refl _ _
    | none =>
      simp only at run ⊢
      split at run
      · rename_i noCreat
        rw [if_pos noCreat]
        cases run
        exact .refl _ _
      · rename_i creat
        rw [if_neg creat]
        refine (allocUpdates_accounts s₁).trans ?_ fun success => ⟨trivial, success⟩
        split at run
        · rename_i full
          simp only [if_pos full]
          cases run
          exact .refl _ _
        · rename_i room
          simp only [if_neg room]
          simp only [Option.bind_eq_some_iff] at run
          obtain ⟨⟨created, s₂⟩, create, run⟩ := run
          have entry := createLoopUpdates_accounts create
          simp only [create, createUpdates]
          simp only at run
          split at run
          · -- the entry was not stored
            rename_i failed
            obtain ⟨s₃, free, same⟩ := Option.bind_eq_some_iff.mp run
            cases same
            simp only [if_pos failed]
            exact entry.trans (freeChainUpdates_accounts free) fun success => absurd success (by decide)
          · rename_i made
            simp only [if_neg made]
            obtain ⟨⟨found, s₃⟩, find', run⟩ := Option.bind_eq_some_iff.mp run
            -- the new entry is looked up again, which stores nothing
            have again := fat32FindLoop_quiet find'
            simp only [find']
            cases found with
            | some found =>
              cases run
              exact entry.trans again fun _ => ⟨not_not.mp made, trivial⟩
            | none =>
              obtain ⟨s₄, free, same⟩ := Option.bind_eq_some_iff.mp run
              cases same
              exact entry.trans (again.before (freeChainUpdates_accounts free)) fun success => absurd success (by decide)

/-! ### Reading -/

theorem fat32SkipClusters_quiet (skip : Nat) (s : Fat32State) (cluster : UInt32) :
    Quiet s (fat32SkipClusters skip s cluster).2 := by
  induction skip generalizing s cluster with
  | zero => exact .refl s True
  | succ skip ih =>
    simp only [fat32SkipClusters]
    split
    · exact (fat32ReadFat_quiet s cluster).before (ih _ _)
    · exact .refl s True

theorem fat32ReadLoop_quiet {buffer buffer' : Bytes} {file' : Fat32File} {fuel : Nat}
    {count size offset count' : UInt32}
    (run : fat32ReadLoop fuel s file buffer count size cluster offset = some (count', buffer', file', t)) :
    Quiet s t := by
  induction fuel generalizing s file buffer count size cluster offset with
  | zero => cases run
  | succ fuel ih =>
    simp only [fat32ReadLoop] at run
    split at run
    · refine (fat32ReadCluster_quiet s cluster).before ?_
      split at run
      · cases run
        exact .refl _ True
      · generalize (fat32ReadCluster s cluster).2 = s₁ at run
        generalize (if size < s₁.gFs.bytesPerCluster - offset then size else s₁.gFs.bytesPerCluster - offset) = toCopy
          at run
        split at run
        · exact (fat32ReadFat_quiet s₁ cluster).before (ih run)
        · exact ih run
    · cases run
      exact .refl _ True

theorem fat32Read_quiet {buffer buffer' : Option Bytes} {size : UInt32} {status : Int32} {file' : Fat32File}
    (run : fat32Read fuel s file buffer size = some (status, buffer', file', t)) : Quiet s t := by
  cases buffer with
  | none =>
    cases run
    exact .refl _ True
  | some buffer =>
    simp only [fat32Read] at run
    split at run
    · cases run
      exact .refl _ True
    · split at run
      · cases run
        exact .refl _ True
      · obtain ⟨⟨count, buffer₁, file₁, s₁⟩, loop, same⟩ := Option.bind_eq_some_iff.mp run
        cases same
        exact (fat32SkipClusters_quiet _ s file.firstCluster).before (fat32ReadLoop_quiet loop)

/-! ## Success means stored -/

theorem updates_account {fuel : Nat} {m m' : Machine} {call : FsCall} {reply : Reply}
    (done : m.step fuel call = some (reply, m')) :
    Accounts m.fs m'.fs (call.updates fuel m) (call.Succeeds reply.status) := by
  cases call with
  | «open» h path flags =>
    simp only [Machine.step, Option.bind_eq_bind, Option.bind_eq_some_iff] at done
    obtain ⟨⟨status, file, fs⟩, run, same⟩ := done
    cases same
    exact openUpdates_accounts run
  | read h buffer size =>
    simp only [Machine.step, Option.bind_eq_bind, Option.bind_eq_some_iff] at done
    obtain ⟨⟨status, buffer', file, fs⟩, run, same⟩ := done
    cases same
    exact (fat32Read_quiet run).weaken fun _ => trivial
  | write h data size =>
    simp only [Machine.step, Option.bind_eq_bind, Option.bind_eq_some_iff] at done
    obtain ⟨⟨status, file, fs⟩, run, same⟩ := done
    cases same
    exact writeUpdates_accounts run
  | seek h offset whence =>
    simp only [Machine.step] at done
    cases done
    exact .refl _ _
  | close h =>
    simp only [Machine.step] at done
    cases done
    exact (closeUpdates_accounts m.fs (m.file h)).weaken fun _ => trivial
  | unlink path =>
    simp only [Machine.step, Option.bind_eq_bind, Option.bind_eq_some_iff] at done
    obtain ⟨⟨status, fs⟩, run, same⟩ := done
    cases same
    exact unlinkUpdates_accounts run
  | mkdir path =>
    simp only [Machine.step, Option.bind_eq_bind, Option.bind_eq_some_iff] at done
    obtain ⟨⟨status, fs⟩, run, same⟩ := done
    cases same
    exact mkdirUpdates_accounts run

/-- A call that reports success although a sector write failed. -/
def Machine.Unreported (fuel : Nat) (m : Machine) (call : FsCall) : Prop :=
  ∃ reply m', m.step fuel call = some (reply, m') ∧ call.Succeeds reply.status ∧
    ∃ u ∈ call.updates fuel m, u.store.isSome ∧ m.fs.ata.outcome u.command ≠ .ok

instance : (call : FsCall) → (status : Int32) → Decidable (call.Succeeds status)
  | .write .., _ | .open .., _ | .read .., _ | .seek .., _ | .close .., _ | .unlink .., _ | .mkdir .., _ =>
    inferInstanceAs (Decidable (_ = _))

instance (fuel : Nat) (m : Machine) (call : FsCall) : Decidable (m.Unreported fuel call) :=
  decidable_of_iff ((m.step fuel call).any (fun result => call.Succeeds result.1.status) = true ∧
      ∃ u ∈ call.updates fuel m, u.store.isSome ∧ m.fs.ata.outcome u.command ≠ .ok) <| by
    constructor
    · rintro ⟨succeeds, lost⟩
      obtain ⟨⟨reply, m'⟩, run, success⟩ := (Option.any_eq_true _ _).mp succeeds
      exact ⟨reply, m', run, of_decide_eq_true success, lost⟩
    · rintro ⟨reply, m', run, success, lost⟩
      exact ⟨by rw [run]; exact decide_eq_true success, lost⟩

/-- The machine with that drive and no open handle. -/
def failingMachine (n : Nat) : Machine := ⟨failingAt n, fun _ => Fat32File.zero⟩

/-- **Success means stored**, as far as somebody looks: when a call reports success, what it stored
are the commands of its list, and all of them succeeded exactly if those did whose result is dropped. -/
theorem success_means_stored_iff {fuel : Nat} {m m' : Machine} {call : FsCall} {reply : Reply}
    (done : m.step fuel call = some (reply, m')) (success : call.Succeeds reply.status) :
    m'.fs.ata.sector = replayUpdates m.fs.ata.outcome (call.updates fuel m) m.fs.ata.sector ∧
      ((∀ u ∈ call.updates fuel m, u.store.isSome → m.fs.ata.outcome u.command = .ok) ↔
        ∀ u ∈ call.updates fuel m, u.store.isSome → u.dropped = true → m.fs.ata.outcome u.command = .ok) ∧
      ((∀ u ∈ call.updates fuel m, m.fs.ata.outcome u.command = .ok) ↔
        ∀ u ∈ call.updates fuel m, u.dropped = true → m.fs.ata.outcome u.command = .ok) := by
  have accounts := updates_account done
  have checked (u : Update) (member : u ∈ call.updates fuel m)
      (unreported : u.dropped = true → m.fs.ata.outcome u.command = .ok) : m.fs.ata.outcome u.command = .ok := by
    cases mark : u.dropped with
    | true => exact unreported mark
    | false => exact accounts.checked success u member mark
  refine ⟨accounts.sector, ⟨fun all u member write _ => all u member write, fun some u member write => ?_⟩,
    fun all u member _ => all u member, fun some u member => checked u member (some u member)⟩
  exact checked u member (some u member write)

theorem success_means_stored_mkdir :
    ∃ reply m', (failingMachine 7).step 4294967296 (.mkdir (letterPath 0x42 (by decide))) = some (reply, m') ∧
      reply.status = 0 ∧ ∃ u ∈ FsCall.updates 4294967296 (failingMachine 7) (.mkdir (letterPath 0x42 (by decide))),
        u.dropped = true ∧ (failingMachine 7).fs.ata.outcome u.command ≠ .ok := by
  have lost : (failingMachine 7).Unreported 4294967296 (.mkdir (letterPath 0x42 (by decide))) := by decide +kernel
  obtain ⟨reply, m', run, success, u, member, -, failed⟩ := lost
  obtain ⟨-, -, stored⟩ := success_means_stored_iff run success
  refine ⟨reply, m', run, success, ?_⟩
  by_contra none
  have all (w : Update) (inList : w ∈ FsCall.updates 4294967296 (failingMachine 7) (.mkdir (letterPath 0x42 (by decide))))
      (mark : w.dropped = true) : (failingMachine 7).fs.ata.outcome w.command = .ok := by
    by_contra lost
    exact none ⟨w, inList, mark, lost⟩
  exact failed (stored.mpr all u member)

/-- Each of the five calls reports success although a write failed: of a free mark, of the blank
cluster of a directory, of the entry of a file, or of the mark on a new cluster. -/
theorem failed_writes_unreported :
    (failingMachine 3).Unreported 4294967296 (.open 0 (some (letterPath 0x41 (by decide))) fat32OTrunc) ∧
    (failingMachine 3).Unreported 4294967296 (.unlink (letterPath 0x41 (by decide))) ∧
    (failingMachine 7).Unreported 4294967296 (.mkdir (letterPath 0x42 (by decide))) ∧
    (∃ reply m, (failingMachine 2).step 4294967296 (.open 0 (some (letterPath 0x41 (by decide))) 0) = some (reply, m) ∧
      m.Unreported 4294967296 (.close 0)) ∧
    ∃ reply m, (failingMachine 5).step 4294967296 (.open 0 (some (letterPath 0x41 (by decide))) 0) = some (reply, m) ∧
      m.Unreported 4294967296 (.write 0 (some fun _ => 7) 600) := by
  have handle {n : Nat} {call : FsCall} (lost : ((failingMachine n).step 4294967296
      (.open 0 (some (letterPath 0x41 (by decide))) 0)).any (fun result => result.2.Unreported 4294967296 call) = true) :
      ∃ reply m, (failingMachine n).step 4294967296 (.open 0 (some (letterPath 0x41 (by decide))) 0) = some (reply, m) ∧
        m.Unreported 4294967296 call := by
    obtain ⟨⟨reply, m⟩, run, unreported⟩ := (Option.any_eq_true _ _).mp lost
    exact ⟨reply, m, run, of_decide_eq_true unreported⟩
  exact ⟨by decide +kernel, by decide +kernel, by decide +kernel, handle (by decide +kernel), handle (by decide +kernel)⟩

end QuantumKernel.Fat32
