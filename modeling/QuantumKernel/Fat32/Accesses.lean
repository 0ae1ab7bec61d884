import QuantumKernel.Fat32.Calls
import QuantumKernel.Fat32.Mount

/-! # What every access to the volume keeps

The driver reaches its drive through four functions: it reads and writes entries of the FAT, and it
reads and writes clusters.  Beside these it changes its cluster buffer, the allocation hint and the
working directory.  A property that these few changes keep is `Upheld`, and then every call keeps
it: whatever the caller asks for, however the directory looks, and whether the drive answers or not.
-/

namespace QuantumKernel.Fat32

open ByteStore Transition

/-- Every access of the driver keeps the property. -/
structure Upheld (P : Fat32State → Prop) : Prop where
  readFat {s : Fat32State} (cluster : UInt32) : P s → P (fat32ReadFat s cluster).2
  writeFat {s : Fat32State} (cluster value : UInt32) : P s → P (fat32WriteFat s cluster value).2
  readCluster {s : Fat32State} (cluster : UInt32) : P s → P (fat32ReadCluster s cluster).2
  writeCluster {s : Fat32State} (cluster : UInt32) : P s → P (fat32WriteCluster s cluster).2
  buffer {s : Fat32State} (bytes : Bytes) : P s → P { s with clusterBuffer := bytes }
  hint {s : Fat32State} (cluster : UInt32) : P s → P { s with gFs.fsinfo.nextFree := cluster }
  cwd {s : Fat32State} (cluster : UInt32) : P s → P { s with gCurrentDirCluster := cluster }

variable {P : Fat32State → Prop} {s s' : Fat32State} {fuel : Nat} {cluster size offset value : UInt32}
  {status : Int32} {file file' : Fat32File} {path : CString} {name : ShortName} {attr : UInt8}

namespace Upheld

/-- A FAT entry is read, as an equation. -/
theorem readFat' (up : Upheld P) (holds : P s) (read : fat32ReadFat s cluster = (value, s')) : P s' := by
  have kept := up.readFat cluster holds
  rwa [read] at kept

theorem writeFat' (up : Upheld P) (holds : P s) {written : UInt32}
    (write : fat32WriteFat s cluster written = (status, s')) : P s' := by
  have kept := up.writeFat cluster written holds
  rwa [write] at kept

theorem readCluster' (up : Upheld P) (holds : P s) (read : fat32ReadCluster s cluster = (status, s')) : P s' := by
  have kept := up.readCluster cluster holds
  rwa [read] at kept

/-- A cluster is written from a buffer that was filled before. -/
theorem store (up : Upheld P) (holds : P s) {bytes : Bytes}
    (write : fat32WriteCluster { s with clusterBuffer := bytes } cluster = (status, s')) : P s' := by
  have kept := up.writeCluster cluster (up.buffer bytes holds)
  rwa [write] at kept

/-! ## The FAT -/

theorem allocLoop (up : Upheld P) (remaining : Nat) (cluster : UInt32) (holds : P s) :
    P (fat32AllocLoop remaining cluster s).2 := by
  induction remaining generalizing s cluster with
  | zero => exact holds
  | succ remaining ih =>
    rw [fat32AllocLoop]
    cases read : fat32ReadFat s (if s.gFs.totalClusters + 2 ≤ cluster then 2 else cluster) with
    | mk value s₁ =>
      have kept := up.readFat' holds read
      simp only
      split
      · exact up.hint _ (up.writeFat _ _ kept)
      · exact ih _ kept

theorem allocCluster (up : Upheld P) (holds : P s) (alloc : fat32AllocCluster s = (value, s')) : P s' := by
  have kept := up.allocLoop s.gFs.totalClusters.toNat
    (if s.gFs.fsinfo.nextFree < 2 then 2 else s.gFs.fsinfo.nextFree) holds
  rw [fat32AllocCluster] at alloc
  rwa [alloc] at kept

theorem freeClusterChain (up : Upheld P) (holds : P s) (done : fat32FreeClusterChain fuel s cluster = some s') :
    P s' := by
  induction fuel generalizing s cluster with
  | zero => cases done
  | succ fuel ih =>
    rw [fat32FreeClusterChain] at done
    split at done
    · cases read : fat32ReadFat s cluster with
      | mk next s₁ =>
        cases write : fat32WriteFat s₁ cluster fat32FreeCluster with
        | mk status s₂ =>
          simp only [read, write] at done
          exact ih (up.writeFat' (up.readFat' holds read) write) done
    · cases done
      exact holds

theorem skipClusters (up : Upheld P) {skip : Nat} (holds : P s)
    (done : fat32SkipClusters skip s cluster = (value, s')) : P s' := by
  induction skip generalizing s cluster with
  | zero =>
    cases done
    exact holds
  | succ skip ih =>
    rw [fat32SkipClusters] at done
    split at done
    · cases read : fat32ReadFat s cluster with
      | mk next s₁ =>
        simp only [read] at done
        exact ih (up.readFat' holds read) done
    · cases done
      exact holds

/-! ## Directories -/

theorem findEntry (up : Upheld P) {found : Option FoundEntry} (holds : P s)
    (done : fat32FindEntry fuel s cluster path = some (found, s')) : P s' := by
  rw [fat32FindEntry] at done
  induction fuel generalizing s cluster with
  | zero => cases done
  | succ fuel ih =>
    rw [fat32FindLoop] at done
    split at done
    · cases read : fat32ReadCluster s cluster with
      | mk status s₁ =>
        have kept := up.readCluster' holds read
        simp only [read] at done
        split at done
        · cases done
          exact kept
        · split at done
          · cases done
            exact kept
          · cases done
            exact kept
          · cases next : fat32ReadFat s₁ cluster with
            | mk value s₂ =>
              simp only [next] at done
              exact ih (up.readFat' kept next) done
    · cases done
      exact holds

theorem createEntry (up : Upheld P) {first : UInt32} (holds : P s)
    (done : fat32CreateEntry fuel s cluster path attr first = some (status, s')) : P s' := by
  rw [fat32CreateEntry] at done
  induction fuel generalizing s cluster with
  | zero => cases done
  | succ fuel ih =>
    rw [fat32CreateLoop] at done
    split at done
    · cases read : fat32ReadCluster s cluster with
      | mk readStatus s₁ =>
        have kept := up.readCluster' holds read
        simp only [read] at done
        split at done
        · cases done
          exact kept
        · split at done
          · exact up.store kept (Option.some.inj done)
          · cases next : fat32ReadFat s₁ cluster with
            | mk value s₂ =>
              have kept := up.readFat' kept next
              simp only [next] at done
              split at done
              · -- the directory grows by a blank cluster
                cases alloc : fat32AllocCluster s₂ with
                | mk newCluster s₃ =>
                  have kept := up.allocCluster kept alloc
                  simp only [alloc] at done
                  split at done
                  · cases done
                    exact kept
                  · cases link : fat32WriteFat s₃ cluster newCluster with
                    | mk linked s₄ =>
                      have kept := up.writeFat' kept link
                      simp only [link] at done
                      exact ih (up.writeCluster _ (up.buffer _ kept)) done
              · exact ih kept done
    · cases done
      exact holds

theorem readdir (up : Upheld P) {index : UInt32} {info : Fat32FileInfo} {reply : ReaddirReply} (holds : P s)
    (done : fat32Readdir fuel s cluster index info = some (reply, s')) : P s' := by
  rw [fat32Readdir] at done
  cases skip : fat32SkipClusters (index.toNat / entriesPerCluster s.gFs) s cluster with
  | mk start s₀ =>
    have kept := up.skipClusters holds skip
    simp only [skip] at done
    generalize index.toNat % entriesPerCluster s.gFs = entry at done
    clear skip
    induction fuel generalizing s₀ start entry with
    | zero => cases done
    | succ fuel ih =>
      rw [fat32ReaddirLoop] at done
      split at done
      · cases read : fat32ReadCluster s₀ start with
        | mk status s₁ =>
          have kept := up.readCluster' kept read
          simp only [read] at done
          split at done
          · cases done
            exact kept
          · split at done
            · cases done
              exact kept
            · cases done
              exact kept
            · cases next : fat32ReadFat s₁ start with
              | mk value s₂ =>
                simp only [next] at done
                exact ih value s₂ (up.readFat' kept next) 0 done
      · cases done
        exact kept

/-! ## Files -/

theorem openFile (up : Upheld P) {path : Option CString} {flags : UInt8} (holds : P s)
    (done : fat32Open fuel s file path flags = some (status, file', s')) : P s' := by
  cases path with
  | none =>
    cases done
    exact holds
  | some path =>
    simp only [fat32Open, Option.bind_eq_bind, Option.bind_eq_some_iff] at done
    obtain ⟨⟨found, s₁⟩, find, done⟩ := done
    have kept := up.findEntry holds find
    cases found with
    | some entry =>
      obtain ⟨entry, entryCluster, entryOffset⟩ := entry
      simp only at done
      split at done
      · simp only [Option.bind_eq_some_iff] at done
        obtain ⟨s₂, free, same⟩ := done
        cases same
        exact up.freeClusterChain kept free
      · cases done
        exact kept
    | none =>
      simp only at done
      split at done
      · cases done
        exact kept
      · cases alloc : fat32AllocCluster s₁ with
        | mk newCluster s₂ =>
          have kept := up.allocCluster kept alloc
          simp only [alloc] at done
          split at done
          · cases done
            exact kept
          · simp only [Option.bind_eq_some_iff] at done
            obtain ⟨⟨created, s₃⟩, create, done⟩ := done
            have kept := up.createEntry kept create
            split at done
            · simp only [Option.bind_eq_some_iff] at done
              obtain ⟨s₄, free, same⟩ := done
              cases same
              exact up.freeClusterChain kept free
            · simp only [Option.bind_eq_some_iff] at done
              obtain ⟨⟨found, s₄⟩, find, done⟩ := done
              have kept := up.findEntry kept find
              cases found with
              | none =>
                simp only [Option.bind_eq_some_iff] at done
                obtain ⟨s₅, free, same⟩ := done
                cases same
                exact up.freeClusterChain kept free
              | some entry =>
                cases done
                exact kept

theorem close (up : Upheld P) (holds : P s) (done : fat32Close s file = (status, file', s')) : P s' := by
  rw [fat32Close] at done
  split at done
  · cases done
    exact holds
  · cases read : fat32ReadCluster s file.dirCluster with
    | mk readStatus s₁ =>
      have kept := up.readCluster' holds read
      simp only [read] at done
      split at done
      · cases done
        exact kept
      · cases done
        exact up.writeCluster _ (up.buffer _ kept)

theorem readLoop (up : Upheld P) {buffer buffer' : Bytes} {bytesRead n : UInt32} (holds : P s)
    (done : fat32ReadLoop fuel s file buffer bytesRead size cluster offset = some (n, buffer', file', s')) :
    P s' := by
  induction fuel generalizing s file buffer bytesRead size cluster offset with
  | zero => cases done
  | succ fuel ih =>
    rw [fat32ReadLoop] at done
    split at done
    · cases read : fat32ReadCluster s cluster with
      | mk status s₁ =>
        have kept := up.readCluster' holds read
        simp only [read] at done
        split at done
        · cases done
          exact kept
        · generalize (if size < s₁.gFs.bytesPerCluster - offset then size
            else s₁.gFs.bytesPerCluster - offset) = toCopy at done
          split at done
          · cases next : fat32ReadFat s₁ cluster with
            | mk value s₂ =>
              simp only [next] at done
              exact ih (up.readFat' kept next) done
          · exact ih kept done
    · cases done
      exact holds

theorem read (up : Upheld P) {buffer buffer' : Option Bytes} (holds : P s)
    (done : fat32Read fuel s file buffer size = some (status, buffer', file', s')) : P s' := by
  cases buffer with
  | none =>
    cases done
    exact holds
  | some buffer =>
    rw [fat32Read] at done
    split at done
    · cases done
      exact holds
    · split at done
      · cases done
        exact holds
      · simp only at done
        cases skip : fat32SkipClusters (file.position / s.gFs.bytesPerCluster).toNat s file.firstCluster with
        | mk start s₁ =>
          simp only [skip, Option.bind_eq_bind, Option.bind_eq_some_iff] at done
          obtain ⟨⟨n, buffer₁, file₁, s₂⟩, loop, same⟩ := done
          cases same
          exact up.readLoop (up.skipClusters holds skip) loop

theorem nextOrAppend (up : Upheld P) {next : Option UInt32} (holds : P s)
    (done : fat32NextOrAppend s cluster = (next, s')) : P s' := by
  rw [fat32NextOrAppend] at done
  cases read : fat32ReadFat s cluster with
  | mk value s₁ =>
    have kept := up.readFat' holds read
    simp only [read] at done
    split at done
    · cases alloc : fat32AllocCluster s₁ with
      | mk newCluster s₂ =>
        have kept := up.allocCluster kept alloc
        simp only [alloc] at done
        split at done
        · cases done
          exact kept
        · cases done
          exact up.writeFat _ _ kept
    · cases done
      exact kept

theorem writeSkip (up : Upheld P) {skip : Nat} {reached : Option UInt32} (holds : P s)
    (done : fat32WriteSkip skip s cluster = (reached, s')) : P s' := by
  induction skip generalizing s cluster with
  | zero =>
    cases done
    exact holds
  | succ skip ih =>
    rw [fat32WriteSkip] at done
    split at done
    · cases step : fat32NextOrAppend s cluster with
      | mk next s₁ =>
        have kept := up.nextOrAppend holds step
        rw [step] at done
        cases next with
        | none =>
          cases done
          exact kept
        | some next => exact ih kept done
    · cases done
      exact holds

theorem writeLoop (up : Upheld P) {data : Bytes} {bytesWritten n : UInt32} (holds : P s)
    (done : fat32WriteLoop data fuel s file bytesWritten size cluster offset = some (n, file', s')) : P s' := by
  induction fuel generalizing s file bytesWritten size cluster offset with
  | zero => cases done
  | succ fuel ih =>
    rw [fat32WriteLoop] at done
    split at done
    · cases load : (if 0 < offset ∨ size < s.gFs.bytesPerCluster then fat32ReadCluster s cluster else (0, s)) with
      | mk status s₁ =>
        -- a cluster that is overwritten as a whole is not read
        have kept : P s₁ := by
          split at load
          · exact up.readCluster' holds load
          · cases load
            exact holds
        simp only [load] at done
        split at done
        · cases done
          exact kept
        · generalize (if size < s₁.gFs.bytesPerCluster - offset then size
            else s₁.gFs.bytesPerCluster - offset) = toCopy at done
          cases write : fat32WriteCluster { s₁ with
              clusterBuffer := copy s₁.clusterBuffer offset.toNat
                (fun k => data (bytesWritten.toNat + k)) toCopy.toNat } cluster with
          | mk writeStatus s₂ =>
            have kept := up.store kept write
            simp only [write] at done
            split at done
            · cases done
              exact kept
            · split at done
              · cases step : fat32NextOrAppend s₂ cluster with
                | mk next s₃ =>
                  have kept := up.nextOrAppend kept step
                  rw [step] at done
                  cases next with
                  | none =>
                    cases done
                    exact kept
                  | some next => exact ih kept done
              · exact ih kept done
    · cases done
      exact holds

theorem writeFrom (up : Upheld P) {data : Bytes} (holds : P s)
    (done : fat32WriteFrom fuel s file data size = some (status, file', s')) : P s' := by
  rw [fat32WriteFrom] at done
  simp only at done
  cases skip : fat32WriteSkip (file.position / s.gFs.bytesPerCluster).toNat s file.firstCluster with
  | mk reached s₁ =>
    have kept := up.writeSkip holds skip
    rw [skip] at done
    cases reached with
    | none =>
      cases done
      exact kept
    | some start =>
      simp only [Option.bind_eq_bind, Option.bind_eq_some_iff] at done
      obtain ⟨⟨n, file₁, s₂⟩, loop, same⟩ := done
      cases same
      exact up.writeLoop kept loop

theorem write (up : Upheld P) {data : Option Bytes} (holds : P s)
    (done : fat32Write fuel s file data size = some (status, file', s')) : P s' := by
  cases data with
  | none =>
    cases done
    exact holds
  | some data =>
    rw [fat32Write] at done
    split at done
    · cases done
      exact holds
    · split at done
      · cases alloc : fat32AllocCluster s with
        | mk newCluster s₁ =>
          have kept := up.allocCluster holds alloc
          simp only [alloc] at done
          split at done
          · cases done
            exact kept
          · exact up.writeFrom kept done
      · exact up.writeFrom holds done

theorem mkdir (up : Upheld P) (holds : P s) (done : fat32Mkdir fuel s path = some (status, s')) : P s' := by
  rw [fat32Mkdir] at done
  cases alloc : fat32AllocCluster s with
  | mk newCluster s₁ =>
    have kept := up.allocCluster holds alloc
    simp only [alloc] at done
    split at done
    · cases done
      exact kept
    · simp only [Option.bind_eq_bind, Option.bind_eq_some_iff] at done
      obtain ⟨⟨created, s₂⟩, create, done⟩ := done
      have kept := up.createEntry kept create
      split at done
      · simp only [Option.bind_eq_some_iff] at done
        obtain ⟨s₃, free, same⟩ := done
        cases same
        exact up.freeClusterChain kept free
      · cases done
        exact up.writeCluster _ (up.buffer _ kept)

/-- The end of `fat32_unlink`: the slot is marked as deleted. -/
theorem eraseSlot (up : Upheld P) (holds : P s) {bytes : Bytes}
    (done : (if (fat32ReadCluster s cluster).1 ≠ 0 then some (-1, (fat32ReadCluster s cluster).2)
      else some (fat32WriteCluster { (fat32ReadCluster s cluster).2 with clusterBuffer := bytes } cluster)) =
        some (status, s')) : P s' := by
  have kept := up.readCluster cluster holds
  split at done
  · cases done
    exact kept
  · exact up.store kept (Option.some.inj done)

theorem unlink (up : Upheld P) (holds : P s) (done : fat32Unlink fuel s path = some (status, s')) : P s' := by
  simp only [fat32Unlink, Option.bind_eq_bind, Option.bind_eq_some_iff] at done
  obtain ⟨⟨found, s₁⟩, find, done⟩ := done
  have kept := up.findEntry holds find
  cases found with
  | none =>
    cases done
    exact kept
  | some entry =>
    obtain ⟨entry, entryCluster, entryOffset⟩ := entry
    simp only at done
    split at done
    · simp only [Option.bind_eq_some_iff] at done
      obtain ⟨s₂, free, done⟩ := done
      exact up.eraseSlot (up.freeClusterChain kept free) done
    · simp only [Option.bind_some] at done
      exact up.eraseSlot kept done

/-! ## The working directory -/

theorem resolveLoop (up : Upheld P) {stack : Nat → CString} {remaining i : Nat} {reached : Option UInt32}
    (holds : P s) (done : Fat32.resolveLoop fuel stack remaining i s cluster = some (reached, s')) : P s' := by
  induction remaining generalizing s i cluster with
  | zero =>
    cases done
    exact holds
  | succ remaining ih =>
    simp only [Fat32.resolveLoop, Option.bind_eq_bind, Option.bind_eq_some_iff] at done
    obtain ⟨⟨found, s₁⟩, find, done⟩ := done
    have kept := up.findEntry holds find
    cases found with
    | none =>
      cases done
      exact kept
    | some found => exact ih kept done

theorem chdir (up : Upheld P) {w w' : WorkingDirectory} (holds : P w.fs)
    (done : fat32Chdir fuel w path = some (status, w')) : P w'.fs := by
  rw [fat32Chdir] at done
  split at done
  · cases done
    exact up.cwd _ holds
  · split at done
    · split at done
      · simp only at done
        split at done
        · cases done
          exact up.cwd _ holds
        · simp only [Option.bind_eq_bind, Option.bind_eq_some_iff] at done
          obtain ⟨⟨reached, s₁⟩, resolve, done⟩ := done
          have kept := up.resolveLoop holds resolve
          cases reached with
          | none =>
            cases done
            exact kept
          | some reached =>
            cases done
            exact up.cwd _ kept
      · cases done
        exact holds
    · simp only [Option.bind_eq_bind, Option.bind_eq_some_iff] at done
      obtain ⟨⟨found, s₁⟩, find, done⟩ := done
      have kept := up.findEntry holds find
      cases found with
      | none =>
        cases done
        exact kept
      | some found =>
        simp only at done
        split at done
        · cases done
          exact kept
        · split at done
          · cases done
            exact up.cwd _ kept
          · cases done
            exact up.cwd _ kept

end Upheld

/-! ## Runs of all calls -/

/-- The driver with the working directory and the handles of its callers. -/
structure Driver where
  dir : WorkingDirectory
  file : Nat → Fat32File

/-- A call of the driver. -/
inductive DriverCall
  | file (call : FsCall)
  | readdir (cluster index : UInt32) (info : Fat32FileInfo)
  | chdir (path : CString)

/-- What a call of the driver answers. -/
inductive DriverReply
  | file (reply : Reply)
  | readdir (reply : ReaddirReply)
  | chdir (status : Int32)

/-- One call; `none` when the fuel runs out. -/
def Driver.step (fuel : Nat) (d : Driver) : DriverCall → Option (DriverReply × Driver)
  | .file call => do
    let (reply, machine) ← Machine.step fuel ⟨d.dir.fs, d.file⟩ call
    some (.file reply, ⟨{ d.dir with fs := machine.fs }, machine.file⟩)
  | .readdir cluster index info => do
    let (reply, fs) ← fat32Readdir fuel d.dir.fs cluster index info
    some (.readdir reply, { d with dir := { d.dir with fs := fs } })
  | .chdir path => do
    let (status, dir) ← fat32Chdir fuel d.dir path
    some (.chdir status, { d with dir := dir })

variable {m m' : Machine} {d d' : Driver} {calls : List (DriverCall × DriverReply)}

theorem Upheld.machine (up : Upheld P) {call : FsCall} {reply : Reply} (holds : P m.fs)
    (done : m.step fuel call = some (reply, m')) : P m'.fs := by
  cases call with
  | «open» h path flags =>
    simp only [Machine.step, Option.bind_eq_bind, Option.bind_eq_some_iff] at done
    obtain ⟨⟨status, file, fs⟩, run, same⟩ := done
    cases same
    exact up.openFile holds run
  | read h buffer size =>
    simp only [Machine.step, Option.bind_eq_bind, Option.bind_eq_some_iff] at done
    obtain ⟨⟨status, buffer', file, fs⟩, run, same⟩ := done
    cases same
    exact up.read holds run
  | write h data size =>
    simp only [Machine.step, Option.bind_eq_bind, Option.bind_eq_some_iff] at done
    obtain ⟨⟨status, file, fs⟩, run, same⟩ := done
    cases same
    exact up.write holds run
  | seek h offset whence =>
    cases done
    exact holds
  | close h =>
    cases run : fat32Close m.fs (m.file h) with
    | mk status rest =>
      obtain ⟨file, fs⟩ := rest
      simp only [Machine.step, run] at done
      cases done
      exact up.close holds run
  | unlink path =>
    simp only [Machine.step, Option.bind_eq_bind, Option.bind_eq_some_iff] at done
    obtain ⟨⟨status, fs⟩, run, same⟩ := done
    cases same
    exact up.unlink holds run
  | mkdir path =>
    simp only [Machine.step, Option.bind_eq_bind, Option.bind_eq_some_iff] at done
    obtain ⟨⟨status, fs⟩, run, same⟩ := done
    cases same
    exact up.mkdir holds run

theorem Upheld.driver (up : Upheld P) {call : DriverCall} {reply : DriverReply} (holds : P d.dir.fs)
    (done : d.step fuel call = some (reply, d')) : P d'.dir.fs := by
  cases call with
  | file call =>
    simp only [Driver.step, Option.bind_eq_bind, Option.bind_eq_some_iff] at done
    obtain ⟨⟨r, machine⟩, run, same⟩ := done
    cases same
    exact up.machine (m := ⟨d.dir.fs, d.file⟩) holds run
  | readdir cluster index info =>
    simp only [Driver.step, Option.bind_eq_bind, Option.bind_eq_some_iff] at done
    obtain ⟨⟨r, fs⟩, run, same⟩ := done
    cases same
    exact up.readdir holds run
  | chdir path =>
    simp only [Driver.step, Option.bind_eq_bind, Option.bind_eq_some_iff] at done
    obtain ⟨⟨status, dir⟩, run, same⟩ := done
    cases same
    exact up.chdir holds run

/-- What the accesses keep holds along every run of calls. -/
theorem Upheld.run (up : Upheld P) {allowed : Driver → DriverCall → Prop}
    (run : Run (Driver.step fuel) allowed d calls d') (holds : P d.dir.fs) : P d'.dir.fs :=
  run.invariant (fun d => P d.dir.fs) (fun _ _ _ _ holds _ done => up.driver holds done) holds

end QuantumKernel.Fat32
