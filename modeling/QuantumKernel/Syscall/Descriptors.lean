import QuantumKernel.Syscall.Files

/-! # The table of descriptors

`file_used` and `file_table` are a partial map from sixteen descriptors to open handles.
Nothing here depends on what is on the drive or on how it answers: the results hold for every
pattern of failures and every volume.
-/

namespace QuantumKernel.Syscall

open Fat32 ByteStore Transition

/-- A partial map from the descriptors to handles. -/
abbrev Table := Fin maxFiles → Option Fat32File

/-- The handles in use. -/
def Kernel.openFiles (k : Kernel) : Table :=
  fun fd => if k.fileUsed fd then some (k.session.machine.file fd) else none

/-- The descriptor that a system call is about. -/
def FileCall.descriptor : FileCall → Option Int32
  | .close fd | .fileRead fd _ _ | .fileWrite fd _ _ | .seek fd _ _ => some fd
  | .open _ _ | .unlink _ | .mkdir _ => none

/-- The number of a descriptor. -/
def fdNumber (fd : Fin maxFiles) : Int32 := Int32.ofNat fd

/-- What a system call may do to the table. -/
inductive Table.Step (m : Table) : FileCall → Int32 → Table → Prop
  | opened (path : Option CString) (flags : Int32) (fd : Fin maxFiles) (file : Fat32File) :
      m fd = none → file.isOpen = true →
      Step m (.open path flags) (fdNumber fd) (Function.update m fd (some file))
  | openFailed (path : Option CString) (flags : Int32) : Step m (.open path flags) (-1) m
  | badDescriptor (call : FileCall) (fd : Int32) :
      call.descriptor = some fd → (∀ i, fd = fdNumber i → m i = none) → Step m call (-1) m
  | closed (fd : Fin maxFiles) (status : Int32) :
      m fd ≠ none → Step m (.close (fdNumber fd)) status (Function.update m fd none)
  | used (call : FileCall) (fd : Fin maxFiles) (status : Int32) (file : Fat32File) :
      call.descriptor = some (fdNumber fd) → (∀ g, call ≠ .close g) → m fd ≠ none → file.isOpen = true →
      Step m call status (Function.update m fd (some file))
  | onPath (call : FileCall) (status : Int32) :
      (∃ path, call = .unlink path ∨ call = .mkdir path) → Step m call status m

/-- The handles of the descriptors in use are open. -/
def Kernel.UsedOpen (k : Kernel) : Prop :=
  ∀ fd, k.fileUsed fd = true → fd < maxFiles ∧ (k.session.machine.file fd).isOpen = true

variable {k k' : Kernel} {call : FileCall} {reply : Reply} {r : Reply} {fuel : Nat} {fd : Int32} {s s' : Fat32State}
  {file file' : Fat32File} {path : Option CString} {flags : UInt8} {status : Int32} {m m' : Machine}
  {t t' : Session} {calls : List (FileCall × Reply)}

/-! ## The file interface -/

theorem fat32Open_isOpen (done : fat32Open fuel s file path flags = some (0, file', s')) : file'.isOpen = true := by
  cases path with
  | none => cases done
  | some path =>
    simp only [fat32Open, Option.bind_eq_bind, Option.bind_eq_some_iff] at done
    obtain ⟨⟨found, s₁⟩, -, done⟩ := done
    cases found with
    | some entry =>
      obtain ⟨entry, entryCluster, entryOffset⟩ := entry
      simp only at done
      split at done
      · simp only [Option.bind_eq_some_iff] at done
        obtain ⟨s₂, -, same⟩ := done
        cases same
        rfl
      · cases done
        rfl
    | none =>
      simp only at done
      split at done
      · cases done
      · split at done
        · cases done
        · simp only [Option.bind_eq_some_iff] at done
          obtain ⟨⟨created, s₂⟩, -, done⟩ := done
          split at done
          · simp only [Option.bind_eq_some_iff] at done
            obtain ⟨s₃, -, same⟩ := done
            cases same
          · simp only [Option.bind_eq_some_iff] at done
            obtain ⟨⟨found, s₃⟩, -, done⟩ := done
            cases found with
            | none =>
              simp only [Option.bind_eq_some_iff] at done
              obtain ⟨s₄, -, same⟩ := done
              cases same
            | some entry =>
              cases done
              rfl

theorem fat32ReadLoop_isOpen {buffer buffer' : Bytes} {bytesRead size cluster offset n : UInt32}
    (done : fat32ReadLoop fuel s file buffer bytesRead size cluster offset = some (n, buffer', file', s')) :
    file'.isOpen = file.isOpen := by
  induction fuel generalizing s file buffer bytesRead size cluster offset with
  | zero => cases done
  | succ fuel ih =>
    rw [fat32ReadLoop] at done
    split at done
    · cases read : fat32ReadCluster s cluster with
      | mk status s₁ =>
        simp only [read] at done
        split at done
        · cases done
          rfl
        · generalize (if size < s₁.gFs.bytesPerCluster - offset then size
            else s₁.gFs.bytesPerCluster - offset) = toCopy at done
          split at done
          · exact (ih done).trans rfl
          · exact (ih done).trans rfl
    · cases done
      rfl

theorem fat32Read_isOpen {buffer buffer' : Option Bytes} {size : UInt32}
    (done : fat32Read fuel s file buffer size = some (status, buffer', file', s')) :
    file'.isOpen = file.isOpen := by
  cases buffer with
  | none =>
    cases done
    rfl
  | some buffer =>
    rw [fat32Read] at done
    split at done
    · cases done
      rfl
    · split at done
      · cases done
        rfl
      · simp only [Option.bind_eq_bind, Option.bind_eq_some_iff] at done
        obtain ⟨⟨n, buffer₁, file₁, s₁⟩, loop, same⟩ := done
        cases same
        exact (fat32ReadLoop_isOpen loop).trans rfl

theorem fat32WriteLoop_isOpen {data : Bytes} {bytesWritten size cluster offset n : UInt32}
    (done : fat32WriteLoop data fuel s file bytesWritten size cluster offset = some (n, file', s')) :
    file'.isOpen = file.isOpen := by
  induction fuel generalizing s file bytesWritten size cluster offset with
  | zero => cases done
  | succ fuel ih =>
    rw [fat32WriteLoop] at done
    split at done
    · cases read : (if 0 < offset ∨ size < s.gFs.bytesPerCluster then fat32ReadCluster s cluster else (0, s)) with
      | mk status s₁ =>
        simp only [read] at done
        split at done
        · cases done
          rfl
        · generalize (if size < s₁.gFs.bytesPerCluster - offset then size
            else s₁.gFs.bytesPerCluster - offset) = toCopy at done
          -- the file size follows the position
          have kept (f : Fat32File) :
              (if f.fileSize < f.position then { f with fileSize := f.position } else f).isOpen = f.isOpen := by
            split
            · rfl
            · rfl
          split at done
          · cases done
            rfl
          · split at done
            · split at done
              · cases done
                exact kept { file with position := file.position + toCopy }
              · exact (ih done).trans (kept { file with position := file.position + toCopy })
            · exact (ih done).trans (kept { file with position := file.position + toCopy })
    · cases done
      rfl

theorem fat32WriteFrom_isOpen {data : Bytes} {size : UInt32}
    (done : fat32WriteFrom fuel s file data size = some (status, file', s')) : file'.isOpen = file.isOpen := by
  rw [fat32WriteFrom] at done
  simp only at done
  split at done
  · cases done
    rfl
  · simp only [Option.bind_eq_bind, Option.bind_eq_some_iff] at done
    obtain ⟨⟨n, file₁, s₁⟩, loop, same⟩ := done
    cases same
    exact (fat32WriteLoop_isOpen loop).trans rfl

theorem fat32Write_isOpen {data : Option Bytes} {size : UInt32}
    (done : fat32Write fuel s file data size = some (status, file', s')) : file'.isOpen = file.isOpen := by
  cases data with
  | none =>
    cases done
    rfl
  | some data =>
    rw [fat32Write] at done
    split at done
    · cases done
      rfl
    · split at done
      · simp only at done
        split at done
        · cases done
          rfl
        · exact (fat32WriteFrom_isOpen done).trans rfl
      · exact fat32WriteFrom_isOpen done

/-- A call on a handle that is no `open` or `close`. -/
def isOperation (h : Nat) : FsCall → Prop
  | .read h' _ _ | .write h' _ _ | .seek h' _ _ => h' = h
  | .open _ _ _ | .close _ | .unlink _ | .mkdir _ => False

/-- Reading, writing and seeking change one handle and leave it open. -/
theorem Session.step_operation {h : Nat} {fsCall : FsCall} (operation : isOperation h fsCall)
    (done : t.step fuel fsCall = some (r, t')) :
    ∃ file', t'.machine.file = Function.update t.machine.file h file' ∧
      file'.isOpen = (t.machine.file h).isOpen := by
  simp only [Session.step, Option.bind_eq_bind, Option.bind_eq_some_iff] at done
  obtain ⟨⟨r₁, m⟩, run, same⟩ := done
  cases same
  cases fsCall with
  | «open» | close | unlink | mkdir => cases operation
  | read h' buffer size =>
    cases operation
    simp only [Machine.step, Option.bind_eq_bind, Option.bind_eq_some_iff] at run
    obtain ⟨⟨status, buffer', file', s'⟩, read, same⟩ := run
    cases same
    exact ⟨file', rfl, fat32Read_isOpen read⟩
  | write h' data size =>
    cases operation
    simp only [Machine.step, Option.bind_eq_bind, Option.bind_eq_some_iff] at run
    obtain ⟨⟨status, file', s'⟩, wrote, same⟩ := run
    cases same
    exact ⟨file', rfl, fat32Write_isOpen wrote⟩
  | seek h' offset whence =>
    cases operation
    cases run
    exact ⟨_, rfl, (fat32Seek_same _ offset whence).isOpen⟩

/-- `open` changes one handle, and opens it if it succeeds. -/
theorem Session.step_open {h : Nat} (done : t.step fuel (.open h path flags) = some (r, t')) :
    ∃ file', t'.machine.file = Function.update t.machine.file h file' ∧ (r.status = 0 → file'.isOpen = true) := by
  simp only [Session.step, Option.bind_eq_bind, Option.bind_eq_some_iff] at done
  obtain ⟨⟨r₁, m⟩, run, same⟩ := done
  cases same
  simp only [Machine.step, Option.bind_eq_bind, Option.bind_eq_some_iff] at run
  obtain ⟨⟨status, file', s'⟩, opened, same⟩ := run
  cases same
  refine ⟨file', rfl, fun success => ?_⟩
  simp only at success
  subst success
  exact fat32Open_isOpen opened

theorem Session.step_close {h : Nat} (done : t.step fuel (.close h) = some (r, t')) :
    ∃ file', t'.machine.file = Function.update t.machine.file h file' := by
  simp only [Session.step, Option.bind_eq_bind, Option.bind_eq_some_iff] at done
  obtain ⟨⟨r₁, m⟩, run, same⟩ := done
  cases same
  cases run
  exact ⟨_, rfl⟩

/-- The calls with a path change no handle. -/
theorem Session.step_onPath (path : CString) {fsCall : FsCall} (onPath : fsCall = .unlink path ∨ fsCall = .mkdir path)
    (done : t.step fuel fsCall = some (r, t')) : t'.machine.file = t.machine.file := by
  simp only [Session.step, Option.bind_eq_bind, Option.bind_eq_some_iff] at done
  obtain ⟨⟨r₁, m⟩, run, same⟩ := done
  cases same
  rcases onPath with rfl | rfl
  · simp only [Machine.step, Option.bind_eq_bind, Option.bind_eq_some_iff] at run
    obtain ⟨⟨status, s'⟩, -, same⟩ := run
    cases same
    rfl
  · simp only [Machine.step, Option.bind_eq_bind, Option.bind_eq_some_iff] at run
    obtain ⟨⟨status, s'⟩, -, same⟩ := run
    cases same
    rfl

/-! ## Descriptors as numbers -/

theorem fdNumber_range : ∀ fd : Fin maxFiles, ¬ fdNumber fd < 0 ∧ ¬ Int32.ofNat maxFiles ≤ fdNumber fd ∧
    (fdNumber fd).toNatClampNeg = fd := by
  decide

theorem fdNumber_injective {i j : Fin maxFiles} (same : fdNumber i = fdNumber j) : i = j := by
  apply Fin.ext
  rw [← (fdNumber_range i).2.2, ← (fdNumber_range j).2.2, same]

theorem Kernel.badFd_fdNumber (k : Kernel) (fd : Fin maxFiles) : k.badFd (fdNumber fd) = !k.fileUsed fd := by
  obtain ⟨low, high, number⟩ := fdNumber_range fd
  rw [badFd, number]
  simp [low, high]

/-- A descriptor that passes the check is the number of a used handle. -/
theorem Kernel.good_fd (good : k.badFd fd = false) :
    ∃ i : Fin maxFiles, fd = fdNumber i ∧ fd.toNatClampNeg = i ∧ k.fileUsed i = true := by
  obtain ⟨below, used⟩ := Kernel.fd_of_good good
  refine ⟨⟨fd.toNatClampNeg, below⟩, ?_, rfl, used⟩
  simp only [badFd, Bool.or_eq_false_iff, decide_eq_false_iff_not] at good
  obtain ⟨⟨nonneg, -⟩, -⟩ := good
  rw [Int32.lt_iff_toInt_lt, Int32.toInt_zero] at nonneg
  apply Int32.toInt_inj.mp
  rw [fdNumber, Int32.toInt_ofNat_of_lt]
  · show fd.toInt = (fd.toInt.toNat : Int)
    omega
  · exact lt_trans below (by decide)

theorem Kernel.openFiles_used {fd : Fin maxFiles} (used : k.fileUsed fd = true) :
    k.openFiles fd = some (k.session.machine.file fd) := if_pos used

theorem Kernel.openFiles_unused {fd : Fin maxFiles} (unused : k.fileUsed fd = false) : k.openFiles fd = none :=
  if_neg (by simp [unused])

theorem Kernel.bad_fd (bad : k.badFd fd = true) : ∀ i, fd = fdNumber i → k.openFiles i = none := by
  rintro i rfl
  rw [Kernel.badFd_fdNumber, Bool.not_eq_true'] at bad
  exact Kernel.openFiles_unused bad

/-! ## One system call -/

/-- The table after a change of one handle and of its mark. -/
theorem Kernel.openFiles_update {i : Fin maxFiles} {used : Bool} {f : Fat32File} {entry : Option Fat32File}
    (file : k'.session.machine.file = Function.update k.session.machine.file i f)
    (marks : k'.fileUsed = Function.update k.fileUsed i used) (value : (if used then some f else none) = entry) :
    k'.openFiles = Function.update k.openFiles i entry := by
  subst value
  funext j
  rw [Kernel.openFiles, file, marks]
  by_cases here : j = i
  · subst here
    simp only [Function.update_self]
  · have ne : (j : Nat) ≠ i := fun same => here (Fin.ext same)
    rw [Function.update_of_ne ne, Function.update_of_ne ne, Function.update_of_ne here, Kernel.openFiles]

/-- The table after a change of a handle that is not in use. -/
theorem Kernel.openFiles_same {i : Nat} {f : Fat32File} (unused : k.fileUsed i = false)
    (file : k'.session.machine.file = Function.update k.session.machine.file i f)
    (marks : k'.fileUsed = k.fileUsed) : k'.openFiles = k.openFiles := by
  funext j
  rw [Kernel.openFiles, Kernel.openFiles, file, marks]
  by_cases here : (j : Nat) = i
  · rw [here]
    simp [unused]
  · rw [Function.update_of_ne here]

theorem Kernel.UsedOpen.update {i : Fin maxFiles} {used : Bool} {f : Fat32File} (inv : k.UsedOpen)
    (file : k'.session.machine.file = Function.update k.session.machine.file i f)
    (marks : k'.fileUsed = Function.update k.fileUsed i used) (isOpen : used = true → f.isOpen = true) :
    k'.UsedOpen := by
  intro j inUse
  rw [marks] at inUse
  rw [file]
  by_cases here : j = i
  · subst here
    rw [Function.update_self] at inUse ⊢
    exact ⟨i.isLt, isOpen inUse⟩
  · rw [Function.update_of_ne here] at inUse ⊢
    exact inv j inUse

/-- What is shown for one system call: what it does to the table, that the handles in use stay
open, that it leaves everything alone if its descriptor is not in use, and that it changes no
handle but its descriptor's. -/
structure StepOk (k k' : Kernel) (call : FileCall) (reply : Reply) : Prop where
  table : Table.Step k.openFiles call reply.status k'.openFiles
  usedOpen : k'.UsedOpen
  bad : ∀ fd, call.descriptor = some fd → k.badFd fd = true → reply.status = -1 ∧ k' = k
  others : ∀ (fd : Fin maxFiles) (i : Nat), call.descriptor = some (fdNumber fd) → i ≠ fd →
    k'.session.machine.file i = k.session.machine.file i

theorem StepOk.of_bad (inv : k.UsedOpen) (about : call.descriptor = some fd) (bad : k.badFd fd = true)
    (same : reply = ⟨-1, none⟩ ∧ k' = k) : StepOk k k' call reply := by
  obtain ⟨rfl, rfl⟩ := same
  exact ⟨.badDescriptor call fd about (Kernel.bad_fd bad), inv, fun _ _ _ => ⟨rfl, rfl⟩, fun _ _ _ _ => rfl⟩

/-- Reading, writing and seeking. -/
theorem StepOk.onFile (inv : k.UsedOpen) (about : call.descriptor = some fd)
    (notClose : ∀ g, call ≠ .close g) (make : Nat → FsCall)
    (operation : ∀ h, isOperation h (make h)) (done : k.onFile fuel fd make = some (reply, k')) :
    StepOk k k' call reply := by
  rw [Kernel.onFile] at done
  cases bad : k.badFd fd with
  | true =>
    rw [if_pos bad] at done
    cases done
    exact .of_bad inv about bad ⟨rfl, rfl⟩
  | false =>
    rw [if_neg (by simp [bad])] at done
    simp only [Option.bind_eq_bind, Option.bind_eq_some_iff] at done
    obtain ⟨⟨r, session⟩, run, same⟩ := done
    cases same
    obtain ⟨i, rfl, number, used⟩ := Kernel.good_fd bad
    rw [number] at run
    obtain ⟨f, file, isOpen⟩ := Session.step_operation (operation i) run
    have marks : k.fileUsed = Function.update k.fileUsed i true := by rw [← used, Function.update_eq_self]
    have nowOpen : f.isOpen = true := isOpen.trans (inv i used).2
    refine ⟨?_, inv.update file marks fun _ => nowOpen, fun fd' about' bad' => ?_, fun g j about' other => ?_⟩
    · have table : Kernel.openFiles ⟨session, k.fileUsed⟩ = Function.update k.openFiles i (some f) :=
        Kernel.openFiles_update file marks rfl
      rw [table]
      refine .used call i _ f about notClose ?_ nowOpen
      rw [Kernel.openFiles_used used]
      exact Option.some_ne_none _
    · rw [about] at about'
      cases about'
      rw [bad] at bad'
      cases bad'
    · rw [about] at about'
      obtain rfl := fdNumber_injective (Option.some.inj about')
      rw [file, Function.update_of_ne other]

theorem StepOk.open {path : Option CString} {flags : Int32} (inv : k.UsedOpen)
    (done : k.step fuel (.open path flags) = some (reply, k')) : StepOk k k' (.open path flags) reply := by
  have noDescriptor {Q : Int32 → Prop} :
      ∀ fd, (FileCall.open path flags).descriptor = some fd → k.badFd fd = true → Q fd :=
    fun fd about => by cases about
  rw [Kernel.step] at done
  split at done
  · cases done
    exact ⟨.openFailed path flags, inv, noDescriptor, fun fd i about => by cases about⟩
  · rename_i fd found
    obtain ⟨below, unused⟩ := allocFd_some found
    simp only [Option.bind_eq_bind, Option.bind_eq_some_iff] at done
    obtain ⟨⟨r, session⟩, run, same⟩ := done
    obtain ⟨f, file, isOpen⟩ := Session.step_open run
    split at same
    · cases same
      -- the open failed and gives the descriptor back
      rw [freeFd_unused below unused]
      refine ⟨?_, fun j inUse => ?_, noDescriptor, fun fd i about => by cases about⟩
      · have table : Kernel.openFiles ⟨session, k.fileUsed⟩ = k.openFiles :=
          Kernel.openFiles_same unused file rfl
        rw [table]
        exact .openFailed path flags
      · have other : j ≠ fd := by
          rintro rfl
          rw [unused] at inUse
          cases inUse
        rw [file, Function.update_of_ne other]
        exact inv j inUse
    · rename_i success
      cases same
      have nowOpen := isOpen (not_not.mp success)
      refine ⟨?_, inv.update (i := ⟨fd, below⟩) file rfl fun _ => nowOpen, noDescriptor,
        fun fd i about => by cases about⟩
      have table : Kernel.openFiles ⟨session, Function.update k.fileUsed fd true⟩ =
          Function.update k.openFiles ⟨fd, below⟩ (some f) := Kernel.openFiles_update file rfl rfl
      rw [table]
      exact .opened path flags ⟨fd, below⟩ f (Kernel.openFiles_unused unused) nowOpen

theorem StepOk.close (inv : k.UsedOpen) (done : k.step fuel (.close fd) = some (reply, k')) :
    StepOk k k' (.close fd) reply := by
  rw [Kernel.step] at done
  cases bad : k.badFd fd with
  | true =>
    rw [if_pos bad] at done
    cases done
    exact .of_bad inv rfl bad ⟨rfl, rfl⟩
  | false =>
    rw [if_neg (by simp [bad])] at done
    simp only [Option.bind_eq_bind, Option.bind_eq_some_iff] at done
    obtain ⟨⟨r, session⟩, run, same⟩ := done
    cases same
    obtain ⟨i, rfl, number, used⟩ := Kernel.good_fd bad
    rw [number] at run ⊢
    obtain ⟨f, file⟩ := Session.step_close run
    have marks : freeFd k.fileUsed i = Function.update k.fileUsed i false := freeFd_self i.isLt
    refine ⟨?_, inv.update file marks fun closed => absurd closed (by decide), fun fd' about' bad' => ?_,
      fun g j about' other => ?_⟩
    · have table : Kernel.openFiles ⟨session, freeFd k.fileUsed i⟩ = Function.update k.openFiles i none :=
        Kernel.openFiles_update file marks rfl
      rw [table]
      refine .closed i _ ?_
      rw [Kernel.openFiles_used used]
      exact Option.some_ne_none _
    · cases about'
      rw [bad] at bad'
      cases bad'
    · obtain rfl := fdNumber_injective (Option.some.inj about')
      rw [file, Function.update_of_ne other]

theorem Kernel.UsedOpen.step (inv : k.UsedOpen) (done : k.step fuel call = some (reply, k')) :
    StepOk k k' call reply := by
  cases call with
  | «open» path flags => exact .open inv done
  | close fd => exact .close inv done
  | fileRead fd buffer size =>
    exact .onFile inv rfl (fun g same => by cases same) (.read · buffer size) (fun h => rfl) done
  | fileWrite fd buffer size =>
    exact .onFile inv rfl (fun g same => by cases same) (.write · buffer size) (fun h => rfl) done
  | seek fd offset whence =>
    exact .onFile inv rfl (fun g same => by cases same) (.seek · offset (lowByte whence)) (fun h => rfl) done
  | unlink path | mkdir path =>
    simp only [Kernel.step, Option.bind_eq_bind, Option.bind_eq_some_iff] at done
    obtain ⟨⟨r, session⟩, run, same⟩ := done
    cases same
    have file := Session.step_onPath path (by simp) run
    have table : Kernel.openFiles ⟨session, k.fileUsed⟩ = k.openFiles := by
      funext j
      rw [Kernel.openFiles, Kernel.openFiles, file]
    refine ⟨?_, fun j inUse => ?_, (fun fd about => by cases about), fun fd i about => by cases about⟩
    · rw [table]
      exact .onPath _ _ ⟨path, by simp⟩
    · rw [file]
      exact inv j inUse

end QuantumKernel.Syscall
