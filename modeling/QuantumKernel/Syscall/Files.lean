import QuantumKernel.Fat32.DirectoryMap

/-! # The file system calls of user programs

`syscall_dispatch` keeps a table of sixteen handles.  A descriptor is an index into
the table; `alloc_fd` hands out the first unused one, and the calls on files check
their descriptor before they reach the file interface.  Every system call below makes
at most one call of the file interface, so its runs are runs of `Session.step`.
-/

namespace QuantumKernel.Syscall

open Fat32 ByteStore Transition

/-- `MAX_FILES`. -/
def maxFiles : Nat := 16

/-- The system calls on files; the arguments are those in `ebx`, `ecx` and `edx`. -/
inductive FileCall
  | open (path : Option CString) (flags : Int32)
  | close (fd : Int32)
  | fileRead (fd : Int32) (buffer : Option Bytes) (size : UInt32)
  | fileWrite (fd : Int32) (buffer : Option Bytes) (size : UInt32)
  | seek (fd offset whence : Int32)
  | unlink (path : CString)
  | mkdir (path : CString)

/-- The driver with `file_table`, and `file_used`. -/
structure Kernel where
  session : Session
  fileUsed : Nat → Bool

/-- `alloc_fd`, without the store to `file_used`. -/
def allocFd (fileUsed : Nat → Bool) : Option Nat := (List.range maxFiles).find? fun i => !fileUsed i

/-- `free_fd`. -/
def freeFd (fileUsed : Nat → Bool) (fd : Nat) : Nat → Bool :=
  if fd < maxFiles then Function.update fileUsed fd false else fileUsed

/-- `fd < 0 || fd >= MAX_FILES || !file_used[fd]`. -/
def Kernel.badFd (k : Kernel) (fd : Int32) : Bool :=
  fd < 0 || Int32.ofNat maxFiles ≤ fd || !k.fileUsed fd.toNatClampNeg

/-- `(uint8_t)x`. -/
def lowByte (x : Int32) : UInt8 := x.toUInt32.toUInt8

/-- A system call on a checked descriptor. -/
def Kernel.onFile (fuel : Nat) (k : Kernel) (fd : Int32) (call : Nat → FsCall) :
    Option (Reply × Kernel) :=
  if k.badFd fd then some (⟨-1, none⟩, k)
  else do
    let (reply, session) ← k.session.step fuel (call fd.toNatClampNeg)
    some (reply, ⟨session, k.fileUsed⟩)

/-- The file system calls of `syscall_dispatch`. -/
def Kernel.step (fuel : Nat) (k : Kernel) : FileCall → Option (Reply × Kernel)
  | .open path flags =>
    match allocFd k.fileUsed with
    | none => some (⟨-1, none⟩, k)
    | some fd => do
      let fileUsed := Function.update k.fileUsed fd true
      let (reply, session) ← k.session.step fuel (.open fd path (lowByte flags))
      if reply.status ≠ 0 then some (⟨-1, none⟩, ⟨session, freeFd fileUsed fd⟩)
      else some (⟨Int32.ofNat fd, none⟩, ⟨session, fileUsed⟩)
  | .close fd =>
    if k.badFd fd then some (⟨-1, none⟩, k)
    else do
      let (reply, session) ← k.session.step fuel (.close fd.toNatClampNeg)
      some (reply, ⟨session, freeFd k.fileUsed fd.toNatClampNeg⟩)
  | .fileRead fd buffer size => k.onFile fuel fd (.read · buffer size)
  | .fileWrite fd buffer size => k.onFile fuel fd (.write · buffer size)
  | .seek fd offset whence => k.onFile fuel fd (.seek · offset (lowByte whence))
  | .unlink path => do
    let (reply, session) ← k.session.step fuel (.unlink path)
    some (reply, ⟨session, k.fileUsed⟩)
  | .mkdir path => do
    let (reply, session) ← k.session.step fuel (.mkdir path)
    some (reply, ⟨session, k.fileUsed⟩)

/-- The call of the file interface that a system call makes, if any. -/
def Kernel.fsCall (k : Kernel) : FileCall → Option FsCall
  | .open path flags => (allocFd k.fileUsed).map fun fd => .open fd path (lowByte flags)
  | .close fd => if k.badFd fd then none else some (.close fd.toNatClampNeg)
  | .fileRead fd buffer size =>
    if k.badFd fd then none else some (.read fd.toNatClampNeg buffer size)
  | .fileWrite fd buffer size =>
    if k.badFd fd then none else some (.write fd.toNatClampNeg buffer size)
  | .seek fd offset whence =>
    if k.badFd fd then none else some (.seek fd.toNatClampNeg offset (lowByte whence))
  | .unlink path => some (.unlink path)
  | .mkdir path => some (.mkdir path)

variable {g : Fat32Fs} {cwd : UInt32} {k k' : Kernel} {call : FileCall} {fsCall : FsCall}
  {reply r : Reply} {fuel : Nat} {fd : Int32} {i : Nat} {used : Nat → Bool} {A B : FileStore}
  {session : Session}

/-! ## Descriptors -/

theorem allocFd_some (found : allocFd used = some i) : i < maxFiles ∧ used i = false := by
  have unused := List.find?_some found
  have member := List.mem_of_find?_eq_some found
  exact ⟨List.mem_range.mp member, by simpa using unused⟩

/-- A descriptor that passes the check is the number of a used handle. -/
theorem Kernel.fd_of_good (good : k.badFd fd = false) :
    fd.toNatClampNeg < maxFiles ∧ k.fileUsed fd.toNatClampNeg = true := by
  simp only [badFd, Bool.or_eq_false_iff, decide_eq_false_iff_not, Bool.not_eq_false'] at good
  obtain ⟨⟨-, below⟩, isUsed⟩ := good
  rw [Int32.le_iff_toInt_le, show (Int32.ofNat maxFiles).toInt = 16 by decide] at below
  refine ⟨?_, isUsed⟩
  rw [maxFiles, Int32.toNatClampNeg]
  omega

theorem freeFd_self (below : i < maxFiles) : freeFd used i = Function.update used i false :=
  if_pos below

/-! ## One call of the file interface -/

/-- `file_used` after a call of the file interface. -/
def usedAfter (used : Nat → Bool) : FsCall → Int32 → Nat → Bool
  | .open h _ _, status =>
    if status ≠ 0 then freeFd (Function.update used h true) h else Function.update used h true
  | .close h, _ => freeFd used h
  | _, _ => used

/-- The system call makes the call of the file interface in `Kernel.fsCall`. -/
def Kernel.Makes (fuel : Nat) (k k' : Kernel) (fsCall : FsCall) : Prop :=
  ∃ r, k.session.step fuel fsCall = some (r, k'.session) ∧
    k'.fileUsed = usedAfter k.fileUsed fsCall r.status

theorem Kernel.onFile_makes (make : Nat → FsCall)
    (plain : ∀ h status, usedAfter k.fileUsed (make h) status = k.fileUsed)
    (done : k.onFile fuel fd make = some (reply, k')) :
    k.badFd fd = true ∧ k' = k ∨ k.badFd fd = false ∧ k.Makes fuel k' (make fd.toNatClampNeg) := by
  rw [onFile] at done
  split at done
  · rename_i bad
    cases done
    exact Or.inl ⟨bad, rfl⟩
  · rename_i good
    simp only [Option.bind_eq_bind, Option.bind_eq_some_iff] at done
    obtain ⟨⟨r, session⟩, run, same⟩ := done
    cases same
    exact Or.inr ⟨Bool.eq_false_iff.mpr good, r, run, (plain _ _).symm⟩

theorem Kernel.step_makes (done : k.step fuel call = some (reply, k')) :
    k.fsCall call = none ∧ k' = k ∨ ∃ fsCall, k.fsCall call = some fsCall ∧ k.Makes fuel k' fsCall := by
  -- a call that checks its descriptor makes the call of the file interface, or nothing
  have checked {bad : Bool} {fsCall : FsCall}
      (outcome : bad = true ∧ k' = k ∨ bad = false ∧ k.Makes fuel k' fsCall) :
      (if bad then none else some fsCall) = none ∧ k' = k ∨
        ∃ made, (if bad then none else some fsCall) = some made ∧ k.Makes fuel k' made := by
    rcases outcome with ⟨rfl, same⟩ | ⟨rfl, makes⟩
    · exact Or.inl ⟨rfl, same⟩
    · exact Or.inr ⟨fsCall, rfl, makes⟩
  cases call with
  | «open» path flags =>
    rw [step] at done
    rw [fsCall]
    split at done
    · rename_i full
      cases done
      exact Or.inl ⟨by rw [full]; rfl, rfl⟩
    · rename_i fd found
      simp only [Option.bind_eq_bind, Option.bind_eq_some_iff] at done
      obtain ⟨⟨r, session⟩, run, same⟩ := done
      refine Or.inr ⟨_, by rw [found]; rfl, r, ?_⟩
      split at same
      · rename_i failed
        cases same
        exact ⟨run, (if_pos failed).symm⟩
      · rename_i opened
        cases same
        exact ⟨run, (if_neg opened).symm⟩
  | close fd =>
    rw [step] at done
    refine checked ?_
    split at done
    · rename_i bad
      cases done
      exact Or.inl ⟨bad, rfl⟩
    · rename_i good
      simp only [Option.bind_eq_bind, Option.bind_eq_some_iff] at done
      obtain ⟨⟨r, session⟩, run, same⟩ := done
      cases same
      exact Or.inr ⟨Bool.eq_false_iff.mpr good, r, run, rfl⟩
  | fileRead fd buffer size =>
    exact checked (Kernel.onFile_makes (.read · buffer size) (fun _ _ => rfl) done)
  | fileWrite fd buffer size =>
    exact checked (Kernel.onFile_makes (.write · buffer size) (fun _ _ => rfl) done)
  | seek fd offset whence =>
    exact checked (Kernel.onFile_makes (.seek · offset (lowByte whence)) (fun _ _ => rfl) done)
  | unlink path | mkdir path =>
    simp only [step, Option.bind_eq_bind, Option.bind_eq_some_iff] at done
    obtain ⟨⟨r, session⟩, run, same⟩ := done
    cases same
    exact Or.inr ⟨_, rfl, r, run, rfl⟩

/-! ## The table of handles -/

/-- The used descriptors are those of the open handles. -/
def Kernel.TableOk (k : Kernel) : Prop :=
  ∀ h, (k.session.machine.file h).isOpen = true ↔ h < maxFiles ∧ k.fileUsed h = true

/-- Which handles are open after a call of the file interface. -/
def openAfter (isOpen : Nat → Bool) : FsCall → Int32 → Nat → Bool
  | .open h (some _) _, status => Function.update isOpen h (status = 0)
  | .close h, _ => Function.update isOpen h false
  | _, _ => isOpen

/-- A change of one handle that leaves it open or closed. -/
theorem isOpen_update (file : Nat → Fat32File) (h : Nat) {f : Fat32File}
    (same : f.isOpen = (file h).isOpen) (j : Nat) : (Function.update file h f j).isOpen = (file j).isOpen := by
  by_cases here : j = h
  · subst here
    rw [Function.update_self, same]
  · rw [Function.update_of_ne here]

theorem isOpen_update_eq {file : Nat → Fat32File} {f : Fat32File} {h : Nat} (j : Nat) :
    (Function.update file h f j).isOpen =
      Function.update (fun i => (file i).isOpen) h f.isOpen j := by
  by_cases here : j = h
  · subst here
    rw [Function.update_self, Function.update_self]
  · rw [Function.update_of_ne here, Function.update_of_ne here]

/-- A call opens and closes the handles that its result says. -/
theorem next_isOpen {call : FsCall} {status : Int32} (next : A.Next g cwd call status B) (j : Nat) :
    (B.file j).isOpen = openAfter (fun i => (A.file i).isOpen) call status j := by
  cases next with
  | openNull | unlinkFails | unlinkedEmpty | unlinked | mkdirFails | mkdirMakes | writeFails => rfl
  | openFails | openFound | openTruncates | openCreates | openLosesEntry =>
    exact isOpen_update_eq j
  | read h =>
    refine isOpen_update A.file h ?_ j
    rfl
  | wrote h data size a n l l' v' file' isOpen source inRange few first advanced wrote =>
    refine isOpen_update A.file h ?_ j
    have rest := advanced.rest
    rw [rest]
  | seek h offset whence => exact isOpen_update A.file h (fat32Seek_same _ offset whence).isOpen j
  | closeFails h closed =>
    by_cases here : j = h
    · subst here
      rw [openAfter, Function.update_self, closed]
    · rw [openAfter, Function.update_of_ne here]
  | closed h => exact isOpen_update_eq j

/-- The system calls of a careful program: a file is not unlinked while it is open, and a
file opened with `FAT32_O_TRUNC` has no other open descriptor. -/
def CarefulCall (k : Kernel) : FileCall → Prop
  | .open (some path) flags =>
    ∀ h, OpenUnder k.session.machine.file k.session.opened (fat32ToShortName path) h →
      hasFlag (lowByte flags) fat32OTrunc = false ∧
        hasFlag (k.session.machine.file h).flags fat32OTrunc = false
  | .unlink path =>
    ∀ h, ¬ OpenUnder k.session.machine.file k.session.opened (fat32ToShortName path) h
  | _ => True

theorem Kernel.TableOk.careful (table : k.TableOk) (careful : CarefulCall k call)
    (makes : k.fsCall call = some fsCall) : Careful k.session fsCall := by
  cases call with
  | «open» path flags =>
    obtain ⟨fd, found, rfl⟩ := Option.map_eq_some_iff.mp makes
    obtain ⟨-, unused⟩ := allocFd_some found
    cases path with
    | none => trivial
    | some path =>
      refine ⟨Bool.eq_false_iff.mpr fun isOpen => ?_, careful⟩
      rw [((table fd).mp isOpen).2] at unused
      cases unused
  | unlink path =>
    cases makes
    exact careful
  | mkdir path =>
    cases makes
    trivial
  | close fd | fileRead fd | fileWrite fd | seek fd =>
    simp only [Kernel.fsCall, Option.ite_none_left_eq_some, Option.some.injEq] at makes
    obtain ⟨-, rfl⟩ := makes
    trivial

/-- The handle of a call is below `MAX_FILES`, and `fat32_open` gets an unused one. -/
theorem Kernel.handle_of_call (makes : k.fsCall call = some fsCall) :
    (∀ h path flags, fsCall = .open h path flags → h < maxFiles ∧ k.fileUsed h = false) ∧
      ∀ h, fsCall = .close h → h < maxFiles := by
  cases call with
  | «open» path flags =>
    obtain ⟨fd, found, rfl⟩ := Option.map_eq_some_iff.mp makes
    refine ⟨?_, by simp⟩
    rintro h path' flags' same
    cases same
    exact allocFd_some found
  | close fd =>
    simp only [Kernel.fsCall, Option.ite_none_left_eq_some, Option.some.injEq] at makes
    obtain ⟨good, rfl⟩ := makes
    refine ⟨by simp, ?_⟩
    rintro h same
    cases same
    exact (Kernel.fd_of_good (Bool.eq_false_iff.mpr good)).1
  | unlink path | mkdir path =>
    cases makes
    exact ⟨by simp, by simp⟩
  | fileRead fd | fileWrite fd | seek fd =>
    simp only [Kernel.fsCall, Option.ite_none_left_eq_some, Option.some.injEq] at makes
    obtain ⟨-, rfl⟩ := makes
    exact ⟨by simp, by simp⟩

/-- A descriptor that failed to open is unused again. -/
theorem freeFd_unused (below : i < maxFiles) (unused : used i = false) :
    freeFd (Function.update used i true) i = used := by
  rw [freeFd_self below, Function.update_idem, ← unused, Function.update_eq_self]

/-- The table stays in order. -/
theorem Kernel.TableOk.next (table : k.TableOk) (file : k.session.machine.file = A.file)
    (file' : k'.session.machine.file = B.file) (makes : k.fsCall call = some fsCall)
    (next : A.Next g cwd fsCall r.status B)
    (used' : k'.fileUsed = usedAfter k.fileUsed fsCall r.status) : k'.TableOk := by
  obtain ⟨opens, closes⟩ := Kernel.handle_of_call makes
  have before (j : Nat) : (A.file j).isOpen = true ↔ j < maxFiles ∧ k.fileUsed j = true := by
    rw [← file]
    exact table j
  intro j
  rw [file', used', next_isOpen next j]
  cases fsCall with
  | «open» h path flags =>
    obtain ⟨below, unused⟩ := opens h path flags rfl
    rw [usedAfter]
    by_cases success : r.status = 0
    · rw [if_neg (not_not.mpr success)]
      cases path with
      | none =>
        -- `fat32_open` of a null path does not return 0
        generalize r.status = status at next success
        cases next
        cases success
      | some path =>
        simp only [openAfter, success]
        by_cases here : j = h
        · subst here
          simp [below]
        · rw [Function.update_of_ne here, Function.update_of_ne here]
          exact before j
    · rw [if_pos success, freeFd_unused below unused]
      cases path with
      | none => exact before j
      | some path =>
        simp only [openAfter, success]
        by_cases here : j = h
        · subst here
          simp [unused]
        · rw [Function.update_of_ne here]
          exact before j
  | close h =>
    rw [openAfter, usedAfter, freeFd_self (closes h rfl)]
    by_cases here : j = h
    · subst here
      simp
    · rw [Function.update_of_ne here, Function.update_of_ne here]
      exact before j
  | read | write | seek | unlink | mkdir => exact before j

/-! ## Runs -/

/-- The kernel shows a consistent store, and its descriptors are the open handles. -/
structure KernelInOrder (g : Fat32Fs) (cwd : UInt32) (k : Kernel) (A : FileStore) : Prop where
  inOrder : InOrder g cwd k.session A
  table : k.TableOk

/-- A system call of a careful program: it leaves the store alone, or it is one call of
the file interface. -/
theorem KernelInOrder.step (order : KernelInOrder g cwd k A) (enough : 4294967296 ≤ fuel)
    (careful : CarefulCall k call) (done : k.step fuel call = some (reply, k')) :
    ∃ B, KernelInOrder g cwd k' B ∧ (B = A ∨ ∃ fsCall r, k.fsCall call = some fsCall ∧
      Careful k.session fsCall ∧ A.Next g cwd fsCall r B) := by
  rcases Kernel.step_makes done with ⟨-, rfl⟩ | ⟨fsCall, makes, r, run, used'⟩
  · exact ⟨A, order, Or.inl rfl⟩
  · have careful' := order.table.careful careful makes
    obtain ⟨B, next, inOrder⟩ := order.inOrder.step enough careful' run
    refine ⟨B, ⟨inOrder, ?_⟩, Or.inr ⟨fsCall, r.status, makes, careful', next⟩⟩
    exact order.table.next order.inOrder.1.file inOrder.1.file makes next used'

/-- A system call of a careful program returns. -/
theorem KernelInOrder.returns (order : KernelInOrder g cwd k A) (enough : 4294967296 ≤ fuel)
    (careful : CarefulCall k call) : ∃ reply k', k.step fuel call = some (reply, k') := by
  have run {fsCall : FsCall} (makes : k.fsCall call = some fsCall) :=
    order.inOrder.returns enough (order.table.careful careful makes)
  -- a call on a bad descriptor returns without a call of the file interface
  have onFile (fd : Int32) (make : Nat → FsCall)
      (run : k.badFd fd = false → ∃ r s, k.session.step fuel (make fd.toNatClampNeg) = some (r, s)) :
      ∃ reply k', k.onFile fuel fd make = some (reply, k') := by
    cases bad : k.badFd fd with
    | true => exact ⟨_, _, if_pos bad⟩
    | false =>
      obtain ⟨r, session, done⟩ := run bad
      exact ⟨r, ⟨session, k.fileUsed⟩, by simp [Kernel.onFile, bad, done]⟩
  cases call with
  | «open» path flags =>
    cases found : allocFd k.fileUsed with
    | none => exact ⟨⟨-1, none⟩, k, by simp [Kernel.step, found]⟩
    | some fd =>
      obtain ⟨r, session, done⟩ := run (by rw [Kernel.fsCall, found]; rfl)
      simp only [Kernel.step, found, done, Option.bind_eq_bind, Option.bind_some]
      split
      · exact ⟨_, _, rfl⟩
      · exact ⟨_, _, rfl⟩
  | close fd =>
    cases bad : k.badFd fd with
    | true => exact ⟨⟨-1, none⟩, k, by simp [Kernel.step, bad]⟩
    | false =>
      obtain ⟨r, session, done⟩ := run (by rw [Kernel.fsCall, bad]; rfl)
      exact ⟨r, ⟨session, freeFd k.fileUsed fd.toNatClampNeg⟩, by simp [Kernel.step, bad, done]⟩
  | fileRead fd buffer size =>
    exact onFile fd (.read · buffer size) fun good => run (by rw [Kernel.fsCall, good]; rfl)
  | fileWrite fd buffer size =>
    exact onFile fd (.write · buffer size) fun good => run (by rw [Kernel.fsCall, good]; rfl)
  | seek fd offset whence =>
    exact onFile fd (.seek · offset (lowByte whence)) fun good =>
      run (by rw [Kernel.fsCall, good]; rfl)
  | unlink path | mkdir path =>
    obtain ⟨r, session, done⟩ := run rfl
    exact ⟨_, _, by simp only [Kernel.step, done, Option.bind_eq_bind, Option.bind_some]; rfl⟩

/-- A mounted volume with a well-formed current directory and no descriptor in use. -/
structure FreshKernel (k : Kernel) (l : List UInt32) : Prop where
  session : Fresh k.session l
  unused : ∀ fd, k.fileUsed fd = false

/-- Nothing is open yet. -/
theorem FreshKernel.tableOk {l : List UInt32} (fresh : FreshKernel k l) : k.TableOk := by
  intro h
  simp [fresh.session.closed h, fresh.unused h]

theorem FreshKernel.inOrder {l : List UInt32} (fresh : FreshKernel k l) :
    KernelInOrder k.session.machine.fs.gFs k.session.machine.fs.gCurrentDirCluster k
      (k.session.store l) :=
  ⟨fresh.session.shows, fresh.tableOk⟩

/-- Along a run of a careful program the kernel stays in order. -/
theorem KernelInOrder.run (order : KernelInOrder g cwd k A) (enough : 4294967296 ≤ fuel)
    {calls : List (FileCall × Reply)} (run : Run (Kernel.step fuel) CarefulCall k calls k') :
    ∃ B, KernelInOrder g cwd k' B := by
  refine run.invariant (fun k => ∃ A, KernelInOrder g cwd k A) ?_ ⟨A, order⟩
  rintro k call reply k' ⟨A, order⟩ careful done
  obtain ⟨B, order', -⟩ := order.step enough careful done
  exact ⟨B, order'⟩

/-- A kernel on the blank volume. -/
def blankKernel : Kernel := ⟨blankSession, fun _ => false⟩

theorem blankKernel_fresh : FreshKernel blankKernel [2] := ⟨blankSession_fresh, fun _ => rfl⟩

end QuantumKernel.Syscall
