import QuantumKernel.Fat32.ByteRuns
import QuantumKernel.Syscall.Files

/-! # One open file at a time

A program that closes each file before it opens the next one always gets descriptor 0.  Between two
files the kernel is a map from names to contents; while one is open, it is that map with a position.
On a volume of at most a gigabyte no position reaches the sign bit of a result.
-/

namespace QuantumKernel.Fat32

open ByteStore LinkedTable Transition

/-- The clusters of the volume hold at most a gigabyte. -/
def Fat32Fs.Compact (g : Fat32Fs) : Prop := g.totalClusters.toNat * g.bytesPerCluster.toNat ≤ 1073741824

instance (g : Fat32Fs) : Decidable g.Compact := inferInstanceAs (Decidable (_ ≤ _))

variable {g : Fat32Fs} {cwd : UInt32} {F F' : Files} {t : Session} {name : ShortName} {h : Nat}
  {bytes : List UInt8} {fuel : Nat} {f : OpenFile} {call : FsCall}

/-! ## What a view says about the session -/

theorem ByteView.closed (view : ByteView g cwd t F) (none : F.handle h = none) :
    (t.machine.file h).isOpen = false := by
  obtain ⟨A, order, refines⟩ := view
  have handle := refines.handle h
  rw [order.1.file]
  cases isOpen : (A.file h).isOpen with
  | false => rfl
  | true =>
    rw [if_pos isOpen, none] at handle
    cases handle

/-- An open handle is on a file, and not behind its end. -/
theorem ByteView.opened (view : ByteView g cwd t F) (handle : F.handle h = some f) :
    (t.machine.file h).isOpen = true ∧ (t.machine.file h).position.toNat = f.position ∧
      ∃ bytes, F.contents f.name = some bytes ∧ (t.machine.file h).fileSize.toNat = bytes.length ∧
        f.position ≤ bytes.length := by
  obtain ⟨A, order, refines⟩ := view
  have same := refines.handle h
  rw [handle] at same
  split at same
  · rename_i isOpen
    cases same
    obtain ⟨bytes, stored, reads⟩ := refines.open_reads order.2 isOpen
    rw [order.1.file]
    refine ⟨isOpen, rfl, bytes, stored, reads.length.symm, ?_⟩
    rw [reads.length]
    exact UInt32.le_iff_toNat_le.mp (refines.inside h isOpen)
  · cases same

/-- A file has no more bytes than the clusters of the volume. -/
theorem ByteView.length_le (view : ByteView g cwd t F) (compact : g.Compact)
    (stored : F.contents name = some bytes) : bytes.length ≤ 1073741824 := by
  obtain ⟨A, order, refines⟩ := view
  by_cases used : ∃ σ, A.volume.Names (A.slots g) name σ
  · obtain ⟨σ, names⟩ := used
    obtain ⟨first, size, view⟩ : ∃ first size, A.View σ first size := by
      by_cases opened : ∃ h, (A.file h).isOpen = true ∧ (A.file h).slot = σ
      · obtain ⟨h, isOpen, slot⟩ := opened
        exact ⟨_, _, .handle h isOpen slot⟩
      · exact ⟨_, _, .entry fun h isOpen slot => opened ⟨h, isOpen, slot⟩⟩
    obtain ⟨found, same, l, start, room, rfl⟩ := refines.present name σ _ _ names view
    rw [stored] at same
    cases same
    have clusters : l.length ≤ g.totalClusters.toNat := by
      cases start with
      | inl empty =>
        rw [empty.2]
        exact Nat.zero_le _
      | inr chain => exact FatChain.length_le order.2.geometry chain
    rw [List.length_map, List.length_range]
    exact (room.trans (Nat.mul_le_mul_right _ clusters)).trans compact
  · rw [refines.absent name fun σ names => used ⟨σ, names⟩] at stored
    cases stored

/-- A write inside the file or at its end, as a list. -/
theorem splice_eq {start n : Nat} {source : Bytes} (inside : start ≤ bytes.length) :
    splice bytes start source n = bytes.take start ++ (List.range n).map source ++ bytes.drop (start + n) := by
  refine List.ext_getElem ?_ fun k below below' => ?_
  · simp [splice]
    omega
  · simp only [splice, List.length_map, List.length_range] at below
    simp only [splice, List.getElem_map, List.getElem_range]
    by_cases before : k < start
    · rw [if_neg (by omega), List.getElem_append_left (by simp; omega), List.getElem_append_left (by simp; omega),
        List.getElem_take, List.getD_eq_getElem]
    · by_cases written : k < start + n
      · rw [if_pos (by omega), List.getElem_append_left (by simp; omega), List.getElem_append_right (by simp; omega)]
        simp [Nat.min_eq_left inside]
      · have old : k < bytes.length := by omega
        rw [if_neg (by omega), List.getElem_append_right (by simp; omega), List.getD_eq_getElem _ _ old]
        simp only [List.getElem_drop, List.length_append, List.length_take, List.length_map, List.length_range,
          Nat.min_eq_left inside]
        congr 1
        omega

theorem splice_zero {start : Nat} {source : Bytes} (inside : start ≤ bytes.length) :
    splice bytes start source 0 = bytes := by
  simp [splice_eq inside]

theorem splice_end {n : Nat} {source : Bytes} :
    splice bytes bytes.length source n = bytes ++ (List.range n).map source := by
  rw [splice_eq (Nat.le_refl _), List.take_length, List.drop_eq_nil_of_le (Nat.le_add_right _ _), List.append_nil]

/-- A call that is allowed returns, and does what it does on byte arrays. -/
theorem ByteView.makes (view : ByteView g cwd t F) (enough : 4294967296 ≤ fuel) (allowed : ByteCall t call) :
    ∃ reply t' F', t.step fuel call = some (reply, t') ∧ F.Next t.space t'.space call reply F' ∧
      ByteView g cwd t' F' := by
  obtain ⟨reply, t', done⟩ : ∃ reply t', t.step fuel call = some (reply, t') := by
    obtain ⟨A, order, -⟩ := view
    exact order.returns enough allowed.careful
  obtain ⟨F', next, view'⟩ := view.step enough allowed done
  exact ⟨reply, t', F', done, next, view'⟩

end QuantumKernel.Fat32

namespace QuantumKernel.Syscall

open Fat32 ByteStore Transition

/-- What the names of a directory stand for. -/
abbrev Contents := ShortName → Option (List UInt8)

/-- No descriptor is in use, and the directory has the contents `M`. -/
structure Kernel.Contains (g : Fat32Fs) (cwd : UInt32) (k : Kernel) (M : Contents) : Prop where
  view : ByteView g cwd k.session ⟨M, fun _ => none⟩
  unused : k.fileUsed = fun _ => false

/-- Only descriptor 0 is in use. -/
def onlyFirst : Nat → Bool := Function.update (fun _ => false) 0 true

/-- Handle 0 is open, and no other one. -/
def oneHandle (f : OpenFile) : Nat → Option OpenFile := Function.update (fun _ => none) 0 (some f)

@[simp] theorem oneHandle_zero (f : OpenFile) : oneHandle f 0 = some f := Function.update_self _ _ _

@[simp] theorem oneHandle_update (f f' : OpenFile) :
    Function.update (oneHandle f) 0 (some f') = oneHandle f' := Function.update_idem _ _ _

@[simp] theorem oneHandle_close (f : OpenFile) : Function.update (oneHandle f) 0 none = fun _ => none := by
  rw [oneHandle, Function.update_idem]
  exact Function.update_eq_self_iff.mpr rfl

/-- Descriptor 0 is at `position` in the file `name`, and no other one is in use. -/
structure Kernel.Editing (g : Fat32Fs) (cwd : UInt32) (k : Kernel) (M : Contents) (name : ShortName)
    (position : Nat) : Prop where
  view : ByteView g cwd k.session ⟨M, oneHandle ⟨name, position⟩⟩
  used : k.fileUsed = onlyFirst

variable {g : Fat32Fs} {cwd : UInt32} {k k' : Kernel} {M : Contents} {name : ShortName} {p : Nat}
  {bytes : List UInt8} {fuel : Nat} {path : CString}

/-! ## Opening -/

/-- What `SYS_OPEN` makes of the contents of a file. -/
def openedFile (M : Contents) (name : ShortName) (flags : UInt8) : List UInt8 :=
  openedContents flags ((M name).getD [])

/-- `SYS_OPEN` gives descriptor 0, or fails and changes nothing; it fails to create a file only for lack of
clusters. -/
inductive Opens (g : Fat32Fs) (cwd : UInt32) (k' : Kernel) (M : Contents) (name : ShortName) (flags : UInt8)
    (status : Int32) : Prop
  | fails : status = -1 → M name = none → (hasFlag flags fat32OCreat = true → k'.session.space ≤ 1) →
      k'.Contains g cwd M → Opens g cwd k' M name flags status
  | opened : status = 0 → (M name = none → hasFlag flags fat32OCreat = true) →
      k'.Editing g cwd (Function.update M name (some (openedFile M name flags))) name
        (openedPosition flags (openedFile M name flags)) →
      Opens g cwd k' M name flags status

theorem Kernel.Contains.open (contains : k.Contains g cwd M) (enough : 4294967296 ≤ fuel)
    (notDead : fat32ToShortName path 0 ≠ 0xE5) (flags : Int32) :
    ∃ reply k', k.step fuel (.open (some path) flags) = some (reply, k') ∧
      Opens g cwd k' M (fat32ToShortName path) (lowByte flags) reply.status := by
  have closed (h : Nat) : (k.session.machine.file h).isOpen = false := contains.view.closed rfl
  have allowed : ByteCall k.session (.open 0 (some path) (lowByte flags)) := by
    refine ⟨closed 0, notDead, fun h under => ?_⟩
    have isOpen := under.1
    rw [closed h] at isOpen
    cases isOpen
  obtain ⟨reply, t', F', done, next, view⟩ := contains.view.makes enough allowed
  have alloc : allocFd k.fileUsed = some 0 := by
    rw [contains.unused]
    rfl
  have unused : k.fileUsed 0 = false := by rw [contains.unused]
  simp only [Kernel.step, alloc, done, Option.bind_eq_bind, Option.bind_some]
  cases next with
  | openFails _ _ _ absent scarce =>
    rw [if_pos (by decide)]
    refine ⟨_, _, rfl, .fails rfl absent scarce ⟨?_, ?_⟩⟩
    · rwa [Function.update_eq_self_iff.mpr rfl] at view
    · exact (freeFd_unused (by decide) unused).trans contains.unused
  | opened _ _ _ bytes stored =>
    rw [if_neg (by simp)]
    have contents : openedFile M (fat32ToShortName path) (lowByte flags) = openedContents (lowByte flags) bytes := by
      rw [openedFile, show M (fat32ToShortName path) = some bytes from stored]
      rfl
    refine ⟨_, _, rfl, .opened rfl (fun none => ?_) ⟨?_, ?_⟩⟩
    · rw [show M (fat32ToShortName path) = some bytes from stored] at none
      cases none
    · rw [contents]
      exact view
    · simp only [contains.unused, onlyFirst]
  | created _ _ _ absent creat =>
    rw [if_neg (by simp)]
    have contents : openedFile M (fat32ToShortName path) (lowByte flags) = [] := by
      rw [openedFile, show M (fat32ToShortName path) = none from absent]
      simp [openedContents]
    refine ⟨_, _, rfl, .opened rfl (fun _ => creat) ⟨?_, ?_⟩⟩
    · rw [contents]
      simpa [openedPosition, oneHandle] using view
    · simp only [contains.unused, onlyFirst]

/-! ## While a file is open -/

theorem Kernel.Editing.good (editing : k.Editing g cwd M name p) : k.badFd 0 = false := by
  rw [Kernel.badFd, editing.used]
  rfl

/-- The handle of descriptor 0. -/
theorem Kernel.Editing.handle (editing : k.Editing g cwd M name p) :
    (k.session.machine.file 0).isOpen = true ∧ (k.session.machine.file 0).position.toNat = p ∧
      ∃ bytes, M name = some bytes ∧ (k.session.machine.file 0).fileSize.toNat = bytes.length ∧ p ≤ bytes.length :=
  ByteView.opened editing.view (show (⟨M, oneHandle ⟨name, p⟩⟩ : Files).handle 0 = some ⟨name, p⟩ from oneHandle_zero _)

/-- A position is far from the sign bit. -/
theorem Kernel.Editing.small (editing : k.Editing g cwd M name p) (compact : g.Compact) :
    (k.session.machine.file 0).position.toNat ≤ 1073741824 := by
  obtain ⟨-, position, bytes, stored, -, inside⟩ := editing.handle
  have length := editing.view.length_le compact stored
  omega

/-- One call of the file interface on descriptor 0. -/
theorem Kernel.Editing.onFile (editing : k.Editing g cwd M name p) (enough : 4294967296 ≤ fuel) (call : Nat → FsCall)
    (allowed : ByteCall k.session (call 0)) :
    ∃ reply k' F', k.onFile fuel 0 call = some (reply, k') ∧
      Files.Next k.session.space k'.session.space ⟨M, oneHandle ⟨name, p⟩⟩ (call 0) reply F' ∧
      ByteView g cwd k'.session F' ∧ k'.fileUsed = onlyFirst := by
  obtain ⟨reply, t', F', done, next, view⟩ := editing.view.makes enough allowed
  refine ⟨reply, ⟨t', k.fileUsed⟩, F', ?_, next, view, editing.used⟩
  rw [Kernel.onFile, editing.good, if_neg (by decide), show (0 : Int32).toNatClampNeg = 0 from rfl, done]
  rfl

theorem Kernel.Editing.read (editing : k.Editing g cwd M name p) (compact : g.Compact) (enough : 4294967296 ≤ fuel)
    (stored : M name = some bytes) (buffer : Bytes) (size : UInt32) (count : size.toNat ≤ 65536) :
    ∃ (status : Int32) (k' : Kernel) (n : Nat), n = min (p + size.toNat) bytes.length - p ∧ status.toInt = n ∧
      k.step fuel (.fileRead 0 (some buffer) size) =
        some (⟨status, some fun i => if i < n then bytes.getD (p + i) 0 else buffer i⟩, k') ∧
      k'.Editing g cwd M name (p + n) := by
  have small := editing.small compact
  obtain ⟨reply, k', F', done, next, view, used⟩ := editing.onFile enough (.read · (some buffer) size)
    fun _ => by omega
  cases next with
  | readClosed _ _ _ closed => simp at closed
  | read _ _ _ f bytes' status n handle stored' count returned =>
    simp only [oneHandle_zero, Option.some.injEq] at handle
    subst handle
    cases stored.symm.trans stored'
    simp only [oneHandle_update] at view
    exact ⟨status, k', n, count, returned, done, view, used⟩

theorem Kernel.Editing.write (editing : k.Editing g cwd M name p) (compact : g.Compact) (enough : 4294967296 ≤ fuel)
    (stored : M name = some bytes) (data : Bytes) (size : UInt32) (count : size.toNat ≤ 65536) :
    ∃ reply k' n, n ≤ size.toNat ∧ k'.session.space ≤ k.session.space ∧
      (n < size.toNat → k'.session.space = 0) ∧ k.step fuel (.fileWrite 0 (some data) size) = some (reply, k') ∧
      k'.Editing g cwd (Function.update M name (some (splice bytes p data n))) name (p + n) := by
  have small := editing.small compact
  obtain ⟨reply, k', F', done, next, view, used⟩ := editing.onFile enough (.write · (some data) size)
    fun _ => by omega
  cases next with
  | writeClosed _ _ _ closed => simp at closed
  | writeFails _ _ _ f handle before after =>
    obtain ⟨-, -, bytes', stored', -, inside⟩ := editing.handle
    cases stored.symm.trans stored'
    refine ⟨_, k', 0, Nat.zero_le _, (after.trans before.symm).le, fun _ => after, done, ?_, used⟩
    rw [splice_zero inside, ← stored, Function.update_eq_self]
    exact view
  | wrote _ _ _ f bytes' status n handle stored' few returned less early =>
    simp only [oneHandle_zero, Option.some.injEq] at handle
    subst handle
    cases stored.symm.trans stored'
    simp only [oneHandle_update] at view
    exact ⟨_, k', n, few, less, early, done, view, used⟩

theorem Kernel.Editing.seekEnd (editing : k.Editing g cwd M name p) (enough : 4294967296 ≤ fuel)
    (stored : M name = some bytes) :
    ∃ reply k', k.step fuel (.seek 0 0 2) = some (reply, k') ∧ k'.Editing g cwd M name bytes.length := by
  obtain ⟨isOpen, position, bytes', stored', size, inside⟩ := editing.handle
  rw [stored] at stored'
  cases stored'
  have target : (fat32Seek (k.session.machine.file 0) 0 2).2.position = (k.session.machine.file 0).fileSize := by
    simp [fat32Seek, isOpen, fat32SeekSet, fat32SeekCur, fat32SeekEnd, show (0 : Int32).toUInt32 = 0 from rfl]
  obtain ⟨reply, k', F', done, next, view, used⟩ := editing.onFile enough (.seek · 0 2)
    fun _ => UInt32.le_of_eq target
  cases next with
  | seekFails _ _ _ unknown =>
    have known := unknown _ _ (oneHandle_zero _) stored
    simp [seekTarget, fat32SeekSet, fat32SeekCur, fat32SeekEnd] at known
  | seek _ _ _ f bytes' q handle stored' target' =>
    simp only [oneHandle_zero, Option.some.injEq] at handle
    subst handle
    cases stored.symm.trans stored'
    have small : bytes.length < 4294967296 := by
      rw [← size]
      exact UInt32.toNat_lt _
    have here : q = bytes.length := by
      simp [seekTarget, fat32SeekSet, fat32SeekCur, fat32SeekEnd, show (0 : Int32).toUInt32 = 0 from rfl] at target'
      omega
    subst here
    simp only [oneHandle_update] at view
    exact ⟨_, k', done, view, used⟩

theorem Kernel.Editing.close (editing : k.Editing g cwd M name p) (enough : 4294967296 ≤ fuel) :
    ∃ reply k', k.step fuel (.close 0) = some (reply, k') ∧ k'.session.space = k.session.space ∧
      k'.Contains g cwd M := by
  obtain ⟨reply, t', F', done, next, view⟩ :=
    editing.view.makes enough (show ByteCall k.session (.close 0) from trivial)
  have good : t'.space = k.session.space ∧ ByteView g cwd t' ⟨M, fun _ => none⟩ := by
    cases next with
    | closeFails _ closed => simp at closed
    | closed _ f handle same => exact ⟨same, by simpa using view⟩
  refine ⟨reply, ⟨t', freeFd k.fileUsed 0⟩, ?_, good.1, good.2, ?_⟩
  · rw [Kernel.step, editing.good, if_neg (by decide), show (0 : Int32).toNatClampNeg = 0 from rfl, done]
    rfl
  · simp only [editing.used]
    exact freeFd_unused (by decide) rfl

/-! ## Deleting -/

/-- `SYS_UNLINK` removes the name, or fails and changes nothing. -/
inductive Unlinks (g : Fat32Fs) (cwd : UInt32) (k' : Kernel) (M : Contents) (name : ShortName) (status : Int32) :
    Prop
  | fails : status = -1 → M name = none → k'.Contains g cwd M → Unlinks g cwd k' M name status
  | unlinked (bytes : List UInt8) : status = 0 → M name = some bytes →
      k'.Contains g cwd (Function.update M name none) → Unlinks g cwd k' M name status

theorem Kernel.Contains.unlink (contains : k.Contains g cwd M) (enough : 4294967296 ≤ fuel) (path : CString) :
    ∃ reply k', k.step fuel (.unlink path) = some (reply, k') ∧
      Unlinks g cwd k' M (fat32ToShortName path) reply.status := by
  have allowed : ByteCall k.session (.unlink path) := by
    intro h under
    have isOpen := under.1
    rw [contains.view.closed rfl] at isOpen
    cases isOpen
  obtain ⟨reply, t', F', done, next, view⟩ := contains.view.makes enough allowed
  simp only [Kernel.step, done, Option.bind_eq_bind, Option.bind_some]
  cases next with
  | unlinkFails _ absent => exact ⟨_, _, rfl, .fails rfl absent ⟨view, contains.unused⟩⟩
  | unlinked _ bytes stored => exact ⟨_, _, rfl, .unlinked bytes rfl stored ⟨view, contains.unused⟩⟩

end QuantumKernel.Syscall
