import QuantumKernel.Fat32.ByteRuns
import QuantumKernel.Fat32.SharedFile

/-! # The sizes that are on the drive

While a file is open its size is in the handle; the directory entry has the size from the last
`fat32_close`, or 0 for a file that was never closed.  `StoredFiles` are byte arrays with these
sizes.  As long as a handle does not truncate, the entry is a view of a prefix of the file: it has
no first cluster that the handle does not have, and no byte that the handle does not have.
-/

namespace QuantumKernel.Fat32

open ByteStore LinkedTable Transition

/-- Byte arrays, and the size that the drive has for each of them. -/
structure StoredFiles where
  files : Files
  size : ShortName → Nat

/-- The sizes on the drive after a call: creation stores 0, and a close the length. -/
def StoredFiles.sizeAfter (D : StoredFiles) : FsCall → ShortName → Nat
  | .open _ (some path) _ =>
    if D.files.contents (fat32ToShortName path) = none then Function.update D.size (fat32ToShortName path) 0
    else D.size
  | .close h =>
    match D.files.handle h with
    | some f => Function.update D.size f.name ((D.files.contents f.name).getD []).length
    | none => D.size
  | _ => D.size

/-- The store holds the byte arrays, and its entries hold their sizes. -/
structure FileStore.Backs (g : Fat32Fs) (A : FileStore) (D : StoredFiles) : Prop where
  refines : A.Refines g D.files
  size : ∀ name σ, A.volume.Names (A.slots g) name σ → D.size name = (A.dirent σ).fileSize.toNat
  notAhead : ∀ h, (A.file h).isOpen = true → hasFlag (A.file h).flags fat32OTrunc = false →
    NotAhead (A.dirent (A.file h).slot) (A.file h)

variable {g : Fat32Fs} {cwd : UInt32} {A B : FileStore} {D : StoredFiles} {F F' : Files} {t t' : Session}
  {call : FsCall} {r : Int32} {reply : Reply} {size size' first c : UInt32} {bytes : List UInt8} {v : Volume}
  {σ : Slot} {name : ShortName} {h k : Nat} {fuel : Nat} {path : CString} {entry : Fat32Dirent} {f : Fat32File}

/-! ## Entries and handles after a call -/

/-- Where a live entry after a call comes from. -/
inductive FileStore.EntryAfter (g : Fat32Fs) (A B : FileStore) (name : ShortName) (σ : Slot) : FsCall → Prop
  | kept (call : FsCall) : A.volume.Names (A.slots g) name σ → B.dirent σ = A.dirent σ →
      (∀ h, call = .close h → (A.file h).isOpen = true → (A.file h).slot ≠ σ) → EntryAfter g A B name σ call
  | created (h : Nat) (path : CString) (flags : UInt8) (n : UInt32) : A.lookup g path = none →
      name = fat32ToShortName path → B.dirent σ = newEntry name fat32AttrArchive n →
      EntryAfter g A B name σ (.open h (some path) flags)
  | closed (h : Nat) : A.volume.Names (A.slots g) name σ → (A.file h).isOpen = true → (A.file h).slot = σ →
      B.dirent σ = closedEntry (A.dirent σ) (A.file h) → EntryAfter g A B name σ (.close h)

/-- Every call but `mkdir` leaves an entry alone, creates it or closes it. -/
theorem FileStore.Next.entry_after (consistent : A.Consistent g cwd) (next : A.Next g cwd call r B)
    (noMkdir : ∀ path, call ≠ .mkdir path) (names : B.volume.Names (B.slots g) name σ) :
    A.EntryAfter g B name σ call := by
  have geo := consistent.geometry
  have frame := fun c => next.frame (x := c) geo
  cases next with
  | openNull | openFails | openFound | openTruncates | read | writeFails | seek | unlinkFails =>
    exact .kept _ names rfl (by simp)
  | mkdirFails path | mkdirMakes path => exact absurd rfl (noMkdir path)
  | openCreates h path flags n v' l' τ absent creat inRange free inserted notDead =>
    obtain ⟨rfl, -, called⟩ | old := inserted.names_iff.mp names
    · subst called
      exact .created h path flags n absent rfl inserted.holds
    · refine .kept _ old (inserted.kept σ old.1 ?_) (by simp)
      rintro rfl
      exact inserted.not_live_before old.1 old.2.1
  | openLosesEntry h path flags n v' l' τ absent inRange free inserted dead =>
    obtain ⟨rfl, live, -⟩ | old := inserted.names_iff.mp names
    · exact absurd dead ((newEntry_live_iff path fat32AttrArchive (by decide) n).mp live)
    · refine .kept _ old (inserted.kept σ old.1 ?_) (by simp)
      rintro rfl
      exact inserted.not_live_before old.1 old.2.1
  | wrote h data size a n l l' v' file' isOpen source inRange few first advanced wrote =>
    have same : v'.dirent σ = A.volume.dirent σ :=
      Volume.dirent_congr (fun c member => (frame c (consistent.directory_untouched member _ _)).2) σ names.1
    refine .kept _ ⟨names.1, ?_, ?_⟩ same (by simp)
    · rw [← same]
      exact names.2.1
    · rw [← same]
      exact names.2.2
  | closeFails h closed =>
    refine .kept _ names rfl fun k same isOpen => ?_
    cases same
    rw [closed] at isOpen
    cases isOpen
  | closed h isOpen member =>
    have edited := closeAt_edited (v := A.volume) geo member (A.file h)
    have old := (edited.names_iff rfl Iff.rfl).mp names
    by_cases here : (A.file h).slot = σ
    · subst here
      exact .closed h old isOpen rfl edited.holds
    · refine .kept _ old (edited.kept _ σ old.1 (Ne.symm here)) fun k same _ => ?_
      cases same
      exact here
  | unlinkedEmpty path τ found empty =>
    have edited := eraseAt_edited (v := A.volume) geo (FileStore.lookup_names found).1
    obtain ⟨old, ne⟩ := (edited.names_erased (unlinkedEntry_deleted _).not_live).mp names
    exact .kept _ old (edited.kept _ σ old.1 ne) (by simp)
  | unlinked path τ m found chain =>
    have edited := eraseAt_edited (v := A.volume.freeAll m) geo (FileStore.lookup_names found).1
    obtain ⟨old, ne⟩ := (edited.names_erased (unlinkedEntry_deleted _).not_live).mp names
    exact .kept _ old (edited.kept _ σ old.1 ne) (by simp)

/-- What an open handle `f` is after a call. -/
inductive FileStore.HandleAfter (g : Fat32Fs) (A B : FileStore) (k : Nat) (f : Fat32File) : FsCall → Prop
  | kept (call : FsCall) : SameHandle (A.file k) f → f.fileSize = (A.file k).fileSize →
      HandleAfter g A B k f call
  | truncates (call : FsCall) : hasFlag f.flags fat32OTrunc = true → HandleAfter g A B k f call
  | opened (path : CString) (flags : UInt8) : f.firstCluster = (B.dirent f.slot).firstCluster →
      f.fileSize = (B.dirent f.slot).fileSize → HandleAfter g A B k f (.open k (some path) flags)
  | wrote (data : Option Bytes) (size : UInt32) : (A.file k).isOpen = true → f.slot = (A.file k).slot →
      f.flags = (A.file k).flags →
      ((A.file k).firstCluster = 0 ∨ f.firstCluster = (A.file k).firstCluster) →
      (A.file k).fileSize ≤ f.fileSize → HandleAfter g A B k f (.write k data size)

theorem FileStore.Next.handle_after (next : A.Next g cwd call r B) (isOpen : (B.file k).isOpen = true) :
    A.HandleAfter g B k (B.file k) call := by
  by_cases other : call.handle = some k
  · cases next with
    | openNull | writeFails | closeFails => exact .kept _ (.refl _) rfl
    | unlinkFails | unlinkedEmpty | unlinked | mkdirFails | mkdirMakes => cases other
    | openFails | openLosesEntry =>
      cases other
      simp [Fat32File.zero] at isOpen
    | closed =>
      cases other
      simp at isOpen
    | openFound h path flags σ found keeps =>
      cases other
      simp only [Function.update_self]
      exact .opened path flags rfl rfl
    | openTruncates h path flags σ m found trunc chain =>
      cases other
      simp only [Function.update_self]
      exact .truncates _ trunc
    | openCreates h path flags n v' l' σ absent creat inRange free inserted notDead =>
      cases other
      simp only [Function.update_self]
      refine .opened path flags ?_ ?_ <;> simp only [FileStore.dirent, handleFor_slot, inserted.holds] <;> rfl
    | read h buffer size status current position =>
      cases other
      simp only [Function.update_self]
      exact .kept _ ⟨rfl, fun _ => rfl, fun _ => rfl, fun _ => rfl, fun _ => rfl⟩ rfl
    | wrote h data size a n l l' v' file' wasOpen source inRange few first advanced wrote =>
      cases other
      have rest := advanced.rest
      simp only [Function.update_self]
      refine .wrote (some data) size wasOpen ?_ ?_ ?_ advanced.grows
      · rw [rest]
        rfl
      · rw [rest]
      · exact source.imp And.left fun same => first.trans same.1.symm
    | seek h offset whence =>
      cases other
      obtain ⟨p, moved⟩ := fat32Seek_moves (A.file k) offset whence
      simp only [Function.update_self]
      exact .kept _ (fat32Seek_same _ _ _) (by rw [moved])
  · rw [next.other_handle other]
    exact .kept _ (.refl _) rfl

/-! ## One call -/

/-- Every name of the directory has contents. -/
theorem FileStore.Refines.stored (refines : A.Refines g F) (names : A.volume.Names (A.slots g) name σ) :
    ∃ bytes, F.contents name = some bytes := by
  by_cases used : ∃ h, (A.file h).isOpen = true ∧ (A.file h).slot = σ
  · obtain ⟨h, isOpen, slot⟩ := used
    obtain ⟨bytes, stored, -⟩ := refines.present name σ _ _ names (.handle h isOpen slot)
    exact ⟨bytes, stored⟩
  · obtain ⟨bytes, stored, -⟩ := refines.present name σ _ _ names
      (.entry fun h isOpen slot => used ⟨h, isOpen, slot⟩)
    exact ⟨bytes, stored⟩

/-- A call that leaves an entry alone leaves its size alone. -/
theorem FileStore.Backs.sizeAfter_kept (backs : A.Backs g D) (consistent : A.Consistent g cwd)
    (names : A.volume.Names (A.slots g) name σ)
    (notClosed : ∀ h, call = .close h → (A.file h).isOpen = true → (A.file h).slot ≠ σ) :
    D.sizeAfter call name = D.size name := by
  cases call with
  | «open» h path flags =>
    cases path with
    | none => rfl
    | some path =>
      rw [StoredFiles.sizeAfter]
      split
      · rename_i absent
        obtain ⟨bytes, stored⟩ := backs.refines.stored names
        refine Function.update_of_ne ?_ _ _
        rintro rfl
        rw [absent] at stored
        cases stored
      · rfl
  | close h =>
    have handle := backs.refines.handle h
    rw [StoredFiles.sizeAfter, handle]
    by_cases isOpen : (A.file h).isOpen = true
    · rw [if_pos isOpen]
      refine Function.update_of_ne ?_ _ _
      rintro rfl
      -- the name belongs to one slot only
      have mine := consistent.names_open isOpen
      exact notClosed h rfl isOpen (backs.refines.unique _ mine.1 σ names.1 mine.2.1 names.2.1
        (mine.2.2.trans names.2.2.symm))
    · rw [if_neg isOpen]
  | read | write | seek | unlink | mkdir => rfl

/-- The size of an entry after a call. -/
theorem FileStore.Backs.size_after (backs : A.Backs g D) (consistent : A.Consistent g cwd)
    (entry : A.EntryAfter g B name σ call) : D.sizeAfter call name = (B.dirent σ).fileSize.toNat := by
  cases entry with
  | kept call old same notClosed =>
    rw [same]
    exact (backs.sizeAfter_kept consistent old notClosed).trans (backs.size name σ old)
  | created h path flags n absent called entry =>
    have none := backs.refines.absent _ (Volume.lookup_none consistent.ends absent)
    subst called
    simp only [entry, StoredFiles.sizeAfter, if_pos none, Function.update_self]
    rfl
  | closed h old isOpen slot entry =>
    subst slot
    have called : name = A.opened h := old.2.2.symm.trans (consistent.names_open isOpen).2.2
    subst called
    obtain ⟨bytes, stored, reads⟩ := backs.refines.open_reads consistent isOpen
    have handle := (backs.refines.handle h).trans (if_pos isOpen)
    simp only [StoredFiles.sizeAfter, handle, stored, Function.update_self, Option.getD_some]
    rw [reads.length, entry]
    rfl

/-- A handle that the call leaves alone is not behind its entry. -/
theorem FileStore.Backs.notAhead_kept (backs : A.Backs g D) (isOpen : f.isOpen = true)
    (keeps : hasFlag f.flags fat32OTrunc = false) (same : SameHandle (A.file k) f)
    (size : f.fileSize = (A.file k).fileSize) (entry : A.EntryAfter g B name f.slot call) :
    NotAhead (B.dirent f.slot) f := by
  have wasOpen := same.isOpen.symm.trans isOpen
  have slot := same.slot wasOpen
  cases entry with
  | kept _ old entry notClosed =>
    have before := backs.notAhead k wasOpen ((same.flags wasOpen) ▸ keeps)
    rw [entry, slot]
    exact ⟨size ▸ before.size, by rw [same.firstCluster wasOpen]; exact before.cluster⟩
  | created h path flags n absent called entry =>
    rw [entry]
    exact ⟨UInt32.le_iff_toNat_le.mpr (Nat.zero_le _), Or.inl rfl⟩
  | closed h old isOpenH slotH entry =>
    -- the handle that is closed is the only one on its slot
    have same' := backs.refines.alone h k isOpenH wasOpen (slotH.trans slot)
    subst same'
    rw [entry]
    exact ⟨UInt32.le_of_eq size.symm, Or.inr (by simp [same.firstCluster wasOpen])⟩

/-- An open file without a first cluster has no bytes. -/
theorem FileStore.Backs.size_of_no_cluster (backs : A.Backs g D) (consistent : A.Consistent g cwd)
    (isOpen : (A.file k).isOpen = true) (none : (A.file k).firstCluster = 0) : (A.file k).fileSize = 0 := by
  obtain ⟨bytes, -, reads⟩ := backs.refines.open_reads consistent isOpen
  rw [none] at reads
  have length := reads.length
  rw [reads.of_zero consistent.geometry] at length
  exact UInt32.toNat.inj length.symm

/-- Nor is a handle that the call writes through. -/
theorem FileStore.Backs.notAhead_wrote (backs : A.Backs g D) (consistent : A.Consistent g cwd)
    (wasOpen : (A.file k).isOpen = true) (keeps : hasFlag (A.file k).flags fat32OTrunc = false)
    (slot : f.slot = (A.file k).slot)
    (first : (A.file k).firstCluster = 0 ∨ f.firstCluster = (A.file k).firstCluster)
    (grows : (A.file k).fileSize ≤ f.fileSize) (entry : B.dirent f.slot = A.dirent f.slot) :
    NotAhead (B.dirent f.slot) f := by
  have before := backs.notAhead k wasOpen keeps
  rw [entry, slot]
  refine ⟨UInt32.le_trans before.size grows, ?_⟩
  cases first with
  | inl none =>
    have size := UInt32.le_iff_toNat_le.mp before.size
    rw [backs.size_of_no_cluster consistent wasOpen none] at size
    exact Or.inl (UInt32.toNat.inj (Nat.le_zero.mp size))
  | inr same => exact before.cluster.imp_right fun here => here.trans same.symm

/-- **One call keeps the sizes.** -/
theorem FileStore.Backs.step (backs : A.Backs g D) (consistent : A.Consistent g cwd) (after : B.Consistent g cwd)
    (next : A.Next g cwd call r B) (noMkdir : ∀ path, call ≠ .mkdir path) (refines : B.Refines g F') :
    B.Backs g ⟨F', D.sizeAfter call⟩ where
  refines := refines
  size _ _ names := backs.size_after consistent (next.entry_after consistent noMkdir names)
  notAhead := by
    intro k isOpen keeps
    have entry := next.entry_after consistent noMkdir (after.names_open isOpen)
    cases next.handle_after isOpen with
    | kept call same size => exact backs.notAhead_kept isOpen keeps same size entry
    | truncates call trunc =>
      rw [keeps] at trunc
      cases trunc
    | opened path flags first size => exact ⟨UInt32.le_of_eq size.symm, Or.inr first.symm⟩
    | wrote data size wasOpen slot flags first grows =>
      cases entry with
      | kept _ _ same _ => exact backs.notAhead_wrote consistent wasOpen (flags ▸ keeps) slot first grows same

end QuantumKernel.Fat32
