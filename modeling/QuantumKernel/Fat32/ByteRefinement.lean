import QuantumKernel.Fat32.ByteFiles
import QuantumKernel.Fat32.Names

/-! # Open files behave as byte arrays

The view of a file is the first cluster and the size that count for it: those in the
handle while one is open, and those in the directory entry otherwise.  `Refines` says
that for every name the bytes of the view are the contents of an abstract file.  Calls
on one file leave the views and the chains of the others alone, by the frame of
`Frame.lean`, so that each outcome only has to be checked for its own file.
-/

namespace QuantumKernel.Fat32

open ByteStore LinkedTable Transition BlockStore

/-- The chain at `first`, or no chain, holds at least `size` bytes, and the first `size`
of them are `bytes`. -/
def Volume.Reads (g : Fat32Fs) (v : Volume) (first size : UInt32) (bytes : List UInt8) : Prop :=
  ∃ l, (first = 0 ∧ l = [] ∨ FatChain g v first l) ∧
    size.toNat ≤ l.length * g.bytesPerCluster.toNat ∧
    bytes = (List.range size.toNat).map (v.byteAt g l)

/-- The first cluster and the size that count for the file in a slot. -/
inductive FileStore.View (A : FileStore) (σ : Slot) : UInt32 → UInt32 → Prop
  | handle (h : Nat) : (A.file h).isOpen = true → (A.file h).slot = σ →
      View A σ (A.file h).firstCluster (A.file h).fileSize
  | entry : (∀ h, (A.file h).isOpen = true → (A.file h).slot ≠ σ) →
      View A σ (A.dirent σ).firstCluster (A.dirent σ).fileSize

/-- The store holds the abstract files. -/
structure FileStore.Refines (g : Fat32Fs) (A : FileStore) (F : Files) : Prop where
  unique : A.volume.UniqueNames (A.slots g)
  alone : ∀ h k, (A.file h).isOpen = true → (A.file k).isOpen = true →
    (A.file h).slot = (A.file k).slot → h = k
  present : ∀ name σ first size, A.volume.Names (A.slots g) name σ → A.View σ first size →
    ∃ bytes, F.contents name = some bytes ∧ A.volume.Reads g first size bytes
  absent : ∀ name, (∀ σ, ¬ A.volume.Names (A.slots g) name σ) → F.contents name = none
  handle : ∀ h, F.handle h = if (A.file h).isOpen then
    some ⟨A.opened h, (A.file h).position.toNat⟩ else none
  inside : ∀ h, (A.file h).isOpen = true → (A.file h).position ≤ (A.file h).fileSize

/-- The calls of a run on byte arrays: no file has two handles or is unlinked while open,
seeks stay inside the file, and no position reaches `2^31`. -/
def ByteCall (t : Session) : FsCall → Prop
  | .open h (some path) _ => (t.machine.file h).isOpen = false ∧ fat32ToShortName path 0 ≠ 0xE5 ∧
      ∀ k, ¬ OpenUnder t.machine.file t.opened (fat32ToShortName path) k
  | .open _ none _ => True
  | .read h _ size => (t.machine.file h).isOpen = true →
      (t.machine.file h).position.toNat + size.toNat < 2147483648
  | .write h _ size => (t.machine.file h).isOpen = true →
      (t.machine.file h).position.toNat + size.toNat < 2147483648
  | .seek h offset whence => (t.machine.file h).isOpen = true →
      (fat32Seek (t.machine.file h) offset whence).2.position ≤ (t.machine.file h).fileSize
  | .close _ => True
  | .unlink path => ∀ k, ¬ OpenUnder t.machine.file t.opened (fat32ToShortName path) k
  | .mkdir _ => False

variable {g : Fat32Fs} {cwd : UInt32} {v v' : Volume} {A B : FileStore} {F F' : Files} {t t' : Session}
  {call : FsCall} {r : Int32} {reply : Reply} {first size c : UInt32} {bytes : List UInt8}
  {σ τ : Slot} {name : ShortName} {h k : Nat} {fuel : Nat} {path : CString}

theorem ByteCall.careful (allowed : ByteCall t call) : Careful t call := by
  cases call with
  | «open» h path flags =>
    cases path with
    | none => trivial
    | some path =>
      obtain ⟨closed, -, alone⟩ := allowed
      exact ⟨closed, fun k under => absurd under (alone k)⟩
  | unlink path => exact allowed
  | _ => trivial

/-! ## Bytes of a chain -/

theorem Volume.Reads.length (reads : v.Reads g first size bytes) : bytes.length = size.toNat := by
  obtain ⟨l, -, -, rfl⟩ := reads
  simp

theorem Volume.Reads.congr (reads : v.Reads g first size bytes)
    (same : ∀ l, FatChain g v first l → ∀ x ∈ l, v.SameAt v' x) : v'.Reads g first size bytes := by
  obtain ⟨l, start, room, rfl⟩ := reads
  rcases start with ⟨zero, rfl⟩ | chain
  · have nothing : size.toNat = 0 := by simpa using room
    exact ⟨[], Or.inl ⟨zero, rfl⟩, room, by simp [nothing]⟩
  · obtain ⟨chain', bytes⟩ := chain.of_sameAt (same l chain)
    refine ⟨l, Or.inr chain', room, ?_⟩
    simp [bytes]

/-- A file of no bytes needs no more than a chain. -/
theorem FileStore.Consistent.reads_empty (consistent : A.Consistent g cwd)
    (owned : A.Owned cwd c σ) : A.volume.Reads g c 0 [] := by
  rcases consistent.owned_chain owned with zero | ⟨m, chain, -⟩
  · exact ⟨[], Or.inl ⟨zero, rfl⟩, by simp, rfl⟩
  · exact ⟨m, Or.inr chain, by simp, rfl⟩

/-! ## Views -/

theorem FileStore.View.owned (view : A.View σ first size) (consistent : A.Consistent g cwd)
    (member : σ ∈ A.slots g) (live : (A.dirent σ).IsLive) : A.Owned cwd first σ := by
  cases view with
  | handle h isOpen slot => exact slot ▸ (consistent.handles h isOpen).owned
  | entry unused =>
    refine (consistent.entries σ member live).resolve_left ?_
    rintro ⟨h, isOpen, slot, -⟩
    exact unused h isOpen slot

/-- The slot of an open handle carries the name it was opened under. -/
theorem FileStore.Consistent.names_open (consistent : A.Consistent g cwd)
    (isOpen : (A.file h).isOpen = true) :
    A.volume.Names (A.slots g) (A.opened h) (A.file h).slot := by
  obtain ⟨member, live, name, -, -⟩ := consistent.handles h isOpen
  exact ⟨member, live, name⟩

/-- The bytes behind an open handle. -/
theorem FileStore.Refines.open_reads (refines : A.Refines g F) (consistent : A.Consistent g cwd)
    (isOpen : (A.file h).isOpen = true) :
    ∃ bytes, F.contents (A.opened h) = some bytes ∧
      A.volume.Reads g (A.file h).firstCluster (A.file h).fileSize bytes :=
  refines.present _ _ _ _ (consistent.names_open isOpen) (.handle h isOpen rfl)

/-- **The other files.**  A file that a call is not about keeps its bytes. -/
theorem FileStore.Refines.carry (refines : A.Refines g F) (consistent : A.Consistent g cwd)
    (careful : Disciplined A.file A.opened call) (next : A.Next g cwd call r B)
    (names : A.volume.Names (A.slots g) name σ) (view : A.View σ first size)
    (other : ¬ A.Subject g σ call) :
    ∃ bytes, F.contents name = some bytes ∧ B.volume.Reads g first size bytes := by
  obtain ⟨bytes, stored, reads⟩ := refines.present name σ first size names view
  have owned := view.owned consistent names.1 names.2.1
  refine ⟨bytes, stored, reads.congr fun l chain x member => ?_⟩
  exact next.frame consistent.geometry
    (consistent.chain_untouched careful owned chain member other)

/-- A view after one handle changed that is not on this file, before or after. -/
theorem FileStore.View.of_update {f : Fat32File} (view : B.View σ first size)
    (file : B.file = Function.update A.file h f) (entry : B.dirent σ = A.dirent σ)
    (before : (A.file h).isOpen = true → (A.file h).slot ≠ σ)
    (after : f.isOpen = true → f.slot ≠ σ) : A.View σ first size := by
  cases view with
  | handle k isOpen slot =>
    rw [file] at isOpen slot ⊢
    by_cases same : k = h
    · subst same
      rw [Function.update_self] at isOpen slot
      exact absurd slot (after isOpen)
    · rw [Function.update_of_ne same] at isOpen slot ⊢
      exact .handle k isOpen slot
  | entry unused =>
    rw [entry]
    refine .entry fun k isOpen slot => ?_
    by_cases same : k = h
    · subst same
      exact before isOpen slot
    · refine unused k ?_ ?_ <;> rw [file, Function.update_of_ne same]
      · exact isOpen
      · exact slot

/-- A view after one handle changed that only moved. -/
theorem FileStore.View.of_moved {f : Fat32File} (view : B.View σ first size)
    (file : B.file = Function.update A.file h f) (entry : B.dirent σ = A.dirent σ)
    (isOpen : f.isOpen = (A.file h).isOpen) (slot : f.slot = (A.file h).slot)
    (sameFirst : f.firstCluster = (A.file h).firstCluster)
    (sameSize : f.fileSize = (A.file h).fileSize) : A.View σ first size := by
  have agree (k : Nat) : (B.file k).isOpen = (A.file k).isOpen ∧ (B.file k).slot = (A.file k).slot ∧
      (B.file k).firstCluster = (A.file k).firstCluster ∧
      (B.file k).fileSize = (A.file k).fileSize := by
    rw [file]
    by_cases same : k = h
    · subst same
      rw [Function.update_self]
      exact ⟨isOpen, slot, sameFirst, sameSize⟩
    · rw [Function.update_of_ne same]
      exact ⟨rfl, rfl, rfl, rfl⟩
  cases view with
  | handle k openB slotB =>
    obtain ⟨openK, slotK, firstK, sizeK⟩ := agree k
    rw [firstK, sizeK]
    exact .handle k (openK ▸ openB) (slotK ▸ slotB)
  | entry unused =>
    rw [entry]
    refine .entry fun k openA slotA => ?_
    obtain ⟨openK, slotK, -, -⟩ := agree k
    exact unused k (openK.trans openA) (slotK.trans slotA)

/-! ## Opening -/

/-- A handle on a file with the given bytes is added. -/
theorem FileStore.Refines.openHandle {f : Fat32File} (refines : A.Refines g F)
    (closed : (A.file h).isOpen = false) (file : B.file = Function.update A.file h f)
    (opened : B.opened = Function.update A.opened h name) (isOpen : f.isOpen = true)
    (inside : f.position ≤ f.fileSize) (names : B.volume.Names (B.slots g) name f.slot)
    (unused : ∀ k, (A.file k).isOpen = true → (A.file k).slot ≠ f.slot)
    (unique : B.volume.UniqueNames (B.slots g))
    (old : ∀ other σ, B.volume.Names (B.slots g) other σ → σ ≠ f.slot →
      A.volume.Names (A.slots g) other σ ∧ B.dirent σ = A.dirent σ)
    (kept : ∀ other σ, A.volume.Names (A.slots g) other σ → B.volume.Names (B.slots g) other σ)
    (carried : ∀ other σ first size, A.volume.Names (A.slots g) other σ → A.View σ first size →
      σ ≠ f.slot → ∃ bytes, F.contents other = some bytes ∧ B.volume.Reads g first size bytes)
    (reads : B.volume.Reads g f.firstCluster f.fileSize bytes) :
    B.Refines g {
      contents := Function.update F.contents name (some bytes)
      handle := Function.update F.handle h (some ⟨name, f.position.toNat⟩) } where
  unique := unique
  alone := by
    intro i j openI openJ slot
    rw [file] at openI openJ slot
    by_cases sameI : i = h <;> by_cases sameJ : j = h
    · rw [sameI, sameJ]
    · subst sameI
      rw [Function.update_of_ne sameJ] at openJ slot
      rw [Function.update_self] at slot
      exact absurd slot.symm (unused j openJ)
    · subst sameJ
      rw [Function.update_of_ne sameI] at openI slot
      rw [Function.update_self] at slot
      exact absurd slot (unused i openI)
    · rw [Function.update_of_ne sameI] at openI slot
      rw [Function.update_of_ne sameJ] at openJ slot
      exact refines.alone i j openI openJ slot
  present := by
    intro other σ first size namesB view
    by_cases here : σ = f.slot
    · subst here
      have called : other = name := namesB.2.2.symm.trans names.2.2
      subst called
      refine ⟨bytes, Function.update_self _ _ _, ?_⟩
      -- the only handle on this slot is the new one
      cases view with
      | handle k openK slotK =>
        rw [file] at openK slotK ⊢
        by_cases same : k = h
        · subst same
          rw [Function.update_self]
          exact reads
        · rw [Function.update_of_ne same] at openK slotK
          exact absurd slotK (unused k openK)
      | entry nobody =>
        refine absurd ?_ (nobody h ?_) <;> rw [file, Function.update_self]
        exact isOpen
    · obtain ⟨namesA, entry⟩ := old other σ namesB here
      have viewA : A.View σ first size :=
        view.of_update file entry (fun openH => by simp [closed] at openH) fun _ => Ne.symm here
      obtain ⟨bytes, stored, readsB⟩ := carried other σ first size namesA viewA here
      refine ⟨bytes, ?_, readsB⟩
      rw [← stored]
      refine Function.update_of_ne (fun called => here ?_) _ _
      exact unique σ namesB.1 f.slot names.1 namesB.2.1 names.2.1
        (namesB.2.2.trans (called.trans names.2.2.symm))
  absent := by
    intro other nobody
    have ne : other ≠ name := by
      rintro rfl
      exact nobody f.slot names
    simp only [Function.update_of_ne ne]
    exact refines.absent other fun σ namesA => nobody σ (kept other σ namesA)
  handle := by
    intro k
    simp only [file, opened]
    by_cases same : k = h
    · subst same
      simp [isOpen]
    · simp only [Function.update_of_ne same]
      exact refines.handle k
  inside := by
    intro k openK
    rw [file] at openK ⊢
    by_cases same : k = h
    · subst same
      rw [Function.update_self]
      exact inside
    · rw [Function.update_of_ne same] at openK ⊢
      exact refines.inside k openK

/-- A handle that is not open is replaced by another one that is not open. -/
theorem FileStore.Refines.dropHandle {f : Fat32File} (refines : A.Refines g F)
    (closed : (A.file h).isOpen = false) (still : f.isOpen = false) (name : ShortName) :
    FileStore.Refines g
      { A with file := Function.update A.file h f, opened := Function.update A.opened h name }
      { F with handle := Function.update F.handle h none } := by
  have other (k : Nat) (openK : (Function.update A.file h f k).isOpen = true) : k ≠ h := by
    rintro rfl
    simp [still] at openK
  refine ⟨refines.unique, ?_, ?_, refines.absent, ?_, ?_⟩
  · intro i j openI openJ slot
    have neI := other i openI
    have neJ := other j openJ
    simp only [Function.update_of_ne neI, Function.update_of_ne neJ] at openI openJ slot
    exact refines.alone i j openI openJ slot
  · intro called σ first size names view
    refine refines.present called σ first size names (view.of_update rfl rfl ?_ ?_)
    · simp [closed]
    · simp [still]
  · intro k
    by_cases same : k = h
    · subst same
      simp [still]
    · simp only [Function.update_of_ne same]
      exact refines.handle k
  · intro k openK
    have ne := other k openK
    simp only [Function.update_of_ne ne] at openK ⊢
    exact refines.inside k openK

@[simp] theorem handleFor_position (entry : Fat32Dirent) (σ : Slot) (flags : UInt8) :
    (handleFor entry σ flags).position =
      if hasFlag flags fat32OAppend then entry.fileSize else 0 := rfl

@[simp] theorem truncatedHandle_position (entry : Fat32Dirent) (σ : Slot) (flags : UInt8) :
    (truncatedHandle entry σ flags).position = 0 := by
  cases append : hasFlag flags fat32OAppend <;> simp [truncatedHandle, finishOpen, append]

/-- The position of a new handle, as a number. -/
theorem openedPosition_eq {flags : UInt8} (length : bytes.length = size.toNat) :
    (if hasFlag flags fat32OAppend then size else 0).toNat = openedPosition flags bytes := by
  cases append : hasFlag flags fat32OAppend <;> simp [openedPosition, append, length]

theorem position_le_size (flags : UInt8) (size : UInt32) :
    (if hasFlag flags fat32OAppend then size else 0) ≤ size := by
  split
  · exact UInt32.le_refl _
  · simp

/-- A file without a first cluster has no bytes. -/
theorem Volume.Reads.of_zero (geo : Geometry g) (reads : v.Reads g 0 size bytes) : bytes = [] := by
  obtain ⟨l, start, room, rfl⟩ := reads
  rcases start with ⟨-, rfl⟩ | chain
  · have nothing : size.toNat = 0 := by simpa using room
    simp [nothing]
  · exact absurd (chain.cell_of_mem 0 chain.head_mem) geo.free_not_inRange

variable {flags : UInt8}

/-- Every outcome of `fat32_open` is one of the byte arrays. -/
theorem FileStore.Refines.step_open (refines : A.Refines g F) (consistent : A.Consistent g cwd)
    (careful : Disciplined A.file A.opened (.open h (some path) flags))
    (notDead : fat32ToShortName path 0 ≠ 0xE5)
    (alone : ∀ k, ¬ OpenUnder A.file A.opened (fat32ToShortName path) k)
    (next : A.Next g cwd (.open h (some path) flags) r B) (after : B.Consistent g cwd) :
    ∃ F', F.Next (A.space g) (B.space g) (.open h (some path) flags) ⟨r, none⟩ F' ∧ B.Refines g F' := by
  have geo := consistent.geometry
  have unique := next.uniqueNames consistent trivial refines.unique
  have carry : ∀ (other : ShortName) (τ : Slot) (first size : UInt32),
      A.volume.Names (A.slots g) other τ → A.View τ first size → A.lookup g path ≠ some τ →
      ∃ bytes, F.contents other = some bytes ∧ B.volume.Reads g first size bytes :=
    fun _ _ _ _ names view ne => refines.carry consistent careful next names view ne
  -- a handle on the slot that was found would be open under this name
  have unused {σ : Slot} (found : A.lookup g path = some σ) :
      ∀ k, (A.file k).isOpen = true → (A.file k).slot ≠ σ :=
    fun k openK slotK => alone k (consistent.openUnder found openK slotK)
  cases next with
  | openFails _ _ _ absent scarce =>
    have nobody := Volume.lookup_none consistent.ends absent
    exact ⟨_, .openFails h path flags (refines.absent _ nobody) scarce,
      refines.dropHandle careful.1 rfl _⟩
  | openFound _ _ _ σ found keeps =>
    have names := FileStore.lookup_names found
    obtain ⟨bytes, stored, reads⟩ := refines.present _ σ _ _ names (.entry (unused found))
    have same : openedContents flags bytes = bytes := by
      rcases keeps with off | zero
      · simp [openedContents, off]
      · rw [zero] at reads
        simp [openedContents, reads.of_zero geo]
    refine ⟨_, .opened h path flags bytes stored, ?_⟩
    have length := reads.length
    rw [same, ← openedPosition_eq length, ← handleFor_position (A.dirent σ) σ flags]
    refine refines.openHandle (f := handleFor (A.dirent σ) σ flags) careful.1 rfl rfl rfl ?_ names
      (unused found) unique (fun other τ namesB _ => ⟨namesB, rfl⟩) (fun _ _ namesA => namesA) ?_ reads
    · exact position_le_size flags _
    · intro other τ first size namesA view ne
      exact refines.present other τ first size namesA view
  | openTruncates _ _ _ σ m found trunc chain =>
    have names := FileStore.lookup_names found
    obtain ⟨bytes, stored, -⟩ := refines.present _ σ _ _ names (.entry (unused found))
    have same : openedContents flags bytes = [] := by simp [openedContents, trunc]
    have start : openedPosition flags [] = (truncatedHandle (A.dirent σ) σ flags).position.toNat := by
      simp [openedPosition]
    refine ⟨_, .opened h path flags bytes stored, ?_⟩
    rw [same, start]
    refine refines.openHandle (f := truncatedHandle (A.dirent σ) σ flags) careful.1 rfl rfl rfl ?_
      names (unused found) unique (fun other τ namesB _ => ⟨namesB, rfl⟩)
      (fun _ _ namesA => namesA) ?_ ⟨[], Or.inl ⟨rfl, rfl⟩, by simp, by simp⟩
    · simp
    · intro other τ first size namesA view ne
      refine carry other τ first size namesA view fun foundτ => ne ?_
      rw [found] at foundτ
      exact (Option.some.inj foundτ).symm
  | openCreates _ _ _ n v' l' σ absent creat inRange free inserted notDead =>
    have nobody := Volume.lookup_none consistent.ends absent
    have live := (newEntry_live_iff path fat32AttrArchive (by decide) n).mpr notDead
    have start : (0 : Nat) = (handleFor (newEntry (fat32ToShortName path) fat32AttrArchive n) σ
        flags).position.toNat := by
      cases append : hasFlag flags fat32OAppend <;> simp [append, newEntry]
    have owned := (after.handles h (by simp)).owned
    refine ⟨_, .created h path flags (refines.absent _ nobody) creat, ?_⟩
    rw [start]
    refine refines.openHandle
      (f := handleFor (newEntry (fat32ToShortName path) fat32AttrArchive n) σ flags) careful.1 rfl rfl
      rfl ?_ (inserted.names_iff.mpr (Or.inl ⟨rfl, live, rfl⟩)) ?_ unique ?_ ?_ ?_ ?_
    · exact position_le_size flags _
    · exact consistent.vacant_unused inserted
    · intro other τ namesB ne
      have old := (inserted.names_iff.mp namesB).resolve_left fun new => ne new.1
      exact ⟨old, inserted.kept τ old.1 ne⟩
    · exact fun _ _ namesA => inserted.names_iff.mpr (Or.inr namesA)
    · intro other τ first size namesA view ne
      refine carry other τ first size namesA view fun foundτ => ?_
      rw [absent] at foundτ
      cases foundτ
    · simp only [Function.update_self] at owned
      exact after.reads_empty owned
  | openLosesEntry _ _ _ n v' l' σ absent inRange free inserted dead => exact absurd dead notDead

/-! ## Reading, seeking and writing -/

/-- The position of an open handle moves inside the file. -/
theorem FileStore.Refines.moved {f : Fat32File} (refines : A.Refines g F)
    (isOpen : (A.file h).isOpen = true) (stays : f.isOpen = true) (slot : f.slot = (A.file h).slot)
    (sameFirst : f.firstCluster = (A.file h).firstCluster)
    (sameSize : f.fileSize = (A.file h).fileSize) (inside : f.position ≤ f.fileSize) :
    FileStore.Refines g { A with file := Function.update A.file h f }
      { F with handle := Function.update F.handle h (some ⟨A.opened h, f.position.toNat⟩) } := by
  have agree (k : Nat) : (Function.update A.file h f k).isOpen = (A.file k).isOpen ∧
      (Function.update A.file h f k).slot = (A.file k).slot := by
    by_cases same : k = h
    · subst same
      rw [Function.update_self]
      exact ⟨stays.trans isOpen.symm, slot⟩
    · rw [Function.update_of_ne same]
      exact ⟨rfl, rfl⟩
  refine ⟨refines.unique, ?_, ?_, refines.absent, ?_, ?_⟩
  · intro i j openI openJ slots
    simp only [agree] at openI openJ slots
    exact refines.alone i j openI openJ slots
  · intro called σ first size names view
    exact refines.present called σ first size names
      (view.of_moved rfl rfl (stays.trans isOpen.symm) slot sameFirst sameSize)
  · intro k
    by_cases same : k = h
    · subst same
      simp [stays]
    · simp only [Function.update_of_ne same]
      exact refines.handle k
  · intro k openK
    by_cases same : k = h
    · subst same
      simp only [Function.update_self]
      exact inside
    · simp only [Function.update_of_ne same] at openK ⊢
      exact refines.inside k openK

theorem FileStore.Refines.step_seek {offset : Int32} {whence : UInt8} (refines : A.Refines g F)
    (consistent : A.Consistent g cwd)
    (small : (A.file h).isOpen = true →
      (fat32Seek (A.file h) offset whence).2.position ≤ (A.file h).fileSize)
    (next : A.Next g cwd (.seek h offset whence) r B) :
    ∃ F', F.Next (A.space g) (B.space g) (.seek h offset whence) ⟨r, none⟩ F' ∧ B.Refines g F' := by
  cases next
  cases isOpen : (A.file h).isOpen with
  | false =>
    have failed : fat32Seek (A.file h) offset whence = (-1, A.file h) := by simp [fat32Seek, isOpen]
    have handle : F.handle h = none := (refines.handle h).trans (if_neg (by simp [isOpen]))
    refine ⟨F, ?_, ?_⟩
    · rw [failed]
      exact .seekFails h offset whence fun f bytes found => by simp [handle] at found
    · simpa [failed] using refines
  | true =>
    obtain ⟨bytes, stored, reads⟩ := refines.open_reads consistent isOpen
    have handle := (refines.handle h).trans (if_pos isOpen)
    have inside := small isOpen
    -- a known `whence` sets the position and nothing else
    have moves {p : UInt32} (target : fat32Seek (A.file h) offset whence =
        (0, { A.file h with position := p }))
        (value : seekTarget (A.file h).position.toNat bytes.length offset whence = some p.toNat) :
        ∃ F', F.Next (A.space g) (A.space g) (.seek h offset whence)
            ⟨(fat32Seek (A.file h) offset whence).1, none⟩ F' ∧
          FileStore.Refines g { A with
            file := Function.update A.file h (fat32Seek (A.file h) offset whence).2 } F' := by
      rw [target] at inside ⊢
      exact ⟨_, .seek h offset whence _ bytes p.toNat handle stored value,
        refines.moved isOpen isOpen rfl rfl rfl inside⟩
    by_cases set : whence = fat32SeekSet
    · refine moves (p := offset.toUInt32) ?_ ?_ <;> simp [fat32Seek, seekTarget, isOpen, set]
    · by_cases cur : whence = fat32SeekCur
      · subst cur
        refine moves (p := (A.file h).position + offset.toUInt32) ?_ ?_ <;>
          simp [fat32Seek, seekTarget, isOpen, set]
      · by_cases atEnd : whence = fat32SeekEnd
        · subst atEnd
          refine moves (p := (A.file h).fileSize + offset.toUInt32) ?_ ?_ <;>
            simp [fat32Seek, seekTarget, isOpen, set, cur, reads.length]
        · have failed : fat32Seek (A.file h) offset whence = (-1, A.file h) := by
            simp [fat32Seek, isOpen, set, cur, atEnd]
          refine ⟨F, ?_, ?_⟩
          · rw [failed]
            refine .seekFails h offset whence fun f other _ _ => ?_
            simp [seekTarget, set, cur, atEnd]
          · simpa [failed] using refines

/-- The bytes of a file, along the chain that is known to be its chain. -/
theorem Volume.Reads.along {a : UInt32} {l : List UInt32} (geo : Geometry g)
    (reads : v.Reads g first size bytes)
    (source : first = 0 ∧ l = [] ∨ first = a ∧ FatChain g v a l) :
    size.toNat ≤ l.length * g.bytesPerCluster.toNat ∧
      bytes = (List.range size.toNat).map (v.byteAt g l) := by
  obtain ⟨m, start, room, rfl⟩ := reads
  have same : m = l := by
    rcases start with ⟨zero, rfl⟩ | chain <;> rcases source with ⟨zero', rfl⟩ | ⟨rfl, chain'⟩
    · rfl
    · exact absurd zero (chain'.cell_of_mem _ chain'.head_mem).ne_zero
    · exact absurd zero' (chain.cell_of_mem _ chain.head_mem).ne_zero
    · exact Chain.unique geo.excl chain chain'
  subst same
  exact ⟨room, rfl⟩

/-- The bytes of a file after a write inside it or at its end. -/
theorem WroteRange.reads {a size' : UInt32} {l l' : List UInt32} {start n : Nat} {source : Bytes}
    (wrote : WroteRange g v v' a l l' start source n)
    (room : size.toNat ≤ l.length * g.bytesPerCluster.toNat) (inside : start ≤ size.toNat)
    (grows : size'.toNat = max size.toNat (start + n)) :
    v'.Reads g a size' (splice ((List.range size.toNat).map (v.byteAt g l)) start source n) := by
  have longer := Nat.mul_le_mul_right g.bytesPerCluster.toNat wrote.grown.extends_.length_le
  have room' : size'.toNat ≤ l'.length * g.bytesPerCluster.toNat := by
    have written := wrote.room
    by_cases nothing : n = 0
    · omega
    · have fits := written nothing
      omega
  refine ⟨l', Or.inr wrote.grown.chain, room', ?_⟩
  simp only [splice, List.length_map, List.length_range, ← grows]
  refine List.map_congr_left fun k member => ?_
  have bound := List.mem_range.mp member
  rw [wrote.bytes k (by omega)]
  by_cases new : start ≤ k ∧ k < start + n
  · rw [if_pos new, if_pos new]
  · -- the other bytes were there before
    have old : k < size.toNat := by omega
    rw [if_neg new, if_neg new, Volume.byteAt, byteAt_prefix wrote.grown.extends_ (by omega),
      List.getD_eq_getElem _ _ (by simpa using old)]
    simp [Volume.byteAt]

/-- A byte count below `2^31` as the result of a call. -/
theorem toInt_count {n : Nat} (small : n < 2147483648) : (UInt32.ofNat n).toInt32.toInt = n := by
  have same : (UInt32.ofNat n).toInt32.toInt = (BitVec.ofNat 32 n).toInt := rfl
  have value : (BitVec.ofNat 32 n).toNat = n := by
    rw [BitVec.toNat_ofNat]
    omega
  rw [same, BitVec.toInt_eq_toNat_of_lt (by omega), value]

/-- Every outcome of `fat32_write` is one of the byte arrays. -/
theorem FileStore.Refines.step_write {data : Option Bytes} (refines : A.Refines g F)
    (consistent : A.Consistent g cwd)
    (small : (A.file h).isOpen = true → (A.file h).position.toNat + size.toNat < 2147483648)
    (next : A.Next g cwd (.write h data size) r B) :
    ∃ F', F.Next (A.space g) (B.space g) (.write h data size) ⟨r, none⟩ F' ∧ B.Refines g F' := by
  have geo := consistent.geometry
  have unique := next.uniqueNames consistent trivial refines.unique
  have careful : Disciplined A.file A.opened (.write h data size) := trivial
  have frame := fun x => next.frame (x := x) geo
  have carry : ∀ (other : ShortName) (τ : Slot) (first' size' : UInt32),
      A.volume.Names (A.slots g) other τ → A.View τ first' size' →
      ¬ ((A.file h).isOpen = true ∧ (A.file h).slot = τ) →
      ∃ bytes, F.contents other = some bytes ∧ B.volume.Reads g first' size' bytes :=
    fun _ _ _ _ names view ne => refines.carry consistent careful next names view ne
  cases next with
  | writeFails _ _ _ reason =>
    rcases data with _ | data
    · exact ⟨F, .writeNull h size, refines⟩
    · cases isOpen : (A.file h).isOpen with
      | false =>
        exact ⟨F, .writeClosed h data size ((refines.handle h).trans (if_neg (by simp [isOpen]))), refines⟩
      | true =>
        have full : A.volume.Full g := by simpa [isOpen] using reason
        have none : A.space g = 0 := full.card_freeClusters geo.fats
        exact ⟨F, .writeFails h data size _ ((refines.handle h).trans (if_pos isOpen)) none none, refines⟩
  | wrote _ data _ a n l l' v' file' isOpen source inRange few first advanced wrote early =>
    obtain ⟨bytes, stored, reads⟩ := refines.open_reads consistent isOpen
    obtain ⟨room, rfl⟩ := reads.along geo source
    have noWrap := small isOpen
    have used : ∀ c ∈ l, A.volume.fat c ≠ fat32FreeCluster := by
      rcases source with ⟨-, rfl⟩ | ⟨-, chain⟩
      · exact fun c member => absurd member List.not_mem_nil
      · exact FatChain.ne_free geo chain
    have inside := UInt32.le_iff_toNat_le.mp (refines.inside h isOpen)
    have moves : file'.position = (A.file h).position + UInt32.ofNat n := advanced.position
    have sizes : (A.file h).position.toNat + n < 4294967296 → file'.fileSize.toNat =
        if n = 0 then (A.file h).fileSize.toNat
        else max (A.file h).fileSize.toNat ((A.file h).position.toNat + n) := advanced.size
    have position : file'.position.toNat = (A.file h).position.toNat + n := by
      rw [moves, UInt32.toNat_add, UInt32.toNat_ofNat']
      omega
    have grows : file'.fileSize.toNat =
        max (A.file h).fileSize.toNat ((A.file h).position.toNat + n) := by
      rw [sizes (by omega)]
      split <;> omega
    have sameRest := advanced.rest
    have stays : file'.isOpen = true := by rw [sameRest]; exact isOpen
    have slot : file'.slot = (A.file h).slot := by rw [sameRest]; rfl
    have same : ∀ σ ∈ A.slots g, v'.dirent σ = A.volume.dirent σ :=
      Volume.dirent_congr fun c member => (frame c (consistent.directory_untouched member _ _)).2
    have namesIff (name : ShortName) (σ : Slot) :
        v'.Names (A.slots g) name σ ↔ A.volume.Names (A.slots g) name σ := by
      refine and_congr_right fun member => ?_
      rw [same σ member]
    have mine := consistent.names_open isOpen
    have agree (k : Nat) : (Function.update A.file h file' k).isOpen = (A.file k).isOpen ∧
        (Function.update A.file h file' k).slot = (A.file k).slot := by
      by_cases here : k = h
      · subst here
        rw [Function.update_self]
        exact ⟨stays.trans isOpen.symm, slot⟩
      · rw [Function.update_of_ne here]
        exact ⟨rfl, rfl⟩
    refine ⟨_, .wrote h data size ⟨A.opened h, (A.file h).position.toNat⟩ _ _ n
      ((refines.handle h).trans (if_pos isOpen)) stored few (toInt_count (by omega))
      (wrote.grown.freeClusters_le geo used) fun short => (early short).card_freeClusters geo.fats, ?_⟩
    refine ⟨unique, ?_, ?_, ?_, ?_, ?_⟩
    · intro i j openI openJ slots
      simp only [agree] at openI openJ slots
      exact refines.alone i j openI openJ slots
    · intro name σ first' size' names view
      have namesA := (namesIff name σ).mp names
      by_cases here : (A.file h).slot = σ
      · subst here
        have called : name = A.opened h := namesA.2.2.symm.trans mine.2.2
        subst called
        refine ⟨_, Function.update_self _ _ _, ?_⟩
        -- the handle `h` is the only one on this slot
        cases view with
        | handle k openK slotK =>
          simp only [agree] at openK slotK
          obtain rfl := refines.alone k h openK isOpen slotK
          simp only [Function.update_self, first]
          exact wrote.reads room inside grows
        | entry unused =>
          refine absurd ((agree h).2) (unused h ?_)
          exact (agree h).1.trans isOpen
      · have viewA : A.View σ first' size' :=
          view.of_update rfl (same σ names.1) (fun _ => here) fun _ => slot ▸ here
        obtain ⟨others, stored', reads'⟩ := carry name σ first' size' namesA viewA fun both =>
          here both.2
        refine ⟨others, ?_, reads'⟩
        rw [← stored']
        refine Function.update_of_ne (fun called => here ?_) _ _
        exact refines.unique _ mine.1 σ names.1 mine.2.1 namesA.2.1
          (mine.2.2.trans (called.symm.trans namesA.2.2.symm))
    · intro name nobody
      have ne : name ≠ A.opened h := by
        rintro rfl
        exact nobody _ ((namesIff _ _).mpr mine)
      simp only [Function.update_of_ne ne]
      exact refines.absent name fun σ namesA => nobody σ ((namesIff name σ).mpr namesA)
    · intro k
      by_cases here : k = h
      · subst here
        simp [stays, position]
      · simp only [Function.update_of_ne here]
        exact refines.handle k
    · intro k openK
      by_cases here : k = h
      · subst here
        simp only [Function.update_self, UInt32.le_iff_toNat_le, position, grows]
        omega
      · simp only [Function.update_of_ne here] at openK ⊢
        exact refines.inside k openK

/-! ## Closing and unlinking -/

/-- Closing a handle moves its view of the file into the entry. -/
theorem FileStore.Refines.step_close (refines : A.Refines g F) (consistent : A.Consistent g cwd)
    (next : A.Next g cwd (.close h) r B) :
    ∃ F', F.Next (A.space g) (B.space g) (.close h) ⟨r, none⟩ F' ∧ B.Refines g F' := by
  have geo := consistent.geometry
  have unique := next.uniqueNames consistent trivial refines.unique
  have careful : Disciplined A.file A.opened (.close h) := trivial
  have carry : ∀ (other : ShortName) (τ : Slot) (first' size' : UInt32),
      A.volume.Names (A.slots g) other τ → A.View τ first' size' →
      ∃ bytes, F.contents other = some bytes ∧ B.volume.Reads g first' size' bytes :=
    fun _ _ _ _ names view => refines.carry consistent careful next names view not_false
  cases next with
  | closeFails _ closed =>
    exact ⟨F, .closeFails h ((refines.handle h).trans (if_neg (by simp [closed]))), refines⟩
  | closed _ isOpen member =>
    have edited := closeAt_edited (v := A.volume) geo member (A.file h)
    have namesIff (name : ShortName) (σ : Slot) :
        (A.volume.closeAt (A.file h).slot (A.file h)).Names (A.slots g) name σ ↔
          A.volume.Names (A.slots g) name σ := edited.names_iff rfl Iff.rfl
    have other (k : Nat) (openK : (Function.update A.file h
        { A.file h with isOpen := false } k).isOpen = true) : k ≠ h := by
      rintro rfl
      simp at openK
    refine ⟨_, .closed h _ ((refines.handle h).trans (if_pos isOpen)) rfl, unique, ?_, ?_, ?_, ?_, ?_⟩
    · intro i j openI openJ slots
      have neI := other i openI
      have neJ := other j openJ
      simp only [Function.update_of_ne neI, Function.update_of_ne neJ] at openI openJ slots
      exact refines.alone i j openI openJ slots
    · intro name σ first size names view
      have namesA := (namesIff name σ).mp names
      refine carry name σ first size namesA ?_
      by_cases here : (A.file h).slot = σ
      · subst here
        cases view with
        | handle k openK slotK =>
          have ne := other k openK
          simp only [Function.update_of_ne ne] at openK slotK
          exact absurd (refines.alone k h openK isOpen slotK) ne
        | entry _ =>
          -- the entry now says what the handle said
          simp only [FileStore.dirent, edited.holds, closedEntry_firstCluster]
          exact .handle h isOpen rfl
      · exact view.of_update rfl (edited.kept _ σ names.1 (Ne.symm here)) (fun _ => here) (by simp)
    · exact fun name nobody => refines.absent name fun σ namesA => nobody σ ((namesIff name σ).mpr namesA)
    · intro k
      by_cases here : k = h
      · subst here
        simp
      · simp only [Function.update_of_ne here]
        exact refines.handle k
    · intro k openK
      have ne := other k openK
      simp only [Function.update_of_ne ne] at openK ⊢
      exact refines.inside k openK

/-- A file disappears whose slot no handle is on. -/
theorem FileStore.Refines.erase (refines : A.Refines g F) (file : B.file = A.file)
    (opened : B.opened = A.opened) (names : A.volume.Names (A.slots g) name σ)
    (left : ∀ other τ, B.volume.Names (B.slots g) other τ ↔ A.volume.Names (A.slots g) other τ ∧ τ ≠ σ)
    (kept : ∀ other τ, A.volume.Names (A.slots g) other τ → τ ≠ σ → B.dirent τ = A.dirent τ)
    (carried : ∀ other τ first size, A.volume.Names (A.slots g) other τ → A.View τ first size →
      τ ≠ σ → ∃ bytes, F.contents other = some bytes ∧ B.volume.Reads g first size bytes) :
    B.Refines g { F with contents := Function.update F.contents name none } := by
  -- names are unique, so the other slots have other names
  have gone {other : ShortName} {τ : Slot} (namesA : A.volume.Names (A.slots g) other τ)
      (ne : τ ≠ σ) : other ≠ name := by
    rintro rfl
    exact ne (refines.unique τ namesA.1 σ names.1 namesA.2.1 names.2.1
      (namesA.2.2.trans names.2.2.symm))
  refine ⟨?_, ?_, ?_, ?_, ?_, ?_⟩
  · exact refines.unique.of_names fun other τ namesB => ((left other τ).mp namesB).1
  · rw [file]
    exact refines.alone
  · intro other τ first size namesB view
    obtain ⟨namesA, ne⟩ := (left other τ).mp namesB
    have viewA : A.View τ first size := by
      have entry := kept other τ namesA ne
      cases view with
      | handle k openK slotK =>
        rw [file] at openK slotK ⊢
        exact .handle k openK slotK
      | entry unused =>
        rw [entry]
        rw [file] at unused
        exact .entry unused
    simp only [Function.update_of_ne (gone namesA ne)]
    exact carried other τ first size namesA viewA ne
  · intro other nobody
    by_cases here : other = name
    · subst here
      exact Function.update_self _ _ _
    · simp only [Function.update_of_ne here]
      refine refines.absent other fun τ namesA => nobody τ ((left other τ).mpr ⟨namesA, ?_⟩)
      rintro rfl
      exact here (namesA.2.2.symm.trans names.2.2)
  · rw [file, opened]
    exact refines.handle
  · rw [file]
    exact refines.inside

theorem FileStore.Refines.step_unlink (refines : A.Refines g F) (consistent : A.Consistent g cwd)
    (careful : Disciplined A.file A.opened (.unlink path)) (next : A.Next g cwd (.unlink path) r B) :
    ∃ F', F.Next (A.space g) (B.space g) (.unlink path) ⟨r, none⟩ F' ∧ B.Refines g F' := by
  have geo := consistent.geometry
  have carry : ∀ (other : ShortName) (τ : Slot) (first' size' : UInt32),
      A.volume.Names (A.slots g) other τ → A.View τ first' size' → A.lookup g path ≠ some τ →
      ∃ bytes, F.contents other = some bytes ∧ B.volume.Reads g first' size' bytes :=
    fun _ _ _ _ names view ne => refines.carry consistent careful next names view ne
  have foreign {σ τ : Slot} (found : A.lookup g path = some σ) (ne : τ ≠ σ) :
      A.lookup g path ≠ some τ := by
    rw [found]
    exact fun same => ne (Option.some.inj same).symm
  have present {σ : Slot} (found : A.lookup g path = some σ) :
      ∃ bytes, F.contents (fat32ToShortName path) = some bytes := by
    obtain ⟨bytes, stored, -⟩ := refines.present _ σ _ _ (FileStore.lookup_names found)
      (.entry fun k openK slotK => careful k (consistent.openUnder found openK slotK))
    exact ⟨bytes, stored⟩
  cases next with
  | unlinkFails _ absent =>
    exact ⟨F, .unlinkFails path (refines.absent _ (Volume.lookup_none consistent.ends absent)), refines⟩
  | unlinkedEmpty _ σ found empty =>
    have names := FileStore.lookup_names found
    have edited := eraseAt_edited (v := A.volume) geo names.1
    obtain ⟨bytes, stored⟩ := present found
    exact ⟨_, .unlinked path bytes stored, refines.erase rfl rfl names
      (fun _ _ => edited.names_erased (unlinkedEntry_deleted _).not_live)
      (fun _ τ namesA ne => edited.kept _ τ namesA.1 ne)
      fun other τ _ _ namesA view ne => carry other τ _ _ namesA view (foreign found ne)⟩
  | unlinked _ σ m found chain =>
    have names := FileStore.lookup_names found
    have edited := eraseAt_edited (v := A.volume.freeAll m) geo names.1
    obtain ⟨bytes, stored⟩ := present found
    exact ⟨_, .unlinked path bytes stored, refines.erase rfl rfl names
      (fun _ _ => edited.names_erased (unlinkedEntry_deleted _).not_live)
      (fun _ τ namesA ne => edited.kept _ τ namesA.1 ne)
      fun other τ _ _ namesA view ne => carry other τ _ _ namesA view (foreign found ne)⟩

end QuantumKernel.Fat32
