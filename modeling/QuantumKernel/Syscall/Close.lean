import QuantumKernel.Syscall.Files

/-! # What closing a descriptor changes

A handle remembers the slot of its file and `fat32_close` writes there, whatever the
slot holds by then.  As long as no file is unlinked while it is open the slot still
holds the entry that was opened; otherwise `fat32_create_entry` may have put another
file into it.
-/

namespace QuantumKernel.Syscall

open Fat32 ByteStore LinkedTable Transition

variable {k k' : Kernel} {l : List UInt32} {fuel : Nat} {fd : Int32}

/-- The volume on the drive. -/
def Kernel.volume (k : Kernel) : Volume := k.session.machine.fs.volume

/-- The slots of the current directory, when its clusters are `l`. -/
def Kernel.slots (k : Kernel) (l : List UInt32) : List Slot := k.session.machine.fs.gFs.dirSlots l

/-- The clusters of the current directory. -/
def Kernel.Directory (k : Kernel) (l : List UInt32) : Prop :=
  FatChain k.session.machine.fs.gFs k.volume k.session.machine.fs.gCurrentDirCluster l

/-- A descriptor in use is closed by closing its handle. -/
theorem Kernel.step_close {r : Reply} {session : Session} (good : k.badFd fd = false)
    (done : k.session.step fuel (.close fd.toNatClampNeg) = some (r, session)) :
    k.step fuel (.close fd) = some (r, ⟨session, freeFd k.fileUsed fd.toNatClampNeg⟩) := by
  simp [Kernel.step, good, done]

/-- **Closing a descriptor changes only the slot of its file.**  In every state that a
careful program reaches, a descriptor in use has its slot in the current directory, the
slot holds the live entry of the name that was opened, and closing changes no byte
outside the slot and no FAT entry. -/
theorem close_changes_own_slot (enough : 4294967296 ≤ fuel) (fresh : FreshKernel k l)
    {calls : List (FileCall × Reply)} (run : Run (Kernel.step fuel) CarefulCall k calls k')
    (good : k'.badFd fd = false) :
    ∃ l' k'', k'.Directory l' ∧ k'.step fuel (.close fd) = some (⟨0, none⟩, k'') ∧
      let σ := (k'.session.machine.file fd.toNatClampNeg).slot
      σ ∈ k'.slots l' ∧ (k'.volume.dirent σ).IsLive ∧
      (k'.volume.dirent σ).name = k'.session.opened fd.toNatClampNeg ∧
      k''.volume.fat = k'.volume.fat ∧
      (∀ c i, c ≠ σ.1 ∨ i < σ.2.toNat ∨ σ.2.toNat + 32 ≤ i →
        k''.volume.data c i = k'.volume.data c i) ∧
      ∀ τ ∈ k'.slots l', τ ≠ σ → k''.volume.dirent τ = k'.volume.dirent τ := by
  -- after a careful run the slot of an open handle still holds its entry
  obtain ⟨A, order⟩ := fresh.inOrder.run enough run
  obtain ⟨shows_, consistent⟩ := order.inOrder
  have stores := shows_.stores
  have isOpen := (order.table fd.toNatClampNeg).mpr (Kernel.fd_of_good good)
  rw [shows_.file] at isOpen
  have careful : Careful k'.session (.close fd.toNatClampNeg) := trivial
  obtain ⟨r, session, done⟩ := order.inOrder.returns enough careful
  obtain ⟨B, next, showsB, -⟩ := order.inOrder.step enough careful done
  obtain ⟨status, buffer⟩ := r
  obtain rfl : buffer = none := Session.step_buffer done (by simp)
  cases next with
  | closeFails _ closed =>
    rw [closed] at isOpen
    cases isOpen
  | closed _ _ member =>
    obtain ⟨-, live, name, -, -⟩ := consistent.handles _ isOpen
    have edited := closeAt_edited (v := A.volume) consistent.geometry member
      (A.file fd.toNatClampNeg)
    have volume : k'.volume = A.volume := stores.volume_eq
    have volume' : session.machine.fs.volume = _ := showsB.stores.volume_eq
    refine ⟨A.directory, ⟨session, freeFd k'.fileUsed fd.toNatClampNeg⟩, ?_, ?_, ?_⟩
    · rw [Kernel.Directory, volume, stores.current, stores.gFs]
      exact consistent.chain
    · exact Kernel.step_close good done
    · rw [Kernel.slots, stores.gFs, volume, shows_.file, shows_.opened]
      exact ⟨member, live, name, congrArg Volume.fat volume' |>.trans edited.fat,
        fun c i outside => by
          rw [Kernel.volume, volume']
          exact edited.bytes c i outside,
        fun τ inDir ne => by
          rw [Kernel.volume, volume']
          exact edited.kept _ τ inDir ne⟩

/-- `A` is created and its descriptor is closed. -/
theorem close_changes_own_slot_blank :
    ∃ calls k', Run (Kernel.step 4294967296) CarefulCall blankKernel calls k' ∧
      k'.badFd 0 = false ∧ ∃ l' k'', k'.Directory l' ∧
        k'.step 4294967296 (.close 0) = some (⟨0, none⟩, k'') ∧ k''.volume.fat = k'.volume.fat := by
  have careful : CarefulCall blankKernel (.open (letterPath 0x41 (by decide)) 4) :=
    fun h under => absurd under.1 (by simp [blankKernel, blankSession, Fat32File.zero])
  obtain ⟨reply, k', done, good⟩ : ∃ reply k', blankKernel.step 4294967296
      (.open (letterPath 0x41 (by decide)) 4) = some (reply, k') ∧ k'.badFd 0 = false := by
    refine ⟨_, _, (Option.some_get ?_).symm, ?_⟩ <;> decide +kernel
  have run : Run (Kernel.step 4294967296) CarefulCall blankKernel _ k' :=
    .call careful done (.refl k')
  obtain ⟨l', k'', chain, closed, -, -, -, fat, -⟩ :=
    close_changes_own_slot (by decide) blankKernel_fresh run good
  exact ⟨_, k', run, good, l', k'', chain, closed, fat⟩

/-- Closing the descriptor changes the size or the first cluster in a live entry with
another name than the one that was opened. -/
def Kernel.ClosesForeign (k : Kernel) (l : List UInt32) (fd : Int32) : Prop :=
  k.badFd fd = false ∧ k.Directory l ∧ ∃ σ ∈ k.slots l, (k.volume.dirent σ).IsLive ∧
    (k.volume.dirent σ).name ≠ k.session.opened fd.toNatClampNeg ∧
    ∃ k', k.step 4294967296 (.close fd) = some (⟨0, none⟩, k') ∧
      k'.volume.dirent σ ≠ k.volume.dirent σ

/-- The same at a given slot, by evaluation. -/
def Kernel.closesForeignAt (k : Kernel) (σ : Slot) (fd : Int32) : Bool :=
  !k.badFd fd && (k.volume.dirent σ).IsLive &&
    (k.volume.dirent σ).name 0 ≠ k.session.opened fd.toNatClampNeg 0 &&
    (k.step 4294967296 (.close fd)).any fun result =>
      result.1.status = 0 && result.1.buffer.isNone &&
        ((result.2.volume.dirent σ).fileSize ≠ (k.volume.dirent σ).fileSize ||
          (result.2.volume.dirent σ).firstCluster ≠ (k.volume.dirent σ).firstCluster)

theorem Kernel.ClosesForeign.of_at {σ : Slot} (chain : k.Directory l) (member : σ ∈ k.slots l)
    (at_ : k.closesForeignAt σ fd = true) : k.ClosesForeign l fd := by
  simp only [closesForeignAt, Bool.and_eq_true, Bool.not_eq_true', decide_eq_true_eq] at at_
  obtain ⟨⟨⟨good, live⟩, differ⟩, closed⟩ := at_
  refine ⟨good, chain, σ, member, live, fun same => differ (congrFun same 0), ?_⟩
  cases outcome : k.step 4294967296 (.close fd) with
  | none =>
    rw [outcome] at closed
    cases closed
  | some result =>
    obtain ⟨⟨status, buffer⟩, k'⟩ := result
    rw [outcome] at closed
    simp only [Option.any_some, Bool.and_eq_true, decide_eq_true_eq, Bool.or_eq_true] at closed
    obtain ⟨⟨zero, empty⟩, changed⟩ := closed
    obtain rfl := zero
    obtain rfl := Option.isNone_iff_eq_none.mp empty
    refine ⟨k', rfl, fun same => ?_⟩
    rw [same] at changed
    exact changed.elim (fun ne => ne rfl) fun ne => ne rfl

def FileCall.isUnlink : FileCall → Bool
  | .unlink _ => true
  | _ => false

/-- A kernel on a volume whose root directory has one slot left. -/
def crowdedKernel : Kernel :=
  ⟨⟨⟨mountedOn smallFs (rootDrive ((List.range 15).map fun i => UInt8.ofNat (0x46 + i))),
    fun _ => Fat32File.zero⟩, fun _ _ => 0⟩, fun _ => false⟩

theorem crowdedKernel_fresh : FreshKernel crowdedKernel [2] := by
  refine ⟨⟨⟨smallFs_geometry, fun _ => rfl⟩, ?_, fun _ => rfl⟩, fun _ => rfl⟩
  exact WellFormed.of_unused smallFs_geometry (.last (by decide) (by decide +kernel))
    (by decide +kernel) (by decide +kernel)

/-- Two ways in which a descriptor loses its slot to another file.  `A` is unlinked while
it is open and `B` gets its slot.  Or `A` is opened once more with `FAT32_O_TRUNC`, its
cluster becomes part of the directory, `B` gets a slot there, and a write to the first
descriptor of `A` puts another entry into this slot. -/
theorem close_overwrites_other_entry :
    (∃ calls k', Run (Kernel.step 4294967296) (fun _ _ => True) blankKernel calls k' ∧
      FreshKernel blankKernel [2] ∧ k'.ClosesForeign [2] 0) ∧
    ∃ calls k', Run (Kernel.step 4294967296) (fun _ _ => True) crowdedKernel calls k' ∧
      FreshKernel crowdedKernel [2] ∧ (∀ call ∈ calls, call.1.isUnlink = false) ∧
      k'.ClosesForeign [2, 3] 2 := by
  constructor
  · obtain ⟨calls, k', run, current, inRange, ends, member, closes⟩ := Run.exists_of_replay
      (Kernel.step 4294967296) (fun _ _ => True) blankKernel
      [.open (letterPath 0x41 (by decide)) 4, .fileWrite 0 (some fun _ => 0) 5,
        .unlink (letterPath 0x41 (by decide)), .open (letterPath 0x42 (by decide)) 4]
      (fun _ k' => k'.session.machine.fs.gCurrentDirCluster = 2 ∧
        k'.session.machine.fs.gFs.InRange 2 ∧ fat32EocMin ≤ k'.volume.fat 2 ∧
        (2, 0) ∈ k'.slots [2] ∧ k'.closesForeignAt (2, 0) 0 = true) (by decide +kernel)
    refine ⟨calls, k', run, blankKernel_fresh, .of_at ?_ member closes⟩
    rw [Kernel.Directory, current]
    exact .last inRange ends
  · obtain ⟨calls, k', run, noUnlink, current, inRange, link, more, ends, member, closes⟩ :=
      Run.exists_of_replay
      (Kernel.step 4294967296) (fun _ _ => True) crowdedKernel
      [.open (letterPath 0x41 (by decide)) 4, .open (letterPath 0x41 (by decide)) 8,
        .fileWrite 1 (some fun _ => 0) 2560, .open (letterPath 0x42 (by decide)) 4,
        .fileWrite 0 (some (letterEntry 0x43 0)) 32]
      (fun calls k' => (∀ call ∈ calls, call.1.isUnlink = false) ∧
        k'.session.machine.fs.gCurrentDirCluster = 2 ∧
        k'.session.machine.fs.gFs.InRange 2 ∧ k'.volume.fat 2 = 3 ∧
        k'.session.machine.fs.gFs.InRange 3 ∧ fat32EocMin ≤ k'.volume.fat 3 ∧
        (3, 0) ∈ k'.slots [2, 3] ∧ k'.closesForeignAt (3, 0) 2 = true) (by decide +kernel)
    refine ⟨calls, k', run, crowdedKernel_fresh, noUnlink, .of_at ?_ member closes⟩
    rw [Kernel.Directory, current]
    refine .link inRange ?_
    rw [link]
    exact .last more ends

end QuantumKernel.Syscall
