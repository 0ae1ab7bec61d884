import QuantumKernel.Fat32.Sessions

/-! # What a call leaves alone

`FileStore.Touches` names the clusters that a call may change: free ones, those of the
directory, and those of the file the call is about.  `FileStore.Next.frame` says that
all other clusters keep their FAT entry and their contents, and the lemmas after it
draw the consequences for the chains of other files and for the directory.
-/

namespace QuantumKernel.Fat32

open ByteStore LinkedTable BlockStore

/-- `x` lies on the chain that starts at `c`. -/
def Volume.OnChain (g : Fat32Fs) (v : Volume) (c x : UInt32) : Prop :=
  ∃ m, FatChain g v c m ∧ x ∈ m

/-- The clusters that a call may change. -/
def FileStore.Touches (g : Fat32Fs) (A : FileStore) (x : UInt32) : FsCall → Prop
  | .open _ none _ => False
  | .open _ (some path) _ => x ∈ A.directory ∨ A.volume.fat x = fat32FreeCluster ∨
      ∃ σ, A.lookup g path = some σ ∧ A.volume.OnChain g (A.dirent σ).firstCluster x
  | .read _ _ _ => False
  | .write h _ _ => A.volume.fat x = fat32FreeCluster ∨
      (A.file h).isOpen = true ∧ A.volume.OnChain g (A.file h).firstCluster x
  | .seek _ _ _ => False
  | .close _ => x ∈ A.directory
  | .unlink path => x ∈ A.directory ∨
      ∃ σ, A.lookup g path = some σ ∧ A.volume.OnChain g (A.dirent σ).firstCluster x
  | .mkdir _ => x ∈ A.directory ∨ A.volume.fat x = fat32FreeCluster

/-- A cluster has the same FAT entry and the same contents. -/
def Volume.SameAt (v v' : Volume) (x : UInt32) : Prop := v'.fat x = v.fat x ∧ v'.data x = v.data x

variable {g : Fat32Fs} {cwd : UInt32} {v v' w : Volume} {A B : FileStore} {call : FsCall} {r : Int32}
  {a c n x : UInt32} {l l' m : List UInt32} {σ τ : Slot} {entry : Fat32Dirent} {h : Nat}

theorem Volume.SameAt.refl (v : Volume) (x : UInt32) : v.SameAt v x := ⟨rfl, rfl⟩

theorem Volume.SameAt.trans (first : v.SameAt v' x) (second : v'.SameAt w x) : v.SameAt w x :=
  ⟨second.1.trans first.1, second.2.trans first.2⟩

/-! ## Elementary changes -/

theorem Volume.sameAt_freeAll (out : x ∉ m) : v.SameAt (v.freeAll m) x := ⟨if_neg out, rfl⟩

theorem Volume.sameAt_setFat (value : UInt32) (ne : x ≠ n) : v.SameAt (v.setFat n value) x :=
  ⟨Function.update_of_ne ne _ _, rfl⟩

theorem Volume.sameAt_setData (bytes : Bytes) (ne : x ≠ n) : v.SameAt (v.setData n bytes) x :=
  ⟨rfl, Function.update_of_ne ne _ _⟩

theorem EditedSlot.sameAt (edited : EditedSlot g v v' σ entry) (member : σ ∈ g.dirSlots l)
    (out : x ∉ l) : v.SameAt v' x :=
  ⟨congrFun edited.fat x,
    edited.data_of_ne fun same => out (same ▸ (mem_dirSlots.mp member).1)⟩

theorem Grown.sameAt (grown : Grown g v v' a l l') (out : x ∉ l)
    (used : v.fat x ≠ fat32FreeCluster) : v.SameAt v' x := by
  have outside : x ∉ l' := fun member => used (grown.fresh x member out)
  exact ⟨grown.fat x outside, grown.data x outside⟩

/-- An insertion, together with the allocation in front of it. -/
theorem Inserted.sameAt (inserted : Inserted g (v.setFat n fat32EocMax) v' a l l' σ entry)
    (free : v.fat n = fat32FreeCluster) (out : x ∉ l) (used : v.fat x ≠ fat32FreeCluster) :
    x ≠ n ∧ v.SameAt v' x := by
  have ne : x ≠ n := fun same => used (same ▸ free)
  have allocated := Volume.sameAt_setFat (v := v) fat32EocMax ne
  exact ⟨ne, allocated.trans (inserted.grown.sameAt out (by rwa [allocated.1]))⟩

/-! ## The frame of a call -/

/-- **A call changes only what it touches.** -/
theorem FileStore.Next.frame (geo : Geometry g) (next : A.Next g cwd call r B)
    (untouched : ¬ A.Touches g x call) : A.volume.SameAt B.volume x := by
  cases next with
  | openNull | openFails | openFound | read | writeFails | seek | closeFails | unlinkFails
    | mkdirFails => exact Volume.SameAt.refl _ x
  | openTruncates h path flags σ m found trunc chain =>
    obtain ⟨-, -, notFile⟩ := not_or.mp untouched |>.imp_right not_or.mp
    exact Volume.sameAt_freeAll fun member => notFile ⟨σ, found, m, chain, member⟩
  | openCreates h path flags n v' l' σ absent creat inRange free inserted notDead =>
    obtain ⟨out, used, -⟩ := not_or.mp untouched |>.imp_right not_or.mp
    exact (inserted.sameAt free out used).2
  | openLosesEntry h path flags n v' l' σ absent inRange free inserted dead =>
    obtain ⟨out, used, -⟩ := not_or.mp untouched |>.imp_right not_or.mp
    obtain ⟨ne, same⟩ := inserted.sameAt free out used
    exact same.trans (Volume.sameAt_freeAll (by simpa using ne))
  | wrote h data size a n l l' v' file' isOpen source inRange few first advanced wrote =>
    obtain ⟨used, notFile⟩ := not_or.mp untouched
    refine wrote.grown.sameAt (fun member => ?_) used
    rcases source with ⟨-, rfl⟩ | ⟨same, chain⟩
    · exact List.not_mem_nil member
    · exact notFile ⟨isOpen, l, same ▸ chain, member⟩
  | closed h isOpen member =>
    exact (closeAt_edited geo member (A.file h)).sameAt member untouched
  | unlinkedEmpty path σ found empty =>
    obtain ⟨member, -⟩ := FileStore.lookup_names found
    exact (eraseAt_edited geo member).sameAt member (not_or.mp untouched).1
  | unlinked path σ m found chain =>
    obtain ⟨out, notFile⟩ := not_or.mp untouched
    obtain ⟨member, -⟩ := FileStore.lookup_names found
    have freed : A.volume.SameAt (A.volume.freeAll m) x :=
      Volume.sameAt_freeAll fun inM => notFile ⟨σ, found, m, chain, inM⟩
    exact freed.trans ((eraseAt_edited geo member).sameAt member out)
  | mkdirMakes path n v' l' σ inRange free inserted =>
    obtain ⟨out, used⟩ := not_or.mp untouched
    obtain ⟨ne, same⟩ := inserted.sameAt free out used
    exact same.trans (Volume.sameAt_setData _ ne)

/-- A chain of untouched clusters is still there, with the same bytes. -/
theorem FatChain.of_sameAt (chain : FatChain g v a l) (same : ∀ x ∈ l, v.SameAt v' x) :
    FatChain g v' a l ∧ ∀ k, v'.byteAt g l k = v.byteAt g l k := by
  refine ⟨chain.congr fun x member => (same x member).1, fun k => ?_⟩
  exact byteAt_congr fun x found => (same x (List.mem_of_getElem? found)).2

/-- The slot of the file that a call is about. -/
def FileStore.Subject (g : Fat32Fs) (A : FileStore) (σ : Slot) : FsCall → Prop
  | .open _ (some path) _ => A.lookup g path = some σ
  | .write h _ _ => (A.file h).isOpen = true ∧ (A.file h).slot = σ
  | .unlink path => A.lookup g path = some σ
  | _ => False

/-- The chain of a file is touched only by calls on that file. -/
theorem FileStore.Consistent.chain_untouched (consistent : A.Consistent g cwd)
    (careful : Disciplined A.file A.opened call) (owned : A.Owned cwd c σ)
    (chain : FatChain g A.volume c m) (member : x ∈ m) (other : ¬ A.Subject g σ call) :
    ¬ A.Touches g x call := by
  have nonzero := (chain.cell_of_mem _ chain.head_mem).ne_zero
  obtain ⟨inHeads, notCwd, owner⟩ := owned.resolve_left nonzero
  have used := FatChain.ne_free consistent.geometry chain x member
  have out : x ∉ A.directory := fun inDir => consistent.apart inHeads notCwd chain inDir member
  -- the chains of different slots are disjoint
  have foreign {d : UInt32} {τ : Slot} (ownedD : A.Owned cwd d τ) (ne : τ ≠ σ) :
      ¬ A.volume.OnChain g d x := by
    rintro ⟨m', chain', member'⟩
    have nonzero' := (chain'.cell_of_mem _ chain'.head_mem).ne_zero
    obtain ⟨inHeads', -, owner'⟩ := ownedD.resolve_left nonzero'
    refine consistent.separate.2 c inHeads d inHeads' (fun same => ?_) m m' chain chain' member
      member'
    rw [← same, owner] at owner'
    exact ne (Option.some.inj owner').symm
  cases call with
  | «open» h path flags =>
    cases path with
    | none => exact not_false
    | some path =>
      rintro (inDir | free | ⟨τ, found, onChain⟩)
      · exact out inDir
      · exact used free
      · refine foreign (consistent.owned_of_lookup found fun k under => (careful.2 k under).2) ?_
          onChain
        rintro rfl
        exact other found
  | read h buffer size => exact not_false
  | write h data size =>
    rintro (free | ⟨isOpen, onChain⟩)
    · exact used free
    · exact foreign (consistent.handles h isOpen).owned (fun same => other ⟨isOpen, same⟩) onChain
  | seek h offset whence => exact not_false
  | close h => exact out
  | unlink path =>
    rintro (inDir | ⟨τ, found, onChain⟩)
    · exact out inDir
    · refine foreign (consistent.owned_of_lookup found fun k under => absurd under (careful k)) ?_
        onChain
      rintro rfl
      exact other found
  | mkdir path =>
    rintro (inDir | free)
    · exact out inDir
    · exact used free

/-- Writing to a file does not touch the directory. -/
theorem FileStore.Consistent.directory_untouched (consistent : A.Consistent g cwd)
    (inDir : x ∈ A.directory) (data : Option Bytes) (size : UInt32) :
    ¬ A.Touches g x (.write h data size) := by
  rintro (free | ⟨isOpen, m, chain, member⟩)
  · exact FatChain.ne_free consistent.geometry consistent.chain x inDir free
  · have nonzero := (chain.cell_of_mem _ chain.head_mem).ne_zero
    obtain ⟨inHeads, notCwd, -⟩ := (consistent.handles h isOpen).owned.resolve_left nonzero
    exact consistent.apart inHeads notCwd chain inDir member

end QuantumKernel.Fat32
