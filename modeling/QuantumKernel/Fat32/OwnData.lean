import QuantumKernel.Fat32.ByteRuns
import QuantumKernel.Fat32.Ledger
import QuantumKernel.Fat32.SharedFile

/-! # What a read can reveal

A cluster keeps the bytes of its last file until they are overwritten.  `fat32_mkdir` and
`fat32_create_entry` clear the clusters that they take, `fat32_write` does not, so that a write behind
the end of a file leaves a gap of old bytes inside of it.  Without such gaps, every byte that
`fat32_read` delivers was written to the same file.
-/

namespace QuantumKernel.Fat32

open ByteStore LinkedTable Transition BlockStore

/-- A write starts at or before the end of the file, and the range of a read does not wrap. -/
def Gapless (t : Session) : FsCall → Prop
  | .write h _ size => (t.machine.file h).isOpen = true →
      (t.machine.file h).position ≤ (t.machine.file h).fileSize ∨ size = 0
  | .read h _ size => (t.machine.file h).isOpen = true →
      (t.machine.file h).fileSize ≤ (t.machine.file h).position ∨
        (t.machine.file h).position.toNat + size.toNat < 4294967296
  | _ => True

instance (t : Session) : (call : FsCall) → Decidable (Gapless t call)
  | .write _ _ _ | .read _ _ _ => inferInstanceAs (Decidable (_ → _))
  | .open _ _ _ | .seek _ _ _ | .close _ | .unlink _ | .mkdir _ => isTrue trivial

/-- The bytes that a read on the handle `h` delivered, for a file that was created in the run: each of
them was stored at its position by a write to this file, or is zero. -/
def OwnBytes (L : Ledger) (h : Nat) (file file' : Fat32File) (buffer : Bytes) (reply : Reply) : Prop :=
  ∀ i, L.fileOf h = some i → ∃ buffer', reply.buffer = some buffer' ∧ ∀ k,
    if k < (file'.position - file.position).toNat then
      L.Stored i (file.position.toNat + k) (buffer' k) ∨ buffer' k = 0
    else buffer' k = buffer k

/-- Every byte of the file of that first cluster and size was stored by a write to the file `i`. -/
def Volume.Covers (g : Fat32Fs) (v : Volume) (L : Ledger) (i : Nat) (first size : UInt32) : Prop :=
  ∃ bytes, v.Reads g first size bytes ∧ ∀ p b, bytes[p]? = some b → L.Stored i p b

/-- A first cluster and a size under which the file in a slot can be read: those in an open handle, and
those in the entry unless a handle is about to replace them. -/
inductive FileStore.Sees (A : FileStore) (σ : Slot) : UInt32 → UInt32 → Prop
  | handle (h : Nat) : (A.file h).isOpen = true → (A.file h).slot = σ →
      Sees A σ (A.file h).firstCluster (A.file h).fileSize
  | entry : (∀ h, ¬ A.Truncating σ h) → Sees A σ (A.dirent σ).firstCluster (A.dirent σ).fileSize

/-- The slot `σ` has the file `i`, and nothing but bytes of this file is to be seen in it. -/
structure FileStore.KeepsAt (g : Fat32Fs) (A : FileStore) (L : Ledger) (i : Nat) (σ : Slot) : Prop where
  member : σ ∈ A.slots g
  live : (A.dirent σ).IsLive
  covers : ∀ first size, A.Sees σ first size → A.volume.Covers g L i first size

/-- The ledger is right about the open handles, and every file has bytes of its own only. -/
structure FileStore.Keeps (g : Fat32Fs) (A : FileStore) (L : Ledger) : Prop where
  handle : ∀ h, (A.file h).isOpen = true → L.fileOf h = L.fileAt (A.file h).slot
  slot : ∀ σ i, L.fileAt σ = some i → A.KeepsAt g L i σ

variable {g : Fat32Fs} {cwd : UInt32} {v v' : Volume} {A B : FileStore} {L L' : Ledger} {t t' : Session}
  {x y : Tracked} {call : FsCall} {r : Int32} {a c first size size' current position : UInt32}
  {l l' m : List UInt32} {σ τ : Slot} {h i k n start fuel : Nat} {f : Fat32File} {data buffer : Bytes}
  {path : CString} {flags : UInt8} {j : Option Nat} {reply : Reply}

/-! ## Bytes of a file -/

theorem Volume.Covers.mono (covers : v.Covers g L i first size) (writes : L.writes ⊆ L'.writes) :
    v.Covers g L' i first size := by
  obtain ⟨bytes, reads, stored⟩ := covers
  exact ⟨bytes, reads, fun p b found => (stored p b found).mono writes⟩

theorem Volume.Covers.congr (covers : v.Covers g L i first size)
    (same : ∀ m, FatChain g v first m → ∀ x ∈ m, v.SameAt v' x) : v'.Covers g L i first size := by
  obtain ⟨bytes, reads, stored⟩ := covers
  exact ⟨bytes, reads.congr same, stored⟩

theorem FileStore.Consistent.covers_empty (consistent : A.Consistent g cwd) (owned : A.Owned cwd c σ) (L : Ledger)
    (i : Nat) : A.volume.Covers g L i c 0 := by
  refine ⟨[], consistent.reads_empty owned, fun p b found => ?_⟩
  cases found

/-- A byte that can be seen in a file was written to it. -/
theorem Volume.Covers.stored (geo : Geometry g) (covers : v.Covers g L i first size)
    (source : first = 0 ∧ l = [] ∨ first = a ∧ FatChain g v a l) {p : Nat} (inside : p < size.toNat) :
    L.Stored i p (v.byteAt g l p) := by
  obtain ⟨bytes, reads, stored⟩ := covers
  obtain ⟨-, rfl⟩ := reads.along geo source
  exact stored p _ (by simp [inside])

/-- A write to a file of own bytes, when every byte by which the file grew was written. -/
theorem Volume.Covers.wrote (geo : Geometry g) (covers : v.Covers g L i first size)
    (source : first = 0 ∧ l = [] ∨ first = a ∧ FatChain g v a l)
    (wrote : WroteRange g v v' a l l' start data n)
    (new : ∀ p, size.toNat ≤ p → p < size'.toNat → start ≤ p ∧ p < start + n) :
    v'.Covers g (L.record (some i) start n data) i a size' := by
  obtain ⟨room, -⟩ := covers.choose_spec.1.along geo source
  have longer := Nat.mul_le_mul_right g.bytesPerCluster.toNat wrote.grown.extends_.length_le
  have room' : size'.toNat ≤ l'.length * g.bytesPerCluster.toNat := by
    by_cases grew : size.toNat < size'.toNat
    · have last := new (size'.toNat - 1) (by omega) (by omega)
      have fits := wrote.room (by omega)
      omega
    · omega
  refine ⟨_, ⟨l', Or.inr wrote.grown.chain, room', rfl⟩, fun p b found => ?_⟩
  have inside : p < size'.toNat := by
    by_contra out
    rw [List.getElem?_eq_none (by simpa using out)] at found
    cases found
  obtain rfl : v'.byteAt g l' p = b := by simpa [inside] using found
  rw [wrote.bytes p (by omega)]
  by_cases written : start ≤ p ∧ p < start + n
  · rw [if_pos written]
    exact Ledger.record_stored written rfl
  · -- the byte was in the file before
    have old : p < size.toNat := by
      by_contra past
      exact written (new p (by omega) inside)
    rw [if_neg written, Volume.byteAt, byteAt_prefix wrote.grown.extends_ (by omega), ← Volume.byteAt]
    exact (covers.stored geo source old).mono (L.record_writes _ _ _ _)

/-! ## What is to be seen of a file -/

theorem FileStore.Sees.owned (sees : A.Sees σ first size) (consistent : A.Consistent g cwd)
    (member : σ ∈ A.slots g) (live : (A.dirent σ).IsLive) : A.Owned cwd first σ := by
  cases sees with
  | handle h isOpen slot => exact slot ▸ (consistent.handles h isOpen).owned
  | entry settled =>
    refine (consistent.entries σ member live).resolve_left ?_
    rintro ⟨h, truncating⟩
    exact settled h truncating

/-- While a handle truncates a file, the file is what this handle says. -/
theorem FileStore.Sees.of_truncating (sees : A.Sees σ first size) (consistent : A.Consistent g cwd)
    (truncating : A.Truncating σ h) : first = (A.file h).firstCluster ∧ size = (A.file h).fileSize := by
  obtain ⟨isOpen, slot, trunc⟩ := truncating
  cases sees with
  | handle k openK slotK =>
    obtain rfl := consistent.exclusive h k isOpen openK (slot.trans slotK.symm) trunc
    exact ⟨rfl, rfl⟩
  | entry settled => exact absurd ⟨isOpen, slot, trunc⟩ (settled h)

/-- What can be seen after a handle changed that is not on this file, before or after. -/
theorem FileStore.Sees.of_update (sees : B.Sees σ first size) (file : B.file = Function.update A.file h f)
    (entry : B.dirent σ = A.dirent σ) (before : (A.file h).isOpen = true → (A.file h).slot ≠ σ)
    (after : f.isOpen = true → f.slot ≠ σ) : A.Sees σ first size := by
  cases sees with
  | handle k isOpen slot =>
    rw [file] at isOpen slot ⊢
    by_cases same : k = h
    · subst same
      rw [Function.update_self] at isOpen slot
      exact absurd slot (after isOpen)
    · rw [Function.update_of_ne same] at isOpen slot ⊢
      exact .handle k isOpen slot
  | entry settled =>
    rw [entry]
    refine .entry fun k truncating => settled k ?_
    have ne : k ≠ h := by
      rintro rfl
      exact before truncating.1 truncating.2.1
    rw [FileStore.Truncating, file, Function.update_of_ne ne]
    exact truncating

theorem FileStore.Sees.of_file (sees : B.Sees σ first size) (file : B.file = A.file)
    (entry : B.dirent σ = A.dirent σ) : A.Sees σ first size := by
  cases sees with
  | handle k isOpen slot =>
    rw [file] at isOpen slot ⊢
    exact .handle k isOpen slot
  | entry settled =>
    rw [entry]
    refine .entry fun k truncating => settled k ?_
    rw [FileStore.Truncating, file]
    exact truncating

theorem FileStore.Sees.of_moved
    (sees : FileStore.Sees
      { A with file := Function.update A.file h { A.file h with currentCluster := current, position := position } }
      σ first size) : A.Sees σ first size := by
  cases sees with
  | handle k isOpen slot =>
    by_cases same : k = h
    · subst same
      simp only [Function.update_self] at isOpen slot ⊢
      exact .handle k isOpen slot
    · simp only [Function.update_of_ne same] at isOpen slot ⊢
      exact .handle k isOpen slot
  | entry settled =>
    refine .entry fun k truncating => settled k ?_
    by_cases same : k = h
    · subst same
      simp only [FileStore.Truncating, Function.update_self]
      exact truncating
    · simp only [FileStore.Truncating, Function.update_of_ne same]
      exact truncating

/-- A file keeps its bytes if no more is to be seen of it and its clusters stay the same. -/
theorem FileStore.KeepsAt.of_sees (keeps : A.KeepsAt g L i σ) (consistent : A.Consistent g cwd)
    (member : σ ∈ B.slots g) (live : (B.dirent σ).IsLive)
    (sees : ∀ first size, B.Sees σ first size → A.Sees σ first size)
    (same : ∀ first m, A.Owned cwd first σ → FatChain g A.volume first m → ∀ x ∈ m, A.volume.SameAt B.volume x) :
    B.KeepsAt g L i σ where
  member := member
  live := live
  covers := fun first size seen =>
    (keeps.covers first size (sees first size seen)).congr
      fun m => same first m ((sees first size seen).owned consistent keeps.member keeps.live)

/-- A file that a call is not about. -/
theorem FileStore.KeepsAt.next (keeps : A.KeepsAt g L i σ) (consistent : A.Consistent g cwd)
    (careful : Disciplined A.file A.opened call) (next : A.Next g cwd call r B) (other : ¬ A.Subject g σ call)
    (member : σ ∈ B.slots g) (live : (B.dirent σ).IsLive)
    (sees : ∀ first size, B.Sees σ first size → A.Sees σ first size) : B.KeepsAt g L i σ :=
  keeps.of_sees consistent member live sees fun _ _ owned chain _ inside =>
    next.frame consistent.geometry (consistent.chain_untouched careful owned chain inside other)

theorem FileStore.KeepsAt.mono (keeps : A.KeepsAt g L i σ) (writes : L.writes ⊆ L'.writes) :
    A.KeepsAt g L' i σ :=
  ⟨keeps.member, keeps.live, fun first size seen => (keeps.covers first size seen).mono writes⟩

/-- A file without bytes. -/
theorem FileStore.Consistent.keepsAt_empty (consistent : A.Consistent g cwd) (member : σ ∈ A.slots g)
    (live : (A.dirent σ).IsLive) (empty : ∀ first size, A.Sees σ first size → size = 0) (L : Ledger) (i : Nat) :
    A.KeepsAt g L i σ := by
  refine ⟨member, live, fun first size seen => ?_⟩
  rw [empty first size seen]
  exact consistent.covers_empty (seen.owned consistent member live) L i

/-! ## The ledger of a call -/

theorem FileStore.Keeps.mono (keeps : A.Keeps g L) (start n : Nat) (data : Bytes) :
    A.Keeps g (L.record j start n data) :=
  ⟨keeps.handle, fun σ i found => (keeps.slot σ i found).mono (L.record_writes j start n data)⟩

theorem FileStore.Keeps.attach (keeps : A.Keeps g L) (file : B.file = Function.update A.file h f)
    (on : f.isOpen = true → L.fileAt f.slot = j) (slots : ∀ σ i, L.fileAt σ = some i → B.KeepsAt g L i σ) :
    B.Keeps g (L.attach h j) where
  handle := by
    intro k isOpen
    rw [file] at isOpen ⊢
    by_cases here : k = h
    · subst here
      simp only [Function.update_self, Ledger.attach] at isOpen ⊢
      exact (on isOpen).symm
    · simp only [Function.update_of_ne here, Ledger.attach] at isOpen ⊢
      exact keeps.handle k isOpen
  slot := fun σ i found => (slots σ i found).mono (List.Subset.refl _)

theorem FileStore.Keeps.begin_ (keeps : A.Keeps g L) (file : B.file = Function.update A.file h f)
    (alone : ∀ k, k ≠ h → (A.file k).isOpen = true → (A.file k).slot ≠ f.slot)
    (slots : ∀ σ i, σ ≠ f.slot → L.fileAt σ = some i → B.KeepsAt g L i σ)
    (new : B.KeepsAt g L L.next f.slot) : B.Keeps g (L.begin_ f.slot h) where
  handle := by
    intro k isOpen
    rw [file] at isOpen ⊢
    by_cases here : k = h
    · subst here
      simp only [Function.update_self, Ledger.begin_]
    · simp only [Function.update_of_ne here] at isOpen ⊢
      simp only [Ledger.begin_, Function.update_of_ne here, Function.update_of_ne (alone k here isOpen)]
      exact keeps.handle k isOpen
  slot := by
    intro σ i found
    by_cases here : σ = f.slot
    · subst here
      obtain rfl : L.next = i := by simpa [Ledger.begin_] using found
      exact new.mono (List.Subset.refl _)
    · refine (slots σ i here ?_).mono (List.Subset.refl _)
      simpa only [Ledger.begin_, Function.update_of_ne here] using found

theorem FileStore.Keeps.remove (keeps : A.Keeps g L) (file : B.file = A.file)
    (unused : ∀ k, (A.file k).isOpen = true → (A.file k).slot ≠ σ)
    (slots : ∀ τ i, τ ≠ σ → L.fileAt τ = some i → B.KeepsAt g L i τ) : B.Keeps g (L.remove σ) where
  handle := by
    intro k isOpen
    rw [file] at isOpen ⊢
    simp only [Ledger.remove, Function.update_of_ne (unused k isOpen)]
    exact keeps.handle k isOpen
  slot := by
    intro τ i found
    by_cases here : τ = σ
    · subst here
      simp [Ledger.remove] at found
    · refine (slots τ i here ?_).mono (List.Subset.refl _)
      simpa only [Ledger.remove, Function.update_of_ne here] using found

/-- What `fat32_find_entry` answers, by the slot it finds. -/
theorem InOrder.dirMap_eq (order : InOrder g cwd t A) (enough : 4294967296 ≤ fuel) (path : CString) :
    dirMap fuel t.machine.fs (fat32ToShortName path) =
      (A.lookup g path).map fun σ => ⟨A.dirent σ, σ.1, σ.2⟩ := by
  rw [order.1.stores.dirMap_eq enough order.2.chain]
  rfl

/-! ## One call -/

theorem FileStore.Keeps.step_open (keeps : A.Keeps g L) (order : InOrder g cwd t A) (orderB : InOrder g cwd t' B)
    (enough : 4294967296 ≤ fuel) (careful : Disciplined A.file A.opened (.open h (some path) flags))
    (next : A.Next g cwd (.open h (some path) flags) r B) :
    B.Keeps g (L.step fuel t (.open h (some path) flags) r t') := by
  have consistent := order.2
  have closed : ∀ {σ : Slot}, (A.file h).isOpen = true → (A.file h).slot ≠ σ := by
    intro σ isOpen
    rw [careful.1] at isOpen
    cases isOpen
  have slot : (t'.machine.file h).slot = (B.file h).slot := by rw [orderB.1.file]
  -- a caller that truncates has the file to itself
  have alone {τ : Slot} (found : A.lookup g path = some τ) (trunc : hasFlag flags fat32OTrunc = true) {k : Nat}
      (isOpen : (A.file k).isOpen = true) : (A.file k).slot ≠ τ := by
    intro slot
    rw [(careful.2 k (consistent.openUnder found isOpen slot)).1] at trunc
    cases trunc
  -- a file that the call is not about
  have others {σ : Slot} {i : Nat} (found : L.fileAt σ = some i) (other : A.lookup g path ≠ some σ)
      (member : σ ∈ B.slots g) (entry : B.dirent σ = A.dirent σ)
      (sees : ∀ first size, B.Sees σ first size → A.Sees σ first size) : B.KeepsAt g L i σ :=
    have keepsAt := keeps.slot σ i found
    keepsAt.next consistent careful next other member (entry ▸ keepsAt.live) sees
  rw [Ledger.step, order.dirMap_eq enough, slot]
  cases next with
  | openFails _ _ _ absent =>
    refine keeps.attach rfl (fun isOpen => by cases isOpen) fun σ i found => ?_
    exact others found (by simp [absent]) (keeps.slot σ i found).member rfl
      fun _ _ sees => sees.of_update rfl rfl closed nofun
  | openLosesEntry _ _ _ n v' l' τ absent inRange free inserted dead =>
    refine keeps.attach rfl (fun isOpen => by cases isOpen) fun σ i found => ?_
    obtain ⟨member, live, -⟩ := keeps.slot σ i found
    have ne : σ ≠ τ := by
      rintro rfl
      exact inserted.not_live_before member live
    exact others found (by simp [absent]) (inserted.slots_subset member) (inserted.kept σ member ne)
      fun _ _ sees => sees.of_update rfl (inserted.kept σ member ne) closed nofun
  | openFound _ _ _ τ found noChain =>
    have settled : ∀ k, ¬ A.Truncating τ k := by
      rintro k ⟨isOpen, slot, trunc⟩
      rw [(careful.2 k (consistent.openUnder found isOpen slot)).2] at trunc
      cases trunc
    have kept (σ : Slot) (i : Nat) (at_ : L.fileAt σ = some i) : FileStore.KeepsAt g { A with
        file := Function.update A.file h (handleFor (A.dirent τ) τ flags)
        opened := Function.update A.opened h (fat32ToShortName path) } L i σ := by
      obtain ⟨member, live, -⟩ := keeps.slot σ i at_
      refine (keeps.slot σ i at_).of_sees consistent member live (fun first size sees => ?_)
        fun _ _ _ _ x _ => Volume.SameAt.refl _ x
      by_cases here : σ = τ
      · subst here
        -- the new handle shows what the entry showed
        cases sees with
        | handle k isOpen slot =>
          by_cases same : k = h
          · subst same
            simp only [Function.update_self]
            exact .entry settled
          · simp only [Function.update_of_ne same] at isOpen slot ⊢
            exact .handle k isOpen slot
        | entry => exact .entry settled
      · exact sees.of_update rfl rfl closed fun _ => Ne.symm here
    have names := FileStore.lookup_names found
    simp only [found, Function.update_self, Option.map_some, Option.isNone_some, Bool.false_eq_true, if_false]
    rw [if_neg (by decide)]
    split
    · rename_i truncated
      obtain ⟨trunc, known⟩ := truncated
      obtain ⟨i, at_⟩ := Option.isSome_iff_exists.mp known
      have zero := noChain.resolve_left (by simp [trunc])
      -- a file without a chain has no bytes
      have empty : (A.dirent τ).fileSize = 0 := by
        obtain ⟨bytes, reads, -⟩ := (keeps.slot τ i at_).covers _ _ (.entry settled)
        have length := reads.length
        rw [zero] at reads
        rw [reads.of_zero consistent.geometry] at length
        exact UInt32.toNat.inj length.symm
      refine keeps.begin_ rfl (fun k _ isOpen => alone found trunc isOpen) (fun σ i _ => kept σ i) ?_
      refine orderB.2.keepsAt_empty names.1 names.2.1 (fun first size sees => ?_) L _
      rw [(sees.of_truncating (h := h) orderB.2 (by simpa [FileStore.Truncating] using trunc)).2]
      simpa using empty
    · exact keeps.attach rfl (fun _ => rfl) kept
  | openTruncates _ _ _ τ m found trunc chain =>
    have names := FileStore.lookup_names found
    have kept (σ : Slot) (i : Nat) (ne : σ ≠ τ) (at_ : L.fileAt σ = some i) :=
      others at_ (fun same => ne (Option.some.inj (same.symm.trans found))) (keeps.slot σ i at_).member rfl
        fun _ _ sees => sees.of_update rfl rfl closed fun _ => Ne.symm ne
    simp only [found, Function.update_self, Option.map_some, Option.isNone_some, Bool.false_eq_true, if_false]
    rw [if_neg (by decide)]
    split
    · refine keeps.begin_ rfl (fun k _ isOpen => alone found trunc isOpen) kept ?_
      refine orderB.2.keepsAt_empty names.1 names.2.1 (fun first size sees => ?_) L _
      rw [(sees.of_truncating (h := h) orderB.2 (by simpa [FileStore.Truncating] using trunc)).2]
      simp
    · rename_i unknown
      refine keeps.attach rfl (fun _ => rfl) fun σ i at_ => kept σ i ?_ at_
      rintro rfl
      exact unknown ⟨trunc, by simp [at_]⟩
  | openCreates _ _ _ n v' l' τ absent creat inRange free inserted notDead =>
    simp only [absent, Function.update_self, Option.map_none, Option.isNone_none, if_true]
    rw [if_neg (by decide)]
    have unused := consistent.vacant_unused inserted
    have live := (newEntry_live_iff path fat32AttrArchive (by decide) n).mpr notDead
    refine keeps.begin_ rfl (fun k _ => unused k) (fun σ i ne at_ => ?_) ?_
    · obtain ⟨member, -, -⟩ := keeps.slot σ i at_
      exact others at_ (by simp [absent]) (inserted.slots_subset member) (inserted.kept σ member ne)
        fun _ _ sees => sees.of_update rfl (inserted.kept σ member ne) closed fun _ => Ne.symm ne
    · refine orderB.2.keepsAt_empty inserted.member ?_ (fun first size sees => ?_) L _
      · simpa [FileStore.dirent, inserted.holds] using live
      · cases sees with
        | handle k isOpen slot =>
          by_cases same : k = h
          · subst same
            simp [newEntry]
          · simp only [Function.update_of_ne same] at isOpen slot
            exact absurd slot (unused k isOpen)
        | entry => simp [FileStore.dirent, inserted.holds, newEntry]

/-- What is to be seen in a chain after a write through a handle of the slot `τ`. -/
theorem Volume.Covers.next_write (covers : A.volume.Covers g L i c size) (consistent : A.Consistent g cwd)
    (owned : A.Owned cwd c σ) (ownedH : A.Owned cwd first τ)
    (source : first = 0 ∧ l = [] ∨ first = a ∧ FatChain g A.volume a l)
    (wrote : WroteRange g A.volume v' a l l' start data n) (mine : σ = τ → j = some i) :
    v'.Covers g (L.record j start n data) i c size := by
  obtain ⟨origin, -, apart⟩ := consistent.written_chain ownedH source wrote.grown
  have nonzero : a ≠ 0 := (wrote.grown.chain.cell_of_mem _ wrote.grown.chain.head_mem).ne_zero
  by_cases here : c = a
  · subst here
    obtain ⟨inHeads, -, owner⟩ := owned.resolve_left nonzero
    obtain ⟨-, owner', chain⟩ := origin.resolve_left fun fresh => fresh.1 inHeads
    rw [mine (Option.some.inj (owner.symm.trans owner'))]
    exact covers.wrote consistent.geometry (Or.inr ⟨rfl, chain⟩) wrote fun p past inside => by omega
  · refine (covers.congr fun m chain x member => ?_).mono (L.record_writes j start n data)
    have inHeads := (owned.resolve_left (chain.cell_of_mem _ chain.head_mem).ne_zero).1
    exact wrote.grown.sameAt (apart c inHeads here m chain member)
      (FatChain.ne_free consistent.geometry chain x member)

theorem FileStore.Keeps.step_write {data : Option Bytes} (keeps : A.Keeps g L) (order : InOrder g cwd t A)
    (orderB : InOrder g cwd t' B) (gapless : Gapless t (.write h data size))
    (next : A.Next g cwd (.write h data size) r B) : B.Keeps g (L.step fuel t (.write h data size) r t') := by
  have consistent := order.2
  have frame := fun x => next.frame (x := x) consistent.geometry
  rw [Gapless, order.1.file] at gapless
  cases next with
  | writeFails =>
    cases data with
    | none => exact keeps
    | some data => exact keeps.mono _ _ _
  | wrote _ data _ a n l l' v' file' isOpen source inRange few first advanced wrote =>
    have bound := size.toNat_lt
    have moves : file'.position = (A.file h).position + UInt32.ofNat n := advanced.position
    have sizes : (A.file h).position.toNat + n < 4294967296 → file'.fileSize.toNat =
        if n = 0 then (A.file h).fileSize.toNat
        else max (A.file h).fileSize.toNat ((A.file h).position.toNat + n) := advanced.size
    have slot : file'.slot = (A.file h).slot := by
      rw [advanced.rest]
      rfl
    have flags : file'.flags = (A.file h).flags := by rw [advanced.rest]
    have stays : file'.isOpen = true := by
      rw [advanced.rest]
      exact isOpen
    have count : ((t'.machine.file h).position - (t.machine.file h).position).toNat = n := by
      rw [orderB.1.file, order.1.file]
      simp only [Function.update_self, moves]
      rw [UInt32.add_comm, UInt32.add_sub_cancel, UInt32.toNat_ofNat']
      omega
    rw [Ledger.step]
    simp only [count]
    rw [order.1.file]
    have same : ∀ σ ∈ A.slots g, v'.dirent σ = A.volume.dirent σ :=
      Volume.dirent_congr fun c member => (frame c (consistent.directory_untouched member _ _)).2
    have owned := (consistent.handles h isOpen).owned
    refine ⟨fun k openK => ?_, fun σ i found => ?_⟩
    · by_cases here : k = h
      · subst here
        simp only [Function.update_self, slot]
        exact keeps.handle k isOpen
      · simp only [Function.update_of_ne here] at openK ⊢
        exact keeps.handle k openK
    · obtain ⟨member, live, covers⟩ := keeps.slot σ i found
      have entry := same σ member
      have mine (here : σ = (A.file h).slot) : L.fileOf h = some i := by
        rw [keeps.handle h isOpen, ← here]
        exact found
      have carry {c size : UInt32} (seen : A.Sees σ c size) :
          v'.Covers g (L.record (L.fileOf h) (A.file h).position.toNat n data) i c size :=
        (covers c size seen).next_write consistent (seen.owned consistent member live) owned source wrote mine
      refine ⟨member, by simpa only [FileStore.dirent, entry] using live, fun c size' sees => ?_⟩
      cases sees with
      | handle k openK slotK =>
        by_cases here : k = h
        · subst here
          simp only [Function.update_self] at slotK ⊢
          rw [slot] at slotK
          rw [first, mine slotK.symm]
          refine (covers _ _ (.handle k isOpen slotK)).wrote consistent.geometry source wrote fun p past inside => ?_
          -- the file grows by bytes that were written, whether or not the position wraps
          have starts : (A.file k).position.toNat ≤ (A.file k).fileSize.toNat ∨ n = 0 := by
            rcases gapless isOpen with inFile | rfl
            · exact Or.inl (UInt32.le_iff_toNat_le.mp inFile)
            · exact Or.inr (Nat.le_zero.mp few)
          have wraps := file'.fileSize.toNat_lt
          have position := (A.file k).position.toNat_lt
          by_cases noWrap : (A.file k).position.toNat + n < 4294967296
          · rw [sizes noWrap] at inside
            split at inside <;> omega
          · omega
        · simp only [Function.update_of_ne here] at openK slotK ⊢
          exact carry (.handle k openK slotK)
      | entry settled =>
        have settledA : ∀ k, ¬ A.Truncating σ k := by
          intro k truncating
          refine settled k ?_
          by_cases here : k = h
          · subst here
            simp only [FileStore.Truncating, Function.update_self, slot, flags]
            exact ⟨stays, truncating.2⟩
          · simp only [FileStore.Truncating, Function.update_of_ne here]
            exact truncating
        simp only [FileStore.dirent, entry]
        exact carry (.entry settledA)

/-- Closing a handle shows in the entry what the handle showed. -/
theorem FileStore.Keeps.step_close (keeps : A.Keeps g L) (consistent : A.Consistent g cwd)
    (next : A.Next g cwd (.close h) r B) : B.Keeps g (L.step fuel t (.close h) r t') := by
  have untouched := fun (σ : Slot) (i : Nat) (keepsAt : A.KeepsAt g L i σ) =>
    keepsAt.next consistent (show Disciplined A.file A.opened (.close h) from trivial) next not_false
  cases next with
  | closeFails _ closed => exact keeps
  | closed _ isOpen member =>
    have edited := closeAt_edited (v := A.volume) consistent.geometry member (A.file h)
    refine keeps.attach (f := { A.file h with isOpen := false }) rfl (fun isOpen => by cases isOpen) fun σ i found => ?_
    have keepsAt := keeps.slot σ i found
    refine untouched σ i keepsAt keepsAt.member ?_ fun first size sees => ?_
    · exact ((edited.names_iff (l := A.directory) rfl Iff.rfl).mpr ⟨keepsAt.member, keepsAt.live, rfl⟩).2.1
    · by_cases here : (A.file h).slot = σ
      · cases sees with
        | handle k openK slotK =>
          by_cases same : k = h
          · subst same
            simp at openK
          · simp only [Function.update_of_ne same] at openK slotK ⊢
            exact .handle k openK slotK
        | entry =>
          subst here
          simp only [FileStore.dirent, edited.holds, closedEntry_firstCluster]
          exact .handle h isOpen rfl
      · exact sees.of_update rfl (edited.kept _ σ keepsAt.member (Ne.symm here)) (fun _ => here)
          fun isOpen => by cases isOpen

theorem FileStore.Keeps.step_unlink (keeps : A.Keeps g L) (order : InOrder g cwd t A) (enough : 4294967296 ≤ fuel)
    (careful : Disciplined A.file A.opened (.unlink path)) (next : A.Next g cwd (.unlink path) r B) :
    B.Keeps g (L.step fuel t (.unlink path) r t') := by
  have consistent := order.2
  rw [Ledger.step, order.dirMap_eq enough]
  have untouched := fun (σ : Slot) (i : Nat) (keepsAt : A.KeepsAt g L i σ) =>
    keepsAt.next consistent careful next
  -- the file goes away, and no handle is on it
  have removed {τ : Slot} (found : A.lookup g path = some τ) (file : B.file = A.file)
      (slots : B.slots g = A.slots g) (kept : ∀ σ ∈ A.slots g, σ ≠ τ → B.dirent σ = A.dirent σ) :
      B.Keeps g (L.remove τ) := by
    refine keeps.remove file (fun k isOpen slot => careful k (consistent.openUnder found isOpen slot))
      fun σ i ne at_ => ?_
    obtain ⟨member, live, -⟩ := keeps.slot σ i at_
    refine (keeps.slot σ i at_).next consistent careful next
      (fun same => ne (Option.some.inj (same.symm.trans found))) (slots ▸ member) ?_
      fun _ _ sees => sees.of_file file (kept σ member ne)
    rw [kept σ member ne]
    exact live
  cases next with
  | unlinkFails _ absent =>
    rw [absent]
    exact keeps
  | unlinkedEmpty _ τ found empty =>
    have edited := eraseAt_edited (v := A.volume) consistent.geometry (FileStore.lookup_names found).1
    simp only [found, Option.map_some, if_true]
    exact removed found rfl rfl fun σ member ne => edited.kept _ σ member ne
  | unlinked _ τ m found chain =>
    have edited := eraseAt_edited (v := A.volume.freeAll m) consistent.geometry (FileStore.lookup_names found).1
    simp only [found, Option.map_some, if_true]
    exact removed found rfl rfl fun σ member ne => edited.kept _ σ member ne

theorem FileStore.Keeps.step_mkdir (keeps : A.Keeps g L) (consistent : A.Consistent g cwd)
    (next : A.Next g cwd (.mkdir path) r B) : B.Keeps g L := by
  have untouched := fun (σ : Slot) (i : Nat) (keepsAt : A.KeepsAt g L i σ) =>
    keepsAt.next consistent (show Disciplined A.file A.opened (.mkdir path) from trivial) next not_false
  cases next with
  | mkdirFails => exact keeps
  | mkdirMakes _ n v' l' τ inRange free inserted =>
    refine ⟨keeps.handle, fun σ i found => ?_⟩
    obtain ⟨member, live, -⟩ := keeps.slot σ i found
    have ne : σ ≠ τ := by
      rintro rfl
      exact inserted.not_live_before member live
    have inDir := inserted.slots_subset member
    -- the clusters of the directory are not the one that is cleared
    have cleared : σ.1 ≠ n := fun same =>
      consistent.fresh_outside inRange free inserted (same ▸ (mem_dirSlots.mp inDir).1)
    have entry : (v'.setData n fun _ => 0).dirent σ = A.volume.dirent σ := by
      rw [Volume.dirent, Volume.setData_data, Function.update_of_ne cleared]
      exact inserted.kept σ member ne
    exact untouched σ i (keeps.slot σ i found) inDir (by simpa only [FileStore.dirent, entry] using live)
      fun _ _ sees => sees.of_file rfl entry

/-- A handle moved. -/
theorem FileStore.Keeps.moved (keeps : A.Keeps g L) (consistent : A.Consistent g cwd) (h : Nat)
    (current position : UInt32) :
    FileStore.Keeps g
      { A with file := Function.update A.file h { A.file h with currentCluster := current, position := position } }
      L := by
  refine ⟨fun k isOpen => ?_, fun σ i found => ?_⟩
  · by_cases here : k = h
    · subst here
      simp only [Function.update_self] at isOpen ⊢
      exact keeps.handle k isOpen
    · simp only [Function.update_of_ne here] at isOpen ⊢
      exact keeps.handle k isOpen
  · obtain ⟨member, live, -⟩ := keeps.slot σ i found
    exact (keeps.slot σ i found).of_sees consistent member live (fun _ _ sees => sees.of_moved)
      fun _ _ _ _ x _ => Volume.SameAt.refl _ x

/-- **One call.**  A careful call without gaps leaves every file with bytes of its own only. -/
theorem FileStore.Keeps.step (keeps : A.Keeps g L) (order : InOrder g cwd t A) (enough : 4294967296 ≤ fuel)
    (careful : Careful t call) (gapless : Gapless t call) (done : t.step fuel call = some (reply, t')) :
    ∃ B, InOrder g cwd t' B ∧ B.Keeps g (L.step fuel t call reply.status t') := by
  obtain ⟨B, next, orderB⟩ := order.step enough careful done
  refine ⟨B, orderB, ?_⟩
  obtain ⟨status, buffer⟩ := reply
  rw [Careful, order.1.file, order.1.opened] at careful
  cases call with
  | «open» h path flags =>
    cases path with
    | none =>
      cases next
      exact keeps
    | some path => exact keeps.step_open order orderB enough careful next
  | read h buffer size =>
    cases next
    exact keeps.moved order.2 h _ _
  | write h data size => exact keeps.step_write order orderB gapless next
  | seek h offset whence =>
    cases next
    obtain ⟨p, moves⟩ := fat32Seek_moves (A.file h) offset whence
    rw [moves]
    exact keeps.moved order.2 h _ p
  | close h => exact keeps.step_close order.2 next
  | unlink path => exact keeps.step_unlink order enough careful next
  | mkdir path => exact keeps.step_mkdir order.2 next

/-! ## Reading -/

/-- A read delivers bytes of the file of its handle. -/
theorem FileStore.Keeps.reads (keeps : A.Keeps g L) (order : InOrder g cwd t A) (enough : 4294967296 ≤ fuel)
    (gapless : Gapless t (.read h (some buffer) size))
    (done : t.step fuel (.read h (some buffer) size) = some (reply, t')) :
    OwnBytes L h (t.machine.file h) (t'.machine.file h) buffer reply := by
  intro i known
  rw [Gapless, order.1.file] at gapless
  rw [order.1.file]
  -- a read of nothing
  have idle {status : Int32} {fs' : Fat32State} (run : fat32Read fuel t.machine.fs (A.file h) (some buffer) size =
      some (status, some buffer, A.file h, fs')) :
      ∃ buffer', reply.buffer = some buffer' ∧ ∀ k,
        if k < ((t'.machine.file h).position - (A.file h).position).toNat then
          L.Stored i ((A.file h).position.toNat + k) (buffer' k) ∨ buffer' k = 0
        else buffer' k = buffer k := by
    rw [← order.1.file] at run
    have stepped := Session.step_of_read run
    rw [done] at stepped
    cases stepped
    exact ⟨buffer, rfl, fun k => by simp [order.1.file]⟩
  cases isOpen : (A.file h).isOpen with
  | false =>
    have run : fat32Read fuel t.machine.fs (A.file h) (some buffer) size =
        some (-1, some buffer, A.file h, t.machine.fs) := by simp [fat32Read, isOpen]
    exact idle run
  | true =>
    by_cases atEnd : (A.file h).fileSize ≤ (A.file h).position
    · exact idle (fat32Read_end fuel isOpen atEnd buffer size)
    · have noWrap := (gapless isOpen).resolve_left atEnd
      have before := UInt32.not_le.mp atEnd
      have count := readCount_toNat before noWrap
      have inside := UInt32.lt_iff_toNat_lt.mp before
      have covers := (keeps.slot _ i ((keeps.handle h isOpen).symm.trans known)).covers _ _ (.handle h isOpen rfl)
      obtain ⟨-, ⟨l, source, room, -⟩, -⟩ := id covers
      have chain : FatChain g A.volume (A.file h).firstCluster l := by
        rcases source with ⟨-, rfl⟩ | chain
        · simp only [List.length_nil, Nat.zero_mul] at room
          omega
        · exact chain
      obtain ⟨buffer', current, s', run, -, bytes⟩ :=
        fat32Read_spec enough isOpen chain room before noWrap buffer order.1.stores
      rw [← order.1.file] at run
      have stepped := Session.step_of_read run
      rw [done] at stepped
      cases stepped
      refine ⟨buffer', rfl, fun k => ?_⟩
      have moved : (A.file h).position + readCount (A.file h) size - (A.file h).position =
          readCount (A.file h) size := by rw [UInt32.add_comm, UInt32.add_sub_cancel]
      simp only [Function.update_self, order.1.file, moved]
      rw [bytes k]
      split
      · exact Or.inl (covers.stored order.2.geometry (Or.inr ⟨rfl, chain⟩) (by omega))
      · rfl

/-! ## Runs -/

/-- The session shows a store whose files have bytes of their own only. -/
def Tracked.Sound (g : Fat32Fs) (cwd : UInt32) (x : Tracked) : Prop :=
  ∃ A, InOrder g cwd x.session A ∧ A.Keeps g x.ledger

theorem Tracked.Sound.step (sound : x.Sound g cwd) (enough : 4294967296 ≤ fuel)
    (allowed : Careful x.session call ∧ Gapless x.session call) (done : x.step fuel call = some (reply, y)) :
    y.Sound g cwd := by
  obtain ⟨A, order, keeps⟩ := sound
  obtain ⟨run, ledger⟩ := Tracked.step_eq_some.mp done
  rw [Tracked.Sound, ledger]
  exact keeps.step order enough allowed.1 allowed.2 run

theorem Fresh.sound (fresh : Fresh t l) :
    Tracked.Sound t.machine.fs.gFs t.machine.fs.gCurrentDirCluster ⟨t, Ledger.empty⟩ := by
  refine ⟨_, fresh.shows, fun h isOpen => ?_, fun σ i found => ?_⟩
  · simp [Session.store, storeOf, fresh.closed h] at isOpen
  · cases found

/-- **Reads reveal a file's own data only.**  The session starts on a volume in order, without open
handles.  In a run of a careful caller without gaps, every byte that `fat32_read` delivers for a file that
was created in the run was stored at its position by a write to this file, or is zero; nothing else of the
caller's buffer changes; and the next call returns. -/
theorem reads_own_data {calls : List (FsCall × Reply)} (enough : 4294967296 ≤ fuel) (fresh : Fresh t l)
    (run : Run (Tracked.step fuel) (fun x call => Careful x.session call ∧ Gapless x.session call)
      ⟨t, Ledger.empty⟩ calls x) :
    (∀ call, Careful x.session call → Gapless x.session call → ∃ reply y, x.step fuel call = some (reply, y)) ∧
    ∀ h buffer size reply y, Gapless x.session (.read h (some buffer) size) →
      x.step fuel (.read h (some buffer) size) = some (reply, y) →
      OwnBytes x.ledger h (x.session.machine.file h) (y.session.machine.file h) buffer reply := by
  obtain ⟨A, order, keeps⟩ := run.invariant (Tracked.Sound _ _)
    (fun _ _ _ _ sound allowed done => sound.step enough allowed done) fresh.sound
  refine ⟨fun call careful gapless => ?_, fun h buffer size reply y gapless done => ?_⟩
  · obtain ⟨reply, t', done⟩ := order.returns enough careful
    exact ⟨reply, ⟨t', x.ledger.step fuel x.session call reply.status t'⟩, Tracked.step_eq_some.mpr ⟨done, rfl⟩⟩
  · exact keeps.reads order enough gapless (Tracked.step_eq_some.mp done).1

/-- A file of one byte, which is read back. -/
theorem reads_own_data_letter :
    ∃ calls x reply y, Run (Tracked.step 4294967296) (fun x call => Careful x.session call ∧ Gapless x.session call)
        ⟨blankSession, Ledger.empty⟩ calls x ∧
      x.step 4294967296 (.read 0 (some fun _ => 0) 1) = some (reply, y) ∧ reply.status = 1 ∧
      x.ledger.fileOf 0 = some 0 ∧
      OwnBytes x.ledger 0 (x.session.machine.file 0) (y.session.machine.file 0) (fun _ => 0) reply := by
  have opens : ((Tracked.step 4294967296 ⟨blankSession, Ledger.empty⟩
      (.open 0 (some (letterPath 0x41 (by decide))) 4)).any fun first =>
        (replay (Tracked.step 4294967296) (fun x call => call.onHandle = some 0 ∧ Gapless x.session call) first.2
          [.write 0 (some fun _ => 7) 1, .seek 0 0 0]).any fun result =>
            (result.2.step 4294967296 (.read 0 (some fun _ => 0) 1)).any fun read => read.1.status = 1 ∧
              result.2.ledger.fileOf 0 = some 0 ∧ Gapless result.2.session (.read 0 (some fun _ => 0) 1)) = true := by
    decide +kernel
  simp only [Option.any_eq_true, decide_eq_true_eq] at opens
  obtain ⟨⟨reply₁, x₁⟩, opened, ⟨calls, x⟩, replayed, ⟨reply, y⟩, done, status, known, gapless⟩ := opens
  -- no handle is open before the first call
  have careful : Careful blankSession (.open 0 (some (letterPath 0x41 (by decide))) 4) :=
    ⟨blankSession_fresh.closed 0, fun k under => absurd under.1 (by simp [blankSession_fresh.closed k])⟩
  have rest := (Run.of_replay replayed).mono fun x call allowed =>
    And.intro (FsCall.onHandle_careful allowed.1 x.session) allowed.2
  have run := Run.call (s := ⟨blankSession, Ledger.empty⟩) ⟨careful, trivial⟩ opened rest
  exact ⟨_, x, reply, y, run, done, status, known,
    (reads_own_data (by decide) blankSession_fresh run).2 0 _ 1 reply y gapless done⟩

/-- A drive whose only free cluster is the cluster 9. -/
def oneFreeSession : Session :=
  ⟨⟨mountedOn smallFs (smallDrive (fun c => if c = 9 then fat32FreeCluster else fat32EocMax) fun _ _ => 0),
    fun _ => Fat32File.zero⟩, fun _ _ => 0⟩

theorem oneFreeSession_fresh : Fresh oneFreeSession [2] :=
  ⟨⟨smallFs_geometry, fun _ => rfl⟩,
    WellFormed.blank smallFs_geometry (.last (by decide) (by decide +kernel)) (by decide +kernel), fun _ => rfl⟩

/-- The file `B` gets the cluster of the deleted file `A`.  After a write at position 1 its first byte is
the one that was written to `A`. -/
theorem reads_reveal_deleted :
    ∃ calls x reply y, Fresh oneFreeSession [2] ∧
      Run (Tracked.step 4294967296) (fun _ _ => True) ⟨oneFreeSession, Ledger.empty⟩ calls x ∧
      calls.map Prod.fst = [.open 0 (some (letterPath 0x41 (by decide))) 4, .write 0 (some fun _ => 0x53) 1, .close 0,
        .unlink (letterPath 0x41 (by decide)), .open 1 (some (letterPath 0x42 (by decide))) 4, .seek 1 1 0,
        .write 1 (some fun _ => 0x42) 1, .seek 1 0 0] ∧
      x.step 4294967296 (.read 1 (some fun _ => 0) 2) = some (reply, y) ∧ reply.status = 2 ∧
      reply.buffer.map (fun bytes => bytes 0) = some 0x53 ∧
      ¬ OwnBytes x.ledger 1 (x.session.machine.file 1) (y.session.machine.file 1) (fun _ => 0) reply := by
  obtain ⟨calls, x, run, inputs, test⟩ := Run.exists_of_replay_inputs (Tracked.step 4294967296) (fun _ _ => True)
    ⟨oneFreeSession, Ledger.empty⟩ [.open 0 (some (letterPath 0x41 (by decide))) 4, .write 0 (some fun _ => 0x53) 1,
      .close 0, .unlink (letterPath 0x41 (by decide)), .open 1 (some (letterPath 0x42 (by decide))) 4, .seek 1 1 0,
      .write 1 (some fun _ => 0x42) 1, .seek 1 0 0]
    (fun _ x => (x.step 4294967296 (.read 1 (some fun _ => 0) 2)).any (fun result =>
      result.1.status = 2 ∧ result.1.buffer.map (fun bytes => bytes 0) = some 0x53 ∧
      x.ledger.fileOf 1 = some 1 ∧ (x.session.machine.file 1).position = 0 ∧
      (result.2.session.machine.file 1).position = 2 ∧ ¬ x.ledger.Stored 1 0 0x53) = true)
    (by decide +kernel)
  simp only [Option.any_eq_true, decide_eq_true_eq] at test
  obtain ⟨⟨reply, y⟩, done, status, byte, known, before, after, unwritten⟩ := test
  refine ⟨calls, x, reply, y, oneFreeSession_fresh, run, inputs, done, status, byte, fun own => ?_⟩
  obtain ⟨buffer', found, bytes⟩ := own 1 known
  rw [found, Option.map_some] at byte
  obtain byte := Option.some.inj byte
  have first := bytes 0
  rw [before, after, if_pos (by decide), byte] at first
  exact first.elim unwritten (by decide)

end QuantumKernel.Fat32
