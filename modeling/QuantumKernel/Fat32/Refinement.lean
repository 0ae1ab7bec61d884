import QuantumKernel.Fat32.Ownership

/-! # The machine refines the file store

From a consistent store, every call of a careful caller returns, and what it does to the
drive and the handles is one of the outcomes listed by `FileStore.Next`.
-/

namespace QuantumKernel.Fat32

open ByteStore LinkedTable

/-- The session shows the store: its drive holds the volume, its handles are the same. -/
structure Shows (g : Fat32Fs) (cwd : UInt32) (t : Session) (A : FileStore) : Prop where
  stores : Stores g cwd A.volume t.machine.fs
  file : t.machine.file = A.file
  opened : t.opened = A.opened

variable {g : Fat32Fs} {cwd : UInt32} {A : FileStore} {t : Session} {fuel : Nat} {σ : Slot}
  {path : CString}

/-! ## What consistency says about a found entry -/

theorem FileStore.lookup_names (found : A.lookup g path = some σ) :
    A.volume.Names (A.slots g) (fat32ToShortName path) σ := Volume.lookup_some found

/-- A handle on the found slot was opened under the path's name. -/
theorem FileStore.Consistent.openUnder (consistent : A.Consistent g cwd)
    (found : A.lookup g path = some σ) {k : Nat} (opened : (A.file k).isOpen = true)
    (slot : (A.file k).slot = σ) : OpenUnder A.file A.opened (fat32ToShortName path) k := by
  refine ⟨opened, ?_⟩
  rw [← (consistent.handles k opened).name, slot]
  exact (FileStore.lookup_names found).2.2

/-- The found entry owns its chain, unless a handle is truncating it. -/
theorem FileStore.Consistent.owned_of_lookup (consistent : A.Consistent g cwd)
    (found : A.lookup g path = some σ)
    (noTrunc : ∀ k, OpenUnder A.file A.opened (fat32ToShortName path) k →
      hasFlag (A.file k).flags fat32OTrunc = false) :
    A.Owned cwd (A.dirent σ).firstCluster σ := by
  obtain ⟨member, live, -⟩ := FileStore.lookup_names found
  rcases consistent.entries σ member live with ⟨k, opened, slot, trunc⟩ | owned
  · rw [noTrunc k (consistent.openUnder found opened slot)] at trunc
    cases trunc
  · exact owned

theorem FileStore.Consistent.owned_chain (consistent : A.Consistent g cwd) {c : UInt32}
    (owned : A.Owned cwd c σ) : c = 0 ∨ ∃ m, FatChain g A.volume c m ∧ A.directory.Disjoint m := by
  rcases owned with zero | ⟨inHeads, notCwd, -⟩
  · exact Or.inl zero
  · obtain ⟨m, chain⟩ := consistent.separate.1 c inHeads
    exact Or.inr ⟨m, chain, consistent.separate.2 cwd consistent.directory c inHeads
      (Ne.symm notCwd) _ _ consistent.chain chain⟩

/-! ## The calls -/

theorem Shows.update (shows_ : Shows g cwd t A) {fs' : Fat32State} {v' : Volume} {h : Nat}
    {f : Fat32File} (stores : Stores g cwd v' fs') (opened : Nat → ShortName) (l' : List UInt32)
    (heads dirs : Set UInt32) (own : UInt32 → Option Slot) :
    Shows g cwd ⟨⟨fs', Function.update t.machine.file h f⟩, opened⟩
      ⟨v', l', Function.update A.file h f, opened, heads, own, dirs⟩ :=
  ⟨stores, by rw [shows_.file], rfl⟩

/-- The call returns, with an outcome of the store, and the new session shows the new store. -/
def Session.Advances (g : Fat32Fs) (cwd : UInt32) (fuel : Nat) (t : Session) (A : FileStore)
    (call : FsCall) : Prop :=
  ∃ r t' A', t.step fuel call = some (r, t') ∧ A.Next g cwd call r.status A' ∧ Shows g cwd t' A'

theorem Session.step_open_absent (consistent : A.Consistent g cwd) (shows_ : Shows g cwd t A)
    (enough : 4294967296 ≤ fuel) (h : Nat) (flags : UInt8) (absent : A.lookup g path = none) :
    t.Advances g cwd fuel A (.open h (some path) flags) := by
  obtain ⟨⟨fs, file⟩, opened⟩ := t
  obtain ⟨stores, sameFile, sameOpened⟩ := id shows_
  simp only at sameFile sameOpened
  subst sameFile sameOpened
  by_cases creat : hasFlag flags fat32OCreat = true
  · rcases fat32Open_creates (A.file h) enough consistent.chain
      (Volume.lookup_none consistent.ends absent) creat
        stores with
      ⟨fs', run, stores', scarce⟩ |
      ⟨n, fs', v', l', σ, inRange, free, inserted, ⟨live, run, stores'⟩ | ⟨dead, run, stores'⟩⟩
    · refine ⟨⟨-1, none⟩, _, _, ?_, .openFails h path flags absent fun _ => scarce,
        shows_.update stores' _ _ _ _ _⟩
      simp only [Session.step, Machine.step, run, Option.bind_eq_bind, Option.bind_some]
      rfl
    · refine ⟨⟨0, none⟩, _, _, ?_, .openCreates h path flags n v' l' σ absent creat inRange free
        inserted live, shows_.update stores' _ _ _ _ _⟩
      simp only [Session.step, Machine.step, run, Option.bind_eq_bind, Option.bind_some]
      rfl
    · refine ⟨⟨-1, none⟩, _, _, ?_, .openLosesEntry h path flags n v' l' σ absent inRange free
        inserted dead, shows_.update stores' _ _ _ _ _⟩
      simp only [Session.step, Machine.step, run, Option.bind_eq_bind, Option.bind_some]
      rfl
  · obtain ⟨fs', run, stores'⟩ := fat32Open_missing (A.file h) enough consistent.chain
      absent (Bool.eq_false_iff.mpr creat) stores
    refine ⟨⟨-1, none⟩, _, _, ?_, .openFails h path flags absent fun on => absurd on creat,
      shows_.update stores' _ _ _ _ _⟩
    simp only [Session.step, Machine.step, run, Option.bind_eq_bind, Option.bind_some]
    rfl

theorem Session.step_open_present (consistent : A.Consistent g cwd) (shows_ : Shows g cwd t A)
    (enough : 4294967296 ≤ fuel) (h : Nat) (flags : UInt8) (found : A.lookup g path = some σ)
    (owned : A.Owned cwd (A.dirent σ).firstCluster σ) :
    t.Advances g cwd fuel A (.open h (some path) flags) := by
  obtain ⟨⟨fs, file⟩, opened⟩ := t
  obtain ⟨stores, sameFile, sameOpened⟩ := id shows_
  simp only at sameFile sameOpened
  subst sameFile sameOpened
  have plain (keeps : hasFlag flags fat32OTrunc = false ∨ (A.dirent σ).firstCluster = 0) :
      Session.Advances g cwd fuel ⟨⟨fs, A.file⟩, A.opened⟩ A (.open h (some path) flags) := by
    obtain ⟨fs', run, stores'⟩ := fat32Open_found (A.file h) enough consistent.chain found
      keeps stores
    refine ⟨⟨0, none⟩, _, _, ?_, .openFound h path flags σ found keeps,
      shows_.update stores' _ _ _ _ _⟩
    simp only [Session.step, Machine.step, run, Option.bind_eq_bind, Option.bind_some]
    rfl
  by_cases trunc : hasFlag flags fat32OTrunc = true
  · rcases consistent.owned_chain owned with zero | ⟨m, chain, -⟩
    · exact plain (Or.inr zero)
    · obtain ⟨fs', run, stores'⟩ := fat32Open_truncates (A.file h) enough consistent.chain
        found trunc chain stores
      refine ⟨⟨0, none⟩, _, _, ?_, .openTruncates h path flags σ m found trunc chain,
        shows_.update stores' _ _ _ _ _⟩
      simp only [Session.step, Machine.step, run, Option.bind_eq_bind, Option.bind_some]
      rfl
  · exact plain (Or.inl (Bool.eq_false_iff.mpr trunc))

theorem Session.step_read (shows_ : Shows g cwd t A) (enough : 4294967296 ≤ fuel) (h : Nat)
    (buffer : Option Bytes) (size : UInt32) : t.Advances g cwd fuel A (.read h buffer size) := by
  obtain ⟨⟨fs, file⟩, opened⟩ := t
  obtain ⟨stores, sameFile, sameOpened⟩ := id shows_
  simp only at sameFile sameOpened
  subst sameFile sameOpened
  obtain ⟨status, buffer', current, position, fs', run, stores'⟩ :=
    fat32Read_frame (A.file h) enough buffer size stores
  refine ⟨⟨status, buffer'⟩, _, _, ?_, .read h buffer size status current position,
    shows_.update stores' _ _ _ _ _⟩
  simp only [Session.step, Machine.step, run, Option.bind_eq_bind, Option.bind_some]
  rfl

theorem Session.step_seek (shows_ : Shows g cwd t A) (h : Nat) (offset : Int32) (whence : UInt8) :
    t.Advances g cwd fuel A (.seek h offset whence) := by
  obtain ⟨⟨fs, file⟩, opened⟩ := t
  obtain ⟨stores, sameFile, sameOpened⟩ := id shows_
  simp only at sameFile sameOpened
  subst sameFile sameOpened
  exact ⟨⟨(fat32Seek (A.file h) offset whence).1, none⟩, _, _, rfl, .seek h offset whence,
    shows_.update stores _ _ _ _ _⟩

theorem Session.step_write (consistent : A.Consistent g cwd) (shows_ : Shows g cwd t A)
    (enough : 4294967296 ≤ fuel) (h : Nat) (data : Option Bytes) (size : UInt32) :
    t.Advances g cwd fuel A (.write h data size) := by
  obtain ⟨⟨fs, file⟩, opened⟩ := t
  obtain ⟨stores, sameFile, sameOpened⟩ := id shows_
  simp only at sameFile sameOpened
  subst sameFile sameOpened
  -- a write that returns an error leaves the handle as it is
  have refused {fs' : Fat32State} (stores' : Stores g cwd A.volume fs')
      (reason : data = none ∨ (A.file h).isOpen = false ∨ A.volume.Full g)
      (run : fat32Write fuel fs (A.file h) data size = some (-1, A.file h, fs')) :
      Session.Advances g cwd fuel ⟨⟨fs, A.file⟩, A.opened⟩ A (.write h data size) := by
    refine ⟨⟨-1, none⟩, ⟨⟨fs', A.file⟩, A.opened⟩, A, ?_, .writeFails h data size reason,
      ⟨stores', rfl, rfl⟩⟩
    simp only [Session.step, Machine.step, run, Option.bind_eq_bind, Option.bind_some,
      Function.update_eq_self]
    rfl
  cases data with
  | none => exact refused stores (Or.inl rfl) rfl
  | some data =>
    by_cases isOpen : (A.file h).isOpen = true
    · have owned := (consistent.handles h isOpen).owned
      -- the file may be empty, and then has no chain
      have written {l : List UInt32}
          (first : (A.file h).firstCluster = 0 ∧ l = [] ∨
            FatChain g A.volume (A.file h).firstCluster l) :
          Session.Advances g cwd fuel ⟨⟨fs, A.file⟩, A.opened⟩ A (.write h (some data) size) := by
        rcases fat32Write_spec enough isOpen first data size stores with
          ⟨fs', run, stores', -, full⟩ |
          ⟨n, a, file', fs', v', l', run, few, stores', isFirst, inRange, was, advanced, wrote, extent, -⟩
        · exact refused stores' (Or.inr (Or.inr full)) run
        · have source : (A.file h).firstCluster = 0 ∧ l = [] ∨
              (A.file h).firstCluster = a ∧ FatChain g A.volume a l := by
            rcases first with empty | chain
            · exact Or.inl empty
            · have nonzero := (chain.cell_of_mem _ chain.head_mem).ne_zero
              have same := was.resolve_left nonzero
              exact Or.inr ⟨same, same ▸ chain⟩
          refine ⟨⟨(UInt32.ofNat n).toInt32, none⟩, _, _, ?_, .wrote h data size a n l l' v' file'
            isOpen source inRange few isFirst advanced wrote fun early => (extent.stuck early).2,
            shows_.update stores' _ _ _ _ _⟩
          simp only [Session.step, Machine.step, run, Option.bind_eq_bind, Option.bind_some]
          rfl
      rcases consistent.owned_chain owned with zero | ⟨m, chain, -⟩
      · exact written (Or.inl ⟨zero, rfl⟩)
      · exact written (Or.inr chain)
    · refine refused stores (Or.inr (Or.inl (Bool.eq_false_iff.mpr isOpen))) ?_
      rw [fat32Write, if_pos isOpen]

theorem Session.step_close (consistent : A.Consistent g cwd) (shows_ : Shows g cwd t A) (h : Nat) :
    t.Advances g cwd fuel A (.close h) := by
  obtain ⟨⟨fs, file⟩, opened⟩ := t
  obtain ⟨stores, sameFile, sameOpened⟩ := id shows_
  simp only at sameFile sameOpened
  subst sameFile sameOpened
  cases isOpen : (A.file h).isOpen with
  | false =>
    refine ⟨⟨-1, none⟩, ⟨⟨fs, A.file⟩, A.opened⟩, A, ?_, .closeFails h isOpen, ⟨stores, rfl, rfl⟩⟩
    simp only [Session.step, Machine.step, fat32Close_closed isOpen, Option.bind_eq_bind,
      Option.bind_some, Function.update_eq_self]
    rfl
  | true =>
    have member := (consistent.handles h isOpen).member
    obtain ⟨fs', run, stores'⟩ := fat32Close_spec consistent.chain isOpen member stores
    refine ⟨⟨0, none⟩, _, _, ?_, .closed h isOpen member, shows_.update stores' _ _ _ _ _⟩
    simp only [Session.step, Machine.step, run, Option.bind_eq_bind, Option.bind_some]
    rfl

theorem Session.step_unlink (consistent : A.Consistent g cwd) (shows_ : Shows g cwd t A)
    (enough : 4294967296 ≤ fuel) (unused : ∀ k, ¬ OpenUnder A.file A.opened (fat32ToShortName path) k) :
    t.Advances g cwd fuel A (.unlink path) := by
  obtain ⟨⟨fs, file⟩, opened⟩ := t
  obtain ⟨stores, sameFile, sameOpened⟩ := id shows_
  simp only at sameFile sameOpened
  subst sameFile sameOpened
  cases found : A.lookup g path with
  | none =>
    obtain ⟨fs', run, stores'⟩ := fat32Unlink_missing enough consistent.chain found stores
    refine ⟨⟨-1, none⟩, ⟨⟨fs', A.file⟩, A.opened⟩, A, ?_, .unlinkFails path found,
      ⟨stores', rfl, rfl⟩⟩
    simp only [Session.step, Machine.step, run, Option.bind_eq_bind, Option.bind_some]
    rfl
  | some σ =>
    have owned := consistent.owned_of_lookup found fun k under => absurd under (unused k)
    rcases consistent.owned_chain owned with zero | ⟨m, chain, apart⟩
    · obtain ⟨fs', run, stores'⟩ := fat32Unlink_empty enough consistent.chain found zero stores
      refine ⟨⟨0, none⟩, ⟨⟨fs', A.file⟩, A.opened⟩, _, ?_, .unlinkedEmpty path σ found zero,
        ⟨stores', rfl, rfl⟩⟩
      simp only [Session.step, Machine.step, run, Option.bind_eq_bind, Option.bind_some]
      rfl
    · obtain ⟨fs', run, stores'⟩ := fat32Unlink_chain enough consistent.chain found chain apart stores
      refine ⟨⟨0, none⟩, ⟨⟨fs', A.file⟩, A.opened⟩, _, ?_, .unlinked path σ m found chain,
        ⟨stores', rfl, rfl⟩⟩
      simp only [Session.step, Machine.step, run, Option.bind_eq_bind, Option.bind_some]
      rfl

theorem Session.step_mkdir (consistent : A.Consistent g cwd) (shows_ : Shows g cwd t A)
    (enough : 4294967296 ≤ fuel) (path : CString) : t.Advances g cwd fuel A (.mkdir path) := by
  obtain ⟨⟨fs, file⟩, opened⟩ := t
  obtain ⟨stores, sameFile, sameOpened⟩ := id shows_
  simp only at sameFile sameOpened
  subst sameFile sameOpened
  rcases fat32Mkdir_spec path enough consistent.chain stores with
    ⟨fs', run, stores', scarce⟩ | ⟨n, fs', v', l', σ, inRange, free, inserted, run, stores'⟩
  · refine ⟨⟨-1, none⟩, ⟨⟨fs', A.file⟩, A.opened⟩, A, ?_, .mkdirFails path scarce, ⟨stores', rfl, rfl⟩⟩
    simp only [Session.step, Machine.step, run, Option.bind_eq_bind, Option.bind_some]
    rfl
  · refine ⟨⟨0, none⟩, ⟨⟨fs', A.file⟩, A.opened⟩, _, ?_, .mkdirMakes path n v' l' σ inRange free
      inserted, ⟨stores', rfl, rfl⟩⟩
    simp only [Session.step, Machine.step, run, Option.bind_eq_bind, Option.bind_some]
    rfl

/-- Every call of a careful caller returns with an outcome of the store. -/
theorem Session.step_next (consistent : A.Consistent g cwd) (shows_ : Shows g cwd t A)
    (enough : 4294967296 ≤ fuel) (call : FsCall) (careful : Disciplined A.file A.opened call) :
    t.Advances g cwd fuel A call := by
  cases call with
  | «open» h path flags =>
    cases path with
    | none =>
      refine ⟨⟨-1, none⟩, t, A, ?_, .openNull h flags, shows_⟩
      simp only [Session.step, Machine.step, fat32Open, Option.bind_eq_bind, Option.bind_some,
        Function.update_eq_self]
      rfl
    | some path =>
      cases found : A.lookup g path with
      | none => exact Session.step_open_absent consistent shows_ enough h flags found
      | some σ =>
        exact Session.step_open_present consistent shows_ enough h flags found
          (consistent.owned_of_lookup found fun k under => (careful.2 k under).2)
  | read h buffer size => exact Session.step_read shows_ enough h buffer size
  | write h data size => exact Session.step_write consistent shows_ enough h data size
  | seek h offset whence => exact Session.step_seek shows_ h offset whence
  | close h => exact Session.step_close consistent shows_ h
  | unlink path => exact Session.step_unlink consistent shows_ enough careful
  | mkdir path => exact Session.step_mkdir consistent shows_ enough path

end QuantumKernel.Fat32
