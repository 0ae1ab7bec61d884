import QuantumKernel.Fat32.Consistency
import QuantumKernel.Fat32.Layout

/-! # Runs of a careful caller

A session starts on a mounted volume whose current directory is well formed, with no
handle open.  Along every run of a careful caller the session shows a consistent store,
and every further careful call returns.
-/

namespace QuantumKernel.Fat32

open ByteStore LinkedTable Transition

/-- A directory in order: the clusters `l` form a chain, after the first end mark there
are only end marks, and every live entry has no cluster or a chain of its own. -/
structure WellFormed (g : Fat32Fs) (cwd : UInt32) (v : Volume) (l : List UInt32) : Prop where
  chain : FatChain g v cwd l
  ends : v.EndMarked (g.dirSlots l)
  entry : ∀ σ ∈ g.dirSlots l, (v.dirent σ).IsLive → (v.dirent σ).firstCluster = 0 ∨
    ∃ m, FatChain g v (v.dirent σ).firstCluster m ∧ l.Disjoint m
  apart : ∀ σ ∈ g.dirSlots l, ∀ τ ∈ g.dirSlots l, (v.dirent σ).IsLive → (v.dirent τ).IsLive →
    σ ≠ τ → ∀ m m', FatChain g v (v.dirent σ).firstCluster m →
      FatChain g v (v.dirent τ).firstCluster m' → m.Disjoint m'

/-- The volume that the drive of a mounted driver holds. -/
def Fat32State.volume (s : Fat32State) : Volume := Volume.of s.gFs s.ata.sector

/-- A mounted driver on a drive without errors. -/
structure Mounted (s : Fat32State) : Prop where
  geometry : Geometry s.gFs
  drive : ∀ n, s.ata.outcome n = .ok

/-- A mounted volume with a well-formed current directory and no open handle. -/
structure Fresh (t : Session) (l : List UInt32) : Prop where
  mounted : Mounted t.machine.fs
  directory : WellFormed t.machine.fs.gFs t.machine.fs.gCurrentDirCluster t.machine.fs.volume l
  closed : ∀ k, (t.machine.file k).isOpen = false

/-- The calls that a careful caller may make in a session. -/
def Careful (t : Session) (call : FsCall) : Prop := Disciplined t.machine.file t.opened call

variable {g : Fat32Fs} {cwd : UInt32} {v : Volume} {l : List UInt32} {A B : FileStore}
  {t t' : Session} {fuel : Nat} {calls : List (FsCall × Reply)}

/-- Every entry of `E` has no cluster, or a chain of its own outside the clusters `l`. -/
structure OwnChains (g : Fat32Fs) (v : Volume) (l : List UInt32) (E : Set Slot) : Prop where
  entry : ∀ σ ∈ E, (v.dirent σ).firstCluster = 0 ∨
    ∃ m, FatChain g v (v.dirent σ).firstCluster m ∧ l.Disjoint m
  apart : ∀ σ ∈ E, ∀ τ ∈ E, σ ≠ τ → ∀ m m', FatChain g v (v.dirent σ).firstCluster m →
    FatChain g v (v.dirent τ).firstCluster m' → m.Disjoint m'

/-- The live entries of a directory. -/
def Volume.liveEntries (g : Fat32Fs) (v : Volume) (l : List UInt32) : Set Slot :=
  {σ | σ ∈ g.dirSlots l ∧ (v.dirent σ).IsLive}

theorem WellFormed.ownChains (wf : WellFormed g cwd v l) : OwnChains g v l (v.liveEntries g l) :=
  ⟨fun σ live => wf.entry σ live.1 live.2,
    fun σ liveσ τ liveτ => wf.apart σ liveσ.1 τ liveτ.1 liveσ.2 liveτ.2⟩

/-- The first clusters in use: that of the directory, and those of the entries. -/
def headsOf (cwd : UInt32) (v : Volume) (E : Set Slot) : Set UInt32 :=
  insert cwd {c | c ≠ 0 ∧ ∃ σ ∈ E, (v.dirent σ).firstCluster = c}

/-- The slot whose entry names a chain. -/
noncomputable def ownOf (v : Volume) (E : Set Slot) (c : UInt32) : Option Slot :=
  haveI := Classical.propDecidable (∃ σ ∈ E, (v.dirent σ).firstCluster = c)
  if owner : ∃ σ ∈ E, (v.dirent σ).firstCluster = c then some owner.choose else none

/-- The store of a directory, when the entries in use are those of `E`. -/
noncomputable def storeOf (cwd : UInt32) (v : Volume) (l : List UInt32) (E : Set Slot)
    (file : Nat → Fat32File) (opened : Nat → ShortName) (dirs : Set UInt32) : FileStore where
  volume := v
  directory := l
  file := file
  opened := opened
  heads := headsOf cwd v E
  own := ownOf v E
  dirs := dirs

variable {E : Set Slot} {σ : Slot} {c : UInt32}

/-- The owner of a chain is an entry that names it. -/
theorem ownOf_some (owner : ownOf v E c = some σ) : σ ∈ E ∧ (v.dirent σ).firstCluster = c := by
  rw [ownOf] at owner
  split at owner
  · rename_i found
    cases owner
    exact found.choose_spec
  · cases owner

theorem OwnChains.ownOf_eq (own : OwnChains g v l E) (member : σ ∈ E)
    (nonzero : (v.dirent σ).firstCluster ≠ 0) : ownOf v E (v.dirent σ).firstCluster = some σ := by
  have owner : ∃ τ ∈ E, (v.dirent τ).firstCluster = (v.dirent σ).firstCluster := ⟨σ, member, rfl⟩
  obtain ⟨memberτ, same⟩ := owner.choose_spec
  rw [ownOf, dif_pos owner]
  generalize owner.choose = τ at memberτ same ⊢
  by_contra different
  have ne : τ ≠ σ := fun equal => different (congrArg some equal)
  obtain ⟨m, chain, -⟩ := (own.entry σ member).resolve_left nonzero
  have chainτ : FatChain g v (v.dirent τ).firstCluster m := by
    rw [same]
    exact chain
  -- two entries with the same first cluster would share their chains
  exact own.apart τ memberτ σ member ne m m chainτ chain chain.head_mem chain.head_mem

theorem OwnChains.not_cwd (own : OwnChains g v l E) (chain : FatChain g v cwd l) (member : σ ∈ E) :
    (v.dirent σ).firstCluster = 0 ∨ (v.dirent σ).firstCluster ≠ cwd := by
  refine (own.entry σ member).imp_right ?_
  rintro ⟨m, chainσ, disjoint⟩ same
  exact disjoint chain.head_mem (same ▸ chainσ.head_mem)

theorem OwnChains.separate (own : OwnChains g v l E) (geo : Geometry g) (chain : FatChain g v cwd l) :
    v.Separate g (headsOf cwd v E) := by
  refine ⟨?_, ?_⟩
  · rintro c (rfl | ⟨nonzero, σ, member, rfl⟩)
    · exact ⟨l, chain⟩
    · obtain ⟨m, chainσ, -⟩ := (own.entry σ member).resolve_left nonzero
      exact ⟨m, chainσ⟩
  · rintro c (rfl | ⟨nonzeroC, σ, memberσ, rfl⟩) d (rfl | ⟨nonzeroD, τ, memberτ, rfl⟩) ne m m'
      chainC chainD
    · exact absurd rfl ne
    · obtain ⟨m₁, chain₁, disjoint⟩ := (own.entry τ memberτ).resolve_left nonzeroD
      rw [Chain.unique geo.excl chainC chain, Chain.unique geo.excl chainD chain₁]
      exact disjoint
    · obtain ⟨m₁, chain₁, disjoint⟩ := (own.entry σ memberσ).resolve_left nonzeroC
      rw [Chain.unique geo.excl chainD chain, Chain.unique geo.excl chainC chain₁]
      exact disjoint.symm
    · refine own.apart σ memberσ τ memberτ ?_ m m' chainC chainD
      rintro rfl
      exact ne rfl

/-- The entries of `E` own their chains. -/
theorem OwnChains.owned (own : OwnChains g v l E) (chain : FatChain g v cwd l) (member : σ ∈ E)
    (file : Nat → Fat32File) (opened : Nat → ShortName) (dirs : Set UInt32) :
    (storeOf cwd v l E file opened dirs).Owned cwd (v.dirent σ).firstCluster σ := by
  by_cases zero : (v.dirent σ).firstCluster = 0
  · exact Or.inl zero
  · exact Or.inr ⟨Set.mem_insert_of_mem _ ⟨zero, σ, member, rfl⟩,
      (own.not_cwd chain member).resolve_left zero, own.ownOf_eq member zero⟩

/-- A directory whose live entries are among those of `E` shows a consistent store. -/
theorem OwnChains.consistent (own : OwnChains g v l E) (geo : Geometry g)
    (chain : FatChain g v cwd l) (ends : v.EndMarked (g.dirSlots l)) (covers : v.liveEntries g l ⊆ E)
    (file : Nat → Fat32File) (closed : ∀ k, (file k).isOpen = false) (opened : Nat → ShortName)
    (dirs : Set UInt32) : (storeOf cwd v l E file opened dirs).Consistent g cwd where
  geometry := geo
  separate := own.separate geo chain
  directory := Set.mem_insert _ _
  chain := chain
  ends := ends
  entries := fun _ member live => Or.inr (own.owned chain (covers ⟨member, live⟩) file opened dirs)
  handles := fun k isOpen => absurd isOpen (by simp [storeOf, closed k])
  exclusive := fun k _ isOpen => absurd isOpen (by simp [storeOf, closed k])

theorem WellFormed.consistent (wf : WellFormed g cwd v l) (geo : Geometry g)
    (file : Nat → Fat32File) (closed : ∀ k, (file k).isOpen = false) (opened : Nat → ShortName) :
    (storeOf cwd v l (v.liveEntries g l) file opened ∅).Consistent g cwd :=
  wf.ownChains.consistent geo wf.chain wf.ends subset_rfl file closed opened ∅

/-- A directory whose entries have no clusters is in order. -/
theorem WellFormed.of_unused (geo : Geometry g) (chain : FatChain g v cwd l)
    (ends : v.EndMarked (g.dirSlots l))
    (unused : ∀ σ ∈ g.dirSlots l, (v.dirent σ).IsLive → (v.dirent σ).firstCluster = 0) :
    WellFormed g cwd v l where
  chain := chain
  ends := ends
  entry := fun σ member live => Or.inl (unused σ member live)
  apart := by
    intro σ member _ _ live _ _ m _ chainσ
    rw [unused σ member live] at chainσ
    exact absurd (chainσ.cell_of_mem 0 chainσ.head_mem) geo.free_not_inRange

/-- A directory without entries is in order. -/
theorem WellFormed.blank (geo : Geometry g) (chain : FatChain g v cwd l)
    (blank : ∀ σ ∈ g.dirSlots l, (v.dirent σ).IsEnd) : WellFormed g cwd v l :=
  .of_unused geo chain (List.pairwise_of_forall_mem_list fun _ _ τ member _ => blank τ member)
    fun σ member live => absurd (blank σ member) live.1

theorem blankDrive_wellFormed :
    WellFormed smallFs 2 (mountedOn smallFs blankDrive).volume [2] :=
  WellFormed.blank smallFs_geometry (.last (by decide) (by decide +kernel)) (by decide +kernel)

theorem blankDrive_absent (name : ShortName) (σ : Slot) :
    ¬ (mountedOn smallFs blankDrive).volume.Names (smallFs.dirSlots [2]) name σ := by
  have blank : ∀ σ ∈ smallFs.dirSlots [2], ((mountedOn smallFs blankDrive).volume.dirent σ).IsEnd := by
    decide +kernel
  exact fun names => names.2.1.1 (blank σ names.1)

/-- A session on the blank volume. -/
def blankSession : Session := ⟨⟨mountedOn smallFs blankDrive, fun _ => Fat32File.zero⟩, fun _ _ => 0⟩

theorem blankSession_fresh : Fresh blankSession [2] :=
  ⟨⟨smallFs_geometry, fun _ => rfl⟩, blankDrive_wellFormed, fun _ => rfl⟩

/-- The path of a single character. -/
def letterPath (c : UInt8) (nonzero : c ≠ 0) : CString := ⟨[c], by simpa using nonzero.symm⟩

/-! ## Runs -/

/-- The store of a fresh session. -/
noncomputable def Session.store (t : Session) (l : List UInt32) : FileStore :=
  storeOf t.machine.fs.gCurrentDirCluster t.machine.fs.volume l
    (t.machine.fs.volume.liveEntries t.machine.fs.gFs l) t.machine.file t.opened ∅

/-- A fresh session shows a consistent store. -/
theorem Fresh.shows (fresh : Fresh t l) :
    Shows t.machine.fs.gFs t.machine.fs.gCurrentDirCluster t (t.store l) ∧
      (t.store l).Consistent t.machine.fs.gFs t.machine.fs.gCurrentDirCluster :=
  ⟨⟨Stores.of_geometry fresh.mounted.geometry fresh.mounted.drive, rfl, rfl⟩,
    fresh.directory.consistent fresh.mounted.geometry _ fresh.closed t.opened⟩

/-- The session shows a consistent store. -/
def InOrder (g : Fat32Fs) (cwd : UInt32) (t : Session) (A : FileStore) : Prop :=
  Shows g cwd t A ∧ A.Consistent g cwd

/-- One careful call, as a step of the store. -/
theorem InOrder.step (order : InOrder g cwd t A) (enough : 4294967296 ≤ fuel) {call : FsCall}
    {r : Reply} (careful : Careful t call) (done : t.step fuel call = some (r, t')) :
    ∃ B, A.Next g cwd call r.status B ∧ InOrder g cwd t' B := by
  obtain ⟨shows_, consistent⟩ := order
  have disciplined : Disciplined A.file A.opened call := by
    rw [← shows_.file, ← shows_.opened]
    exact careful
  obtain ⟨r₁, t₁, B, run, next, shows₁⟩ := Session.step_next consistent shows_ enough call disciplined
  rw [done] at run
  cases run
  exact ⟨B, next, shows₁, next.consistent consistent disciplined⟩

/-- A careful call returns. -/
theorem InOrder.returns (order : InOrder g cwd t A) (enough : 4294967296 ≤ fuel) {call : FsCall}
    (careful : Careful t call) : ∃ r t', t.step fuel call = some (r, t') := by
  obtain ⟨shows_, consistent⟩ := order
  have disciplined : Disciplined A.file A.opened call := by
    rw [← shows_.file, ← shows_.opened]
    exact careful
  obtain ⟨r, t', B, run, -⟩ := Session.step_next consistent shows_ enough call disciplined
  exact ⟨r, t', run⟩

/-- A run of a careful caller is a trace of the store. -/
theorem InOrder.run (order : InOrder g cwd t A) (enough : 4294967296 ≤ fuel)
    (run : Run (Session.step fuel) Careful t calls t') :
    ∃ B, Trace (fun A call (r : Reply) B => A.Next g cwd call r.status B) A calls B ∧
      InOrder g cwd t' B :=
  run.simulate (InOrder g cwd) (fun _ _ _ _ _ order careful done => order.step enough careful done) order

end QuantumKernel.Fat32
