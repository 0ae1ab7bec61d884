import QuantumKernel.Fat32.ByteRefinement
import QuantumKernel.Library.WriteLog

/-! # Two handles on one file

Every handle has its own copy of the first cluster and of the size, and `fat32_close`
stores this copy in the directory entry, whatever the entry says by then.  The bytes
that were reported as written are all there in the end if no close finds an entry that
is ahead of its handle.
-/

namespace QuantumKernel.Fat32

open ByteStore LinkedTable Transition BlockStore WriteLog

/-- A session, and the writes that were reported to its callers. -/
structure Logged where
  session : Session
  writes : List (Write Nat)

/-- The number of bytes that a result of `fat32_write` reports; -1 reports none. -/
def reportedCount (status : Int32) : Nat := status.toInt.toNat

/-- The write that a call reports. -/
def reportedWrite (file : Nat → Fat32File) : FsCall → Int32 → List (Write Nat)
  | .write i (some data) _, status =>
    [⟨i, (file i).position.toNat, (List.range (reportedCount status)).map data⟩]
  | _, _ => []

def Logged.step (fuel : Nat) (x : Logged) (call : FsCall) : Option (Reply × Logged) := do
  let (reply, session) ← x.session.step fuel call
  some (reply, ⟨session, x.writes ++ reportedWrite x.session.machine.file call reply.status⟩)

def Logged.file (x : Logged) (i : Nat) : Fat32File := x.session.machine.file i

def Logged.volume (x : Logged) : Volume := x.session.machine.fs.volume

/-- The directory entry that closing a handle rewrites. -/
def Logged.entry (x : Logged) (i : Nat) : Fat32Dirent := x.volume.dirent (x.file i).slot

/-- The handle that is written to, moved or closed. -/
def FsCall.onHandle : FsCall → Option Nat
  | .write i _ _ | .seek i _ _ | .close i => some i
  | _ => none

/-- The entry is not ahead of the handle: it has no bytes past the size in the handle, and
if it has any bytes, they are in the handle's clusters. -/
structure NotAhead (entry : Fat32Dirent) (file : Fat32File) : Prop where
  size : entry.fileSize ≤ file.fileSize
  cluster : entry.fileSize = 0 ∨ entry.firstCluster = file.firstCluster

/-- The calls after which nothing is lost: a write ends before position `2^32` and can
report its count, and a close finds an entry that is not ahead. -/
def Sparing (x : Logged) : FsCall → Prop
  | .write i _ size => size.toNat < 2147483648 ∧
      (x.file i).position.toNat + size.toNat < 4294967296
  | .close i => (x.file i).isOpen = true → NotAhead (x.entry i) (x.file i)
  | _ => True

instance (entry : Fat32Dirent) (file : Fat32File) : Decidable (NotAhead entry file) :=
  decidable_of_iff (entry.fileSize ≤ file.fileSize ∧
    (entry.fileSize = 0 ∨ entry.firstCluster = file.firstCluster))
    ⟨fun both => ⟨both.1, both.2⟩, fun notAhead => ⟨notAhead.size, notAhead.cluster⟩⟩

instance (x : Logged) : (call : FsCall) → Decidable (Sparing x call)
  | .write _ _ _ => inferInstanceAs (Decidable (_ ∧ _))
  | .close _ => inferInstanceAs (Decidable (_ → _))
  | .open _ _ _ | .read _ _ _ | .seek _ _ _ | .unlink _ | .mkdir _ => isTrue trivial

/-- The file in an entry has every byte that was reported as written, unless a later write
covered it. -/
def Volume.KeepsWrites (g : Fat32Fs) (v : Volume) (entry : Fat32Dirent) (log : List (Write Nat)) :
    Prop :=
  ∀ o b, latest log o = some b → o < entry.fileSize.toNat ∧
    ∃ m, FatChain g v entry.firstCluster m ∧ o < m.length * g.bytesPerCluster.toNat ∧
      v.byteAt g m o = b

variable {g : Fat32Fs} {cwd : UInt32} {v v' : Volume} {A B : FileStore} {t t₁ t₂ : Session}
  {x x' : Logged} {σ : Slot} {H : Set Nat} {log rest : List (Write Nat)} {w : Write Nat} {call : FsCall}
  {r : Int32} {a c size : UInt32} {l l' m : List UInt32} {h i k n start : Nat} {f : Fat32File}
  {source data : Bytes} {path : CString} {flags : UInt8} {name : ShortName} {fuel : Nat}

/-! ## The invariant -/

/-- The writes that went to the clusters from `c` on. -/
def FileStore.writesTo (A : FileStore) (c : UInt32) (log : List (Write Nat)) : List (Write Nat) :=
  log.filter fun w => (A.file w.writer).firstCluster = c

/-- What holds while the handles `H` are used on the file in the slot `σ`: each chain has
the bytes that were written to it, and the entry is not behind any closed handle. -/
structure FileStore.Sharing (g : Fat32Fs) (cwd : UInt32) (A : FileStore) (name : ShortName) (σ : Slot)
    (H : Set Nat) (log : List (Write Nat)) : Prop where
  names : A.volume.Names (A.slots g) name σ
  slot : ∀ i ∈ H, (A.file i).slot = σ
  owned : ∀ i ∈ H, A.Owned cwd (A.file i).firstCluster σ
  writer : ∀ w ∈ log, w.bytes ≠ [] → w.writer ∈ H ∧ (A.file w.writer).firstCluster ≠ 0
  covered : ∀ w ∈ log, w.bytes ≠ [] →
    w.offset + w.bytes.length ≤ (A.file w.writer).fileSize.toNat
  contents : ∀ c m, FatChain g A.volume c m →
    Carries (A.writesTo c log) (A.volume.byteAt g m) (m.length * g.bytesPerCluster.toNat)
  recorded : ∀ i ∈ H, (A.file i).isOpen = false →
    (A.file i).fileSize ≤ (A.dirent σ).fileSize ∧
      ((A.file i).fileSize = 0 ∨ (A.file i).firstCluster = (A.dirent σ).firstCluster)

/-- A chain that something was written to is the chain of one of the handles. -/
theorem FileStore.Sharing.chain_owned (sharing : A.Sharing g cwd name σ H log) {o : Nat} {b : UInt8}
    (found : latest (A.writesTo c log) o = some b) : c ∈ A.heads ∧ c ≠ cwd ∧ A.own c = some σ := by
  obtain ⟨w, member, covers⟩ := latest_mem found
  obtain ⟨inLog, same⟩ := List.mem_filter.mp member
  obtain ⟨inH, nonzero⟩ := sharing.writer w inLog (Write.bytes_ne_nil covers)
  rw [← of_decide_eq_true same]
  exact (sharing.owned _ inH).resolve_left nonzero

/-- **Nothing is lost.**  Once all handles are closed the file has what was written. -/
theorem FileStore.Sharing.keepsWrites (sharing : A.Sharing g cwd name σ H log)
    (consistent : A.Consistent g cwd) (closed : ∀ i ∈ H, (A.file i).isOpen = false) :
    A.volume.KeepsWrites g (A.dirent σ) log := by
  -- every handle that wrote a byte has the clusters in the entry
  have same : ∀ w ∈ log, w.bytes ≠ [] →
      (A.file w.writer).fileSize ≤ (A.dirent σ).fileSize ∧
        (A.file w.writer).firstCluster = (A.dirent σ).firstCluster := by
    intro w member nonempty
    obtain ⟨inH, -⟩ := sharing.writer w member nonempty
    obtain ⟨size, cluster⟩ := sharing.recorded _ inH (closed _ inH)
    refine ⟨size, cluster.resolve_left fun zero => ?_⟩
    have covered := sharing.covered w member nonempty
    have positive := List.length_pos_iff.mpr nonempty
    rw [zero] at covered
    simp only [UInt32.toNat_zero] at covered
    omega
  intro o b found
  have here : latest (A.writesTo (A.dirent σ).firstCluster log) o = some b := by
    rw [← found]
    exact latest_filter_true (fun w member nonempty => decide_eq_true (same w member nonempty).2) o
  obtain ⟨w, member, covers⟩ := latest_mem found
  have nonempty := Write.bytes_ne_nil covers
  have bounds := Write.byteAt_bounds covers
  have covered := sharing.covered w member nonempty
  have size := UInt32.le_iff_toNat_le.mp (same w member nonempty).1
  obtain ⟨inHeads, -⟩ := sharing.chain_owned here
  obtain ⟨m, chain⟩ := consistent.separate.1 _ inHeads
  exact ⟨by omega, m, chain, sharing.contents _ m chain o b here⟩

/-! ## One call -/

/-- What the invariant says about a handle, when one handle is replaced. -/
theorem update_fields (file : Nat → Fat32File) (slot : f.slot = (file i).slot)
    (first : f.firstCluster = (file i).firstCluster) (size : f.fileSize = (file i).fileSize) (j : Nat) :
    (Function.update file i f j).slot = (file j).slot ∧
      (Function.update file i f j).firstCluster = (file j).firstCluster ∧
      (Function.update file i f j).fileSize = (file j).fileSize := by
  by_cases here : j = i
  · subst here
    rw [Function.update_self]
    exact ⟨slot, first, size⟩
  · rw [Function.update_of_ne here]
    exact ⟨rfl, rfl, rfl⟩

/-- A handle of the file moved, or a write of no bytes was reported. -/
theorem FileStore.Sharing.moved (sharing : A.Sharing g cwd name σ H log) (slot : f.slot = (A.file i).slot)
    (first : f.firstCluster = (A.file i).firstCluster) (size : f.fileSize = (A.file i).fileSize)
    (isOpen : f.isOpen = (A.file i).isOpen) (empty : ∀ w ∈ rest, w.bytes = []) :
    ({ A with file := Function.update A.file i f } : FileStore).Sharing g cwd name σ H (log ++ rest) := by
  have agree := update_fields A.file slot first size
  have old {w : Write Nat} (member : w ∈ log ++ rest) (nonempty : w.bytes ≠ []) : w ∈ log :=
    (List.mem_append.mp member).resolve_right fun new => nonempty (empty w new)
  refine ⟨sharing.names, fun j inH => ?_, fun j inH => ?_, fun w member nonempty => ?_,
    fun w member nonempty => ?_, fun c m chain => ?_, fun j inH closed => ?_⟩
  · exact (agree j).1.trans (sharing.slot j inH)
  · simp only [agree]
    exact sharing.owned j inH
  · simp only [agree]
    exact sharing.writer w (old member nonempty) nonempty
  · simp only [agree]
    exact sharing.covered w (old member nonempty) nonempty
  · refine (sharing.contents c m chain).congr fun o => ?_
    simp only [FileStore.writesTo, agree, List.filter_append, latest_append]
    have nothing : latest (rest.filter fun w => (A.file w.writer).firstCluster = c) o = none := by
      by_contra some
      obtain ⟨b, found⟩ := Option.ne_none_iff_exists'.mp some
      obtain ⟨w, member, covers⟩ := latest_mem found
      exact Write.bytes_ne_nil covers (empty w (List.mem_filter.mp member).1)
    rw [nothing, Option.none_or]
  · have wasClosed : (A.file j).isOpen = false := by
      by_cases here : j = i
      · subst here
        simp only [Function.update_self] at closed
        exact isOpen.symm.trans closed
      · simpa only [Function.update_of_ne here] using closed
    simp only [agree]
    exact sharing.recorded j inH wasClosed

/-- A handle is closed on an entry that is not ahead of it. -/
theorem FileStore.Sharing.closed (sharing : A.Sharing g cwd name σ H log) (consistent : A.Consistent g cwd)
    (inH : i ∈ H) (notAhead : NotAhead (A.dirent σ) (A.file i)) :
    ({ A with
      volume := A.volume.closeAt (A.file i).slot (A.file i)
      file := Function.update A.file i { A.file i with isOpen := false } } : FileStore).Sharing g cwd
      name σ H log := by
  rw [sharing.slot i inH]
  have edited := closeAt_edited (v := A.volume) consistent.geometry sharing.names.1 (A.file i)
  have agree := update_fields A.file (i := i) (f := { A.file i with isOpen := false }) rfl rfl rfl
  refine ⟨?_, fun j inH => ?_, fun j inH => ?_, fun w member nonempty => ?_,
    fun w member nonempty => ?_, fun c m chain o b found => ?_, fun j inH closed => ?_⟩
  · exact (edited.names_iff rfl Iff.rfl).mpr sharing.names
  · exact (agree j).1.trans (sharing.slot j inH)
  · simp only [agree]
    exact sharing.owned j inH
  · simp only [agree]
    exact sharing.writer w member nonempty
  · simp only [agree]
    exact sharing.covered w member nonempty
  · simp only [FileStore.writesTo, agree] at found
    have chainA : FatChain g A.volume c m := chain.congr fun x _ => (congrFun edited.fat x).symm
    obtain ⟨inside, holds⟩ := sharing.contents c m chainA o b found
    obtain ⟨inHeads, notCwd, -⟩ := sharing.chain_owned found
    have apart := consistent.apart inHeads notCwd chainA
    -- the entry lies in the directory, outside of the chain
    refine ⟨inside, Eq.trans (byteAt_congr fun x found => ?_) holds⟩
    exact (edited.sameAt sharing.names.1 fun inDir => apart inDir (List.mem_of_getElem? found)).2
  · simp only [FileStore.dirent, edited.holds, agree, closedEntry_firstCluster]
    change (A.file j).fileSize ≤ (A.file i).fileSize ∧ _
    by_cases here : j = i
    · subst here
      exact ⟨UInt32.le_refl _, Or.inr rfl⟩
    · simp only [Function.update_of_ne here] at closed
      obtain ⟨size, cluster⟩ := sharing.recorded j inH closed
      refine ⟨UInt32.le_trans size notAhead.size, ?_⟩
      rcases notAhead.cluster with empty | same
      · rw [empty] at size
        exact Or.inl (UInt32.le_zero_iff.mp size)
      · exact cluster.imp_right fun sameJ => sameJ.trans same

/-- The log of a chain after a write to it. -/
theorem WroteRange.carries (wrote : WroteRange g v v' a l l' start data n)
    (carries : Carries log (v.byteAt g l) (l.length * g.bytesPerCluster.toNat)) :
    Carries (log ++ [⟨i, start, (List.range n).map data⟩]) (v'.byteAt g l')
      (l'.length * g.bytesPerCluster.toNat) := by
  have longer := Nat.mul_le_mul_right g.bytesPerCluster.toNat wrote.grown.extends_.length_le
  have covers (k : Nat) : (⟨i, start, (List.range n).map data⟩ : Write Nat).byteAt k =
      if start ≤ k ∧ k < start + n then some (data (k - start)) else none := by
    by_cases low : start ≤ k
    · by_cases high : k < start + n
      · rw [if_pos ⟨low, high⟩, Write.byteAt, if_pos low]
        simp [show k - start < n by omega]
      · rw [if_neg (fun both => high both.2), Write.byteAt, if_pos low]
        exact List.getElem?_eq_none (by simp; omega)
    · rw [if_neg (fun both => low both.1), Write.byteAt, if_neg low]
  refine carries.append longer (fun nonempty => ?_) (fun k b stored => ?_) fun k inside missed => ?_
  · have some : n ≠ 0 := by
      rintro rfl
      exact nonempty rfl
    simpa using wrote.room some
  · rw [covers, Option.ite_none_right_eq_some] at stored
    obtain ⟨range, same⟩ := stored
    have room := wrote.room (by omega)
    rw [wrote.bytes k (by omega), if_pos range]
    exact Option.some.inj same
  · have out : ¬ (start ≤ k ∧ k < start + n) := by
      intro range
      rw [covers, if_pos range] at missed
      cases missed
    rw [wrote.bytes k (by omega), if_neg out, Volume.byteAt,
      byteAt_prefix wrote.grown.extends_ inside, ← Volume.byteAt]

/-- The chain that a handle writes to is new, or it is the chain of the handle; no other
chain in use shares a cluster with it. -/
theorem FileStore.Sharing.written_chain (sharing : A.Sharing g cwd name σ H log)
    (consistent : A.Consistent g cwd) (inH : i ∈ H)
    (source : (A.file i).firstCluster = 0 ∧ l = [] ∨
      (A.file i).firstCluster = a ∧ FatChain g A.volume a l)
    (grown : Grown g A.volume v' a l l') :
    (a ∉ A.heads ∧ l = [] ∨ A.own a = some σ ∧ FatChain g A.volume a l) ∧ a ≠ cwd ∧
      ∀ c ∈ A.heads, c ≠ a → ∀ m, FatChain g A.volume c m → m.Disjoint l := by
  obtain ⟨origin, rest⟩ := consistent.written_chain (sharing.owned i inH) source grown
  exact ⟨origin.imp_right And.right, rest⟩

/-- The handle that writes keeps its first cluster, once it has one. -/
theorem FileStore.Sharing.first_kept (sharing : A.Sharing g cwd name σ H log)
    (source : (A.file i).firstCluster = 0 ∨ (A.file i).firstCluster = a) (first : f.firstCluster = a)
    (member : w ∈ log) (nonempty : w.bytes ≠ []) :
    (Function.update A.file i f w.writer).firstCluster = (A.file w.writer).firstCluster := by
  by_cases here : w.writer = i
  · have written := (sharing.writer w member nonempty).2
    rw [here] at written ⊢
    rw [Function.update_self, first]
    exact (source.resolve_left written).symm
  · rw [Function.update_of_ne here]

/-- Every chain has what was written to it, after one more write. -/
theorem FileStore.Sharing.contents_wrote (sharing : A.Sharing g cwd name σ H log)
    (consistent : A.Consistent g cwd) (inH : i ∈ H)
    (source : (A.file i).firstCluster = 0 ∧ l = [] ∨
      (A.file i).firstCluster = a ∧ FatChain g A.volume a l)
    (first : f.firstCluster = a) (wrote : WroteRange g A.volume v' a l l' start data n)
    (chain : FatChain g v' c m) :
    Carries (List.filter (fun w => (Function.update A.file i f w.writer).firstCluster = c)
        (log ++ [⟨i, start, (List.range n).map data⟩]))
      (v'.byteAt g m) (m.length * g.bytesPerCluster.toNat) := by
  have geo := consistent.geometry
  obtain ⟨origin, -, apart⟩ := sharing.written_chain consistent inH source wrote.grown
  have same (c : UInt32) (o : Nat) :
      latest (log.filter fun w => (Function.update A.file i f w.writer).firstCluster = c) o =
        latest (A.writesTo c log) o :=
    latest_filter_congr (fun w member nonempty => by
      rw [sharing.first_kept (source.imp And.left And.left) first member nonempty]) o
  rw [List.filter_append, List.filter_singleton]
  by_cases here : c = a
  · subst here
    rw [Chain.unique geo.excl chain wrote.grown.chain]
    simp only [Function.update_self, first, decide_true, cond_true]
    refine wrote.carries ?_
    rcases origin with ⟨notHead, rfl⟩ | ⟨-, chainA⟩
    · intro o b found
      exact absurd (sharing.chain_owned (same c o ▸ found)).1 notHead
    · exact (sharing.contents c l chainA).congr (same c)
  · simp only [Function.update_self, first, Ne.symm here, decide_false, cond_false, List.append_nil]
    intro o b found
    rw [same c o] at found
    obtain ⟨inHeads, -⟩ := sharing.chain_owned found
    obtain ⟨m₀, chain₀⟩ := consistent.separate.1 c inHeads
    obtain ⟨chain', -, kept⟩ := wrote.grown.other_chain geo chain₀ (apart c inHeads here m₀ chain₀)
    obtain rfl := Chain.unique geo.excl chain chain'
    obtain ⟨inside, holds⟩ := sharing.contents c m chain₀ o b found
    exact ⟨inside, (byteAt_congr fun x found => kept x (List.mem_of_getElem? found)).trans holds⟩

/-- A handle of the file is written to. -/
theorem FileStore.Sharing.wrote (sharing : A.Sharing g cwd name σ H log)
    (consistent : A.Consistent g cwd) (inH : i ∈ H)
    (source : (A.file i).firstCluster = 0 ∧ l = [] ∨
      (A.file i).firstCluster = a ∧ FatChain g A.volume a l)
    (first : f.firstCluster = a) (advanced : Advanced { A.file i with firstCluster := a } f n)
    (noWrap : (A.file i).position.toNat + n < 4294967296)
    (wrote : WroteRange g A.volume v' a l l' (A.file i).position.toNat data n)
    (isOpen : (A.file i).isOpen = true) :
    ({ A with
      volume := v'
      file := Function.update A.file i f
      heads := insert a A.heads
      own := Function.update A.own a (some (A.file i).slot) } : FileStore).Sharing g cwd name σ H
      (log ++ [⟨i, (A.file i).position.toNat, (List.range n).map data⟩]) := by
  have slot : f.slot = σ := by
    rw [advanced.rest]
    exact sharing.slot i inH
  have stillOpen : f.isOpen = true := by
    rw [advanced.rest]
    exact isOpen
  have nonzero : a ≠ 0 := (wrote.grown.chain.cell_of_mem _ wrote.grown.chain.head_mem).ne_zero
  obtain ⟨origin, notCwd, apart⟩ := sharing.written_chain consistent inH source wrote.grown
  have first_of {w : Write Nat} (member : w ∈ log) (nonempty : w.bytes ≠ []) :=
    sharing.first_kept (source.imp And.left And.left) first member nonempty
  -- the directory is not part of the chain that was written to
  obtain ⟨-, -, kept⟩ := wrote.grown.other_chain consistent.geometry consistent.chain
    (apart cwd consistent.directory (Ne.symm notCwd) _ consistent.chain)
  have entry : v'.dirent σ = A.volume.dirent σ := Volume.dirent_congr kept σ sharing.names.1
  refine ⟨⟨sharing.names.1, ?_⟩, fun j inH => ?_, fun j inHj => ?_, fun w member nonempty => ?_,
    fun w member nonempty => ?_, fun c m chain => ?_, fun j inH closed => ?_⟩
  · simp only [entry]
    exact sharing.names.2
  · by_cases here : j = i
    · subst here
      simp only [Function.update_self, slot]
    · simp only [Function.update_of_ne here]
      exact sharing.slot j inH
  · by_cases here : j = i
    · subst here
      simp only [Function.update_self, first]
      refine Or.inr ⟨Set.mem_insert a _, notCwd, ?_⟩
      simp only [Function.update_self, sharing.slot j inH]
    · simp only [Function.update_of_ne here]
      exact (sharing.owned j inHj).recorded rfl (by rw [sharing.slot i inH])
        (origin.imp And.left And.left)
  · rcases List.mem_append.mp member with old | new
    · simp only [first_of old nonempty]
      exact sharing.writer w old nonempty
    · obtain rfl := List.mem_singleton.mp new
      simp only [Function.update_self, first]
      exact ⟨inH, nonzero⟩
  · have grows := UInt32.le_iff_toNat_le.mp advanced.grows
    rcases List.mem_append.mp member with old | new
    · have covered := sharing.covered w old nonempty
      by_cases here : w.writer = i
      · rw [here] at covered
        simp only [here, Function.update_self]
        exact le_trans covered grows
      · simp only [Function.update_of_ne here]
        exact covered
    · obtain rfl := List.mem_singleton.mp new
      have some : n ≠ 0 := by
        rintro rfl
        exact nonempty rfl
      have size := advanced.size noWrap
      rw [if_neg some] at size
      simp only [Function.update_self, List.length_map, List.length_range, size]
      exact le_max_right _ _
  · exact sharing.contents_wrote consistent inH source first wrote chain
  · have ne : j ≠ i := by
      rintro rfl
      simp only [Function.update_self, stillOpen] at closed
      cases closed
    simp only [Function.update_of_ne ne] at closed ⊢
    simp only [FileStore.dirent, entry]
    exact sharing.recorded j inH closed

/-- A seek changes at most the position. -/
theorem fat32Seek_moves (f : Fat32File) (offset : Int32) (whence : UInt8) :
    ∃ p, (fat32Seek f offset whence).2 = { f with position := p } := by
  rw [fat32Seek]
  split
  · exact ⟨f.position, rfl⟩
  · split
    · exact ⟨_, rfl⟩
    · split
      · exact ⟨_, rfl⟩
      · split
        · exact ⟨_, rfl⟩
        · exact ⟨f.position, rfl⟩

/-- **One call on one of the handles.** -/
theorem FileStore.Sharing.next (sharing : A.Sharing g cwd name σ H log) (consistent : A.Consistent g cwd)
    (inH : i ∈ H) (on : call.onHandle = some i)
    (small : ∀ data size, call = .write i data size → size.toNat < 2147483648 ∧
      (A.file i).position.toNat + size.toNat < 4294967296)
    (notAhead : call = .close i → (A.file i).isOpen = true → NotAhead (A.dirent σ) (A.file i))
    (next : A.Next g cwd call r B) :
    B.Sharing g cwd name σ H (log ++ reportedWrite A.file call r) := by
  -- a call that does nothing leaves at most an empty write
  have idle (empty : ∀ w ∈ reportedWrite A.file call r, w.bytes = []) :
      A.Sharing g cwd name σ H (log ++ reportedWrite A.file call r) := by
    have kept := sharing.moved (i := i) (f := A.file i) rfl rfl rfl rfl empty
    rwa [Function.update_eq_self] at kept
  cases next with
  | openNull | openFails | openFound | openTruncates | openCreates | openLosesEntry | read
    | unlinkFails | unlinkedEmpty | unlinked | mkdirFails | mkdirMakes => cases on
  | writeFails j data size =>
    refine idle fun w member => ?_
    cases data with
    | none => cases member
    | some data =>
      obtain rfl := List.mem_singleton.mp member
      rfl
  | wrote j data size a n l l' v' f isOpen source inRange few first advanced wrote =>
    obtain rfl := Option.some.inj on
    obtain ⟨report, noWrap⟩ := small (some data) size rfl
    have count : reportedCount (UInt32.ofNat n).toInt32 = n := by
      rw [reportedCount, toInt_count (by omega), Int.toNat_natCast]
    rw [reportedWrite, count]
    exact sharing.wrote consistent inH source first advanced (by omega) wrote isOpen
  | seek j offset whence =>
    obtain ⟨p, moves⟩ := fat32Seek_moves (A.file j) offset whence
    rw [moves]
    exact sharing.moved rfl rfl rfl rfl fun w member => absurd member List.not_mem_nil
  | closeFails j closed => exact idle fun w member => absurd member List.not_mem_nil
  | closed j isOpen member =>
    obtain rfl := Option.some.inj on
    have silent : reportedWrite A.file (.close j) 0 = [] := rfl
    rw [silent, List.append_nil]
    exact sharing.closed consistent inH (notAhead rfl isOpen)

/-! ## Runs -/

/-- The session shows a store whose handles `H` share the file in the slot `σ`. -/
def Logged.Shares (g : Fat32Fs) (cwd : UInt32) (name : ShortName) (σ : Slot) (H : Set Nat) (x : Logged) : Prop :=
  ∃ A, InOrder g cwd x.session A ∧ A.Sharing g cwd name σ H x.writes

theorem FsCall.onHandle_careful (on : call.onHandle = some i) (t : Session) : Careful t call := by
  cases call with
  | write | seek | close => trivial
  | «open» | read | unlink | mkdir => cases on

theorem Logged.Shares.step (shares : x.Shares g cwd name σ H) (enough : 4294967296 ≤ fuel)
    (inH : i ∈ H) (on : call.onHandle = some i) (sparing : Sparing x call) {reply : Reply}
    (done : x.step fuel call = some (reply, x')) : x'.Shares g cwd name σ H := by
  obtain ⟨A, order, sharing⟩ := shares
  simp only [Logged.step, Option.bind_eq_bind, Option.bind_eq_some_iff] at done
  obtain ⟨⟨reply, session⟩, run, same⟩ := done
  cases same
  obtain ⟨B, next, order'⟩ := order.step enough (FsCall.onHandle_careful on _) run
  refine ⟨B, order', ?_⟩
  have file : x.session.machine.file = A.file := order.1.file
  rw [file]
  refine sharing.next order.2 inH on (fun data size same => ?_) (fun same isOpen => ?_) next
  · subst same
    rw [← file]
    exact sparing
  · subst same
    rw [← sharing.slot i inH, FileStore.dirent, ← order.1.stores.volume_eq, ← file]
    rw [← file] at isOpen
    exact sparing isOpen

/-! ## Opening a file twice -/

/-- A successful `fat32_open` without truncation leaves a handle on the slot of the path. -/
theorem FileStore.Next.opened (next : A.Next g cwd (.open i (some path) flags) r B) (zero : r = 0)
    (noTrunc : hasFlag flags fat32OTrunc = false) (consistent : A.Consistent g cwd) :
    ∃ σ, B.lookup g path = some σ ∧ (∀ τ, A.lookup g path = some τ → τ = σ) ∧
      (B.file i).slot = σ ∧ (B.file i).isOpen = true ∧ ∀ j, j ≠ i → B.file j = A.file j := by
  cases next with
  | openFails | openLosesEntry => cases zero
  | openFound i path flags σ found keeps =>
    refine ⟨σ, found, fun τ same => Option.some.inj (same.symm.trans found), ?_, ?_, fun j ne =>
      Function.update_of_ne ne _ _⟩ <;> simp only [Function.update_self]
    · rfl
    · rfl
  | openTruncates i path flags σ m found trunc chain =>
    rw [noTrunc] at trunc
    cases trunc
  | openCreates i path flags n v' l' σ absent creat inRange free inserted notDead =>
    have live := (newEntry_live_iff path fat32AttrArchive (by decide) n).mpr notDead
    have none := Volume.lookup_none consistent.ends absent
    refine ⟨σ, inserted.lookup_new live rfl none, fun τ same => ?_, ?_, ?_, fun j ne =>
      Function.update_of_ne ne _ _⟩
    · rw [absent] at same
      cases same
    · simp only [Function.update_self, handleFor_slot]
    · simp only [Function.update_self, handleFor_isOpen]

/-- Two handles were opened on one path, one after the other, without truncating the file. -/
def OpenedBoth (fuel : Nat) (path : CString) (h k : Nat) (t t₂ : Session) : Prop :=
  h ≠ k ∧ ∃ flags flags',
    hasFlag flags fat32OTrunc = false ∧ hasFlag flags' fat32OTrunc = false ∧
    Run (Session.step fuel) Careful t
      [(.open h (some path) flags, ⟨0, none⟩), (.open k (some path) flags', ⟨0, none⟩)] t₂

/-- The calls on two handles: `fat32_write`, `fat32_seek` and `fat32_close`. -/
def OnHandles (h k : Nat) (call : FsCall) : Prop :=
  call.onHandle = some h ∨ call.onHandle = some k

instance (h k : Nat) (call : FsCall) : Decidable (OnHandles h k call) :=
  inferInstanceAs (Decidable (_ ∨ _))

theorem OnHandles.handle (on : OnHandles h k call) :
    ∃ i ∈ ({h, k} : Set Nat), call.onHandle = some i := by
  rcases on with onH | onK
  · exact ⟨h, Or.inl rfl, onH⟩
  · exact ⟨k, Or.inr rfl, onK⟩

theorem OpenedBoth.shares (both : OpenedBoth fuel path h k t t₂) (order : InOrder g cwd t A)
    (enough : 4294967296 ≤ fuel) :
    ∃ σ, Logged.Shares g cwd (fat32ToShortName path) σ {h, k} ⟨t₂, []⟩ := by
  obtain ⟨different, flags, flags', plain, plain', run⟩ := both
  cases run with
  | @call _ t₁ _ _ _ _ careful done rest =>
    cases rest with
    | @call _ t₂ _ _ _ _ careful' done' rest =>
      cases rest
      obtain ⟨B, next, orderB⟩ := order.step enough careful done
      obtain ⟨σ, found, -, slotH, openH, -⟩ := next.opened rfl plain order.2
      obtain ⟨C, next', orderC⟩ := orderB.step enough careful' done'
      obtain ⟨τ, found', same, slotK, openK, kept⟩ := next'.opened rfl plain' orderB.2
      obtain rfl := same σ found
      rw [← kept h different] at slotH openH
      have slot : ∀ i ∈ ({h, k} : Set Nat), (C.file i).slot = σ := by
        rintro i (rfl | rfl)
        · exact slotH
        · exact slotK
      have isOpen : ∀ i ∈ ({h, k} : Set Nat), (C.file i).isOpen = true := by
        rintro i (rfl | rfl)
        · exact openH
        · exact openK
      refine ⟨σ, C, orderC, FileStore.lookup_names found', slot, fun i inH => ?_, ?_, ?_,
        fun c m chain o b found => ?_, fun i inH closed => ?_⟩
      · rw [← slot i inH]
        exact (orderC.2.handles i (isOpen i inH)).owned
      · exact fun w member => absurd member List.not_mem_nil
      · exact fun w member => absurd member List.not_mem_nil
      · cases found
      · rw [isOpen i inH] at closed
        cases closed

/-- **No lost update.**  Two handles are opened on one file and used in any order.  If no
close finds an entry that is ahead of its handle, then, once both are closed, the file in
the entry has every byte that was reported as written and not covered later.  Every
further call of such a run returns. -/
theorem no_lost_update {l : List UInt32} {t₀ : Session} {before calls : List (FsCall × Reply)}
    (enough : 4294967296 ≤ fuel) (fresh : Fresh t₀ l)
    (start : Run (Session.step fuel) Careful t₀ before t) (both : OpenedBoth fuel path h k t t₂)
    (run : Run (Logged.step fuel) (fun x call => OnHandles h k call ∧ Sparing x call) ⟨t₂, []⟩
      calls x) :
    ((x.file h).isOpen = false → (x.file k).isOpen = false → ∃ l',
      FatChain x.session.machine.fs.gFs x.volume x.session.machine.fs.gCurrentDirCluster l' ∧
      x.volume.Names (x.session.machine.fs.gFs.dirSlots l') (fat32ToShortName path) (x.file h).slot ∧
      x.volume.KeepsWrites x.session.machine.fs.gFs (x.entry h) x.writes) ∧
    ∀ call, OnHandles h k call → ∃ reply x', x.step fuel call = some (reply, x') := by
  obtain ⟨A, -, order⟩ := InOrder.run fresh.shows enough start
  obtain ⟨σ, shares⟩ := both.shares order enough
  obtain ⟨B, orderB, sharing⟩ := run.invariant (Logged.Shares _ _ _ σ {h, k})
    (fun x call reply x' shares allowed done => by
      obtain ⟨i, inH, on⟩ := allowed.1.handle
      exact shares.step enough inH on allowed.2 done) shares
  have slot : (x.file h).slot = σ := by
    rw [Logged.file, orderB.1.file]
    exact sharing.slot h (Or.inl rfl)
  refine ⟨fun closedH closedK => ⟨B.directory, ?_⟩, fun call on => ?_⟩
  · rw [Logged.entry, slot, Logged.volume, orderB.1.stores.volume_eq, orderB.1.stores.current,
      orderB.1.stores.gFs]
    refine ⟨orderB.2.chain, sharing.names, sharing.keepsWrites orderB.2 ?_⟩
    rw [← orderB.1.file]
    rintro i (rfl | rfl)
    · exact closedH
    · exact closedK
  · obtain ⟨i, -, onHandle⟩ := on.handle
    obtain ⟨reply, session, done⟩ := orderB.returns enough (FsCall.onHandle_careful onHandle _)
    exact ⟨reply, _, by simp only [Logged.step, done, Option.bind_eq_bind, Option.bind_some]; rfl⟩

/-! ## Two handles on a small volume -/

theorem Session.step_open_file {reply : Reply} (done : t.step fuel (.open h (some path) flags) =
    some (reply, t₁)) (ne : k ≠ h) : t₁.machine.file k = t.machine.file k := by
  simp only [Session.step, Machine.step, Option.bind_eq_bind, Option.bind_eq_some_iff] at done
  obtain ⟨⟨_, m⟩, ⟨result, -, same⟩, same'⟩ := done
  cases same
  cases same'
  exact Function.update_of_ne ne _ _

/-- The path is opened twice, the calls are made, and the outcome passes a test. -/
def opensTwice (t : Session) (path : CString) (flags flags' : UInt8) (allowed : Logged → FsCall → Prop)
    [∀ x call, Decidable (allowed x call)] (inputs : List FsCall) (P : Logged → Prop)
    [∀ x, Decidable (P x)] : Bool :=
  (t.step 4294967296 (.open 0 (some path) flags)).any fun first =>
    first.1.status = 0 && !hasFlag (first.2.machine.file 0).flags fat32OTrunc &&
      (first.2.step 4294967296 (.open 1 (some path) flags')).any fun second =>
        second.1.status = 0 &&
          (replay (Logged.step 4294967296) allowed ⟨second.2, []⟩ inputs).any fun result => P result.2

theorem OpenedBoth.of_opensTwice (path : CString) (flags flags' : UInt8)
    (allowed : Logged → FsCall → Prop) [∀ x call, Decidable (allowed x call)] (inputs : List FsCall)
    (P : Logged → Prop) [∀ x, Decidable (P x)] (closed : ∀ i, (t.machine.file i).isOpen = false)
    (plain : hasFlag flags fat32OTrunc = false) (plain' : hasFlag flags' fat32OTrunc = false)
    (twice : opensTwice t path flags flags' allowed inputs P = true) :
    ∃ t₂ calls x, OpenedBoth 4294967296 path 0 1 t t₂ ∧
      Run (Logged.step 4294967296) allowed ⟨t₂, []⟩ calls x ∧ P x := by
  simp only [opensTwice, Option.any_eq_true, Bool.and_eq_true, decide_eq_true_eq,
    Bool.not_eq_true'] at twice
  obtain ⟨⟨⟨status, buffer⟩, t₁⟩, done, ⟨zero, kept⟩, ⟨⟨status', buffer'⟩, t₂⟩, done', zero',
    ⟨calls, x⟩, replayed, holds⟩ := twice
  obtain rfl : buffer = none := Session.step_buffer done (by simp)
  obtain rfl : buffer' = none := Session.step_buffer done' (by simp)
  simp only at zero zero'
  subst zero zero'
  have others (j : Nat) (ne : j ≠ 0) : (t₁.machine.file j).isOpen = false := by
    rw [Session.step_open_file done ne]
    exact closed j
  refine ⟨t₂, calls, x, ⟨by decide, flags, flags', plain, plain', ?_⟩, Run.of_replay replayed, holds⟩
  refine .call ⟨closed 0, fun j under => ?_⟩ done (.call ⟨others 1 (by decide), fun j under => ?_⟩ done'
    (.refl t₂))
  · exact absurd under.1 (by simp [closed j])
  · refine ⟨plain', ?_⟩
    by_cases here : j = 0
    · rw [here]
      exact kept
    · exact absurd under.1 (by simp [others j here])

/-- Two handles of `A` write, and the one with the smaller size is closed first. -/
theorem no_lost_update_two :
    ∃ t₂ calls x, OpenedBoth 4294967296 (letterPath 0x41 (by decide)) 0 1 blankSession t₂ ∧
      Run (Logged.step 4294967296) (fun x call => OnHandles 0 1 call ∧ Sparing x call) ⟨t₂, []⟩
        calls x ∧
      latest x.writes 0 = some 9 ∧ latest x.writes 4 = some 7 ∧
      x.volume.KeepsWrites x.session.machine.fs.gFs (x.entry 0) x.writes := by
  obtain ⟨t₂, calls, x, both, run, closed, closed', later, earlier⟩ := OpenedBoth.of_opensTwice
    (letterPath 0x41 (by decide)) 4 0 (fun x call => OnHandles 0 1 call ∧ Sparing x call)
    [.write 0 (some fun _ => 7) 5, .write 1 (some fun _ => 9) 3, .close 1, .close 0]
    (fun x => (x.file 0).isOpen = false ∧ (x.file 1).isOpen = false ∧
      latest x.writes 0 = some 9 ∧ latest x.writes 4 = some 7)
    blankSession_fresh.closed (by decide) (by decide) (by decide +kernel)
  obtain ⟨-, -, -, keeps⟩ := (no_lost_update (by decide) blankSession_fresh (.refl _) both run).1
    closed closed'
  exact ⟨t₂, calls, x, both, run, later, earlier, keeps⟩

/-- A root directory with a file `A` that has no cluster. -/
def emptyFileSession : Session :=
  ⟨⟨mountedOn smallFs (rootDrive [0x41]), fun _ => Fat32File.zero⟩, fun _ _ => 0⟩

theorem emptyFileSession_fresh : Fresh emptyFileSession [2] :=
  ⟨⟨smallFs_geometry, fun _ => rfl⟩,
    WellFormed.of_unused smallFs_geometry (.last (by decide) (by decide +kernel))
      (by decide +kernel) (by decide +kernel), fun _ => rfl⟩

/-- Both handles are closed, and the file lacks a byte that was reported. -/
def Logged.Lost (x : Logged) : Prop :=
  (x.file 0).isOpen = false ∧ (x.file 1).isOpen = false ∧
    ¬ x.volume.KeepsWrites x.session.machine.fs.gFs (x.entry 0) x.writes

/-- Three ways to lose bytes that were reported as written.  The handle with the smaller
size is closed last.  Or the file had no cluster, so that each handle got a chain of its
own.  Or one handle truncated the file and the other wrote to the freed cluster. -/
theorem updates_lost :
    (∃ t₂ calls x, OpenedBoth 4294967296 (letterPath 0x41 (by decide)) 0 1 blankSession t₂ ∧
      Run (Logged.step 4294967296) (fun _ call => OnHandles 0 1 call) ⟨t₂, []⟩ calls x ∧ x.Lost) ∧
    (∃ t₂ calls x, OpenedBoth 4294967296 (letterPath 0x41 (by decide)) 0 1 emptyFileSession t₂ ∧
      Run (Logged.step 4294967296) (fun _ call => OnHandles 0 1 call) ⟨t₂, []⟩ calls x ∧ x.Lost ∧
      ∀ w ∈ x.writes, w.offset + w.bytes.length ≤ (x.entry 0).fileSize.toNat) ∧
    ∃ opens t₂ calls x, Run (Session.step 4294967296) (fun _ _ => True) blankSession opens t₂ ∧
      Run (Logged.step 4294967296) (fun x call => OnHandles 0 1 call ∧ Sparing x call) ⟨t₂, []⟩
        calls x ∧ x.Lost := by
  -- the size is lost by the second close, the chain by a second first write, and the file by a truncation
  refine ⟨?_, ?_, ?_⟩
  · obtain ⟨t₂, calls, x, both, run, closed, closed', written, size⟩ := OpenedBoth.of_opensTwice
      (letterPath 0x41 (by decide)) 4 0 (fun _ call => OnHandles 0 1 call)
      [.write 0 (some fun _ => 7) 5, .close 0, .close 1]
      (fun x => (x.file 0).isOpen = false ∧ (x.file 1).isOpen = false ∧
        latest x.writes 4 = some 7 ∧ (x.entry 0).fileSize = 0)
      blankSession_fresh.closed (by decide) (by decide) (by decide +kernel)
    refine ⟨t₂, calls, x, both, run, closed, closed', fun keeps => ?_⟩
    have covered := (keeps 4 7 written).1
    rw [size] at covered
    exact absurd covered (by decide)
  · obtain ⟨t₂, calls, x, both, run, closed, closed', sizes, written, single, other⟩ :=
      OpenedBoth.of_opensTwice
      (letterPath 0x41 (by decide)) 0 0 (fun _ call => OnHandles 0 1 call)
      [.write 0 (some fun _ => 7) 5, .write 1 (some fun _ => 9) 3, .close 1, .close 0]
      (fun x => (x.file 0).isOpen = false ∧ (x.file 1).isOpen = false ∧
        (∀ w ∈ x.writes, w.offset + w.bytes.length ≤ (x.entry 0).fileSize.toNat) ∧
        latest x.writes 0 = some 9 ∧
        ¬ x.session.machine.fs.gFs.InRange (x.volume.fat (x.entry 0).firstCluster) ∧
        x.volume.byteAt x.session.machine.fs.gFs [(x.entry 0).firstCluster] 0 = 7)
      emptyFileSession_fresh.closed (by decide) (by decide) (by decide +kernel)
    refine ⟨t₂, calls, x, both, run, ⟨closed, closed', fun keeps => ?_⟩, sizes⟩
    obtain ⟨-, m, chain, -, holds⟩ := keeps 0 9 written
    cases chain with
    | last =>
      rw [other] at holds
      exact absurd holds (by decide)
    | link _ tail => exact single (tail.cell_of_mem _ tail.head_mem)
  · obtain ⟨opens, t₂, run, checked⟩ := Run.exists_of_replay
      (Session.step 4294967296) (fun _ _ => True) blankSession
      [.open 0 (some (letterPath 0x41 (by decide))) 4, .close 0,
        .open 0 (some (letterPath 0x41 (by decide))) 0, .open 1 (some (letterPath 0x41 (by decide))) 8]
      (fun _ t₂ => (replay (Logged.step 4294967296)
        (fun x call => OnHandles 0 1 call ∧ Sparing x call) ⟨t₂, []⟩
        [.close 1, .write 0 (some fun _ => 7) 5, .close 0]).any (fun result =>
          (result.2.file 0).isOpen = false ∧ (result.2.file 1).isOpen = false ∧
            latest result.2.writes 0 = some 7 ∧
            result.2.volume.fat (result.2.entry 0).firstCluster = fat32FreeCluster) = true)
      (by decide +kernel)
    obtain ⟨calls, x, runx, closed, closed', written, free⟩ := Run.exists_of_replay
      (Logged.step 4294967296) (fun x call => OnHandles 0 1 call ∧ Sparing x call) ⟨t₂, []⟩ _
      (fun _ x => (x.file 0).isOpen = false ∧ (x.file 1).isOpen = false ∧
        latest x.writes 0 = some 7 ∧ x.volume.fat (x.entry 0).firstCluster = fat32FreeCluster) checked
    refine ⟨opens, t₂, calls, x, run, runx, closed, closed', fun keeps => ?_⟩
    obtain ⟨-, m, chain, -⟩ := keeps 0 7 written
    rcases chain.next_of_mem _ chain.head_mem with inRange | ends
    · exact inRange.ne_zero free
    · rw [free] at ends
      exact free_not_eoc ends

end QuantumKernel.Fat32
