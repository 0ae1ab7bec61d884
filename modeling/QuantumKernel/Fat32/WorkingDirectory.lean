import QuantumKernel.Fat32.Mount
import QuantumKernel.Fat32.Sessions

/-! # The working directory and its path

On a volume that does not change, the names of `path_stack` lead from the root to the cluster
of the working directory, as long as each `fat32_chdir` that enters a directory also records a
name that leads there.
-/

namespace QuantumKernel.Fat32

open ByteStore Transition

/-- `name` leads from one directory to another. -/
def Child (fuel : Nat) (s : Fat32State) (dir : UInt32) (name : CString) (child : UInt32) : Prop :=
  ∃ found t, fat32FindEntry fuel s dir name = some (some found, t) ∧ found.entry.firstCluster = child

/-- The names lead from one directory to another, one after the other. -/
inductive Leads (fuel : Nat) (s : Fat32State) : List CString → UInt32 → UInt32 → Prop
  | here (dir : UInt32) : Leads fuel s [] dir dir
  | down {name : CString} {names : List CString} {dir child last : UInt32} :
      Child fuel s dir name child → Leads fuel s names child last → Leads fuel s (name :: names) dir last

/-- The names `path_stack[i]` on, `count` of them. -/
def namesFrom (pathStack : Nat → CString) : Nat → Nat → List CString
  | 0, _ => []
  | count + 1, i => pathStack i :: namesFrom pathStack count (i + 1)

/-- A drive that answers, and a cluster size as `fat32_mount` computes it. -/
structure Readable (s : Fat32State) : Prop where
  reliable : s.Reliable
  size : s.gFs.ClusterSize

/-- The path agrees with the working directory. -/
structure WorkingDirectory.Agrees (fuel : Nat) (w : WorkingDirectory) : Prop where
  readable : Readable w.fs
  leads : Leads fuel w.fs (namesFrom w.pathStack w.pathDepth 0) w.fs.gFs.rootDirFirstCluster w.fs.gCurrentDirCluster

variable {s s' t : Fat32State} {fuel n i : Nat} {w w' : WorkingDirectory} {path name : CString} {status : Int32}
  {dir child last : UInt32} {names : List CString} {pathStack : Nat → CString} {calls : List (CString × Int32)}

/-! ## Names that lead somewhere -/

theorem Readable.same (readable : Readable s) (same : SameVolume s t) : Readable t :=
  ⟨same.reliable readable.reliable, same.gFs ▸ readable.size⟩

theorem Child.same (readable : Readable s) (same : SameVolume s t) (h : Child fuel s dir name child) :
    Child fuel t dir name child := by
  obtain ⟨found, s₁, done, cluster⟩ := h
  obtain ⟨-, -, t₁, done', -, -⟩ := fat32FindLoop_same readable.reliable readable.size same done
  exact ⟨found, t₁, done', cluster⟩

theorem Child.unique {child' : UInt32} (h : Child fuel s dir name child) (h' : Child fuel s dir name child') :
    child = child' := by
  obtain ⟨found, t, done, rfl⟩ := h
  obtain ⟨found', t', done', rfl⟩ := h'
  rw [done] at done'
  cases done'
  rfl

theorem Leads.same (readable : Readable s) (same : SameVolume s t) (h : Leads fuel s names dir last) :
    Leads fuel t names dir last := by
  induction h with
  | here dir => exact .here dir
  | down first _ ih => exact .down (first.same readable same) ih

theorem Leads.unique {last' : UInt32} (h : Leads fuel s names dir last) (h' : Leads fuel s names dir last') :
    last = last' := by
  induction h with
  | here dir =>
    cases h'
    rfl
  | down first _ ih =>
    cases h' with
    | down first' rest =>
      rw [← first.unique first'] at rest
      exact ih rest

/-- The bytes of a boot sector: one sector in a cluster, two reserved sectors, two FATs of one
sector, and eight clusters. -/
def bootBytes (root : UInt8) : Bytes := fun k =>
  if k = 12 then 2 else if k = 13 then 1 else if k = 14 then 2 else if k = 16 then 2 else if k = 32 then 12
  else if k = 36 then 1 else if k = 44 then root else if k = 48 then 1 else 0

/-- A directory `ABCDEFGH.DIR` in cluster 3. -/
def longEntry : Bytes := fun k =>
  if k < 8 then UInt8.ofNat (0x41 + k) else if k < 11 then [0x44, 0x49, 0x52].getD (k - 8) 0
  else if k = 11 then fat32AttrDirectory else if k = 26 then 3 else 0

end QuantumKernel.Fat32
