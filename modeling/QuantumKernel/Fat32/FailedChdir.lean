import QuantumKernel.Fat32.WorkingDirectory
import QuantumKernel.Fat32.Faults

/-! # A `fat32_chdir` that fails

A lookup leaves the working directory alone, whatever the drive answers, and so does a call that looks
up one name.  For `..` the depth goes down before the names that are left are looked up again: if one
of them is not found, the call returns with the path of one directory and the cluster of another.
-/

namespace QuantumKernel.Fat32

open ByteStore Transition

variable {s t : Fat32State} {fuel n i : Nat} {w w' : WorkingDirectory} {path : CString} {status : Int32}
  {cluster dir : UInt32} {pathStack : Nat → CString}

/-! ## Lookups -/

/-- A drive with `ABCDEFGH.DIR` in its root, and a directory `B` in there. -/
def nestedDrive : Nat → Bytes := fun n k =>
  if n = 0 then bootBytes 2 k else if n = 1 then 0
  else smallDrive (fun c => if c = 2 ∨ c = 3 ∨ c = 4 then fat32EocMax else fat32FreeCluster)
    (fun c k => if c = 2 then longEntry k
      else if c = 3 then if k = 11 then fat32AttrDirectory else if k < 32 then letterEntry 0x42 4 k else 0
      else 0) (n - 1) k

end QuantumKernel.Fat32
