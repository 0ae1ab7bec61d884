import QuantumKernel.Syscall.OneFile

/-! # The shell's commands on files

`cat`, `write`, `append` and `rm` open at most one file and close it again, so between two commands the
shell's directory is a map from names to contents.
-/

namespace QuantumKernel.Shell

open Fat32 Syscall ByteStore Transition

/-- The characters of a literal. -/
def ascii (literal : String) : List UInt8 := literal.toList.map fun c => UInt8.ofNat c.toNat

/-- `O_RDONLY`, `O_WRONLY`, `O_CREAT`, `O_TRUNC` and `O_APPEND` of the user's `syscall.h`. -/
def oRdonly : Int32 := 0x01
def oWronly : Int32 := 0x02
def oCreat : Int32 := 0x04
def oTrunc : Int32 := 0x08
def oAppend : Int32 := 0x10

/-- `SEEK_END`. -/
def seekEnd : Int32 := 2

/-- `FILE_BUF`. -/
def fileBuf : UInt32 := 512

/-- A command on files with its arguments. -/
inductive Command
  | cat (path : CString)
  | write (path text : CString)
  | append (path text : CString)
  | rm (path : CString)

/-! ## From the command to the system calls -/

/-- `while ((n = file_read(fd, fbuf, FILE_BUF)) > 0) write(STDOUT, fbuf, n);` -/
def catLoop (fuel : Nat) (fd : Int32) : (rounds : Nat) → Bytes → Kernel → Option (List UInt8 × Kernel)
  | 0, _, _ => none
  | rounds + 1, fbuf, k => do
    let (reply, k) ← k.step fuel (.fileRead fd (some fbuf) fileBuf)
    let fbuf := reply.buffer.getD fbuf
    if 0 < reply.status then
      let (out, k) ← catLoop fuel fd rounds fbuf k
      some ((List.range reply.status.toNatClampNeg).map fbuf ++ out, k)
    else some ([], k)

/-- `cat`, with what is on the stack in `fbuf`. -/
def cat (fuel : Nat) (fbuf : Bytes) (k : Kernel) (path : CString) : Option (List UInt8 × Kernel) := do
  let (fd, k) ← k.step fuel (.open (some path) oRdonly)
  if fd.status < 0 then some (ascii "open failed\n", k)
  else
    let (out, k) ← catLoop fuel fd.status fuel fbuf k
    let (_, k) ← k.step fuel (.close fd.status)
    some (out, k)

/-- `file_write(fd, p, strlen(p)); file_write(fd, "\n", 1); close(fd); puts("ok\n");` -/
def storeText (fuel : Nat) (fd : Int32) (text : CString) (k : Kernel) : Option (List UInt8 × Kernel) := do
  let (_, k) ← k.step fuel (.fileWrite fd (some fun i => text.val.getD i 0) (UInt32.ofNat text.val.length))
  let (_, k) ← k.step fuel (.fileWrite fd (some fun i => (ascii "\n").getD i 0) 1)
  let (_, k) ← k.step fuel (.close fd)
  some (ascii "ok\n", k)

def write (fuel : Nat) (k : Kernel) (path text : CString) : Option (List UInt8 × Kernel) := do
  let (fd, k) ← k.step fuel (.open (some path) (oWronly ||| oCreat ||| oTrunc))
  if fd.status < 0 then some (ascii "open failed\n", k)
  else storeText fuel fd.status text k

def append (fuel : Nat) (k : Kernel) (path text : CString) : Option (List UInt8 × Kernel) := do
  let (fd, k) ← k.step fuel (.open (some path) (oWronly ||| oCreat ||| oAppend))
  if fd.status < 0 then some (ascii "open failed\n", k)
  else
    let (_, k) ← k.step fuel (.seek fd.status 0 seekEnd)
    storeText fuel fd.status text k

def rm (fuel : Nat) (k : Kernel) (path : CString) : Option (List UInt8 × Kernel) := do
  let (reply, k) ← k.step fuel (.unlink path)
  if reply.status = 0 then some (ascii "deleted\n", k) else some (ascii "unlink failed\n", k)

/-- One command: what it prints, and the kernel behind it. -/
def execute (fuel : Nat) (fbuf : Bytes) (k : Kernel) : Command → Option (List UInt8 × Kernel)
  | .cat path => cat fuel fbuf k path
  | .write path text => write fuel k path text
  | .append path text => append fuel k path text
  | .rm path => rm fuel k path

/-! ## What the commands do to the contents -/

/-- The commands on a map from names to contents, with `space` free clusters after them.  A text is stored
in part only when no cluster is left; the shell does not look at the counts. -/
inductive Command.Next (space : Nat) (M : Contents) : Command → List UInt8 → Contents → Prop
  | catFails (path : CString) : M (fat32ToShortName path) = none → Next space M (.cat path) (ascii "open failed\n") M
  | cat (path : CString) (bytes : List UInt8) : M (fat32ToShortName path) = some bytes →
      Next space M (.cat path) bytes M
  | writeFails (path text : CString) : M (fat32ToShortName path) = none → space ≤ 1 →
      Next space M (.write path text) (ascii "open failed\n") M
  | write (path text : CString) (n m : Nat) : n ≤ text.val.length → m ≤ 1 →
      (n < text.val.length ∨ m < 1 → space = 0) →
      Next space M (.write path text) (ascii "ok\n") (Function.update M (fat32ToShortName path)
        (some (text.val.take n ++ (ascii "\n").take m)))
  | appendFails (path text : CString) : M (fat32ToShortName path) = none → space ≤ 1 →
      Next space M (.append path text) (ascii "open failed\n") M
  | append (path text : CString) (n m : Nat) : n ≤ text.val.length → m ≤ 1 →
      (n < text.val.length ∨ m < 1 → space = 0) →
      Next space M (.append path text) (ascii "ok\n") (Function.update M (fat32ToShortName path)
        (some ((M (fat32ToShortName path)).getD [] ++ text.val.take n ++ (ascii "\n").take m)))
  | rmFails (path : CString) : M (fat32ToShortName path) = none → Next space M (.rm path) (ascii "unlink failed\n") M
  | rm (path : CString) (bytes : List UInt8) : M (fat32ToShortName path) = some bytes →
      Next space M (.rm path) (ascii "deleted\n") (Function.update M (fat32ToShortName path) none)

/-- The name is not one that reads as deleted, and the text fits into a line. -/
def Command.Plain : Command → Prop
  | .cat path => fat32ToShortName path 0 ≠ 0xE5
  | .write path text | .append path text => fat32ToShortName path 0 ≠ 0xE5 ∧ text.val.length < 256
  | .rm _ => True

variable {g : Fat32Fs} {cwd : UInt32} {k k' : Kernel} {M : Contents} {name : ShortName} {p n : Nat}
  {bytes : List UInt8} {fuel rounds : Nat} {path text : CString} {fbuf : Bytes} {c : Command}

theorem range_map_getD (text : List UInt8) (few : n ≤ text.length) :
    (List.range n).map (fun i => text.getD i 0) = text.take n := by
  refine List.ext_getElem (by simp [few]) fun i below below' => ?_
  have inside : i < text.length := by
    simp only [List.length_map, List.length_range] at below
    omega
  simp [inside]

/-- `cat` prints what is behind the position. -/
theorem catLoop_eq (editing : k.Editing g cwd M name p) (compact : g.Compact) (enough : 4294967296 ≤ fuel)
    (stored : M name = some bytes) (room : bytes.length - p + 512 ≤ rounds * 512) (fbuf : Bytes) :
    ∃ k' q, catLoop fuel 0 rounds fbuf k = some (bytes.drop p, k') ∧ k'.Editing g cwd M name q := by
  induction rounds generalizing k p fbuf with
  | zero => omega
  | succ rounds ih =>
    obtain ⟨-, -, bytes', stored', -, inside⟩ := editing.handle
    cases stored.symm.trans stored'
    obtain ⟨status, k₁, n, count, returned, done, editing₁⟩ :=
      editing.read compact enough stored fbuf fileBuf (by decide)
    rw [show fileBuf.toNat = 512 from rfl] at count
    have positive : 0 < status ↔ 0 < n := by
      rw [Int32.lt_iff_toInt_lt, returned, show (0 : Int32).toInt = 0 from rfl]
      omega
    simp only [catLoop, done, Option.bind_eq_bind, Option.bind_some, Option.getD_some]
    by_cases more : 0 < n
    · rw [if_pos (positive.mpr more)]
      obtain ⟨k', q, rest, editing'⟩ := ih editing₁ (by omega) _
      have chunk : (List.range status.toNatClampNeg).map
          (fun i => if i < n then bytes.getD (p + i) 0 else fbuf i) = (bytes.drop p).take n := by
        have size : status.toNatClampNeg = n := by
          rw [Int32.toNatClampNeg, returned]
          exact Int.toNat_natCast n
        rw [size, ← range_map_getD (bytes.drop p) (by simp; omega)]
        refine List.map_congr_left fun i member => ?_
        rw [if_pos (List.mem_range.mp member)]
        simp [List.getD_eq_getElem?_getD]
      refine ⟨k', q, ?_, editing'⟩
      rw [rest, chunk]
      simp only [Option.bind_some, ← List.drop_drop, List.take_append_drop]
    · rw [if_neg fun up => more (positive.mp up)]
      have atEnd : bytes.drop p = [] := List.drop_eq_nil_of_le (by omega)
      exact ⟨k₁, _, by rw [atEnd], editing₁⟩

theorem cat_spec (contains : k.Contains g cwd M) (compact : g.Compact) (enough : 4294967296 ≤ fuel)
    (plain : (Command.cat path).Plain) (fbuf : Bytes) :
    ∃ out k' M', cat fuel fbuf k path = some (out, k') ∧ Command.Next k'.session.space M (.cat path) out M' ∧
      k'.Contains g cwd M' := by
  obtain ⟨reply, k₁, done, opens⟩ := contains.open enough plain oRdonly
  obtain ⟨status, buffer⟩ := reply
  simp only [cat, done, Option.bind_eq_bind, Option.bind_some]
  cases opens with
  | fails failed absent _ unchanged =>
    subst failed
    rw [if_pos (by decide)]
    exact ⟨_, k₁, M, rfl, .catFails path absent, unchanged⟩
  | opened succeeded created editing =>
    subst succeeded
    rw [if_neg (by decide)]
    -- without `O_CREAT` the file was there, and without `O_TRUNC` it is as it was
    cases stored : M (fat32ToShortName path) with
    | none => exact absurd (created stored) (by decide)
    | some bytes =>
      have same : openedFile M (fat32ToShortName path) (lowByte oRdonly) = bytes := by
        rw [openedFile, stored]
        rfl
      rw [same, ← stored, Function.update_eq_self] at editing
      have small := editing.view.length_le compact stored
      have start : openedPosition (lowByte oRdonly) bytes = 0 := rfl
      have rounds : bytes.length - openedPosition (lowByte oRdonly) bytes + 512 ≤ fuel * 512 := by omega
      obtain ⟨k₂, q, printed, editing₂⟩ := catLoop_eq editing compact enough stored rounds fbuf
      obtain ⟨reply, k₃, closed, -, contains₃⟩ := editing₂.close enough
      refine ⟨bytes, k₃, M, ?_, .cat path bytes stored, contains₃⟩
      rw [printed]
      simp only [Option.bind_some, closed]
      rfl

/-- Both writes and the close behind them. -/
theorem storeText_spec (editing : k.Editing g cwd M name p) (compact : g.Compact) (enough : 4294967296 ≤ fuel)
    (stored : M name = some bytes) (atEnd : p = bytes.length) (short : text.val.length < 256) :
    ∃ k' n m, n ≤ text.val.length ∧ m ≤ 1 ∧ (n < text.val.length ∨ m < 1 → k'.session.space = 0) ∧
      storeText fuel 0 text k = some (ascii "ok\n", k') ∧
      k'.Contains g cwd (Function.update M name (some (bytes ++ text.val.take n ++ (ascii "\n").take m))) := by
  subst atEnd
  have size : (UInt32.ofNat text.val.length).toNat = text.val.length := by
    rw [UInt32.toNat_ofNat', Nat.mod_eq_of_lt (by omega)]
  obtain ⟨reply, k₁, n, few, -, early, first, editing₁⟩ := editing.write compact enough stored
    (fun i => text.val.getD i 0) (UInt32.ofNat text.val.length) (by omega)
  rw [size] at few early
  have appended : splice bytes bytes.length (fun i => text.val.getD i 0) n = bytes ++ text.val.take n := by
    rw [splice_end, range_map_getD text.val few]
  rw [appended] at editing₁
  obtain ⟨reply', k₂, m, few', less, early', second, editing₂⟩ := editing₁.write compact enough
    (Function.update_self _ _ _) (fun i => (ascii "\n").getD i 0) 1 (by decide)
  have length : bytes.length + n = (bytes ++ text.val.take n).length := by
    rw [List.length_append, List.length_take, Nat.min_eq_left few]
  have appended' : splice (bytes ++ text.val.take n) (bytes.length + n) (fun i => (ascii "\n").getD i 0) m =
      bytes ++ text.val.take n ++ (ascii "\n").take m := by
    rw [length, splice_end, range_map_getD _ (few'.trans (by decide))]
  rw [appended', Function.update_idem] at editing₂
  obtain ⟨reply'', k₃, closed, same, contains⟩ := editing₂.close enough
  refine ⟨k₃, n, m, few, few', fun short => ?_, ?_, contains⟩
  · rw [same]
    rcases short with first | last
    · exact Nat.eq_zero_of_le_zero (less.trans (early first).le)
    · exact early' last
  simp only [storeText, first, second, closed, Option.bind_eq_bind, Option.bind_some]

theorem write_spec (contains : k.Contains g cwd M) (compact : g.Compact) (enough : 4294967296 ≤ fuel)
    (plain : (Command.write path text).Plain) :
    ∃ out k' M', write fuel k path text = some (out, k') ∧ Command.Next k'.session.space M (.write path text) out M' ∧
      k'.Contains g cwd M' := by
  obtain ⟨reply, k₁, done, opens⟩ := contains.open enough plain.1 (oWronly ||| oCreat ||| oTrunc)
  obtain ⟨status, buffer⟩ := reply
  simp only [write, done, Option.bind_eq_bind, Option.bind_some]
  cases opens with
  | fails failed absent scarce unchanged =>
    subst failed
    rw [if_pos (by decide)]
    exact ⟨_, k₁, M, rfl, .writeFails path text absent (scarce (by decide)), unchanged⟩
  | opened succeeded created editing =>
    subst succeeded
    rw [if_neg (by decide)]
    have empty : openedFile M (fat32ToShortName path) (lowByte (oWronly ||| oCreat ||| oTrunc)) = [] := rfl
    rw [empty] at editing
    obtain ⟨k₂, n, m, few, few', early, run, contains₂⟩ := storeText_spec editing compact enough
      (Function.update_self _ _ _) rfl plain.2
    rw [Function.update_idem] at contains₂
    exact ⟨_, k₂, _, run, .write path text n m few few' early, contains₂⟩

theorem append_spec (contains : k.Contains g cwd M) (compact : g.Compact) (enough : 4294967296 ≤ fuel)
    (plain : (Command.append path text).Plain) :
    ∃ out k' M', append fuel k path text = some (out, k') ∧ Command.Next k'.session.space M (.append path text) out M' ∧
      k'.Contains g cwd M' := by
  obtain ⟨reply, k₁, done, opens⟩ := contains.open enough plain.1 (oWronly ||| oCreat ||| oAppend)
  obtain ⟨status, buffer⟩ := reply
  simp only [append, done, Option.bind_eq_bind, Option.bind_some]
  cases opens with
  | fails failed absent scarce unchanged =>
    subst failed
    rw [if_pos (by decide)]
    exact ⟨_, k₁, M, rfl, .appendFails path text absent (scarce (by decide)), unchanged⟩
  | opened succeeded created editing =>
    subst succeeded
    rw [if_neg (by decide)]
    have same : openedFile M (fat32ToShortName path) (lowByte (oWronly ||| oCreat ||| oAppend)) =
        (M (fat32ToShortName path)).getD [] := rfl
    rw [same] at editing
    obtain ⟨reply, k₂, moved, editing₂⟩ := editing.seekEnd enough (Function.update_self _ _ _)
    obtain ⟨k₃, n, m, few, few', early, run, contains₃⟩ := storeText_spec editing₂ compact enough
      (Function.update_self _ _ _) rfl plain.2
    rw [Function.update_idem] at contains₃
    refine ⟨_, k₃, _, ?_, .append path text n m few few' early, contains₃⟩
    rw [show k₁.step fuel (.seek 0 0 seekEnd) = some (reply, k₂) from moved]
    exact run

theorem rm_spec (contains : k.Contains g cwd M) (enough : 4294967296 ≤ fuel) (path : CString) :
    ∃ out k' M', rm fuel k path = some (out, k') ∧ Command.Next k'.session.space M (.rm path) out M' ∧
      k'.Contains g cwd M' := by
  obtain ⟨reply, k₁, done, unlinks⟩ := contains.unlink enough path
  obtain ⟨status, buffer⟩ := reply
  simp only [rm, done, Option.bind_eq_bind, Option.bind_some]
  cases unlinks with
  | fails failed absent unchanged =>
    subst failed
    rw [if_neg (by decide)]
    exact ⟨_, k₁, M, rfl, .rmFails path absent, unchanged⟩
  | unlinked bytes succeeded stored contains =>
    subst succeeded
    rw [if_pos rfl]
    exact ⟨_, k₁, _, rfl, .rm path bytes stored, contains⟩

/-- Every plain command returns, and does what it does on contents. -/
theorem execute_spec (contains : k.Contains g cwd M) (compact : g.Compact) (enough : 4294967296 ≤ fuel)
    (plain : c.Plain) (fbuf : Bytes) :
    ∃ out k' M', execute fuel fbuf k c = some (out, k') ∧ c.Next k'.session.space M out M' ∧ k'.Contains g cwd M' := by
  cases c with
  | cat path => exact cat_spec contains compact enough plain fbuf
  | write path text => exact write_spec contains compact enough plain
  | append path text => exact append_spec contains compact enough plain
  | rm path => exact rm_spec contains enough path

/-! ## Runs of commands -/

/-- A command, with what is on the stack before it. -/
structure Invocation where
  stack : Bytes
  command : Command

def shellStep (fuel : Nat) (k : Kernel) (i : Invocation) : Option (List UInt8 × Kernel) :=
  execute fuel i.stack k i.command

/-- The same step on contents, with the kernel behind it. -/
def contentsStep (_ k' : Kernel) (M : Contents) (i : Invocation) (out : List UInt8) (M' : Contents) : Prop :=
  i.command.Next k'.session.space M out M'

/-- **The shell's directory is a map.**  On a volume in order, of at most a gigabyte, the commands print
and change what the same commands do on a map from names to contents, for every sequence of them; less
than the whole text is stored only when no cluster is free afterwards.  After each command the entries and
chains on the drive hold the map, and the next command returns. -/
theorem shell_files {l : List UInt32} (enough : 4294967296 ≤ fuel) (fresh : FreshKernel k l)
    (unique : k.session.machine.fs.volume.UniqueNames (k.session.machine.fs.gFs.dirSlots l))
    (long : LongEnough k.session.machine.fs.gFs k.session.machine.fs.volume l)
    (compact : k.session.machine.fs.gFs.Compact) :
    ∃ M : Contents, k.session.machine.fs.volume.Holds k.session.machine.fs.gFs l M ∧
      ∀ calls k', Run (shellStep fuel) (fun _ i => i.command.Plain) k calls k' →
        (∃ M', Trace (Beside (shellStep fuel) contentsStep) (k, M) calls (k', M') ∧ ∃ l',
          FatChain k'.session.machine.fs.gFs k'.session.machine.fs.volume
            k'.session.machine.fs.gCurrentDirCluster l' ∧
          k'.session.machine.fs.volume.Holds k'.session.machine.fs.gFs l' M') ∧
        ∀ i : Invocation, i.command.Plain → ∃ out k'', shellStep fuel k' i = some (out, k'') := by
  have view := fresh.session.byteView unique long
  have start : k.Contains k.session.machine.fs.gFs k.session.machine.fs.gCurrentDirCluster
      (filesOf k.session.machine.fs.gFs k.session.machine.fs.volume l).contents :=
    ⟨view, funext fresh.unused⟩
  refine ⟨_, filesOf_holds unique long, fun calls k' run => ?_⟩
  generalize k.session.machine.fs.gFs = g, k.session.machine.fs.gCurrentDirCluster = cwd at compact start
  have advance (k : Kernel) (M : Contents) (i : Invocation) (out : List UInt8) (k' : Kernel)
      (contains : k.Contains g cwd M) (plain : i.command.Plain) (done : shellStep fuel k i = some (out, k')) :
      ∃ M', contentsStep k k' M i out M' ∧ k'.Contains g cwd M' := by
    obtain ⟨out₁, k₁, M₁, run, next, contains₁⟩ := execute_spec contains compact enough plain i.stack
    cases done.symm.trans run
    exact ⟨M₁, next, contains₁⟩
  obtain ⟨M', trace, contains⟩ := run.beside (Kernel.Contains g cwd) advance start
  refine ⟨⟨M', trace, contains.view.holds fun h => contains.view.closed rfl⟩, fun i plain => ?_⟩
  obtain ⟨out, k'', M'', done, -⟩ := execute_spec contains compact enough plain i.stack
  exact ⟨out, k'', done⟩

theorem shell_files_blank :
    ∃ M : Contents, (∀ name, M name = none) ∧
      ∀ calls k', Run (shellStep 4294967296) (fun _ i => i.command.Plain) blankKernel calls k' →
        ∃ M', Trace (Beside (shellStep 4294967296) contentsStep) (blankKernel, M) calls (k', M') := by
  have long : LongEnough smallFs (mountedOn smallFs blankDrive).volume [2] := fun σ member live =>
    absurd ⟨member, live, rfl⟩ (blankDrive_absent _ σ)
  obtain ⟨M, holds, runs⟩ := shell_files (by decide : 4294967296 ≤ 4294967296) blankKernel_fresh
    (by decide +kernel) long (show smallFs.Compact from by decide)
  refine ⟨M, fun name => holds.absent name (blankDrive_absent name), fun calls k' run => ?_⟩
  obtain ⟨⟨M', trace, -⟩, -⟩ := runs calls k' run
  exact ⟨M', trace⟩

end QuantumKernel.Shell
