import QuantumKernel.Fat32.ByteRefinement

/-! # Runs on byte arrays

The calls of a session, taken one after another, are calls on byte arrays with the same
replies and, for `fat32_read`, the same bytes in the caller's buffer.
-/

namespace QuantumKernel.Fat32

open ByteStore LinkedTable Transition BlockStore

variable {g : Fat32Fs} {cwd : UInt32} {A B : FileStore} {F F' : Files} {t t' : Session}
  {call : FsCall} {reply : Reply} {size : UInt32} {h : Nat} {fuel : Nat} {l : List UInt32}
  {buffer : Option Bytes}

/-- The number of clusters that the FAT on the drive has free. -/
def Session.space (t : Session) : Nat := (t.machine.fs.volume.freeClusters t.machine.fs.gFs).card

theorem InOrder.space (order : InOrder g cwd t A) : t.space = A.space g := by
  rw [Session.space, order.1.stores.volume_eq, order.1.stores.gFs]
  rfl

/-! ## One call -/

theorem Session.step_of_read {status : Int32} {buffer' : Option Bytes} {file' : Fat32File}
    {fs' : Fat32State}
    (run : fat32Read fuel t.machine.fs (t.machine.file h) buffer size =
      some (status, buffer', file', fs')) :
    t.step fuel (.read h buffer size) =
      some (⟨status, buffer'⟩, ⟨⟨fs', Function.update t.machine.file h file'⟩, t.opened⟩) := by
  simp [Session.step, Machine.step, run, openedAfter]

/-- `fat32_read` on an open handle, by the bytes of its file. -/
theorem fat32Read_bytes {v : Volume} {s : Fat32State} {file : Fat32File} {bytes : List UInt8}
    (enough : 4294967296 ≤ fuel) (opened : file.isOpen = true)
    (reads : v.Reads g file.firstCluster file.fileSize bytes) (inside : file.position ≤ file.fileSize)
    (small : file.position.toNat + size.toNat < 2147483648) (buffer : Bytes)
    (stores : Stores g cwd v s) :
    ∃ n current s', n = min (file.position.toNat + size.toNat) bytes.length - file.position.toNat ∧
      fat32Read fuel s file (some buffer) size = some ((UInt32.ofNat n).toInt32,
        some fun k => if k < n then bytes.getD (file.position.toNat + k) 0 else buffer k,
        { file with currentCluster := current, position := file.position + UInt32.ofNat n }, s') := by
  have length := reads.length
  rw [UInt32.le_iff_toNat_le] at inside
  by_cases atEnd : file.fileSize ≤ file.position
  · refine ⟨0, file.currentCluster, s, ?_, ?_⟩
    · rw [UInt32.le_iff_toNat_le] at atEnd
      omega
    · rw [fat32Read_end fuel opened atEnd buffer size]
      simp
  · have before := UInt32.not_le.mp atEnd
    have noWrap : file.position.toNat + size.toNat < 4294967296 := by omega
    have count := readCount_toNat before noWrap
    rw [UInt32.lt_iff_toNat_lt] at before
    obtain ⟨l, start, room, rfl⟩ := reads
    rcases start with ⟨-, rfl⟩ | chain
    · have nothing : file.fileSize.toNat = 0 := by simpa using room
      omega
    · obtain ⟨buffer', current, s', run, -, contents⟩ :=
        fat32Read_spec enough opened chain room (UInt32.lt_iff_toNat_lt.mpr before) noWrap buffer
          stores
      refine ⟨(readCount file size).toNat, current, s', by rw [count, length], ?_⟩
      rw [run, UInt32.ofNat_toNat]
      have same : buffer' = fun k => if k < (readCount file size).toNat then
          ((List.range file.fileSize.toNat).map (v.byteAt g l)).getD (file.position.toNat + k) 0
          else buffer k := by
        funext k
        rw [contents k]
        split
        · rename_i inCount
          rw [List.getD_eq_getElem _ _ (by simp; omega)]
          simp
        · rfl
      rw [same]

/-- After a read only the handle has changed, to what `fat32_read` made of it. -/
theorem InOrder.after_read {status : Int32} {buffer' : Option Bytes} {p : UInt32}
    {current : UInt32} {fs' : Fat32State} (order : InOrder g cwd t A) (enough : 4294967296 ≤ fuel)
    (done : t.step fuel (.read h buffer size) = some (reply, t'))
    (run : fat32Read fuel t.machine.fs (A.file h) buffer size = some (status, buffer',
      { A.file h with currentCluster := current, position := p }, fs')) :
    reply = ⟨status, buffer'⟩ ∧ InOrder g cwd t' { A with
      file := Function.update A.file h
        { A.file h with currentCluster := current, position := p } } := by
  obtain ⟨B, next, shows_, consistent⟩ := order.step enough (show Careful t (.read h buffer size)
    from trivial) done
  rw [← order.1.file] at run
  have stepped := Session.step_of_read run
  rw [done] at stepped
  cases stepped
  refine ⟨rfl, ?_⟩
  cases next with
  | read _ _ _ _ current' position' =>
    have files : Function.update t.machine.file h
        { t.machine.file h with currentCluster := current, position := p } =
        Function.update A.file h
          { A.file h with currentCluster := current', position := position' } := shows_.file
    rw [order.1.file] at files
    have here := congrFun files h
    rw [Function.update_self, Function.update_self] at here
    rw [here]
    exact ⟨shows_, consistent⟩

theorem InOrder.step_read (order : InOrder g cwd t A) (refines : A.Refines g F)
    (enough : 4294967296 ≤ fuel)
    (small : (A.file h).isOpen = true → (A.file h).position.toNat + size.toNat < 2147483648)
    (done : t.step fuel (.read h buffer size) = some (reply, t')) :
    ∃ B F', F.Next (A.space g) (B.space g) (.read h buffer size) reply F' ∧ InOrder g cwd t' B ∧
      B.Refines g F' := by
  -- a call that reads nothing leaves the handle as it is
  have idle {status : Int32} {buffer' : Option Bytes}
      (run : fat32Read fuel t.machine.fs (A.file h) buffer size =
        some (status, buffer', A.file h, t.machine.fs)) :
      reply = ⟨status, buffer'⟩ ∧ InOrder g cwd t' A := by
    obtain ⟨same, after⟩ := order.after_read enough done run
    have unchanged : InOrder g cwd t' { A with file := Function.update A.file h (A.file h) } := after
    rw [Function.update_eq_self] at unchanged
    exact ⟨same, unchanged⟩
  cases buffer with
  | none =>
    obtain ⟨rfl, after⟩ := idle rfl
    exact ⟨A, F, .readNull h size, after, refines⟩
  | some buffer =>
    cases isOpen : (A.file h).isOpen with
    | false =>
      have refused : fat32Read fuel t.machine.fs (A.file h) (some buffer) size =
          some (-1, some buffer, A.file h, t.machine.fs) := by simp [fat32Read, isOpen]
      obtain ⟨rfl, after⟩ := idle refused
      exact ⟨A, F, .readClosed h buffer size ((refines.handle h).trans (if_neg (by simp [isOpen]))),
        after, refines⟩
    | true =>
      obtain ⟨bytes, stored, reads⟩ := refines.open_reads order.2 isOpen
      have noWrap := small isOpen
      have inside := refines.inside h isOpen
      obtain ⟨n, current, fs', count, run⟩ :=
        fat32Read_bytes enough isOpen reads inside noWrap buffer order.1.stores
      obtain ⟨rfl, after⟩ := order.after_read enough done run
      have length := reads.length
      rw [UInt32.le_iff_toNat_le] at inside
      have position : ((A.file h).position + UInt32.ofNat n).toNat = (A.file h).position.toNat + n := by
        rw [UInt32.toNat_add, UInt32.toNat_ofNat']
        omega
      have moved := refines.moved (f := { A.file h with
          currentCluster := current, position := (A.file h).position + UInt32.ofNat n })
        isOpen isOpen rfl rfl rfl (by
          simp only [UInt32.le_iff_toNat_le, position]
          omega)
      simp only [position] at moved
      exact ⟨_, _, .read h buffer size _ bytes _ n ((refines.handle h).trans (if_pos isOpen)) stored
        count (toInt_count (by omega)), after, moved⟩

/-- The session shows a store that holds the abstract files. -/
def ByteView (g : Fat32Fs) (cwd : UInt32) (t : Session) (F : Files) : Prop :=
  ∃ A, InOrder g cwd t A ∧ A.Refines g F

/-- One call, on byte arrays. -/
theorem ByteView.step (view : ByteView g cwd t F) (enough : 4294967296 ≤ fuel)
    (allowed : ByteCall t call) (done : t.step fuel call = some (reply, t')) :
    ∃ F', F.Next t.space t'.space call reply F' ∧ ByteView g cwd t' F' := by
  obtain ⟨A, order, refines⟩ := view
  obtain ⟨status, buffer⟩ := reply
  have file := order.1.file
  have opened := order.1.opened
  have careful := allowed.careful
  obtain ⟨B, next, orderB⟩ := order.step enough careful done
  rw [order.space]
  -- only a read delivers bytes
  have bare (noRead : ∀ h buffer size, call ≠ .read h buffer size) : buffer = none :=
    Session.step_buffer done noRead
  cases call with
  | read h buffer size =>
    obtain ⟨B, F', step, orderB, refinesB⟩ := order.step_read refines enough
      (by rw [← file]; exact allowed) done
    exact ⟨F', by rwa [orderB.space], B, orderB, refinesB⟩
  | «open» h path flags =>
    obtain rfl := bare (by simp)
    cases path with
    | none =>
      cases next
      exact ⟨F, .openNull h flags, A, orderB, refines⟩
    | some path =>
      obtain ⟨closed, notDead, alone⟩ := allowed
      rw [Careful, file, opened] at careful
      rw [file, opened] at alone
      obtain ⟨F', step, refinesB⟩ := refines.step_open order.2 careful notDead alone next orderB.2
      exact ⟨F', by rwa [orderB.space], B, orderB, refinesB⟩
  | write h data size =>
    obtain rfl := bare (by simp)
    obtain ⟨F', step, refinesB⟩ := refines.step_write order.2 (by rw [← file]; exact allowed) next
    exact ⟨F', by rwa [orderB.space], B, orderB, refinesB⟩
  | seek h offset whence =>
    obtain rfl := bare (by simp)
    obtain ⟨F', step, refinesB⟩ := refines.step_seek order.2 (by rw [← file]; exact allowed) next
    exact ⟨F', by rwa [orderB.space], B, orderB, refinesB⟩
  | close h =>
    obtain rfl := bare (by simp)
    obtain ⟨F', step, refinesB⟩ := refines.step_close order.2 next
    exact ⟨F', by rwa [orderB.space], B, orderB, refinesB⟩
  | unlink path =>
    obtain rfl := bare (by simp)
    rw [Careful, file, opened] at careful
    obtain ⟨F', step, refinesB⟩ := refines.step_unlink order.2 careful next
    exact ⟨F', by rwa [orderB.space], B, orderB, refinesB⟩
  | mkdir path => exact absurd allowed id

/-! ## Runs -/

/-- A call on byte arrays, on the drives before and after it. -/
def FilesBeside (t t' : Session) (F : Files) (call : FsCall) (reply : Reply) (F' : Files) : Prop :=
  F.Next t.space t'.space call reply F'

/-- A run is a trace of the byte arrays. -/
theorem ByteView.run (view : ByteView g cwd t F) (enough : 4294967296 ≤ fuel)
    {calls : List (FsCall × Reply)} (run : Run (Session.step fuel) ByteCall t calls t') :
    ∃ F', Trace (Beside (Session.step fuel) FilesBeside) (t, F) calls (t', F') ∧ ByteView g cwd t' F' :=
  run.beside (ByteView g cwd) (fun _ _ _ _ _ view allowed done => view.step enough allowed done) view

/-- The files of a directory whose entries are up to date. -/
structure Volume.Holds (g : Fat32Fs) (v : Volume) (l : List UInt32)
    (contents : ShortName → Option (List UInt8)) : Prop where
  present : ∀ name σ, v.Names (g.dirSlots l) name σ → ∃ bytes, contents name = some bytes ∧
    v.Reads g (v.dirent σ).firstCluster (v.dirent σ).fileSize bytes
  absent : ∀ name, (∀ σ, ¬ v.Names (g.dirSlots l) name σ) → contents name = none

/-- The chain of every entry is long enough for the size in the entry. -/
def LongEnough (g : Fat32Fs) (v : Volume) (l : List UInt32) : Prop :=
  ∀ σ ∈ g.dirSlots l, (v.dirent σ).IsLive →
    ∃ bytes, v.Reads g (v.dirent σ).firstCluster (v.dirent σ).fileSize bytes

open Classical in
/-- The abstract files of a directory. -/
noncomputable def filesOf (g : Fat32Fs) (v : Volume) (l : List UInt32) : Files where
  contents name :=
    if found : ∃ bytes σ, v.Names (g.dirSlots l) name σ ∧
        v.Reads g (v.dirent σ).firstCluster (v.dirent σ).fileSize bytes then
      some found.choose
    else none
  handle _ := none

theorem filesOf_holds {v : Volume} (unique : v.UniqueNames (g.dirSlots l)) (long : LongEnough g v l) :
    v.Holds g l (filesOf g v l).contents := by
  refine ⟨fun name σ names => ?_, fun name nobody => dif_neg ?_⟩
  · obtain ⟨bytes, reads⟩ := long σ names.1 names.2.1
    have found : ∃ bytes σ, v.Names (g.dirSlots l) name σ ∧
        v.Reads g (v.dirent σ).firstCluster (v.dirent σ).fileSize bytes := ⟨bytes, σ, names, reads⟩
    obtain ⟨τ, names', chosen⟩ := found.choose_spec
    have same : τ = σ := unique τ names'.1 σ names.1 names'.2.1 names.2.1
      (names'.2.2.trans names.2.2.symm)
    subst same
    exact ⟨found.choose, dif_pos found, chosen⟩
  · rintro ⟨-, σ, names, -⟩
    exact nobody σ names

/-- A fresh session shows the files of its directory. -/
theorem Fresh.byteView (fresh : Fresh t l)
    (unique : t.machine.fs.volume.UniqueNames (t.machine.fs.gFs.dirSlots l))
    (long : LongEnough t.machine.fs.gFs t.machine.fs.volume l) :
    ByteView t.machine.fs.gFs t.machine.fs.gCurrentDirCluster t
      (filesOf t.machine.fs.gFs t.machine.fs.volume l) := by
  obtain ⟨shows_, consistent⟩ := fresh.shows
  have holds := filesOf_holds unique long
  refine ⟨_, ⟨shows_, consistent⟩, unique, ?_, ?_, holds.absent, ?_, ?_⟩
  · intro h k isOpen
    exact absurd isOpen (by simp [Session.store, storeOf, fresh.closed h])
  · intro name σ first size names view
    cases view with
    | handle h isOpen => exact absurd isOpen (by simp [Session.store, storeOf, fresh.closed h])
    | entry => exact holds.present name σ names
  · intro h
    simp [Session.store, storeOf, fresh.closed h, filesOf]
  · intro h isOpen
    exact absurd isOpen (by simp [Session.store, storeOf, fresh.closed h])

/-- With every handle closed the files are those on the drive. -/
theorem ByteView.holds (view : ByteView g cwd t F) (closed : ∀ h, (t.machine.file h).isOpen = false) :
    ∃ l, FatChain t.machine.fs.gFs t.machine.fs.volume t.machine.fs.gCurrentDirCluster l ∧
      t.machine.fs.volume.Holds t.machine.fs.gFs l F.contents := by
  obtain ⟨A, ⟨shows_, consistent⟩, refines⟩ := view
  have nobody : ∀ h, (A.file h).isOpen ≠ true := fun h => by simp [← shows_.file, closed h]
  rw [shows_.stores.volume_eq, shows_.stores.current, shows_.stores.gFs]
  exact ⟨A.directory, consistent.chain,
    fun name σ names => refines.present name σ _ _ names (.entry fun h isOpen => absurd isOpen (nobody h)),
    refines.absent⟩

/-- **Open files are independent byte arrays.**  The session starts on a volume in order,
without open handles; `F` are the files in the entries.  In a run whose files have one
handle each, every call answers like the call on byte arrays, with the same bytes read
into the caller's buffer; a write stops early only when no cluster is free after it; the
handles are where the byte arrays' are; once all handles are closed the entries and
chains on the drive hold the byte arrays; and the next call returns. -/
theorem files_are_byte_arrays (enough : 4294967296 ≤ fuel) (fresh : Fresh t l)
    (unique : t.machine.fs.volume.UniqueNames (t.machine.fs.gFs.dirSlots l))
    (long : LongEnough t.machine.fs.gFs t.machine.fs.volume l) :
    ∃ F : Files, t.machine.fs.volume.Holds t.machine.fs.gFs l F.contents ∧
      (∀ h, F.handle h = none) ∧
      ∀ calls t', Run (Session.step fuel) ByteCall t calls t' →
        (∃ F', Trace (Beside (Session.step fuel) FilesBeside) (t, F) calls (t', F') ∧
          (∀ h, F'.handle h = if (t'.machine.file h).isOpen then
            some ⟨t'.opened h, (t'.machine.file h).position.toNat⟩ else none) ∧
          ((∀ h, (t'.machine.file h).isOpen = false) → ∃ l',
            FatChain t'.machine.fs.gFs t'.machine.fs.volume t'.machine.fs.gCurrentDirCluster l' ∧
            t'.machine.fs.volume.Holds t'.machine.fs.gFs l' F'.contents)) ∧
        ∀ call, ByteCall t' call → ∃ reply t'', t'.step fuel call = some (reply, t'') := by
  refine ⟨filesOf t.machine.fs.gFs t.machine.fs.volume l, filesOf_holds unique long,
    fun _ => rfl, fun calls t' run => ?_⟩
  obtain ⟨F', trace, view⟩ := (fresh.byteView unique long).run enough run
  have holds := view.holds
  obtain ⟨A, order, refines⟩ := view
  refine ⟨⟨F', trace, fun h => ?_, holds⟩, fun call allowed =>
    order.returns enough allowed.careful⟩
  rw [order.1.file, order.1.opened]
  exact refines.handle h

theorem files_are_byte_arrays_blank :
    ∃ F : Files, (∀ name, F.contents name = none) ∧
      ∀ calls t', Run (Session.step 4294967296) ByteCall blankSession calls t' →
        ∃ F', Trace (Beside (Session.step 4294967296) FilesBeside) (blankSession, F) calls (t', F') := by
  have long : LongEnough smallFs (mountedOn smallFs blankDrive).volume [2] := fun σ member live =>
    absurd ⟨member, live, rfl⟩ (blankDrive_absent _ σ)
  obtain ⟨F, holds, -, runs⟩ := files_are_byte_arrays (by decide : 4294967296 ≤ 4294967296)
    blankSession_fresh (by decide +kernel) long
  refine ⟨F, fun name => holds.absent name (blankDrive_absent name), fun calls t' run => ?_⟩
  obtain ⟨⟨F', trace, -⟩, -⟩ := runs calls t' run
  exact ⟨F', trace⟩

end QuantumKernel.Fat32
