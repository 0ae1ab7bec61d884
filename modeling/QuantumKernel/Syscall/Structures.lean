import QuantumKernel.Fat32.Directory
import QuantumKernel.Library.CStruct
import QuantumKernel.Net.Stack

/-! # The structures that system calls fill in

`SYS_READDIR`, `SYS_ARP_GET_ENTRY`, `SYS_NET_STATUS` and `SYS_RTC_TIME` store into a structure
of the caller, at the offsets of the kernel's declaration.  The user side declares the
structures again.  Three of the declarations are the same; `file_info_t` has a name of 32
bytes where the kernel has 256.
-/

namespace QuantumKernel.Syscall

open ByteStore CStruct Packed Fat32

/-! ## Declarations -/

inductive FieldName
  | name | size | attr | firstCluster | createDate | createTime | writeDate | writeTime
  | ip | gateway | netmask | mac | linkUp | txPackets | rxPackets | txErrors | rxErrors | valid
  | sec | min | hour | day | month | year
  deriving DecidableEq

/-- `fat32_file_info_t` of the kernel. -/
def fat32FileInfoT : Decl FieldName :=
  [(.name, .array 256), (.size, .int32), (.attr, .int8), (.firstCluster, .int32), (.createDate, .int16),
    (.createTime, .int16), (.writeDate, .int16), (.writeTime, .int16)]

/-- `file_info_t` of the user side. -/
def fileInfoT : Decl FieldName :=
  [(.name, .array 32), (.size, .int32), (.attr, .int8), (.firstCluster, .int32)]

/-- `arp_entry_sys_t` of the kernel. -/
def arpEntrySysT : Decl FieldName := [(.ip, .int32), (.mac, .array 6), (.valid, .int32)]

/-- `arp_entry_t` of the user side. -/
def arpEntryT : Decl FieldName := [(.ip, .int32), (.mac, .array 6), (.valid, .int32)]

/-- `net_status_t` of the kernel. -/
def kernelNetStatusT : Decl FieldName :=
  [(.ip, .int32), (.gateway, .int32), (.netmask, .int32), (.mac, .array 6), (.linkUp, .int32),
    (.txPackets, .int32), (.rxPackets, .int32), (.txErrors, .int32), (.rxErrors, .int32)]

/-- `net_status_t` of the user side. -/
def userNetStatusT : Decl FieldName :=
  [(.ip, .int32), (.gateway, .int32), (.netmask, .int32), (.mac, .array 6), (.linkUp, .int32),
    (.txPackets, .int32), (.rxPackets, .int32), (.txErrors, .int32), (.rxErrors, .int32)]

/-- `rtc_time_t` of the kernel. -/
def kernelRtcTimeT : Decl FieldName :=
  [(.sec, .int8), (.min, .int8), (.hour, .int8), (.day, .int8), (.month, .int8), (.year, .int16)]

/-- `rtc_time_t` of the user side. -/
def userRtcTimeT : Decl FieldName :=
  [(.sec, .int8), (.min, .int8), (.hour, .int8), (.day, .int8), (.month, .int8), (.year, .int16)]

/-! ## The clock -/

structure RtcTime where
  sec : UInt8
  min : UInt8
  hour : UInt8
  day : UInt8
  month : UInt8
  year : UInt16

/-- `bcd_to_dec`. -/
def bcdToDec (val : UInt8) : UInt8 := (val >>> 4) * 10 + (val &&& (0x0F : UInt8))

/-- `rtc_read`, with what the registers of the clock give. -/
def rtcRead (readReg : UInt8 → UInt8) : RtcTime where
  sec := bcdToDec (readReg 0x00)
  min := bcdToDec (readReg 0x02)
  hour := bcdToDec (readReg 0x04)
  day := bcdToDec (readReg 0x07)
  month := bcdToDec (readReg 0x08)
  year := (bcdToDec (readReg 0x09)).toUInt16 + 2000

/-- `get_timezone_offset`. -/
def getTimezoneOffset (month day : Nat) : Nat :=
  if 3 < month ∧ month < 10 then 3
  else if month = 3 ∧ 25 ≤ day then 3
  else if month = 10 ∧ day ≤ 31 then 3
  else 2

/-- `rtc_get_local_time`. -/
def rtcGetLocalTime (readReg : UInt8 → UInt8) : RtcTime :=
  let t := rtcRead readReg
  { t with hour := UInt8.ofNat ((t.hour.toNat + getTimezoneOffset t.month.toNat t.day.toNat) % 24) }

/-! ## The stores -/

/-- The `memset` of the name. -/
def clearedName : Store := ⟨0, List.replicate 256 0⟩

/-- The stores of `fat32_readdir` into the name. -/
def nameStores (chars : List UInt8) : List Store := [clearedName, ⟨0, chars⟩, ⟨chars.length, [0]⟩]

/-- What a call has to store: a directory entry, an ARP table entry, the state of the network, or the
registers of the clock and what is in the gaps of the structure that is copied. -/
inductive SharedValue
  | dirent (entry : Fat32Dirent)
  | arpEntry (entry : Net.ArpEntry)
  | netStatus (ip gateway netmask : UInt32) (mac : Net.Mac)
  | clock (readReg : UInt8 → UInt8) (gaps : Bytes)

namespace SharedValue

/-- The value of a field, as bytes. -/
def fieldBytes : SharedValue → FieldName → List UInt8
  | dirent entry, .name => readdirName entry.name ++ List.replicate (256 - (readdirName entry.name).length) 0
  | dirent entry, .size => le32 entry.fileSize
  | dirent entry, .attr => [entry.attr]
  | dirent entry, .firstCluster => le32 entry.firstCluster
  | arpEntry entry, .ip => le32 entry.ip
  | arpEntry entry, .mac => entry.mac.toList
  | arpEntry entry, .valid => le32 (if entry.valid then 1 else 0)
  | netStatus ip _ _ _, .ip => le32 ip
  | netStatus _ gateway _ _, .gateway => le32 gateway
  | netStatus _ _ netmask _, .netmask => le32 netmask
  | netStatus _ _ _ mac, .mac => mac.toList
  | netStatus _ _ _ _, .linkUp => le32 1
  | netStatus _ _ _ _, .txPackets => le32 0
  | netStatus _ _ _ _, .rxPackets => le32 0
  | netStatus _ _ _ _, .txErrors => le32 0
  | netStatus _ _ _ _, .rxErrors => le32 0
  | clock readReg _, .sec => [(rtcGetLocalTime readReg).sec]
  | clock readReg _, .min => [(rtcGetLocalTime readReg).min]
  | clock readReg _, .hour => [(rtcGetLocalTime readReg).hour]
  | clock readReg _, .day => [(rtcGetLocalTime readReg).day]
  | clock readReg _, .month => [(rtcGetLocalTime readReg).month]
  | clock readReg _, .year => le16 (rtcGetLocalTime readReg).year
  | _, _ => []

/-- The stores of `fat32_readdir` behind the name. -/
def direntFields (entry : Fat32Dirent) : List Store :=
  [⟨offsetOf fat32FileInfoT .size, le32 entry.fileSize⟩, ⟨offsetOf fat32FileInfoT .attr, [entry.attr]⟩,
    ⟨offsetOf fat32FileInfoT .firstCluster, le32 entry.firstCluster⟩]

/-- What the kernel stores. -/
def stores : SharedValue → List Store
  | dirent entry => nameStores (readdirName entry.name) ++ direntFields entry
  | arpEntry entry => assign arpEntrySysT (arpEntry entry).fieldBytes
  | netStatus ip gateway netmask mac => assign kernelNetStatusT (netStatus ip gateway netmask mac).fieldBytes
  | clock readReg gaps => [copyOf kernelRtcTimeT (clock readReg gaps).fieldBytes gaps]

/-- The structure that the caller has declared. -/
def userDecl : SharedValue → Decl FieldName
  | dirent _ => fileInfoT
  | arpEntry _ => arpEntryT
  | netStatus _ _ _ _ => userNetStatusT
  | clock _ _ => userRtcTimeT

/-- The stores stay inside of the structure of the caller, and it finds every value in its field. -/
structure Agrees (value : SharedValue) : Prop where
  inside : ∀ s ∈ value.stores, s.offset + s.bytes.length ≤ sizeof value.userDecl
  fields : ∀ mem, ∀ field ∈ layout value.userDecl,
    readBytes (writeAll mem value.stores) field.offset field.type.size = value.fieldBytes field.name

def isDirent : SharedValue → Bool
  | dirent _ => true
  | _ => false

end SharedValue

variable {entry : Fat32Dirent} {info : Fat32FileInfo} {s s' : Fat32State} {cluster index : UInt32} {fuel : Nat}
  {reply : ReaddirReply} {value : SharedValue}

/-! ## `fat32_readdir` -/

theorem fat32ReaddirLoop_entry {entryInCluster : Nat}
    (done : fat32ReaddirLoop index info fuel s cluster entryInCluster = some (reply, s')) (found : reply.status = 0) :
    ∃ entry, reply.info = readdirInfo entry info := by
  induction fuel generalizing s cluster entryInCluster with
  | zero => cases done
  | succ fuel ih =>
    rw [fat32ReaddirLoop] at done
    split at done
    · simp only at done
      split at done
      · cases done
        cases found
      · split at done
        · cases done
          cases found
        · cases done
          exact ⟨_, rfl⟩
        · exact ih done
    · cases done
      cases found

/-- A call that returns an entry has filled in the values of a directory entry. -/
theorem fat32Readdir_entry (done : fat32Readdir fuel s cluster index info = some (reply, s'))
    (found : reply.status = 0) : ∃ entry, reply.info = readdirInfo entry info :=
  fat32ReaddirLoop_entry done found

theorem length_readdirName (name : ShortName) : (readdirName name).length ≤ 12 := by
  have base : (((List.ofFn name).take 8).takeWhile (· ≠ 0x20)).length ≤ 8 :=
    (List.takeWhile_sublist _).length_le.trans (List.length_take_le ..)
  have extension : (((List.ofFn name).drop 8).takeWhile (· ≠ 0x20)).length ≤ 3 :=
    (List.takeWhile_sublist _).length_le.trans (by simp)
  rw [readdirName]
  split
  · rw [List.length_append, List.length_cons]
    omega
  · omega

theorem length_clearedName : clearedName.bytes.length = 256 := List.length_replicate

/-- A byte of the name after `memset`, the loops and the final zero. -/
theorem name_byte (chars : List UInt8) (mem : Bytes) {k : Nat} (inside : k < 256) :
    writeAll mem (nameStores chars) k = chars.getD k 0 := by
  show write (write (write mem clearedName) ⟨0, chars⟩) ⟨chars.length, [0]⟩ k = _
  rw [write]
  by_cases last : k = chars.length
  · rw [copy_inside last.ge (by simp [last]), last]
    simp
  · have outside : k < chars.length ∨ chars.length + [(0 : UInt8)].length ≤ k := by
      rw [List.length_singleton]
      omega
    rw [copy_outside outside, write]
    by_cases before : k < chars.length
    · rw [copy_inside (Nat.zero_le k) (by rwa [Nat.zero_add])]
      rfl
    · have cleared : write mem clearedName k = clearedName.bytes.getD k 0 :=
        copy_inside (Nat.zero_le k) (by rwa [length_clearedName, clearedName, Nat.zero_add])
      rw [copy_outside (Or.inr (by rwa [Nat.zero_add, ← not_lt])), cleared, List.getD_eq_getElem?_getD,
        List.getD_eq_getElem?_getD, List.getElem?_eq_none (not_lt.mp before), clearedName,
        List.getElem?_replicate, if_pos inside]
      rfl

/-- The fields behind the name do not touch it. -/
theorem direntFields_behind (entry : Fat32Dirent) (mem : Bytes) {k : Nat} (inside : k < 256) :
    writeAll mem (SharedValue.direntFields entry) k = mem k := by
  have size : offsetOf fat32FileInfoT .size = 256 := by decide
  have attr : offsetOf fat32FileInfoT .attr = 260 := by decide
  have firstCluster : offsetOf fat32FileInfoT .firstCluster = 264 := by decide
  rw [SharedValue.direntFields, size, attr, firstCluster]
  refine writeAll_outside fun s member => Or.inl ?_
  simp only [List.mem_cons, List.not_mem_nil, or_false] at member
  rcases member with rfl | rfl | rfl
  · exact inside
  · show k < 260
    omega
  · show k < 264
    omega

/-- The stores of `fat32_readdir` make the name in the kernel's own structure what the model of the
call says. -/
theorem dirent_name_stored (entry : Fat32Dirent) (info : Fat32FileInfo) (mem : Bytes) :
    readBytes (writeAll mem (SharedValue.dirent entry).stores) 0 256 = (readdirInfo entry info).name := by
  have short := length_readdirName entry.name
  rw [readdirInfo, SharedValue.stores, writeAll_append]
  generalize readdirName entry.name = chars at short
  refine List.ext_getElem (by simp; omega) fun k bound bound' => ?_
  have inside : k < 256 := by rwa [length_readBytes] at bound
  simp only [readBytes, List.getElem_map, List.getElem_range, Nat.zero_add, direntFields_behind entry _ inside,
    name_byte chars mem inside]
  by_cases before : k < chars.length
  · rw [List.getElem_append_left before, List.getD_eq_getElem?_getD, List.getElem?_eq_getElem before,
      Option.getD_some]
  · rw [List.getElem_append_right (not_lt.mp before), List.getElem_replicate, List.getD_eq_getElem?_getD,
      List.getElem?_eq_none (not_lt.mp before), Option.getD_none]

/-! ## Agreement -/

/-- With the same declaration on both sides, assignments agree. -/
theorem assign_agrees {decl : Decl FieldName} (lengths : ∀ f ∈ decl, (value.fieldBytes f.1).length = f.2.size)
    (user : value.userDecl = decl) (stores : value.stores = assign decl value.fieldBytes) : value.Agrees := by
  constructor
  · intro s member
    rw [stores] at member
    rw [user]
    exact assign_inside lengths member
  · intro mem field member
    rw [user] at member
    rw [stores]
    exact assign_read lengths member mem

/-- The first store for a directory entry leaves the structure of the caller. -/
theorem dirent_not_agrees (entry : Fat32Dirent) : ¬ (SharedValue.dirent entry).Agrees := by
  intro agrees
  have first : clearedName.offset + clearedName.bytes.length ≤ sizeof fileInfoT :=
    agrees.inside clearedName List.mem_cons_self
  rw [length_clearedName] at first
  exact absurd first (by decide)

/-- The two sides agree on every value but a directory entry. -/
theorem shared_structures_agree_iff (value : SharedValue) : value.Agrees ↔ value.isDirent = false := by
  constructor
  · intro agrees
    cases value with
    | dirent entry => exact absurd agrees (dirent_not_agrees entry)
    | arpEntry => rfl
    | netStatus => rfl
    | clock => rfl
  · intro other
    cases value with
    | dirent => cases other
    | arpEntry entry =>
      have lengths : ∀ f ∈ arpEntrySysT, ((SharedValue.arpEntry entry).fieldBytes f.1).length = f.2.size := by
        intro f member
        simp only [arpEntrySysT, List.mem_cons, List.not_mem_nil, or_false] at member
        rcases member with rfl | rfl | rfl
        · rfl
        · exact entry.mac.toList_length
        · rfl
      exact assign_agrees lengths rfl rfl
    | netStatus ip gateway netmask mac =>
      have lengths : ∀ f ∈ kernelNetStatusT,
          ((SharedValue.netStatus ip gateway netmask mac).fieldBytes f.1).length = f.2.size := by
        intro f member
        simp only [kernelNetStatusT, List.mem_cons, List.not_mem_nil, or_false] at member
        rcases member with rfl | rfl | rfl | rfl | rfl | rfl | rfl | rfl | rfl
        · rfl
        · rfl
        · rfl
        · exact mac.toList_length
        · rfl
        · rfl
        · rfl
        · rfl
        · rfl
      exact assign_agrees lengths rfl rfl
    | clock readReg gaps =>
      have lengths : ∀ f ∈ kernelRtcTimeT, ((SharedValue.clock readReg gaps).fieldBytes f.1).length = f.2.size := by
        intro f member
        simp only [kernelRtcTimeT, List.mem_cons, List.not_mem_nil, or_false] at member
        rcases member with rfl | rfl | rfl | rfl | rfl | rfl
        · rfl
        · rfl
        · rfl
        · rfl
        · rfl
        · rfl
      constructor
      · intro s member
        rw [List.mem_singleton.mp member]
        show 0 + (readBytes _ 0 (sizeof kernelRtcTimeT)).length ≤ _
        rw [length_readBytes, Nat.zero_add]
        exact le_rfl
      · intro mem field member
        exact copyOf_read lengths member gaps mem

/-- The entry of an empty file A. -/
def shortEntry : Fat32Dirent where
  name i := if i = ⟨0, ShortName.neZero.out.bot_lt⟩ then 0x41 else 0x20
  attr := fat32AttrArchive
  ntReserved := 0
  createTimeTenth := 0
  createTime := 0
  createDate := 0
  accessDate := 0
  firstClusterHigh := 0
  writeTime := 0
  writeDate := 0
  firstClusterLow := 0
  fileSize := 0

/-- `SYS_READDIR` clears 256 bytes of a structure of 44. -/
theorem readdir_overflows_user : ¬ (SharedValue.dirent shortEntry).Agrees := dirent_not_agrees shortEntry

end QuantumKernel.Syscall
