import QuantumKernel.Ata
import QuantumKernel.Library.Transition

/-! # The ATA driver at its ports

`ata_read_sector` and `ata_write_sector` with their waiting loops, their port writes and the 256
transfers through the data port.  Behind the ports is a drive that moves the sectors whose number
was programmed; what it answers on the status port is a stream that nothing is known about.

A successful call does what the sector device of `Ata` does.  It is a faithful store for the
addresses below 2^28, and for no others: the driver drops the high bits of an address.
-/

namespace QuantumKernel

open ByteStore Transition

/-! ## The drive -/

/-- The ports of the primary channel that the driver writes bytes to. -/
inductive AtaPort
  | secCount | lbaLo | lbaMid | lbaHi | drive | command

def ataCmdReadPio : UInt8 := 0x20

def ataCmdWritePio : UInt8 := 0x30

/-- The command `0xE7` that follows a write. -/
def ataCmdFlush : UInt8 := 0xE7

/-- What the data port is connected to: a sector, how many sectors are left with it, and the next
word of it. -/
inductive AtaTransfer
  | idle
  | reading (sector left word : Nat)
  | writing (sector left word : Nat) (words : Bytes)

structure AtaPorts where
  /-- Sector contents, by 28-bit sector number. -/
  sector : Nat → Bytes
  registers : AtaRegisters
  secCount : UInt8
  transfer : AtaTransfer
  /-- The n-th value that is read from the status port. -/
  status : Nat → UInt8
  /-- Reads of the status port so far. -/
  reads : Nat

namespace AtaPorts

variable {p q : AtaPorts} {lba lba2 : UInt32} {buffer : Bytes} {err : AtaError}

/-- The drive takes a count of zero for 256. -/
def count (p : AtaPorts) : Nat := if p.secCount = 0 then 256 else p.secCount.toNat

def issued (p : AtaPorts) (command : UInt8) : AtaTransfer :=
  if command = ataCmdReadPio then .reading p.registers.sector p.count 0
  else if command = ataCmdWritePio then .writing p.registers.sector p.count 0 fun _ => 0
  else .idle

def outb (p : AtaPorts) (port : AtaPort) (value : UInt8) : AtaPorts :=
  match port with
  | .secCount => { p with secCount := value }
  | .lbaLo => { p with registers.lbaLo := value }
  | .lbaMid => { p with registers.lbaMid := value }
  | .lbaHi => { p with registers.lbaHi := value }
  | .drive => { p with registers.drive := value }
  | .command => { p with transfer := p.issued value }

/-- `inb(ATA_PRIMARY_STATUS)`. -/
def inbStatus (p : AtaPorts) : UInt8 × AtaPorts := (p.status p.reads, { p with reads := p.reads + 1 })

/-- `inw(ATA_PRIMARY_DATA)`.  Nothing drives the port when no data is wanted. -/
def inwData (p : AtaPorts) : UInt16 × AtaPorts :=
  match p.transfer with
  | .reading sector left word =>
    (load16 (p.sector sector) (2 * word), { p with
      transfer :=
        if word + 1 < 256 then .reading sector left (word + 1)
        else if left ≤ 1 then .idle else .reading (sector + 1) (left - 1) 0 })
  | _ => (0xFFFF, p)

/-- `outw(ATA_PRIMARY_DATA, value)`.  The drive stores a sector when its last word is there. -/
def outwData (p : AtaPorts) (value : UInt16) : AtaPorts :=
  match p.transfer with
  | .writing sector left word words =>
    if word + 1 < 256 then
      { p with transfer := .writing sector left (word + 1) (store16 words (2 * word) value) }
    else
      { p with
        sector := Function.update p.sector sector
          (copy (p.sector sector) 0 (store16 words (2 * word) value) 512)
        transfer := if left ≤ 1 then .idle else .writing (sector + 1) (left - 1) 0 fun _ => 0 }
  | _ => p

/-! ## The driver -/

def ataSrBsy : UInt8 := 0x80

def ataSrDrq : UInt8 := 0x08

def ataSrErr : UInt8 := 0x01

/-- The loop of `ata_wait_busy`. -/
def waitBusyLoop : Nat → AtaPorts → AtaError × AtaPorts
  | 0, p => (.timeout, p)
  | timeout + 1, p =>
    if p.inbStatus.1 &&& ataSrBsy = 0 then (.ok, p.inbStatus.2) else waitBusyLoop timeout p.inbStatus.2

def ataWaitBusy (p : AtaPorts) : AtaError × AtaPorts := waitBusyLoop 100000 p

/-- The loop of `ata_wait_drq`. -/
def waitDrqLoop : Nat → AtaPorts → AtaError × AtaPorts
  | 0, p => (.drq, p)
  | timeout + 1, p =>
    if p.inbStatus.1 &&& ataSrErr ≠ 0 then (.device, p.inbStatus.2)
    else if p.inbStatus.1 &&& ataSrDrq ≠ 0 then (.ok, p.inbStatus.2)
    else waitDrqLoop timeout p.inbStatus.2

def ataWaitDrq (p : AtaPorts) : AtaError × AtaPorts := waitDrqLoop 100000 p

/-- The drive, count and address registers, and then the command. -/
def command (p : AtaPorts) (lba : UInt32) (command : UInt8) : AtaPorts :=
  ((((((p.outb .drive (ataProgram lba).drive).outb .secCount 1).outb .lbaLo (ataProgram lba).lbaLo).outb
    .lbaMid (ataProgram lba).lbaMid).outb .lbaHi (ataProgram lba).lbaHi).outb .command command)

/-- `for (i = word; i < 256; i++) buf16[i] = inw(ATA_PRIMARY_DATA);` with `left` rounds to go. -/
def readWords : Nat → Nat → Bytes → AtaPorts → Bytes × AtaPorts
  | 0, _, buffer, p => (buffer, p)
  | left + 1, i, buffer, p =>
    let (word, p) := p.inwData
    readWords left (i + 1) (store16 buffer (2 * i) word) p

/-- `for (i = word; i < 256; i++) outw(ATA_PRIMARY_DATA, buf16[i]);` with `left` rounds to go. -/
def writeWords : Nat → Nat → Bytes → AtaPorts → AtaPorts
  | 0, _, _, p => p
  | left + 1, i, buffer, p => writeWords left (i + 1) buffer (p.outwData (load16 buffer (2 * i)))

/-- `ata_read_sector`, with the buffer afterwards. -/
def ataReadSector (p : AtaPorts) (lba : UInt32) : Option Bytes → AtaError × Option Bytes × AtaPorts
  | none => (.badBuffer, none, p)
  | some buffer =>
    if p.ataWaitBusy.1 ≠ .ok then (.timeout, some buffer, p.ataWaitBusy.2)
    else
      let p := p.ataWaitBusy.2.command lba ataCmdReadPio
      if p.ataWaitDrq.1 ≠ .ok then (p.ataWaitDrq.1, some buffer, p.ataWaitDrq.2)
      else
        let moved := readWords 256 0 buffer p.ataWaitDrq.2
        (.ok, some moved.1, moved.2)

/-- `ata_write_sector`.  The last wait may time out: nobody looks at its answer. -/
def ataWriteSector (p : AtaPorts) (lba : UInt32) : Option Bytes → AtaError × AtaPorts
  | none => (.badBuffer, p)
  | some buffer =>
    if p.ataWaitBusy.1 ≠ .ok then (.timeout, p.ataWaitBusy.2)
    else
      let p := p.ataWaitBusy.2.command lba ataCmdWritePio
      if p.ataWaitDrq.1 ≠ .ok then (p.ataWaitDrq.1, p.ataWaitDrq.2)
      else (.ok, ((writeWords 256 0 buffer p.ataWaitDrq.2).outb .command ataCmdFlush).ataWaitBusy.2)

/-- An `ata_error_t` as an integer. -/
def code : AtaError → Int32
  | .ok => 0
  | .noDrive => -1
  | .timeout => -2
  | .drq => -3
  | .device => -4
  | .badBuffer => -5
  | .unknown => -128

/-- `SYS_DISK_READ`, with the buffer of the program afterwards. -/
def sysDiskRead (p : AtaPorts) (lba : UInt32) : Option Bytes → Int32 × Option Bytes × AtaPorts
  | none => (-1, none, p)
  | some buffer => ((code (p.ataReadSector lba (some buffer)).1), (p.ataReadSector lba (some buffer)).2)

/-- `SYS_DISK_WRITE`. -/
def sysDiskWrite (p : AtaPorts) (lba : UInt32) : Option Bytes → Int32 × AtaPorts
  | none => (-1, p)
  | some buffer => ((code (p.ataWriteSector lba (some buffer)).1), (p.ataWriteSector lba (some buffer)).2)

/-! ## What a call does -/

/-- Waiting reads the status port and does nothing else. -/
def Waited (p q : AtaPorts) : Prop := ∃ n, q = { p with reads := p.reads + n }

theorem Waited.sector (waited : Waited p q) : q.sector = p.sector := by
  obtain ⟨n, rfl⟩ := waited
  rfl

theorem Waited.status (waited : Waited p q) : q.status = p.status := by
  obtain ⟨n, rfl⟩ := waited
  rfl

theorem Waited.transfer (waited : Waited p q) : q.transfer = p.transfer := by
  obtain ⟨n, rfl⟩ := waited
  rfl

theorem Waited.inbStatus (waited : Waited p.inbStatus.2 q) : Waited p q := by
  obtain ⟨n, rfl⟩ := waited
  refine ⟨1 + n, ?_⟩
  rw [AtaPorts.inbStatus, Nat.add_assoc]

theorem waited_inbStatus (p : AtaPorts) : Waited p p.inbStatus.2 := ⟨1, rfl⟩

theorem waitBusyLoop_waited (timeout : Nat) (p : AtaPorts) : Waited p (waitBusyLoop timeout p).2 := by
  induction timeout generalizing p with
  | zero => exact ⟨0, rfl⟩
  | succ timeout ih =>
    rw [waitBusyLoop]
    by_cases idle : p.inbStatus.1 &&& ataSrBsy = 0
    · rw [if_pos idle]
      exact waited_inbStatus p
    · rw [if_neg idle]
      exact (ih p.inbStatus.2).inbStatus

theorem waitDrqLoop_waited (timeout : Nat) (p : AtaPorts) : Waited p (waitDrqLoop timeout p).2 := by
  induction timeout generalizing p with
  | zero => exact ⟨0, rfl⟩
  | succ timeout ih =>
    rw [waitDrqLoop]
    by_cases failed : p.inbStatus.1 &&& ataSrErr ≠ 0
    · rw [if_pos failed]
      exact waited_inbStatus p
    · rw [if_neg failed]
      by_cases ready : p.inbStatus.1 &&& ataSrDrq ≠ 0
      · rw [if_pos ready]
        exact waited_inbStatus p
      · rw [if_neg ready]
        exact (ih p.inbStatus.2).inbStatus

theorem ataWaitBusy_waited (p : AtaPorts) : Waited p p.ataWaitBusy.2 := waitBusyLoop_waited _ p

theorem ataWaitDrq_waited (p : AtaPorts) : Waited p p.ataWaitDrq.2 := waitDrqLoop_waited _ p

@[simp] theorem command_sector (value : UInt8) : (p.command lba value).sector = p.sector := rfl

@[simp] theorem command_status (value : UInt8) : (p.command lba value).status = p.status := rfl

/-- The drive reads the sector of the low 28 bits. -/
theorem command_read (p : AtaPorts) (lba : UInt32) :
    (p.command lba ataCmdReadPio).transfer = .reading (lba.toNat % 268435456) 1 0 := by
  rw [← ataProgram_sector]
  rfl

theorem command_write (p : AtaPorts) (lba : UInt32) :
    (p.command lba ataCmdWritePio).transfer = .writing (lba.toNat % 268435456) 1 0 fun _ => 0 := by
  rw [← ataProgram_sector]
  rfl

/-- The rounds from word `i` on. -/
theorem readWords_spec (left i sector : Nat) (buffer : Bytes) (p : AtaPorts) (rounds : i + left = 255)
    (reading : p.transfer = .reading sector 1 i) :
    readWords (left + 1) i buffer p =
      (copy buffer (2 * i) (fun k => p.sector sector (2 * i + k)) (2 * left + 2),
        { p with transfer := .idle }) := by
  have word (buffer : Bytes) (i : Nat) : store16 buffer (2 * i) (load16 (p.sector sector) (2 * i)) =
      copy buffer (2 * i) (fun k => p.sector sector (2 * i + k)) 2 := by
    funext k
    by_cases inside : 2 * i ≤ k ∧ k < 2 * i + 2
    · have same := load16_inj (load16_store16 buffer (2 * i) (load16 (p.sector sector) (2 * i)))
        (k - 2 * i) (by omega)
      rw [Nat.add_sub_cancel' inside.1] at same
      rw [same, copy_inside inside.1 inside.2, Nat.add_sub_cancel' inside.1]
    · rw [store16_outside (by omega), copy_outside (by omega)]
  induction left generalizing i buffer p with
  | zero =>
    have last : ¬ i + 1 < 256 := by omega
    simp only [readWords, inwData, reading, if_neg last, Nat.le_refl, if_true, word]
  | succ left ih =>
    have more : i + 1 < 256 := by omega
    rw [readWords]
    simp only [inwData, reading, if_pos more, word]
    rw [ih (i + 1) _ { p with transfer := .reading sector 1 (i + 1) } (by omega) rfl word]
    refine Prod.ext (funext fun k => ?_) rfl
    dsimp only
    by_cases inside : 2 * i + 2 ≤ k ∧ k < 2 * i + 2 + (2 * left + 2)
    · rw [copy_inside (by omega) (by omega), copy_inside (by omega) (by omega)]
      congr 1
      omega
    · rw [copy_outside (by omega)]
      by_cases first : 2 * i ≤ k ∧ k < 2 * i + 2
      · rw [copy_inside first.1 first.2, copy_inside (by omega) (by omega)]
      · rw [copy_outside (by omega), copy_outside (by omega)]

theorem writeWords_spec (left i sector : Nat) (buffer words : Bytes) (p : AtaPorts) (rounds : i + left = 255)
    (writing : p.transfer = .writing sector 1 i words) (agree : ∀ k < 2 * i, words k = buffer k) :
    writeWords (left + 1) i buffer p = { p with
      sector := Function.update p.sector sector (copy (p.sector sector) 0 buffer 512)
      transfer := .idle } := by
  have stored {words : Bytes} {i : Nat} (agree : ∀ k < 2 * i, words k = buffer k) :
      ∀ k < 2 * i + 2, store16 words (2 * i) (load16 buffer (2 * i)) k = buffer k := by
    intro k below
    by_cases inside : 2 * i ≤ k
    · have same := load16_inj (load16_store16 words (2 * i) (load16 buffer (2 * i))) (k - 2 * i) (by omega)
      rwa [Nat.add_sub_cancel' inside] at same
    · rw [store16_outside (by omega), agree k (by omega)]
  induction left generalizing i words p with
  | zero =>
    have last : ¬ i + 1 < 256 := by omega
    simp only [writeWords, outwData, writing, if_neg last, Nat.le_refl, if_true]
    congr 2
    funext k
    by_cases inside : k < 512
    · rw [copy_inside (Nat.zero_le k) (by omega), copy_inside (Nat.zero_le k) (by omega)]
      exact stored agree _ (by omega)
    · rw [copy_outside (by omega), copy_outside (by omega)]
  | succ left ih =>
    have more : i + 1 < 256 := by omega
    rw [writeWords]
    simp only [outwData, writing, if_pos more]
    exact ih (i + 1) _ { p with transfer := _ } (by omega) rfl (stored agree)

/-- A read moves the sector of the low 28 bits into the buffer, or nothing. -/
theorem ataReadSector_spec (p : AtaPorts) (lba : UInt32) (buffer : Bytes) :
    (p.ataReadSector lba (some buffer)).2.2.sector = p.sector ∧
      (p.ataReadSector lba (some buffer)).2.1 =
        some (if (p.ataReadSector lba (some buffer)).1 = .ok then
            copy buffer 0 (p.sector (lba.toNat % 268435456)) 512
          else buffer) := by
  have idle := ataWaitBusy_waited p
  have answered := ataWaitDrq_waited (p.ataWaitBusy.2.command lba ataCmdReadPio)
  have sector := answered.sector.trans (idle.sector)
  simp only [ataReadSector]
  by_cases busy : p.ataWaitBusy.1 ≠ .ok
  · rw [if_pos busy]
    exact ⟨idle.sector, rfl⟩
  · rw [if_neg busy]
    by_cases failed : (p.ataWaitBusy.2.command lba ataCmdReadPio).ataWaitDrq.1 ≠ .ok
    · rw [if_pos failed]
      exact ⟨sector, by rw [if_neg failed]⟩
    · rw [if_neg failed, readWords_spec 255 0 (lba.toNat % 268435456) _ _ rfl
        (answered.transfer.trans (command_read _ _)), sector, if_pos rfl]
      simp only [Nat.mul_zero, Nat.zero_add, and_self]

theorem ataWriteSector_spec (p : AtaPorts) (lba : UInt32) (buffer : Bytes) :
    (p.ataWriteSector lba (some buffer)).2.sector =
      if (p.ataWriteSector lba (some buffer)).1 = .ok then
        Function.update p.sector (lba.toNat % 268435456) (copy (p.sector (lba.toNat % 268435456)) 0 buffer 512)
      else p.sector := by
  have idle := ataWaitBusy_waited p
  have answered := ataWaitDrq_waited (p.ataWaitBusy.2.command lba ataCmdWritePio)
  have sector := answered.sector.trans (idle.sector)
  simp only [ataWriteSector]
  by_cases busy : p.ataWaitBusy.1 ≠ .ok
  · rw [if_pos busy]
    exact idle.sector
  · rw [if_neg busy]
    by_cases failed : (p.ataWaitBusy.2.command lba ataCmdWritePio).ataWaitDrq.1 ≠ .ok
    · rw [if_pos failed, if_neg failed]
      exact sector
    · rw [if_neg failed, writeWords_spec 255 0 (lba.toNat % 268435456) _ _ _ rfl
        (answered.transfer.trans (command_write _ _)) (by simp), sector, if_pos rfl]
      exact (ataWaitBusy_waited _).sector

theorem ataReadSector_ok {out : Option Bytes} (done : p.ataReadSector lba (some buffer) = (.ok, out, q)) :
    out = some (copy buffer 0 (p.sector (lba.toNat % 268435456)) 512) := by
  have out_eq := (ataReadSector_spec p lba buffer).2
  rwa [done, if_pos rfl] at out_eq

theorem ataWriteSector_ok (done : p.ataWriteSector lba (some buffer) = (.ok, q)) :
    q.sector = Function.update p.sector (lba.toNat % 268435456)
      (copy (p.sector (lba.toNat % 268435456)) 0 buffer 512) := by
  have sector := ataWriteSector_spec p lba buffer
  rwa [done, if_pos rfl] at sector

end AtaPorts

/-! ## The sector device -/

/-- A call of the driver with a buffer. -/
inductive DiskCall
  | read (lba : UInt32) (buffer : Bytes)
  | write (lba : UInt32) (buffer : Bytes)

def DiskCall.lba : DiskCall → UInt32
  | .read lba _ | .write lba _ => lba

/-- The call overwrites the sector. -/
def DiskCall.WritesTo (lba : UInt32) : DiskCall → Prop
  | .read _ _ => False
  | .write lba' _ => lba' = lba

/-- The reply to a read contains the buffer. -/
def AtaPorts.step (p : AtaPorts) : DiskCall → Option ((AtaError × Option Bytes) × AtaPorts)
  | .read lba buffer =>
    let result := p.ataReadSector lba (some buffer)
    some ((result.1, result.2.1), result.2.2)
  | .write lba buffer =>
    let result := p.ataWriteSector lba (some buffer)
    some ((result.1, none), result.2)

def AtaDrive.step (ata : AtaDrive) : DiskCall → Option ((AtaError × Option Bytes) × AtaDrive)
  | .read lba buffer =>
    let result := ataReadSector ata lba buffer
    some ((result.1, some result.2.1), result.2.2)
  | .write lba buffer =>
    let result := ataWriteSector ata lba buffer
    some ((result.1, none), result.2)

section Refinement

variable {p q : AtaPorts} {ata : AtaDrive} {call : DiskCall} {reply : AtaError × Option Bytes}
  {calls : List (DiskCall × (AtaError × Option Bytes))}

/-- One call at the ports is one command of the device. -/
theorem AtaPorts.step_refines (same : ata.sector = p.sector) (answers : ata.outcome ata.command = reply.1)
    (done : p.step call = some (reply, q)) :
    ata.step call = some (reply, ⟨q.sector, ata.outcome, ata.command + 1⟩) := by
  cases call with
  | read lba buffer =>
    simp only [AtaPorts.step, Option.some.injEq, Prod.mk.injEq] at done
    obtain ⟨rfl, rfl⟩ := done
    obtain ⟨sector, out⟩ := p.ataReadSector_spec lba buffer
    simp only [AtaDrive.step, QuantumKernel.ataReadSector, answers, out, sector, ← same, ataProgram_sector]
    cases (p.ataReadSector lba (some buffer)).1 <;> rfl
  | write lba buffer =>
    simp only [AtaPorts.step, Option.some.injEq, Prod.mk.injEq] at done
    obtain ⟨rfl, rfl⟩ := done
    have sector := p.ataWriteSector_spec lba buffer
    simp only [AtaDrive.step, QuantumKernel.ataWriteSector, answers, sector, ← same, ataProgram_sector]
    cases (p.ataWriteSector lba (some buffer)).1 <;> rfl

/-- Whatever the status port answers, the calls do what they do on a device that reports these
errors for its commands. -/
theorem AtaPorts.refines (run : Run AtaPorts.step (fun _ _ => True) p calls q) (same : ata.sector = p.sector)
    (answers : ∀ i, ∀ below : i < calls.length, ata.outcome (ata.command + i) = calls[i].2.1) :
    Run AtaDrive.step (fun _ _ => True) ata calls ⟨q.sector, ata.outcome, ata.command + calls.length⟩ := by
  induction run generalizing ata with
  | refl =>
    rw [← same]
    exact .refl ata
  | call _ done rest ih =>
    have first := AtaPorts.step_refines same (answers 0 (Nat.succ_pos _)) done
    refine .call trivial first ?_
    have later := @ih ⟨_, ata.outcome, ata.command + 1⟩ rfl fun i below => by
      have answer := answers (i + 1) (Nat.succ_lt_succ below)
      rwa [← Nat.add_assoc, Nat.add_right_comm] at answer
    rwa [List.length_cons, ← Nat.add_assoc, Nat.add_right_comm]

end Refinement

/-! ## A faithful store -/

/-- The driver stores sectors at these addresses: a successful read returns what was written last,
a write changes no other address, and an address that the drive cannot express is refused. -/
structure FaithfulStore (addresses : Set UInt32) : Prop where
  readBack : ∀ {p q r r' : AtaPorts} {lba : UInt32} {b buffer : Bytes} {out : Option Bytes}
    {calls : List (DiskCall × (AtaError × Option Bytes))},
    lba ∈ addresses → p.ataWriteSector lba (some b) = (.ok, q) →
    Run AtaPorts.step (fun _ call => call.lba ∈ addresses ∧ ¬ call.WritesTo lba) q calls r →
    r.ataReadSector lba (some buffer) = (.ok, out, r') → out = some (copy buffer 0 b 512)
  apart : ∀ {p q p' q' : AtaPorts} {lba lba2 : UInt32} {b buffer : Bytes} {out out' : Option Bytes},
    lba ∈ addresses → lba2 ∈ addresses → lba2 ≠ lba → p.ataWriteSector lba (some b) = (.ok, q) →
    p.ataReadSector lba2 (some buffer) = (.ok, out, p') → q.ataReadSector lba2 (some buffer) = (.ok, out', q') →
    out' = out
  refused : ∀ {p : AtaPorts} {lba : UInt32} {b : Bytes},
    lba ∈ addresses → 268435456 ≤ lba.toNat →
    (p.ataReadSector lba (some b)).1 ≠ .ok ∧ (p.ataWriteSector lba (some b)).1 ≠ .ok

namespace AtaPorts

variable {p q : AtaPorts} {lba lba2 : UInt32} {buffer : Bytes} {addresses : Set UInt32}
  {calls : List (DiskCall × (AtaError × Option Bytes))}

/-- Addresses that the drive tells apart. -/
theorem sector_ne (small : lba.toNat < 268435456) (small2 : lba2.toNat < 268435456) (ne : lba2 ≠ lba) :
    lba2.toNat % 268435456 ≠ lba.toNat % 268435456 := by
  rw [Nat.mod_eq_of_lt small, Nat.mod_eq_of_lt small2]
  exact fun same => ne (UInt32.toNat.inj same)

/-- Calls at other addresses keep the sector. -/
theorem sector_kept (small : ∀ lba ∈ addresses, lba.toNat < 268435456) (member : lba ∈ addresses)
    (run : Run step (fun _ call => call.lba ∈ addresses ∧ ¬ call.WritesTo lba) p calls q) :
    q.sector (lba.toNat % 268435456) = p.sector (lba.toNat % 268435456) := by
  refine run.invariant (fun r => r.sector (lba.toNat % 268435456) = p.sector (lba.toNat % 268435456)) ?_ rfl
  intro r call reply r' kept ⟨known, other⟩ done
  cases call with
  | read lba' b =>
    simp only [step, Option.some.injEq, Prod.mk.injEq] at done
    obtain ⟨-, rfl⟩ := done
    rw [(r.ataReadSector_spec lba' b).1, kept]
  | write lba' b =>
    simp only [step, Option.some.injEq, Prod.mk.injEq] at done
    obtain ⟨-, rfl⟩ := done
    rw [r.ataWriteSector_spec lba' b]
    split
    · rw [Function.update_of_ne, kept]
      exact sector_ne (small _ known) (small _ member) fun same => other same.symm
    · exact kept

/-- A drive that is never busy and always ready for data. -/
def ready : AtaPorts where
  sector := fun _ _ => 0
  registers := ⟨0, 0, 0, 0⟩
  secCount := 0
  transfer := .idle
  status := fun _ => 0x48
  reads := 0

/-- The drive does not refuse. -/
theorem ready_write (lba : UInt32) (b : Bytes) : (ready.ataWriteSector lba (some b)).1 = .ok := by
  have idle : ready.ataWaitBusy.1 = .ok := by decide +kernel
  have answers : (ready.ataWaitBusy.2.command lba ataCmdWritePio).ataWaitDrq.1 = .ok := by
    have status : (ready.ataWaitBusy.2.command lba ataCmdWritePio).status = fun _ => 0x48 := by
      rw [command_status, (ataWaitBusy_waited ready).status]
      rfl
    have value : (ready.ataWaitBusy.2.command lba ataCmdWritePio).inbStatus.1 = 0x48 := by
      rw [inbStatus, status]
    rw [ataWaitDrq, waitDrqLoop, value, if_neg (by decide), if_pos (by decide)]
  simp only [ataWriteSector, idle, answers, ne_eq, not_true_eq_false, if_false]

/-- **The driver is a faithful sector store exactly for addresses of 28 bits.** -/
theorem faithfulStore_iff (addresses : Set UInt32) :
    FaithfulStore addresses ↔ ∀ lba ∈ addresses, lba.toNat < 268435456 := by
  constructor
  · intro faithful lba member
    by_contra large
    exact (faithful.refused (p := ready) (b := fun _ => 0) member (Nat.not_lt.mp large)).2 (ready_write lba _)
  · intro small
    refine ⟨?_, ?_, ?_⟩
    · intro p q r r' lba b buffer out calls member written run done
      rw [ataReadSector_ok done, sector_kept small member run, ataWriteSector_ok written, Function.update_self]
      congr 1
      funext k
      by_cases inside : k < 512
      · rw [copy_inside (Nat.zero_le k) (by omega), copy_inside (Nat.zero_le k) (by omega),
          copy_inside (Nat.zero_le _) (by omega)]
        rfl
      · rw [copy_outside (by omega), copy_outside (by omega)]
    · intro p q p' q' lba lba2 b buffer out out' member member2 ne written before after
      rw [ataReadSector_ok before, ataReadSector_ok after, ataWriteSector_ok written,
        Function.update_of_ne (sector_ne (small _ member) (small _ member2) ne)]
    · intro p lba b member large
      exact absurd (small lba member) (Nat.not_lt.mpr large)

/-- Writing sector 2^28 succeeds and overwrites sector 0. -/
theorem sector_aliased :
    (ready.sysDiskWrite 0x10000000 (some fun _ => 0x41)).1 = 0 ∧
    (ready.ataReadSector 0 (some fun _ => 0)).1 = .ok ∧
    ((ready.ataReadSector 0 (some fun _ => 0)).2.1.map fun b => b 0) = some 0 ∧
    ((ready.sysDiskWrite 0x10000000 (some fun _ => 0x41)).2.ataReadSector 0 (some fun _ => 0)).1 = .ok ∧
    (((ready.sysDiskWrite 0x10000000 (some fun _ => 0x41)).2.ataReadSector 0 (some fun _ => 0)).2.1.map
      fun b => b 0) = some 0x41 ∧
    ¬ FaithfulStore Set.univ := by
  refine ⟨by decide +kernel, by decide +kernel, by decide +kernel, by decide +kernel, by decide +kernel, ?_⟩
  intro faithful
  have refused := @FaithfulStore.refused _ faithful ready 0x10000000 (fun _ => 0) trivial (by decide)
  exact refused.2 (ready_write _ _)

end AtaPorts

end QuantumKernel
