import QuantumKernel.Library.ByteStore

/-! # The ATA driver as a sector device

`ata_read_sector` and `ata_write_sector` program a 28-bit address into the drive and
LBA registers and then move 512 bytes.  The drive answers every command with a status;
`AtaDrive.outcome` fixes that answer for the n-th command, so that every pattern of
failures is a value of the model.  A command that fails moves no data: both functions
return before the transfer loop.
-/

namespace QuantumKernel

open ByteStore

/-- `ata_error_t`. -/
inductive AtaError
  | ok | noDrive | timeout | drq | device | badBuffer | unknown
  deriving DecidableEq, Repr

/-- The registers that carry the sector number of a command. -/
structure AtaRegisters where
  drive : UInt8
  lbaLo : UInt8
  lbaMid : UInt8
  lbaHi : UInt8

/-- The register values written before `ATA_CMD_READ_PIO` and `ATA_CMD_WRITE_PIO`. -/
def ataProgram (lba : UInt32) : AtaRegisters where
  drive := ((0xE0 : UInt32) ||| ((lba >>> 24) &&& 0x0F)).toUInt8
  lbaLo := (lba &&& 0xFF).toUInt8
  lbaMid := ((lba >>> 8) &&& 0xFF).toUInt8
  lbaHi := ((lba >>> 16) &&& 0xFF).toUInt8

/-- The sector a drive in LBA mode addresses with these registers. -/
def AtaRegisters.sector (registers : AtaRegisters) : Nat :=
  registers.drive.toNat % 16 * 16777216 + registers.lbaHi.toNat * 65536 +
    registers.lbaMid.toNat * 256 + registers.lbaLo.toNat

structure AtaDrive where
  /-- Sector contents, by 28-bit sector number. -/
  sector : Nat → Bytes
  /-- What the drive reports for its n-th command. -/
  outcome : Nat → AtaError
  /-- Commands issued so far. -/
  command : Nat

/-- `ata_read_sector` on a buffer that is not null. -/
def ataReadSector (ata : AtaDrive) (lba : UInt32) (buffer : Bytes) : AtaError × Bytes × AtaDrive :=
  match ata.outcome ata.command with
  | .ok =>
    (.ok, copy buffer 0 (ata.sector (ataProgram lba).sector) 512,
      { ata with command := ata.command + 1 })
  | err => (err, buffer, { ata with command := ata.command + 1 })

/-- `ata_write_sector` on a buffer that is not null. -/
def ataWriteSector (ata : AtaDrive) (lba : UInt32) (buffer : Bytes) : AtaError × AtaDrive :=
  match ata.outcome ata.command with
  | .ok =>
    (.ok, { ata with
      sector := Function.update ata.sector (ataProgram lba).sector
        (copy (ata.sector (ataProgram lba).sector) 0 buffer 512)
      command := ata.command + 1 })
  | err => (err, { ata with command := ata.command + 1 })

/-- The drive sees the low 28 bits of the sector number. -/
theorem ataProgram_sector (lba : UInt32) : (ataProgram lba).sector = lba.toNat % 268435456 := by
  have low (n : Nat) (k : Nat) : n &&& (2 ^ k - 1) = n % 2 ^ k := Nat.and_two_pow_sub_one_eq_mod n k
  have nibble : (224 ||| lba.toNat / 16777216 % 16) % 256 % 16 = lba.toNat / 16777216 % 16 := by
    have small : lba.toNat / 16777216 % 16 < 2 ^ 4 := Nat.mod_lt _ (by decide)
    have join := Nat.two_pow_add_eq_or_of_lt small 14
    simp only [Nat.reducePow, Nat.reduceMul] at join
    rw [← join]
    omega
  have l8 := low lba.toNat 8
  have m8 := low (lba.toNat / 256) 8
  have h8 := low (lba.toNat / 65536) 8
  have d4 := low (lba.toNat / 16777216) 4
  simp only [Nat.reducePow, Nat.reduceSub] at l8 m8 h8 d4
  simp only [AtaRegisters.sector, ataProgram, UInt32.toNat_toUInt8, UInt32.toNat_or,
    UInt32.toNat_and, UInt32.toNat_shiftRight, UInt32.reduceToNat, Nat.shiftRight_eq_div_pow,
    Nat.reduceMod, Nat.reducePow, l8, m8, h8, d4, nibble]
  omega

end QuantumKernel
