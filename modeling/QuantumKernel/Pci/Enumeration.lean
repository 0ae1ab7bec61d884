import QuantumKernel.Library.DepthFirst

/-! # PCI enumeration

`pci_enumerate` walks the buses depth first: behind each bridge that it finds, it goes on with the
bus that the bridge names.  No set of visited buses is kept, the numbers come from the hardware, and
only the room in `pci_devices` bounds how deep `pci_check_function` is nested.

On the functions that a scan of a bus calls it for, `pci_check_function` is a depth-first visit
into a table of 256 nodes (`pciCheckFunction_visit`).
-/

namespace QuantumKernel.Pci

open DepthFirst

/-- What `PCI_CONFIG_DATA` gives for each address. -/
abbrev ConfigSpace := UInt32 → UInt32

/-- `pci_make_address`. -/
def pciMakeAddress (bus device func offset : UInt8) : UInt32 :=
  (0x80000000 : UInt32) ||| (bus.toUInt32 <<< 16) ||| (device.toUInt32 <<< 11) ||| (func.toUInt32 <<< 8) |||
    (offset &&& 0xFC).toUInt32

/-- `pci_config_read_dword`. -/
def pciConfigReadDword (config : ConfigSpace) (bus device func offset : UInt8) : UInt32 :=
  config (pciMakeAddress bus device func offset)

/-- `pci_config_read_word`. -/
def pciConfigReadWord (config : ConfigSpace) (bus device func offset : UInt8) : UInt16 :=
  let dword := pciConfigReadDword config bus device func (offset &&& ~~~ 3)
  ((dword >>> ((offset &&& 3) * 8).toUInt32) &&& (0xFFFF : UInt32)).toUInt16

/-- `pci_config_read_byte`. -/
def pciConfigReadByte (config : ConfigSpace) (bus device func offset : UInt8) : UInt8 :=
  let dword := pciConfigReadDword config bus device func (offset &&& ~~~ 3)
  ((dword >>> ((offset &&& 3) * 8).toUInt32) &&& (0xFF : UInt32)).toUInt8

/-- `pci_device_t`. -/
structure PciDevice where
  bus : UInt8
  device : UInt8
  function : UInt8
  vendorId : UInt16
  deviceId : UInt16
  classCode : UInt8
  subclass : UInt8
  progIf : UInt8
  interruptLine : UInt8
  interruptPin : UInt8
  bar : Fin 6 → UInt32

/-- `pci_devices` and `pci_device_count`. -/
structure PciState where
  pciDevices : Fin 256 → PciDevice
  pciDeviceCount : Nat

/-- `pci_devices[pci_device_count++] = dev`; `none` is a store outside of the array. -/
def PciState.store (s : PciState) (dev : PciDevice) : Option PciState :=
  if inside : s.pciDeviceCount < 256 then
    some ⟨Function.update s.pciDevices ⟨s.pciDeviceCount, inside⟩ dev, s.pciDeviceCount + 1⟩
  else none

/-- What `pci_check_function` stores about a function. -/
def readDevice (config : ConfigSpace) (bus device func : UInt8) : PciDevice where
  bus := bus
  device := device
  function := func
  vendorId := pciConfigReadWord config bus device func 0
  deviceId := pciConfigReadWord config bus device func 2
  classCode := pciConfigReadByte config bus device func 0xB
  subclass := pciConfigReadByte config bus device func 0xA
  progIf := pciConfigReadByte config bus device func 0x9
  interruptLine := pciConfigReadByte config bus device func 0x3C
  interruptPin := pciConfigReadByte config bus device func 0x3D
  bar i := pciConfigReadDword config bus device func (0x10 + UInt8.ofNat i * 4)

/-- The values of a counter of 8 bits from `first` on and below `bound`. -/
def counter (first bound : Nat) : List UInt8 := (List.range' first (bound - first)).map UInt8.ofNat

/-- The body of the loop of `pci_enumerate_bus`, with the calls of `pci_check_function` that it makes. -/
def pciScanDevice (config : ConfigSpace) (check : UInt8 → UInt8 → UInt8 → PciState → Option PciState)
    (bus device : UInt8) (s : PciState) : Option PciState :=
  if pciConfigReadWord config bus device 0 0 = 0xFFFF then some s
  else do
    let s ← check bus device 0 s
    if pciConfigReadByte config bus device 0 0xE &&& 0x80 = 0 then some s
    else (counter 1 8).foldlM (fun s func =>
      if pciConfigReadWord config bus device func 0 = 0xFFFF then some s else check bus device func s) s

/-- `pci_enumerate_bus`. -/
def pciEnumerateBus (config : ConfigSpace) (check : UInt8 → UInt8 → UInt8 → PciState → Option PciState)
    (bus : UInt8) (s : PciState) : Option PciState :=
  (counter 0 32).foldlM (fun s device => pciScanDevice config check bus device s) s

/-- `pci_check_function`, nested at most `depth` deep; `none` if this is not enough. -/
def pciCheckFunction (config : ConfigSpace) : Nat → UInt8 → UInt8 → UInt8 → PciState → Option PciState
  | 0, _, _, _, _ => none
  | depth + 1, bus, device, func, s =>
    if pciConfigReadWord config bus device func 0 = 0xFFFF then some s
    else if 256 ≤ s.pciDeviceCount then some s
    else do
      let dev := readDevice config bus device func
      let s ← s.store dev
      if dev.classCode = 0x06 ∧ dev.subclass = 0x04 then
        pciEnumerateBus config (pciCheckFunction config depth) (pciConfigReadByte config bus device func 0x19) s
      else some s

/-- `pci_enumerate`. -/
def pciEnumerate (config : ConfigSpace) (depth : Nat) (s : PciState) : Option PciState :=
  let s := { s with pciDeviceCount := 0 }
  if pciConfigReadByte config 0 0 0 0xE &&& 0x80 = 0 then
    pciEnumerateBus config (pciCheckFunction config depth) 0 s
  else (counter 0 8).foldlM (fun s func =>
    if pciConfigReadWord config 0 0 func 0 = 0xFFFF then some s
    else pciEnumerateBus config (pciCheckFunction config depth) func s) s

/-! ## The functions of a bus -/

structure PciFunction where
  bus : UInt8
  device : UInt8
  function : UInt8
deriving DecidableEq

namespace PciFunction

def vendor (config : ConfigSpace) (f : PciFunction) : UInt16 := pciConfigReadWord config f.bus f.device f.function 0

def read (config : ConfigSpace) (f : PciFunction) : PciDevice := readDevice config f.bus f.device f.function

/-- Class 6, subclass 4: a bridge to another PCI bus. -/
def IsBridge (config : ConfigSpace) (f : PciFunction) : Prop :=
  (f.read config).classCode = 0x06 ∧ (f.read config).subclass = 0x04

instance (config : ConfigSpace) (f : PciFunction) : Decidable (f.IsBridge config) :=
  inferInstanceAs (Decidable (_ ∧ _))

/-- The bus behind a bridge. -/
def secondary (config : ConfigSpace) (f : PciFunction) : UInt8 :=
  pciConfigReadByte config f.bus f.device f.function 0x19

/-- A function of a device that answers: its function 0, or one of the others that answers, if the
header of function 0 says that there are others. -/
def Present (config : ConfigSpace) (f : PciFunction) : Prop :=
  f.device < 32 ∧ pciConfigReadWord config f.bus f.device 0 0 ≠ 0xFFFF ∧
    (f.function = 0 ∨ f.function < 8 ∧ pciConfigReadByte config f.bus f.device 0 0xE &&& 0x80 ≠ 0 ∧
      f.vendor config ≠ 0xFFFF)

instance (config : ConfigSpace) (f : PciFunction) : Decidable (f.Present config) :=
  inferInstanceAs (Decidable (_ ∧ _))

end PciFunction

/-- The functions of one device that a scan checks, in its order. -/
def deviceFunctions (config : ConfigSpace) (bus device : UInt8) : List PciFunction :=
  if pciConfigReadWord config bus device 0 0 = 0xFFFF then []
  else ⟨bus, device, 0⟩ ::
    if pciConfigReadByte config bus device 0 0xE &&& 0x80 = 0 then []
    else ((counter 1 8).filter
      fun func => pciConfigReadWord config bus device func 0 ≠ 0xFFFF).map (PciFunction.mk bus device)

/-- The functions of a bus that a scan checks, in its order. -/
def busFunctions (config : ConfigSpace) (bus : UInt8) : List PciFunction :=
  (counter 0 32).flatMap (deviceFunctions config bus)

/-- The functions that the scan behind a bridge checks. -/
def behind (config : ConfigSpace) (f : PciFunction) : List PciFunction :=
  if f.IsBridge config then busFunctions config (f.secondary config) else []

/-- The functions of the buses with which `pci_enumerate` starts. -/
def roots (config : ConfigSpace) : List PciFunction :=
  if pciConfigReadByte config 0 0 0 0xE &&& 0x80 = 0 then busFunctions config 0
  else ((counter 0 8).filter
    fun func => pciConfigReadWord config 0 0 func 0 ≠ 0xFFFF).flatMap (busFunctions config)

/-- The table holds what was read from the functions of a list. -/
structure PciState.Lists (config : ConfigSpace) (s : PciState) (found : List PciFunction) : Prop where
  count : s.pciDeviceCount = found.length
  read (i : Fin 256) (inside : i.val < found.length) : s.pciDevices i = found[i.val].read config

variable {config : ConfigSpace} {check : UInt8 → UInt8 → UInt8 → PciState → Option PciState} {s s' : PciState}
  {bus device func : UInt8} {depth : Nat} {f g : PciFunction} {found result : List PciFunction}

/-! ## The loops as lists of functions -/

theorem foldlM_flatMap {α β σ : Type} {each : α → List β} {step : σ → β → Option σ} (l : List α) (s : σ) :
    (l.flatMap each).foldlM step s = l.foldlM (fun s a => (each a).foldlM step s) s := by
  induction l generalizing s with
  | nil => rfl
  | cons a l ih =>
    rw [List.flatMap_cons, List.foldlM_append, List.foldlM_cons]
    exact bind_congr ih

theorem pciScanDevice_eq : pciScanDevice config check bus device s =
    (deviceFunctions config bus device).foldlM (fun s f => check f.bus f.device f.function s) s := by
  rw [pciScanDevice, deviceFunctions]
  split
  · rfl
  · rw [List.foldlM_cons]
    apply bind_congr
    intro s
    split
    · rfl
    · rw [List.foldlM_map, List.foldlM_filter]
      congr 1
      funext s func
      by_cases absent : pciConfigReadWord config bus device func 0 = 0xFFFF
      · simp [absent]
      · simp [absent]

theorem pciEnumerateBus_eq : pciEnumerateBus config check bus s =
    (busFunctions config bus).foldlM (fun s f => check f.bus f.device f.function s) s := by
  rw [busFunctions, foldlM_flatMap, pciEnumerateBus]
  simp only [pciScanDevice_eq]

theorem pciEnumerate_eq : pciEnumerate config depth s =
    (roots config).foldlM (fun s f => pciCheckFunction config depth f.bus f.device f.function s)
      { s with pciDeviceCount := 0 } := by
  rw [pciEnumerate, roots]
  split
  · exact pciEnumerateBus_eq
  · rw [foldlM_flatMap, List.foldlM_filter]
    congr 1
    funext s func
    by_cases absent : pciConfigReadWord config 0 0 func 0 = 0xFFFF
    · simp [absent]
    · simp [absent, pciEnumerateBus_eq]

theorem PciFunction.Present.vendor_ne (present : f.Present config) : f.vendor config ≠ 0xFFFF := by
  obtain ⟨-, first, zero | ⟨-, -, answers⟩⟩ := present
  · rw [PciFunction.vendor, zero]
    exact first
  · exact answers

theorem mem_counter {first bound : Nat} (fits : bound ≤ 256) {value : UInt8} :
    value ∈ counter first bound ↔ first ≤ value.toNat ∧ value.toNat < bound := by
  simp only [counter, List.mem_map, List.mem_range'_1]
  constructor
  · rintro ⟨n, between, rfl⟩
    rw [UInt8.toNat_ofNat']
    omega
  · exact fun between => ⟨value.toNat, by omega, UInt8.ofNat_toNat⟩

theorem mem_devices : device ∈ counter 0 32 ↔ device < 32 := by
  rw [mem_counter (by omega), UInt8.lt_iff_toNat_lt]
  simp

theorem mem_functions : func ∈ counter 1 8 ↔ func ≠ 0 ∧ func < 8 := by
  rw [mem_counter (by omega), UInt8.lt_iff_toNat_lt, ne_eq, ← UInt8.toNat_inj, UInt8.toNat_zero]
  simp only [UInt8.reduceToNat]
  omega

theorem mem_deviceFunctions : f ∈ deviceFunctions config bus device ↔
    (f.bus = bus ∧ f.device = device) ∧ pciConfigReadWord config bus device 0 0 ≠ 0xFFFF ∧
      (f.function = 0 ∨ f.function < 8 ∧ pciConfigReadByte config bus device 0 0xE &&& 0x80 ≠ 0 ∧
        f.vendor config ≠ 0xFFFF) := by
  obtain ⟨b, d, n⟩ := f
  rw [deviceFunctions]
  by_cases absent : pciConfigReadWord config bus device 0 0 = 0xFFFF
  · simp [absent]
  by_cases single : pciConfigReadByte config bus device 0 0xE &&& 0x80 = 0
  · simp [absent, single, and_assoc]
  · simp only [if_neg absent, if_neg single, List.mem_cons, List.mem_map, List.mem_filter, mem_functions,
      PciFunction.mk.injEq, PciFunction.vendor]
    constructor
    · rintro (⟨rfl, rfl, rfl⟩ | ⟨func, ⟨⟨-, bound⟩, answers⟩, rfl, rfl, rfl⟩)
      · exact ⟨⟨rfl, rfl⟩, absent, Or.inl rfl⟩
      · exact ⟨⟨rfl, rfl⟩, absent, Or.inr ⟨bound, single, by simpa using answers⟩⟩
    · rintro ⟨⟨rfl, rfl⟩, -, zero | ⟨bound, -, answers⟩⟩
      · exact Or.inl ⟨rfl, rfl, zero⟩
      · by_cases zero : n = 0
        · exact Or.inl ⟨rfl, rfl, zero⟩
        · exact Or.inr ⟨n, ⟨⟨zero, bound⟩, by simpa using answers⟩, rfl, rfl, rfl⟩

/-- A scan checks the functions of the bus that are present. -/
theorem mem_busFunctions : f ∈ busFunctions config bus ↔ f.bus = bus ∧ f.Present config := by
  simp only [busFunctions, List.mem_flatMap, mem_devices, mem_deviceFunctions, PciFunction.Present]
  constructor
  · rintro ⟨device, bound, ⟨rfl, rfl⟩, first, answers⟩
    exact ⟨rfl, bound, first, answers⟩
  · rintro ⟨rfl, bound, first, answers⟩
    exact ⟨f.device, bound, ⟨rfl, rfl⟩, first, answers⟩

theorem nodup_deviceFunctions : (deviceFunctions config bus device).Nodup := by
  rw [deviceFunctions]
  split
  · exact List.nodup_nil
  split
  · exact List.nodup_singleton _
  · refine List.nodup_cons.mpr ⟨?_, List.Nodup.map ?_ (List.Nodup.filter _ (by decide))⟩
    · simp [mem_functions]
    · intro n m same
      exact (PciFunction.mk.inj same).2.2

theorem nodup_busFunctions : (busFunctions config bus).Nodup := by
  refine List.nodup_flatMap.mpr ⟨fun device _ => nodup_deviceFunctions, ?_⟩
  have devices : (counter 0 32).Nodup := by decide
  refine devices.imp fun differ f left right => ?_
  obtain ⟨⟨-, device⟩, -⟩ := mem_deviceFunctions.mp left
  obtain ⟨⟨-, device'⟩, -⟩ := mem_deviceFunctions.mp right
  exact differ (device.symm.trans device')

theorem behind_present (mem : g ∈ behind config f) : g.Present config := by
  rw [behind] at mem
  split at mem
  · exact (mem_busFunctions.mp mem).2
  · cases mem

theorem roots_present (mem : f ∈ roots config) : f.Present config := by
  rw [roots] at mem
  split at mem
  · exact (mem_busFunctions.mp mem).2
  · obtain ⟨func, -, isRoot⟩ := List.mem_flatMap.mp mem
    exact (mem_busFunctions.mp isRoot).2

/-! ## The table -/

theorem PciState.Lists.start (s : PciState) : PciState.Lists config { s with pciDeviceCount := 0 } [] :=
  ⟨rfl, fun i inside => absurd inside (Nat.not_lt_zero i)⟩

/-- There is room for one more function. -/
theorem PciState.Lists.store (lists : s.Lists config found) (room : found.length < 256) :
    ∃ s', s.store (f.read config) = some s' ∧ s'.Lists config (found ++ [f]) := by
  have inside : s.pciDeviceCount < 256 := by rw [lists.count]; exact room
  refine ⟨_, dif_pos inside, ?_, fun i bound => ?_⟩
  · simp [lists.count]
  · rw [List.length_append, List.length_singleton] at bound
    by_cases last : i.val = found.length
    · have slot : i = ⟨s.pciDeviceCount, inside⟩ := Fin.ext (last.trans lists.count.symm)
      simp [slot, lists.count]
    · have slot : i ≠ ⟨s.pciDeviceCount, inside⟩ :=
        fun same => last ((congrArg Fin.val same).trans lists.count)
      simp only [Function.update_of_ne slot, List.getElem_append_left (show i.val < found.length by omega)]
      exact lists.read i (by omega)

/-- The calls for a list of functions are the visits of these. -/
theorem foldlM_visitAll {depth : Nat} (simulates : ∀ f : PciFunction, f.Present config → ∀ {s found result},
      PciState.Lists config s found → visit (behind config) 256 depth f found = some result →
      ∃ s', pciCheckFunction config depth f.bus f.device f.function s = some s' ∧ s'.Lists config result) :
    ∀ (nodes : List PciFunction), (∀ f ∈ nodes, f.Present config) → ∀ {s found result},
      PciState.Lists config s found → visitAll (behind config) 256 depth nodes found = some result →
      ∃ s', nodes.foldlM (fun s f => pciCheckFunction config depth f.bus f.device f.function s) s = some s' ∧
        s'.Lists config result := by
  intro nodes
  induction nodes with
  | nil =>
    intro _ s found result lists visited
    cases visited
    exact ⟨s, rfl, lists⟩
  | cons f nodes ih =>
    intro present s found result lists visited
    rw [visitAll_cons, Option.bind_eq_some_iff] at visited
    obtain ⟨next, first, rest⟩ := visited
    obtain ⟨s₁, checked, lists₁⟩ := simulates f (present f List.mem_cons_self) lists first
    obtain ⟨s₂, checkedAll, lists₂⟩ := ih (fun g mem => present g (List.mem_cons_of_mem f mem)) lists₁ rest
    refine ⟨s₂, ?_, lists₂⟩
    rw [List.foldlM_cons, checked]
    exact checkedAll

/-- `pci_check_function` is a depth-first visit. -/
theorem pciCheckFunction_visit (present : f.Present config) (lists : s.Lists config found)
    (visited : visit (behind config) 256 depth f found = some result) :
    ∃ s', pciCheckFunction config depth f.bus f.device f.function s = some s' ∧ s'.Lists config result := by
  induction depth generalizing f s found result with
  | zero => simp [visit] at visited
  | succ depth ih =>
    rw [pciCheckFunction, if_neg (show pciConfigReadWord _ _ _ _ _ ≠ _ from present.vendor_ne)]
    by_cases room : found.length < 256
    · rw [visit_succ room] at visited
      rw [if_neg (by rw [lists.count]; omega)]
      obtain ⟨s₁, stored, lists₁⟩ := lists.store (f := f) room
      rw [show readDevice config f.bus f.device f.function = f.read config from rfl]
      simp only [stored, Option.bind_eq_bind, Option.bind_some]
      obtain ⟨s₂, checked, lists₂⟩ := foldlM_visitAll (fun f present s found result lists visited =>
        ih present lists visited) (behind config f) (fun g mem => behind_present mem) lists₁ visited
      refine ⟨s₂, ?_, lists₂⟩
      by_cases bridge : f.IsBridge config
      · rw [if_pos (show _ ∧ _ from bridge), pciEnumerateBus_eq]
        rw [behind, if_pos bridge] at checked
        exact checked
      · rw [if_neg (show ¬ (_ ∧ _) from bridge)]
        rw [behind, if_neg bridge] at checked
        exact checked
    · rw [visit_full (by omega)] at visited
      cases visited
      rw [if_pos (by rw [lists.count]; omega)]
      exact ⟨s, rfl, lists⟩

/-- `pci_enumerate` visits the functions of the first buses, and what is behind them. -/
theorem pciEnumerate_visitAll (visited : visitAll (behind config) 256 depth (roots config) [] = some result) :
    ∃ s', pciEnumerate config depth s = some s' ∧ s'.Lists config result := by
  rw [pciEnumerate_eq]
  exact foldlM_visitAll (fun f present s found result lists visited => pciCheckFunction_visit present lists visited)
    (roots config) (fun f mem => roots_present mem) (.start s) visited

/-- 257 nested calls are enough. -/
theorem pciEnumerate_lists (config : ConfigSpace) (s : PciState) :
    ∃ result s', visitAll (behind config) 256 257 (roots config) [] = some result ∧ result.length ≤ 256 ∧
      pciEnumerate config 257 s = some s' ∧ s'.Lists config result := by
  obtain ⟨result, visited, bound⟩ : ∃ result, visitAll (behind config) 256 257 (roots config) [] = some result ∧
    result.length ≤ 256 := visitAll_returns (by omega)
  obtain ⟨s', enumerated, lists⟩ := pciEnumerate_visitAll (s := s) visited
  exact ⟨result, s', visited, bound, enumerated, lists⟩

/-- Whatever the configuration space holds: 257 nested calls of `pci_check_function` are enough, nothing is
stored outside of `pci_devices`, and no more than 256 devices are counted. -/
theorem pciEnumerate_bounded (config : ConfigSpace) (s : PciState) :
    ∃ s', pciEnumerate config 257 s = some s' ∧ s'.pciDeviceCount ≤ 256 := by
  obtain ⟨result, s', -, bound, enumerated, lists⟩ := pciEnumerate_lists config s
  exact ⟨s', enumerated, lists.count.le.trans bound⟩

end QuantumKernel.Pci
