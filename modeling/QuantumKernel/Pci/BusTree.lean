import QuantumKernel.Pci.Enumeration

/-! # Enumeration of a tree of buses

Where no bus is behind two bridges and bus 0 is behind none, the functions behind the bridges form a
forest with the functions of bus 0 as its roots.  A bus that is behind a bridge below itself would then
be behind two bridges, so there is none (`BusTree.no_circle`).  What the depth-first visit lists for
a forest is what can be reached, each function once, and so `pci_register_drivers` calls the driver of
a function once.
-/

namespace QuantumKernel.Pci

open DepthFirst Relation

/-- The functions that can be reached from bus 0 through bridges. -/
inductive ReachableFunction (config : ConfigSpace) : PciFunction → Prop
  | host {f : PciFunction} : f.Present config → f.bus = 0 → ReachableFunction config f
  | bridged {bridge f : PciFunction} : ReachableFunction config bridge → bridge.IsBridge config →
      f.Present config → f.bus = bridge.secondary config → ReachableFunction config f

/-- The buses form a tree below bus 0, with room for its functions in `pci_devices`. -/
structure BusTree (config : ConfigSpace) : Prop where
  single_function : pciConfigReadByte config 0 0 0 0xE &&& 0x80 = 0
  one_bridge {f g : PciFunction} : ReachableFunction config f → ReachableFunction config g →
    f.IsBridge config → g.IsBridge config → f.secondary config = g.secondary config → f = g
  not_host {f : PciFunction} : ReachableFunction config f → f.IsBridge config → f.secondary config ≠ 0
  fits : {f | ReachableFunction config f}.ncard ≤ 256

/-- A driver; what `init` does is left out. -/
structure PciDriver where
  vendorId : UInt16
  deviceId : UInt16

/-- `pci_drivers`. -/
def pciDrivers : List PciDriver := [⟨0x10EC, 0x8139⟩]

/-- `pci_register_drivers`: the drivers whose `init` is called, in order, and for which slot of `pci_devices`.
The count is never above 256. -/
def pciRegisterDrivers (drivers : List PciDriver) (s : PciState) : List (Fin drivers.length × Fin 256) :=
  ((List.finRange 256).filter fun i => i.val < s.pciDeviceCount).flatMap fun i =>
    ((List.finRange drivers.length).filter fun j =>
      drivers[j].vendorId = (s.pciDevices i).vendorId ∧ drivers[j].deviceId = (s.pciDevices i).deviceId).map (·, i)

variable {config : ConfigSpace} {s : PciState} {f g : PciFunction} {found : List PciFunction}

/-! ## The functions as a forest -/

theorem roots_eq (single : pciConfigReadByte config 0 0 0 0xE &&& 0x80 = 0) :
    roots config = busFunctions config 0 := if_pos single

theorem mem_behind : g ∈ behind config f ↔
    f.IsBridge config ∧ g.bus = f.secondary config ∧ g.Present config := by
  rw [behind]
  split
  · rename_i bridge
    rw [mem_busFunctions]
    exact ⟨fun mem => ⟨bridge, mem⟩, fun both => both.2⟩
  · rename_i plain
    exact ⟨fun mem => absurd mem List.not_mem_nil, fun both => absurd both.1 plain⟩

theorem reachable_iff (single : pciConfigReadByte config 0 0 0 0xE &&& 0x80 = 0) :
    Reachable (behind config) (roots config) f ↔ ReachableFunction config f := by
  rw [roots_eq single]
  constructor
  · rintro ⟨root, isRoot, path⟩
    obtain ⟨bus, present⟩ := mem_busFunctions.mp isRoot
    induction path with
    | refl => exact .host present bus
    | tail _ edge ih =>
      obtain ⟨bridge, behind, present⟩ := mem_behind.mp edge
      exact .bridged ih bridge present behind
  · intro reachable
    induction reachable with
    | host present bus => exact .root (mem_busFunctions.mpr ⟨bus, present⟩)
    | bridged _ bridge present bus ih => exact ih.child (mem_behind.mpr ⟨bridge, bus, present⟩)

theorem BusTree.forest (tree : BusTree config) : Forest (behind config) (roots config) where
  roots_nodup := by
    rw [roots_eq tree.single_function]
    exact nodup_busFunctions
  children_nodup _ := by
    rw [behind]
    split
    · exact nodup_busFunctions
    · exact List.nodup_nil
  parent_unique left right first second := by
    obtain ⟨bridge, bus, -⟩ := mem_behind.mp first
    obtain ⟨bridge', bus', -⟩ := mem_behind.mp second
    exact tree.one_bridge ((reachable_iff tree.single_function).mp left)
      ((reachable_iff tree.single_function).mp right) bridge bridge' (bus.symm.trans bus')
  root_parentless reachable isRoot child := by
    rw [roots_eq tree.single_function] at isRoot
    obtain ⟨bridge, bus, -⟩ := mem_behind.mp child
    exact tree.not_host ((reachable_iff tree.single_function).mp reachable) bridge
      (bus.symm.trans (mem_busFunctions.mp isRoot).1)

/-- A bridge does not lead back to the bus of a function above it. -/
theorem BusTree.no_circle (tree : BusTree config) (reachable : ReachableFunction config f)
    (below : Below (behind config) f g) (bridge : g.IsBridge config) : g.secondary config ≠ f.bus := by
  intro back
  have single := tree.single_function
  have lower := ((reachable_iff single).mpr reachable).below below
  cases reachable with
  | host present bus => exact tree.not_host ((reachable_iff single).mp lower) bridge (back.trans bus)
  | bridged upper upperBridge present bus =>
    obtain rfl := tree.one_bridge upper ((reachable_iff single).mp lower) upperBridge bridge (bus.symm.trans back.symm)
    exact tree.forest.acyclic lower (mem_behind.mpr ⟨bridge, bus, present⟩) below

/-! ## The table and the drivers -/

/-- The record of a function tells which one it is. -/
theorem read_injective (same : f.read config = g.read config) : f = g := by
  obtain ⟨b, d, n⟩ := f
  obtain ⟨b', d', n'⟩ := g
  have bus := congrArg PciDevice.bus same
  have device := congrArg PciDevice.device same
  have function := congrArg PciDevice.function same
  simp only [PciFunction.read, readDevice] at bus device function
  rw [bus, device, function]

theorem PciState.Lists.slot_unique (lists : s.Lists config found) (distinct : found.Nodup) {i j : Fin 256}
    (inside : i.val < s.pciDeviceCount) (inside' : j.val < s.pciDeviceCount)
    (same : s.pciDevices i = s.pciDevices j) : i = j := by
  rw [lists.count] at inside inside'
  rw [lists.read i inside, lists.read j inside'] at same
  exact Fin.ext ((List.Nodup.getElem_inj_iff distinct).mp (read_injective same))

theorem PciState.Lists.mem (lists : s.Lists config found) (bound : found.length ≤ 256) (listed : f ∈ found) :
    ∃ i : Fin 256, i.val < s.pciDeviceCount ∧ s.pciDevices i = f.read config := by
  obtain ⟨k, inside, rfl⟩ := List.mem_iff_getElem.mp listed
  exact ⟨⟨k, by omega⟩, by rw [lists.count]; exact inside, lists.read ⟨k, by omega⟩ inside⟩

theorem mem_pciRegisterDrivers {drivers : List PciDriver} {i : Fin 256} {j : Fin drivers.length} :
    (j, i) ∈ pciRegisterDrivers drivers s ↔ i.val < s.pciDeviceCount ∧
      drivers[j].vendorId = (s.pciDevices i).vendorId ∧ drivers[j].deviceId = (s.pciDevices i).deviceId := by
  simp only [pciRegisterDrivers, List.mem_flatMap, List.mem_filter, List.mem_finRange, true_and, List.mem_map,
    Prod.mk.injEq, decide_eq_true_eq]
  constructor
  · rintro ⟨slot, inside, driver, found, rfl, rfl⟩
    exact ⟨inside, found⟩
  · rintro ⟨inside, found⟩
    exact ⟨i, inside, j, found, rfl, rfl⟩

/-- No driver is called twice for the same slot. -/
theorem nodup_pciRegisterDrivers (drivers : List PciDriver) (s : PciState) :
    (pciRegisterDrivers drivers s).Nodup := by
  refine List.nodup_flatMap.mpr ⟨fun i _ => ?_, ?_⟩
  · refine List.Nodup.map (fun j j' same => (Prod.mk.inj same).1) ?_
    exact (List.nodup_finRange _).filter _
  · refine ((List.nodup_finRange 256).filter _).imp fun differ call left right => ?_
    obtain ⟨j, -, rfl⟩ := List.mem_map.mp left
    obtain ⟨j', -, same⟩ := List.mem_map.mp right
    exact differ (Prod.mk.inj same).2.symm

instance : Finite PciFunction :=
  Finite.of_injective (fun f => (f.bus.toFin, f.device.toFin, f.function.toFin)) fun f g same => by
    obtain ⟨b, d, n⟩ := f
    obtain ⟨b', d', n'⟩ := g
    simpa [UInt8.toFin_inj] using same

/-- The table after the enumeration of a tree. -/
theorem BusTree.lists (tree : BusTree config) (s : PciState) :
    ∃ found s', pciEnumerate config 257 s = some s' ∧ s'.Lists config found ∧ found.length ≤ 256 ∧ found.Nodup ∧
      ∀ f, f ∈ found ↔ ReachableFunction config f := by
  obtain ⟨found, s', visited, bound, enumerated, lists⟩ := pciEnumerate_lists config s
  have same : {f | Reachable (behind config) (roots config) f} = {f | ReachableFunction config f} :=
    Set.ext fun f => reachable_iff tree.single_function
  obtain ⟨distinct, members⟩ :=
    visitAll_exact tree.forest (Set.toFinite _) (by rw [same]; exact tree.fits) visited
  exact ⟨found, s', enumerated, lists, bound, distinct,
    fun f => (members f).trans (reachable_iff tree.single_function)⟩

/-- On a tree of buses `pci_devices` lists the functions that can be reached, each in one slot and with its own
data, and the driver of a function is called once for it and for nothing else. -/
theorem pciEnumerate_tree (tree : BusTree config) (drivers : List PciDriver) (s : PciState) :
    ∃ s', pciEnumerate config 257 s = some s' ∧
      (∀ f, ReachableFunction config f →
        ∃! i : Fin 256, i.val < s'.pciDeviceCount ∧ s'.pciDevices i = f.read config) ∧
      (∀ i : Fin 256, i.val < s'.pciDeviceCount →
        ∃ f, ReachableFunction config f ∧ s'.pciDevices i = f.read config) ∧
      (pciRegisterDrivers drivers s').Nodup ∧
      (∀ f, ReachableFunction config f → ∀ j : Fin drivers.length,
        drivers[j].vendorId = (f.read config).vendorId ∧ drivers[j].deviceId = (f.read config).deviceId →
        ∃! i, (j, i) ∈ pciRegisterDrivers drivers s' ∧ s'.pciDevices i = f.read config) ∧
      ∀ j i, (j, i) ∈ pciRegisterDrivers drivers s' → ∃ f, ReachableFunction config f ∧
        s'.pciDevices i = f.read config ∧
        drivers[j].vendorId = (f.read config).vendorId ∧ drivers[j].deviceId = (f.read config).deviceId := by
  obtain ⟨found, s', enumerated, lists, bound, distinct, members⟩ := tree.lists s
  have slot {f : PciFunction} (reachable : ReachableFunction config f) :
      ∃! i : Fin 256, i.val < s'.pciDeviceCount ∧ s'.pciDevices i = f.read config := by
    obtain ⟨i, inside, read⟩ := lists.mem bound ((members f).mpr reachable)
    exact ⟨i, ⟨inside, read⟩, fun j other => lists.slot_unique distinct other.1 inside (other.2.trans read.symm)⟩
  have listed (i : Fin 256) (inside : i.val < s'.pciDeviceCount) :
      ∃ f, ReachableFunction config f ∧ s'.pciDevices i = f.read config := by
    rw [lists.count] at inside
    exact ⟨found[i.val], (members _).mp (List.getElem_mem inside), lists.read i inside⟩
  refine ⟨s', enumerated, fun f => slot, listed, nodup_pciRegisterDrivers drivers s', ?_, ?_⟩
  · intro f reachable j ids
    obtain ⟨i, ⟨inside, read⟩, unique⟩ := slot reachable
    refine ⟨i, ⟨mem_pciRegisterDrivers.mpr ⟨inside, by rw [read]; exact ids⟩, read⟩, fun k call => ?_⟩
    exact unique k ⟨(mem_pciRegisterDrivers.mp call.1).1, call.2⟩
  · intro j i call
    obtain ⟨inside, ids⟩ := mem_pciRegisterDrivers.mp call
    obtain ⟨f, reachable, read⟩ := listed i inside
    rw [read] at ids
    exact ⟨f, reachable, read, ids⟩

/-! ## A card behind a bridge -/

/-- A list that holds the functions of bus 0 and what is behind its bridges holds all that can be reached. -/
theorem ReachableFunction.mem_of_closed (host : ∀ f ∈ busFunctions config 0, f ∈ found)
    (closed : ∀ bridge ∈ found, ∀ f ∈ behind config bridge, f ∈ found) (reachable : ReachableFunction config f) :
    f ∈ found := by
  induction reachable with
  | host present bus => exact host _ (mem_busFunctions.mpr ⟨bus, present⟩)
  | bridged _ bridge present bus ih => exact closed _ ih _ (mem_behind.mpr ⟨bridge, bus, present⟩)

/-- A tree of which all functions are known. -/
theorem BusTree.of_closed (found : List PciFunction) (single : pciConfigReadByte config 0 0 0 0xE &&& 0x80 = 0)
    (host : ∀ f ∈ busFunctions config 0, f ∈ found)
    (closed : ∀ bridge ∈ found, ∀ f ∈ behind config bridge, f ∈ found)
    (bridges : ∀ f ∈ found, f.IsBridge config → f.secondary config ≠ 0 ∧
      ∀ g ∈ found, g.IsBridge config → f.secondary config = g.secondary config → f = g)
    (few : found.length ≤ 256) : BusTree config where
  single_function := single
  one_bridge left right bridge bridge' same :=
    (bridges _ (left.mem_of_closed host closed) bridge).2 _ (right.mem_of_closed host closed) bridge' same
  not_host reachable bridge := (bridges _ (reachable.mem_of_closed host closed) bridge).1
  fits := by
    have inside : {f | ReachableFunction config f} ⊆ (found.toFinset : Set PciFunction) :=
      fun f reachable => List.mem_toFinset.mpr (reachable.mem_of_closed host closed)
    calc {f | ReachableFunction config f}.ncard ≤ (found.toFinset : Set PciFunction).ncard :=
          Set.ncard_le_ncard inside (Set.toFinite _)
      _ = found.toFinset.card := Set.ncard_coe_finset _
      _ ≤ found.length := found.toFinset_card_le
      _ ≤ 256 := few

/-- A host bridge, a bridge to bus 1, and an RTL8139 behind it. -/
def bridgedConfig : ConfigSpace := fun address =>
  if address = 0x80000000 then 0x12378086
  else if address = 0x80000008 then 0x06000000
  else if address = 0x80000800 then 0x244E8086
  else if address = 0x80000808 then 0x06040000
  else if address = 0x80000818 then 0x00000100
  else if address = 0x80010000 then 0x813910EC
  else if address = 0x80010008 then 0x02000000
  else if address &&& 0xFC = 0 then 0xFFFFFFFF
  else 0

theorem bridgedConfig_tree : BusTree bridgedConfig :=
  BusTree.of_closed [⟨0, 0, 0⟩, ⟨0, 1, 0⟩, ⟨1, 0, 0⟩]
    (by decide +kernel) (by decide +kernel) (by decide +kernel) (by decide +kernel) (by decide)

/-- The driver of the card is called, once. -/
theorem pciEnumerate_tree_bridged : ∃ s', pciEnumerate bridgedConfig 257
      ⟨fun _ => readDevice bridgedConfig 0 0 0, 0⟩ = some s' ∧
    ∃! i, (⟨0, by decide⟩, i) ∈ pciRegisterDrivers pciDrivers s' ∧
      s'.pciDevices i = (PciFunction.mk 1 0 0).read bridgedConfig := by
  obtain ⟨s', enumerated, -, -, -, called, -⟩ :=
    pciEnumerate_tree bridgedConfig_tree pciDrivers ⟨fun _ => readDevice bridgedConfig 0 0 0, 0⟩
  have bridge : ReachableFunction bridgedConfig ⟨0, 1, 0⟩ := .host (by decide +kernel) rfl
  have card : ReachableFunction bridgedConfig ⟨1, 0, 0⟩ :=
    .bridged bridge (by decide +kernel) (by decide +kernel) (by decide +kernel)
  exact ⟨s', enumerated, called _ card ⟨0, by decide⟩ (by decide +kernel)⟩

end QuantumKernel.Pci
