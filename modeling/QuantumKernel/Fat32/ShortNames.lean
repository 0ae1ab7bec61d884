import QuantumKernel.Fat32.Listing
import QuantumKernel.Fat32.FailedCreation
import Mathlib.Data.List.GetD
import Mathlib.Data.List.TakeWhile

/-! # Names of 8.3 form

`fat32_to_short_name` looks for the last dot, clips and pads; `fat32_readdir` stops at the padding.  On a name
of 8.3 form the two are inverse up to upper case, so that the name which `fat32_readdir` reports finds the
entry again, unless an older entry of the same short name lies in front of it.
-/

namespace QuantumKernel.Fat32

open ByteStore LinkedTable

/-- Neither a blank nor a dot nor NUL. -/
def IsNameChar (c : UInt8) : Prop := c ≠ 0x20 ∧ c ≠ 0x2E ∧ c ≠ 0

/-- A name of 1 to 8 characters, and 1 to 3 more behind a dot unless `ext` is empty. -/
structure Name83 where
  base : List UInt8
  ext : List UInt8
  base_pos : 1 ≤ base.length
  base_le : base.length ≤ 8
  ext_le : ext.length ≤ 3
  base_chars : ∀ c ∈ base, IsNameChar c
  ext_chars : ∀ c ∈ ext, IsNameChar c
  notMark : base.head? ≠ some 0xE5

/-- The characters of a name, with the dot. -/
def Name83.chars (name : Name83) : List UInt8 :=
  if name.ext = [] then name.base else name.base ++ 0x2E :: name.ext

theorem Name83.chars_ne_zero (name : Name83) : 0 ∉ name.chars := by
  intro zero
  rw [Name83.chars] at zero
  split at zero
  · exact (name.base_chars 0 zero).2.2 rfl
  · rcases List.mem_append.mp zero with inBase | inRest
    · exact (name.base_chars 0 inBase).2.2 rfl
    · exact (name.ext_chars 0 (List.mem_of_ne_of_mem (by decide) inRest)).2.2 rfl

/-- The name as a path. -/
def Name83.path (name : Name83) : CString := ⟨name.chars, name.chars_ne_zero⟩

theorem takeWhile_ne_zero (chars : List UInt8) : 0 ∉ chars.takeWhile (· ≠ 0) := fun zero => by
  simpa using List.mem_takeWhile_imp zero

/-- The string in the `name` of an `info`. -/
def Fat32FileInfo.text (info : Fat32FileInfo) : CString :=
  ⟨info.name.takeWhile (· ≠ 0), takeWhile_ne_zero info.name⟩

/-- `fat32_readdir` at an index reports the entry in `σ` under the name in upper case, this name finds the
entry in `σ`, and it stands for the names that are equal to it up to case and for no others. -/
structure RoundTrips (fuel : Nat) (s : Fat32State) (dir index : UInt32) (σ : Slot) (name : Name83) : Prop where
  found (info : Fat32FileInfo) : ∃ reply t u, fat32Readdir fuel s dir index info = some (reply, t) ∧
    reply.status = 0 ∧ reply.info.text.val = name.chars.map toUpper ∧
    fat32FindEntry fuel t dir reply.info.text = some (some ⟨s.volume.dirent σ, σ.1, σ.2⟩, u)
  same (other : Name83) : fat32ToShortName other.path = fat32ToShortName name.path ↔
    other.chars.map toUpper = name.chars.map toUpper

/-- The slots in front of the one that a creation takes. -/
def Volume.occupied (v : Volume) (slots : List Slot) : List Slot :=
  slots.takeWhile fun τ => ! reusable (v.dirent τ)

/-- A live entry of the name lies in front of the slot that a creation takes. -/
def Volume.Shadowed (v : Volume) (slots : List Slot) (name : ShortName) : Prop :=
  ∃ τ ∈ v.occupied slots, (v.dirent τ).IsLive ∧ (v.dirent τ).name = name

variable {g : Fat32Fs} {cwd : UInt32} {v v' : Volume} {s s' : Fat32State} {dir first index : UInt32} {attr c : UInt8}
  {l l' : List UInt32} {slots p q : List Slot} {σ τ : Slot} {name other : Name83}
  {path : CString} {chars : List UInt8} {fuel : Nat}

/-! ## Upper case -/

theorem toUpper_toUpper (c : UInt8) : toUpper (toUpper c) = toUpper c := by
  by_cases lower : 0x61 ≤ c ∧ c ≤ 0x7A
  · have capital : toUpper c = c - 32 := if_pos lower
    have value := UInt8.toNat_sub_of_le c 32 (UInt8.le_trans (by decide) lower.1)
    have high := UInt8.le_iff_toNat_le.mp lower.2
    simp only [UInt8.reduceToNat] at value high
    rw [capital, toUpper, if_neg]
    rintro ⟨low, -⟩
    have low := UInt8.le_iff_toNat_le.mp low
    simp only [UInt8.reduceToNat, value] at low
    omega
  · have kept : toUpper c = c := if_neg lower
    rw [kept, kept]

theorem IsNameChar.toUpper (isChar : IsNameChar c) : IsNameChar (toUpper c) where
  left := fun blank => isChar.1 (toUpper_eq_of_not_capital blank (by decide))
  right := ⟨fun dot => isChar.2.1 (toUpper_eq_of_not_capital dot (by decide)), toUpper_ne_zero isChar.2.2⟩

/-- The name in upper case. -/
def Name83.upper (name : Name83) : Name83 where
  base := name.base.map toUpper
  ext := name.ext.map toUpper
  base_pos := by rw [List.length_map]; exact name.base_pos
  base_le := by rw [List.length_map]; exact name.base_le
  ext_le := by rw [List.length_map]; exact name.ext_le
  base_chars := List.forall_mem_map.mpr fun c member => (name.base_chars c member).toUpper
  ext_chars := List.forall_mem_map.mpr fun c member => (name.ext_chars c member).toUpper
  notMark := by
    intro mark
    rw [List.head?_map, Option.map_eq_some_iff] at mark
    obtain ⟨c, isHead, upper⟩ := mark
    exact name.notMark (isHead.trans (congrArg some (toUpper_eq_mark upper)))

theorem Name83.upper_chars (name : Name83) : name.upper.chars = name.chars.map toUpper := by
  have dot : toUpper 0x2E = 0x2E := by decide
  simp only [Name83.chars, Name83.upper, List.map_eq_nil_iff]
  split
  · rfl
  · rw [List.map_append, List.map_cons, dot]

/-! ## The encoder -/

theorem lastDot_noDot (noDot : 0x2E ∉ chars) (p : Nat) (dot : Option Nat) : lastDot chars p dot = dot := by
  induction chars generalizing p with
  | nil => rfl
  | cons c rest ih =>
    obtain ⟨notHere, notLater⟩ := List.ne_and_not_mem_of_not_mem_cons noDot
    rw [lastDot, if_neg (Ne.symm notHere)]
    exact ih notLater _

theorem lastDot_append (front back : List UInt8) (p : Nat) (dot : Option Nat) :
    lastDot (front ++ back) p dot = lastDot back (p + front.length) (lastDot front p dot) := by
  induction front generalizing p dot with
  | nil => rfl
  | cons c rest ih =>
    rw [List.cons_append, lastDot, lastDot, ih, List.length_cons, Nat.add_right_comm]
    rfl

theorem Name83.lastDot_chars (name : Name83) :
    lastDot name.chars 0 none = if name.ext = [] then none else some name.base.length := by
  have baseDot : 0x2E ∉ name.base := fun dot => (name.base_chars _ dot).2.1 rfl
  have extDot : 0x2E ∉ name.ext := fun dot => (name.ext_chars _ dot).2.1 rfl
  rw [Name83.chars]
  split
  · exact lastDot_noDot baseDot 0 none
  · rw [lastDot_append, lastDot, if_pos rfl, lastDot_noDot extDot, Nat.zero_add]

/-- The short name that the two parts make up, each padded with blanks. -/
def Name83.shortName (name : Name83) : ShortName := fun j =>
  if j.val < 8 then (name.base.map Fat32.toUpper).getD j.val 0x20
  else (name.ext.map Fat32.toUpper).getD (j.val - 8) 0x20

theorem getD_map_toUpper (chars : List UInt8) {k : Nat} (inside : k < chars.length) :
    (chars.map toUpper).getD k 0x20 = toUpper chars[k] := by
  rw [List.getD_eq_getElem _ _ (by rwa [List.length_map]), List.getElem_map]

theorem getD_map_past (chars : List UInt8) {k : Nat} (past : chars.length ≤ k) :
    (chars.map toUpper).getD k 0x20 = 0x20 :=
  List.getD_eq_default _ _ (by rwa [List.length_map])

theorem Name83.toShortName (name : Name83) : fat32ToShortName name.path = name.shortName := by
  have basePos := name.base_pos
  have baseLe := name.base_le
  have extLe := name.ext_le
  funext j
  have inside := j.isLt
  simp only [fat32ToShortName, Name83.path, name.lastDot_chars, Name83.shortName]
  by_cases noExt : name.ext = []
  · have chars : name.chars = name.base := if_pos noExt
    simp only [noExt, if_true, chars, Option.getD_none, Nat.min_eq_right baseLe, Nat.add_zero, List.map_nil,
      List.getD_nil]
    rw [if_neg (by omega : ¬ (8 ≤ j.val ∧ j.val < 8))]
    by_cases inBase : j.val < name.base.length
    · rw [if_pos inBase, if_pos (by omega), getD_map_toUpper _ inBase, List.getD_eq_getElem _ _ inBase]
    · rw [if_neg inBase, getD_map_past _ (Nat.le_of_not_lt inBase), ite_self]
  · have chars : name.chars = name.base ++ 0x2E :: name.ext := if_neg noExt
    have length : (name.base ++ 0x2E :: name.ext).length - (name.base.length + 1) = name.ext.length := by
      rw [List.length_append, List.length_cons]
      omega
    simp only [if_neg noExt, chars, Option.getD_some, Nat.min_eq_right baseLe, length, Nat.min_eq_right extLe]
    by_cases inBase : j.val < name.base.length
    · rw [if_pos inBase, if_pos (by omega), getD_map_toUpper _ inBase, List.getD_append _ _ _ _ inBase,
        List.getD_eq_getElem _ _ inBase]
    · rw [if_neg inBase]
      by_cases behind : 8 ≤ j.val
      · rw [if_neg (by omega : ¬ j.val < 8)]
        by_cases inExt : j.val - 8 < name.ext.length
        · have place : name.base.length + 1 + (j.val - 8) - name.base.length = j.val - 8 + 1 := by omega
          rw [if_pos ⟨behind, by omega⟩, getD_map_toUpper _ inExt,
            List.getD_append_right _ _ _ _ (by omega), place, List.getD_cons_succ, List.getD_eq_getElem _ _ inExt]
        · rw [if_neg (by omega), getD_map_past _ (Nat.le_of_not_lt inExt)]
      · rw [if_neg (by omega), if_pos (by omega), getD_map_past _ (Nat.le_of_not_lt inBase)]

/-! ## The decoder -/

theorem takeWhile_padded (noBlank : ∀ c ∈ chars, IsNameChar c) (pad : Nat) :
    (chars ++ List.replicate pad 0x20).takeWhile (· ≠ 0x20) = chars := by
  have blanks : (List.replicate pad (0x20 : UInt8)).takeWhile (· ≠ 0x20) = [] := by
    cases pad <;> simp [List.replicate_succ]
  rw [List.takeWhile_append_of_pos (fun c member => by simpa using (noBlank c member).1), blanks, List.append_nil]

theorem Name83.take_shortName (name : Name83) : (List.ofFn name.shortName).take 8 =
    name.upper.base ++ List.replicate (8 - name.base.length) 0x20 := by
  have baseLe := name.base_le
  refine List.ext_getElem (by simp [Name83.upper]; omega) fun k inside inside' => ?_
  have bound : k < 8 := by simp at inside; omega
  rw [List.getElem_take, List.getElem_ofFn, Name83.shortName, if_pos bound]
  by_cases inBase : k < name.base.length
  · rw [List.getElem_append_left (by simpa [Name83.upper] using inBase), getD_map_toUpper _ inBase]
    exact (List.getElem_map _).symm
  · rw [List.getElem_append_right (by simpa [Name83.upper] using inBase), getD_map_past _ (Nat.le_of_not_lt inBase),
      List.getElem_replicate]

theorem Name83.drop_shortName (name : Name83) : (List.ofFn name.shortName).drop 8 =
    name.upper.ext ++ List.replicate (3 - name.ext.length) 0x20 := by
  have extLe := name.ext_le
  refine List.ext_getElem (by simp [Name83.upper]; omega) fun k inside inside' => ?_
  rw [List.getElem_drop, List.getElem_ofFn, Name83.shortName, if_neg (by simp)]
  simp only [Nat.add_sub_cancel_left]
  by_cases inExt : k < name.ext.length
  · rw [List.getElem_append_left (by simpa [Name83.upper] using inExt), getD_map_toUpper _ inExt]
    exact (List.getElem_map _).symm
  · rw [List.getElem_append_right (by simpa [Name83.upper] using inExt), getD_map_past _ (Nat.le_of_not_lt inExt),
      List.getElem_replicate]

/-- The decoder undoes the encoder, up to case. -/
theorem Name83.readdirName_shortName (name : Name83) : readdirName name.shortName = name.chars.map toUpper := by
  rw [← name.upper_chars, readdirName, name.take_shortName, name.drop_shortName,
    takeWhile_padded name.upper.base_chars, takeWhile_padded name.upper.ext_chars, Name83.chars]
  have ninth : name.shortName 8 = name.upper.ext.getD 0 0x20 := rfl
  cases split : name.upper.ext with
  | nil => simp [ninth, split]
  | cons c rest =>
    have notBlank := (name.upper.ext_chars c (by rw [split]; exact List.mem_cons_self)).1
    simp [ninth, split, notBlank]

/-! ## Names that stand for one short name -/

theorem Name83.upper_shortName (name : Name83) : name.upper.shortName = name.shortName := by
  have twice (chars : List UInt8) : (chars.map toUpper).map toUpper = chars.map toUpper := by
    rw [List.map_map]
    exact List.map_congr_left fun c _ => toUpper_toUpper c
  funext j
  simp only [Name83.shortName, Name83.upper, twice]

/-- Two names have one short name exactly if they are equal up to case. -/
theorem Name83.shortName_eq_iff : fat32ToShortName other.path = fat32ToShortName name.path ↔
    other.chars.map toUpper = name.chars.map toUpper := by
  rw [other.toShortName, name.toShortName]
  constructor
  · intro same
    rw [← other.readdirName_shortName, ← name.readdirName_shortName, same]
  · intro same
    rw [← other.upper_chars, ← name.upper_chars] at same
    have paths : other.upper.path = name.upper.path := Subtype.ext same
    rw [← other.upper_shortName, ← name.upper_shortName, ← other.upper.toShortName, ← name.upper.toShortName, paths]

/-- The string that `fat32_readdir` leaves for the entry of a name. -/
theorem Name83.readdir_text (name : Name83) {entry : Fat32Dirent} (called : entry.name = fat32ToShortName name.path)
    (info : Fat32FileInfo) : (readdirInfo entry info).text = name.upper.path := by
  have noZero : ∀ c ∈ name.upper.chars, decide (c ≠ 0) = true := by
    intro c member
    refine decide_eq_true fun zero => name.upper.chars_ne_zero ?_
    rwa [← zero]
  have zeros (pad : Nat) : (List.replicate pad (0 : UInt8)).takeWhile (· ≠ 0) = [] := by
    cases pad <;> simp [List.replicate_succ]
  have decoded : readdirName entry.name = name.upper.chars := by
    rw [called, name.toShortName, name.readdirName_shortName, name.upper_chars]
  refine Subtype.ext ?_
  simp only [Fat32FileInfo.text, readdirInfo, decoded]
  rw [List.takeWhile_append_of_pos noZero, zeros, List.append_nil]
  rfl

/-! ## The entry that a creation leaves -/

/-- A creation takes the first slot that can be reused; in front of it stay the slots that cannot. -/
theorem fat32CreateEntry_first (enough : l.length + 1 < fuel) (chain : FatChain g v dir l) (h : Stores g cwd v s)
    (created : fat32CreateEntry fuel s dir path attr first = some (0, s')) :
    ∃ v' l' σ q, Stores g cwd v' s' ∧ Inserted g v v' dir l l' σ (newEntry (fat32ToShortName path) attr first) ∧
      g.dirSlots l' = v.occupied (g.dirSlots l) ++ σ :: q := by
  have spec := fat32CreateLoop_spec (fat32ToShortName path) attr first enough chain h
  rw [fat32CreateEntry] at created
  cases result : v.scan (fun _ => false) reusable (g.dirSlots l) with
  | found σ =>
    rw [result] at spec
    obtain ⟨t, run, stores⟩ := spec
    rw [run] at created
    cases created
    obtain ⟨p, q, split, -, vacant, before⟩ := Volume.scan_found result
    have front : ∀ τ ∈ p, (! reusable (v.dirent τ)) = true := by
      intro τ member
      rw [(before τ member).2]
      rfl
    refine ⟨_, l, σ, q, stores, inserted_at h.geometry chain result _ _ _, ?_⟩
    rw [Volume.occupied, split, List.takeWhile_append_of_pos front, List.takeWhile_cons_of_neg (by simp [vacant]),
      List.append_nil]
  | stopped =>
    obtain ⟨_, _, _, _, impossible, _⟩ := Volume.scan_stopped result
    cases impossible
  | exhausted =>
    rw [result] at spec
    rcases spec with ⟨t, run, -⟩ | ⟨n, t, inRange, free, run, stores⟩
    · rw [run] at created
      exact absurd (congrArg (Option.map Prod.fst) created) (by simp)
    · rw [run] at created
      cases created
      -- no slot was free, so all old slots lie in front of the new one
      have full := fun τ member => (Volume.scan_exhausted result τ member).2
      refine ⟨_, l ++ [n], (n, 0), (g.slotsOf n).drop 1, stores,
        inserted_behind h.geometry chain inRange free full _ _ _, ?_⟩
      rw [Volume.occupied, List.takeWhile_eq_self_iff.mpr fun τ member => by rw [full τ member]; rfl, dirSlots_append,
        dirSlots_singleton]
      exact congrArg _ (g.slotsOf_drop n h.geometry.entries_pos)

/-- The new entry is found under its name exactly if no older one lies in front of it. -/
theorem Inserted.lookup_iff {entry : Fat32Dirent} (inserted : Inserted g v v' dir l l' σ entry) (live : entry.IsLive)
    (split : g.dirSlots l' = p ++ σ :: q) (front : ∀ τ ∈ p, τ ∈ g.dirSlots l ∧ reusable (v.dirent τ) = false) :
    v'.lookup (g.dirSlots l') entry.name = some σ ↔
      ¬ ∃ τ ∈ p, (v.dirent τ).IsLive ∧ (v.dirent τ).name = entry.name := by
  have notFront : σ ∉ p := by
    intro member
    obtain ⟨old, taken⟩ := front σ member
    rw [inserted.vacant old] at taken
    cases taken
  have kept : ∀ τ ∈ p, v'.dirent τ = v.dirent τ := fun τ member =>
    inserted.kept τ (front τ member).1 fun same => notFront (same ▸ member)
  -- no slot in front of the new entry ends the search
  have noEnd : ∀ τ ∈ p, ¬ (v'.dirent τ).IsEnd := by
    intro τ member isEnd
    rw [kept τ member] at isEnd
    have taken := (front τ member).2
    rw [reusable_iff.mpr (Or.inl isEnd)] at taken
    cases taken
  constructor
  · rintro found ⟨τ, member, liveτ, called⟩
    rw [← kept τ member] at liveτ called
    rw [Volume.lookup, split, Volume.scan_append] at found
    cases result : v'.scan atEnd (named entry.name) p with
    | found ρ =>
      rw [result] at found
      cases found
      obtain ⟨p', q', split', -⟩ := Volume.scan_found result
      exact notFront (by rw [split']; simp)
    | stopped =>
      obtain ⟨p', ρ, q', split', isEnd, -⟩ := Volume.scan_stopped result
      exact noEnd ρ (by rw [split']; simp) (atEnd_iff.mp isEnd)
    | exhausted =>
      obtain ⟨notEnd, refused⟩ := Volume.scan_exhausted result τ member
      rw [(named_iff notEnd).mpr ⟨liveτ, called⟩] at refused
      cases refused
  · intro clear
    refine Volume.lookup_first split noEnd (fun τ member names => ?_)
      (inserted.names_iff.mpr (Or.inl ⟨rfl, live, rfl⟩))
    rw [Volume.Names, kept τ member] at names
    exact clear ⟨τ, member, names.2⟩

/-- `fat32_readdir` at the number of a live slot, and a lookup of the name it leaves. -/
theorem readdir_then_find (enough : 4294967296 ≤ fuel) (chain : FatChain g v dir l) (h : Stores g cwd v s)
    (split : g.dirSlots l = p ++ σ :: q) (here : index.toNat = p.length) (live : (v.dirent σ).IsLive)
    (called : (v.dirent σ).name = fat32ToShortName name.path) (info : Fat32FileInfo) :
    ∃ t u, fat32Readdir fuel s dir index info = some (⟨0, index + 1, readdirInfo (v.dirent σ) info⟩, t) ∧
      fat32FindEntry fuel t dir (readdirInfo (v.dirent σ) info).text =
        some ((v.lookup (g.dirSlots l) (fat32ToShortName name.path)).map fun σ => ⟨v.dirent σ, σ.1, σ.2⟩, u) := by
  have short := FatChain.length_lt h.geometry chain
  have behind : (g.dirSlots l).drop index.toNat = σ :: q := by rw [split, here, List.drop_left]
  obtain ⟨t, read, stores⟩ := fat32Readdir_spec index info enough chain (by rw [split, here]; simp) h
  obtain ⟨u, find, -⟩ := fat32FindEntry_spec name.upper.path (by omega : l.length < fuel) chain stores
  rw [name.upper.toShortName, name.upper_shortName, ← name.toShortName] at find
  refine ⟨t, u, ?_, ?_⟩
  · rw [read, behind, Volume.scan_live live]
    rfl
  · rw [name.readdir_text called info, find]

theorem Name83.path_notMark (name : Name83) : name.path.val.head? ≠ some 0xE5 := by
  obtain ⟨c, rest, shape⟩ := List.exists_cons_of_ne_nil (List.ne_nil_of_length_pos name.base_pos)
  have notMark := name.notMark
  simp only [Name83.path, Name83.chars]
  split <;> simpa [shape] using notMark

/-- An entry that is created under a name of 8.3 form round-trips exactly if no live entry of that short name lies
in front of the slot that the creation takes. -/
theorem name_roundTrips_iff (enough : 4294967296 ≤ fuel) (mounted : Mounted s) (chain : FatChain s.gFs s.volume dir l)
    (notLfn : attr ≠ fat32AttrLfn) (created : fat32CreateEntry fuel s dir name.path attr first = some (0, s')) :
    ∃ l' σ index, Inserted s.gFs s.volume s'.volume dir l l' σ (newEntry (fat32ToShortName name.path) attr first) ∧
      (s.gFs.dirSlots l')[index.toNat]? = some σ ∧
      (RoundTrips fuel s' dir index σ name ↔
        ¬ s.volume.Shadowed (s.gFs.dirSlots l) (fat32ToShortName name.path)) := by
  have short := FatChain.length_lt mounted.geometry chain
  have stores := Stores.of_geometry mounted.geometry mounted.drive
  obtain ⟨v', l', σ, q, stores', inserted, split⟩ := fat32CreateEntry_first (by omega) chain stores created
  obtain rfl := stores'.volume_eq
  have live := (newEntry_live_iff name.path attr notLfn first).mpr (fat32ToShortName_ne_mark name.path_notMark)
  have few := FatChain.slots_lt mounted.geometry inserted.grown.chain
  rw [split, List.length_append, List.length_cons] at few
  -- the number of the slot is the number of slots in front of it
  have number := UInt32.toNat_ofNat_of_lt' (show _ < UInt32.size by exact Nat.lt_of_le_of_lt (Nat.le_add_right _ _) few)
  have calls := readdir_then_find enough inserted.grown.chain stores' split number
    (by rw [inserted.holds]; exact live) (by rw [inserted.holds]; rfl)
  have lookup := inserted.lookup_iff live split fun τ member => by
    have passed := List.mem_takeWhile_imp member
    exact ⟨(List.takeWhile_sublist _).subset member, by simpa using passed⟩
  refine ⟨l', σ, UInt32.ofNat (s.volume.occupied (s.gFs.dirSlots l)).length, inserted, ?_, ?_, ?_⟩
  · rw [split, number, List.getElem?_append_right (Nat.le_refl _), Nat.sub_self, List.getElem?_cons_zero]
  · intro trips shadowed
    obtain ⟨t, u, read, find⟩ := calls Fat32FileInfo.zero
    obtain ⟨reply, t', u', read', -, -, find'⟩ := trips.found Fat32FileInfo.zero
    rw [read] at read'
    cases read'
    rw [find] at find'
    obtain ⟨τ, found, place⟩ := Option.map_eq_some_iff.mp (Prod.mk.inj (Option.some.inj find')).1
    simp only [FoundEntry.mk.injEq] at place
    rw [Prod.ext place.2.1 place.2.2] at found
    exact lookup.mp found shadowed
  · intro clear
    refine ⟨fun info => ?_, fun other => Name83.shortName_eq_iff⟩
    obtain ⟨t, u, read, find⟩ := calls info
    have located := lookup.mpr clear
    rw [show (newEntry (fat32ToShortName name.path) attr first).name = fat32ToShortName name.path from rfl] at located
    rw [located] at find
    refine ⟨_, t, u, read, rfl, ?_, find⟩
    rw [name.readdir_text (by rw [inserted.holds]; rfl)]
    exact name.upper_chars

/-- The name of one character. -/
def Name83.ofChar (c : UInt8) (isChar : IsNameChar c) (notMark : c ≠ 0xE5) : Name83 where
  base := [c]
  ext := []
  base_pos := Nat.le_refl 1
  base_le := Nat.le_add_left 1 7
  ext_le := Nat.zero_le 3
  base_chars := List.forall_mem_singleton.mpr isChar
  ext_chars := fun _ member => absurd member List.not_mem_nil
  notMark := fun mark => notMark (Option.some.inj mark)

def capitalA : Name83 := .ofChar 0x41 ⟨by decide, by decide, by decide⟩ (by decide)
def smallA : Name83 := .ofChar 0x61 ⟨by decide, by decide, by decide⟩ (by decide)

theorem name_roundTrips_smallA : ∃ s' σ index, RoundTrips 4294967296 s' 2 index σ smallA := by
  have ok : (fat32CreateEntry 4294967296 (mountedOn smallFs blankDrive) 2 smallA.path fat32AttrArchive 0).map
      (fun result => result.1) = some 0 := by decide +kernel
  obtain ⟨⟨status, s'⟩, created, rfl⟩ := Option.map_eq_some_iff.mp ok
  obtain ⟨l', σ, index, -, -, exactly⟩ := name_roundTrips_iff (by decide) ⟨smallFs_geometry, fun _ => rfl⟩
    blankDrive_wellFormed.chain (by decide) created
  refine ⟨s', σ, index, exactly.mpr ?_⟩
  rintro ⟨τ, front, live, called⟩
  exact blankDrive_absent _ τ ⟨(List.takeWhile_sublist _).subset front, live, called⟩

/-- `fat32_mkdir` of `A` and then of `a`: the second directory is reported as `A`, and a lookup of `A` finds
the first one. -/
theorem name_shadowed :
    ∃ s s₁ s₂ l σ index, Mounted s ∧ FatChain s.gFs s.volume s.gCurrentDirCluster l ∧
      fat32Mkdir 10 s capitalA.path = some (0, s₁) ∧ fat32Mkdir 10 s₁ smallA.path = some (0, s₂) ∧
      (s.gFs.dirSlots l)[index.toNat]? = some σ ∧ (s₁.volume.dirent σ).IsEnd ∧
      s₂.volume.Names (s.gFs.dirSlots l) (fat32ToShortName smallA.path) σ ∧
      ¬ RoundTrips 10 s₂ s.gCurrentDirCluster index σ smallA := by
  have ok : ((fat32Mkdir 10 (mountedOn smallFs blankDrive) capitalA.path).map fun first =>
      (first.1, (fat32Mkdir 10 first.2 smallA.path).map fun second =>
        (second.1, decide ((first.2.volume.dirent (2, 32)).IsEnd ∧ (second.2.volume.dirent (2, 32)).IsLive ∧
          (second.2.volume.dirent (2, 32)).name = fat32ToShortName smallA.path ∧
          ((fat32Readdir 10 second.2 2 1 Fat32FileInfo.zero).bind fun listed =>
            (fat32FindEntry 10 listed.2 2 listed.1.info.text).map fun found =>
              found.1.map fun entry => entry.entryOffset) = some (some 0))))) = some (0, some (0, true)) := by
    decide +kernel
  obtain ⟨⟨status, s₁⟩, made₁, same⟩ := Option.map_eq_some_iff.mp ok
  obtain ⟨rfl, second⟩ := Prod.mk.inj same
  obtain ⟨⟨status, s₂⟩, made₂, same⟩ := Option.map_eq_some_iff.mp second
  obtain ⟨rfl, facts⟩ := Prod.mk.inj same
  obtain ⟨vacant, live, called, found⟩ := of_decide_eq_true facts
  refine ⟨_, s₁, s₂, [2], (2, 32), 1, ⟨smallFs_geometry, fun _ => rfl⟩, blankDrive_wellFormed.chain, made₁, made₂,
    by decide +kernel, vacant, ⟨by decide +kernel, live, called⟩, fun trips => ?_⟩
  obtain ⟨reply, t, u, read, -, -, find⟩ := trips.found Fat32FileInfo.zero
  have read : fat32Readdir 10 s₂ 2 1 Fat32FileInfo.zero = some (reply, t) := read
  have find : fat32FindEntry 10 t 2 reply.info.text = some (some ⟨_, 2, 32⟩, u) := find
  rw [read, Option.bind_some, find] at found
  exact absurd (Option.some.inj (Option.some.inj found)) (show (32 : UInt32) ≠ 0 by decide)

end QuantumKernel.Fat32
