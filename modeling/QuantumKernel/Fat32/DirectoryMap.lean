import QuantumKernel.Fat32.Sessions

/-! # A directory is a finite map

What `fat32_find_entry` answers, as a function of the short name, is a finite map from
names to entries.  `MapStep` is that map's own transition system: a creation that
succeeds adds one entry, a successful unlink removes one, and everything else leaves the
map alone.  Runs of creations and unlinks on a valid directory are traces of it.
-/

namespace QuantumKernel.Fat32

open ByteStore LinkedTable Transition

/-! ## Operations on a directory -/

/-- The calls that add names to the current directory or remove them. -/
inductive DirOp
  | creat (path : CString) (flags : UInt8)
  | mkdir (path : CString)
  | unlink (path : CString)

/-- The result of an operation, and the handle that `fat32_open` filled in. -/
structure DirReply where
  status : Int32
  handle : Option Fat32File

def dirStep (fuel : Nat) (s : Fat32State) : DirOp → Option (DirReply × Fat32State)
  | .creat path flags => do
    let (status, file, s) ← fat32Open fuel s Fat32File.zero (some path) flags
    some (⟨status, some file⟩, s)
  | .mkdir path => do
    let (status, s) ← fat32Mkdir fuel s path
    some (⟨status, none⟩, s)
  | .unlink path => do
    let (status, s) ← fat32Unlink fuel s path
    some (⟨status, none⟩, s)

/-- What `fat32_find_entry` answers in the current directory, for every short name. -/
def dirMap (fuel : Nat) (s : Fat32State) (name : ShortName) : Option FoundEntry :=
  (fat32FindLoop name fuel s s.gCurrentDirCluster).bind fun result => result.1

/-- Creations are for absent names that do not start with the mark of a deleted entry. -/
def DirOp.Sensible (fuel : Nat) (s : Fat32State) : DirOp → Prop
  | .creat path flags => hasFlag flags fat32OCreat = true ∧ fat32ToShortName path 0 ≠ 0xE5 ∧
      dirMap fuel s (fat32ToShortName path) = none
  | .mkdir path => fat32ToShortName path 0 ≠ 0xE5 ∧ dirMap fuel s (fat32ToShortName path) = none
  | .unlink _ => True

/-- The transition system of the finite map. -/
inductive MapStep (map : ShortName → Option FoundEntry) :
    DirOp → DirReply → (ShortName → Option FoundEntry) → Prop
  | created (path : CString) (flags : UInt8) (found : FoundEntry) (file : Fat32File) :
      found.entry = newEntry (fat32ToShortName path) fat32AttrArchive file.firstCluster →
      2 ≤ file.firstCluster →
      file.slot = (found.entryCluster, found.entryOffset) →
      MapStep map (.creat path flags) ⟨0, some file⟩
        (Function.update map (fat32ToShortName path) (some found))
  | createFails (path : CString) (flags : UInt8) (file : Option Fat32File) :
      MapStep map (.creat path flags) ⟨-1, file⟩ map
  | madeDirectory (path : CString) (found : FoundEntry) (first : UInt32) :
      found.entry = newEntry (fat32ToShortName path) fat32AttrDirectory first → 2 ≤ first →
      MapStep map (.mkdir path) ⟨0, none⟩
        (Function.update map (fat32ToShortName path) (some found))
  | mkdirFails (path : CString) : MapStep map (.mkdir path) ⟨-1, none⟩ map
  | unlinked (path : CString) (found : FoundEntry) :
      map (fat32ToShortName path) = some found →
      MapStep map (.unlink path) ⟨0, none⟩ (Function.update map (fat32ToShortName path) none)
  | unlinkFails (path : CString) :
      map (fat32ToShortName path) = none → MapStep map (.unlink path) ⟨-1, none⟩ map

/-- A mounted driver whose current directory, with clusters `l`, is well formed and has
no name twice. -/
structure ValidDirectory (s : Fat32State) (l : List UInt32) : Prop where
  mounted : Mounted s
  wellFormed : WellFormed s.gFs s.gCurrentDirCluster s.volume l
  unique : s.volume.UniqueNames (s.gFs.dirSlots l)

variable {g : Fat32Fs} {cwd a n : UInt32} {v v' : Volume} {s s' : Fat32State} {l l' : List UInt32}
  {σ τ : Slot} {name : ShortName} {entry : Fat32Dirent} {fuel : Nat} {A : FileStore} {path : CString}

/-! ## From states to volumes and back -/

theorem Stores.volume_eq (h : Stores g cwd v s) : s.volume = v := by
  rw [Fat32State.volume, h.gFs]
  exact h.volume

theorem Stores.mounted (h : Stores g cwd v s) : Mounted s := by
  refine ⟨?_, h.outcome⟩
  rw [h.gFs]
  obtain ⟨pos, le, bytes, fats, fat, begins, fits⟩ := h.geometry
  exact ⟨pos, le, bytes, fats, fat, begins, fits⟩

theorem Stores.wellFormed (h : Stores g cwd v s) (wf : WellFormed g cwd v l) :
    WellFormed s.gFs s.gCurrentDirCluster s.volume l := by
  rw [h.volume_eq, h.current, h.gFs]
  exact ⟨wf.chain, wf.ends, wf.entry, wf.apart⟩

theorem Stores.uniqueNames (h : Stores g cwd v s) (unique : v.UniqueNames (g.dirSlots l)) :
    s.volume.UniqueNames (s.gFs.dirSlots l) := by
  rw [h.volume_eq, h.gFs]
  exact unique

/-- Without open handles a consistent store is a well-formed directory. -/
theorem FileStore.Consistent.wellFormed (consistent : A.Consistent g cwd)
    (closed : ∀ k, (A.file k).isOpen = false) : WellFormed g cwd A.volume A.directory := by
  have owned : ∀ σ ∈ A.slots g, (A.dirent σ).IsLive → A.Owned cwd (A.dirent σ).firstCluster σ := by
    intro σ member live
    rcases consistent.entries σ member live with ⟨k, isOpen, -⟩ | owned
    · rw [closed k] at isOpen
      cases isOpen
    · exact owned
  refine ⟨consistent.chain, consistent.ends, fun σ member live => consistent.owned_chain (owned σ member live),
    fun σ memberσ τ memberτ liveσ liveτ ne m m' chainσ chainτ => ?_⟩
  have nonzeroσ := (chainσ.cell_of_mem _ chainσ.head_mem).ne_zero
  have nonzeroτ := (chainτ.cell_of_mem _ chainτ.head_mem).ne_zero
  obtain ⟨headσ, -, ownerσ⟩ := (owned σ memberσ liveσ).resolve_left nonzeroσ
  obtain ⟨headτ, -, ownerτ⟩ := (owned τ memberτ liveτ).resolve_left nonzeroτ
  refine consistent.separate.2 _ headσ _ headτ (fun same => ?_) m m' chainσ chainτ
  rw [same, ownerτ] at ownerσ
  exact ne (Option.some.inj ownerσ).symm

/-! ## Lookups after an edit -/

/-- Two directories in which a name belongs to the same slot answer alike. -/
theorem Volume.lookup_congr {slots slots' : List Slot} (ends : v.EndMarked slots)
    (unique : v.UniqueNames slots) (ends' : v'.EndMarked slots') (unique' : v'.UniqueNames slots')
    (agree : ∀ τ, v'.Names slots' name τ ↔ v.Names slots name τ) :
    v'.lookup slots' name = v.lookup slots name := by
  refine Option.ext fun τ => ?_
  rw [Volume.lookup_eq_some_iff ends' unique', Volume.lookup_eq_some_iff ends unique]
  exact agree τ

/-- The map of names that a list of slots holds. -/
def Volume.view (v : Volume) (slots : List Slot) (name : ShortName) : Option FoundEntry :=
  (v.lookup slots name).map fun σ => ⟨v.dirent σ, σ.1, σ.2⟩

theorem Volume.scan_congr {slots : List Slot} (same : ∀ σ ∈ slots, v'.dirent σ = v.dirent σ)
    (stop accept : Fat32Dirent → Bool) : v'.scan stop accept slots = v.scan stop accept slots := by
  induction slots with
  | nil => rfl
  | cons σ rest ih =>
    rw [Volume.scan, Volume.scan, same σ List.mem_cons_self,
      ih fun τ member => same τ (List.mem_cons_of_mem _ member)]

theorem Volume.lookup_setFat (v : Volume) (c value : UInt32) (slots : List Slot)
    (name : ShortName) : (v.setFat c value).lookup slots name = v.lookup slots name := by
  have same : ∀ σ ∈ slots, (v.setFat c value).dirent σ = v.dirent σ := fun _ _ => rfl
  rw [Volume.lookup, Volume.lookup, Volume.scan_congr same]

theorem Volume.view_congr {slots : List Slot} (same : ∀ σ ∈ slots, v'.dirent σ = v.dirent σ) :
    v'.view slots = v.view slots := by
  funext name
  rw [Volume.view, Volume.view, Volume.lookup, Volume.lookup, Volume.scan_congr same]
  cases found : v.scan atEnd (named name) slots with
  | stopped => rfl
  | exhausted => rfl
  | found σ =>
    obtain ⟨p, q, split, -⟩ := Volume.scan_found found
    simp only [Option.map_some, same σ (by rw [split]; simp)]

theorem Volume.view_setFat (v : Volume) (c value : UInt32) (slots : List Slot) :
    (v.setFat c value).view slots = v.view slots := Volume.view_congr fun _ _ => rfl

/-- The map of a state that shows a volume. -/
theorem Stores.dirMap_eq (h : Stores g cwd v s) (enough : 4294967296 ≤ fuel)
    (chain : FatChain g v cwd l) : dirMap fuel s = v.view (g.dirSlots l) := by
  funext name
  have short := FatChain.length_lt h.geometry chain
  obtain ⟨s', run, -⟩ := fat32FindLoop_spec name (by omega : _ < fuel) chain h
  rw [dirMap, h.current, run]
  rfl

theorem Stores.absent (h : Stores g cwd v s) (enough : 4294967296 ≤ fuel)
    (chain : FatChain g v cwd l) (absent : dirMap fuel s name = none) :
    v.lookup (g.dirSlots l) name = none := by
  rw [h.dirMap_eq enough chain, Volume.view] at absent
  exact Option.map_eq_none_iff.mp absent

/-- Lookups after an insertion. -/
theorem Inserted.view_eq (inserted : Inserted g v v' a l l' σ entry) (live : entry.IsLive)
    (ends : v.EndMarked (g.dirSlots l)) (unique : v.UniqueNames (g.dirSlots l))
    (absent : v.lookup (g.dirSlots l) entry.name = none) :
    v'.view (g.dirSlots l') =
      Function.update (v.view (g.dirSlots l)) entry.name (some ⟨entry, σ.1, σ.2⟩) := by
  funext name
  have nobody := Volume.lookup_none ends absent
  have ends' := inserted.ends ends live.1
  have unique' := inserted.uniqueNames (fun _ => nobody) unique
  by_cases same : name = entry.name
  · subst same
    rw [Volume.view, inserted.lookup_new live rfl nobody, Function.update_self]
    simp only [Option.map_some, inserted.holds]
  · rw [Function.update_of_ne same]
    have agree : v'.lookup (g.dirSlots l') name = v.lookup (g.dirSlots l) name := by
      refine Volume.lookup_congr ends unique ends' unique' fun τ => ?_
      rw [inserted.names_iff]
      exact ⟨fun names => names.resolve_left fun new => same new.2.2.symm, Or.inr⟩
    rw [Volume.view, Volume.view, agree]
    cases found : v.lookup (g.dirSlots l) name with
    | none => rfl
    | some τ =>
      obtain ⟨member, liveτ, -⟩ := Volume.lookup_some found
      have ne : τ ≠ σ := by
        rintro rfl
        exact inserted.not_live_before member liveτ
      simp only [Option.map_some, inserted.kept τ member ne]

/-- Lookups after a deletion. -/
theorem EditedSlot.view_eq (edited : EditedSlot g v v' σ entry) (gone : ¬ entry.IsLive)
    (ends : v.EndMarked (g.dirSlots l)) (ends' : v'.EndMarked (g.dirSlots l))
    (unique : v.UniqueNames (g.dirSlots l)) (names : v.Names (g.dirSlots l) name σ) :
    v'.view (g.dirSlots l) = Function.update (v.view (g.dirSlots l)) name none := by
  funext other
  have unique' : v'.UniqueNames (g.dirSlots l) :=
    unique.of_names fun _ _ names => ((edited.names_erased gone).mp names).1
  by_cases same : other = name
  · subst same
    rw [Function.update_self, Volume.view, Option.map_eq_none_iff]
    cases found : v'.lookup (g.dirSlots l) other with
    | none => rfl
    | some τ =>
      obtain ⟨old, ne⟩ := (edited.names_erased gone).mp (Volume.lookup_some found)
      exact absurd (unique τ old.1 σ names.1 old.2.1 names.2.1 (old.2.2.trans names.2.2.symm)) ne
  · rw [Function.update_of_ne same]
    have agree : v'.lookup (g.dirSlots l) other = v.lookup (g.dirSlots l) other := by
      refine Volume.lookup_congr ends unique ends' unique' fun τ => ?_
      rw [edited.names_erased gone]
      refine and_iff_left_of_imp fun old => ?_
      rintro rfl
      exact same (old.2.2.symm.trans names.2.2)
    rw [Volume.view, Volume.view, agree]
    cases found : v.lookup (g.dirSlots l) other with
    | none => rfl
    | some τ =>
      obtain ⟨member, liveτ, nameτ⟩ := Volume.lookup_some found
      have ne : τ ≠ σ := by
        rintro rfl
        exact same (nameτ.symm.trans names.2.2)
      simp only [Option.map_some, edited.kept l τ member ne]

/-! ## One operation -/

theorem Stores.validDirectory (h : Stores g cwd v s) (wf : WellFormed g cwd v l)
    (unique : v.UniqueNames (g.dirSlots l)) : ValidDirectory s l :=
  ⟨h.mounted, h.wellFormed wf, h.uniqueNames unique⟩

/-- A store without handles for a well-formed directory. -/
theorem WellFormed.idle (wf : WellFormed g cwd v l) (geo : Geometry g) :
    ∃ A : FileStore, A.Consistent g cwd ∧ A.volume = v ∧ A.directory = l ∧
      ∀ k, (A.file k).isOpen = false :=
  ⟨_, wf.consistent geo (fun _ => Fat32File.zero) (fun _ => rfl) fun _ _ => 0, rfl, rfl,
    fun _ => rfl⟩

theorem dirStep_creat (enough : 4294967296 ≤ fuel) (valid : ValidDirectory s l) {flags : UInt8}
    (creat : hasFlag flags fat32OCreat = true) (notDead : fat32ToShortName path 0 ≠ 0xE5)
    (absent : dirMap fuel s (fat32ToShortName path) = none) :
    ∃ r s' l', dirStep fuel s (.creat path flags) = some (r, s') ∧ ValidDirectory s' l' ∧
      MapStep (dirMap fuel s) (.creat path flags) r (dirMap fuel s') := by
  have stores := Stores.of_geometry valid.mounted.geometry valid.mounted.drive
  obtain ⟨A, consistent, volume, directory, closed⟩ := valid.wellFormed.idle stores.geometry
  rw [Fat32State.volume] at volume
  rw [← volume] at stores
  have chain := consistent.chain
  have unique := valid.unique
  rw [Fat32State.volume, ← volume, ← directory] at unique
  have missing := stores.absent enough chain absent
  rcases fat32Open_creates Fat32File.zero enough chain
    (Volume.lookup_none consistent.ends missing) creat stores
    with ⟨s', run, stores', -⟩ |
    ⟨n, s', v', l', σ, inRange, free, inserted, ⟨-, run, stores'⟩ | ⟨dead, -⟩⟩
  · refine ⟨⟨-1, some Fat32File.zero⟩, s', A.directory, ?_,
      stores'.validDirectory (consistent.wellFormed closed) unique, ?_⟩
    · simp only [dirStep, run, Option.bind_eq_bind, Option.bind_some]
    · rw [stores'.dirMap_eq enough chain, stores.dirMap_eq enough chain]
      exact .createFails path flags _
  · -- the new entry is live, so it is found under the name from now on
    have live := (newEntry_live_iff path fat32AttrArchive (by decide) n).mpr notDead
    have grown := consistent.insertEntry inRange free inserted live.1 (newEntry_firstCluster _ _ _)
    rw [← Volume.lookup_setFat A.volume n fat32EocMax] at missing
    have unique' := inserted.uniqueNames (fun _ => Volume.lookup_none consistent.ends missing) unique
    refine ⟨⟨0, some (handleFor (newEntry (fat32ToShortName path) fat32AttrArchive n) σ flags)⟩, s',
      l', ?_, stores'.validDirectory (grown.wellFormed closed) unique', ?_⟩
    · simp only [dirStep, run, Option.bind_eq_bind, Option.bind_some]
    · rw [stores'.dirMap_eq enough inserted.grown.chain, stores.dirMap_eq enough chain,
        inserted.view_eq live consistent.ends unique missing, Volume.view_setFat]
      refine .created path flags
        ⟨newEntry (fat32ToShortName path) fat32AttrArchive n, σ.1, σ.2⟩
        (handleFor (newEntry (fat32ToShortName path) fat32AttrArchive n) σ flags) ?_ ?_ rfl
      · simp only [handleFor_firstCluster, newEntry_firstCluster]
      · simp only [handleFor_firstCluster, newEntry_firstCluster]
        exact inRange.two_le
  · exact absurd dead notDead

theorem dirStep_mkdir (enough : 4294967296 ≤ fuel) (valid : ValidDirectory s l)
    (notDead : fat32ToShortName path 0 ≠ 0xE5)
    (absent : dirMap fuel s (fat32ToShortName path) = none) :
    ∃ r s' l', dirStep fuel s (.mkdir path) = some (r, s') ∧ ValidDirectory s' l' ∧
      MapStep (dirMap fuel s) (.mkdir path) r (dirMap fuel s') := by
  have stores := Stores.of_geometry valid.mounted.geometry valid.mounted.drive
  obtain ⟨A, consistent, volume, directory, closed⟩ := valid.wellFormed.idle stores.geometry
  rw [Fat32State.volume] at volume
  rw [← volume] at stores
  have chain := consistent.chain
  have unique := valid.unique
  rw [Fat32State.volume, ← volume, ← directory] at unique
  have missing := stores.absent enough chain absent
  rcases fat32Mkdir_spec path enough chain stores with
    ⟨s', run, stores', -⟩ | ⟨n, s', v', l', σ, inRange, free, inserted, run, stores'⟩
  · refine ⟨⟨-1, none⟩, s', A.directory, ?_,
      stores'.validDirectory (consistent.wellFormed closed) unique, ?_⟩
    · simp only [dirStep, run, Option.bind_eq_bind, Option.bind_some]
    · rw [stores'.dirMap_eq enough chain, stores.dirMap_eq enough chain]
      exact .mkdirFails path
  · have live :=
      (newEntry_live_iff path fat32AttrDirectory (by decide) n).mpr notDead
    have made := consistent.mkdirMakes inRange free inserted
    rw [← Volume.lookup_setFat A.volume n fat32EocMax] at missing
    have unique' := inserted.uniqueNames (fun _ => Volume.lookup_none consistent.ends missing) unique
    -- the blank cluster of the new directory is not one of the clusters of this one
    have out := consistent.fresh_outside inRange free inserted
    have same : ∀ σ ∈ s.gFs.dirSlots l', (v'.setData n fun _ => 0).dirent σ = v'.dirent σ := by
      refine Volume.dirent_congr fun d member => ?_
      rw [Volume.setData_data, Function.update_of_ne]
      exact fun equal => out (equal ▸ member)
    refine ⟨⟨0, none⟩, s', l', ?_, stores'.validDirectory (made.wellFormed closed) ?_, ?_⟩
    · simp only [dirStep, run, Option.bind_eq_bind, Option.bind_some]
    · refine unique'.of_names fun name σ names => ?_
      rw [Volume.Names, same σ names.1] at names
      exact names
    · have chain' : FatChain s.gFs (v'.setData n fun _ => 0) s.gCurrentDirCluster l' := made.chain
      rw [stores'.dirMap_eq enough chain', Volume.view_congr same,
        stores.dirMap_eq enough chain, inserted.view_eq live consistent.ends unique missing,
        Volume.view_setFat]
      exact .madeDirectory path ⟨newEntry (fat32ToShortName path) fat32AttrDirectory n, σ.1, σ.2⟩ n
        rfl inRange.two_le

theorem dirStep_unlink (enough : 4294967296 ≤ fuel) (valid : ValidDirectory s l) (path : CString) :
    ∃ r s' l', dirStep fuel s (.unlink path) = some (r, s') ∧ ValidDirectory s' l' ∧
      MapStep (dirMap fuel s) (.unlink path) r (dirMap fuel s') := by
  have stores := Stores.of_geometry valid.mounted.geometry valid.mounted.drive
  obtain ⟨A, consistent, volume, directory, closed⟩ := valid.wellFormed.idle stores.geometry
  rw [Fat32State.volume] at volume
  rw [← volume] at stores
  have chain := consistent.chain
  have unique := valid.unique
  rw [Fat32State.volume, ← volume, ← directory] at unique
  have nobody : ∀ k, ¬ OpenUnder A.file A.opened (fat32ToShortName path) k := by
    intro k under
    rw [OpenUnder, closed k] at under
    cases under.1
  cases found : A.lookup s.gFs path with
  | none =>
    obtain ⟨s', run, stores'⟩ := fat32Unlink_missing enough chain found stores
    refine ⟨⟨-1, none⟩, s', A.directory, ?_,
      stores'.validDirectory (consistent.wellFormed closed) unique, ?_⟩
    · simp only [dirStep, run, Option.bind_eq_bind, Option.bind_some]
    · rw [stores'.dirMap_eq enough chain, stores.dirMap_eq enough chain]
      exact .unlinkFails path (Option.map_eq_none_iff.mpr found)
  | some σ =>
    have names := FileStore.lookup_names found
    obtain ⟨member, live, -⟩ := id names
    have edited := eraseAt_edited (v := A.volume) stores.geometry member
    have gone := (unlinkedEntry_deleted (A.volume.dirent σ)).not_live
    have unique' : (A.volume.eraseAt σ).UniqueNames (s.gFs.dirSlots A.directory) :=
      unique.of_names fun _ _ names => ((edited.names_erased gone).mp names).1
    have erased := consistent.eraseEntry member live fun k openK => absurd openK (by simp [closed k])
    -- freeing the clusters of the file changes no entry
    have finish {s' : Fat32State} {w : Volume} (run : fat32Unlink fuel s path = some (0, s'))
        (stores' : Stores s.gFs s.gCurrentDirCluster w s') (data : w.data = (A.volume.eraseAt σ).data)
        (wf : WellFormed s.gFs s.gCurrentDirCluster w A.directory) :
        ∃ r s' l', dirStep fuel s (.unlink path) = some (r, s') ∧ ValidDirectory s' l' ∧
          MapStep (dirMap fuel s) (.unlink path) r (dirMap fuel s') := by
      have same : ∀ τ ∈ s.gFs.dirSlots A.directory, w.dirent τ = (A.volume.eraseAt σ).dirent τ :=
        Volume.dirent_congr fun c _ => congrFun data c
      refine ⟨⟨0, none⟩, s', A.directory, ?_, stores'.validDirectory wf ?_, ?_⟩
      · simp only [dirStep, run, Option.bind_eq_bind, Option.bind_some]
      · refine unique'.of_names fun name τ names => ?_
        rw [Volume.Names, same τ names.1] at names
        exact names
      · rw [stores'.dirMap_eq enough wf.chain, Volume.view_congr same, stores.dirMap_eq enough chain,
          edited.view_eq gone consistent.ends erased.ends unique names]
        refine .unlinked path ⟨A.volume.dirent σ, σ.1, σ.2⟩ ?_
        rw [Volume.view]
        exact congrArg (Option.map _) found
    have owned := consistent.owned_of_lookup found fun k under => absurd under (nobody k)
    rcases consistent.owned_chain owned with zero | ⟨m, chainM, apart⟩
    · obtain ⟨s', run, stores'⟩ := fat32Unlink_empty enough chain found zero stores
      exact finish run stores' rfl (erased.wellFormed closed)
    · obtain ⟨s', run, stores'⟩ := fat32Unlink_chain enough chain found chainM apart stores
      exact finish run stores' rfl ((consistent.unlinked nobody found chainM).wellFormed closed)

/-! ## Runs -/

instance (fuel : Nat) (s : Fat32State) (op : DirOp) : Decidable (op.Sensible fuel s) :=
  match op with
  | .creat _ _ => inferInstanceAs (Decidable (_ ∧ _ ∧ _))
  | .mkdir _ => inferInstanceAs (Decidable (_ ∧ _))
  | .unlink _ => isTrue trivial

/-- A sensible operation returns, keeps the directory valid, and is a step of the map. -/
theorem ValidDirectory.step (valid : ValidDirectory s l) (enough : 4294967296 ≤ fuel) (op : DirOp)
    (sensible : op.Sensible fuel s) :
    ∃ r s' l', dirStep fuel s op = some (r, s') ∧ ValidDirectory s' l' ∧
      MapStep (dirMap fuel s) op r (dirMap fuel s') := by
  cases op with
  | creat path flags =>
    obtain ⟨creat, notDead, absent⟩ := sensible
    exact dirStep_creat enough valid creat notDead absent
  | mkdir path =>
    obtain ⟨notDead, absent⟩ := sensible
    exact dirStep_mkdir enough valid notDead absent
  | unlink path => exact dirStep_unlink enough valid path

/-- `fat32_find_entry` returns what the map says. -/
theorem ValidDirectory.find (valid : ValidDirectory s l) (enough : 4294967296 ≤ fuel)
    (path : CString) :
    ∃ s', fat32FindEntry fuel s s.gCurrentDirCluster path =
      some (dirMap fuel s (fat32ToShortName path), s') := by
  have stores := Stores.of_geometry valid.mounted.geometry valid.mounted.drive
  have chain : FatChain s.gFs (Volume.of s.gFs s.ata.sector) s.gCurrentDirCluster l :=
    valid.wellFormed.chain
  have short := FatChain.length_lt stores.geometry chain
  obtain ⟨s', run, -⟩ := fat32FindEntry_spec path (by omega : _ < fuel) chain stores
  refine ⟨s', ?_⟩
  rw [stores.dirMap_eq enough chain]
  exact run

theorem ValidDirectory.run {calls : List (DirOp × DirReply)} (enough : 4294967296 ≤ fuel)
    (run : Run (dirStep fuel) (DirOp.Sensible fuel) s calls s') (valid : ValidDirectory s l) :
    ∃ map, Trace MapStep (dirMap fuel s) calls map ∧
      map = dirMap fuel s' ∧ ∃ l', ValidDirectory s' l' := by
  refine run.simulate (fun s map => map = dirMap fuel s ∧ ∃ l, ValidDirectory s l) ?_ ⟨rfl, l, valid⟩
  rintro s₁ map op r s₂ ⟨rfl, l₁, valid₁⟩ sensible done
  obtain ⟨r', s', l₂, run, valid₂, moved⟩ := valid₁.step enough op sensible
  rw [done] at run
  cases run
  exact ⟨_, moved, rfl, l₂, valid₂⟩

/-- **A directory refines a finite map.**  Start from a valid directory whose entries have
chains of their own, and create absent names and unlink names in any order.  The
directory stays valid, the replies are those of the finite map, and from the state
reached every further operation returns and is a step of the map, as is every lookup. -/
theorem directory_refines_map {calls : List (DirOp × DirReply)} (enough : 4294967296 ≤ fuel)
    (valid : ValidDirectory s l) (run : Run (dirStep fuel) (DirOp.Sensible fuel) s calls s') :
    Trace MapStep (dirMap fuel s) calls (dirMap fuel s') ∧ (∃ l', ValidDirectory s' l') ∧
      (∀ path, ∃ s'', fat32FindEntry fuel s' s'.gCurrentDirCluster path =
        some (dirMap fuel s' (fat32ToShortName path), s'')) ∧
      ∀ op, op.Sensible fuel s' → ∃ r s'' l'', dirStep fuel s' op = some (r, s'') ∧
        ValidDirectory s'' l'' ∧ MapStep (dirMap fuel s') op r (dirMap fuel s'') := by
  obtain ⟨map, trace, rfl, l', valid'⟩ := ValidDirectory.run enough run valid
  exact ⟨trace, ⟨l', valid'⟩, fun path => valid'.find enough path,
    fun op sensible => valid'.step enough op sensible⟩

theorem directory_refines_map_blank :
    ∃ calls s', Run (dirStep 4294967296) (DirOp.Sensible 4294967296) (mountedOn smallFs blankDrive)
        calls s' ∧
      calls.map (fun call => call.2.status) = [0, 0, 0] ∧
      Trace MapStep (dirMap 4294967296 (mountedOn smallFs blankDrive)) calls
        (dirMap 4294967296 s') := by
  obtain ⟨calls, s', run, replies⟩ := Run.exists_of_replay (dirStep 4294967296)
    (DirOp.Sensible 4294967296) (mountedOn smallFs blankDrive)
    [.creat (letterPath 0x41 (by decide)) 4, .mkdir (letterPath 0x42 (by decide)),
      .unlink (letterPath 0x41 (by decide))]
    (fun calls _ => calls.map (fun call => call.2.status) = [0, 0, 0]) (by decide +kernel)
  exact ⟨calls, s', run, replies, (directory_refines_map (by decide)
    ⟨⟨smallFs_geometry, fun _ => rfl⟩, blankDrive_wellFormed, by decide +kernel⟩ run).1⟩

/-- A directory that is in order itself, whatever the chains of its entries look like
among each other. -/
structure DirectoryAlone (s : Fat32State) (l : List UInt32) : Prop where
  mounted : Mounted s
  chain : FatChain s.gFs s.volume s.gCurrentDirCluster l
  ends : s.volume.EndMarked (s.gFs.dirSlots l)
  unique : s.volume.UniqueNames (s.gFs.dirSlots l)
  apart : ∀ σ ∈ s.gFs.dirSlots l, (s.volume.dirent σ).IsLive →
    ∀ m, FatChain s.gFs s.volume (s.volume.dirent σ).firstCluster m → l.Disjoint m

/-- A full root directory in which the files `A` and `B` share the cluster 5. -/
def sharedDrive : Nat → Bytes :=
  smallDrive (fun c => if c = 2 ∨ c = 5 then fat32EocMax else fat32FreeCluster) fun c k =>
    if c = 2 then letterEntry (0x41 + UInt8.ofNat (k / 32)) (if k / 32 < 2 then 5 else 0) (k % 32)
    else 0

theorem sharedDrive_alone : DirectoryAlone (mountedOn smallFs sharedDrive) [2] where
  mounted := ⟨smallFs_geometry, fun _ => rfl⟩
  chain := .last (by decide) (by decide +kernel)
  ends := by decide +kernel
  unique := by decide +kernel
  apart := by
    have firsts : ∀ σ ∈ (mountedOn smallFs sharedDrive).gFs.dirSlots [2],
        ((mountedOn smallFs sharedDrive).volume.dirent σ).firstCluster = 5 ∨
          ((mountedOn smallFs sharedDrive).volume.dirent σ).firstCluster = 0 := by decide +kernel
    intro σ member _ m chain
    rcases firsts σ member with five | zero
    · rw [five] at chain
      rw [Chain.unique smallFs_geometry.excl chain (.last (by decide) (by decide +kernel))]
      exact List.singleton_disjoint.mpr (by decide)
    · exact absurd zero (chain.cell_of_mem _ chain.head_mem).ne_zero

/-- Validity of the directory alone is not preserved: the cluster that `A` gave up becomes
part of the directory and is given up once more by `B`. -/
theorem directory_alone_lost :
    ∃ s calls s', DirectoryAlone s [2] ∧ Run (dirStep 10) (DirOp.Sensible 10) s calls s' ∧
      ¬ ∃ l', DirectoryAlone s' l' := by
  obtain ⟨calls, s', run, current, link, free⟩ := Run.exists_of_replay (dirStep 10)
    (DirOp.Sensible 10) (mountedOn smallFs sharedDrive)
    [.unlink (letterPath 0x41 (by decide)), .creat (letterPath 0x61 (by decide)) 4,
      .creat (letterPath 0x71 (by decide)) 4, .unlink (letterPath 0x42 (by decide))]
    (fun _ s' => s'.gCurrentDirCluster = 2 ∧ s'.volume.fat 2 = 5 ∧ s'.volume.fat 5 = 0)
    (by decide +kernel)
  refine ⟨_, calls, s', sharedDrive_alone, run, ?_⟩
  rintro ⟨l', valid⟩
  have chain := valid.chain
  rw [current] at chain
  rcases chain with ⟨-, stop⟩ | ⟨-, rest⟩
  · rw [link] at stop
    exact absurd stop (by decide)
  · rw [link] at rest
    exact FatChain.ne_free valid.mounted.geometry rest 5 rest.head_mem free

end QuantumKernel.Fat32
