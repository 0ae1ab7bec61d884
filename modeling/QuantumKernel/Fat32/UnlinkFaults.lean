import QuantumKernel.Fat32.Faults
import QuantumKernel.Fat32.DirectoryMap

/-! # Unlinking on a drive that fails

`fat32_unlink` gives up the clusters of a file, one after the other, before it marks the entry.
Which commands a call issues depends on the pattern of failures; `freeing` follows them.
-/

namespace QuantumKernel.Fat32

open ByteStore LinkedTable

/-- The next `count` commands succeed. -/
def Fat32State.AnswersAll (s : Fat32State) (count : Nat) : Prop := ∀ k < count, s.Answers (s.ata.command + k)

instance (s : Fat32State) (count : Nat) : Decidable (s.AnswersAll count) :=
  inferInstanceAs (Decidable (∀ k < count, _))

/-- The commands with which `fat32_find_entry` reaches the slot `σ` of a directory with clusters
`l`: every cluster before that of the slot is read, and its FAT entry. -/
def Fat32Fs.findCommands (g : Fat32Fs) (l : List UInt32) (σ : Slot) : Nat :=
  l.idxOf σ.1 * (g.sectorsPerCluster.toNat + 1) + g.sectorsPerCluster.toNat

/-- Freeing a chain of so many clusters from the command `n` on: the number of the command after
it, and whether a free mark was stored in the first copy of the FAT.  A FAT entry that cannot be
read ends the chain. -/
def freeing (outcome : Nat → AtaError) (copies : Nat) : Nat → Nat → Nat × Bool
  | 0, n => (n, false)
  | clusters + 1, n =>
    let marked := decide (outcome (n + 1) = .ok ∧ outcome (n + 2) = .ok)
    let rest := fatWriteEnd outcome copies (n + 1)
    if outcome n = .ok then
      let later := freeing outcome copies clusters rest
      (later.1, marked || later.2)
    else (rest, marked)

/-- `l` is the list of the clusters of an entry with this first cluster. -/
def OwnsClusters (g : Fat32Fs) (v : Volume) (first : UInt32) (l : List UInt32) : Prop :=
  first < 2 ∧ l = [] ∨ FatChain g v first l

/-- The slot still holds a live entry with all its clusters. -/
def Intact (g : Fat32Fs) (v : Volume) (σ : Slot) (l : List UInt32) : Prop :=
  (v.dirent σ).IsLive ∧ OwnsClusters g v (v.dirent σ).firstCluster l

/-- The failures that do no harm to the file in the slot `σ` with clusters `l`: one before the entry is
found; or no cluster is marked free; or the sector of the slot is stored nevertheless. -/
def Fat32State.UnlinkSafe (s : Fat32State) (directory : List UInt32) (σ : Slot) (l : List UInt32) : Prop :=
  let found := s.ata.command + s.gFs.findCommands directory σ
  let freed := freeing s.ata.outcome s.gFs.numFats.toNat l.length found
  ¬ s.AnswersAll (s.gFs.findCommands directory σ) ∨ freed.2 = false ∨
    ∀ k < s.gFs.sectorsPerCluster.toNat + (σ.2.toNat / 512 + 1), s.Answers (freed.1 + k)

variable {g : Fat32Fs} {cwd : UInt32} {v v' : Volume} {s t : Fat32State} {a c : UInt32} {m n fuel : Nat}
  {l dl : List UInt32} {σ : Slot} {name : ShortName} {path : CString} {outcome : Nat → AtaError}

theorem Idle.answersAll_add (idle : Idle s t m) (n : Nat) :
    s.AnswersAll (m + n) ↔ s.AnswersAll m ∧ t.AnswersAll n := by
  constructor
  · intro all
    refine ⟨fun k below => all k (by omega), fun k below => ?_⟩
    rw [idle.answers, idle.command, Nat.add_assoc]
    exact all (m + k) (by omega)
  · rintro ⟨first, later⟩ k below
    by_cases early : k < m
    · exact first k early
    · have answers := later (k - m) (by omega)
      rwa [idle.answers, idle.command, Nat.add_assoc, Nat.add_sub_cancel' (Nat.le_of_not_lt early)] at answers

theorem Fat32State.answersAll_one (s : Fat32State) : s.AnswersAll 1 ↔ s.Answers s.ata.command := by
  constructor
  · intro all
    exact all 0 Nat.one_pos
  · intro answers k below
    rw [Nat.lt_one_iff.mp below]
    exact answers

theorem Geometry.bad_not_inRange (geo : Geometry g) : ¬ g.InRange fat32BadCluster := by
  intro inRange
  exact absurd (geo.inRange_lt_bad inRange) (by decide)

theorem OnDisk.walk_iff (h : OnDisk g cwd v s) (c : UInt32) :
    (2 ≤ c ∧ c < fat32EocMin ∧ c < s.gFs.totalClusters + 2) ↔ g.InRange c := h.stores.walk_iff c

theorem OnDisk.field_entries (h : OnDisk g cwd v s) : entriesPerCluster s.gFs = entriesPerCluster g :=
  h.stores.field_entries

/-! ## Finding the entry -/

theorem fat32FindLoop_faults {fuel : Nat} (enough : l.length < fuel) (chain : FatChain g v a l)
    (found : v.lookup (g.dirSlots l) name = some σ) (h : OnDisk g cwd v s) :
    (s.AnswersAll (g.findCommands l σ) → ∃ t, fat32FindLoop name fuel s a = some (some ⟨v.dirent σ, σ.1, σ.2⟩, t) ∧
      Idle s t (g.findCommands l σ)) ∧
    (¬ s.AnswersAll (g.findCommands l σ) → ∃ t m, fat32FindLoop name fuel s a = some (none, t) ∧ Idle s t m) := by
  induction l generalizing a s fuel with
  | nil => exact absurd rfl chain.ne_nil
  | cons b rest ih =>
    obtain ⟨_, shape⟩ := chain.eq_cons
    obtain ⟨rfl, -⟩ := List.cons.inj shape
    have inRange := chain.cell_of_mem b chain.head_mem
    have nodup := List.nodup_cons.mp (chain.nodup h.geometry.excl)
    obtain ⟨fuel, rfl⟩ : ∃ k, fuel = k + 1 := ⟨fuel - 1, by omega⟩
    obtain ⟨status, s₁, m, read, idle, values, success, loaded⟩ := fat32ReadCluster_faults h inRange
    by_cases answered : s.AnswersAll g.sectorsPerCluster.toNat
    · have done : status = 0 := success.mpr answered
      obtain ⟨commands, bytes⟩ := loaded done
      subst commands
      have scanned := scanSlots_eq h.geometry atEnd (named name) bytes (entriesPerCluster g) 0 (Nat.zero_add _)
      have slotsEq : g.dirSlots (b :: rest) = g.slotsOf b ++ g.dirSlots rest := rfl
      rw [List.drop_zero] at scanned
      rw [Volume.lookup, slotsEq, Volume.scan_append, ← scanned] at found
      simp only [fat32FindLoop, if_pos ((h.walk_iff b).mpr inRange), read, if_neg (not_not.mpr done),
        (idle.onDisk h).field_entries]
      -- the scan of the loaded cluster is the one of the volume
      cases result : scanSlots atEnd (named name) s₁.clusterBuffer (entriesPerCluster g) 0 with
      | stopped =>
        rw [result] at found
        cases found
      | found i =>
        have bound := scanSlots_found_lt result
        rw [Nat.zero_add] at bound
        rw [result] at found
        cases found
        have commands : g.findCommands (b :: rest) (b, UInt32.ofNat (32 * i)) = g.sectorsPerCluster.toNat := by
          rw [Fat32Fs.findCommands, List.idxOf_cons_self, Nat.zero_mul, Nat.zero_add]
        rw [commands]
        refine ⟨fun _ => ⟨s₁, ?_, idle⟩, fun failure => absurd answered failure⟩
        simp only [h.geometry.direntAt_loaded bytes bound]
      | exhausted =>
        rw [result] at found
        have foundRest : v.lookup (g.dirSlots rest) name = some σ := found
        obtain ⟨inRest, -⟩ := mem_dirSlots.mp (Volume.lookup_some foundRest).1
        have other : b ≠ σ.1 := by
          rintro rfl
          exact nodup.1 inRest
        obtain ⟨s₂, next, idle₁, -⟩ := fat32ReadFat_faults (idle.onDisk h) inRange
        have commands : g.findCommands (b :: rest) σ = g.sectorsPerCluster.toNat + 1 + g.findCommands rest σ := by
          rw [Fat32Fs.findCommands, Fat32Fs.findCommands, List.idxOf_cons_ne _ other, Nat.succ_mul]
          omega
        -- so far the sectors of the cluster and one sector of the FAT were read
        have both := idle.trans idle₁
        rw [commands, both.answersAll_add, idle.answersAll_add, s₁.answersAll_one]
        simp only [next]
        cases chain with
        | last _ ends => cases inRest
        | link _ tail =>
          by_cases answers : s₁.Answers s₁.ata.command
          · rw [if_pos answers]
            obtain ⟨all, failure⟩ := ih (by simpa using enough) tail foundRest (both.onDisk h)
            constructor
            · rintro ⟨-, later⟩
              obtain ⟨t, run, idle₂⟩ := all later
              exact ⟨t, run, both.trans idle₂⟩
            · intro some
              obtain ⟨t, m, run, idle₂⟩ := failure fun later => some ⟨⟨answered, answers⟩, later⟩
              exact ⟨t, _, run, both.trans idle₂⟩
          · -- the unread FAT entry counts as the end of the directory
            refine ⟨fun all => absurd all.1.2 answers, fun _ => ⟨s₂, _, ?_, both⟩⟩
            obtain ⟨fuel, rfl⟩ : ∃ k, fuel = k + 1 :=
              ⟨fuel - 1, by have := List.length_pos_of_mem inRest; simp at enough; omega⟩
            have stop := h.geometry.bad_not_inRange
            rw [if_neg answers, fat32FindLoop, if_neg fun go => stop (((both.onDisk h).walk_iff _).mp go)]
    · -- a sector was not read: the search ends without an entry
      have failed : status ≠ 0 := fun done => answered (success.mp done)
      have short : ¬ s.AnswersAll (g.findCommands (b :: rest) σ) := fun all =>
        answered fun k below => all k (by rw [Fat32Fs.findCommands]; omega)
      refine ⟨fun all => absurd all short, fun _ => ⟨s₁, m, ?_, idle⟩⟩
      simp only [fat32FindLoop, if_pos ((h.walk_iff b).mpr inRange), read, if_pos failed]

/-! ## Giving up the clusters -/

/-- The volume while a chain is given up: nothing changes except for free marks on its clusters. -/
structure Freed (v v' : Volume) (l : List UInt32) (marked : Bool) : Prop where
  data : v'.data = v.data
  fat : ∀ c, v'.fat c = v.fat c ∨ c ∈ l ∧ v'.fat c = fat32FreeCluster
  unmarked : marked = false → v' = v
  marks : marked = true → ∃ c ∈ l, v'.fat c = fat32FreeCluster

theorem Freed.refl (v : Volume) (l : List UInt32) : Freed v v l false where
  data := rfl
  fat := fun _ => .inl rfl
  unmarked := fun _ => rfl
  marks := fun absurd => nomatch absurd

/-- One free mark, or none where its commands fail. -/
theorem Freed.mark (v : Volume) (c : UInt32) (l : List UInt32) (stored : Prop) [Decidable stored] :
    Freed v (if stored then v.setFat c fat32FreeCluster else v) (c :: l) (decide stored) := by
  by_cases here : stored
  · rw [if_pos here, decide_eq_true here]
    have marked : (v.setFat c fat32FreeCluster).fat c = fat32FreeCluster := Function.update_self ..
    refine ⟨rfl, fun d => ?_, fun absurd => (nomatch absurd), fun _ => ⟨c, List.mem_cons_self, marked⟩⟩
    by_cases same : d = c
    · exact .inr ⟨by rw [same]; exact List.mem_cons_self, by rw [same]; exact marked⟩
    · exact .inl (Function.update_of_ne same _ _)
  · rw [if_neg here, decide_eq_false here]
    exact .refl v _

theorem Freed.trans {w : Volume} {early late : Bool} (first : Freed v w (c :: l) early) (second : Freed w v' l late) :
    Freed v v' (c :: l) (early || late) where
  data := second.data.trans first.data
  fat := by
    intro d
    rcases second.fat d with same | ⟨member, free⟩
    · rw [same]
      exact first.fat d
    · exact .inr ⟨List.mem_cons_of_mem c member, free⟩
  unmarked := by
    intro neither
    obtain ⟨noEarly, noLate⟩ := Bool.or_eq_false_iff.mp neither
    rw [second.unmarked noLate, first.unmarked noEarly]
  marks := by
    intro either
    rcases Bool.or_eq_true_iff.mp either with isEarly | isLate
    · obtain ⟨d, member, free⟩ := first.marks isEarly
      refine ⟨d, member, ?_⟩
      rcases second.fat d with same | ⟨-, still⟩
      · rw [same, free]
      · exact still
    · obtain ⟨d, member, free⟩ := second.marks isLate
      exact ⟨d, List.mem_cons_of_mem c member, free⟩

/-- **`fat32_free_cluster_chain` on a drive that fails.** -/
theorem fat32FreeClusterChain_faults {fuel : Nat} (enough : l.length < fuel) (chain : FatChain g v a l)
    (h : OnDisk g cwd v s) :
    ∃ t v', fat32FreeClusterChain fuel s a = some t ∧ OnDisk g cwd v' t ∧ t.ata.outcome = s.ata.outcome ∧
      t.ata.command = (freeing s.ata.outcome g.numFats.toNat l.length s.ata.command).1 ∧
      Freed v v' l (freeing s.ata.outcome g.numFats.toNat l.length s.ata.command).2 := by
  induction l generalizing a v s fuel with
  | nil => exact absurd rfl chain.ne_nil
  | cons b rest ih =>
    obtain ⟨_, shape⟩ := chain.eq_cons
    obtain ⟨rfl, -⟩ := List.cons.inj shape
    have inRange := chain.cell_of_mem b chain.head_mem
    have nodup := List.nodup_cons.mp (chain.nodup h.geometry.excl)
    obtain ⟨fuel, rfl⟩ : ∃ k, fuel = k + 2 := ⟨fuel - 2, by simp at enough; omega⟩
    obtain ⟨s₁, read, idle, -⟩ := fat32ReadFat_faults h inRange
    obtain ⟨_, s₂, write, onDisk, outcome, -, command⟩ :=
      fat32WriteFat_faults (idle.onDisk h) inRange fat32FreeCluster
    have zero : fat32FreeCluster &&& 0x0FFFFFFF = fat32FreeCluster := by decide
    rw [zero] at onDisk
    rw [idle.outcome, idle.command] at command
    have mark := Freed.mark v b rest (s₁.Answers s₁.ata.command ∧ s₁.Answers (s₁.ata.command + 1))
    -- `w` is the volume after this round
    generalize after : (if s₁.Answers s₁.ata.command ∧ s₁.Answers (s₁.ata.command + 1) then
      v.setFat b fat32FreeCluster else v) = w at onDisk mark
    have marked : decide (s₁.Answers s₁.ata.command ∧ s₁.Answers (s₁.ata.command + 1)) =
        decide (s.ata.outcome (s.ata.command + 1) = .ok ∧ s.ata.outcome (s.ata.command + 2) = .ok) := by
      simp only [idle.answers, idle.command]
      rfl
    rw [marked] at mark
    rw [fat32FreeClusterChain, if_pos ((h.walk_iff b).mpr inRange), read]
    simp only [write, List.length_cons, freeing]
    by_cases answers : s.Answers s.ata.command
    · have answersOk : s.ata.outcome s.ata.command = .ok := answers
      simp only [if_pos answers, if_pos answersOk]
      cases chain with
      | last _ ends =>
        have stop : ¬ g.InRange (v.fat b) := fun valid => h.geometry.excl _ valid ends
        refine ⟨s₂, w, ?_, onDisk, outcome.trans idle.outcome, command, ?_⟩
        · rw [fat32FreeClusterChain, if_neg fun go => stop ((onDisk.walk_iff _).mp go)]
        · rw [List.length_nil, freeing, Bool.or_false]
          exact mark
      | link _ tail =>
        have shorter : rest.length < fuel + 1 := by
          rw [List.length_cons] at enough
          omega
        -- the rest of the chain has not been touched yet
        have kept : FatChain g w (v.fat b) rest := by
          refine tail.congr fun x member => ?_
          rcases mark.fat x with same | ⟨-, -⟩
          · exact same
          · rw [← after]
            split
            · have other : x ≠ b := fun same => nodup.1 (same ▸ member)
              exact Function.update_of_ne other _ _
            · rfl
        obtain ⟨t, v', run, onDisk', outcome', command', freed⟩ := ih shorter kept onDisk
        rw [outcome.trans idle.outcome, command] at command' freed
        exact ⟨t, v', run, onDisk', outcome'.trans (outcome.trans idle.outcome), command', mark.trans freed⟩
    · -- an unread FAT entry ends the loop like the last cluster does
      have notOk : s.ata.outcome s.ata.command ≠ .ok := answers
      simp only [if_neg answers, if_neg notOk]
      refine ⟨s₂, w, ?_, onDisk, outcome.trans idle.outcome, command, mark⟩
      rw [fat32FreeClusterChain, if_neg fun go => h.geometry.bad_not_inRange ((onDisk.walk_iff _).mp go)]

/-- The clusters of an entry are given up, if it has any. -/
theorem freeHeld_faults (enough : 4294967296 ≤ fuel) {first : UInt32} (holds : OwnsClusters g v first l)
    (h : OnDisk g cwd v s) :
    ∃ t v', (if 2 ≤ first then fat32FreeClusterChain fuel s first else some s) = some t ∧ OnDisk g cwd v' t ∧
      t.ata.outcome = s.ata.outcome ∧
      t.ata.command = (freeing s.ata.outcome g.numFats.toNat l.length s.ata.command).1 ∧
      Freed v v' l (freeing s.ata.outcome g.numFats.toNat l.length s.ata.command).2 := by
  rcases holds with ⟨small, rfl⟩ | chain
  · have low : ¬ 2 ≤ first := by
      rw [UInt32.le_iff_toNat_le]
      rw [UInt32.lt_iff_toNat_lt] at small
      omega
    rw [if_neg low]
    exact ⟨s, v, rfl, h, rfl, rfl, .refl v []⟩
  · have short := FatChain.length_lt h.geometry chain
    rw [if_pos (chain.cell_of_mem _ chain.head_mem).two_le]
    exact fat32FreeClusterChain_faults (by omega) chain h

/-! ## The call -/

theorem OnDisk.volume_eq (h : OnDisk g cwd v s) : s.volume = v := by
  rw [Fat32State.volume, h.gFs]
  exact h.volume

theorem Freed.dirent (freed : Freed v v' l marked) (σ : Slot) : v'.dirent σ = v.dirent σ := by
  rw [Volume.dirent, Volume.dirent, freed.data]

/-- A free mark on a cluster breaks the chain. -/
theorem Freed.not_intact (geo : Geometry g) (freed : Freed v v' l true) : ¬ Intact g v' σ l := by
  obtain ⟨c, member, free⟩ := freed.marks rfl
  rintro ⟨-, ⟨-, rfl⟩ | chain⟩
  · cases member
  · exact FatChain.ne_free geo chain c member free

/-- The last step: the directory cluster is read again and written back with the entry erased. -/
theorem eraseEntry_faults (h : OnDisk g cwd v s) (inRange : g.InRange σ.1) (member : σ ∈ g.dirSlots l) :
    ∃ status t, (match fat32ReadCluster s σ.1 with
        | (status, s) =>
          if status ≠ 0 then some (-1, s)
          else some (fat32WriteCluster { s with clusterBuffer := fill s.clusterBuffer σ.2.toNat 0xE5 1 } σ.1)) =
        some (status, t) ∧
      ((∀ k < g.sectorsPerCluster.toNat + (σ.2.toNat / 512 + 1), s.Answers (s.ata.command + k)) →
        OnDisk g cwd (v.eraseAt σ) t) ∧
      (¬ (∀ k < g.sectorsPerCluster.toNat + (σ.2.toNat / 512 + 1), s.Answers (s.ata.command + k)) →
        OnDisk g cwd v t ∧ status = -1) := by
  obtain ⟨status, s₁, m, read, idle, values, success, loaded⟩ := fat32ReadCluster_faults h inRange
  rw [read]
  by_cases answered : s.AnswersAll g.sectorsPerCluster.toNat
  · have done : status = 0 := success.mpr answered
    obtain ⟨rfl, bytes⟩ := loaded done
    obtain ⟨status', t, write, -, values', success', onDisk⟩ :=
      editSlot_faults (idle.onDisk h) inRange member bytes (unlinkEntry_local σ.2.toNat)
    simp only [done, ne_eq, not_true_eq_false, if_false, write]
    refine ⟨status', t, rfl, fun all => ?_, fun failure => ?_⟩
    · -- the commands are those of the read and those of the write up to the slot
      have slot : s₁.StoresSlot σ := by
        intro k below
        exact ((idle.answersAll_add _).mp all).2 k (by omega)
      rw [if_pos slot] at onDisk
      exact onDisk
    · have lost : ¬ s₁.StoresSlot σ := by
        intro slot
        exact failure ((idle.answersAll_add _).mpr ⟨answered, fun k below => slot k (by omega)⟩)
      rw [if_neg lost] at onDisk
      refine ⟨onDisk, values'.resolve_left fun zero => lost fun k below => success'.mp zero k ?_⟩
      obtain ⟨fits, -⟩ := h.geometry.slot_inside member
      have size := h.geometry.bytes_toNat
      omega
  · have failed : status ≠ 0 := fun done => answered (success.mp done)
    simp only [ne_eq, failed, not_false_eq_true, if_true]
    refine ⟨-1, s₁, rfl, fun all => ?_, fun _ => ⟨idle.onDisk h, rfl⟩⟩
    exact absurd (fun k below => all k (by omega)) answered

/-- **What a failed `fat32_unlink` leaves**: a live entry with all its clusters, or no entry, exactly
if the failures are safe. -/
theorem failed_unlink_safe_iff (geo : Geometry s.gFs) (directory : FatChain s.gFs s.volume s.gCurrentDirCluster dl)
    (found : s.volume.lookup (s.gFs.dirSlots dl) (fat32ToShortName path) = some σ)
    (owns : OwnsClusters s.gFs s.volume (s.volume.dirent σ).firstCluster l) (enough : 4294967296 ≤ fuel) :
    ∃ status s', fat32Unlink fuel s path = some (status, s') ∧
      ((status = -1 → Intact s.gFs s'.volume σ l ∨ ¬ (s'.volume.dirent σ).IsLive) ↔ s.UnlinkSafe dl σ l) := by
  have onDisk : OnDisk s.gFs s.gCurrentDirCluster s.volume s := ⟨geo, rfl, rfl, rfl⟩
  have short := FatChain.length_lt geo directory
  obtain ⟨member, live, -⟩ := Volume.lookup_some found
  have inRange := directory.cell_of_mem _ (mem_dirSlots.mp member).1
  obtain ⟨finds, misses⟩ := fat32FindLoop_faults (by omega : _ < fuel) directory found onDisk
  by_cases answered : s.AnswersAll (s.gFs.findCommands dl σ)
  · obtain ⟨s₁, find, idle⟩ := finds answered
    obtain ⟨s₂, v', free, onDisk₂, outcome, command, freed⟩ := freeHeld_faults enough owns (idle.onDisk onDisk)
    rw [idle.outcome, idle.command] at command freed
    obtain ⟨status, s₃, erase, erased, kept⟩ := eraseEntry_faults onDisk₂ inRange member
    -- the run: the search, the freeing of the chain if there is one, the mark
    have run : fat32Unlink fuel s path = some (status, s₃) := by
      rw [fat32Unlink, fat32FindEntry, find]
      by_cases large : 2 ≤ (s.volume.dirent σ).firstCluster
      · rw [if_pos large] at free
        simp only [Option.bind_eq_bind, Option.bind_some, if_pos large, free]
        exact erase
      · rw [if_neg large] at free
        cases free
        simp only [Option.bind_eq_bind, Option.bind_some, if_neg large]
        exact erase
    refine ⟨status, s₃, run, ?_⟩
    rw [command] at erased kept
    have answers (n : Nat) : s₂.Answers n ↔ s.Answers n := by
      rw [Fat32State.Answers, outcome, idle.outcome]
      rfl
    simp only [answers] at erased kept
    by_cases stored : ∀ k < s.gFs.sectorsPerCluster.toNat + (σ.2.toNat / 512 + 1), s.Answers
        ((freeing s.ata.outcome s.gFs.numFats.toNat l.length (s.ata.command + s.gFs.findCommands dl σ)).1 + k)
    · refine iff_of_true (fun _ => .inr ?_) (.inr (.inr stored))
      rw [(erased stored).volume_eq, (eraseAt_edited geo member).holds]
      exact (unlinkedEntry_deleted _).not_live
    · obtain ⟨onDisk₃, failed⟩ := kept stored
      rw [onDisk₃.volume_eq, freed.dirent]
      -- without the mark the file is intact only if no cluster was freed
      cases marked : (freeing s.ata.outcome s.gFs.numFats.toNat l.length
          (s.ata.command + s.gFs.findCommands dl σ)).2 with
      | false =>
        refine iff_of_true (fun _ => .inl ?_) (.inr (.inl marked))
        rw [freed.unmarked marked]
        exact ⟨live, owns⟩
      | true =>
        rw [marked] at freed
        refine iff_of_false (fun safe => ?_) ?_
        · exact (safe failed).elim (freed.not_intact geo) fun gone => gone live
        · rintro (failure | unmarked | all)
          · exact failure answered
          · rw [marked] at unmarked
            cases unmarked
          · exact stored all
  · -- the search failed before anything was stored
    obtain ⟨s₁, m, find, idle⟩ := misses answered
    refine ⟨-1, s₁, ?_, iff_of_true (fun _ => .inl ?_) (.inl answered)⟩
    · rw [fat32Unlink, fat32FindEntry, find]
      simp only [Option.bind_eq_bind, Option.bind_some]
    · rw [(idle.onDisk onDisk).volume_eq]
      exact ⟨live, owns⟩

/-- A root directory with a file `A` of the cluster 5. -/
def fileDrive : Nat → Bytes :=
  smallDrive (fun c => if c = 2 ∨ c = 5 then fat32EocMax else fat32FreeCluster) fun c k =>
    if c = 2 ∧ k < 32 then letterEntry 0x41 5 k else 0

theorem fileDrive_wellFormed : WellFormed smallFs 2 (mountedOn smallFs fileDrive).volume [2] := by
  have only : ∀ σ ∈ smallFs.dirSlots [2], ((mountedOn smallFs fileDrive).volume.dirent σ).IsLive →
      σ = (2, 0) ∧ ((mountedOn smallFs fileDrive).volume.dirent σ).firstCluster = 5 := by decide +kernel
  refine ⟨.last (by decide) (by decide +kernel), by decide +kernel, fun σ member live => .inr ⟨[5], ?_, ?_⟩, ?_⟩
  · rw [(only σ member live).2]
    exact .last (by decide) (by decide +kernel)
  · exact List.singleton_disjoint.mpr (by decide)
  · intro σ memberσ τ memberτ liveσ liveτ apart
    exact absurd ((only σ memberσ liveσ).1.trans (only τ memberτ liveτ).1.symm) apart

/-- The driver on that drive, where the command `n` fails. -/
def failingAt (n : Nat) : Fat32State :=
  { mountedOn smallFs fileDrive with ata.outcome := fun k => if k = n then .device else .ok }

/-- The drive fails at the second read of the directory, when the cluster is already free. -/
theorem failed_unlink_unsafe :
    ∃ s', WellFormed smallFs 2 (failingAt 6).volume [2] ∧
      (failingAt 6).volume.lookup (smallFs.dirSlots [2]) (fat32ToShortName (letterPath 0x41 (by decide))) = some (2, 0) ∧
      FatChain smallFs (failingAt 6).volume ((failingAt 6).volume.dirent (2, 0)).firstCluster [5] ∧
      fat32Unlink 4294967296 (failingAt 6) (letterPath 0x41 (by decide)) = some (-1, s') ∧
      (s'.volume.dirent (2, 0)).IsLive ∧ (s'.volume.dirent (2, 0)).firstCluster = 5 ∧
      s'.volume.fat 5 = fat32FreeCluster := by
  have outcome : (fat32Unlink 4294967296 (failingAt 6) (letterPath 0x41 (by decide))).any (fun result =>
      result.1 = -1 ∧ (result.2.volume.dirent (2, 0)).IsLive ∧ (result.2.volume.dirent (2, 0)).firstCluster = 5 ∧
        result.2.volume.fat 5 = fat32FreeCluster) = true := by
    decide +kernel
  obtain ⟨⟨status, s'⟩, run, facts⟩ := (Option.any_eq_true _ _).mp outcome
  obtain ⟨rfl, facts⟩ := of_decide_eq_true facts
  exact ⟨s', fileDrive_wellFormed, by decide +kernel, .last (by decide) (by decide +kernel), run, facts⟩

theorem failed_unlink_safe_iff_early :
    ∃ status s', fat32Unlink 4294967296 (failingAt 0) (letterPath 0x41 (by decide)) = some (status, s') ∧
      ((status = -1 → Intact smallFs s'.volume (2, 0) [5] ∨ ¬ (s'.volume.dirent (2, 0)).IsLive) ↔
        (failingAt 0).UnlinkSafe [2] (2, 0) [5]) :=
  failed_unlink_safe_iff smallFs_geometry fileDrive_wellFormed.chain (by decide +kernel)
    (.inr (.last (by decide) (by decide +kernel))) (by decide)

end QuantumKernel.Fat32
