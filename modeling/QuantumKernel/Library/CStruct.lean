import QuantumKernel.Library.ByteStore

/-! # Structures in memory

The declaration of a C structure is the list of its fields.  A field lies at the next multiple
of its alignment, and the structure ends at a multiple of the greatest one.  Assignments to
the fields of a structure stay inside of it and do not meet (`assign_inside`, `assign_read`),
so a reader with the same declaration finds every value.
-/

namespace CStruct

open ByteStore

inductive CType
  | int8
  | int16
  | int32
  /-- An array of bytes. -/
  | array (count : Nat)

def CType.size : CType → Nat
  | int8 => 1
  | int16 => 2
  | int32 => 4
  | array count => count

def CType.align : CType → Nat
  | int8 => 1
  | int16 => 2
  | int32 => 4
  | array _ => 1

def alignUp (pos align : Nat) : Nat := (pos + align - 1) / align * align

abbrev Decl (ι : Type) := List (ι × CType)

structure Field (ι : Type) where
  name : ι
  offset : Nat
  type : CType

variable {ι : Type}

def layoutFrom (pos : Nat) : Decl ι → List (Field ι)
  | [] => []
  | (name, type) :: rest =>
    ⟨name, alignUp pos type.align, type⟩ :: layoutFrom (alignUp pos type.align + type.size) rest

def endFrom (pos : Nat) : Decl ι → Nat
  | [] => pos
  | (_, type) :: rest => endFrom (alignUp pos type.align + type.size) rest

def layout (decl : Decl ι) : List (Field ι) := layoutFrom 0 decl

def greatestAlign (decl : Decl ι) : Nat := decl.foldr (fun field most => max field.2.align most) 1

def sizeof (decl : Decl ι) : Nat := alignUp (endFrom 0 decl) (greatestAlign decl)

def offsetOf [DecidableEq ι] (decl : Decl ι) (name : ι) : Nat :=
  ((layout decl).find? fun field => field.name = name).elim 0 Field.offset

/-! ## Stores -/

/-- Bytes and where they are stored. -/
structure Store where
  offset : Nat
  bytes : List UInt8

def write (mem : Bytes) (s : Store) : Bytes := copy mem s.offset (fun k => s.bytes.getD k 0) s.bytes.length

def writeAll (mem : Bytes) (stores : List Store) : Bytes := stores.foldl write mem

def readBytes (mem : Bytes) (offset count : Nat) : List UInt8 := (List.range count).map fun k => mem (offset + k)

/-- Every field is assigned its value. -/
def assign (decl : Decl ι) (value : ι → List UInt8) : List Store :=
  (layout decl).map fun field => ⟨field.offset, value field.name⟩

/-- A structure is copied as a whole, with what is in its gaps. -/
def copyOf (decl : Decl ι) (value : ι → List UInt8) (gaps : Bytes) : Store :=
  ⟨0, readBytes (writeAll gaps (assign decl value)) 0 (sizeof decl)⟩

variable {decl : Decl ι} {field : Field ι} {mem mem' : Bytes} {s : Store} {stores : List Store}
  {value : ι → List UInt8} {pos offset count : Nat}

theorem CType.align_pos (type : CType) : 0 < type.align := by
  cases type with
  | int8 => decide
  | int16 => decide
  | int32 => decide
  | array => exact Nat.one_pos

theorem le_alignUp {align : Nat} (positive : 0 < align) (pos : Nat) : pos ≤ alignUp pos align := by
  have split := Nat.div_add_mod (pos + align - 1) align
  have rest := Nat.mod_lt (pos + align - 1) positive
  rw [alignUp, Nat.mul_comm]
  omega

theorem greatestAlign_pos (decl : Decl ι) : 0 < greatestAlign decl := by
  induction decl with
  | nil => exact Nat.one_pos
  | cons field rest ih => exact lt_of_lt_of_le ih (le_max_right ..)

theorem le_endFrom (pos : Nat) (decl : Decl ι) : pos ≤ endFrom pos decl := by
  induction decl generalizing pos with
  | nil => exact le_rfl
  | cons field rest ih =>
    have start := le_alignUp field.2.align_pos pos
    have final := ih (alignUp pos field.2.align + field.2.size)
    rw [endFrom]
    omega

/-- The fields lie between the position where the layout starts and the one where it ends. -/
theorem layoutFrom_bounds (member : field ∈ layoutFrom pos decl) :
    pos ≤ field.offset ∧ field.offset + field.type.size ≤ endFrom pos decl := by
  induction decl generalizing pos with
  | nil => cases member
  | cons first rest ih =>
    have start := le_alignUp first.2.align_pos pos
    rw [layoutFrom] at member
    rw [endFrom]
    cases member with
    | head => exact ⟨start, le_endFrom _ rest⟩
    | tail _ later =>
      have bounds := ih later
      exact ⟨by omega, bounds.2⟩

theorem layout_inside (member : field ∈ layout decl) : field.offset + field.type.size ≤ sizeof decl :=
  (layoutFrom_bounds member).2.trans (le_alignUp (greatestAlign_pos decl) _)

/-! ## Reading back -/

@[simp] theorem length_readBytes : (readBytes mem offset count).length = count := by simp [readBytes]

theorem readBytes_congr (same : ∀ k < count, mem (offset + k) = mem' (offset + k)) :
    readBytes mem offset count = readBytes mem' offset count :=
  List.map_congr_left fun k member => same k (List.mem_range.mp member)

theorem readBytes_write (mem : Bytes) (s : Store) : readBytes (write mem s) s.offset s.bytes.length = s.bytes := by
  refine List.ext_getElem (by simp) fun k bound bound' => ?_
  have stored : write mem s (s.offset + k) = s.bytes[k] := by
    rw [write, copy_inside (Nat.le_add_right ..) (by omega), Nat.add_sub_cancel_left,
      List.getD_eq_getElem?_getD, List.getElem?_eq_getElem bound', Option.getD_some]
  simp only [readBytes, List.getElem_map, List.getElem_range, stored]

theorem writeAll_outside {i : Nat}
    (outside : ∀ s ∈ stores, i < s.offset ∨ s.offset + s.bytes.length ≤ i) : writeAll mem stores i = mem i := by
  induction stores generalizing mem with
  | nil => rfl
  | cons s rest ih =>
    have later : writeAll (write mem s) rest i = write mem s i :=
      ih fun s member => outside s (List.mem_cons_of_mem _ member)
    rw [writeAll, List.foldl_cons]
    exact later.trans (copy_outside (outside s List.mem_cons_self))

theorem writeAll_append (mem : Bytes) (stores later : List Store) :
    writeAll mem (stores ++ later) = writeAll (writeAll mem stores) later := List.foldl_append

/-- A field is read back: those behind it are stored behind it. -/
theorem assignFrom_read (lengths : ∀ f ∈ decl, (value f.1).length = f.2.size)
    (member : field ∈ layoutFrom pos decl) (mem : Bytes) :
    readBytes (writeAll mem ((layoutFrom pos decl).map fun field => ⟨field.offset, value field.name⟩))
      field.offset field.type.size = value field.name := by
  induction decl generalizing pos mem with
  | nil => cases member
  | cons first rest ih =>
    have others (f : ι × CType) (later : f ∈ rest) := lengths f (List.mem_cons_of_mem _ later)
    rw [layoutFrom] at member ⊢
    rw [List.map_cons, writeAll, List.foldl_cons]
    cases member with
    | head =>
      have length : (value first.1).length = first.2.size := lengths first List.mem_cons_self
      have stored := readBytes_write mem ⟨alignUp pos first.2.align, value first.1⟩
      rw [length] at stored
      refine Eq.trans (readBytes_congr fun k bound => writeAll_outside fun s later => ?_) stored
      obtain ⟨behind, here, rfl⟩ := List.mem_map.mp later
      have bounds := layoutFrom_bounds here
      have before : k < first.2.size := bound
      show alignUp pos first.2.align + k < behind.offset ∨ _
      exact Or.inl (by omega)
    | tail _ later => exact ih others later _

theorem assign_read (lengths : ∀ f ∈ decl, (value f.1).length = f.2.size) (member : field ∈ layout decl)
    (mem : Bytes) :
    readBytes (writeAll mem (assign decl value)) field.offset field.type.size = value field.name :=
  assignFrom_read lengths member mem

theorem layoutFrom_mem (member : field ∈ layoutFrom pos decl) : (field.name, field.type) ∈ decl := by
  induction decl generalizing pos with
  | nil => cases member
  | cons first rest ih =>
    rw [layoutFrom] at member
    cases member with
    | head => exact List.mem_cons_self
    | tail _ later => exact List.mem_cons_of_mem _ (ih later)

theorem assign_inside (lengths : ∀ f ∈ decl, (value f.1).length = f.2.size) (member : s ∈ assign decl value) :
    s.offset + s.bytes.length ≤ sizeof decl := by
  obtain ⟨field, here, rfl⟩ := List.mem_map.mp member
  have length : (value field.name).length = field.type.size := lengths _ (layoutFrom_mem here)
  have inside := layout_inside here
  show field.offset + (value field.name).length ≤ sizeof decl
  omega

/-- The fields are read back from a copy. -/
theorem copyOf_read (lengths : ∀ f ∈ decl, (value f.1).length = f.2.size) (member : field ∈ layout decl)
    (gaps mem : Bytes) :
    readBytes (write mem (copyOf decl value gaps)) field.offset field.type.size = value field.name := by
  have inside := layout_inside member
  rw [← assign_read lengths member gaps]
  refine readBytes_congr fun k bound => ?_
  rw [write, copyOf, length_readBytes, copy_inside (Nat.zero_le _) (by omega)]
  simp only [readBytes, List.getD_eq_getElem?_getD, List.getElem?_map, Nat.zero_add, Nat.sub_zero]
  rw [List.getElem?_range (by omega)]
  rfl

end CStruct
