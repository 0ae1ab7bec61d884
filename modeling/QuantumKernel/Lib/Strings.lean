import QuantumKernel.Library.CStrings

/-! # The two versions of `strncpy`, and `strlen`

The kernel and the C library of user programs have a `strncpy` each.  A call is modelled by the
list of its stores, in order, at offsets from `dest`: neither version reads the destination.  Both
lists store the string, clipped or padded, at consecutive offsets; they differ in how many.
-/

namespace QuantumKernel.Lib

open ByteStore

/-- The destination after the stores `dest[i] = b`. -/
def applyStores (dest : Bytes) (stores : List (Nat × UInt8)) : Bytes :=
  stores.foldl (fun mem store => Function.update mem store.1 store.2) dest

/-- The loop that stores NULs: `for (; i < n; i++)` of the kernel, `while (n--)` of the library. -/
def padLoop : (remaining i : Nat) → List (Nat × UInt8)
  | 0, _ => []
  | remaining + 1, i => (i, 0) :: padLoop remaining (i + 1)

/-- `for (i = 0; i < n && src[i] != '\0'; i++)`: the stores, and `i` behind the loop. -/
def kernelCopyLoop (src : Bytes) : (remaining i : Nat) → List (Nat × UInt8) × Nat
  | 0, i => ([], i)
  | remaining + 1, i =>
    if src i ≠ 0 then
      let (stores, j) := kernelCopyLoop src remaining (i + 1)
      ((i, src i) :: stores, j)
    else ([], i)

/-- `strncpy` of the kernel. -/
def kernelStrncpy (src : Bytes) (n : Int32) : List (Nat × UInt8) :=
  let count := n.toInt.toNat
  let (stores, i) := kernelCopyLoop src count 0
  stores ++ padLoop (count - i) i

/-- `while (n && (*dst++ = *src++)) n--;`: the stores, `n` and the offset of `dst` behind the loop.
The store of the NUL ends the loop before `n` is decremented. -/
def userCopyLoop (src : Bytes) : (n i : Nat) → List (Nat × UInt8) × Nat × Nat
  | 0, i => ([], 0, i)
  | n + 1, i =>
    if src i ≠ 0 then
      let (stores, m, j) := userCopyLoop src n (i + 1)
      ((i, src i) :: stores, m, j)
    else ([(i, src i)], n + 1, i + 1)

/-- `strncpy` of the C library of user programs. -/
def userStrncpy (src : Bytes) (n : UInt32) : List (Nat × UInt8) :=
  let (stores, n, i) := userCopyLoop src n.toNat 0
  stores ++ padLoop n i

/-- A string of `len` characters with its NUL. -/
structure IsString (src : Bytes) (len : Nat) : Prop where
  chars : ∀ k < len, src k ≠ 0
  nul : src len = 0

/-- The byte at `i` of a string that is padded with NULs. -/
def paddedByte (src : Bytes) (len i : Nat) : UInt8 := if i < len then src i else 0

/-- Exactly the bytes `dest[0..n)` are written, and they hold the string, clipped or padded. -/
structure Clips (src : Bytes) (len n : Nat) (stores : List (Nat × UInt8)) : Prop where
  written : ∀ i, i ∈ stores.map Prod.fst ↔ i < n
  holds : ∀ dest, ∀ i < n, applyStores dest stores i = paddedByte src len i
  kept : ∀ dest i, n ≤ i → applyStores dest stores i = dest i

/-- Both versions write the clipped string, and leave the same destination. -/
structure StrncpyAgree (src : Bytes) (len : Nat) (n : Int32) : Prop where
  kernel : Clips src len n.toInt.toNat (kernelStrncpy src n)
  user : Clips src len n.toInt.toNat (userStrncpy src n.toUInt32)
  same : ∀ dest, applyStores dest (kernelStrncpy src n) = applyStores dest (userStrncpy src n.toUInt32)

variable {src dest : Bytes} {len m n i : Nat}

/-! ## What the loops store -/

/-- The string and its padding at the `m` offsets from `i` on. -/
def paddedStores (src : Bytes) (len i m : Nat) : List (Nat × UInt8) :=
  (List.range' i m).map fun k => (k, paddedByte src len k)

theorem paddedStores_succ (src : Bytes) (len i m : Nat) :
    paddedStores src len i (m + 1) = (i, paddedByte src len i) :: paddedStores src len (i + 1) m := by
  rw [paddedStores, List.range'_succ, List.map_cons, paddedStores]

theorem paddedStores_append (src : Bytes) (len i m k : Nat) :
    paddedStores src len i m ++ paddedStores src len (i + m) k = paddedStores src len i (m + k) := by
  rw [paddedStores, paddedStores, paddedStores, ← List.map_append, List.range'_append_1]

theorem padLoop_eq (past : len ≤ i) : padLoop m i = paddedStores src len i m := by
  induction m generalizing i with
  | zero => rfl
  | succ m ih =>
    rw [padLoop, paddedStores_succ, paddedByte, if_neg (Nat.not_lt.mpr past)]
    exact congrArg _ (ih (Nat.le_succ_of_le past))

theorem kernelCopyLoop_eq (string : IsString src len) (inside : i ≤ len) :
    kernelCopyLoop src m i = (paddedStores src len i (min m (len - i)), i + min m (len - i)) := by
  induction m generalizing i with
  | zero => simp [kernelCopyLoop, paddedStores]
  | succ m ih =>
    rw [kernelCopyLoop]
    by_cases atNul : i = len
    · subst atNul
      rw [if_neg (by simp [string.nul])]
      simp [paddedStores]
    · have before : i < len := Nat.lt_of_le_of_ne inside atNul
      have later : i + 1 ≤ len := before
      have count : min (m + 1) (len - i) = min m (len - (i + 1)) + 1 := by omega
      have behind : i + (min m (len - (i + 1)) + 1) = i + 1 + min m (len - (i + 1)) := by omega
      rw [if_pos (string.chars i before), ih later, count, paddedStores_succ, paddedByte, if_pos before, behind]

/-- The loop of the library also stores the NUL of a string that is too short. -/
theorem userCopyLoop_eq (string : IsString src len) (inside : i ≤ len) :
    userCopyLoop src m i = if m ≤ len - i then (paddedStores src len i m, 0, i + m)
      else (paddedStores src len i (len - i + 1), m - (len - i), len + 1) := by
  induction m generalizing i with
  | zero => simp [userCopyLoop, paddedStores]
  | succ m ih =>
    rw [userCopyLoop]
    by_cases atNul : i = len
    · subst atNul
      rw [if_neg (by simp [string.nul]), if_neg (by omega), Nat.sub_self, Nat.zero_add, paddedStores_succ,
        paddedByte, if_neg (lt_irrefl _), string.nul]
      rfl
    · have before : i < len := Nat.lt_of_le_of_ne inside atNul
      have later : i + 1 ≤ len := before
      have here : paddedByte src len i = src i := if_pos before
      rw [if_pos (string.chars i before), ih later]
      by_cases clipped : m + 1 ≤ len - i
      · have behind : i + (m + 1) = i + 1 + m := by omega
        rw [if_pos (by omega), if_pos clipped, paddedStores_succ, here, behind]
      · have count : len - i + 1 = (len - (i + 1) + 1) + 1 := by omega
        have left : m + 1 - (len - i) = m - (len - (i + 1)) := by omega
        rw [if_neg (by omega), if_neg clipped, count, paddedStores_succ src len i, here, left]

theorem kernelStrncpy_eq (string : IsString src len) (n : Int32) :
    kernelStrncpy src n = paddedStores src len 0 n.toInt.toNat := by
  generalize same : n.toInt.toNat = count
  rw [kernelStrncpy, same, kernelCopyLoop_eq string (Nat.zero_le len)]
  simp only [Nat.zero_add, Nat.sub_zero]
  by_cases clipped : count ≤ len
  · rw [min_eq_left clipped, Nat.sub_self, padLoop, List.append_nil]
  · have short := Nat.le_of_not_le clipped
    rw [min_eq_right short, padLoop_eq (le_refl len)]
    have joined := paddedStores_append src len 0 len (count - len)
    rwa [Nat.zero_add, Nat.add_sub_cancel' short] at joined

theorem userStrncpy_eq (string : IsString src len) (n : UInt32) :
    userStrncpy src n = paddedStores src len 0 (if n.toNat ≤ len then n.toNat else n.toNat + 1) := by
  rw [userStrncpy, userCopyLoop_eq string (Nat.zero_le len)]
  by_cases clipped : n.toNat ≤ len
  · rw [if_pos (by omega), if_pos clipped]
    simp [padLoop]
  · rw [if_neg (by omega), if_neg clipped]
    have padding : padLoop (n.toNat - len) (len + 1) = paddedStores src len (len + 1) (n.toNat - len) :=
      padLoop_eq (Nat.le_succ len)
    have total : len + 1 + (n.toNat - len) = n.toNat + 1 := by omega
    have joined := paddedStores_append src len 0 (len + 1) (n.toNat - len)
    rw [Nat.zero_add, total] at joined
    simp only [Nat.sub_zero, padding, joined]

/-! ## What is in the destination -/

theorem applyStores_padded (src dest : Bytes) (len m i : Nat) :
    applyStores dest (paddedStores src len 0 m) i = if i < m then paddedByte src len i else dest i := by
  induction m with
  | zero => rfl
  | succ m ih =>
    have last := paddedStores_append src len 0 m 1
    have one : paddedStores src len (0 + m) 1 = [(m, paddedByte src len m)] := by
      rw [Nat.zero_add]
      rfl
    have stored : applyStores dest (paddedStores src len 0 (m + 1)) =
        Function.update (applyStores dest (paddedStores src len 0 m)) m (paddedByte src len m) := by
      rw [← last, one, applyStores, List.foldl_append]
      rfl
    rw [stored]
    by_cases here : i = m
    · subst here
      rw [Function.update_self, if_pos (Nat.lt_succ_self i)]
    · rw [Function.update_of_ne here, ih]
      by_cases before : i < m
      · rw [if_pos before, if_pos (Nat.lt_succ_of_lt before)]
      · rw [if_neg before, if_neg (by omega)]

theorem mem_paddedStores : i ∈ (paddedStores src len 0 m).map Prod.fst ↔ i < m := by
  simp [paddedStores, Function.comp_def]

theorem clips_padded (src : Bytes) (len n : Nat) : Clips src len n (paddedStores src len 0 n) where
  written := fun _ => mem_paddedStores
  holds := fun dest i inside => by rw [applyStores_padded, if_pos inside]
  kept := fun dest i outside => by rw [applyStores_padded, if_neg (Nat.not_lt.mpr outside)]

/-- **The two versions agree exactly on strings that fill the `n` bytes.**  The kernel's version
always writes the `n` bytes; the library's version writes one byte more when the string is shorter. -/
theorem strncpy_agree_iff (string : IsString src len) {n : Int32} (nonneg : 0 ≤ n) :
    StrncpyAgree src len n ↔ n.toInt.toNat ≤ len := by
  have count : n.toUInt32.toNat = n.toInt.toNat := Int32.toNat_toUInt32_of_le nonneg
  have kernel := kernelStrncpy_eq string n
  have user := userStrncpy_eq string n.toUInt32
  rw [count] at user
  constructor
  · intro agree
    by_contra short
    -- the byte behind the `n` bytes is written
    rw [if_neg short] at user
    have written := (agree.user.written n.toInt.toNat).mp (user ▸ mem_paddedStores.mpr (Nat.lt_succ_self _))
    exact lt_irrefl _ written
  · intro fills
    rw [if_pos fills] at user
    exact ⟨kernel ▸ clips_padded src len _, user ▸ clips_padded src len _, fun dest => by rw [kernel, user]⟩

/-- Two characters of a longer string. -/
theorem strncpy_agree_iff_two : StrncpyAgree (fun k => if k < 3 then 0x61 else 0) 3 2 :=
  (strncpy_agree_iff ⟨by decide, by decide⟩ (by decide)).mpr (by decide)

/-- The empty string, with room for one byte: the library's version overwrites a second byte. -/
theorem strncpy_overruns :
    applyStores (fun _ => 0x41) (kernelStrncpy (fun _ => 0) 1) 1 = 0x41 ∧
    applyStores (fun _ => 0x41) (userStrncpy (fun _ => 0) 1) 1 = 0 ∧
    ¬ StrncpyAgree (fun _ => 0) 0 1 := by
  refine ⟨by decide, by decide, fun agree => ?_⟩
  have kept := agree.user.kept (fun _ => 0x41) 1 (by decide)
  exact absurd kept (by decide)

/-! ## `strlen` -/

/-- `strlen`, for the string at `s`. -/
def strlen (mem : Bytes) : (fuel s : Nat) → Option Nat
  | 0, _ => none
  | fuel + 1, s => if mem s ≠ 0 then (strlen mem fuel (s + 1)).map (· + 1) else some 0

theorem strlen_eq {mem : Bytes} {text : List UInt8} {fuel s : Nat} (string : StringAt mem s text)
    (enough : text.length < fuel) : strlen mem fuel s = some text.length := by
  induction text generalizing s fuel with
  | nil =>
    obtain ⟨fuel, rfl⟩ := Nat.exists_eq_add_one_of_ne_zero (Nat.ne_zero_of_lt enough)
    exact if_neg (not_not.mpr string)
  | cons c rest ih =>
    obtain ⟨fuel, rfl⟩ := Nat.exists_eq_add_one_of_ne_zero (Nat.ne_zero_of_lt enough)
    obtain ⟨first, notNul, tail⟩ := string
    rw [strlen, if_pos (first ▸ notNul), ih tail (Nat.lt_of_succ_lt_succ enough)]
    rfl

end QuantumKernel.Lib
