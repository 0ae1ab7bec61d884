import Mathlib.Data.List.GetD
import QuantumKernel.Fat32.WorkingDirectory
import QuantumKernel.Lib.Strings

/-! # The path of the working directory

`fat32_get_current_path` is modelled by its result and the list of its stores into the buffer.  The
check in its loop asks for the separator behind a component and for the NUL, but the last component
has no separator: a path that fills the buffer exactly is refused.  For the root the function counts
right.
-/

namespace QuantumKernel.Fat32

open ByteStore Lib

/-- `strcpy(buffer + pos, name)`. -/
def strcpyStores : List UInt8 → Nat → List (Nat × UInt8)
  | [], pos => [(pos, 0)]
  | c :: rest, pos => (pos, c) :: strcpyStores rest (pos + 1)

/-- The loop of `fat32_get_current_path` over the `remaining` components from `i` on, and the NUL behind it. -/
def currentPathLoop (pathStack : Nat → CString) (pathDepth : Nat) (bufferSize : Int32) :
    Nat → Nat → Nat → Int32 × List (Nat × UInt8)
  | 0, _, pos => (Int32.ofNat pos, [(pos, 0)])
  | remaining + 1, i, pos =>
    let nameLen := (pathStack i).val.length
    if bufferSize.toInt - 1 < pos + nameLen + 1 then (-1, [(pos, 0)])
    else
      let separator := if i + 1 < pathDepth then [(pos + nameLen, (0x2F : UInt8))] else []
      let (result, stores) :=
        currentPathLoop pathStack pathDepth bufferSize remaining (i + 1) (pos + nameLen + separator.length)
      (result, strcpyStores (pathStack i).val pos ++ (separator ++ stores))

/-- `fat32_get_current_path`. -/
def fat32GetCurrentPath (pathStack : Nat → CString) (pathDepth : Nat) (buffer : UInt32) (bufferSize : Int32) :
    Int32 × List (Nat × UInt8) :=
  if buffer = 0 ∨ bufferSize ≤ 0 then (-1, [])
  else if pathDepth = 0 then
    if bufferSize < 2 then (-1, [])
    else (1, [(0, 0x2F), (1, 0)])
  else
    let first := if 0 < bufferSize.toInt - 1 then [(0, (0x2F : UInt8))] else []
    let (result, stores) := currentPathLoop pathStack pathDepth bufferSize pathDepth 0 first.length
    (result, first ++ stores)

/-- `SYS_GETCWD`. -/
def sysGetcwd (pathStack : Nat → CString) (pathDepth : Nat) (ebx : UInt32) (ecx : Int32) :
    Int32 × List (Nat × UInt8) :=
  if ebx = 0 ∨ ecx ≤ 0 then (-1, []) else fat32GetCurrentPath pathStack pathDepth ebx ecx

/-- The components, separated. -/
def joinedNames (names : List CString) : List UInt8 := [(0x2F : UInt8)].intercalate (names.map fun name => name.val)

/-- The path as it should stand in the buffer. -/
def pathText (pathStack : Nat → CString) (pathDepth : Nat) : List UInt8 :=
  0x2F :: joinedNames (namesFrom pathStack pathDepth 0)

/-- The bytes of `text` from `pos` on. -/
def putText (dest : Bytes) (pos : Nat) (text : List UInt8) : Bytes :=
  copy dest pos (fun k => text.getD k 0) text.length

/-- All stores are inside of the buffer, and it is filled if the text and its NUL fit. -/
structure FillsExactly (text : List UInt8) (bufferSize : Int32) (out : Int32 × List (Nat × UInt8)) : Prop where
  inside : ∀ i ∈ out.2.map Prod.fst, (i : Int) < bufferSize.toInt
  fills : (text.length : Int) + 1 ≤ bufferSize.toInt →
    out.1.toInt = text.length ∧ ∀ dest, ∀ k ≤ text.length, applyStores dest out.2 k = (text ++ [0]).getD k 0
  refuses : bufferSize.toInt < text.length + 1 → out.1 = -1

variable {pathStack : Nat → CString} {pathDepth remaining i pos : Nat} {buffer : UInt32} {bufferSize : Int32}
  {dest : Bytes} {text more : List UInt8} {stores stores' : List (Nat × UInt8)}

/-! ## Stores of texts -/

theorem applyStores_append : applyStores dest (stores ++ stores') = applyStores (applyStores dest stores) stores' :=
  List.foldl_append

/-- The text that comes behind may write over the last byte. -/
theorem putText_append {last : List UInt8} (covers : last.length ≤ more.length) :
    putText (putText dest pos (text ++ last)) (pos + text.length) more = putText dest pos (text ++ more) := by
  funext k
  by_cases behind : pos + text.length ≤ k ∧ k < pos + text.length + more.length
  · rw [putText, copy_inside behind.1 behind.2, putText, copy_inside (by omega) (by simp; omega),
      List.getD_append_right _ _ _ _ (by omega)]
    congr 1
    omega
  · rw [putText, copy_outside (by omega)]
    by_cases inside : pos ≤ k ∧ k < pos + text.length
    · rw [putText, copy_inside inside.1 (by simp; omega), putText, copy_inside inside.1 (by simp; omega),
        List.getD_append _ _ _ _ (by omega), List.getD_append _ _ _ _ (by omega)]
    · rw [putText, copy_outside (by simp; omega), putText, copy_outside (by simp; omega)]

theorem putText_cons {c : UInt8} (rest : List UInt8) :
    putText (Function.update dest pos c) (pos + 1) rest = putText dest pos (c :: rest) := by
  funext k
  by_cases here : k = pos
  · subst here
    rw [putText, copy_outside (by omega), Function.update_self, putText, copy_inside le_rfl (by simp), Nat.sub_self]
    rfl
  by_cases behind : pos + 1 ≤ k ∧ k < pos + 1 + rest.length
  · rw [putText, copy_inside behind.1 behind.2, putText, copy_inside (by omega) (by simp; omega),
      show k - pos = k - (pos + 1) + 1 by omega, List.getD_cons_succ]
  · rw [putText, copy_outside (by omega), Function.update_of_ne here, putText, copy_outside (by simp; omega)]

theorem applyStores_strcpyStores (name : List UInt8) :
    applyStores dest (strcpyStores name pos) = putText dest pos (name ++ [0]) := by
  induction name generalizing dest pos with
  | nil =>
    rw [List.nil_append, ← putText_cons]
    funext k
    rw [putText, copy_outside (by simp; omega)]
    rfl
  | cons c name ih =>
    rw [List.cons_append, ← putText_cons, ← ih]
    rfl

theorem mem_strcpyStores (name : List UInt8) :
    i ∈ (strcpyStores name pos).map Prod.fst ↔ pos ≤ i ∧ i ≤ pos + name.length := by
  induction name generalizing pos with
  | nil =>
    simp only [strcpyStores, List.map_cons, List.map_nil, List.mem_singleton, List.length_nil]
    omega
  | cons c name ih =>
    simp only [strcpyStores, List.map_cons, List.mem_cons, ih, List.length_cons]
    omega

/-! ## The loop -/

@[simp] theorem joinedNames_singleton (name : CString) : joinedNames [name] = name.val := by
  simp [joinedNames]

theorem joinedNames_cons (name : CString) {names : List CString} (more : names ≠ []) :
    joinedNames (name :: names) = name.val ++ (0x2F :: joinedNames names) := by
  have rest : names.map (fun name : CString => name.val) ≠ [] := fun none => more (List.map_eq_nil_iff.mp none)
  rw [joinedNames, List.map_cons, List.intercalate_cons_of_ne_nil rest]
  simp [joinedNames]

theorem applyStores_single (c : UInt8) : applyStores dest [(pos, c)] = putText dest pos [c] := by
  rw [← putText_cons]
  funext k
  rw [putText, copy_outside (by simp; omega)]
  rfl

theorem currentPathLoop_full (full : bufferSize.toInt - 1 < pos + (pathStack i).val.length + 1) :
    currentPathLoop pathStack pathDepth bufferSize (remaining + 1) i pos = (-1, [(pos, 0)]) := if_pos full

theorem currentPathLoop_last (fits : (pos : Int) + (pathStack i).val.length + 2 ≤ bufferSize.toInt) :
    currentPathLoop pathStack (i + 1) bufferSize 1 i pos = (Int32.ofNat (pos + (pathStack i).val.length),
      strcpyStores (pathStack i).val pos ++ [(pos + (pathStack i).val.length, 0)]) := by
  rw [currentPathLoop, if_neg (by omega), if_neg (lt_irrefl _)]
  rfl

theorem currentPathLoop_next (fits : (pos : Int) + (pathStack i).val.length + 2 ≤ bufferSize.toInt)
    (inner : i + 1 < pathDepth) :
    currentPathLoop pathStack pathDepth bufferSize (remaining + 1) i pos =
      let rest := currentPathLoop pathStack pathDepth bufferSize remaining (i + 1)
        (pos + (pathStack i).val.length + 1)
      (rest.1, strcpyStores (pathStack i).val pos ++ ((pos + (pathStack i).val.length, 0x2F) :: rest.2)) := by
  rw [currentPathLoop, if_neg (by omega), if_pos inner]
  rfl

/-- What is left of the path, from a position on: all stores are inside of the buffer, and the text is stored if
it fits with one byte to spare. -/
structure Continues (text : List UInt8) (pos : Nat) (bufferSize : Int32) (out : Int32 × List (Nat × UInt8)) : Prop where
  inside : ∀ k ∈ out.2.map Prod.fst, (k : Int) < bufferSize.toInt
  fills : (pos : Int) + text.length + 2 ≤ bufferSize.toInt →
    out.1 = Int32.ofNat (pos + text.length) ∧ ∀ dest, applyStores dest out.2 = putText dest pos (text ++ [0])
  refuses : bufferSize.toInt < (pos : Int) + text.length + 2 → out.1 = -1

theorem Continues.full (room : (pos : Int) < bufferSize.toInt)
    (full : bufferSize.toInt < (pos : Int) + text.length + 2) : Continues text pos bufferSize (-1, [(pos, 0)]) where
  inside k mem := by
    rw [List.mem_singleton.mp mem]
    exact room
  fills fits := absurd fits (by omega)
  refuses _ := rfl

theorem Continues.last {name : List UInt8} (fits : (pos : Int) + name.length + 2 ≤ bufferSize.toInt) :
    Continues name pos bufferSize
      (Int32.ofNat (pos + name.length), strcpyStores name pos ++ [(pos + name.length, 0)]) where
  inside k mem := by
    rw [List.map_append, List.mem_append, mem_strcpyStores] at mem
    rcases mem with between | mem
    · omega
    · rw [List.mem_singleton.mp mem]
      omega
  fills _ := by
    refine ⟨rfl, fun dest => ?_⟩
    rw [applyStores_append, applyStores_strcpyStores, applyStores_single, putText_append le_rfl]
  refuses full := absurd fits (by omega)

/-- A byte in front. -/
theorem Continues.cons {c : UInt8} {rest : Int32 × List (Nat × UInt8)} (room : (pos : Int) < bufferSize.toInt)
    (continues : Continues text (pos + 1) bufferSize rest) :
    Continues (c :: text) pos bufferSize (rest.1, (pos, c) :: rest.2) where
  inside k mem := by
    rw [List.map_cons, List.mem_cons] at mem
    rcases mem with rfl | mem
    · exact room
    · exact continues.inside k mem
  fills total := by
    rw [List.length_cons] at total
    obtain ⟨result, stored⟩ := continues.fills (by omega)
    refine ⟨?_, fun dest => ?_⟩
    · rw [result, List.length_cons, Nat.add_assoc, Nat.add_comm 1]
    · rw [List.cons_append, ← putText_cons, ← stored]
      rfl
  refuses full := by
    rw [List.length_cons] at full
    exact continues.refuses (by omega)

/-- A component in front, whose NUL is written over. -/
theorem Continues.strcpy {name : List UInt8} {rest : Int32 × List (Nat × UInt8)}
    (fits : (pos : Int) + name.length + 1 ≤ bufferSize.toInt)
    (continues : Continues text (pos + name.length) bufferSize rest) :
    Continues (name ++ text) pos bufferSize (rest.1, strcpyStores name pos ++ rest.2) where
  inside k mem := by
    rw [List.map_append, List.mem_append, mem_strcpyStores] at mem
    rcases mem with between | mem
    · omega
    · exact continues.inside k mem
  fills total := by
    rw [List.length_append] at total
    obtain ⟨result, stored⟩ := continues.fills (by omega)
    refine ⟨?_, fun dest => ?_⟩
    · rw [result, List.length_append, Nat.add_assoc]
    · rw [applyStores_append, applyStores_strcpyStores, stored, putText_append (by simp), List.append_assoc]
  refuses full := by
    rw [List.length_append] at full
    exact continues.refuses (by omega)

theorem currentPathLoop_continues (last : i + (remaining + 1) = pathDepth) (room : (pos : Int) < bufferSize.toInt) :
    Continues (joinedNames (namesFrom pathStack (remaining + 1) i)) pos bufferSize
      (currentPathLoop pathStack pathDepth bufferSize (remaining + 1) i pos) := by
  induction remaining generalizing i pos with
  | zero =>
    subst last
    rw [namesFrom, namesFrom, joinedNames_singleton]
    by_cases fits : (pos : Int) + (pathStack i).val.length + 2 ≤ bufferSize.toInt
    · rw [currentPathLoop_last fits]
      exact .last fits
    · rw [currentPathLoop_full (by omega)]
      exact .full room (by omega)
  | succ remaining ih =>
    rw [namesFrom, joinedNames_cons _ (by simp [namesFrom])]
    by_cases fits : (pos : Int) + (pathStack i).val.length + 2 ≤ bufferSize.toInt
    · rw [currentPathLoop_next fits (by omega)]
      exact .strcpy (by omega) (.cons (by omega) (ih (by omega) (by omega)))
    · rw [currentPathLoop_full (by omega)]
      exact .full room (by simp only [List.length_append, List.length_cons]; omega)

/-! ## The path -/

theorem accepted (valid : buffer ≠ 0) (positive : 1 ≤ bufferSize) : ¬ (buffer = 0 ∨ bufferSize ≤ 0) := by
  rintro (null | none)
  · exact valid null
  · have high := Int32.le_iff_toInt_le.mp positive
    have low := Int32.le_iff_toInt_le.mp none
    rw [Int32.toInt_zero] at low
    rw [Int32.toInt_one] at high
    omega

/-- Below the root the function stores the path if it fits with one byte to spare. -/
theorem fat32GetCurrentPath_continues (pathStack : Nat → CString) (below : 0 < pathDepth) (valid : buffer ≠ 0)
    (positive : 1 ≤ bufferSize) :
    Continues (pathText pathStack pathDepth) 0 bufferSize
      (fat32GetCurrentPath pathStack pathDepth buffer bufferSize) := by
  obtain ⟨count, rfl⟩ : ∃ count, pathDepth = count + 1 := ⟨pathDepth - 1, by omega⟩
  have size : 1 ≤ bufferSize.toInt := Int32.le_iff_toInt_le.mp positive
  rw [fat32GetCurrentPath, if_neg (accepted valid positive), if_neg (by omega)]
  by_cases room : 0 < bufferSize.toInt - 1
  · rw [if_pos room]
    exact .cons (by omega) (currentPathLoop_continues (by omega) (by simp; omega))
  · rw [if_neg room]
    simp only [List.length_nil, List.nil_append]
    rw [currentPathLoop_full (by omega)]
    exact .full (by omega) (by simp only [pathText, List.length_cons]; omega)

/-- At the root it counts right. -/
theorem fat32GetCurrentPath_root (valid : buffer ≠ 0) (positive : 1 ≤ bufferSize) :
    FillsExactly (pathText pathStack 0) bufferSize (fat32GetCurrentPath pathStack 0 buffer bufferSize) := by
  have text : pathText pathStack 0 = [0x2F] := rfl
  rw [text, fat32GetCurrentPath, if_neg (accepted valid positive), if_pos rfl]
  by_cases small : bufferSize < 2
  · have size : bufferSize.toInt < 2 := Int32.lt_iff_toInt_lt.mp small
    rw [if_pos small]
    exact ⟨by simp, fun fits => by simp at fits; omega, fun _ => rfl⟩
  · have size : ¬ bufferSize.toInt < 2 := fun low => small (Int32.lt_iff_toInt_lt.mpr low)
    rw [if_neg small]
    refine ⟨fun k mem => ?_, fun _ => ⟨rfl, fun dest k inside => ?_⟩, fun full => by simp at full; omega⟩
    · simp only [List.map_cons, List.map_nil, List.mem_cons, List.not_mem_nil, or_false] at mem
      omega
    · obtain rfl | rfl : k = 0 ∨ k = 1 := by
        simp only [List.length_singleton] at inside
        omega
      · rfl
      · rfl

/-- The components take this many bytes. -/
def namesLength (names : List CString) : Nat := (names.map fun name => name.val.length).sum

theorem length_joinedNames (n i : Nat) : (joinedNames (namesFrom pathStack (n + 1) i)).length =
    n + namesLength (namesFrom pathStack (n + 1) i) := by
  induction n generalizing i with
  | zero => simp [namesFrom, namesLength]
  | succ n ih =>
    rw [namesFrom, joinedNames_cons _ (by simp [namesFrom]), List.length_append, List.length_cons, ih]
    simp only [namesLength, List.map_cons, List.sum_cons]
    omega

theorem length_pathText (pathStack : Nat → CString) (below : 0 < pathDepth) :
    (pathText pathStack pathDepth).length = pathDepth + namesLength (namesFrom pathStack pathDepth 0) := by
  obtain ⟨count, rfl⟩ : ∃ count, pathDepth = count + 1 := ⟨pathDepth - 1, by omega⟩
  rw [pathText, List.length_cons, length_joinedNames]
  omega

theorem namesLength_le (pathStack : Nat → CString) (bound n i : Nat)
    (short : ∀ k < i + n, (pathStack k).val.length ≤ bound) :
    namesLength (namesFrom pathStack n i) ≤ bound * n := by
  induction n generalizing i with
  | zero => simp [namesFrom, namesLength]
  | succ n ih =>
    have first := short i (by omega)
    have rest := ih (i + 1) fun k inside => short k (by omega)
    rw [namesFrom, namesLength, List.map_cons, List.sum_cons, Nat.mul_succ]
    exact (Nat.add_comm _ _).trans_le (Nat.add_le_add rest first)

/-- The length of a path is the `int` that is returned. -/
theorem toInt_length_pathText (below : 0 < pathDepth) (deep : pathDepth ≤ 16)
    (short : ∀ i < pathDepth, (pathStack i).val.length ≤ 11) :
    (Int32.ofNat (pathText pathStack pathDepth).length).toInt = (pathText pathStack pathDepth).length := by
  have names := namesLength_le pathStack 11 pathDepth 0 fun k inside => short k (by omega)
  rw [length_pathText pathStack below]
  exact Int32.toInt_ofNat_of_lt (by omega)

/-- The buffer is filled exactly, unless the path and its NUL just fill it: below the root the path is then refused. -/
theorem fat32GetCurrentPath_fills_iff (deep : pathDepth ≤ 16) (short : ∀ i < pathDepth, (pathStack i).val.length ≤ 11)
    (valid : buffer ≠ 0) (positive : 1 ≤ bufferSize) :
    FillsExactly (pathText pathStack pathDepth) bufferSize
        (fat32GetCurrentPath pathStack pathDepth buffer bufferSize) ↔
      pathDepth = 0 ∨ bufferSize.toInt ≠ pathDepth + namesLength (namesFrom pathStack pathDepth 0) + 1 := by
  rcases Nat.eq_zero_or_pos pathDepth with rfl | below
  · exact iff_of_true (fat32GetCurrentPath_root valid positive) (Or.inl rfl)
  have stored := fat32GetCurrentPath_continues pathStack below valid positive
  have length := length_pathText pathStack below
  have returned := toInt_length_pathText below deep short
  constructor
  · intro fills
    refine Or.inr fun size => ?_
    obtain ⟨result, -⟩ := fills.fills (by omega)
    rw [stored.refuses (by omega)] at result
    have minus : (-1 : Int32).toInt = -1 := rfl
    omega
  · rintro (root | size)
    · omega
    refine ⟨stored.inside, fun fits => ?_, fun full => stored.refuses (by omega)⟩
    obtain ⟨result, memory⟩ := stored.fills (by omega)
    rw [Nat.zero_add] at result
    refine ⟨by rw [result, returned], fun dest k inside => ?_⟩
    rw [memory, putText, copy_inside (Nat.zero_le k) (by simp; omega), Nat.sub_zero]

/-- In `/A`, with a buffer of four bytes. -/
theorem fat32GetCurrentPath_fills_iff_one : FillsExactly (pathText (fun _ => ⟨[0x41], by decide⟩) 1) 4
    (fat32GetCurrentPath (fun _ => ⟨[0x41], by decide⟩) 1 0x1000 4) :=
  (fat32GetCurrentPath_fills_iff (by decide) (by decide) (by decide) (by decide)).mpr (Or.inr (by decide))

/-- In `/A`, with a buffer of three bytes: the path and its NUL fit, and it is refused. -/
theorem fat32GetCurrentPath_refuses_fit : ¬ FillsExactly (pathText (fun _ => ⟨[0x41], by decide⟩) 1) 3
    (fat32GetCurrentPath (fun _ => ⟨[0x41], by decide⟩) 1 0x1000 3) := by
  intro fills
  obtain ⟨result, -⟩ := fills.fills (by decide)
  exact absurd result (by decide)

/-- The checks of the call are those of the function. -/
theorem sysGetcwd_eq : sysGetcwd pathStack pathDepth buffer bufferSize =
    fat32GetCurrentPath pathStack pathDepth buffer bufferSize := by
  rw [sysGetcwd, fat32GetCurrentPath]
  split
  · rfl
  · rfl

end QuantumKernel.Fat32
