import QuantumKernel.Shell.Tokens
import QuantumKernel.Lib.Strings

/-! # From the keys to the command

The shell reads a line key by key into a buffer of 256 bytes, strips newlines at its end, and takes
the first token as the command.  The index `pos` is an `int`, and a store outside the buffer is a
failure of the model.  `typed` is what the keys mean without a buffer: a backspace takes back the
last character.
-/

namespace QuantumKernel.Shell

open ByteStore Runs Lib

def bufSize : Int := 256

/-- `'\b'`, `'\n'` and `'\r'` -/
def backspace : UInt8 := 0x08
def newline : UInt8 := 0x0A
def carriageReturn : UInt8 := 0x0D

/-- `buf`, `pos` and the bytes written to the console. -/
structure Editor where
  buf : Bytes
  pos : Int
  echoed : List UInt8

/-- `buf[i] = c` -/
def storeAt (buf : Bytes) (i : Int) (c : UInt8) : Option Bytes :=
  if 0 ≤ i ∧ i < bufSize then some (Function.update buf i.toNat c) else none

/-- One pass of the loop over keys; `true` where the loop ends. -/
def readKey (e : Editor) (c : UInt8) : Option (Bool × Editor) :=
  if c = backspace then
    if e.pos > 0 then some (false, { e with pos := e.pos - 1, echoed := e.echoed ++ [0x08, 0x20, 0x08] })
    else some (false, e)
  else
    let e := { e with echoed := e.echoed ++ [c] }
    if c = newline ∨ c = carriageReturn then do
      let buf ← storeAt e.buf e.pos 0
      return (true, { e with buf })
    else if e.pos < bufSize - 1 then do
      let buf ← storeAt e.buf e.pos c
      return (false, { e with buf, pos := e.pos + 1 })
    else some (false, e)

/-- The loop over keys: `none` also where the keys run out before the line ends. -/
def readLine : Editor → List UInt8 → Option Editor
  | _, [] => none
  | e, c :: keys => do
    let (ended, e) ← readKey e c
    if ended then return e
    readLine e keys

/-- The editor after keys that do not end the line. -/
def readKeys : Editor → List UInt8 → Option Editor
  | e, [] => some e
  | e, c :: keys => do
    let (_, e) ← readKey e c
    readKeys e keys

/-- `while (l > 0 && (s[l - 1] == '\n' || s[l - 1] == '\r'))` -/
def stripLoop (mem : Bytes) : (l : Nat) → Bytes
  | 0 => mem
  | l + 1 => if mem l = newline ∨ mem l = carriageReturn then stripLoop (Function.update mem l 0) l else mem

/-- `strip_newline` -/
def stripNewline (fuel : Nat) (mem : Bytes) : Option Bytes := do
  let l ← strlen mem fuel 0
  return stripLoop mem l

/-- What the shell does with a line: the prompt again, or the comparisons with `cmd`. -/
inductive Dispatch
  | prompt
  | command (cmd : Option Nat) (buf : Bytes) (p : Nat)

/-- From the end of the line to the first `strcmp`. -/
def dispatch (fuel : Nat) (buf : Bytes) : Option Dispatch := do
  let buf ← stripNewline fuel buf
  if buf 0 = 0 then return .prompt
  let (cmd, buf, p) ← nextToken fuel buf 0
  return .command cmd buf p

/-- The command pointer, where there is one, is not null. -/
def Dispatch.Safe : Dispatch → Prop
  | prompt => True
  | command cmd _ _ => cmd ≠ none

/-! ## The typed line -/

/-- The text after one more key. -/
def typeKey (text : List UInt8) (c : UInt8) : List UInt8 := if c = backspace then text.dropLast else text ++ [c]

/-- The text that the keys spell. -/
def typed (keys : List UInt8) : List UInt8 := keys.foldl typeKey []

/-- The line is right after every key, handed on as it was typed, and the command is not null. -/
structure Dispatches (fuel : Nat) (buf : Bytes) (keys : List UInt8) (last : UInt8) : Prop where
  editing : ∀ q, q <+: keys → ∃ e, readKeys ⟨buf, 0, []⟩ q = some e ∧ 0 ≤ e.pos ∧ e.pos ≤ 255 ∧
    (List.range e.pos.toNat).map e.buf = (typed q).take 255
  handed : ∃ e line, readLine ⟨buf, 0, []⟩ (keys ++ [last]) = some e ∧ stripNewline fuel e.buf = some line ∧
    StringAt line 0 ((typed keys).take 255)
  command : ∃ e d, readLine ⟨buf, 0, []⟩ (keys ++ [last]) = some e ∧ dispatch fuel e.buf = some d ∧ d.Safe

/-- No backspace comes while the text is longer than the buffer can hold. -/
def NoLateBackspace (keys : List UInt8) : Prop :=
  ∀ q, q ++ [backspace] <+: keys → (typed q).length ≤ 255

variable {buf mem : Bytes} {e e' : Editor} {keys q text : List UInt8} {c last : UInt8} {fuel s l : Nat}

theorem typed_append (q : List UInt8) (c : UInt8) : typed (q ++ [c]) = typeKey (typed q) c := by
  rw [typed, List.foldl_append]
  rfl

/-! ## One key -/

/-- The buffer up to `pos` holds the text. -/
structure Editor.Shows (e : Editor) (text : List UInt8) : Prop where
  pos : e.pos = text.length
  bytes : (List.range text.length).map e.buf = text

theorem storeAt_eq (low : 0 ≤ e.pos) (high : e.pos ≤ 255) :
    storeAt e.buf e.pos c = some (Function.update e.buf e.pos.toNat c) :=
  if_pos ⟨low, by rw [bufSize]; omega⟩

theorem readKey_char (isChar : c ≠ backspace) (plain : c ≠ newline ∧ c ≠ carriageReturn) :
    readKey e c = if e.pos < 255 then
      (storeAt e.buf e.pos c).map fun buf => (false, ⟨buf, e.pos + 1, e.echoed ++ [c]⟩)
    else some (false, ⟨e.buf, e.pos, e.echoed ++ [c]⟩) := by
  rw [readKey, if_neg isChar]
  exact (if_neg (not_or.mpr plain)).trans (ite_congr rfl (fun _ => by cases storeAt e.buf e.pos c <;> rfl)
    fun _ => rfl)

theorem readKey_last (isLast : last = newline ∨ last = carriageReturn) :
    readKey e last = (storeAt e.buf e.pos 0).map fun buf => (true, ⟨buf, e.pos, e.echoed ++ [last]⟩) := by
  have notBack : last ≠ backspace := by
    rintro rfl
    revert isLast
    decide
  rw [readKey, if_neg notBack]
  refine (if_pos isLast).trans ?_
  cases storeAt e.buf e.pos 0 <;> rfl

/-- A backspace takes back the last character of the text, if there is one. -/
theorem Editor.Shows.backspace (shows : e.Shows text) :
    ∃ e', readKey e backspace = some (false, e') ∧ e'.Shows text.dropLast := by
  have pos := shows.pos
  rw [readKey, if_pos rfl]
  by_cases empty : text = []
  · subst empty
    rw [if_neg (by rw [pos]; decide)]
    exact ⟨e, rfl, shows⟩
  · have some := List.length_pos_of_ne_nil empty
    rw [if_pos (by omega)]
    refine ⟨_, rfl, ?_, ?_⟩
    · rw [List.length_dropLast]
      change e.pos - 1 = _
      omega
    · calc (List.range text.dropLast.length).map e.buf
          = ((List.range text.length).map e.buf).take (text.length - 1) := by
            rw [← List.map_take, List.take_range, List.length_dropLast, Nat.min_eq_left (Nat.sub_le _ 1)]
        _ = text.dropLast := by rw [shows.bytes, List.dropLast_eq_take]

/-- A character is added while there is room for it. -/
theorem Editor.Shows.char (shows : e.Shows text) (isChar : c ≠ Shell.backspace)
    (plain : c ≠ newline ∧ c ≠ carriageReturn) (size : text.length ≤ 255) :
    ∃ e', readKey e c = some (false, e') ∧ e'.Shows ((text ++ [c]).take 255) := by
  have pos := shows.pos
  rw [readKey_char isChar plain]
  by_cases full : text.length = 255
  · rw [if_neg (by omega), List.take_left' full]
    exact ⟨_, rfl, pos, shows.bytes⟩
  · have whole : (text ++ [c]).take 255 = text ++ [c] :=
      List.take_of_length_le (by rw [List.length_append, List.length_singleton]; omega)
    rw [if_pos (by omega), storeAt_eq (by omega) (by omega), whole]
    refine ⟨_, rfl, ?_, ?_⟩
    · rw [List.length_append, List.length_singleton]
      change e.pos + 1 = _
      omega
    · have index : e.pos.toNat = text.length := by omega
      rw [List.length_append, List.length_singleton, List.range_succ, List.map_append, index, List.map_singleton]
      change _ ++ [Function.update e.buf text.length c text.length] = _
      rw [Function.update_self]
      congr 1
      conv_rhs => rw [← shows.bytes]
      exact List.map_congr_left fun k below =>
        Function.update_of_ne (Nat.ne_of_lt (List.mem_range.mp below)) _ _

/-- The key that ends the line puts a NUL behind the text. -/
theorem Editor.Shows.ends (shows : e.Shows text) (isLast : last = newline ∨ last = carriageReturn)
    (size : text.length ≤ 255) :
    ∃ e', readKey e last = some (true, e') ∧ e'.buf text.length = 0 ∧
      (List.range text.length).map e'.buf = text := by
  have pos := shows.pos
  have index : e.pos.toNat = text.length := by omega
  rw [readKey_last isLast, storeAt_eq (by omega) (by omega), index]
  refine ⟨_, rfl, Function.update_self .., ?_⟩
  conv_rhs => rw [← shows.bytes]
  exact List.map_congr_left fun k below =>
    Function.update_of_ne (Nat.ne_of_lt (List.mem_range.mp below)) _ _

/-! ## Key after key -/

theorem readKeys_append (e : Editor) (keys more : List UInt8) :
    readKeys e (keys ++ more) = (readKeys e keys).bind fun e => readKeys e more := by
  induction keys generalizing e with
  | nil => rfl
  | cons c keys ih =>
    rw [List.cons_append, readKeys, readKeys]
    cases readKey e c with
    | none => rfl
    | some result => exact ih result.2

/-- The keys spell the line, and then `last` ends it. -/
theorem readLine_append (going : ∀ e c, c ∈ keys → ∀ r, readKey e c = some r → r.1 = false) (e : Editor) :
    readLine e (keys ++ [last]) = (readKeys e keys).bind fun e => readLine e [last] := by
  induction keys generalizing e with
  | nil => rfl
  | cons c keys ih =>
    rw [List.cons_append, readLine, readKeys]
    cases key : readKey e c with
    | none => rfl
    | some result =>
      have goes := going e c List.mem_cons_self result key
      obtain ⟨ended, e'⟩ := result
      cases goes
      exact ih (fun e c found => going e c (List.mem_cons_of_mem _ found)) e'

theorem readKey_goes {r : Bool × Editor} (plain : c ≠ newline ∧ c ≠ carriageReturn) (key : readKey e c = some r) :
    r.1 = false := by
  by_cases isBack : c = backspace
  · rw [readKey, if_pos isBack] at key
    split at key
    · cases key
      rfl
    · cases key
      rfl
  · rw [readKey_char isBack plain] at key
    split at key
    · obtain ⟨buf, -, rfl⟩ := Option.map_eq_some_iff.mp key
      rfl
    · cases key
      rfl

theorem take_append_take (text : List UInt8) (c : UInt8) (n : Nat) :
    (text.take n ++ [c]).take n = (text ++ [c]).take n := by
  by_cases fits : text.length ≤ n
  · rw [List.take_of_length_le fits]
  · have exceeds : n ≤ text.length := (Nat.lt_of_not_le fits).le
    rw [List.take_append_of_le_length exceeds, List.take_left' (List.length_take_of_le exceeds)]

/-- The buffer shows the text, clipped, as long as no backspace is late. -/
theorem readKeys_shows (buf : Bytes) (noLate : NoLateBackspace keys)
    (plain : ∀ c ∈ keys, c ≠ newline ∧ c ≠ carriageReturn) (part : q <+: keys) :
    ∃ e, readKeys ⟨buf, 0, []⟩ q = some e ∧ e.Shows ((typed q).take 255) := by
  induction q using List.reverseRecOn with
  | nil => exact ⟨_, rfl, rfl, rfl⟩
  | append_singleton q c ih =>
    obtain ⟨e, read, shows⟩ := ih ((List.prefix_append q [c]).trans part)
    rw [readKeys_append, read, typed_append]
    by_cases isBack : c = backspace
    · subst isBack
      have short : (typed q).length ≤ 255 := noLate q part
      obtain ⟨e', key, shows'⟩ := shows.backspace
      refine ⟨e', by simp [readKeys, key], ?_⟩
      rw [List.take_of_length_le short] at shows'
      rwa [typeKey, if_pos rfl, List.take_of_length_le (by rw [List.length_dropLast]; omega)]
    · have among : c ∈ keys := part.subset (by simp)
      obtain ⟨e', key, shows'⟩ := shows.char isBack (plain c among) (List.length_take_le _ _)
      refine ⟨e', by simp [readKeys, key], ?_⟩
      rwa [typeKey, if_neg isBack, ← take_append_take]

/-- A backspace that comes late takes back a character that the buffer never held. -/
theorem Dispatches.noLateBackspace (dispatches : Dispatches fuel buf keys last) : NoLateBackspace keys := by
  intro q part
  by_contra long
  obtain ⟨e, read, low, -, line⟩ := dispatches.editing q ((List.prefix_append q _).trans part)
  obtain ⟨e', read', -, -, line'⟩ := dispatches.editing (q ++ [backspace]) part
  have size := congrArg List.length line
  have size' := congrArg List.length line'
  rw [typed_append, typeKey, if_pos rfl] at size'
  rw [List.length_map, List.length_range, List.length_take] at size size'
  rw [List.length_dropLast] at size'
  rw [readKeys_append, read, Option.bind_some, readKeys, readKey, if_pos rfl, if_pos (by omega)] at read'
  cases read'
  dsimp only at size'
  omega

/-! ## The finished line -/

theorem mem_typed (found : c ∈ typed q) : c ∈ q := by
  induction q using List.reverseRecOn with
  | nil => exact found
  | append_singleton q d ih =>
    rw [typed_append, typeKey] at found
    rw [List.mem_append, List.mem_singleton]
    split at found
    · exact Or.inl (ih (List.mem_of_mem_dropLast found))
    · exact (List.mem_append.mp found).imp ih List.mem_singleton.mp

/-- There is no newline to strip: the keys that end a line are not stored. -/
theorem stripNewline_eq (string : StringAt mem 0 text) (enough : text.length < fuel)
    (plain : ∀ c ∈ text, c ≠ newline ∧ c ≠ carriageReturn) : stripNewline fuel mem = some mem := by
  rw [stripNewline, strlen_eq string enough]
  refine congrArg some ?_
  cases size : text.length with
  | zero => rfl
  | succ l =>
    have found : text[l]? = some text[l] := List.getElem?_eq_getElem _
    have char := (string.char found).1
    rw [Nat.zero_add] at char
    rw [stripLoop, char, if_neg (not_or.mpr (plain _ (List.getElem_mem _)))]

theorem dispatch_safe_iff (string : StringAt mem 0 text) (enough : text.length < fuel)
    (plain : ∀ c ∈ text, c ≠ newline ∧ c ≠ carriageReturn) :
    (∃ d, dispatch fuel mem = some d ∧ d.Safe) ↔ (text = [] ∨ ∃ c ∈ text, isSpace c = false) := by
  rw [dispatch, stripNewline_eq string enough plain]
  cases text with
  | nil =>
    have nul : mem 0 = 0 := string
    simp [nul, Dispatch.Safe]
  | cons c rest =>
    have notNul : mem 0 ≠ 0 := string.1 ▸ string.2.1
    simp only [Option.bind_eq_bind, Option.bind_some, if_neg notNul, List.cons_ne_nil, false_or]
    cases words : runs isSpace 0 (c :: rest) with
    | nil =>
      have spaces := runs_eq_nil_iff.mp words
      rw [nextToken_none ⟨string, words⟩ enough]
      refine iff_of_false ?_ ?_
      · rintro ⟨d, done, safe⟩
        cases done
        exact safe rfl
      · rintro ⟨d, found, plain⟩
        rw [spaces d found] at plain
        cases plain
    | cons word more =>
      obtain ⟨a, b⟩ := word
      obtain ⟨s', tail, called, -⟩ := nextToken_some ⟨string, words⟩ enough
      rw [called]
      refine iff_of_true ⟨_, rfl, Option.some_ne_none a⟩ ?_
      by_contra none
      refine List.cons_ne_nil _ _ (words.symm.trans (runs_eq_nil_iff.mpr fun d found => ?_))
      by_contra plain
      exact none ⟨d, found, eq_false_of_ne_true plain⟩

theorem readLine_eq (plain : ∀ c ∈ keys, c ≠ newline ∧ c ≠ carriageReturn) (e : Editor) :
    readLine e (keys ++ [last]) = (readKeys e keys).bind fun e => readLine e [last] :=
  readLine_append (fun _ _ found _ key => readKey_goes (plain _ found) key) e

/-- The buffer that the end of the line leaves. -/
theorem readLine_shows (buf : Bytes) (noLate : NoLateBackspace keys)
    (plain : ∀ c ∈ keys, c ≠ newline ∧ c ≠ carriageReturn) (isLast : last = newline ∨ last = carriageReturn)
    (noNul : 0 ∉ (typed keys).take 255) :
    ∃ e, readLine ⟨buf, 0, []⟩ (keys ++ [last]) = some e ∧ StringAt e.buf 0 ((typed keys).take 255) := by
  obtain ⟨e, read, shows⟩ := readKeys_shows buf noLate plain (List.prefix_refl keys)
  obtain ⟨e', key, nul, bytes⟩ := shows.ends isLast (List.length_take_le _ _)
  refine ⟨e', ?_, stringAt_iff.mpr ⟨?_, noNul, ?_⟩⟩
  · rw [readLine_eq plain, read, Option.bind_some, readLine, key]
    rfl
  · rwa [← List.range_eq_range']
  · rwa [Nat.zero_add]

/-- **When a line is dispatched safely.**  No backspace may come while the text is too long, the line
may not contain a NUL, and a line with anything in it must contain a word. -/
theorem dispatches_iff (buf : Bytes) (plain : ∀ c ∈ keys, c ≠ newline ∧ c ≠ carriageReturn)
    (isLast : last = newline ∨ last = carriageReturn) (enough : 256 ≤ fuel) :
    Dispatches fuel buf keys last ↔ NoLateBackspace keys ∧ 0 ∉ (typed keys).take 255 ∧
      ((typed keys).take 255 = [] ∨ ∃ c ∈ (typed keys).take 255, isSpace c = false) := by
  have size : ((typed keys).take 255).length < fuel := Nat.lt_of_lt_of_le (by rw [List.length_take]; omega) enough
  have stored : ∀ c ∈ (typed keys).take 255, c ≠ newline ∧ c ≠ carriageReturn := fun c found =>
    plain c (mem_typed (List.mem_of_mem_take found))
  constructor
  · intro dispatches
    have noLate := dispatches.noLateBackspace
    obtain ⟨e, line, read, stripped, string⟩ := dispatches.handed
    have noNul := (stringAt_iff.mp string).2.1
    obtain ⟨e', read', string'⟩ := readLine_shows buf noLate plain isLast noNul
    obtain ⟨e'', d, read'', called, safe⟩ := dispatches.command
    cases read'.symm.trans read''
    exact ⟨noLate, noNul, (dispatch_safe_iff string' size stored).mp ⟨d, called, safe⟩⟩
  · rintro ⟨noLate, noNul, word⟩
    obtain ⟨e, read, string⟩ := readLine_shows buf noLate plain isLast noNul
    obtain ⟨d, called, safe⟩ := (dispatch_safe_iff string size stored).mpr word
    refine ⟨fun q part => ?_, ⟨e, e.buf, read, stripNewline_eq string size stored, string⟩, ⟨e, d, read, called, safe⟩⟩
    obtain ⟨e, read, shows⟩ := readKeys_shows buf noLate plain part
    have bound := List.length_take_le 255 (typed q)
    have pos := shows.pos
    refine ⟨e, read, by omega, by omega, ?_⟩
    rw [pos, Int.toNat_natCast]
    exact shows.bytes

/-- The line `ps`, with a typing mistake taken back. -/
theorem dispatches_iff_ps : Dispatches 256 (fun _ => 0) [0x70, 0x71, 0x08, 0x73] 0x0A ↔
    NoLateBackspace [0x70, 0x71, 0x08, 0x73] ∧ 0 ∉ (typed [0x70, 0x71, 0x08, 0x73]).take 255 ∧
      ((typed [0x70, 0x71, 0x08, 0x73]).take 255 = [] ∨
        ∃ c ∈ (typed [0x70, 0x71, 0x08, 0x73]).take 255, isSpace c = false) :=
  dispatches_iff _ (by simp [newline, carriageReturn]) (by decide) (by decide)

/-- A line of one space passes the test for an empty line and has no token: `strcmp` gets a null pointer. -/
theorem spaces_not_dispatched : ¬ Dispatches 256 (fun _ => 0) [0x20] 0x0A := by
  intro dispatches
  have noLate := dispatches.noLateBackspace
  have plain : ∀ c ∈ [(0x20 : UInt8)], c ≠ newline ∧ c ≠ carriageReturn := by simp [newline, carriageReturn]
  obtain ⟨e, read, string⟩ := readLine_shows (fun _ => 0) noLate plain (Or.inl rfl) (by decide)
  obtain ⟨e', d, read', called, safe⟩ := dispatches.command
  cases read.symm.trans read'
  have word := (dispatch_safe_iff string (by decide) plain).mp ⟨d, called, safe⟩
  exact absurd word (by decide)

end QuantumKernel.Shell
