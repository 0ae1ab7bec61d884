import QuantumKernel.Lib.Compare
import QuantumKernel.Shell.Commands
import QuantumKernel.Shell.Tokens

/-! # From the line to the command

The shell cuts the first word out of the line with `next_token`, compares it with the names of its
commands one after another, and cuts the arguments out of what is left.  `Spells` says the same about
the characters of the line: its first word names the command, its next word is the path or the number,
and what is behind that, past the spaces, is the text.
-/

namespace QuantumKernel.Shell

open Fat32 ByteStore

/-- What the shell turns to after its comparisons, with the arguments. -/
inductive Request
  | help
  | clear
  | reboot
  | poweroff
  | halt
  | files (command : Command)
  | mkdir (path : CString)
  | ls
  | cd (path : CString)
  | pwd
  | sleep (ms : UInt32)
  /-- `sleep` without a number does nothing. -/
  | noSleep
  | ps
  | kill (pid : Int32)
  | exec (path : CString)
  | usage (of : String)
  | unknown

theorem nil_plain : (0 : UInt8) ∉ ([] : List UInt8) := List.not_mem_nil

/-- The string at `p`, read up to its NUL. -/
def readString (mem : Bytes) : (fuel p : Nat) → Option CString
  | 0, _ => none
  | fuel + 1, p =>
    if nul : mem p = 0 then some ⟨[], nil_plain⟩
    else do
      let rest ← readString mem fuel (p + 1)
      some ⟨mem p :: rest.val, List.not_mem_cons_of_ne_of_not_mem (Ne.symm nul) rest.property⟩

/-- `*t >= '0' && *t <= '9'`; a byte from 0x80 on is negative as a `char`. -/
def isDigit (c : UInt8) : Bool := 0x30 ≤ c && c ≤ 0x39

/-- `while (*t >= '0' && *t <= '9') { n = n * 10 + (*t - '0'); t++; }`, wrapping at 32 bits. -/
def number (mem : Bytes) : (fuel t : Nat) → (n : Int32) → Option Int32
  | 0, _, _ => none
  | fuel + 1, t, n =>
    if isDigit (mem t) then number mem fuel (t + 1) (n * 10 + (Int32.ofNat (mem t).toNat - 0x30)) else some n

/-- `!strcmp(cmd, literal)` for the string at `p`. -/
def isCommand (fuel : Nat) (mem : Bytes) (p : Nat) (literal : String) : Option Bool :=
  (Lib.strcmp (fun k => mem (p + k)) (fun k => (ascii literal).getD k 0) fuel 0).map (· == 0)

/-- The branch of a command with a path. -/
def withPath (fuel : Nat) (mem : Bytes) (p : Nat) (usage : String) (make : CString → Request) : Option Request := do
  let (path, mem, _) ← nextToken fuel mem p
  match path with
  | none => some (.usage usage)
  | some path => do
    let path ← readString mem fuel path
    some (make path)

/-- The branch of a command with a path and a text. -/
def withText (fuel : Nat) (mem : Bytes) (p : Nat) (usage : String) (make : CString → CString → Command) :
    Option Request := do
  let (path, mem, p) ← nextToken fuel mem p
  match path with
  | none => some (.usage usage)
  | some path => do
    let p ← skipSpaces mem fuel p
    if mem p = 0 then some (.usage usage)
    else do
      let path ← readString mem fuel path
      let text ← readString mem fuel p
      some (.files (make path text))

/-- The branch of a command with a number, or what it is without one. -/
def withNumber (fuel : Nat) (mem : Bytes) (p : Nat) (without : Request) (make : Int32 → Request) :
    Option Request := do
  let (digits, mem, _) ← nextToken fuel mem p
  match digits with
  | none => some without
  | some digits => do
    let n ← number mem fuel digits 0
    some (make n)

/-- The chain of comparisons in the shell's loop, for a line that is not empty. -/
def parse (fuel : Nat) (line : Bytes) : Option Request := do
  let (cmd, mem, p) ← nextToken fuel line 0
  -- a null pointer is not compared
  let cmd ← cmd
  if ← isCommand fuel mem cmd "help" then return .help
  if ← isCommand fuel mem cmd "clear" then return .clear
  if ← isCommand fuel mem cmd "reboot" then return .reboot
  if ← isCommand fuel mem cmd "poweroff" then return .poweroff
  if ← isCommand fuel mem cmd "shutdown" then return .poweroff
  if ← isCommand fuel mem cmd "halt" then return .halt
  if ← isCommand fuel mem cmd "cat" then
    return ← withPath fuel mem p "usage: cat <file>\n" fun path => .files (.cat path)
  if ← isCommand fuel mem cmd "write" then
    return ← withText fuel mem p "usage: write <file> <text>\n" .write
  if ← isCommand fuel mem cmd "append" then
    return ← withText fuel mem p "usage: append <file> <text>\n" .append
  if ← isCommand fuel mem cmd "rm" then
    return ← withPath fuel mem p "usage: rm <file>\n" fun path => .files (.rm path)
  if ← isCommand fuel mem cmd "mkdir" then return ← withPath fuel mem p "usage: mkdir <dir>\n" .mkdir
  if ← isCommand fuel mem cmd "ls" then return .ls
  if ← isCommand fuel mem cmd "cd" then return ← withPath fuel mem p "usage: cd <dir>\n" .cd
  if ← isCommand fuel mem cmd "pwd" then return .pwd
  -- the argument of `sleep_ms` is unsigned
  if ← isCommand fuel mem cmd "sleep" then
    return ← withNumber fuel mem p .noSleep fun ms => .sleep ms.toUInt32
  if ← isCommand fuel mem cmd "ps" then return .ps
  if ← isCommand fuel mem cmd "kill" then return ← withNumber fuel mem p (.usage "usage: kill <pid>\n") .kill
  if ← isCommand fuel mem cmd "exec" then return ← withPath fuel mem p "usage: exec <program>\n" .exec
  return .unknown

variable {line : List UInt8} {mem : Bytes} {fuel p n : Nat}

/-! ## Words -/

/-- The first word of a line, and what is behind the space after it. -/
def firstWord (line : List UInt8) : List UInt8 := (line.dropWhile isSpace).takeWhile fun c => !isSpace c
def afterWord (line : List UInt8) : List UInt8 :=
  ((line.dropWhile isSpace).dropWhile fun c => !isSpace c).drop 1

/-- The end of a word: there a NUL takes the place of the space, unless the line ends. -/
theorem endWord {start n : Nat} {text : List UInt8} (string : StringAt mem start text)
    (size : (text.takeWhile fun c => !isSpace c).length = n) :
    ∃ mem' s', (if mem (start + n) ≠ 0 then some (some start, Function.update mem (start + n) 0, start + n + 1)
        else some (some start, mem, start + n)) = some (some start, mem', s') ∧
      StringAt mem' start (text.takeWhile fun c => !isSpace c) ∧
      StringAt mem' s' ((text.dropWhile fun c => !isSpace c).drop 1) := by
  have inside : n ≤ text.length := size ▸ (List.takeWhile_prefix _).length_le
  have word := List.takeWhile_append_dropWhile (p := fun c => !isSpace c) (l := text)
  have rest := string.drop inside
  rw [← size, ← Runs.dropWhile_eq_drop, size] at rest
  cases left : text.dropWhile fun c => !isSpace c with
  | nil =>
    rw [left] at rest word
    rw [List.append_nil] at word
    have nul : mem (start + n) = 0 := rest
    refine ⟨mem, start + n, if_neg (not_not.mpr nul), ?_, rest⟩
    rw [word]
    exact string
  | cons d more =>
    rw [left] at rest
    obtain ⟨space, notEnd, later⟩ := rest
    refine ⟨Function.update mem (start + n) 0, start + n + 1, if_pos (space ▸ notEnd), ?_, ?_⟩
    · have cut : StringAt (Function.update mem (start + n) 0) start (text.take n) :=
        string.take (fun k _ below => Function.update_of_ne (by omega) _ _) (Function.update_self _ _ _) inside
      have same : text.take n = text.takeWhile fun c => !isSpace c := by
        rw [← size]
        exact (List.prefix_iff_eq_take.mp (List.takeWhile_prefix _)).symm
      rwa [same] at cut
    · exact later.frame fun k low _ => Function.update_of_ne (by omega) _ _

/-- `next_token` on the string at `s`: nothing but spaces, or a word in place and the rest behind it. -/
theorem nextToken_words {s : Nat} (string : StringAt mem s line) (enough : line.length < fuel) :
    (firstWord line = [] ∧ ∃ s', nextToken fuel mem s = some (none, mem, s')) ∨
      (firstWord line ≠ [] ∧ ∃ a mem' s', nextToken fuel mem s = some (some a, mem', s') ∧
        StringAt mem' a (firstWord line) ∧ StringAt mem' s' (afterWord line)) := by
  have behind := string.drop (List.takeWhile_prefix isSpace).length_le
  rw [← Runs.dropWhile_eq_drop] at behind
  have skipped := skipSpaces_eq string enough
  have shorter : (line.dropWhile isSpace).length ≤ line.length := (List.dropWhile_suffix isSpace).length_le
  simp only [nextToken, skipped, Option.bind_eq_bind, Option.bind_some]
  generalize s + (line.takeWhile isSpace).length = start at behind
  rw [firstWord, afterWord]
  cases text : line.dropWhile isSpace with
  | nil =>
    rw [text] at behind
    exact Or.inl ⟨rfl, start, if_pos behind⟩
  | cons c tail =>
    have plain : isSpace c = false := by simpa [text] using List.head?_dropWhile_not isSpace line
    rw [text] at behind shorter
    have ended := skipWord_eq behind (show (c :: tail).length < fuel by omega)
    obtain ⟨mem', s', stored, word, rest⟩ := endWord behind rfl
    refine Or.inr ⟨by simp [plain], start, mem', s', ?_, word, rest⟩
    have notEnd : mem start ≠ 0 := behind.1 ▸ behind.2.1
    rw [if_neg notEnd, ended, Option.bind_some]
    exact stored

theorem firstWord_length (line : List UInt8) : (firstWord line).length ≤ line.length :=
  (List.takeWhile_prefix _).length_le.trans (List.dropWhile_suffix _).length_le

theorem afterWord_length (line : List UInt8) : (afterWord line).length ≤ line.length := by
  rw [afterWord, List.length_drop]
  have first := (List.dropWhile_suffix (l := line) isSpace).length_le
  have second := (List.dropWhile_suffix (l := line.dropWhile isSpace) fun c => !isSpace c).length_le
  omega

theorem readString_eq (string : StringAt mem p line) (enough : line.length < fuel) :
    ∃ s, readString mem fuel p = some s ∧ s.val = line := by
  induction line generalizing p fuel with
  | nil =>
    obtain ⟨fuel, rfl⟩ := Nat.exists_eq_add_one_of_ne_zero (Nat.ne_zero_of_lt enough)
    exact ⟨_, dif_pos string, rfl⟩
  | cons c rest ih =>
    obtain ⟨fuel, rfl⟩ := Nat.exists_eq_add_one_of_ne_zero (Nat.ne_zero_of_lt enough)
    obtain ⟨first, notNul, tail⟩ := string
    obtain ⟨s, read, same⟩ := ih tail (Nat.lt_of_succ_lt_succ enough)
    rw [readString, dif_neg (first ▸ notNul), read]
    exact ⟨_, rfl, List.cons_eq_cons.mpr ⟨first, same⟩⟩

/-- The bytes of a list, as a string. -/
theorem stringAt_getD (plain : 0 ∉ line) : StringAt (fun k => line.getD k 0) 0 line := by
  refine stringAt_iff.mpr ⟨?_, plain, by simp⟩
  rw [← List.range_eq_range', range_map_getD line (Nat.le_refl _), List.take_length]

theorem stringAt_shift {i : Nat} (string : StringAt mem (p + i) line) : StringAt (fun k => mem (p + k)) i line := by
  induction line generalizing i with
  | nil => exact string
  | cons c rest ih => exact ⟨string.1, string.2.1, ih string.2.2⟩

theorem isCommand_eq {literal : String} (string : StringAt mem p line) (enough : line.length < fuel)
    (plain : 0 ∉ ascii literal) : isCommand fuel mem p literal = some (decide (line = ascii literal)) := by
  have compared := Lib.strcmp_eq (stringAt_shift string) (stringAt_getD plain) enough
  have equal := (ByteOrder.compares_difference line (ascii literal) (stringAt_iff.mp string).2.1 plain).equal
  rw [isCommand, compared, Option.map_some]
  congr 1
  by_cases same : line = ascii literal
  · rw [decide_eq_true same, equal.mpr same]
    rfl
  · rw [decide_eq_false same]
    simpa using fun zero => same (equal.mp zero)

theorem number_eq (string : StringAt mem p line) (enough : line.length < fuel) (n : Nat) :
    number mem fuel p (Int32.ofNat n) =
      some (Int32.ofNat ((line.takeWhile isDigit).foldl (fun n c => n * 10 + (c.toNat - 0x30)) n)) := by
  induction line generalizing p fuel n with
  | nil =>
    obtain ⟨fuel, rfl⟩ := Nat.exists_eq_add_one_of_ne_zero (Nat.ne_zero_of_lt enough)
    have nul : mem p = 0 := string
    rw [number, nul]
    rfl
  | cons c rest ih =>
    obtain ⟨fuel, rfl⟩ := Nat.exists_eq_add_one_of_ne_zero (Nat.ne_zero_of_lt enough)
    obtain ⟨first, -, tail⟩ := string
    rw [number, first]
    by_cases digit : isDigit c = true
    · have low : 0x30 ≤ c.toNat := by
        simp only [isDigit, Bool.and_eq_true, decide_eq_true_eq, UInt8.le_iff_toNat_le] at digit
        exact digit.1
      have step : Int32.ofNat n * 10 + (Int32.ofNat c.toNat - 0x30) = Int32.ofNat (n * 10 + (c.toNat - 0x30)) := by
        rw [Int32.ofNat_add, Int32.ofNat_mul, Int32.ofNat_sub _ _ low]
        rfl
      rw [if_pos digit, step, ih tail (Nat.lt_of_succ_lt_succ enough), List.takeWhile_cons_of_pos digit,
        List.foldl_cons]
    · rw [if_neg digit, List.takeWhile_cons_of_neg digit, List.foldl_nil]

/-! ## What a line spells -/

/-- The number that a word starts with. -/
def decimal (word : List UInt8) : Nat := (word.takeWhile isDigit).foldl (fun n c => n * 10 + (c.toNat - 0x30)) 0

/-- What the commands with a path make of the rest of the line. -/
inductive SpellsPath (rest : List UInt8) (usage : String) (make : CString → Request) : Request → Prop
  | usage : firstWord rest = [] → SpellsPath rest usage make (.usage usage)
  | path (path : CString) : firstWord rest ≠ [] → path.val = firstWord rest → SpellsPath rest usage make (make path)

/-- What the commands with a path and a text make of it. -/
inductive SpellsText (rest : List UInt8) (usage : String) (make : CString → CString → Command) : Request → Prop
  | usage : firstWord rest = [] ∨ (afterWord rest).dropWhile isSpace = [] →
      SpellsText rest usage make (.usage usage)
  | text (path text : CString) : firstWord rest ≠ [] → path.val = firstWord rest → text.val ≠ [] →
      text.val = (afterWord rest).dropWhile isSpace → SpellsText rest usage make (.files (make path text))

/-- What the commands with a number make of it. -/
inductive SpellsNumber (rest : List UInt8) (without : Request) (make : Int32 → Request) : Request → Prop
  | without : firstWord rest = [] → SpellsNumber rest without make without
  | number : firstWord rest ≠ [] → SpellsNumber rest without make (make (Int32.ofNat (decimal (firstWord rest))))

/-- What a line spells. -/
inductive Spells (line : List UInt8) : Request → Prop
  | help : firstWord line = ascii "help" → Spells line .help
  | clear : firstWord line = ascii "clear" → Spells line .clear
  | reboot : firstWord line = ascii "reboot" → Spells line .reboot
  | poweroff : firstWord line = ascii "poweroff" ∨ firstWord line = ascii "shutdown" → Spells line .poweroff
  | halt : firstWord line = ascii "halt" → Spells line .halt
  | cat (r : Request) : firstWord line = ascii "cat" →
      SpellsPath (afterWord line) "usage: cat <file>\n" (fun path => .files (.cat path)) r → Spells line r
  | write (r : Request) : firstWord line = ascii "write" →
      SpellsText (afterWord line) "usage: write <file> <text>\n" .write r → Spells line r
  | append (r : Request) : firstWord line = ascii "append" →
      SpellsText (afterWord line) "usage: append <file> <text>\n" .append r → Spells line r
  | rm (r : Request) : firstWord line = ascii "rm" →
      SpellsPath (afterWord line) "usage: rm <file>\n" (fun path => .files (.rm path)) r → Spells line r
  | mkdir (r : Request) : firstWord line = ascii "mkdir" →
      SpellsPath (afterWord line) "usage: mkdir <dir>\n" .mkdir r → Spells line r
  | ls : firstWord line = ascii "ls" → Spells line .ls
  | cd (r : Request) : firstWord line = ascii "cd" →
      SpellsPath (afterWord line) "usage: cd <dir>\n" .cd r → Spells line r
  | pwd : firstWord line = ascii "pwd" → Spells line .pwd
  | sleep (r : Request) : firstWord line = ascii "sleep" →
      SpellsNumber (afterWord line) .noSleep (fun ms => .sleep ms.toUInt32) r → Spells line r
  | ps : firstWord line = ascii "ps" → Spells line .ps
  | kill (r : Request) : firstWord line = ascii "kill" →
      SpellsNumber (afterWord line) (.usage "usage: kill <pid>\n") .kill r → Spells line r
  | exec (r : Request) : firstWord line = ascii "exec" →
      SpellsPath (afterWord line) "usage: exec <program>\n" .exec r → Spells line r
  | unknown : (∀ name ∈ ["help", "clear", "reboot", "poweroff", "shutdown", "halt", "cat", "write", "append", "rm",
        "mkdir", "ls", "cd", "pwd", "sleep", "ps", "kill", "exec"], firstWord line ≠ ascii name) →
      Spells line .unknown

theorem withPath_spells (string : StringAt mem p line) (enough : line.length < fuel) (usage : String)
    (make : CString → Request) :
    ∃ r, withPath fuel mem p usage make = some r ∧ SpellsPath line usage make r := by
  obtain ⟨none, s', token⟩ | ⟨word, a, mem', s', token, path, -⟩ := nextToken_words string enough
  · exact ⟨_, by simp [withPath, token], .usage none⟩
  · obtain ⟨s, read, same⟩ := readString_eq path ((firstWord_length line).trans_lt enough)
    exact ⟨_, by simp [withPath, token, read], .path s word same⟩

theorem withNumber_spells (string : StringAt mem p line) (enough : line.length < fuel) (without : Request)
    (make : Int32 → Request) :
    ∃ r, withNumber fuel mem p without make = some r ∧ SpellsNumber line without make r := by
  obtain ⟨none, s', token⟩ | ⟨word, a, mem', s', token, digits, -⟩ := nextToken_words string enough
  · exact ⟨_, by simp [withNumber, token], .without none⟩
  · have read : number mem' fuel a 0 = some (Int32.ofNat (decimal (firstWord line))) :=
      number_eq digits ((firstWord_length line).trans_lt enough) 0
    exact ⟨_, by simp [withNumber, token, read], .number word⟩

theorem withText_spells (string : StringAt mem p line) (enough : line.length < fuel) (usage : String)
    (make : CString → CString → Command) :
    ∃ r, withText fuel mem p usage make = some r ∧ SpellsText line usage make r := by
  obtain ⟨none, s', token⟩ | ⟨word, a, mem', s', token, path, rest⟩ := nextToken_words string enough
  · exact ⟨_, by simp [withText, token], .usage (Or.inl none)⟩
  · have short := (afterWord_length line).trans_lt enough
    have skipped := skipSpaces_eq rest short
    have behind := rest.drop (List.takeWhile_prefix isSpace).length_le
    rw [← Runs.dropWhile_eq_drop] at behind
    generalize s' + ((afterWord line).takeWhile isSpace).length = start at skipped behind
    simp only [withText, token, skipped, Option.bind_eq_bind, Option.bind_some]
    by_cases none : (afterWord line).dropWhile isSpace = []
    · rw [none] at behind
      exact ⟨_, if_pos behind, .usage (Or.inr none)⟩
    · have notEnd : mem' start ≠ 0 := by
        cases left : (afterWord line).dropWhile isSpace with
        | nil => exact absurd left none
        | cons c tail =>
          rw [left] at behind
          exact behind.1 ▸ behind.2.1
      obtain ⟨s, read, same⟩ := readString_eq path ((firstWord_length line).trans_lt enough)
      obtain ⟨t, read', same'⟩ :=
        readString_eq behind ((List.dropWhile_suffix isSpace).length_le.trans_lt short)
      rw [if_neg notEnd, read, read']
      exact ⟨_, rfl, .text s t word same (same' ▸ none) same'⟩

/-- One comparison of the chain: the branch that is taken, or the rest. -/
theorem branch {literal : String} {cmd : Nat} {taken rest : Option Request}
    (compared : isCommand fuel mem cmd literal = some (decide (firstWord line = ascii literal)))
    (yes : firstWord line = ascii literal → ∃ r, taken = some r ∧ Spells line r)
    (no : firstWord line ≠ ascii literal → ∃ r, rest = some r ∧ Spells line r) :
    ∃ r, (isCommand fuel mem cmd literal >>= fun is => if is = true then taken else rest) = some r ∧
      Spells line r := by
  rw [compared]
  by_cases same : firstWord line = ascii literal
  · simpa [same] using yes same
  · simpa [same] using no same

/-- **The shell finds what the line spells.**  For every line with a word in it, the pointers into the
line that `next_token` cuts up and the chain of comparisons select the command of its first word, with
the next word as the path or the number and what is behind it, past the spaces, as the text; the text
keeps its own spaces.  A word that is no command's name is an unknown command. -/
theorem parse_spells (string : StringAt mem 0 line) (enough : line.length < fuel) (word : firstWord line ≠ []) :
    ∃ r, parse fuel mem = some r ∧ Spells line r := by
  obtain ⟨none, -⟩ | ⟨-, a, mem', s', token, cmd, rest⟩ := nextToken_words string enough
  · exact absurd none word
  · have short := (firstWord_length line).trans_lt enough
    have short' := (afterWord_length line).trans_lt enough
    have path (usage : String) (make : CString → Request) := withPath_spells rest short' usage make
    have text (usage : String) (make : CString → CString → Command) := withText_spells rest short' usage make
    have count (without : Request) (make : Int32 → Request) := withNumber_spells rest short' without make
    have is (literal : String) (plain : 0 ∉ ascii literal) := isCommand_eq cmd short plain
    -- in the order of the chain
    rw [parse, token]
    refine branch (is _ (by decide)) (fun same => ⟨_, rfl, .help same⟩) fun notHelp => ?_
    refine branch (is _ (by decide)) (fun same => ⟨_, rfl, .clear same⟩) fun notClear => ?_
    refine branch (is _ (by decide)) (fun same => ⟨_, rfl, .reboot same⟩) fun notReboot => ?_
    refine branch (is _ (by decide)) (fun same => ⟨_, rfl, .poweroff (Or.inl same)⟩) fun notPoweroff => ?_
    refine branch (is _ (by decide)) (fun same => ⟨_, rfl, .poweroff (Or.inr same)⟩) fun notShutdown => ?_
    refine branch (is _ (by decide)) (fun same => ⟨_, rfl, .halt same⟩) fun notHalt => ?_
    refine branch (is _ (by decide)) (fun same => (path _ _).imp fun r made => ⟨made.1, .cat r same made.2⟩)
      fun notCat => ?_
    refine branch (is _ (by decide)) (fun same => (text _ _).imp fun r made => ⟨made.1, .write r same made.2⟩)
      fun notWrite => ?_
    refine branch (is _ (by decide)) (fun same => (text _ _).imp fun r made => ⟨made.1, .append r same made.2⟩)
      fun notAppend => ?_
    refine branch (is _ (by decide)) (fun same => (path _ _).imp fun r made => ⟨made.1, .rm r same made.2⟩)
      fun notRm => ?_
    refine branch (is _ (by decide)) (fun same => (path _ _).imp fun r made => ⟨made.1, .mkdir r same made.2⟩)
      fun notMkdir => ?_
    refine branch (is _ (by decide)) (fun same => ⟨_, rfl, .ls same⟩) fun notLs => ?_
    refine branch (is _ (by decide)) (fun same => (path _ _).imp fun r made => ⟨made.1, .cd r same made.2⟩)
      fun notCd => ?_
    refine branch (is _ (by decide)) (fun same => ⟨_, rfl, .pwd same⟩) fun notPwd => ?_
    refine branch (is _ (by decide)) (fun same => (count _ _).imp fun r made => ⟨made.1, .sleep r same made.2⟩)
      fun notSleep => ?_
    refine branch (is _ (by decide)) (fun same => ⟨_, rfl, .ps same⟩) fun notPs => ?_
    refine branch (is _ (by decide)) (fun same => (count _ _).imp fun r made => ⟨made.1, .kill r same made.2⟩)
      fun notKill => ?_
    refine branch (is _ (by decide)) (fun same => (path _ _).imp fun r made => ⟨made.1, .exec r same made.2⟩)
      fun notExec => ?_
    refine ⟨_, rfl, .unknown ?_⟩
    simp only [List.forall_mem_cons]
    exact ⟨notHelp, notClear, notReboot, notPoweroff, notShutdown, notHalt, notCat, notWrite, notAppend, notRm,
      notMkdir, notLs, notCd, notPwd, notSleep, notPs, notKill, notExec, List.forall_mem_nil _⟩

theorem parse_spells_write :
    ∃ r, parse 20 (fun k => (ascii " write a  hi all").getD k 0) = some r ∧ Spells (ascii " write a  hi all") r :=
  parse_spells (stringAt_getD (by decide)) (by decide) (by decide)

end QuantumKernel.Shell
