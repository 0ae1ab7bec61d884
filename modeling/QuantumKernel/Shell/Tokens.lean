import QuantumKernel.Library.CStrings
import QuantumKernel.Library.Runs

/-! # The tokens of a line

`next_token` of the shell cuts the next word out of the line: it skips spaces, ends the word with a
NUL in place of the space behind it, and leaves the caller's pointer behind that NUL.  Addresses are
offsets from the start of the line.  The loops run with fuel, which is enough when it exceeds the
length of the line.
-/

namespace QuantumKernel.Shell

open ByteStore Runs

/-- `' '` -/
def isSpace (c : UInt8) : Bool := c == 0x20

/-- `while (**s == ' ') (*s)++;` -/
def skipSpaces (mem : Bytes) : (fuel s : Nat) → Option Nat
  | 0, _ => none
  | fuel + 1, s => if isSpace (mem s) then skipSpaces mem fuel (s + 1) else some s

/-- `while (**s && **s != ' ') (*s)++;` -/
def skipWord (mem : Bytes) : (fuel s : Nat) → Option Nat
  | 0, _ => none
  | fuel + 1, s => if mem s ≠ 0 ∧ isSpace (mem s) = false then skipWord mem fuel (s + 1) else some s

/-- The pointer returned, `none` for a null pointer, with the memory and `*s` after the call. -/
def nextToken (fuel : Nat) (mem : Bytes) (s : Nat) : Option (Option Nat × Bytes × Nat) := do
  let s ← skipSpaces mem fuel s
  if mem s = 0 then return (none, mem, s)
  let start := s
  let s ← skipWord mem fuel s
  if mem s ≠ 0 then return (some start, Function.update mem s 0, s + 1)
  return (some start, mem, s)

/-- The pointers that `n` calls return, one after another. -/
def nextTokens (fuel : Nat) : (n : Nat) → (mem : Bytes) → (s : Nat) → Option (List (Option Nat) × Bytes × Nat)
  | 0, mem, s => some ([], mem, s)
  | n + 1, mem, s => do
    let (token, mem, s) ← nextToken fuel mem s
    let (tokens, mem, s) ← nextTokens fuel n mem s
    return (token :: tokens, mem, s)

variable {mem mem' : Bytes} {text rest : List UInt8} {fuel s n a b : Nat} {more : List (Nat × Nat)} {c : UInt8}

/-! ## One call -/

theorem skipSpaces_eq (string : StringAt mem s text) (enough : text.length < fuel) :
    skipSpaces mem fuel s = some (s + (text.takeWhile isSpace).length) := by
  induction text generalizing s fuel with
  | nil =>
    obtain ⟨fuel, rfl⟩ := Nat.exists_eq_add_one_of_ne_zero (Nat.ne_zero_of_lt enough)
    have nul : mem s = 0 := string
    simp [skipSpaces, isSpace, nul]
  | cons c rest ih =>
    obtain ⟨fuel, rfl⟩ := Nat.exists_eq_add_one_of_ne_zero (Nat.ne_zero_of_lt enough)
    obtain ⟨first, notNul, tail⟩ := string
    rw [skipSpaces, first]
    by_cases space : isSpace c = true
    · rw [if_pos space, ih tail (Nat.lt_of_succ_lt_succ enough), List.takeWhile_cons_of_pos space,
        List.length_cons, Nat.add_assoc, Nat.add_comm 1]
    · rw [if_neg space, List.takeWhile_cons_of_neg space, List.length_nil, Nat.add_zero]

theorem skipWord_eq (string : StringAt mem s text) (enough : text.length < fuel) :
    skipWord mem fuel s = some (s + (text.takeWhile fun c => !isSpace c).length) := by
  induction text generalizing s fuel with
  | nil =>
    obtain ⟨fuel, rfl⟩ := Nat.exists_eq_add_one_of_ne_zero (Nat.ne_zero_of_lt enough)
    have nul : mem s = 0 := string
    simp [skipWord, nul]
  | cons c rest ih =>
    obtain ⟨fuel, rfl⟩ := Nat.exists_eq_add_one_of_ne_zero (Nat.ne_zero_of_lt enough)
    obtain ⟨first, notNul, tail⟩ := string
    rw [skipWord, first]
    by_cases space : isSpace c = true
    · rw [if_neg (by simp [space]), List.takeWhile_cons_of_neg (by simp [space]), List.length_nil, Nat.add_zero]
    · have plain : isSpace c = false := eq_false_of_ne_true space
      rw [if_pos ⟨notNul, plain⟩, ih tail (Nat.lt_of_succ_lt_succ enough),
        List.takeWhile_cons_of_pos (by simp [plain]), List.length_cons, Nat.add_assoc, Nat.add_comm 1]

/-- The string at `s` is `text`, and its words are `words`. -/
structure Rest (mem : Bytes) (s : Nat) (text : List UInt8) (words : List (Nat × Nat)) : Prop where
  string : StringAt mem s text
  words : runs isSpace s text = words

/-- A call without a word left stops at the NUL. -/
theorem nextToken_none (rest : Rest mem s text []) (enough : text.length < fuel) :
    nextToken fuel mem s = some (none, mem, s + text.length) := by
  have none : text.dropWhile isSpace = [] := by
    cases behind : text.dropWhile isSpace with
    | nil => rfl
    | cons c tail =>
      have plain : isSpace c = false := by simpa [behind] using List.head?_dropWhile_not isSpace text
      have words := rest.words
      rw [runs_dropWhile, behind, runs_word plain] at words
      cases words
  have all : (text.takeWhile isSpace).length = text.length := by
    have split := congrArg List.length (List.takeWhile_append_dropWhile (p := isSpace) (l := text))
    simpa [none] using split
  rw [nextToken, skipSpaces_eq rest.string enough, all]
  simp [rest.string.nul]

/-- What the store of the NUL leaves for the next call. -/
theorem Rest.cut (string : StringAt mem b text) (stop : ∀ c, text.head? = some c → isSpace c = true) :
    ∃ s tail, (if mem b ≠ 0 then (Function.update mem b 0, b + 1) else (mem, b)) =
        (Function.update mem b 0, s) ∧
      Rest (Function.update mem b 0) s tail (runs isSpace b text) ∧ s + tail.length = b + text.length ∧ b ≤ s := by
  cases text with
  | nil =>
    have nul : mem b = 0 := string
    have same : Function.update mem b 0 = mem := by rw [← nul, Function.update_eq_self]
    rw [if_neg (not_not.mpr nul), same]
    exact ⟨b, [], rfl, ⟨string, rfl⟩, rfl, le_refl b⟩
  | cons d tail =>
    obtain ⟨first, notNul, behind⟩ := string
    have kept : StringAt (Function.update mem b 0) (b + 1) tail :=
      behind.frame fun k low _ => Function.update_of_ne (by omega) _ _
    rw [if_pos (first ▸ notNul), runs_sep (stop d rfl)]
    exact ⟨b + 1, tail, rfl, ⟨kept, rfl⟩, by rw [List.length_cons]; omega, Nat.le_succ b⟩

/-- A call with a word left returns where it starts, and puts a NUL where it ends. -/
theorem nextToken_some (rest : Rest mem s text ((a, b) :: more)) (enough : text.length < fuel) :
    ∃ s' tail, nextToken fuel mem s = some (some a, Function.update mem b 0, s') ∧
      Rest (Function.update mem b 0) s' tail more ∧ s' + tail.length = s + text.length ∧
      s ≤ a ∧ a < b ∧ b ≤ s' := by
  have split := List.takeWhile_append_dropWhile (p := isSpace) (l := text)
  have string : StringAt mem (s + (text.takeWhile isSpace).length) (text.dropWhile isSpace) := by
    rw [dropWhile_eq_drop]
    exact rest.string.drop (List.takeWhile_prefix _ |>.length_le)
  have words := rest.words
  rw [runs_dropWhile] at words
  have skipped := skipSpaces_eq rest.string enough
  have total := congrArg List.length split
  rw [List.length_append] at total
  -- `n` spaces, then a word of `m + 1` characters
  generalize (text.takeWhile isSpace).length = n at string words skipped total
  cases behind : text.dropWhile isSpace with
  | nil =>
    rw [behind, runs] at words
    cases words
  | cons c tail =>
    have plain : isSpace c = false := by simpa [behind] using List.head?_dropWhile_not isSpace text
    rw [behind] at string words total
    rw [runs_word plain] at words
    have room : (c :: tail).length < fuel := by omega
    have ended := skipWord_eq string room
    have rest' := string.drop (List.takeWhile_prefix (fun c => !isSpace c) |>.length_le)
    rw [← dropWhile_eq_drop, List.takeWhile_cons_of_pos (by simp [plain]), List.length_cons,
      List.dropWhile_cons_of_pos (by simp [plain])] at rest'
    rw [List.takeWhile_cons_of_pos (by simp [plain]), List.length_cons] at ended
    have total' := congrArg List.length (List.takeWhile_append_dropWhile (p := fun c => !isSpace c) (l := tail))
    rw [List.length_append] at total'
    -- behind the word there is a space or the end
    have stop : ∀ d, (tail.dropWhile fun c => !isSpace c).head? = some d → isSpace d = true := fun d first => by
      simpa [first] using List.head?_dropWhile_not (fun c => !isSpace c) tail
    generalize (tail.takeWhile fun c => !isSpace c).length = m at words ended rest' total'
    rw [List.cons.injEq, Prod.mk.injEq] at words
    obtain ⟨⟨rfl, rfl⟩, rfl⟩ := words
    rw [← Nat.add_assoc] at ended rest'
    obtain ⟨s', left, stored, next, size, past⟩ := Rest.cut rest' stop
    refine ⟨s', left, ?_, next, ?_, by omega, by omega, past⟩
    · have notNul : mem (s + n) ≠ 0 := string.1 ▸ string.2.1
      have ran : nextToken fuel mem s = some (some (s + n), if mem (s + n + m + 1) ≠ 0
          then (Function.update mem (s + n + m + 1) 0, s + n + m + 1 + 1) else (mem, s + n + m + 1)) := by
        rw [nextToken, skipped]
        simp only [Option.bind_eq_bind, Option.bind_some, if_neg notNul, ended]
        split <;> rfl
      rw [ran, stored]
    · rw [List.length_cons] at total
      omega

/-! ## Call after call -/

/-- The bytes that are NULs after the calls that cut `words`. -/
def nulsAt (words : List (Nat × Nat)) (mem : Bytes) : Bytes := fun k =>
  if k ∈ words.map Prod.snd then 0 else mem k

@[simp] theorem nulsAt_nil (mem : Bytes) : nulsAt [] mem = mem := by
  funext k
  exact if_neg List.not_mem_nil

theorem nulsAt_cons (a b : Nat) (words : List (Nat × Nat)) (mem : Bytes) :
    nulsAt ((a, b) :: words) mem = nulsAt words (Function.update mem b 0) := by
  funext k
  by_cases here : k = b
  · subst here
    simp [nulsAt]
  · simp only [nulsAt, List.map_cons, List.mem_cons, here, false_or, Function.update_of_ne here]

/-- `n` calls return the next `n` words, then null pointers. -/
theorem nextTokens_eq (words : List (Nat × Nat)) (left : Rest mem s text words) (enough : text.length < fuel) :
    ∃ s', nextTokens fuel n mem s = some ((words.take n).map (fun word => some word.1) ++
        List.replicate (n - words.length) none, nulsAt (words.take n) mem, s') ∧
      s ≤ s' ∧ s' ≤ s + text.length := by
  induction n generalizing mem s text words with
  | zero => exact ⟨s, by simp [nextTokens], le_refl s, by omega⟩
  | succ n ih =>
    cases words with
    | nil =>
      have string : StringAt mem (s + text.length) [] := left.string.nul
      obtain ⟨s', later, low, high⟩ := ih [] ⟨string, runs_nil _ _⟩ (Nat.zero_lt_of_lt enough)
      refine ⟨s', ?_, by omega, by simpa using high⟩
      simp [nextTokens, nextToken_none left enough, later, List.replicate_succ]
    | cons word more =>
      obtain ⟨a, b⟩ := word
      obtain ⟨s₁, tail, called, next, size, start, nonempty, past⟩ := nextToken_some left enough
      obtain ⟨s', later, low, high⟩ := ih more next (by omega)
      refine ⟨s', ?_, by omega, by omega⟩
      simp [nextTokens, called, later, nulsAt_cons]

/-- A word that was cut stands in place, with a NUL behind it. -/
theorem StringAt.cutWord {words : List (Nat × Nat)} (string : StringAt mem 0 text)
    (found : (a, b) ∈ words) (inside : ∀ word ∈ words, word.1 < word.2 ∧ word.2 ≤ text.length)
    (apart : words.Pairwise fun v w => v.2 < w.1) :
    StringAt (nulsAt words mem) a ((text.take b).drop a) := by
  obtain ⟨nonempty, fits⟩ := inside (a, b) found
  have suffix := StringAt.drop string (n := a) (by omega)
  rw [Nat.zero_add] at suffix
  have size : a + (b - a) = b := by omega
  rw [List.drop_take]
  refine StringAt.take suffix (fun k low high => if_neg fun cut => ?_) (if_pos ?_) ?_
  · obtain ⟨⟨a', b'⟩, other, rfl⟩ := List.mem_map.mp cut
    have outside := ends_outside (fun word among => (inside word among).1) apart found other
    omega
  · rw [size]
    exact List.mem_map.mpr ⟨(a, b), found, rfl⟩
  · rw [List.length_drop]
    omega

/-- **Tokenizing is splitting on spaces.**  The calls on a pointer to the start of a line return its
words in order, then null pointers. -/
theorem tokens_are_words {line : Bytes} {chars : List UInt8} (string : StringAt line 0 chars)
    (enough : chars.length < fuel) :
    ∃ words : List (Nat × Nat), (∀ a b, (a, b) ∈ words ↔ MaximalRun isSpace chars a b) ∧
      (words.Pairwise fun v w => v.2 < w.1) ∧
      ∀ n, ∃ mem s, nextTokens fuel n line 0 = some ((words.take n).map (fun word => some word.1) ++
          List.replicate (n - words.length) none, mem, s) ∧ s ≤ chars.length ∧
        ∀ word ∈ words.take n, StringAt mem word.1 ((chars.take word.2).drop word.1) := by
  refine ⟨runs isSpace 0 chars, fun a b => mem_runs, runs_pairwise isSpace 0 chars, fun n => ?_⟩
  obtain ⟨s, called, -, high⟩ := nextTokens_eq (n := n) (runs isSpace 0 chars) ⟨string, rfl⟩ enough
  refine ⟨_, s, called, by simpa using high, fun word found => ?_⟩
  refine StringAt.cutWord string found (fun other cut => ?_) ((runs_pairwise isSpace 0 chars).take)
  obtain ⟨-, nonempty, high⟩ := mem_runs_bounds (List.mem_of_mem_take cut)
  exact ⟨nonempty, by simpa using high⟩

/-- The line `" ls  a"`: two tokens, then null pointers. -/
theorem tokens_are_words_ls :
    ∃ words : List (Nat × Nat),
      (∀ a b, (a, b) ∈ words ↔ MaximalRun isSpace [0x20, 0x6C, 0x73, 0x20, 0x20, 0x61] a b) ∧
      (words.Pairwise fun v w => v.2 < w.1) ∧
      ∀ n, ∃ mem s, nextTokens 7 n (fun k => [0x20, 0x6C, 0x73, 0x20, 0x20, 0x61].getD k 0) 0 =
          some ((words.take n).map (fun word => some word.1) ++ List.replicate (n - words.length) none, mem, s) ∧
        s ≤ 6 ∧ ∀ word ∈ words.take n,
          StringAt mem word.1 (([0x20, 0x6C, 0x73, 0x20, 0x20, 0x61].take word.2).drop word.1) :=
  tokens_are_words (show StringAt _ 0 [0x20, 0x6C, 0x73, 0x20, 0x20, 0x61] by decide) (by decide)

end QuantumKernel.Shell
