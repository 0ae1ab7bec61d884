import QuantumKernel.Lib.PrintNum
import QuantumKernel.Lib.Strings

/-! # `printf`

The scanner of the C library of user programs steps over the character behind a percent sign without
a look at what it is.  The model records the addresses at which the format is read, and takes the
arguments as the words on the stack.  `Prints` says what a format with its arguments stands for.
-/

namespace QuantumKernel.Lib

open ByteStore Numerals

/-- What a call has written, its result, and where it has read the format. -/
structure Printed where
  written : List UInt8
  count : Int32
  reads : List Nat

/-- `'%'` -/
def percent : UInt8 := 0x25

/-- `"(null)"` -/
def nullText : List UInt8 := [0x28, 0x6E, 0x75, 0x6C, 0x6C, 0x29]

/-- `va_arg` -/
def vaArg : List UInt32 → Option (UInt32 × List UInt32)
  | [] => none
  | word :: args => some (word, args)

/-- A call of `print_num`, with what is in its buffer. -/
def putNum (fuel : Nat) (buf : Bytes) (base : Int32) (sign : Bool) (args : List UInt32) :
    Option (List UInt8 × List UInt32) := do
  let (num, args) ← vaArg args
  let chars ← (printNum fuel buf num base sign).toOption
  return (chars, args)

/-- `switch (*format)`: the bytes written, and the arguments left. -/
def conversion (fuel : Nat) (mem buf : Bytes) (c : UInt8) (args : List UInt32) : Option (List UInt8 × List UInt32) :=
  if c = 0x64 ∨ c = 0x69 then putNum fuel buf 10 true args
  else if c = 0x75 then putNum fuel buf 10 false args
  else if c = 0x78 then putNum fuel buf 16 false args
  else if c = 0x73 then do
    let (s, args) ← vaArg args
    if s ≠ 0 then
      let len ← strlen mem fuel s.toNat
      return ((List.range' s.toNat len).map mem, args)
    return (nullText, args)
  else if c = 0x63 then do
    let (c, args) ← vaArg args
    return ([c.toUInt8], args)
  else if c = percent then some ([percent], args)
  else some ([percent, c], args)

/-- `while (*format)` -/
def printf (mem buf : Bytes) : (fuel format : Nat) → (args : List UInt32) → Option Printed
  | 0, _, _ => none
  | fuel + 1, format, args =>
    if mem format = 0 then some ⟨[], 0, [format]⟩
    else if mem format = percent then do
      let (chars, args) ← conversion fuel mem buf (mem (format + 1)) args
      let rest ← printf mem buf fuel (format + 2) args
      return ⟨chars ++ rest.written, rest.count + 1, format :: (format + 1) :: rest.reads⟩
    else do
      let rest ← printf mem buf fuel (format + 1) args
      return ⟨mem format :: rest.written, rest.count + 1, format :: rest.reads⟩

/-! ## What a format stands for -/

/-- The letters with an argument: `d`, `i`, `u`, `x`, `s` and `c`. -/
def TakesArg (c : UInt8) : Prop := c ∈ [0x64, 0x69, 0x75, 0x78, 0x73, 0x63]

instance (c : UInt8) : Decidable (TakesArg c) := inferInstanceAs (Decidable (c ∈ _))

/-- What a letter makes of its argument. -/
inductive Shows (mem : Bytes) : UInt8 → UInt32 → List UInt8 → Prop
  | signed {c : UInt8} {num : UInt32} {chars : List UInt8} : c = 0x64 ∨ c = 0x69 →
      IsSignedNumeral 10 chars num.toInt32.toInt → Shows mem c num chars
  | unsigned {num : UInt32} {chars : List UInt8} : IsNumeral 10 chars num.toNat → Shows mem 0x75 num chars
  | hex {num : UInt32} {chars : List UInt8} : IsNumeral 16 chars num.toNat → Shows mem 0x78 num chars
  | string {s : UInt32} {text : List UInt8} : s ≠ 0 → StringAt mem s.toNat text → Shows mem 0x73 s text
  | null : Shows mem 0x73 0 nullText
  | char (c : UInt32) : Shows mem 0x63 c [c.toUInt8]

/-- The literal characters and the conversions of a format, in order.  A percent sign in front of no
letter stands for itself. -/
inductive Prints (mem : Bytes) : List UInt8 → List UInt32 → List UInt8 → Prop
  | done {args : List UInt32} : Prints mem [] args []
  | literal {c : UInt8} {format : List UInt8} {args : List UInt32} {out : List UInt8} : c ≠ percent →
      Prints mem format args out → Prints mem (c :: format) args (c :: out)
  | conversion {c : UInt8} {word : UInt32} {chars format : List UInt8} {args : List UInt32} {out : List UInt8} :
      Shows mem c word chars → Prints mem format args out →
      Prints mem (percent :: c :: format) (word :: args) (chars ++ out)
  | percent {format : List UInt8} {args : List UInt32} {out : List UInt8} : Prints mem format args out →
      Prints mem (percent :: percent :: format) args (percent :: out)
  | other {c : UInt8} {format : List UInt8} {args : List UInt32} {out : List UInt8} : ¬ TakesArg c → c ≠ percent →
      Prints mem format args out → Prints mem (percent :: c :: format) args (percent :: c :: out)
  | atEnd {args : List UInt32} : Prints mem [percent] args [percent]

/-- The letters of a format that have an argument. -/
def needed : List UInt8 → List UInt8
  | [] => []
  | [_] => []
  | c :: d :: format =>
    if c = percent then if TakesArg d then d :: needed format else needed format else needed (d :: format)

/-- The arguments match the format: there are enough, and a string is a null pointer or has a NUL. -/
def EnoughArgs (mem : Bytes) (format : List UInt8) (args : List UInt32) : Prop :=
  List.Forall₂ (fun c word => c = 0x73 → word = 0 ∨ ∃ text, StringAt mem word.toNat text)
    (needed format) (args.take (needed format).length)

/-- The call ends, reads the format up to its NUL at most, and writes what the format stands for. -/
def PrintsWell (mem buf : Bytes) (p : Nat) (format : List UInt8) (args : List UInt32) : Prop :=
  ∃ bound, ∀ fuel ≥ bound, ∃ printed, printf mem buf fuel p args = some printed ∧
    (∀ r ∈ printed.reads, p ≤ r ∧ r ≤ p + format.length) ∧ Prints mem format args printed.written

/-- The number of percent signs at the end. -/
def trailing (format : List UInt8) : Nat := (format.reverse.takeWhile (· == percent)).length

variable {mem buf : Bytes} {c d : UInt8} {format text : List UInt8} {args : List UInt32} {word : UInt32}
  {p fuel : Nat} {printed : Printed}

/-! ## Percent signs at the end -/

theorem trailing_le (format : List UInt8) : trailing format ≤ format.length := by
  have := (List.takeWhile_prefix (· == percent) (l := format.reverse)).length_le
  rwa [List.length_reverse] at this

theorem trailing_cons (c : UInt8) (format : List UInt8) : trailing (c :: format) =
    if trailing format = format.length ∧ c = percent then format.length + 1 else trailing format := by
  rw [trailing, List.reverse_cons, List.takeWhile_append, List.length_reverse]
  by_cases all : trailing format = format.length
  · rw [if_pos (by exact all), List.length_append, List.length_reverse]
    by_cases isPercent : c = percent
    · rw [if_pos ⟨all, isPercent⟩, isPercent]
      rfl
    · rw [if_neg fun both => isPercent both.2, all, List.takeWhile_cons_of_neg (by simpa using isPercent)]
      rfl
  · rw [if_neg (by exact all), if_neg fun both => all both.1]
    rfl

/-- A character that is no percent sign does not change the end. -/
theorem trailing_literal (plain : c ≠ percent) : trailing (c :: format) = trailing format := by
  rw [trailing_cons, if_neg fun both => plain both.2]

/-- A percent sign with the character behind it does not change the parity. -/
theorem trailing_pair (d : UInt8) (format : List UInt8) :
    trailing (percent :: d :: format) % 2 = trailing format % 2 := by
  have bound := trailing_le format
  rw [trailing_cons, trailing_cons d, List.length_cons]
  by_cases all : trailing format = format.length ∧ d = percent
  · rw [if_pos all, if_pos ⟨rfl, rfl⟩, all.1]
    exact Nat.add_mod_right _ 2
  · rw [if_neg all, if_neg fun both => by omega]

/-! ## One conversion -/

theorem putNum_eq (enough : 33 ≤ fuel) (buf : Bytes) {base : Int32} (isBase : base = 10 ∨ base = 16) (sign : Bool)
    (num : UInt32) (args : List UInt32) :
    ∃ chars, putNum fuel buf base sign (num :: args) = some (chars, args) ∧
      (sign = true → IsSignedNumeral base.toInt.toNat chars num.toInt32.toInt) ∧
      (sign = false → IsNumeral base.toInt.toNat chars num.toNat) := by
  obtain ⟨chars, ran, numeral⟩ := printNum_isNumeral enough isBase buf num sign
  refine ⟨chars, ?_, numeral⟩
  rw [putNum, vaArg]
  simp only [Option.bind_eq_bind, Option.bind_some, ran]
  rfl

/-- A letter with an argument is replaced by what it shows. -/
theorem conversion_shows (buf : Bytes) (takes : TakesArg c) (args : List UInt32)
    (fits : c = 0x73 → word = 0 ∨ ∃ text, StringAt mem word.toNat text) :
    ∃ bound, ∀ fuel ≥ bound, ∃ chars,
      conversion fuel mem buf c (word :: args) = some (chars, args) ∧ Shows mem c word chars := by
  simp only [TakesArg, List.mem_cons, List.not_mem_nil, or_false] at takes
  by_cases signed : c = 0x64 ∨ c = 0x69
  · refine ⟨33, fun fuel enough => ?_⟩
    obtain ⟨chars, ran, numeral, -⟩ := putNum_eq enough buf (Or.inl rfl : (10 : Int32) = 10 ∨ _) true word args
    exact ⟨chars, by rw [conversion, if_pos signed, ran], .signed signed (numeral rfl)⟩
  obtain rfl | rfl | rfl | rfl : c = 0x75 ∨ c = 0x78 ∨ c = 0x73 ∨ c = 0x63 := by
    rcases takes with isD | isI | others
    · exact absurd (Or.inl isD) signed
    · exact absurd (Or.inr isI) signed
    · exact others
  · refine ⟨33, fun fuel enough => ?_⟩
    obtain ⟨chars, ran, -, numeral⟩ := putNum_eq enough buf (Or.inl rfl : (10 : Int32) = 10 ∨ _) false word args
    exact ⟨chars, ran, .unsigned (numeral rfl)⟩
  · refine ⟨33, fun fuel enough => ?_⟩
    obtain ⟨chars, ran, -, numeral⟩ := putNum_eq enough buf (Or.inr rfl : (16 : Int32) = 10 ∨ _) false word args
    exact ⟨chars, ran, .hex (numeral rfl)⟩
  · by_cases null : word = 0
    · subst null
      exact ⟨0, fun fuel _ => ⟨nullText, rfl, .null⟩⟩
    · obtain ⟨text, string⟩ := (fits rfl).resolve_left null
      refine ⟨text.length + 1, fun fuel enough => ⟨text, ?_, .string null string⟩⟩
      change (if word ≠ 0 then (strlen mem fuel word.toNat).bind fun len =>
        some ((List.range' word.toNat len).map mem, args) else some (nullText, args)) = _
      rw [if_pos null, strlen_eq string enough, Option.bind_some, (stringAt_iff.mp string).1]
  · exact ⟨0, fun fuel _ => ⟨_, rfl, .char word⟩⟩

theorem conversion_percent (fuel : Nat) (args : List UInt32) :
    conversion fuel mem buf percent args = some ([percent], args) := rfl

theorem conversion_other (takesNone : ¬ TakesArg c) (plain : c ≠ percent) (fuel : Nat) (args : List UInt32) :
    conversion fuel mem buf c args = some ([percent, c], args) := by
  simp only [TakesArg, List.mem_cons, List.not_mem_nil, or_false, not_or] at takesNone
  simp [conversion, takesNone, plain]

/-! ## One round of the loop -/

theorem printf_nul (nul : mem p = 0) (fuel : Nat) (args : List UInt32) :
    printf mem buf (fuel + 1) p args = some ⟨[], 0, [p]⟩ := by
  rw [printf, if_pos nul]

theorem printf_literal (notNul : mem p ≠ 0) (plain : mem p ≠ percent) (fuel : Nat) (args : List UInt32) :
    printf mem buf (fuel + 1) p args =
      (printf mem buf fuel (p + 1) args).map fun rest => ⟨mem p :: rest.written, rest.count + 1, p :: rest.reads⟩ := by
  rw [printf, if_neg notNul, if_neg plain]
  cases printf mem buf fuel (p + 1) args <;> rfl

theorem printf_percent (isPercent : mem p = percent) (fuel : Nat) (args : List UInt32) :
    printf mem buf (fuel + 1) p args =
      (conversion fuel mem buf (mem (p + 1)) args).bind fun result =>
        (printf mem buf fuel (p + 2) result.2).map fun rest =>
          ⟨result.1 ++ rest.written, rest.count + 1, p :: (p + 1) :: rest.reads⟩ := by
  have notNul : mem p ≠ 0 := by
    rw [isPercent]
    decide
  rw [printf, if_neg notNul, if_pos isPercent]
  cases conversion fuel mem buf (mem (p + 1)) args with
  | none => rfl
  | some result =>
    obtain ⟨chars, args'⟩ := result
    cases printed : printf mem buf fuel (p + 2) args' <;> simp [printed]

theorem PrintsWell.literal (first : mem p = c) (notNul : c ≠ 0) (plain : c ≠ percent)
    (rest : PrintsWell mem buf (p + 1) format args) : PrintsWell mem buf p (c :: format) args := by
  obtain ⟨bound, rest⟩ := rest
  refine ⟨bound + 1, fun fuel enough => ?_⟩
  obtain ⟨fuel, rfl⟩ : ∃ k, fuel = k + 1 := ⟨fuel - 1, by omega⟩
  obtain ⟨printed, ran, reads, prints⟩ := rest fuel (by omega)
  refine ⟨_, by rw [printf_literal (first ▸ notNul) (first ▸ plain), ran, Option.map_some], fun r read => ?_, ?_⟩
  · rw [List.length_cons]
    rcases List.mem_cons.mp read with rfl | later
    · omega
    · have := reads r later
      omega
  · rw [first]
    exact .literal plain prints

/-- A percent sign with the character behind it, when that is not the NUL. -/
theorem PrintsWell.pair {args' : List UInt32} (first : mem p = percent) (second : mem (p + 1) = d)
    (converts : ∃ bound, ∀ fuel ≥ bound, ∃ chars, conversion fuel mem buf d args = some (chars, args') ∧
      ∀ out, Prints mem format args' out → Prints mem (Lib.percent :: d :: format) args (chars ++ out))
    (rest : PrintsWell mem buf (p + 2) format args') : PrintsWell mem buf p (Lib.percent :: d :: format) args := by
  obtain ⟨bound, rest⟩ := rest
  obtain ⟨bound', converts⟩ := converts
  refine ⟨max bound bound' + 1, fun fuel enough => ?_⟩
  obtain ⟨fuel, rfl⟩ : ∃ k, fuel = k + 1 := ⟨fuel - 1, by omega⟩
  obtain ⟨printed, ran, reads, prints⟩ := rest fuel (by omega)
  obtain ⟨chars, converted, shows⟩ := converts fuel (by omega)
  refine ⟨_, by rw [printf_percent first, second, converted, Option.bind_some, ran, Option.map_some],
    fun r read => ?_, shows _ prints⟩
  rw [List.length_cons, List.length_cons]
  rcases List.mem_cons.mp read with rfl | read
  · omega
  · rcases List.mem_cons.mp read with rfl | later
    · omega
    · have := reads r later
      omega

/-! ## The whole format -/

theorem reads_start (ran : printf mem buf fuel p args = some printed) : p ∈ printed.reads := by
  cases fuel with
  | zero => cases ran
  | succ fuel =>
    by_cases nul : mem p = 0
    · cases (printf_nul nul fuel args).symm.trans ran
      exact List.mem_singleton_self p
    · by_cases isPercent : mem p = percent
      · rw [printf_percent isPercent] at ran
        obtain ⟨result, -, later⟩ := Option.bind_eq_some_iff.mp ran
        obtain ⟨rest, -, rfl⟩ := Option.map_eq_some_iff.mp later
        exact List.mem_cons_self
      · rw [printf_literal nul isPercent] at ran
        obtain ⟨rest, -, rfl⟩ := Option.map_eq_some_iff.mp ran
        exact List.mem_cons_self

theorem mem_reads_pair {r : Nat} (isPercent : mem p = percent)
    (later : ∀ fuel args printed, printf mem buf fuel (p + 2) args = some printed → r ∈ printed.reads)
    (ran : printf mem buf fuel p args = some printed) : r ∈ printed.reads := by
  cases fuel with
  | zero => cases ran
  | succ fuel =>
    rw [printf_percent isPercent] at ran
    obtain ⟨result, -, rest⟩ := Option.bind_eq_some_iff.mp ran
    obtain ⟨rest, behind, rfl⟩ := Option.map_eq_some_iff.mp rest
    exact List.mem_cons_of_mem _ (List.mem_cons_of_mem _ (later _ _ _ behind))

/-- A percent sign at the end is stepped over together with the NUL. -/
theorem reads_past (string : StringAt mem p format) (odd : trailing format % 2 = 1)
    (ran : printf mem buf fuel p args = some printed) : p + format.length + 1 ∈ printed.reads := by
  induction format using needed.induct generalizing p args fuel printed with
  | case1 => cases odd
  | case2 c =>
    have isPercent : c = percent := by
      by_contra plain
      rw [trailing_literal plain] at odd
      cases odd
    subst isPercent
    exact mem_reads_pair string.1 (fun _ _ _ => reads_start) ran
  | case3 d format _ ih | case4 d format _ ih =>
    -- a percent sign and its letter, with or without an argument
    rw [trailing_pair] at odd
    refine mem_reads_pair string.1 (fun _ _ _ behind => ?_) ran
    have size : p + (percent :: d :: format).length + 1 = p + 1 + 1 + format.length + 1 := by
      rw [List.length_cons, List.length_cons]
      omega
    rw [size]
    exact ih string.2.2.2.2 odd behind
  | case5 c d format plain ih =>
    cases fuel with
    | zero => cases ran
    | succ fuel =>
      rw [printf_literal (string.1 ▸ string.2.1) (string.1 ▸ plain)] at ran
      obtain ⟨rest, behind, rfl⟩ := Option.map_eq_some_iff.mp ran
      rw [trailing_literal plain] at odd
      have later := ih string.2.2 odd behind
      rw [Nat.add_assoc p, Nat.add_comm 1] at later
      exact List.mem_cons_of_mem _ later

theorem needed_literal (plain : c ≠ percent) : needed (c :: format) = needed format := by
  cases format with
  | nil => rfl
  | cons d format => rw [needed, if_neg plain]

theorem EnoughArgs.literal (enough : EnoughArgs mem (c :: format) args) (plain : c ≠ percent) :
    EnoughArgs mem format args := by
  rwa [EnoughArgs, needed_literal plain] at enough

theorem EnoughArgs.none (enough : EnoughArgs mem (percent :: d :: format) args) (takesNone : ¬ TakesArg d) :
    EnoughArgs mem format args := by
  rwa [EnoughArgs, needed, if_pos rfl, if_neg takesNone] at enough

theorem EnoughArgs.some (enough : EnoughArgs mem (percent :: d :: format) args) (takes : TakesArg d) :
    ∃ word args', args = word :: args' ∧
      (d = 0x73 → word = 0 ∨ ∃ text, StringAt mem word.toNat text) ∧ EnoughArgs mem format args' := by
  rw [EnoughArgs, needed, if_pos rfl, if_pos takes, List.length_cons] at enough
  cases args with
  | nil => cases enough
  | cons word args' =>
    rw [List.take_succ_cons, List.forall₂_cons] at enough
    exact ⟨word, args', rfl, enough.1, enough.2⟩

theorem printsWell_nil (nul : mem p = 0) (args : List UInt32) : PrintsWell mem buf p [] args := by
  refine ⟨1, fun fuel enough => ?_⟩
  obtain ⟨fuel, rfl⟩ : ∃ k, fuel = k + 1 := ⟨fuel - 1, by omega⟩
  exact ⟨_, printf_nul nul fuel args, fun r read => by rw [List.mem_singleton.mp read]; simp, .done⟩

/-- The induction is on the format as the scanner reads it: two characters from a percent sign on. -/
theorem printsWell_of_even (string : StringAt mem p format) (enough : EnoughArgs mem format args)
    (even : trailing format % 2 = 0) : PrintsWell mem buf p format args := by
  induction format using needed.induct generalizing p args with
  | case1 => exact printsWell_nil string args
  | case2 c =>
    have plain : c ≠ percent := by
      rintro rfl
      cases even
    exact .literal string.1 string.2.1 plain (printsWell_nil string.2.2 args)
  | case3 d format takes ih =>
    rw [trailing_pair] at even
    obtain ⟨word, args', rfl, fits, enough'⟩ := enough.some takes
    refine .pair string.1 string.2.2.1 ?_ (ih string.2.2.2.2 enough' even)
    obtain ⟨bound, converts⟩ := conversion_shows buf takes args' fits
    refine ⟨bound, fun fuel large => ?_⟩
    obtain ⟨chars, ran, shows⟩ := converts fuel large
    exact ⟨chars, ran, fun out => .conversion shows⟩
  | case4 d format takesNone ih =>
    rw [trailing_pair] at even
    refine .pair string.1 string.2.2.1 ⟨0, fun fuel _ => ?_⟩ (ih string.2.2.2.2 (enough.none takesNone) even)
    by_cases isPercent : d = percent
    · subst isPercent
      exact ⟨[percent], conversion_percent fuel args, fun out => .percent⟩
    · exact ⟨[percent, d], conversion_other takesNone isPercent fuel args, fun out => .other takesNone isPercent⟩
  | case5 c d format plain ih =>
    rw [trailing_literal plain] at even
    exact .literal string.1 string.2.1 plain (ih string.2.2 (enough.literal plain) even)

/-- **When `printf` reads only its format.**  The percent signs at the end must come in pairs. -/
theorem printf_iff (string : StringAt mem p format) (enough : EnoughArgs mem format args) (buf : Bytes) :
    PrintsWell mem buf p format args ↔ trailing format % 2 = 0 := by
  constructor
  · rintro ⟨bound, returns⟩
    obtain ⟨printed, ran, reads, -⟩ := returns bound (le_refl bound)
    by_contra odd
    have past := reads _ (reads_past string (Nat.mod_two_ne_zero.mp odd) ran)
    omega
  · exact printsWell_of_even string enough

/-- The format `"%d%%"` with the argument 7. -/
theorem printf_iff_seven :
    PrintsWell (fun k => [0x25, 0x64, 0x25, 0x25].getD k 0) (fun _ => 0) 0 [0x25, 0x64, 0x25, 0x25] [7] ↔
      trailing [0x25, 0x64, 0x25, 0x25] % 2 = 0 := by
  refine printf_iff (by decide) ?_ _
  refine List.Forall₂.cons (fun isString => ?_) List.Forall₂.nil
  exact absurd isString (by decide)

/-- The format `"%"`: whatever stands behind its NUL is read. -/
theorem printf_steps_over_nul : ¬ PrintsWell (fun k => [0x25].getD k 0) (fun _ => 0) 0 [0x25] [] := by
  rintro ⟨bound, returns⟩
  obtain ⟨printed, ran, reads, -⟩ := returns bound (le_refl bound)
  have past := reads _ (reads_past (show StringAt _ 0 [0x25] by decide) (by decide) ran)
  exact absurd past (by decide)

end QuantumKernel.Lib
