import Mathlib.Data.List.TakeWhile
import Mathlib.Tactic

/-! # The words of a text

A list is read as words with separators between them.  A word is a maximal run of elements that are
not separators, given by the indices of its first element and of the element behind its last one.
`runs` finds the words from left to right, and `mem_runs` says that it finds all of them.
-/

namespace Runs

variable {α : Type}

/-- The elements from `a` up to `b` are no separators, and the run cannot be extended. -/
structure MaximalRun (sep : α → Bool) (text : List α) (a b : Nat) : Prop where
  nonempty : a < b
  inside : ∀ k, a ≤ k → k < b → ∃ c, text[k]? = some c ∧ sep c = false
  before : a = 0 ∨ ∃ c, text[a - 1]? = some c ∧ sep c = true
  after : ∀ c, text[b]? = some c → sep c = true

/-- The words of a list whose first element has the index `i`. -/
def runs (sep : α → Bool) (i : Nat) : List α → List (Nat × Nat)
  | [] => []
  | c :: rest =>
    if sep c then runs sep (i + 1) rest
    else (i, i + (rest.takeWhile fun d => !sep d).length + 1) ::
      runs sep (i + (rest.takeWhile fun d => !sep d).length + 1) (rest.dropWhile fun d => !sep d)
termination_by text => text.length
decreasing_by
  · exact Nat.lt_succ_self _
  · exact Nat.lt_succ_of_le (List.length_dropWhile_le _ _)

variable {sep : α → Bool} {text rest : List α} {i a b k : Nat} {c : α}

/-- A scan can start here: no word goes over the index `i`. -/
def Boundary (sep : α → Bool) (text : List α) (i : Nat) : Prop :=
  i = 0 ∨ (∃ c, text[i - 1]? = some c ∧ sep c = true) ∨ ∀ c, text[i]? = some c → sep c = true

@[simp] theorem runs_nil (sep : α → Bool) (i : Nat) : runs sep i [] = [] := by rw [runs]

theorem runs_sep (isSep : sep c = true) : runs sep i (c :: rest) = runs sep (i + 1) rest := by
  rw [runs, if_pos isSep]

theorem runs_word (notSep : sep c = false) : runs sep i (c :: rest) =
    (i, i + (rest.takeWhile fun d => !sep d).length + 1) ::
      runs sep (i + (rest.takeWhile fun d => !sep d).length + 1) (rest.dropWhile fun d => !sep d) := by
  rw [runs, if_neg (by simp [notSep])]

/-- Separators in front of the first word are skipped. -/
theorem runs_dropWhile (sep : α → Bool) (i : Nat) (text : List α) :
    runs sep i text = runs sep (i + (text.takeWhile sep).length) (text.dropWhile sep) := by
  induction text generalizing i with
  | nil => simp
  | cons c rest ih =>
    by_cases isSep : sep c = true
    · rw [runs_sep isSep, ih, List.takeWhile_cons_of_pos isSep, List.dropWhile_cons_of_pos isSep,
        List.length_cons, Nat.add_right_comm, Nat.add_assoc]
    · rw [List.takeWhile_cons_of_neg isSep, List.dropWhile_cons_of_neg isSep, List.length_nil, Nat.add_zero]

/-- The first word ends where the first separator is. -/
theorem takeWhile_spec (p : α → Bool) (text : List α) :
    (∀ k < (text.takeWhile p).length, ∃ c, text[k]? = some c ∧ p c = true) ∧
      ∀ c, text[(text.takeWhile p).length]? = some c → p c = false := by
  induction text with
  | nil => simp
  | cons d rest ih =>
    by_cases passes : p d = true
    · rw [List.takeWhile_cons_of_pos passes, List.length_cons]
      refine ⟨fun k bound => ?_, by simpa using ih.2⟩
      cases k with
      | zero => exact ⟨d, rfl, passes⟩
      | succ k => simpa using ih.1 k (by omega)
    · rw [List.takeWhile_cons_of_neg passes]
      exact ⟨by simp, by simpa using passes⟩

theorem dropWhile_eq_drop (p : α → Bool) (text : List α) :
    text.dropWhile p = text.drop (text.takeWhile p).length := by
  have split := List.takeWhile_append_dropWhile (p := p) (l := text)
  calc text.dropWhile p = (text.takeWhile p ++ text.dropWhile p).drop (text.takeWhile p).length :=
        List.drop_left.symm
    _ = text.drop (text.takeWhile p).length := by rw [split]

/-- A word is determined by where it starts. -/
theorem MaximalRun.right_unique {b' : Nat} (run : MaximalRun sep text a b)
    (run' : MaximalRun sep text a b') : b = b' := by
  have le {b b' : Nat} (run : MaximalRun sep text a b) (run' : MaximalRun sep text a b') : b' ≤ b := by
    by_contra longer
    obtain ⟨c, found, notSep⟩ := run'.inside b run.nonempty.le (by omega)
    rw [run.after c found] at notSep
    cases notSep
  exact le_antisymm (le run' run) (le run run')

/-- **The scan finds exactly the maximal runs.** -/
theorem mem_runs_from (suffix : rest = text.drop i) (boundary : Boundary sep text i) :
    (a, b) ∈ runs sep i rest ↔ i ≤ a ∧ MaximalRun sep text a b := by
  have cell (k : Nat) : rest[k]? = text[i + k]? := by rw [suffix, List.getElem?_drop]
  fun_induction runs sep i rest with
  | case1 i =>
    refine ⟨fun none => absurd none List.not_mem_nil, fun ⟨low, run⟩ => ?_⟩
    obtain ⟨c, found, -⟩ := run.inside a (le_refl a) run.nonempty
    have past := cell (a - i)
    rw [Nat.add_sub_cancel' low, found] at past
    cases past
  | case2 i c rest isSep ih =>
    have here : text[i]? = some c := by simpa using (cell 0).symm
    have suffix' : rest = text.drop (i + 1) := by
      rw [← List.drop_drop, ← suffix]
      rfl
    have later := ih suffix' (Or.inr (Or.inl ⟨c, by simpa using here, isSep⟩)) fun k => by
      rw [suffix', List.getElem?_drop]
    refine later.trans (and_congr_left fun run => ⟨fun low => by omega, fun low => ?_⟩)
    by_contra first
    obtain rfl : a = i := by omega
    obtain ⟨d, found, notSep⟩ := run.inside a (le_refl a) run.nonempty
    rw [here] at found
    cases found
    rw [isSep] at notSep
    cases notSep
  | case3 i c rest notSep ih =>
    obtain ⟨word, stop⟩ := takeWhile_spec (fun d => !sep d) rest
    generalize size : (rest.takeWhile fun d => !sep d).length = n at ih word stop ⊢
    -- the word consists of `c` and the `n` elements after it
    have first : text[i]? = some c := by simpa using (cell 0).symm
    have next (k : Nat) : text[i + 1 + k]? = rest[k]? := by
      rw [Nat.add_assoc, Nat.add_comm 1, ← cell (k + 1)]
      rfl
    have chars (k : Nat) (low : i ≤ k) (high : k < i + n + 1) : ∃ d, text[k]? = some d ∧ sep d = false := by
      rcases Nat.eq_or_lt_of_le low with rfl | behind
      · exact ⟨c, first, by simpa using notSep⟩
      · obtain ⟨d, found, plain⟩ := word (k - (i + 1)) (by omega)
        refine ⟨d, ?_, by simpa using plain⟩
        rw [← found, ← next]
        congr 1
        omega
    have ends (d : α) (found : text[i + n + 1]? = some d) : sep d = true := by
      rw [show i + n + 1 = i + 1 + n by omega, next] at found
      simpa using stop d found
    have tail : (rest.dropWhile fun d => !sep d) = text.drop (i + n + 1) := by
      have suffix' : rest = text.drop (i + 1) := by
        rw [← List.drop_drop, ← suffix]
        rfl
      rw [show i + n + 1 = i + 1 + n by omega, ← List.drop_drop, ← suffix', ← size]
      exact dropWhile_eq_drop _ rest
    have later := ih tail (Or.inr (Or.inr ends)) fun k => by rw [tail, List.getElem?_drop]
    rw [List.mem_cons, Prod.mk.injEq]
    refine (or_congr_right later).trans ⟨?_, fun ⟨low, run⟩ => ?_⟩
    · rintro (⟨rfl, rfl⟩ | ⟨low, run⟩)
      · refine ⟨le_refl a, by omega, chars, ?_, ends⟩
        rcases boundary with zero | before | behind
        · exact Or.inl zero
        · exact Or.inr before
        · simp [behind c first] at notSep
      · exact ⟨by omega, run⟩
    · rcases Nat.eq_or_lt_of_le low with rfl | behind
      · have whole : MaximalRun sep text i (i + n + 1) := ⟨by omega, chars, run.before, ends⟩
        exact Or.inl ⟨rfl, run.right_unique whole⟩
      · refine Or.inr ⟨?_, run⟩
        by_contra within
        -- an element of the word at `i` stands right before `a`
        obtain ⟨d, found, plain⟩ := chars (a - 1) (by omega) (by omega)
        obtain zero | ⟨e, found', isSep⟩ := run.before
        · omega
        · rw [found'] at found
          cases found
          rw [isSep] at plain
          cases plain

/-- The words found in a whole text are its maximal runs. -/
theorem mem_runs : (a, b) ∈ runs sep 0 text ↔ MaximalRun sep text a b :=
  (mem_runs_from List.drop_zero.symm (Or.inl rfl)).trans (and_iff_right (Nat.zero_le a))

/-- A text without a word consists of separators. -/
theorem runs_eq_nil_iff : runs sep i text = [] ↔ ∀ c ∈ text, sep c = true := by
  induction text generalizing i with
  | nil => simp
  | cons c rest ih =>
    by_cases isSep : sep c = true
    · rw [runs_sep isSep, ih, List.forall_mem_cons, and_iff_right isSep]
    · rw [runs_word (eq_false_of_ne_true isSep), List.forall_mem_cons]
      exact iff_of_false (List.cons_ne_nil _ _) fun all => isSep all.1

/-! ## The order of the words -/

theorem mem_runs_bounds {word : Nat × Nat} (found : word ∈ runs sep i text) :
    i ≤ word.1 ∧ word.1 < word.2 ∧ word.2 ≤ i + text.length := by
  fun_induction runs sep i text with
  | case1 i => cases found
  | case2 i c rest isSep ih =>
    obtain ⟨low, nonempty, high⟩ := ih found
    rw [List.length_cons]
    omega
  | case3 i c rest notSep ih =>
    have split := congrArg List.length (List.takeWhile_append_dropWhile (p := fun d => !sep d) (l := rest))
    rw [List.length_append] at split
    rw [List.length_cons]
    cases found with
    | head => exact ⟨le_refl i, by omega, by omega⟩
    | tail _ found =>
      obtain ⟨low, nonempty, high⟩ := ih found
      omega

/-- A word that follows another is behind the separator that ends it. -/
theorem runs_pairwise (sep : α → Bool) (i : Nat) (text : List α) :
    (runs sep i text).Pairwise fun v w => v.2 < w.1 := by
  fun_induction runs sep i text with
  | case1 i => exact List.Pairwise.nil
  | case2 i c rest isSep ih => exact ih
  | case3 i c rest notSep ih =>
    refine List.pairwise_cons.mpr ⟨fun word found => ?_, ih⟩
    cases behind : rest.dropWhile fun d => !sep d with
    | nil =>
      rw [behind, runs_nil] at found
      cases found
    | cons d tail =>
      have isSep : sep d = true := by simpa [behind] using List.head?_dropWhile_not (fun d => !sep d) rest
      rw [behind, runs_sep isSep] at found
      exact (mem_runs_bounds found).1

/-- No word ends inside another one. -/
theorem ends_outside {words : List (Nat × Nat)} (nonempty : ∀ word ∈ words, word.1 < word.2)
    (apart : words.Pairwise fun v w => v.2 < w.1) {v w : Nat × Nat} (first : v ∈ words) (second : w ∈ words) :
    w.2 < v.1 ∨ v.2 ≤ w.2 := by
  refine List.Pairwise.forall_of_forall_of_flip (R := fun v w => w.2 < v.1 ∨ v.2 ≤ w.2)
    (fun word _ => Or.inr (le_refl word.2)) ?_ ?_ first second
  · refine apart.imp_of_mem fun _ found behind => Or.inr ?_
    have := nonempty _ found
    omega
  · exact apart.imp fun behind => Or.inl behind

end Runs
