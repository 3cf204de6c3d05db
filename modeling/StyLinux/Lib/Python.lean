import Mathlib.Data.List.DropRight
import Mathlib.Data.List.TakeWhile
import Mathlib.Tactic
import StyLinux.Lib.Numeral

/-!
# Strings of Python

A string is a list of characters. What differs between interpreters is a parameter: which digits
beyond ASCII count as decimal, and the bound on the digits of a decimal numeral.
-/

namespace StyLinux.Lib.Python

inductive Exception
  | ValueError
  | IndexError
  | AssertionError
  deriving DecidableEq, Repr

structure Interpreter where
  /-- The values of the decimal digits beyond ASCII. -/
  decimal : Char → Option (Fin 10)
  /-- The bound on the digits of a decimal numeral that is converted, 0 if there is none. -/
  maxStrDigits : ℕ

/-- The default bound on the digits, which are all ASCII. -/
def ascii : Interpreter := ⟨fun _ => none, 4300⟩

/-! ### Lines and words -/

/-- The lines of a text file behind the beginning `line` of one. Each of the line ends `\n`, `\r`
and `\r\n` is read as `\n`. -/
def linesFrom (line : List Char) : List Char → List (List Char)
  | [] => if line = [] then [] else [line]
  | '\r' :: '\n' :: text => (line ++ ['\n']) :: linesFrom [] text
  | c :: text =>
    if c = '\n' ∨ c = '\r' then (line ++ ['\n']) :: linesFrom [] text
    else linesFrom (line ++ [c]) text

def lines (text : List Char) : List (List Char) := linesFrom [] text

/-- `str.isspace` of the character. -/
def isspace (c : Char) : Bool :=
  let n := c.toNat
  (9 ≤ n ∧ n ≤ 13) ∨ (28 ≤ n ∧ n ≤ 32) ∨ n = 0x85 ∨ n = 0xa0 ∨ n = 0x1680 ∨
    (0x2000 ≤ n ∧ n ≤ 0x200a) ∨ n = 0x2028 ∨ n = 0x2029 ∨ n = 0x202f ∨ n = 0x205f ∨ n = 0x3000

/-- `str.strip()` -/
def strip (text : List Char) : List Char := (text.dropWhile isspace).rdropWhile isspace

/-- The words of the text behind the beginning `word` of one. -/
def splitFrom (word : List Char) : List Char → List (List Char)
  | [] => if word = [] then [] else [word]
  | c :: text =>
    if isspace c then
      if word = [] then splitFrom [] text else word :: splitFrom [] text
    else splitFrom (word ++ [c]) text

/-- `str.split()` -/
def split (text : List Char) : List (List Char) := splitFrom [] text

section Words

variable {word text text' : List Char} {c : Char}

lemma splitFrom_space_cons (hc : isspace c) :
    splitFrom [] (c :: text) = splitFrom [] text := by
  rw [splitFrom, if_pos hc, if_pos rfl]

lemma splitFrom_append_space (hc : isspace c) :
    splitFrom word (text ++ [c]) = splitFrom word text := by
  induction text generalizing word with
  | nil => simp [splitFrom, hc]
  | cons d text ih =>
    rw [List.cons_append, splitFrom, splitFrom]
    split_ifs
    · exact ih
    · rw [ih]
    · exact ih

/-- Spaces at the beginning separate no words. -/
lemma split_spaces_append {spaces : List Char} (hspaces : ∀ c ∈ spaces, isspace c) :
    split (spaces ++ text) = split text := by
  induction spaces with
  | nil => rfl
  | cons c spaces ih =>
    rw [split, List.cons_append, splitFrom_space_cons (hspaces c (by simp))]
    exact ih fun d hd => hspaces d (by simp [hd])

/-- Nor do spaces at the end. -/
lemma split_append_spaces {spaces : List Char} (hspaces : ∀ c ∈ spaces, isspace c) :
    split (text ++ spaces) = split text := by
  induction spaces using List.reverseRecOn with
  | nil => rw [List.append_nil]
  | append_singleton spaces c ih =>
    rw [split, ← List.append_assoc, splitFrom_append_space (hspaces c (by simp))]
    exact ih fun d hd => hspaces d (by simp [hd])

lemma split_strip : split (strip text) = split text := by
  have hfront : split (text.dropWhile isspace) = split text := by
    conv_rhs => rw [← List.takeWhile_append_dropWhile (p := isspace) (l := text)]
    exact (split_spaces_append fun c hc => List.mem_takeWhile_imp hc).symm
  rw [← hfront, strip]
  set text := text.dropWhile isspace
  conv_rhs => rw [← List.rdropWhile_append_rtakeWhile (p := isspace) (l := text)]
  exact (split_append_spaces fun c hc => List.mem_rtakeWhile_imp hc).symm

lemma splitFrom_word (hword : ∀ c ∈ text, ¬isspace c) :
    splitFrom word (text ++ text') = splitFrom (word ++ text) text' := by
  induction text generalizing word with
  | nil => simp
  | cons c text ih =>
    rw [List.cons_append, splitFrom, if_neg (hword c (by simp)),
      ih fun d hd => hword d (by simp [hd])]
    simp

/-- The first word ends at the first space. -/
lemma split_word_append {spaces : List Char} (text : List Char) (hne : word ≠ [])
    (hword : ∀ c ∈ word, ¬isspace c) (hsep : spaces ≠ []) (hspaces : ∀ c ∈ spaces, isspace c) :
    split (word ++ (spaces ++ text)) = word :: split text := by
  obtain ⟨c, spaces, rfl⟩ := List.exists_cons_of_ne_nil hsep
  rw [split, splitFrom_word hword, List.nil_append, List.cons_append, splitFrom,
    if_pos (hspaces c (by simp)), if_neg hne]
  congr 1
  exact split_spaces_append fun d hd => hspaces d (by simp [hd])

lemma split_word (hne : word ≠ []) (hword : ∀ c ∈ word, ¬isspace c) : split word = [word] := by
  have h : splitFrom [] (word ++ []) = splitFrom ([] ++ word) [] := splitFrom_word hword
  rw [List.append_nil, List.nil_append] at h
  rw [split, h, splitFrom, if_neg hne]

end Words

/-! ### Integers -/

/-- The value of a digit or letter. -/
def digitValue (c : Char) : Option ℕ :=
  let n := c.toNat
  if 48 ≤ n ∧ n ≤ 57 then some (n - 48)
  else if 65 ≤ n ∧ n ≤ 90 then some (n - 55)
  else if 97 ≤ n ∧ n ≤ 122 then some (n - 87)
  else none

/-- The value of a digit of the base. -/
def digit (base : ℕ) (c : Char) : Option ℕ := (digitValue c).filter (· < base)

/-- The digits of a numeral, which single underscores may separate. -/
def digits (base : ℕ) : List Char → Option (List ℕ)
  | [] => none
  | [c] => (digit base c).map ([·])
  | c :: '_' :: text => do
    let d ← digit base c
    let ds ← digits base text
    some (d :: ds)
  | c :: text => do
    let d ← digit base c
    let ds ← digits base text
    some (d :: ds)

/-- The text behind the prefix `0x` of a hexadecimal numeral, or behind `0x_`. -/
def dropPrefix : List Char → List Char
  | '0' :: x :: '_' :: text => if x = 'x' ∨ x = 'X' then text else '0' :: x :: '_' :: text
  | '0' :: x :: text => if x = 'x' ∨ x = 'X' then text else '0' :: x :: text
  | text => text

section Integers

variable (interpreter : Interpreter)

/-- The value of a numeral without a sign. -/
def magnitude (base : ℕ) (text : List Char) : Except Exception ℕ :=
  match digits base (if base = 16 then dropPrefix text else text) with
  | none => .error .ValueError
  | some ds =>
    if base = 10 ∧ interpreter.maxStrDigits ≠ 0 ∧ interpreter.maxStrDigits < ds.length then
      .error .ValueError
    else .ok (valueFrom base 0 ds)

/-- The character with the decimal digits beyond ASCII replaced, and the others as well. -/
def transform (c : Char) : Char :=
  if c.toNat < 127 then c
  else
    match interpreter.decimal c with
    | some d => Char.ofNat (48 + d)
    | none => '?'

/-- The spaces that `int` ignores at both ends. -/
def isIntSpace (c : Char) : Bool := isspace c ∧ ¬(28 ≤ c.toNat ∧ c.toNat ≤ 31)

/-- `int(text, base)` -/
def int (base : ℕ) (text : List Char) : Except Exception ℤ :=
  let word := (text.dropWhile isIntSpace).rdropWhile isIntSpace
  match word.map (transform interpreter) with
  | '-' :: text => (magnitude interpreter base text).map fun n => -n
  | '+' :: text => (magnitude interpreter base text).map fun n => n
  | text => (magnitude interpreter base text).map fun n => n

end Integers

section Numerals

variable {base : ℕ} {c : Char} {word : List Char} {value : Char → ℕ}

lemma toNat_of_digit {v : ℕ} (hc : digit base c = some v) : 48 ≤ c.toNat ∧ c.toNat < 127 := by
  obtain ⟨hvalue, -⟩ := Option.filter_eq_some_iff.mp hc
  unfold digitValue at hvalue
  dsimp only at hvalue
  split_ifs at hvalue <;> omega

/-- A text of digits only. -/
lemma digits_of_forall (hne : word ≠ []) (hword : ∀ c ∈ word, digit base c = some (value c)) :
    digits base word = some (word.map value) := by
  induction word using digits.induct with
  | case1 => exact absurd rfl hne
  | case2 c => simp [digits, hword c (by simp)]
  | case3 c text ih =>
    have hunderscore := hword '_' (by simp)
    simp [digit, digitValue] at hunderscore
  | case4 c text hcons hunderscore ih =>
    have hrest := ih hcons fun d hd => hword d (by simp [hd])
    rw [digits, hword c (by simp), hrest]
    · rfl
    · exact hcons
    · exact hunderscore

lemma dropPrefix_of_forall (hbase : base ≤ 16)
    (hword : ∀ c ∈ word, digit base c = some (value c)) : dropPrefix word = word := by
  have hx : ∀ c ∈ word, ¬(c = 'x' ∨ c = 'X') := by
    rintro c hc (rfl | rfl)
    all_goals
      have hdigit := hword _ hc
      simp [digit, digitValue] at hdigit
      omega
  unfold dropPrefix
  split
  · exact if_neg (hx _ (by simp))
  · exact if_neg (hx _ (by simp))
  · rfl

/-- A numeral of digits only, with its value in positional notation. -/
lemma int_of_forall (interpreter : Interpreter) (hbase : base ≤ 16) (hne : word ≠ [])
    (hword : ∀ c ∈ word, digit base c = some (value c)) :
    int interpreter base word =
      if base = 10 ∧ interpreter.maxStrDigits ≠ 0 ∧ interpreter.maxStrDigits < word.length then
        .error .ValueError
      else .ok ((Nat.ofDigits base (word.map value).reverse : ℕ) : ℤ) := by
  have hspace : ∀ c ∈ word, ¬isIntSpace c := by
    intro c hc
    have hnat := toNat_of_digit (hword c hc)
    simp only [isIntSpace, isspace, Bool.decide_and, Bool.decide_or, Bool.and_eq_true,
      Bool.or_eq_true, decide_eq_true_eq]
    omega
  have hstrip : (word.dropWhile isIntSpace).rdropWhile isIntSpace = word := by
    have hfront : word.dropWhile isIntSpace = word :=
      List.dropWhile_eq_self_iff.mpr fun h => hspace _ (List.getElem_mem h)
    rw [hfront]
    exact List.rdropWhile_eq_self_iff.mpr fun h => hspace _ (List.getLast_mem h)
  have htransform : word.map (transform interpreter) = word := by
    calc word.map (transform interpreter)
        = word.map id := List.map_congr_left fun c hc => if_pos (toNat_of_digit (hword c hc)).2
      _ = word := List.map_id word
  have hmagnitude : magnitude interpreter base word =
      if base = 10 ∧ interpreter.maxStrDigits ≠ 0 ∧ interpreter.maxStrDigits < word.length then
        .error .ValueError
      else .ok (Nat.ofDigits base (word.map value).reverse) := by
    rw [magnitude, dropPrefix_of_forall hbase hword, ite_self, digits_of_forall hne hword,
      ← valueFrom_zero]
    simp only [List.length_map]
  have hsign : ∀ c ∈ word, c ≠ '-' ∧ c ≠ '+' := by
    intro c hc
    constructor
    all_goals
      rintro rfl
      have hdigit := hword _ hc
      simp [digit, digitValue] at hdigit
  unfold int
  dsimp only
  rw [hstrip, htransform]
  split
  · exact absurd rfl (hsign '-' (by simp)).1
  · exact absurd rfl (hsign '+' (by simp)).2
  · rw [hmagnitude]
    split_ifs <;> rfl

end Numerals

/-! ### Lists -/

/-- `list.pop(i)` -/
def pop {α : Type*} (as : List α) (i : ℤ) : Except Exception (α × List α) :=
  let j := if i < 0 then i + as.length else i
  if 0 ≤ j then
    match as[j.toNat]? with
    | some a => .ok (a, as.eraseIdx j.toNat)
    | none => .error .IndexError
  else .error .IndexError

section Lists

variable {α : Type*} {as : List α} {i : ℕ}

lemma pop_eq (hi : i < as.length) : pop as i = .ok (as[i], as.eraseIdx i) := by
  have hnonneg : ¬(i : ℤ) < 0 := by omega
  simp [pop, hnonneg, hi]

/-- Replacing an element of a list without repetition by a new one. -/
lemma nodup_replace (has : as.Nodup) (hi : i < as.length) {a : α} (ha : a ∉ as) :
    as[i] ∉ as.eraseIdx i ++ [a] ∧ (as.eraseIdx i ++ [a]).Nodup ∧
      (as.eraseIdx i ++ [a]).length = as.length := by
  obtain ⟨hvictim, hnodup⟩ := List.nodup_cons.mp
    ((List.getElem_cons_eraseIdx_perm hi).nodup_iff.mpr has)
  have hne : as[i] ≠ a := fun h => ha (h ▸ List.getElem_mem hi)
  have ha' : a ∉ as.eraseIdx i := fun h => ha (List.mem_of_mem_eraseIdx h)
  refine ⟨by simp [hvictim, hne], ?_, ?_⟩
  · exact List.Nodup.append hnodup (List.nodup_singleton a) (by simpa using ha')
  · rw [List.length_append, List.length_eraseIdx_of_lt hi, List.length_singleton]
    omega

end Lists

end StyLinux.Lib.Python
