import Mathlib.Tactic
import StyLinux.Lib.Fuel
import StyLinux.PageTrace.Model

/-!
# Reading a trace

The lines of a trace that report a memory access form a small grammar. `get_page_list` tells them
from the other lines by their words: it takes each line of two words whose first one occurs in
`ILMS`. Its lists are those of the memory accesses as long as it takes no other line.
-/

namespace StyLinux.PageTrace

open Lib Lib.Python

/-! ### Memory accesses -/

inductive Kind
  | I
  | L
  | M
  | S
  deriving DecidableEq, Repr

def Kind.letter : Kind → Char
  | I => 'I'
  | L => 'L'
  | M => 'M'
  | S => 'S'

def IsHexDigit (c : Char) : Prop :=
  ('0' ≤ c ∧ c ≤ '9') ∨ ('A' ≤ c ∧ c ≤ 'F') ∨ ('a' ≤ c ∧ c ≤ 'f')

def IsDecimalDigit (c : Char) : Prop := '0' ≤ c ∧ c ≤ '9'

def hexValue (c : Char) : ℕ :=
  if c ≤ '9' then c.toNat - '0'.toNat
  else if c ≤ 'F' then c.toNat - 'A'.toNat + 10
  else c.toNat - 'a'.toNat + 10

structure MemoryAccess where
  kind : Kind
  address : List Char
  size : List Char
  address_ne_nil : address ≠ []
  isHexDigit : ∀ c ∈ address, IsHexDigit c
  size_ne_nil : size ≠ []
  isDecimalDigit : ∀ c ∈ size, IsDecimalDigit c

def MemoryAccess.page (a : MemoryAccess) : ℤ :=
  ((Nat.ofDigits 16 (a.address.map hexValue).reverse >>> 12 : ℕ) : ℤ)

def IsBlank (c : Char) : Prop := c = ' ' ∨ c = '\t'

/-- The line reports the memory access. -/
def MemoryAccess.IsLine (a : MemoryAccess) (line : List Char) : Prop :=
  ∃ lead gap newline, (∀ c ∈ lead, IsBlank c) ∧ gap ≠ [] ∧ (∀ c ∈ gap, IsBlank c) ∧
    (newline = [] ∨ newline = ['\n']) ∧
    line = lead ++ a.kind.letter :: (gap ++ (a.address ++ ',' :: a.size)) ++ newline

/-- The memory accesses that the lines report, in their order. -/
inductive Accesses : List (List Char) → List MemoryAccess → Prop
  | nil : Accesses [] []
  | access {a : MemoryAccess} {line : List Char} {rest : List (List Char)}
      {accesses : List MemoryAccess} (h : a.IsLine line) (hrest : Accesses rest accesses) :
      Accesses (line :: rest) (a :: accesses)
  | other {line : List Char} {rest : List (List Char)} {accesses : List MemoryAccess}
      (h : ∀ a : MemoryAccess, ¬a.IsLine line) (hrest : Accesses rest accesses) :
      Accesses (line :: rest) accesses

/-- The list of the pages accessed and the set of those with instructions. -/
def pageLists (accesses : List MemoryAccess) : PageLists where
  pageAccessList := accesses.map MemoryAccess.page
  instructionPageSet :=
    ((accesses.filter fun a => a.kind = .I).map MemoryAccess.page).toFinset

/-- The lists with the accesses added. -/
def PageLists.add (s : PageLists) (accesses : List MemoryAccess) : PageLists where
  pageAccessList := s.pageAccessList ++ (pageLists accesses).pageAccessList
  instructionPageSet := s.instructionPageSet ∪ (pageLists accesses).instructionPageSet

/-- `get_page_list` returns the lists of the memory accesses that the text reports. -/
def Correct (interpreter : Interpreter) (text : List Char) : Prop :=
  ∃ accesses, Accesses (lines text) accesses ∧
    getPageList interpreter text = .ok (pageLists accesses)

/-- The line has two words, the first of which occurs in `ILMS`. -/
def Taken (line : List Char) : Prop :=
  ∃ type field, split line = [type, field] ∧ type <:+: ['I', 'L', 'M', 'S']

/-- The size has no more digits than the interpreter converts. -/
def MemoryAccess.Fits (interpreter : Interpreter) (a : MemoryAccess) : Prop :=
  interpreter.maxStrDigits = 0 ∨ a.size.length ≤ interpreter.maxStrDigits

instance (interpreter : Interpreter) (a : MemoryAccess) : Decidable (a.Fits interpreter) :=
  inferInstanceAs (Decidable (_ ∨ _))

/-! ### Characters -/

section Characters

variable {c : Char}

lemma toNat_of_isHexDigit (hc : IsHexDigit c) :
    (48 ≤ c.toNat ∧ c.toNat ≤ 57) ∨ (65 ≤ c.toNat ∧ c.toNat ≤ 70) ∨
      (97 ≤ c.toNat ∧ c.toNat ≤ 102) := hc

lemma not_isspace_of_toNat (h : 33 ≤ c.toNat) (h' : c.toNat ≤ 126) : ¬isspace c := by
  simp only [isspace, Bool.decide_or, Bool.decide_and, Bool.or_eq_true, Bool.and_eq_true,
    decide_eq_true_eq]
  omega

lemma isspace_of_isBlank (hc : IsBlank c) : isspace c := by
  rcases hc with rfl | rfl
  · decide
  · decide

lemma digit_of_isHexDigit (hc : IsHexDigit c) : digit 16 c = some (hexValue c) := by
  have h9 : c ≤ '9' ↔ c.toNat ≤ 57 := Iff.rfl
  have hF : c ≤ 'F' ↔ c.toNat ≤ 70 := Iff.rfl
  have hvalue : digitValue c = some (hexValue c) := by
    simp only [digitValue, hexValue, h9, hF, Char.reduceToNat]
    rcases toNat_of_isHexDigit hc with h | h | h
    · rw [if_pos h, if_pos h.2]
    · rw [if_neg (by omega), if_pos (by omega), if_neg (by omega), if_pos h.2]
      congr 1
      omega
    · rw [if_neg (by omega), if_neg (by omega), if_pos (by omega), if_neg (by omega),
        if_neg (by omega)]
      congr 1
      omega
  have hlt : hexValue c < 16 := by
    simp only [hexValue, h9, hF, Char.reduceToNat]
    rcases toNat_of_isHexDigit hc with h | h | h
    all_goals
      split_ifs <;> omega
  rw [digit, hvalue]
  simp [hlt]

lemma digit_of_isDecimalDigit (hc : IsDecimalDigit c) : digit 10 c = some (hexValue c) := by
  have hnat : 48 ≤ c.toNat ∧ c.toNat ≤ 57 := hc
  have h9 : c ≤ '9' := hc.2
  have hlt : c.toNat - 48 < 10 := by omega
  simp [digit, digitValue, hexValue, hnat, h9, hlt]

end Characters

/-! ### Lines of memory accesses -/

section Lines

variable {interpreter : Interpreter} {s s' : PageLists} {line : List Char} {a : MemoryAccess}

lemma Kind.not_isspace (kind : Kind) : ¬isspace kind.letter := by
  cases kind <;> decide

/-- The words of a line that reports a memory access. -/
lemma MemoryAccess.IsLine.split_eq (h : a.IsLine line) :
    split line = [[a.kind.letter], a.address ++ ',' :: a.size] := by
  obtain ⟨lead, gap, newline, hlead, hgap, hblank, hnewline, rfl⟩ := h
  have hspaces : ∀ c ∈ newline, isspace c := by
    rcases hnewline with rfl | rfl
    · simp
    · simp [isspace]
  have hletter : ∀ c ∈ [a.kind.letter], ¬isspace c := by
    intro c hc
    rw [List.mem_singleton.mp hc]
    exact a.kind.not_isspace
  have hfield : ∀ c ∈ a.address ++ ',' :: a.size, ¬isspace c := by
    intro c hc
    rcases List.mem_append.mp hc with hc | hc
    · have hnat := toNat_of_isHexDigit (a.isHexDigit c hc)
      exact not_isspace_of_toNat (by omega) (by omega)
    · rcases List.mem_cons.mp hc with rfl | hc
      · decide
      · have hnat := toNat_of_isHexDigit (.inl (a.isDecimalDigit c hc))
        exact not_isspace_of_toNat (by omega) (by omega)
  rw [split_append_spaces hspaces, split_spaces_append fun c hc => isspace_of_isBlank (hlead c hc)]
  have hword := split_word_append (a.address ++ ',' :: a.size) (List.cons_ne_nil _ [])
    hletter hgap fun c hc => isspace_of_isBlank (hblank c hc)
  rw [List.singleton_append] at hword
  rw [hword, split_word (by simp) hfield]

lemma MemoryAccess.IsLine.taken (h : a.IsLine line) : Taken line := by
  refine ⟨_, _, h.split_eq, ?_⟩
  cases a.kind <;> decide

lemma MemoryAccess.splitOn_eq (a : MemoryAccess) :
    (a.address ++ ',' :: a.size).splitOn ',' = [a.address, a.size] := by
  have haddress : ',' ∉ a.address := by
    intro hmem
    rcases a.isHexDigit _ hmem with h | h | h
    all_goals exact absurd h (by decide)
  have hsize : ',' ∉ a.size := fun hmem => absurd (a.isDecimalDigit _ hmem).1 (by decide)
  rw [List.splitOn_append_cons_self, List.splitOn_eq_singleton haddress,
    List.splitOn_eq_singleton hsize]
  rfl

/-- A line reports one memory access only. -/
lemma MemoryAccess.IsLine.unique {b : MemoryAccess} (ha : a.IsLine line) (hb : b.IsLine line) :
    a = b := by
  have hwords := ha.split_eq.symm.trans hb.split_eq
  simp only [List.cons.injEq, and_true] at hwords
  have hkind : a.kind = b.kind := by
    have hletter := hwords.1
    revert hletter
    cases a.kind <;> cases b.kind <;> decide
  have hparts := congrArg (List.splitOn ',') hwords.2
  rw [a.splitOn_eq, b.splitOn_eq] at hparts
  simp only [List.cons.injEq, and_true] at hparts
  cases a
  cases b
  simp_all

/-- The lines of a file report one list of accesses only. -/
lemma Accesses.unique {rest : List (List Char)} {accesses accesses' : List MemoryAccess}
    (h : Accesses rest accesses) (h' : Accesses rest accesses') : accesses = accesses' := by
  induction h generalizing accesses' with
  | nil =>
    cases h'
    rfl
  | access ha hrest ih =>
    cases h' with
    | access ha' hrest' => rw [ha.unique ha', ih hrest']
    | other hother hrest' => exact absurd ha (hother _)
  | other hother hrest ih =>
    cases h' with
    | access ha' hrest' => exact absurd ha' (hother _)
    | other hother' hrest' => exact ih hrest'

/-- What the loop does with a line that it does not take. -/
lemma readLine_of_not_taken (interpreter : Interpreter) (s : PageLists) (h : ¬Taken line) :
    readLine interpreter s line = .ok s := by
  unfold readLine
  dsimp only
  rw [split_strip]
  split_ifs with hempty
  · rfl
  · split
    · rename_i type field hsplit
      exact if_pos fun hoccurs => h ⟨type, field, hsplit, hoccurs⟩
    · rfl

/-- What the loop does with the words of a line that it takes. -/
lemma readLine_of_split {type field : List Char} (hsplit : split line = [type, field])
    (hoccurs : type <:+: ['I', 'L', 'M', 'S']) :
    readLine interpreter s line =
      match field.splitOn ',' with
      | [address, size] => do
        let address ← int interpreter 16 address
        let _ ← int interpreter 10 size
        .ok {
          pageAccessList := s.pageAccessList ++ [address >>> (12 : ℕ)]
          instructionPageSet :=
            if type = ['I'] then insert (address >>> (12 : ℕ)) s.instructionPageSet
            else s.instructionPageSet }
      | _ => .error .ValueError := by
  have hne : strip line ≠ [] := by
    intro hempty
    rw [← split_strip, hempty] at hsplit
    cases hsplit
  unfold readLine
  dsimp only
  rw [if_neg hne, split_strip, hsplit]
  exact if_neg (not_not.mpr hoccurs)

/-- A line that the loop takes adds one page or raises an exception. -/
lemma length_of_taken (h : Taken line) (hs : readLine interpreter s line = .ok s') :
    s'.pageAccessList.length = s.pageAccessList.length + 1 := by
  obtain ⟨type, field, hsplit, hoccurs⟩ := h
  rw [readLine_of_split hsplit hoccurs] at hs
  split at hs
  · obtain ⟨address, -, hs⟩ := bind_eq_ok.mp hs
    obtain ⟨size, -, hs⟩ := bind_eq_ok.mp hs
    cases hs
    simp
  · cases hs

lemma PageLists.add_singleton (s : PageLists) (a : MemoryAccess) : s.add [a] = {
    pageAccessList := s.pageAccessList ++ [a.page]
    instructionPageSet :=
      if a.kind = .I then insert a.page s.instructionPageSet else s.instructionPageSet } := by
  by_cases hkind : a.kind = .I
  · simp [PageLists.add, pageLists, hkind]
  · simp [PageLists.add, pageLists, hkind]

/-- A line that reports a memory access adds it, if its size can be converted. -/
lemma MemoryAccess.IsLine.readLine_eq (h : a.IsLine line) :
    readLine interpreter s line =
      if a.Fits interpreter then .ok (s.add [a]) else .error .ValueError := by
  have hoccurs : [a.kind.letter] <:+: ['I', 'L', 'M', 'S'] := by
    cases a.kind <;> decide
  have haddress := int_of_forall interpreter (by omega : 16 ≤ 16) a.address_ne_nil fun c hc =>
    digit_of_isHexDigit (a.isHexDigit c hc)
  have hsize := int_of_forall interpreter (by omega : 10 ≤ 16) a.size_ne_nil fun c hc =>
    digit_of_isDecimalDigit (a.isDecimalDigit c hc)
  rw [if_neg (by omega)] at haddress
  rw [readLine_of_split h.split_eq hoccurs, a.splitOn_eq]
  dsimp only
  rw [haddress, ok_bind, hsize]
  have hletter : [a.kind.letter] = ['I'] ↔ a.kind = .I := by
    cases a.kind <;> simp [Kind.letter]
  by_cases hfits : a.Fits interpreter
  · rw [if_pos hfits, if_neg, ok_bind]
    · rw [s.add_singleton]
      simp only [hletter]
      rfl
    · unfold Fits at hfits
      omega
  · rw [if_neg hfits, if_pos]
    · rfl
    · unfold Fits at hfits
      omega

end Lines

/-! ### The lists -/

section Lists

variable {interpreter : Interpreter} {s s' : PageLists} {rest : List (List Char)}
  {accesses : List MemoryAccess}

lemma PageLists.add_cons (s : PageLists) (a : MemoryAccess) :
    (s.add [a]).add accesses = s.add (a :: accesses) := by
  by_cases hkind : a.kind = .I
  · simp [PageLists.add, pageLists, hkind]
  · simp [PageLists.add, pageLists, hkind]

/-- The loop adds the accesses of the lines if it takes no other line. -/
lemma exists_accesses
    (h : ∀ line ∈ rest, Taken line → ∃ a : MemoryAccess, a.IsLine line ∧ a.Fits interpreter) :
    ∃ accesses, Accesses rest accesses ∧
      rest.foldlM (readLine interpreter) s = .ok (s.add accesses) := by
  induction rest generalizing s with
  | nil => exact ⟨[], .nil, by simp [PageLists.add, pageLists]; rfl⟩
  | cons line rest ih =>
    have hrest : ∀ line ∈ rest, Taken line →
        ∃ a : MemoryAccess, a.IsLine line ∧ a.Fits interpreter :=
      fun line' hline' => h line' (by simp [hline'])
    by_cases htaken : Taken line
    · obtain ⟨a, ha, hfits⟩ := h line (by simp) htaken
      obtain ⟨accesses, haccesses, hlists⟩ := ih (s := s.add [a]) hrest
      refine ⟨a :: accesses, .access ha haccesses, ?_⟩
      rw [List.foldlM_cons, ha.readLine_eq, if_pos hfits, ok_bind, hlists, s.add_cons]
    · obtain ⟨accesses, haccesses, hlists⟩ := ih (s := s) hrest
      refine ⟨accesses, .other (fun a ha => htaken ha.taken) haccesses, ?_⟩
      rw [List.foldlM_cons, readLine_of_not_taken interpreter s htaken, ok_bind, hlists]

/-- The loop adds at least as many pages as there are accesses, and no more than that only if it
takes no other line. -/
lemma length_le_of_accesses (h : Accesses rest accesses)
    (hs : rest.foldlM (readLine interpreter) s = .ok s') :
    s.pageAccessList.length + accesses.length ≤ s'.pageAccessList.length ∧
      (s.pageAccessList.length + accesses.length = s'.pageAccessList.length →
        ∀ line ∈ rest, Taken line → ∃ a : MemoryAccess, a.IsLine line ∧ a.Fits interpreter) := by
  induction h generalizing s with
  | nil =>
    cases hs
    simp
  | @access a line rest accesses ha hrest ih =>
    rw [List.foldlM_cons, ha.readLine_eq] at hs
    obtain ⟨t, ht, hs⟩ := bind_eq_ok.mp hs
    split_ifs at ht with hfits
    cases ht
    obtain ⟨hle, hall⟩ := ih hs
    have hlength : (s.add [a]).pageAccessList.length = s.pageAccessList.length + 1 := by
      simp [PageLists.add, pageLists]
    rw [hlength] at hle hall
    rw [List.length_cons]
    refine ⟨by omega, ?_⟩
    rintro heq line' hline' htaken
    rcases List.mem_cons.mp hline' with rfl | hline'
    · exact ⟨a, ha, hfits⟩
    · exact hall (by omega) line' hline' htaken
  | @other line rest accesses hother hrest ih =>
    rw [List.foldlM_cons] at hs
    obtain ⟨t, ht, hs⟩ := bind_eq_ok.mp hs
    obtain ⟨hle, hall⟩ := ih hs
    by_cases htaken : Taken line
    · have hlength := length_of_taken htaken ht
      refine ⟨by omega, fun heq => ?_⟩
      omega
    · rw [readLine_of_not_taken interpreter s htaken] at ht
      cases ht
      refine ⟨hle, ?_⟩
      rintro heq line' hline' htaken'
      rcases List.mem_cons.mp hline' with rfl | hline'
      · exact absurd htaken' htaken
      · exact hall heq line' hline' htaken'

/-- The lists are those of the memory accesses exactly if each line of two words of which the
first one occurs in `ILMS` reports a memory access, with a size that can be converted. -/
theorem correct_iff (interpreter : Interpreter) (text : List Char) :
    Correct interpreter text ↔ ∀ line ∈ lines text, Taken line →
      ∃ a : MemoryAccess, a.IsLine line ∧ a.Fits interpreter := by
  constructor
  · rintro ⟨accesses, haccesses, hlists⟩
    refine (length_le_of_accesses haccesses hlists).2 ?_
    simp [pageLists]
  · intro h
    obtain ⟨accesses, haccesses, hlists⟩ := exists_accesses (s := ⟨[], ∅⟩) h
    refine ⟨accesses, haccesses, hlists.trans ?_⟩
    simp [PageLists.add]

/-- A line such as one that the traced program prints raises an exception. -/
theorem not_correct_printedLine :
    getPageList ascii "I see\n".toList = .error .ValueError ∧
      ¬Correct ascii "I see\n".toList := by
  have herror : getPageList ascii "I see\n".toList = .error .ValueError := by decide
  refine ⟨herror, ?_⟩
  rintro ⟨accesses, -, hlists⟩
  rw [herror] at hlists
  cases hlists

-- Of the last two lines only the first one reports a memory access, and both are taken.
example : getPageList ascii "== Exit\nI  04001fb6,4\n L 1000,4\nLM 2000,4".toList =
    .ok ⟨[16385, 1, 2], {16385}⟩ := by decide

end Lists

end StyLinux.PageTrace
