import Mathlib
import StyLinux.PageTrace.Policies

/-!
# Series of simulations

`simulate_page_replacement` and `run_simulations` of `sim-paging.py`, which run `paging-policy.py`
for a page trace and find the number of misses in what it prints. The pages are read with
`String.toNat?`, and the hit rate is printed by a parameter.
-/

namespace StyLinux.PageTrace

open Lib Lib.Caching Lib.Python

/-! ### What `paging-policy.py` prints -/

def Policy.name : Policy → String
  | .FIFO => "FIFO"
  | .LRU => "LRU"
  | .MRU => "MRU"
  | .OPT => "OPT"
  | .UNOPT => "UNOPT"
  | .RAND => "RAND"

def leftStr : Policy → String
  | .FIFO => "FirstIn"
  | .LRU => "LRU"
  | .MRU => "LRU"
  | _ => "Left "

def riteStr : Policy → String
  | .FIFO => "Lastin "
  | .LRU => "MRU"
  | .MRU => "MRU"
  | _ => "Right"

def hfunc (idx : ℤ) : String := if idx = -1 then "MISS" else "HIT "

/-- A number as `%d` prints it. -/
def decimal (n : ℤ) : List Char :=
  if n < 0 then '-' :: n.natAbs.repr.toList else n.natAbs.repr.toList

def vfunc (victim : ℤ) : List Char := if victim = -1 then ['-'] else decimal victim

/-- `str(memory)` -/
def memoryStr (memory : List ℕ) : List Char :=
  '[' :: List.intercalate [',', ' '] (memory.map fun page => page.repr.toList) ++ [']']

/-- `'%12s' % text` -/
def padded (text : List Char) : List Char := List.replicate (12 - text.length) ' ' ++ text

def accessLine (policy : Policy) (a : Access) : List Char :=
  ["Access: ".toList, decimal a.page, "  ".toList, (hfunc a.idx).toList, " ".toList,
    (leftStr policy).toList, " -> ".toList, padded (memoryStr a.memory), " <- ".toList,
    (riteStr policy).toList, " Replaced:".toList, vfunc a.victim, " [Hits:".toList,
    decimal a.hits, " Misses:".toList, decimal a.miss, "]".toList].flatten

/-- The arguments, as they are when only the address file, the size of the cache and the policy are
given. -/
def argLines (file : List Char) (cachesize : ℕ) (policy : Policy) : List (List Char) :=
  ["ARG addresses -1".toList, "ARG addressfile ".toList ++ file, "ARG numaddrs 10".toList,
    "ARG policy ".toList ++ policy.name.toList, "ARG clockbits 2".toList,
    "ARG cachesize ".toList ++ decimal cachesize, "ARG maxpage 10".toList, "ARG seed 0".toList,
    "ARG notrace False".toList, "ARG xdups 0".toList, []]

/-- The beginning of the final statistics, up to the blanks before the misses. -/
def hitsStr (hits : ℕ) : List Char := "FINALSTATS hits ".toList ++ decimal hits ++ "   ".toList

/-- The rest of the final statistics. -/
def missesStr (rate : ℕ → ℕ → List Char) (hits miss : ℕ) : List Char :=
  "misses ".toList ++ decimal miss ++ "   hitrate ".toList ++ rate hits miss

def unlines (lines : List (List Char)) : List Char := lines.flatMap (· ++ ['\n'])

/-- The lines before the final statistics. -/
def traceLines (file : List Char) (cachesize : ℕ) (policy : Policy) (trace : List Access) :
    List (List Char) :=
  argLines file cachesize policy ++ ["Solving...".toList, []] ++
    trace.map (accessLine policy) ++ [[]]

/-- What is printed for the simulation. -/
def output (rate : ℕ → ℕ → List Char) (file : List Char) (cachesize : ℕ) (policy : Policy)
    (s : Simulation) : List Char :=
  unlines (traceLines file cachesize policy s.trace) ++ hitsStr s.hits ++
    missesStr rate s.hits s.miss ++ "\n\n".toList

/-! ### What `sim-paging.py` reads -/

/-- A match of the expression `misses\s+(\d+)` at the beginning of the text, with its group. -/
def matchMisses (text : List Char) : Option (List Char) :=
  if "misses".toList <+: text then
    let behind := (text.drop 6).dropWhile isspace
    let digits := behind.takeWhile Char.isDigit
    if behind.length < (text.drop 6).length ∧ digits ≠ [] then some digits else none
  else none

/-- `re.search` with this expression. -/
def search : List Char → Option (List Char)
  | [] => none
  | c :: text =>
    match matchMisses (c :: text) with
    | some digits => some digits
    | none => search text

section Runs

variable (random : RandomStream) (rate : ℕ → ℕ → List Char) (file : List Char)
  (lines : List String)

/-- The number of page faults for the trace with the given lines. There is none if
`paging-policy.py` fails. -/
def simulatePageReplacement (memorySize : ℕ) (policy : Policy) : Option ℕ := do
  let addrList ← readAddresses lines
  let s ← simulate policy memorySize random addrList
  -- the hit rate of no accesses is a division by zero
  if addrList = [] then none
  else
    let digits ← search (strip (output rate file memorySize policy s))
    (String.ofList digits).toNat?

/-- The pages of the trace. -/
def readPages : Option (List ℕ) :=
  ((lines.map fun line => strip line.toList).filter (· ≠ [])).mapM fun line =>
    (String.ofList line).toNat?

/-- `list(range(1, n + 1, step))` -/
def memorySizes (n : ℕ) : List ℕ :=
  let step := if n > 100 then 15 else 1
  List.range' 1 ((n + step - 1) / step) step

/-- The memory sizes and, for each policy, the faults for these sizes. -/
def runSimulations (policies : List Policy) : Option (List ℕ × (Policy → List (Option ℕ))) := do
  let pageList ← readPages lines
  let sizes := memorySizes pageList.toFinset.card
  some (sizes, sizes.foldl (fun results memSize =>
    policies.foldl (fun results policy =>
      let faults := simulatePageReplacement random rate file lines memSize policy
      Function.update results policy (results policy ++ [faults])) results) fun _ => [])

end Runs

/-! ### Finding the misses -/

section Search

variable {pattern text text' line : List Char} {c : Char}

lemma prefix_of_prefix_append_cons (h : pattern <+: text ++ c :: text') (hc : c ∉ pattern) :
    pattern <+: text := by
  rcases List.prefix_or_prefix_of_prefix h (List.prefix_append text (c :: text')) with h' | h'
  · exact h'
  · obtain ⟨rest, rfl⟩ := h'
    rw [List.prefix_append_right_inj] at h
    cases rest with
    | nil => simp
    | cons d rest =>
      rw [List.cons_prefix_cons] at h
      exact absurd (by simp [h.1]) hc

/-- What is not found before a character that does not occur in it is found behind it. -/
lemma infix_append_cons (h : pattern <:+: text ++ c :: text') (hc : c ∉ pattern) :
    pattern <:+: text ∨ pattern <:+: text' := by
  induction text with
  | nil =>
    rw [List.nil_append, List.infix_cons_iff] at h
    rcases h with h | h
    · have hnil : pattern <+: [] := prefix_of_prefix_append_cons h hc
      exact .inl hnil.isInfix
    · exact .inr h
  | cons d text ih =>
    rw [List.cons_append, List.infix_cons_iff] at h
    rcases h with h | h
    · have hhere : pattern <+: d :: text := prefix_of_prefix_append_cons h hc
      exact .inl hhere.isInfix
    · rcases ih h with h | h
      · exact .inl (h.trans (List.infix_cons List.infix_rfl))
      · exact .inr h

/-- The text does not contain the word that the expression begins with. -/
def Free (text : List Char) : Prop := ¬"misses".toList <:+: text

lemma free_of_notMem (h : 'm' ∉ text) : Free text :=
  fun hsub => h (hsub.subset (by decide))

lemma Free.append_cons (h : Free text) (h' : Free text') (hc : c ∉ "misses".toList) :
    Free (text ++ c :: text') := by
  intro hsub
  exact (infix_append_cons hsub hc).elim h h'

lemma matchMisses_eq_none (h : ¬"misses".toList <+: text) : matchMisses text = none := if_neg h

/-- Nothing is found in front of a character behind a text without the word. -/
lemma search_append_cons (h : Free text) (hc : c ∉ "misses".toList) :
    search (text ++ c :: text') = search text' := by
  induction text with
  | nil =>
    have hnone : ¬"misses".toList <+: [] ++ c :: text' := by
      intro hprefix
      have hnil := prefix_of_prefix_append_cons hprefix hc
      simp at hnil
    rw [List.nil_append] at hnone ⊢
    rw [search, matchMisses_eq_none hnone]
  | cons d text ih =>
    have hnone : ¬"misses".toList <+: (d :: text) ++ c :: text' := by
      intro hprefix
      exact h (prefix_of_prefix_append_cons hprefix hc).isInfix
    rw [List.cons_append] at hnone ⊢
    rw [search, matchMisses_eq_none hnone]
    exact ih fun hsub => h (hsub.trans (List.infix_cons List.infix_rfl))

lemma search_unlines {lines : List (List Char)} (h : ∀ line ∈ lines, Free line) :
    search (unlines lines ++ text) = search text := by
  induction lines with
  | nil => rfl
  | cons line lines ih =>
    rw [List.forall_mem_cons] at h
    have hcons : unlines (line :: lines) ++ text = line ++ '\n' :: (unlines lines ++ text) := by
      simp [unlines]
    rw [hcons, search_append_cons h.1 (by decide)]
    exact ih h.2

end Search

/-! ### The output -/

section Output

variable {n : ℕ} {c : Char} {policy : Policy} {file : List Char}

lemma isDigit_of_mem_repr (hc : c ∈ n.repr.toList) : c.isDigit := by
  rw [Nat.repr, String.toList_ofList] at hc
  exact Nat.isDigit_of_mem_toDigits (by norm_num) (by norm_num) hc

lemma repr_ne_nil (n : ℕ) : n.repr.toList ≠ [] := by
  rw [Nat.repr, String.toList_ofList]
  exact Nat.toDigits_ne_nil

lemma not_isspace_of_isDigit (hc : c.isDigit) : ¬isspace c := by
  obtain ⟨hlow, hhigh⟩ := Char.isDigit_iff_toNat.mp hc
  have hzero : '0'.toNat = 48 := rfl
  have hnine : '9'.toNat = 57 := rfl
  simp only [isspace, decide_eq_true_eq]
  omega

@[simp] lemma decimal_natCast (n : ℕ) : decimal n = n.repr.toList := by
  have hneg : ¬(n : ℤ) < 0 := by omega
  rw [decimal, if_neg hneg, Int.natAbs_natCast]

lemma m_notMem_repr (n : ℕ) : 'm' ∉ n.repr.toList := by
  intro hm
  have hdigit := isDigit_of_mem_repr hm
  cases hdigit

lemma m_notMem_decimal (n : ℤ) : 'm' ∉ decimal n := by
  unfold decimal
  split
  · rw [List.mem_cons, not_or]
    exact ⟨by decide, m_notMem_repr _⟩
  · exact m_notMem_repr _

lemma m_notMem_memoryStr (memory : List ℕ) : 'm' ∉ memoryStr memory := by
  have hlist : ∀ texts : List (List Char), (∀ text ∈ texts, 'm' ∉ text) →
      'm' ∉ List.intercalate [',', ' '] texts := by
    intro texts htexts
    induction texts with
    | nil => simp [List.intercalate_nil]
    | cons text texts ih =>
      rw [List.forall_mem_cons] at htexts
      cases texts with
      | nil =>
        rw [List.intercalate_singleton]
        exact htexts.1
      | cons text' texts =>
        rw [List.intercalate_cons_cons, List.mem_append, List.mem_append, not_or, not_or]
        exact ⟨⟨htexts.1, by decide⟩, ih htexts.2⟩
  simp only [memoryStr, List.mem_append, List.mem_cons, List.not_mem_nil, or_false, not_or]
  refine ⟨⟨by decide, hlist _ ?_⟩, by decide⟩
  intro text htext
  obtain ⟨page, -, rfl⟩ := List.mem_map.mp htext
  exact m_notMem_repr page

lemma free_accessLine (policy : Policy) (a : Access) : Free (accessLine policy a) := by
  apply free_of_notMem
  have hidx : 'm' ∉ (hfunc a.idx).toList := by
    unfold hfunc
    split <;> decide
  have hvictim : 'm' ∉ vfunc a.victim := by
    unfold vfunc
    split
    · decide
    · exact m_notMem_decimal _
  have hleft : 'm' ∉ (leftStr policy).toList := by cases policy <;> simp [leftStr]
  have hrite : 'm' ∉ (riteStr policy).toList := by cases policy <;> simp [riteStr]
  have hmemory : 'm' ∉ padded (memoryStr a.memory) := by
    rw [padded, List.mem_append, not_or]
    refine ⟨?_, m_notMem_memoryStr _⟩
    intro hm
    cases List.eq_of_mem_replicate hm
  have hpieces : ∀ piece ∈ ["Access: ".toList, decimal a.page, "  ".toList, (hfunc a.idx).toList,
      " ".toList, (leftStr policy).toList, " -> ".toList, padded (memoryStr a.memory),
      " <- ".toList, (riteStr policy).toList, " Replaced:".toList, vfunc a.victim,
      " [Hits:".toList, decimal a.hits, " Misses:".toList, decimal a.miss, "]".toList],
      'm' ∉ piece := by
    simp only [List.forall_mem_cons]
    exact ⟨by decide, m_notMem_decimal _, by decide, hidx, by decide, hleft, by decide, hmemory,
      by decide, hrite, by decide, hvictim, by decide, m_notMem_decimal _, by decide,
      m_notMem_decimal _, by decide, by simp⟩
  intro hm
  obtain ⟨piece, hpiece, hm⟩ := List.mem_flatten.mp hm
  exact hpieces piece hpiece hm

lemma free_argLines (hfile : Free file) (cachesize : ℕ) (policy : Policy) :
    ∀ line ∈ argLines file cachesize policy, Free line := by
  intro line hline
  simp only [argLines, List.mem_cons, List.not_mem_nil, or_false] at hline
  have hname : 'm' ∉ policy.name.toList := by cases policy <;> decide
  rcases hline with rfl | rfl | rfl | rfl | rfl | rfl | rfl | rfl | rfl | rfl | rfl
  case inr.inl =>
    have hargument : Free "ARG addressfile".toList := by
      unfold Free
      decide
    exact hargument.append_cons hfile (by decide)
  case inr.inr.inr.inl =>
    apply free_of_notMem
    rw [List.mem_append, not_or]
    exact ⟨by decide, hname⟩
  case inr.inr.inr.inr.inr.inl =>
    apply free_of_notMem
    rw [List.mem_append, not_or]
    exact ⟨by decide, m_notMem_decimal _⟩
  all_goals
    unfold Free
    decide

lemma exists_rdropWhile {p : Char → Bool} (hc : ¬p c) (text rest : List Char) :
    ∃ rest', (text ++ c :: rest).rdropWhile p = text ++ c :: rest' := by
  induction rest using List.reverseRecOn with
  | nil => exact ⟨[], List.rdropWhile_concat_neg p text c hc⟩
  | append_singleton rest d ih =>
    rw [← List.cons_append, ← List.append_assoc]
    by_cases hd : p d
    · rw [List.rdropWhile_concat_pos p _ d hd]
      exact ih
    · rw [List.rdropWhile_concat_neg p _ d hd]
      exact ⟨rest ++ [d], by simp⟩

lemma matchMisses_repr (n : ℕ) (text : List Char) :
    matchMisses ("misses".toList ++ ' ' :: n.repr.toList ++ ' ' :: text) = some n.repr.toList := by
  have hprefix : "misses".toList <+: "misses".toList ++ ' ' :: n.repr.toList ++ ' ' :: text := by
    rw [List.append_assoc]
    exact List.prefix_append _ _
  have hdrop : ("misses".toList ++ ' ' :: n.repr.toList ++ ' ' :: text).drop 6 =
      ' ' :: n.repr.toList ++ ' ' :: text := rfl
  obtain ⟨d, digits, hdigits⟩ := List.exists_cons_of_ne_nil (repr_ne_nil n)
  have hd : d.isDigit := isDigit_of_mem_repr (n := n) (by simp [hdigits])
  have hblank : (' ' :: n.repr.toList ++ ' ' :: text).dropWhile isspace =
      n.repr.toList ++ ' ' :: text := by
    rw [List.cons_append, List.dropWhile_cons_of_pos (by decide), hdigits, List.cons_append,
      List.dropWhile_cons_of_neg (not_isspace_of_isDigit hd)]
  have htake : (n.repr.toList ++ ' ' :: text).takeWhile Char.isDigit = n.repr.toList := by
    rw [List.takeWhile_append_of_pos fun c hc => isDigit_of_mem_repr hc,
      List.takeWhile_cons_of_neg (by decide), List.append_nil]
  unfold matchMisses
  rw [if_pos hprefix, hdrop]
  dsimp only
  rw [hblank, htake, if_pos]
  exact ⟨by simp, repr_ne_nil n⟩

lemma free_traceLines (hfile : Free file) (cachesize : ℕ) (policy : Policy)
    (trace : List Access) : ∀ line ∈ traceLines file cachesize policy trace, Free line := by
  intro line hline
  simp only [traceLines, List.mem_append, List.mem_map] at hline
  rcases hline with ((hline | hline) | ⟨a, -, rfl⟩) | hline
  · exact free_argLines hfile cachesize policy line hline
  · apply free_of_notMem
    rcases List.mem_cons.mp hline with rfl | hline
    · decide
    · rw [List.mem_singleton.mp hline]
      decide
  · exact free_accessLine policy a
  · rw [List.mem_singleton.mp hline]
    exact free_of_notMem (by decide)

lemma search_hitsStr (hits : ℕ) (text : List Char) :
    search (hitsStr hits ++ text) = search text := by
  have hdecimal := m_notMem_decimal hits
  unfold hitsStr
  generalize decimal hits = digits at hdecimal ⊢
  have hfree : Free ("FINALSTATS hits ".toList ++ digits ++ "  ".toList) := by
    apply free_of_notMem
    simp only [List.mem_append, not_or]
    exact ⟨⟨by decide, hdecimal⟩, by decide⟩
  have hsplit : "FINALSTATS hits ".toList ++ digits ++ "   ".toList ++ text =
      ("FINALSTATS hits ".toList ++ digits ++ "  ".toList) ++ ' ' :: text := by
    simp
  rw [hsplit]
  exact search_append_cons hfree (by decide)

/-- The misses are found behind whatever was printed before, also when blanks at the end are
stripped. -/
lemma search_missesStr (text rate : List Char) (n : ℕ) :
    ∃ rest, (text ++ ("misses ".toList ++ n.repr.toList ++ "   hitrate ".toList ++ rate)).rdropWhile
        isspace = text ++ ("misses".toList ++ ' ' :: n.repr.toList ++ ' ' :: rest) ∧
      search ("misses".toList ++ ' ' :: n.repr.toList ++ ' ' :: rest) = some n.repr.toList := by
  have hmatch := matchMisses_repr n
  generalize n.repr.toList = digits at hmatch ⊢
  have hsplit : text ++ ("misses ".toList ++ digits ++ "   hitrate ".toList ++ rate) =
      (text ++ ("misses".toList ++ ' ' :: digits ++ ' ' :: "  ".toList)) ++
        'h' :: ("itrate ".toList ++ rate) := by
    simp
  obtain ⟨rest, hrest⟩ := exists_rdropWhile (p := isspace) (show ¬isspace 'h' by decide)
    (text ++ ("misses".toList ++ ' ' :: digits ++ ' ' :: "  ".toList)) ("itrate ".toList ++ rate)
  refine ⟨"  ".toList ++ 'h' :: rest, ?_, ?_⟩
  · rw [hsplit, hrest]
    simp
  · have hfound := hmatch ("  ".toList ++ 'h' :: rest)
    obtain ⟨behind, hword⟩ : ∃ behind, "misses".toList ++ ' ' :: digits ++
        ' ' :: ("  ".toList ++ 'h' :: rest) = 'm' :: behind := ⟨_, rfl⟩
    rw [hword] at hfound ⊢
    rw [search, hfound]

lemma output_eq_cons (rate : ℕ → ℕ → List Char) (file : List Char) (cachesize : ℕ)
    (policy : Policy) (s : Simulation) :
    ∃ rest, output rate file cachesize policy s = 'A' :: rest := by
  obtain ⟨lines, hlines⟩ : ∃ lines, traceLines file cachesize policy s.trace =
      ('A' :: "RG addresses -1".toList) :: lines := ⟨_, rfl⟩
  rw [output, hlines, unlines, List.flatMap_cons]
  exact ⟨_, rfl⟩

/-- The misses are found in the output, unless the name of the file misleads. -/
lemma search_output (hfile : Free file) (rate : ℕ → ℕ → List Char) (cachesize : ℕ)
    (policy : Policy) (s : Simulation) :
    search (strip (output rate file cachesize policy s)) = some s.miss.repr.toList := by
  obtain ⟨rest, hrest, hfound⟩ := search_missesStr
    (unlines (traceLines file cachesize policy s.trace) ++ hitsStr s.hits)
    (rate s.hits s.miss ++ "\n\n".toList) s.miss
  have hfront : (output rate file cachesize policy s).dropWhile isspace =
      output rate file cachesize policy s := by
    obtain ⟨rest, hrest⟩ := output_eq_cons rate file cachesize policy s
    rw [hrest, List.dropWhile_cons_of_neg (by decide)]
  have houtput : output rate file cachesize policy s =
      unlines (traceLines file cachesize policy s.trace) ++ hitsStr s.hits ++
        ("misses ".toList ++ s.miss.repr.toList ++ "   hitrate ".toList ++
          (rate s.hits s.miss ++ "\n\n".toList)) := by
    unfold output missesStr
    rw [decimal_natCast]
    generalize "misses ".toList = word
    generalize "   hitrate ".toList = word'
    generalize "\n\n".toList = newlines
    simp only [List.append_assoc]
  rw [strip, hfront, houtput, hrest, List.append_assoc,
    search_unlines (free_traceLines hfile cachesize policy s.trace), search_hitsStr]
  exact hfound

end Output

/-! ### The series -/

lemma strip_repr (n : ℕ) : strip n.repr.toList = n.repr.toList := by
  have hspace : ∀ c ∈ n.repr.toList, ¬isspace c :=
    fun c hc => not_isspace_of_isDigit (isDigit_of_mem_repr hc)
  have hfront : n.repr.toList.dropWhile isspace = n.repr.toList :=
    List.dropWhile_eq_self_iff.mpr fun h => hspace _ (List.getElem_mem h)
  rw [strip, hfront]
  exact List.rdropWhile_eq_self_iff.mpr fun h => hspace _ (List.getLast_mem h)

lemma readPages_map_repr (addrList : List ℕ) :
    readPages (addrList.map Nat.repr) = some addrList := by
  unfold readPages
  induction addrList with
  | nil => rfl
  | cons page addrList ih =>
    have hne : decide (page.repr.toList ≠ []) = true := decide_eq_true (repr_ne_nil page)
    rw [List.map_cons, List.map_cons, strip_repr, List.filter_cons, if_pos hne, List.mapM_cons, ih,
      String.ofList_toList, Nat.toNat?_repr]
    rfl

section Fold

variable {F : Type*} {policies : List Policy}

lemma foldl_policies (hpolicies : policies.Nodup) (f : Policy → F) (results : Policy → List F) :
    policies.foldl (fun results policy =>
        Function.update results policy (results policy ++ [f policy])) results =
      fun policy => if policy ∈ policies then results policy ++ [f policy] else results policy := by
  induction policies generalizing results with
  | nil => simp
  | cons policy policies ih =>
    rw [List.nodup_cons] at hpolicies
    rw [List.foldl_cons, ih hpolicies.2]
    funext q
    by_cases hq : q = policy
    · subst hq
      simp [hpolicies.1]
    · simp [hq]

lemma foldl_sizes (hpolicies : policies.Nodup) (f : ℕ → Policy → F) (sizes : List ℕ)
    (results : Policy → List F) :
    sizes.foldl (fun results size => policies.foldl (fun results policy =>
        Function.update results policy (results policy ++ [f size policy])) results) results =
      fun policy => if policy ∈ policies then results policy ++ sizes.map fun size => f size policy
        else results policy := by
  induction sizes generalizing results with
  | nil => simp
  | cons size sizes ih =>
    rw [List.foldl_cons, ih, foldl_policies hpolicies]
    funext q
    by_cases hq : q ∈ policies
    · simp [hq]
    · simp [hq]

end Fold

lemma pos_of_mem_memorySizes {n size : ℕ} (h : size ∈ memorySizes n) : 1 ≤ size ∧ n ≠ 0 := by
  obtain ⟨i, hi, rfl⟩ := List.mem_range'.mp h
  refine ⟨by omega, ?_⟩
  rintro rfl
  simp at hi

/-- The number of misses. -/
def misses (random : RandomStream) (addrList : List ℕ) (policy : Policy) (cachesize : ℕ) : ℕ :=
  ((simulate policy cachesize random addrList).map Simulation.miss).getD 0

lemma misses_eq {random : RandomStream} {addrList : List ℕ} {policy : Policy} {cachesize : ℕ}
    {s : Simulation} (hs : simulate policy cachesize random addrList = some s) :
    misses random addrList policy cachesize = s.miss := by
  rw [misses, hs]
  rfl

lemma simulatePageReplacement_eq {file : List Char} (hfile : Free file) (random : RandomStream)
    (rate : ℕ → ℕ → List Char) {addrList : List ℕ} (hne : addrList ≠ []) (policy : Policy)
    {memorySize : ℕ} (hsize : 1 ≤ memorySize) :
    simulatePageReplacement random rate file (addrList.map Nat.repr) memorySize policy =
      some (misses random addrList policy memorySize) := by
  obtain ⟨s, hs, -⟩ := exists_simulate policy random hsize addrList
  unfold simulatePageReplacement
  rw [readAddresses_map_repr, misses_eq hs]
  dsimp only [Option.bind_eq_bind, Option.bind_some]
  rw [hs]
  dsimp only [Option.bind_eq_bind, Option.bind_some]
  rw [if_neg hne, search_output hfile]
  dsimp only [Option.bind_eq_bind, Option.bind_some]
  rw [String.ofList_toList, Nat.toNat?_repr]

/-- For a trace with the pages one on each line the series are the misses of the simulations. The
policies miss each page at least, in the largest memory not more, and none of them less than `OPT`;
`OPT` and `LRU` do not miss more in a larger memory. -/
theorem runSimulations_eq (random : RandomStream) (rate : ℕ → ℕ → List Char) {file : List Char}
    (hfile : Free file) {policies : List Policy} (hpolicies : policies.Nodup)
    (addrList : List ℕ) :
    let n := addrList.toFinset.card
    let miss := misses random addrList
    (∀ policy size, 1 ≤ size →
        ∃ s, simulate policy size random addrList = some s ∧ s.miss = miss policy size) ∧
      runSimulations random rate file (addrList.map Nat.repr) policies =
        some (memorySizes n, fun policy =>
          if policy ∈ policies then (memorySizes n).map fun size => some (miss policy size)
          else []) ∧
      ∀ size ∈ memorySizes n, ∀ policy, n ≤ miss policy size ∧ miss .OPT size ≤ miss policy size ∧
        (size = n → miss policy size = n) ∧
        ∀ size' ∈ memorySizes n, size ≤ size' →
          miss .OPT size' ≤ miss .OPT size ∧ miss .LRU size' ≤ miss .LRU size := by
  intro n miss
  refine ⟨?_, ?_, ?_⟩
  · intro policy size hsize
    obtain ⟨s, hs, -⟩ := exists_simulate policy random hsize addrList
    exact ⟨s, hs, (misses_eq hs).symm⟩
  · unfold runSimulations
    rw [readPages_map_repr]
    dsimp only [Option.bind_eq_bind, Option.bind_some]
    rw [foldl_sizes hpolicies]
    congr 2
    funext policy
    rw [List.nil_append]
    congr 1
    apply List.map_congr_left
    intro size hsize
    obtain ⟨hpos, hn⟩ := pos_of_mem_memorySizes hsize
    have hne : addrList ≠ [] := by
      rintro rfl
      exact hn rfl
    exact simulatePageReplacement_eq hfile random rate hne policy hpos
  · intro size hsize policy
    obtain ⟨hpos, -⟩ := pos_of_mem_memorySizes hsize
    obtain ⟨s, hs, hsim⟩ := exists_simulate policy random hpos addrList
    obtain ⟨o, ho, hopt⟩ := exists_simulate .OPT random hpos addrList
    have hle := hsim.schedule.card_le
    have heq := hsim.schedule.eq_card
    rw [Finset.sdiff_empty] at hle heq
    rw [Finset.union_empty] at heq
    have hmiss : miss policy size = s.miss := misses_eq hs
    have hmiss' : miss .OPT size = o.miss := misses_eq ho
    rw [hmiss, hmiss']
    refine ⟨hle, hopt.miss_le hsim.anySchedule le_rfl, fun h => heq h.ge, ?_⟩
    intro size' hsize' hsizes
    obtain ⟨hpos', -⟩ := pos_of_mem_memorySizes hsize'
    obtain ⟨o', ho', hopt'⟩ := exists_simulate .OPT random hpos' addrList
    obtain ⟨l, l', hl, hl', -, -, hlru⟩ :=
      exists_simulate_LRU hpos hsizes random random addrList
    have hmisses : miss .OPT size' = o'.miss ∧ miss .LRU size = l.miss ∧
        miss .LRU size' = l'.miss := ⟨misses_eq ho', misses_eq hl, misses_eq hl'⟩
    rw [hmisses.1, hmisses.2.1, hmisses.2.2]
    exact ⟨hopt'.miss_le hopt.anySchedule hsizes, hlru⟩

/-- The policies that are plotted, for three pages. -/
theorem runSimulations_eq_plotted :
    runSimulations firstPages (fun _ _ => "0.0000".toList) "output.txt".toList
        ([1, 2, 3, 1].map Nat.repr) [.FIFO, .LRU, .RAND, .OPT] =
      some ([1, 2, 3], fun policy =>
        if policy ∈ [Policy.FIFO, .LRU, .RAND, .OPT] then
          [1, 2, 3].map fun size => some (misses firstPages [1, 2, 3, 1] policy size)
        else []) :=
  (runSimulations_eq firstPages _ (by unfold Free; decide) (by decide) [1, 2, 3, 1]).2.1

end StyLinux.PageTrace
