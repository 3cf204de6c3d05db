import Mathlib.Tactic
import StyLinux.Lib.Fuel
import StyLinux.PageTrace.Model

/-!
# The search of the policy `OPT`

The search compares the elements of the address list with a page, where the plain scan converts
them first. It finds no page in a list of strings. Then each page in memory seems to be referenced
never again, which is right exactly if, from the point on where a page must be replaced, pages are
accessed again only directly after themselves.
-/

namespace StyLinux.PageTrace

open Lib Lib.Python

/-! ### Optimal replacements -/

/-- The elements of the address list denote the pages. -/
def Supplies (interpreter : Interpreter) (addrList : List Element) (pages : List ℤ) : Prop :=
  List.Forall₂ (fun element n => element.toInt interpreter = .ok n) addrList pages

/-- The next access to the page behind the index `k`, the number of pages if there is none. -/
def nextUse (pages : List ℤ) (k : ℕ) (page : ℤ) : ℕ :=
  k + 1 + (pages.drop (k + 1)).idxOf page

section Replacements

variable (interpreter : Interpreter) (cachesize : ℕ) (addrList : List Element) (pages : List ℤ)

/-- In the run over the address list, `s` is the state before access `k`, which replaces a page
by `n`. -/
structure Replaces (k : ℕ) (n : ℤ) (s : Cache) : Prop where
  before : optLoop interpreter cachesize addrList (addrList.take k) 0 emptyCache = .ok s
  access : pages[k]? = some n
  miss : n ∉ s.memory
  full : s.count = cachesize

/-- Both searches find the same for each page in memory. -/
def Agrees (k : ℕ) (s : Cache) : Prop :=
  ∀ page ∈ s.memory,
    plainReferenced interpreter addrList k page = .ok (fastReferenced addrList k page)

/-- The victim is a page in memory whose next use is latest. -/
def EvictsLatest (k : ℕ) (n : ℤ) (s : Cache) : Prop :=
  ∃ victim s', accessOpt cachesize addrList k n s = .ok (victim, s') ∧ victim ∈ s.memory ∧
    ∀ page ∈ s.memory, nextUse pages k page ≤ nextUse pages k victim

/-- What is promised of every replacement of the run. -/
def Optimal : Prop :=
  ∀ k n s, Replaces interpreter cachesize addrList pages k n s →
    Agrees interpreter addrList k s ∧ EvictsLatest cachesize addrList pages k n s

/-- Once more pages than fit into the cache have been accessed, a page is accessed again only
directly after itself. -/
def RepeatsAtOnce : Prop :=
  ∀ k page, cachesize < (pages.take (k + 1)).toFinset.card → pages[k]? = some page →
    page ∈ pages.take k → pages[k - 1]? = some page

end Replacements

variable {interpreter : Interpreter} {cachesize : ℕ} {addrList : List Element} {pages : List ℤ}
  {k : ℕ} {n page : ℤ} {s : Cache}

/-! ### The searches -/

lemma scanLoop_eq {future : List Element} {future' : List ℤ}
    (h : Supplies interpreter future future') (page : ℤ) (futureIdx : ℕ) :
    scanLoop interpreter page (futureIdx + future.length) future futureIdx =
      .ok (futureIdx + future'.idxOf page) := by
  induction h generalizing futureIdx with
  | nil => rfl
  | @cons element n future future' helement _ ih =>
    rw [scanLoop, helement, ok_bind]
    split_ifs with heq
    · simp [heq]
    · rw [List.idxOf_cons_ne _ (Ne.symm heq), List.length_cons]
      have hrest := ih (futureIdx + 1)
      rw [show futureIdx + 1 + future.length = futureIdx + (future.length + 1) by omega] at hrest
      rw [hrest]
      congr 1
      omega

/-- The plain scan finds the next access. -/
lemma plainReferenced_eq (h : Supplies interpreter addrList pages) (hk : k < pages.length)
    (page : ℤ) : plainReferenced interpreter addrList k page = .ok (nextUse pages k page) := by
  have hlength := h.length_eq
  have hdrop : Supplies interpreter (addrList.drop (k + 1)) (pages.drop (k + 1)) :=
    List.forall₂_drop (k + 1) h
  have hscan := scanLoop_eq hdrop page (k + 1)
  rw [List.length_drop,
    show k + 1 + (addrList.length - (k + 1)) = addrList.length by omega] at hscan
  exact hscan

lemma nextUse_eq_length_iff (hk : k < pages.length) :
    nextUse pages k page = pages.length ↔ page ∉ pages.drop (k + 1) := by
  rw [← List.idxOf_eq_length_iff, List.length_drop, nextUse]
  omega

lemma idxOf?_ints (ns : List ℤ) (page : ℤ) : (ns.map Element.int).idxOf? (.int page) =
    if page ∈ ns then some (ns.idxOf page) else none := by
  induction ns with
  | nil => rfl
  | cons n ns ih =>
    rw [List.map_cons, List.idxOf?_cons, ih]
    by_cases hn : n = page
    · simp [hn]
    · have hn' : page ≠ n := Ne.symm hn
      rw [List.idxOf_cons_ne _ hn]
      by_cases hmem : page ∈ ns
      · simp [hn, hn', hmem]
      · simp [hn, hn', hmem]

/-- The fast search finds the next access in a list of integers. -/
lemma fastReferenced_ints (hk : k < pages.length) (page : ℤ) :
    fastReferenced (pages.map .int) k page = nextUse pages k page := by
  rw [fastReferenced, index, ← List.map_drop, idxOf?_ints, List.length_map]
  by_cases hmem : page ∈ pages.drop (k + 1)
  · rw [if_pos hmem]
    rfl
  · rw [if_neg hmem]
    exact ((nextUse_eq_length_iff hk).mpr hmem).symm

lemma idxOf_natCast (ns : List ℕ) (page : ℕ) :
    (ns.map (Nat.cast : ℕ → ℤ)).idxOf (page : ℤ) = ns.idxOf page := by
  induction ns with
  | nil => rfl
  | cons n ns ih =>
    rw [List.map_cons]
    by_cases hn : n = page
    · simp [hn]
    · rw [List.idxOf_cons_ne _ hn, List.idxOf_cons_ne _ (by exact_mod_cast hn), ih]

/-- In a list of natural numbers it finds what the simulation of page traces uses. -/
lemma fastReferenced_natCast (ns : List ℕ) (k page : ℕ) :
    fastReferenced ((ns.map (Nat.cast : ℕ → ℤ)).map .int) k page = whenReferenced ns k page := by
  have hmem : (page : ℤ) ∈ (ns.drop (k + 1)).map (Nat.cast : ℕ → ℤ) ↔ page ∈ ns.drop (k + 1) := by
    rw [List.mem_map_of_injective Nat.cast_injective]
  rw [fastReferenced, index, ← List.map_drop, ← List.map_drop, idxOf?_ints, idxOf_natCast,
    whenReferenced]
  by_cases h : page ∈ ns.drop (k + 1)
  · rw [if_pos (hmem.mpr h), if_pos h]
    push_cast
    rfl
  · rw [if_neg (fun h' => h (hmem.mp h')), if_neg h, List.length_map, List.length_map]

/-- The fast search finds nothing in a list of strings. -/
lemma fastReferenced_strs (texts : List (List Char)) (k : ℕ) (page : ℤ) :
    fastReferenced (texts.map .str) k page = texts.length := by
  have hnone : ((texts.map Element.str).drop (k + 1)).idxOf? (.int page) = none := by
    rw [List.idxOf?_eq_none_iff, ← List.map_drop]
    intro hmem
    obtain ⟨text, -, htext⟩ := List.mem_map.mp hmem
    cases htext
  rw [fastReferenced, index, hnone, List.length_map]

/-! ### The memory -/

/-- The memory behind the accesses to the pages `seen`: without repetition, as many of them as fit
into the cache, among them the last one. -/
structure Holds (cachesize : ℕ) (seen : List ℤ) (s : Cache) : Prop where
  nodup : s.memory.Nodup
  count : s.count = s.memory.length
  count_eq : s.count = min seen.toFinset.card cachesize
  subset : ∀ page ∈ s.memory, page ∈ seen
  last : ∀ page, seen.getLast? = some page → page ∈ s.memory

lemma holds_emptyCache : Holds cachesize [] emptyCache := by
  refine ⟨List.nodup_nil, rfl, by simp [emptyCache], ?_, ?_⟩
  · simp [emptyCache]
  · simp

section Memory

variable {seen : List ℤ}

/-- The memory holds all pages as long as they fit into the cache. -/
lemma Holds.mem (hs : Holds cachesize seen s) (hle : seen.toFinset.card ≤ cachesize)
    (hpage : page ∈ seen) : page ∈ s.memory := by
  have hsub : s.memory.toFinset ⊆ seen.toFinset := by
    intro p hp
    exact List.mem_toFinset.mpr (hs.subset p (List.mem_toFinset.mp hp))
  have hcard : s.memory.toFinset.card = s.memory.length := List.toFinset_card_of_nodup hs.nodup
  have hcount := hs.count
  have hmin := hs.count_eq
  rw [min_eq_left hle] at hmin
  have heq := Finset.eq_of_subset_of_card_le hsub (by omega)
  rw [← List.mem_toFinset, heq]
  exact List.mem_toFinset.mpr hpage

lemma card_concat_of_mem (hn : n ∈ seen) :
    (seen ++ [n]).toFinset.card = seen.toFinset.card := by
  rw [List.toFinset_append, Finset.union_eq_left.mpr]
  simpa using hn

lemma card_concat_of_notMem (hn : n ∉ seen) :
    (seen ++ [n]).toFinset.card = seen.toFinset.card + 1 := by
  have hnot : n ∉ seen.toFinset := by simpa using hn
  rw [List.toFinset_append, List.toFinset_cons, List.toFinset_nil, insert_empty_eq,
    Finset.union_comm, Finset.singleton_union, Finset.card_insert_of_notMem hnot]

lemma mem_of_getLast?_concat {memory : List ℤ} (hn : n ∈ memory)
    (hpage : (seen ++ [n]).getLast? = some page) : page ∈ memory := by
  rw [List.getLast?_concat] at hpage
  cases hpage
  exact hn

lemma mem_concat_of_subset {memory : List ℤ} (hsub : ∀ page ∈ memory, page ∈ seen)
    (hpage : page ∈ memory ++ [n]) : page ∈ seen ++ [n] := by
  rcases List.mem_append.mp hpage with hpage | hpage
  · exact List.mem_append_left _ (hsub page hpage)
  · exact List.mem_append_right _ hpage

/-- An access that replaces a page is one to a page too many for the cache. -/
lemma Holds.lt_card (hs : Holds cachesize seen s) (hmiss : n ∉ s.memory)
    (hfull : s.count = cachesize) : cachesize < (seen ++ [n]).toFinset.card := by
  have hmin := hs.count_eq
  have hle : cachesize ≤ seen.toFinset.card := by
    rw [hfull] at hmin
    exact (min_eq_right_iff.mp hmin.symm)
  by_cases hn : n ∈ seen
  · rw [card_concat_of_mem hn]
    refine lt_of_le_of_ne hle ?_
    intro heq
    exact hmiss (hs.mem heq.ge hn)
  · rw [card_concat_of_notMem hn]
    omega

/-- The victim of a replacement is a page in memory that the search puts latest. -/
lemma exists_pop (addrList : List Element) (hs : Holds cachesize seen s) (hne : s.memory ≠ [])
    (k : ℕ) :
    ∃ j, ∃ hj : j < s.memory.length,
      Python.pop s.memory (optIdx addrList k s) = .ok (s.memory[j], s.memory.eraseIdx j) ∧
      ∀ page ∈ s.memory,
        fastReferenced addrList k page ≤ fastReferenced addrList k s.memory[j] := by
  have htake : s.memory.take s.count = s.memory := by
    rw [hs.count, List.take_length]
  unfold optIdx
  rw [htake]
  rcases scan_greatest (fun page => (fastReferenced addrList k page : ℤ)) s.memory 0 (-1) (-1) with
    ⟨-, hlt⟩ | ⟨j, hj, hscan, -, hall⟩
  · obtain ⟨page, memory, hmemory⟩ := List.exists_cons_of_ne_nil hne
    have hneg := hlt page (by simp [hmemory])
    omega
  · refine ⟨j, hj, ?_, fun page hpage => by exact_mod_cast hall page hpage⟩
    rw [hscan, zero_add]
    exact Python.pop_eq hj

/-- A replacement evicts a page that the search puts latest. -/
lemma exists_replacement (addrList : List Element) (hs : Holds cachesize seen s)
    (hcache : 1 ≤ cachesize) (k : ℕ) (hmiss : n ∉ s.memory) (hfull : s.count = cachesize) :
    ∃ victim s', accessOpt cachesize addrList k n s = .ok (victim, s') ∧
      Holds cachesize (seen ++ [n]) s' ∧ victim ∈ s.memory ∧
      ∀ page ∈ s.memory, fastReferenced addrList k page ≤ fastReferenced addrList k victim := by
  have hne : s.memory ≠ [] := by
    intro hnil
    have hcount := hs.count
    rw [hnil, List.length_nil] at hcount
    omega
  obtain ⟨j, hj, hpop, hall⟩ := exists_pop addrList hs hne k
  obtain ⟨hvictim, hnodup, hlength⟩ := nodup_replace hs.nodup hj hmiss
  have hlt := hs.lt_card hmiss hfull
  refine ⟨s.memory[j], { s with memory := s.memory.eraseIdx j ++ [n], miss := s.miss + 1 }, ?_,
    ⟨hnodup, hs.count.trans hlength.symm, ?_, ?_, ?_⟩, List.getElem_mem hj, hall⟩
  · rw [accessOpt, if_neg hmiss, if_pos hfull, hpop, ok_bind]
    exact if_neg fun h => hvictim h.2
  · exact hfull.trans (min_eq_right hlt.le).symm
  · intro page hpage
    exact mem_concat_of_subset (fun p hp => hs.subset p (List.mem_of_mem_eraseIdx hp)) hpage
  · intro page hpage
    exact mem_of_getLast?_concat (by simp) hpage

/-- What an access does to the memory. -/
lemma exists_accessOpt (addrList : List Element) (hs : Holds cachesize seen s)
    (hcache : 1 ≤ cachesize) (k : ℕ) (n : ℤ) :
    ∃ victim s', accessOpt cachesize addrList k n s = .ok (victim, s') ∧
      Holds cachesize (seen ++ [n]) s' := by
  by_cases hmem : n ∈ s.memory
  · refine ⟨_, _, if_pos hmem, hs.nodup, hs.count, ?_, ?_, ?_⟩
    · rw [card_concat_of_mem (hs.subset n hmem)]
      exact hs.count_eq
    · exact fun page hpage => List.mem_append_left _ (hs.subset page hpage)
    · intro page hpage
      exact mem_of_getLast?_concat hmem hpage
  · by_cases hfull : s.count = cachesize
    · obtain ⟨victim, s', haccess, hholds, -, -⟩ :=
        exists_replacement addrList hs hcache k hmem hfull
      exact ⟨victim, s', haccess, hholds⟩
    · have hlt : seen.toFinset.card < cachesize := by
        have hmin := hs.count_eq
        omega
      have hn : n ∉ seen := fun hn => hmem (hs.mem hlt.le hn)
      refine ⟨_, _, (if_neg hmem).trans (if_neg hfull), ?_, ?_, ?_, ?_, ?_⟩
      · exact List.Nodup.append hs.nodup (List.nodup_singleton n) (by simpa using hmem)
      · rw [List.length_append, List.length_singleton, hs.count]
      · have hmin := hs.count_eq
        rw [card_concat_of_notMem hn]
        dsimp only
        omega
      · intro page hpage
        exact mem_concat_of_subset hs.subset hpage
      · intro page hpage
        exact mem_of_getLast?_concat (by simp) hpage

end Memory

/-! ### The run -/

/-- The loop over further elements. -/
lemma exists_optLoop (addrList : List Element) {rest : List Element} {ns seen : List ℤ}
    (h : Supplies interpreter rest ns) (hs : Holds cachesize seen s) (hcache : 1 ≤ cachesize)
    (k : ℕ) :
    ∃ s', optLoop interpreter cachesize addrList rest k s = .ok s' ∧
      Holds cachesize (seen ++ ns) s' := by
  induction h generalizing s seen k with
  | nil => exact ⟨s, rfl, by rwa [List.append_nil]⟩
  | @cons element n rest ns helement _ ih =>
    obtain ⟨victim, t, haccess, ht⟩ := exists_accessOpt addrList hs hcache k n
    obtain ⟨s', hloop, hs'⟩ := ih ht (k + 1)
    refine ⟨s', ?_, by simpa using hs'⟩
    rw [optLoop, helement, ok_bind, haccess, ok_bind]
    exact hloop

/-- The memory before access `k`. -/
lemma exists_before (h : Supplies interpreter addrList pages) (hcache : 1 ≤ cachesize) (k : ℕ) :
    ∃ s, optLoop interpreter cachesize addrList (addrList.take k) 0 emptyCache = .ok s ∧
      Holds cachesize (pages.take k) s := by
  have htake : Supplies interpreter (addrList.take k) (pages.take k) := List.forall₂_take k h
  obtain ⟨s, hloop, hs⟩ := exists_optLoop addrList htake holds_emptyCache hcache 0
  exact ⟨s, hloop, by simpa using hs⟩

lemma Replaces.lt (hr : Replaces interpreter cachesize addrList pages k n s) :
    k < pages.length :=
  (List.getElem?_eq_some_iff.mp hr.access).1

lemma Replaces.holds (h : Supplies interpreter addrList pages) (hcache : 1 ≤ cachesize)
    (hr : Replaces interpreter cachesize addrList pages k n s) :
    Holds cachesize (pages.take k) s := by
  obtain ⟨s', hloop, hs⟩ := exists_before h hcache k
  rw [hr.before] at hloop
  cases hloop
  exact hs

/-- Where both searches agree, the victim is a page whose next use is latest. -/
lemma Replaces.evictsLatest (h : Supplies interpreter addrList pages) (hcache : 1 ≤ cachesize)
    (hr : Replaces interpreter cachesize addrList pages k n s)
    (hagrees : Agrees interpreter addrList k s) : EvictsLatest cachesize addrList pages k n s := by
  have hnext : ∀ page ∈ s.memory, fastReferenced addrList k page = nextUse pages k page := by
    intro page hpage
    have heq := hagrees page hpage
    rw [plainReferenced_eq h hr.lt] at heq
    exact (Except.ok.inj heq).symm
  obtain ⟨victim, s', haccess, -, hvictim, hall⟩ := exists_replacement addrList
    (hr.holds h hcache) hcache k hr.miss hr.full
  refine ⟨victim, s', haccess, hvictim, ?_⟩
  intro page hpage
  rw [← hnext page hpage, ← hnext victim hvictim]
  exact hall page hpage

/-! ### Lists of strings -/

lemma take_succ_of_getElem? (hn : pages[k]? = some n) :
    pages.take (k + 1) = pages.take k ++ [n] := by
  rw [List.take_add_one, hn]
  rfl

lemma card_take_le (pages : List ℤ) {l : ℕ} (hkl : k ≤ l) :
    (pages.take k).toFinset.card ≤ (pages.take l).toFinset.card := by
  have hbegins : pages.take k <+: pages.take l := List.take_prefix_take_left hkl
  refine Finset.card_le_card ?_
  intro page hpage
  exact List.mem_toFinset.mpr (hbegins.subset (List.mem_toFinset.mp hpage))

lemma card_take_succ_le (pages : List ℤ) (k : ℕ) :
    (pages.take (k + 1)).toFinset.card ≤ (pages.take k).toFinset.card + 1 := by
  cases hn : pages[k]? with
  | none =>
    have hlen := List.getElem?_eq_none_iff.mp hn
    rw [List.take_of_length_le hlen, List.take_of_length_le (by omega)]
    omega
  | some n =>
    rw [take_succ_of_getElem? hn]
    by_cases hmem : n ∈ pages.take k
    · rw [card_concat_of_mem hmem]
      omega
    · rw [card_concat_of_notMem hmem]

lemma mem_take_of_getElem? {l : ℕ} (hn : pages[k]? = some n) (hkl : k < l) : n ∈ pages.take l := by
  refine List.mem_iff_getElem?.mpr ⟨k, ?_⟩
  rw [List.getElem?_take, if_pos hkl, hn]

lemma mem_drop_of_getElem? {l : ℕ} (hn : pages[l]? = some n) (hkl : k ≤ l) : n ∈ pages.drop k := by
  refine List.mem_iff_getElem?.mpr ⟨l - k, ?_⟩
  rw [List.getElem?_drop, Nat.add_sub_cancel' hkl, hn]

/-- The last access to a page before `k`. -/
lemma exists_last (hmem : page ∈ pages.take k) :
    ∃ j < k, pages[j]? = some page ∧ ∀ i, j < i → i < k → pages[i]? ≠ some page := by
  induction k with
  | zero => simp at hmem
  | succ k ih =>
    by_cases hk : pages[k]? = some page
    · exact ⟨k, by omega, hk, fun i hi hi' => by omega⟩
    · have hmem' : page ∈ pages.take k := by
        rw [List.take_add_one] at hmem
        rcases List.mem_append.mp hmem with hmem | hmem
        · exact hmem
        · exact absurd (Option.mem_toList.mp hmem) hk
      obtain ⟨j, hj, hpage, hlast⟩ := ih hmem'
      refine ⟨j, by omega, hpage, ?_⟩
      intro i hi hi'
      rcases Nat.lt_succ_iff_lt_or_eq.mp hi' with hi' | rfl
      · exact hlast i hi hi'
      · exact hk

/-- A list of integers is searched right. -/
lemma agrees_of_ints {ns : List ℤ} (h : Supplies interpreter (ns.map .int) pages)
    (hk : k < pages.length) : Agrees interpreter (ns.map .int) k s := by
  have hns : ns = pages := by
    have hall := List.forall₂_map_left_iff.mp h
    simpa [Element.toInt] using hall
  intro page _
  rw [plainReferenced_eq h hk, hns, fastReferenced_ints hk]

/-- In a list of strings the searches agree on the pages in memory that are not accessed later. -/
lemma agrees_strs_iff {texts : List (List Char)} (h : Supplies interpreter (texts.map .str) pages)
    (hk : k < pages.length) :
    Agrees interpreter (texts.map .str) k s ↔ ∀ page ∈ s.memory, page ∉ pages.drop (k + 1) := by
  have hlength : texts.length = pages.length := by
    rw [← h.length_eq, List.length_map]
  refine forall₂_congr ?_
  intro page _
  rw [plainReferenced_eq h hk, fastReferenced_strs, hlength, ← nextUse_eq_length_iff hk,
    Except.ok.injEq]

/-- No page in memory is accessed again behind a replacement, as it would not follow itself. -/
lemma RepeatsAtOnce.notMem_drop (hrepeats : RepeatsAtOnce cachesize pages)
    (hs : Holds cachesize (pages.take k) s) (hn : pages[k]? = some n) (hmiss : n ∉ s.memory)
    (hfull : s.count = cachesize) : ∀ page ∈ s.memory, page ∉ pages.drop (k + 1) := by
  intro page hpage hmem
  have hexists : ∃ i, pages[k + 1 + i]? = some page := by
    obtain ⟨i, hi⟩ := List.mem_iff_getElem?.mp hmem
    exact ⟨i, by rwa [List.getElem?_drop] at hi⟩
  classical
  set i := Nat.find hexists
  have hi : pages[k + 1 + i]? = some page := Nat.find_spec hexists
  have hcard := hs.lt_card hmiss hfull
  rw [← take_succ_of_getElem? hn] at hcard
  have hseen : page ∈ pages.take (k + 1 + i) :=
    (List.take_prefix_take_left (by omega : k ≤ k + 1 + i)).subset (hs.subset page hpage)
  have hmany := hcard.trans_le (card_take_le pages (by omega : k + 1 ≤ k + 1 + i + 1))
  have hbefore := hrepeats (k + 1 + i) page hmany hi hseen
  cases hcases : i with
  | zero =>
    rw [hcases, Nat.add_zero, Nat.add_sub_cancel, hn] at hbefore
    cases hbefore
    exact hmiss hpage
  | succ j =>
    rw [hcases, ← Nat.add_assoc, Nat.add_sub_cancel] at hbefore
    exact Nat.find_min hexists (by omega : j < Nat.find hexists) hbefore

/-- The first access too many for the cache replaces a page, when all pages accessed before it are
in memory. -/
lemma exists_replaces_of_card (h : Supplies interpreter addrList pages) (hcache : 1 ≤ cachesize)
    (hk : k < pages.length) (hlt : cachesize < (pages.take (k + 1)).toFinset.card) :
    ∃ r ≤ k, ∃ n s, Replaces interpreter cachesize addrList pages r n s ∧
      n ∉ pages.take r ∧ (pages.take r).toFinset.card ≤ cachesize ∧
      ∀ page ∈ pages.take r, page ∈ s.memory := by
  classical
  have hexists : ∃ r, cachesize < (pages.take (r + 1)).toFinset.card := ⟨k, hlt⟩
  set r := Nat.find hexists with hr
  have hrk : r ≤ k := Nat.find_min' hexists hlt
  have hfirst : cachesize < (pages.take (r + 1)).toFinset.card := Nat.find_spec hexists
  have hfits : (pages.take r).toFinset.card ≤ cachesize := by
    cases hcases : r with
    | zero => simp
    | succ l => exact not_lt.mp (Nat.find_min hexists (by omega : l < Nat.find hexists))
  obtain ⟨n, hn⟩ : ∃ n, pages[r]? = some n := ⟨_, List.getElem?_eq_getElem (by omega)⟩
  have hnew : n ∉ pages.take r := by
    intro hmem
    rw [take_succ_of_getElem? hn, card_concat_of_mem hmem] at hfirst
    omega
  obtain ⟨s, hbefore, hs⟩ := exists_before h hcache r
  refine ⟨r, hrk, n, s, ⟨hbefore, hn, fun hmem => hnew (hs.subset n hmem), ?_⟩, hnew, hfits,
    fun page hpage => hs.mem hfits hpage⟩
  have hsucc := card_take_succ_le pages r
  have hmin := hs.count_eq
  omega

/-- If no page in memory is accessed again behind a replacement, pages repeat at once. -/
lemma repeatsAtOnce_of_notMem_drop (h : Supplies interpreter addrList pages)
    (hcache : 1 ≤ cachesize)
    (hnot : ∀ k n s, Replaces interpreter cachesize addrList pages k n s →
      ∀ page ∈ s.memory, page ∉ pages.drop (k + 1)) : RepeatsAtOnce cachesize pages := by
  intro k
  induction k using Nat.strong_induction_on with
  | h k ih =>
    intro page hlt hpage hmem
    by_contra hne
    have hk : k < pages.length := (List.getElem?_eq_some_iff.mp hpage).1
    -- The last access to the page before `k` is followed by one to another page.
    obtain ⟨j, hjk, hj, hlast⟩ := exists_last hmem
    have hj1 : j + 1 < k := by
      rcases Nat.lt_or_ge (j + 1) k with hlt' | hge
      · exact hlt'
      · exact absurd (by rwa [show k - 1 = j by omega]) hne
    obtain ⟨n, hn⟩ : ∃ n, pages[j + 1]? = some n := ⟨_, List.getElem?_eq_getElem (by omega)⟩
    obtain ⟨s, hbefore, hs⟩ := exists_before h hcache (j + 1)
    have hheld : page ∈ s.memory := by
      refine hs.last page ?_
      rw [take_succ_of_getElem? hj, List.getLast?_concat]
    by_cases hmany : cachesize < (pages.take (j + 1 + 1)).toFinset.card
    · by_cases hhit : n ∈ s.memory
      · -- A hit is an access again that does not follow itself.
        have hprev := ih (j + 1) hj1 n hmany hn (hs.subset n hhit)
        rw [Nat.add_sub_cancel, hj] at hprev
        cases hprev
        exact hlast (j + 1) (by omega) hj1 hn
      · have hfull : s.count = cachesize := by
          have hsucc := card_take_succ_le pages (j + 1)
          have hmin := hs.count_eq
          omega
        exact hnot (j + 1) n s ⟨hbefore, hn, hhit, hfull⟩ page hheld
          (mem_drop_of_getElem? hpage hj1)
    · obtain ⟨r, hrk, m, t, hreplaces, hnew, hfits, hall⟩ := exists_replaces_of_card h hcache hk hlt
      have hjr : j + 1 ≤ r := by
        by_contra hlt'
        have hle := card_take_le pages (by omega : r + 1 ≤ j + 1 + 1)
        have hcard := (hreplaces.holds h hcache).lt_card hreplaces.miss hreplaces.full
        rw [← take_succ_of_getElem? hreplaces.access] at hcard
        omega
      have hrk' : r < k := by
        refine lt_of_le_of_ne hrk ?_
        rintro rfl
        rw [hreplaces.access] at hpage
        cases hpage
        exact hnew hmem
      exact hnot r m t hreplaces page (hall page (mem_take_of_getElem? hj hjr))
        (mem_drop_of_getElem? hpage hrk')

/-! ### Supplied lists -/

/-- The address list consists of strings exactly if it is given with option `-a`. -/
lemma addressList_cases {addresses : List Char} {addressFile : Option (List Char)}
    {generated : List ℤ}
    (h : addressList interpreter addresses addressFile generated = .ok addrList) :
    ((addressFile ≠ none ∨ addresses = ['-', '1']) ∧ ∃ ns : List ℤ, addrList = ns.map .int) ∨
      (¬(addressFile ≠ none ∨ addresses = ['-', '1']) ∧
        ∃ texts : List (List Char), addrList = texts.map .str) := by
  unfold addressList at h
  cases addressFile with
  | some text =>
    obtain ⟨ns, -, hns⟩ := bind_eq_ok.mp h
    cases hns
    exact .inl ⟨.inl (Option.some_ne_none text), ns, rfl⟩
  | none =>
    dsimp only at h
    split_ifs at h with haddresses
    · cases h
      exact .inl ⟨.inr haddresses, generated, rfl⟩
    · cases h
      exact .inr ⟨by simpa using haddresses, addresses.splitOn ',', rfl⟩

/-- At every replacement of the run both searches agree, and the victim is a page whose next use
is latest, exactly if the address list is not given with option `-a` or pages repeat at once. -/
theorem optimal_iff {addresses : List Char} {addressFile : Option (List Char)}
    {generated : List ℤ}
    (hlist : addressList interpreter addresses addressFile generated = .ok addrList)
    (hpages : Supplies interpreter addrList pages) (hcache : 1 ≤ cachesize) :
    Optimal interpreter cachesize addrList pages ↔
      (addressFile ≠ none ∨ addresses = ['-', '1']) ∨ RepeatsAtOnce cachesize pages := by
  have hoptimal : Optimal interpreter cachesize addrList pages ↔
      ∀ k n s, Replaces interpreter cachesize addrList pages k n s →
        Agrees interpreter addrList k s := by
    constructor
    · exact fun h k n s hr => (h k n s hr).1
    · exact fun h k n s hr => ⟨h k n s hr, hr.evictsLatest hpages hcache (h k n s hr)⟩
  rw [hoptimal]
  rcases addressList_cases hlist with ⟨hints, ns, rfl⟩ | ⟨hstrs, texts, rfl⟩
  · refine iff_of_true ?_ (.inl hints)
    exact fun k n s hr => agrees_of_ints hpages hr.lt
  · rw [or_iff_right hstrs]
    constructor
    · intro h
      refine repeatsAtOnce_of_notMem_drop hpages hcache ?_
      exact fun k n s hr => (agrees_strs_iff hpages hr.lt).mp (h k n s hr)
    · intro hrepeats k n s hr
      rw [agrees_strs_iff hpages hr.lt]
      exact hrepeats.notMem_drop (hr.holds hpages hcache) hr.access hr.miss hr.full

/-- Four addresses given with option `-a`. -/
def fourAddresses : List Element :=
  [.str ['1'], .str ['2'], .str ['3'], .str ['2']]

lemma addressList_fourAddresses :
    addressList ascii "1,2,3,2".toList none [] = .ok fourAddresses := by decide

lemma supplies_fourAddresses : Supplies ascii fourAddresses [1, 2, 3, 2] := by
  simp only [Supplies, fourAddresses, List.forall₂_cons]
  decide

theorem optimal_iff_fourAddresses :
    Optimal ascii 2 fourAddresses [1, 2, 3, 2] ↔
      ((none : Option (List Char)) ≠ none ∨ "1,2,3,2".toList = ['-', '1']) ∨
        RepeatsAtOnce 2 [1, 2, 3, 2] :=
  optimal_iff addressList_fourAddresses supplies_fourAddresses (by decide)

/-- With a cache of two pages page 3 replaces page 2, which is accessed next, and not page 1, which
is never accessed again. -/
theorem not_optimal_fourAddresses :
    addressList ascii "1,2,3,2".toList none [] = .ok fourAddresses ∧
      Supplies ascii fourAddresses [1, 2, 3, 2] ∧
      ¬Optimal ascii 2 fourAddresses [1, 2, 3, 2] ∧
      ¬EvictsLatest 2 fourAddresses [1, 2, 3, 2] 2 3 ⟨2, [1, 2], 0, 2⟩ := by
  refine ⟨addressList_fourAddresses, supplies_fourAddresses, ?_, ?_⟩
  · intro hoptimal
    have hreplaces : Replaces ascii 2 fourAddresses [1, 2, 3, 2] 2 3 ⟨2, [1, 2], 0, 2⟩ :=
      ⟨by decide, rfl, by decide, rfl⟩
    have hagrees := (hoptimal 2 3 _ hreplaces).1 2 (by decide)
    revert hagrees
    decide
  · rintro ⟨victim, s', haccess, -, hall⟩
    have hvictim : accessOpt 2 fourAddresses 2 3 ⟨2, [1, 2], 0, 2⟩ =
        .ok (2, ⟨2, [1, 3], 0, 3⟩) := by decide
    rw [hvictim] at haccess
    cases haccess
    have hle := hall 1 (by decide)
    revert hle
    decide

end StyLinux.PageTrace
