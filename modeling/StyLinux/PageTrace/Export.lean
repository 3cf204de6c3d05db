import Mathlib
import StyLinux.PageTrace.Model

/-!
# Simulating an exported trace

The exported trace lacks the accesses to the page accessed just before. Each of them is a hit that
leaves the memory as it is, and without them the pages are referenced next in the same order.
-/

namespace StyLinux.PageTrace

open Lib

variable {policy : Policy} {cachesize : ℕ} {random : RandomStream} {addrList addrList' : List ℕ}
  {addrIndex addrIndex' n : ℕ} {s s' t t' : Simulation}

/-! ### The next references -/

lemma idxOf_cons_of_ne {a p : ℕ} (h : p ≠ a) (as : List ℕ) :
    (a :: as).idxOf p = as.idxOf p + 1 :=
  List.idxOf_cons_ne as (Ne.symm h)

/-- The first positions of two other pages compare as before. -/
lemma idxOf_exportLoop_le {prev p q : ℕ} (hp : p ≠ prev) (hq : q ≠ prev) (pages : List ℕ) :
    (exportLoop prev pages).idxOf p ≤ (exportLoop prev pages).idxOf q ↔
      pages.idxOf p ≤ pages.idxOf q := by
  induction pages generalizing prev with
  | nil => simp [exportLoop]
  | cons page pages ih =>
    unfold exportLoop
    by_cases hpage : page = prev
    · rw [if_neg (not_not.mpr hpage), idxOf_cons_of_ne (hpage ▸ hp),
        idxOf_cons_of_ne (hpage ▸ hq), add_le_add_iff_right]
      exact ih (hpage ▸ hp) (hpage ▸ hq)
    · rw [if_pos hpage]
      by_cases hpp : p = page
      · simp [hpp]
      · rw [idxOf_cons_of_ne hpp, idxOf_cons_of_ne hpp]
        by_cases hqp : q = page
        · simp [hqp]
        · rw [idxOf_cons_of_ne hqp, idxOf_cons_of_ne hqp, add_le_add_iff_right,
            add_le_add_iff_right]
          exact ih hpp hqp

/-- The page is referenced where it first occurs in the rest of the list. -/
lemma whenReferenced_eq {n : ℕ} {rest : List ℕ} (h : addrList.drop addrIndex = n :: rest)
    (page : ℕ) : whenReferenced addrList addrIndex page = addrIndex + 1 + rest.idxOf page := by
  have hrest : addrList.drop (addrIndex + 1) = rest := by
    rw [← List.tail_drop, h, List.tail_cons]
  have hlength : addrList.length = addrIndex + 1 + rest.length := by
    have hlen := congrArg List.length h
    rw [List.length_drop, List.length_cons] at hlen
    omega
  unfold whenReferenced
  rw [hrest]
  dsimp only
  split
  case isTrue hmem => rfl
  case isFalse hmem =>
    rw [List.idxOf_of_notMem hmem, hlength]
    push_cast
    rfl

lemma whenReferenced_nonneg (addrList : List ℕ) (addrIndex page : ℕ) :
    0 ≤ whenReferenced addrList addrIndex page := by
  unfold whenReferenced
  dsimp only
  split <;> omega

lemma whenReferenced_le (addrList : List ℕ) (addrIndex page : ℕ) :
    whenReferenced addrList addrIndex page ≤ addrList.length := by
  unfold whenReferenced
  dsimp only
  split
  case isTrue hmem =>
    have hlt := List.idxOf_lt_length_of_mem hmem
    rw [List.length_drop] at hlt
    omega
  case isFalse => rfl

/-! ### The memory -/

/-- The memory holds `count` pages, without repetition. -/
structure Good (cachesize : ℕ) (s : Simulation) : Prop where
  nodup : s.memory.Nodup
  count : s.count = s.memory.length
  le : s.count ≤ cachesize

lemma replaceIdx_mem (policy : Policy) (random : RandomStream) (addrList : List ℕ)
    (addrIndex : ℕ) (hs : Good cachesize s) (hne : s.memory ≠ []) :
    0 ≤ replaceIdx policy random addrList addrIndex s ∧
      replaceIdx policy random addrList addrIndex s < s.memory.length := by
  have hpos : 0 < s.memory.length := List.length_pos_of_ne_nil hne
  have htake : s.memory.take s.count = s.memory := by
    rw [hs.count, List.take_length]
  cases policy with
  | FIFO | LRU | MRU =>
    simp only [replaceIdx, hs.count]
    omega
  | RAND =>
    have hlt := random.pick_lt s.draws s.memory.length hpos
    simp only [replaceIdx, hs.count]
    omega
  | OPT =>
    simp only [replaceIdx, htake]
    obtain ⟨p, rest, hmemory⟩ := List.exists_cons_of_ne_nil hne
    rw [hmemory]
    have hnonneg := whenReferenced_nonneg addrList addrIndex p
    have htakes : whenReferenced addrList addrIndex p ≥ -1 := by omega
    exact scan_mem htakes
  | UNOPT =>
    simp only [replaceIdx, htake]
    obtain ⟨p, rest, hmemory⟩ := List.exists_cons_of_ne_nil hne
    rw [hmemory]
    have hle := whenReferenced_le addrList addrIndex p
    have htakes : whenReferenced addrList addrIndex p < addrList.length + 1 := by omega
    exact scan_mem htakes

lemma pop_eq {memory : List ℕ} {i : ℕ} (h : i < memory.length) :
    pop memory i = some (memory[i], memory.eraseIdx i) := by
  unfold pop
  have hi : ¬(i : ℤ) < 0 := by omega
  simp [hi, h]

/-- Moving a page of the memory to its end. -/
lemma Good.touch (hs : Good cachesize s) {n : ℕ} (hmem : n ∈ s.memory) :
    (s.memory.erase n ++ [n]).Nodup ∧ s.count = (s.memory.erase n ++ [n]).length := by
  constructor
  · refine List.Nodup.append (hs.nodup.erase n) (List.nodup_singleton n) ?_
    rw [List.disjoint_singleton]
    exact hs.nodup.not_mem_erase
  · have hpos := List.length_pos_of_mem hmem
    rw [List.length_append, List.length_erase_of_mem hmem, List.length_singleton, hs.count]
    omega

/-- Replacing a page of the memory by another one. -/
lemma Good.replace (hs : Good cachesize s) {i n : ℕ} (hi : i < s.memory.length)
    (hmem : n ∉ s.memory) :
    s.memory[i] ∉ s.memory.eraseIdx i ++ [n] ∧ (s.memory.eraseIdx i ++ [n]).Nodup ∧
      s.count = (s.memory.eraseIdx i ++ [n]).length := by
  obtain ⟨hvictim, hnodup, hlength⟩ := Python.nodup_replace hs.nodup hi hmem
  exact ⟨hvictim, hnodup, hs.count.trans hlength.symm⟩

/-- What an access does, with the memory after it. -/
lemma exists_access (policy : Policy) (random : RandomStream) (addrList : List ℕ)
    (addrIndex n : ℕ) (hcache : 1 ≤ cachesize) (hs : Good cachesize s) :
    ∃ s', access policy cachesize random addrList addrIndex n s = some s' ∧
      Good cachesize s' ∧ n ∈ s'.memory ∧
      (policy = .LRU ∨ policy = .MRU → ∃ memory, s'.memory = memory ++ [n]) := by
  unfold access
  split
  case isTrue hmem =>
    obtain ⟨hnodup, hcount⟩ := hs.touch hmem
    refine ⟨_, rfl, ⟨?_, ?_, hs.le⟩, ?_, ?_⟩
    · dsimp only
      split
      · exact hnodup
      · exact hs.nodup
    · dsimp only
      split
      · exact hcount
      · exact hs.count
    · dsimp only
      split
      · simp
      · exact hmem
    · intro h
      exact ⟨_, if_pos h⟩
  case isFalse hmem =>
    split
    case isTrue hfull =>
      have hne : s.memory ≠ [] := by
        rintro hnil
        have hcount := hs.count
        rw [hnil, List.length_nil] at hcount
        omega
      obtain ⟨hnonneg, hlt⟩ := replaceIdx_mem policy random addrList addrIndex hs hne
      obtain ⟨i, hi⟩ := Int.eq_ofNat_of_zero_le hnonneg
      have hilt : i < s.memory.length := by omega
      obtain ⟨hvictim, hnodup, hcount⟩ := hs.replace hilt hmem
      rw [hi, pop_eq hilt]
      exact ⟨_, if_neg hvictim, ⟨hnodup, hcount, hs.le⟩, by simp, fun _ => ⟨_, rfl⟩⟩
    case isFalse hfull =>
      refine ⟨_, rfl, ⟨?_, ?_, ?_⟩, by simp, fun _ => ⟨_, rfl⟩⟩
      · exact List.Nodup.append hs.nodup (List.nodup_singleton n) (by simpa using hmem)
      · simp [hs.count]
      · have hle := hs.le
        dsimp only
        omega

/-! ### The two simulations -/

/-- The pages in memory are referenced next in the same order in both lists. -/
def SameOrder (addrList : List ℕ) (addrIndex : ℕ) (addrList' : List ℕ) (addrIndex' : ℕ)
    (memory : List ℕ) : Prop :=
  ∀ p ∈ memory, ∀ q ∈ memory,
    (whenReferenced addrList addrIndex p ≤ whenReferenced addrList addrIndex q ↔
      whenReferenced addrList' addrIndex' p ≤ whenReferenced addrList' addrIndex' q)

/-- The simulations of a list and of the one without `removed` of its entries. -/
structure Same (removed : ℕ) (s s' : Simulation) : Prop where
  count : s.count = s'.count
  memory : s.memory = s'.memory
  miss : s.miss = s'.miss
  draws : s.draws = s'.draws
  evicted : s.evicted = s'.evicted
  hits : s.hits = s'.hits + removed

lemma replaceIdx_same {removed : ℕ} (h : Same removed s s')
    (horder : SameOrder addrList addrIndex addrList' addrIndex' s.memory) :
    replaceIdx policy random addrList addrIndex s =
      replaceIdx policy random addrList' addrIndex' s' := by
  have htake : ∀ p ∈ s.memory.take s.count, p ∈ s.memory := fun p hp => List.mem_of_mem_take hp
  cases policy with
  | FIFO | LRU => rfl
  | MRU => simp only [replaceIdx, h.count]
  | RAND => simp only [replaceIdx, h.count, h.draws]
  | OPT =>
    simp only [replaceIdx, ← h.count, ← h.memory]
    apply scan_congr
    · intro p _
      have hp := whenReferenced_nonneg addrList addrIndex p
      have hp' := whenReferenced_nonneg addrList' addrIndex' p
      omega
    · intro p hp q hq
      exact horder p (htake p hp) q (htake q hq)
  | UNOPT =>
    simp only [replaceIdx, ← h.count, ← h.memory]
    apply scan_congr
    · intro p _
      have hp := whenReferenced_le addrList addrIndex p
      have hp' := whenReferenced_le addrList' addrIndex' p
      omega
    · intro p hp q hq
      have hpq := horder p (htake p hp) q (htake q hq)
      omega

lemma evicted_concat (s : Simulation) (x : Access) :
    ((s.trace ++ [x]).map Access.victim).filter (fun victim => victim ≠ -1) =
      s.evicted ++ [x.victim].filter fun victim => victim ≠ -1 := by
  simp [Simulation.evicted]

/-- Both simulations do the same when they access the same page. -/
lemma access_same {removed : ℕ} (h : Same removed s s')
    (horder : n ∉ s.memory → SameOrder addrList addrIndex addrList' addrIndex' s.memory)
    (ht : access policy cachesize random addrList addrIndex n s = some t) :
    ∃ t', access policy cachesize random addrList' addrIndex' n s' = some t' ∧
      Same removed t t' := by
  unfold access at ht ⊢
  rw [← h.memory, ← h.count, ← h.miss, ← h.draws]
  have hevicted (x x' : Access) (hx : x.victim = x'.victim) :
      ((s.trace ++ [x]).map Access.victim).filter (fun victim => victim ≠ -1) =
        ((s'.trace ++ [x']).map Access.victim).filter fun victim => victim ≠ -1 := by
    rw [evicted_concat, evicted_concat, h.evicted, hx]
  by_cases hmem : n ∈ s.memory
  · rw [if_pos hmem] at ht ⊢
    cases ht
    refine ⟨_, rfl, rfl, rfl, rfl, rfl, hevicted _ _ rfl, ?_⟩
    simp only [h.hits]
    omega
  · rw [if_neg hmem] at ht ⊢
    by_cases hfull : s.count = cachesize
    · rw [if_pos hfull] at ht ⊢
      rw [← replaceIdx_same h (horder hmem)]
      cases hpop : pop s.memory (replaceIdx policy random addrList addrIndex s) with
      | none =>
        rw [hpop] at ht
        cases ht
      | some x =>
        rw [hpop] at ht
        dsimp only [Option.bind_eq_bind, Option.bind_some] at ht ⊢
        by_cases hassert : x.1 ∈ x.2 ++ [n]
        · rw [if_pos hassert] at ht
          cases ht
        · rw [if_neg hassert] at ht ⊢
          cases ht
          exact ⟨_, rfl, rfl, rfl, rfl, rfl, hevicted _ _ rfl, h.hits⟩
    · rw [if_neg hfull] at ht ⊢
      cases ht
      exact ⟨_, rfl, rfl, rfl, rfl, rfl, hevicted _ _ rfl, h.hits⟩

/-- An access to the page accessed just before is a hit that changes nothing else. -/
lemma access_repeat (random : RandomStream) (addrList : List ℕ) (addrIndex : ℕ) {removed : ℕ}
    (h : Same removed s s') (hs : Good cachesize s) (hmem : n ∈ s.memory)
    (hlast : policy = .LRU ∨ policy = .MRU → ∃ memory, s.memory = memory ++ [n]) :
    ∃ t, access policy cachesize random addrList addrIndex n s = some t ∧
      Same (removed + 1) t s' ∧ t.memory = s.memory ∧ Good cachesize t := by
  have hmemory : (if policy = .LRU ∨ policy = .MRU then s.memory.erase n ++ [n] else s.memory) =
      s.memory := by
    split
    case isTrue hpolicy =>
      obtain ⟨memory, hmemory⟩ := hlast hpolicy
      have hnodup := hs.nodup
      rw [hmemory] at hnodup ⊢
      have hnot : n ∉ memory := by
        intro hn
        exact (List.nodup_append.mp hnodup).2.2 n hn n (by simp) rfl
      rw [List.erase_append_right _ hnot]
      simp
    case isFalse => rfl
  unfold access
  rw [if_pos hmem]
  refine ⟨_, rfl, ⟨h.count, ?_, h.miss, h.draws, ?_, ?_⟩, hmemory, ?_⟩
  · rw [← h.memory]
    exact hmemory
  · rw [Simulation.evicted, evicted_concat, h.evicted]
    simp
  · simp only [h.hits]
    omega
  · rw [hmemory]
    exact ⟨hs.nodup, hs.count, hs.le⟩

lemma sameOrder_exportLoop {rest : List ℕ} (hrest : addrList.drop addrIndex = n :: rest)
    (hrest' : addrList'.drop addrIndex' = n :: exportLoop n rest) {memory : List ℕ}
    (hmem : n ∉ memory) : SameOrder addrList addrIndex addrList' addrIndex' memory := by
  intro p hp q hq
  have hpn : p ≠ n := fun h => hmem (h ▸ hp)
  have hqn : q ≠ n := fun h => hmem (h ▸ hq)
  have hle := idxOf_exportLoop_le hpn hqn rest
  rw [whenReferenced_eq hrest, whenReferenced_eq hrest, whenReferenced_eq hrest',
    whenReferenced_eq hrest']
  omega

/-- The rest of both simulations behind an access to `prev`. -/
lemma accessLoop_same {removed prev : ℕ} {pages : List ℕ} (hcache : 1 ≤ cachesize)
    (h : Same removed s s') (hs : Good cachesize s) (hmem : prev ∈ s.memory)
    (hlast : policy = .LRU ∨ policy = .MRU → ∃ memory, s.memory = memory ++ [prev])
    (hpages : addrList.drop addrIndex = pages)
    (hpages' : addrList'.drop addrIndex' = exportLoop prev pages) :
    ∃ t t' removed', accessLoop policy cachesize random addrList pages addrIndex s = some t ∧
      accessLoop policy cachesize random addrList' (exportLoop prev pages) addrIndex' s' =
        some t' ∧
      pages.length + removed = (exportLoop prev pages).length + removed' ∧
      Same removed' t t' := by
  induction pages generalizing prev s s' removed addrIndex addrIndex' with
  | nil => exact ⟨s, s', removed, rfl, rfl, rfl, h⟩
  | cons page pages ih =>
    have hpages₂ : addrList.drop (addrIndex + 1) = pages := by
      rw [← List.tail_drop, hpages, List.tail_cons]
    by_cases hpage : page = prev
    · subst hpage
      have hexport : exportLoop page (page :: pages) = exportLoop page pages :=
        if_neg (not_not.mpr rfl)
      rw [hexport] at hpages' ⊢
      obtain ⟨u, hu, hsame, hmemory, hgood⟩ := access_repeat random addrList addrIndex h
        hs hmem hlast
      obtain ⟨t, t', removed', ht, ht', hlength, hend⟩ :=
        ih hsame hgood (hmemory ▸ hmem) (hmemory ▸ hlast) hpages₂ hpages'
      refine ⟨t, t', removed', ?_, ht', ?_, hend⟩
      · rw [accessLoop, hu]
        exact ht
      · rw [List.length_cons]
        omega
    · have hexport : exportLoop prev (page :: pages) = page :: exportLoop page pages :=
        if_pos hpage
      rw [hexport] at hpages' ⊢
      have hpages₂' : addrList'.drop (addrIndex' + 1) = exportLoop page pages := by
        rw [← List.tail_drop, hpages', List.tail_cons]
      obtain ⟨u, hu, hgood, hmem', hlast'⟩ := exists_access policy random addrList addrIndex
        page hcache hs
      obtain ⟨u', hu', hsame⟩ := access_same h (fun hn => sameOrder_exportLoop hpages hpages' hn) hu
      obtain ⟨t, t', removed', ht, ht', hlength, hend⟩ :=
        ih hsame hgood hmem' hlast' hpages₂ hpages₂'
      refine ⟨t, t', removed', ?_, ?_, ?_, hend⟩
      · rw [accessLoop, hu]
        exact ht
      · rw [accessLoop, hu']
        exact ht'
      · rw [List.length_cons, List.length_cons]
        omega

/-! ### Exported traces -/

lemma readAddresses_map_repr (pages : List ℕ) :
    readAddresses (pages.map Nat.repr) = some pages := by
  unfold readAddresses
  induction pages with
  | nil => rfl
  | cons page pages ih => simp [ih]

/-- The loop keeps what differs from the page before it in the list. -/
lemma cons_exportLoop (prev : ℕ) (pages : List ℕ) :
    prev :: exportLoop prev pages = pages.destutter' (· ≠ ·) prev := by
  induction pages generalizing prev with
  | nil => rfl
  | cons page pages ih =>
    unfold exportLoop
    by_cases hpage : page = prev
    · have hrel : ¬prev ≠ page := fun h => h hpage.symm
      rw [if_neg (not_not.mpr hpage), List.destutter'_cons_neg _ hrel, hpage]
      exact ih prev
    · have hrel : prev ≠ page := Ne.symm hpage
      rw [if_pos hpage, List.destutter'_cons_pos _ hrel, ih page]

lemma good_start : Good cachesize start := ⟨List.nodup_nil, rfl, Nat.zero_le _⟩

lemma same_start : Same 0 start start := ⟨rfl, rfl, rfl, rfl, rfl, rfl⟩

/-- The exported trace can be read and is the list without consecutive duplicates. Its simulation
has the misses and evictions of the simulation of the whole list, and its hits are fewer by the
number of the entries removed, which option `-x` accounts for. -/
theorem simulate_exportPageTrace {pages : List ℕ} (hpages : pages ≠ []) (hcache : 1 ≤ cachesize)
    (policy : Policy) (random : RandomStream) :
    ∃ addrList removed s s', readAddresses (exportPageTrace pages) = some addrList ∧
      addrList = pages.destutter (· ≠ ·) ∧
      pages.length = addrList.length + removed ∧
      simulate policy cachesize random pages = some s ∧
      simulate policy cachesize random addrList = some s' ∧
      s'.miss = s.miss ∧ s'.evicted = s.evicted ∧ s.hits = s'.hits + removed ∧
      s'.hitrate removed = s.hitrate 0 := by
  cases pages with
  | nil => exact absurd rfl hpages
  | cons page pages =>
    obtain ⟨u, hu, hgood, hmem, hlast⟩ :=
      exists_access policy random (page :: pages) 0 page hcache good_start
    have horder : page ∉ start.memory →
        SameOrder (page :: pages) 0 (page :: exportLoop page pages) 0 start.memory :=
      fun hn => sameOrder_exportLoop rfl rfl hn
    obtain ⟨u', hu', hsame⟩ := access_same same_start horder hu
    have hpages : (page :: pages).drop (0 + 1) = pages := rfl
    have hpages' : (page :: exportLoop page pages).drop (0 + 1) = exportLoop page pages := rfl
    obtain ⟨s, s', removed, hs, hs', hlength, hend⟩ :=
      accessLoop_same hcache hsame hgood hmem hlast hpages hpages'
    refine ⟨page :: exportLoop page pages, removed, s, s', ?_, ?_, ?_, ?_, ?_, hend.miss.symm,
      hend.evicted.symm, hend.hits, ?_⟩
    · exact readAddresses_map_repr _
    · exact cons_exportLoop page pages
    · rw [List.length_cons, List.length_cons]
      omega
    · rw [simulate, accessLoop, hu]
      exact hs
    · rw [simulate, accessLoop, hu']
      exact hs'
    · rw [Simulation.hitrate, Simulation.hitrate, hend.hits, hend.miss]
      push_cast
      ring

/-- The numbers drawn here always pick the first page. -/
def firstPages : RandomStream := ⟨fun _ _ => 0, fun _ _ h => h⟩

theorem simulate_exportPageTrace_optRun :
    ∃ removed s s', readAddresses (exportPageTrace [1, 1, 2, 3, 3, 1, 2, 2]) =
        some [1, 2, 3, 1, 2] ∧
      [1, 1, 2, 3, 3, 1, 2, 2].length = [1, 2, 3, 1, 2].length + removed ∧
      simulate .OPT 2 firstPages [1, 1, 2, 3, 3, 1, 2, 2] = some s ∧
      simulate .OPT 2 firstPages [1, 2, 3, 1, 2] = some s' ∧
      s'.miss = s.miss ∧ s'.evicted = s.evicted ∧ s.hits = s'.hits + removed ∧
      s'.hitrate removed = s.hitrate 0 := by
  have hpages : [1, 1, 2, 3, 3, 1, 2, 2] ≠ [] := by decide
  obtain ⟨addrList, removed, s, s', hread, hdestutter, hrest⟩ :=
    simulate_exportPageTrace hpages one_le_two .OPT firstPages
  have hexported : [1, 1, 2, 3, 3, 1, 2, 2].destutter (· ≠ ·) = [1, 2, 3, 1, 2] := by decide
  rw [hexported] at hdestutter
  subst hdestutter
  exact ⟨removed, s, s', hread, hrest⟩

example : (simulate .OPT 2 firstPages [1, 2, 3, 1, 2]).map (fun s => (s.miss, s.evicted)) =
    some (4, [2, 3]) := by decide

end StyLinux.PageTrace
