import Mathlib
import StyLinux.Lib.Caching
import StyLinux.PageTrace.Export

/-!
# Comparing the replacement policies

Every policy of `paging-policy.py` loads pages on demand. `OPT` misses the least. `LRU` holds the
pages accessed last, so that it misses less often in a larger memory, and neither `LRU` nor `FIFO`
misses much more often than any policy does in a smaller memory.
-/

namespace StyLinux.PageTrace

open Lib Lib.Caching

variable {policy : Policy} {cachesize : ℕ} {random : RandomStream} {addrList pages : List ℕ}
  {addrIndex n : ℕ} {s s' : Simulation}

/-! ### What an access does -/

/-- The memory and the statistics after an access to the page `n`. -/
inductive Accessed (policy : Policy) (cachesize n : ℕ) (replaced : ℤ) (s s' : Simulation) : Prop
  | hit (hn : n ∈ s.memory)
      (hmemory : s'.memory =
        if policy = .LRU ∨ policy = .MRU then s.memory.erase n ++ [n] else s.memory)
      (hhits : s'.hits = s.hits + 1) (hmiss : s'.miss = s.miss)
  | load (hn : n ∉ s.memory) (hroom : s.memory.length < cachesize)
      (hmemory : s'.memory = s.memory ++ [n]) (hhits : s'.hits = s.hits)
      (hmiss : s'.miss = s.miss + 1)
  | replace (hn : n ∉ s.memory) (hfull : s.memory.length = cachesize) (i : ℕ)
      (hi : i < s.memory.length) (hreplaced : replaced = i)
      (hmemory : s'.memory = s.memory.eraseIdx i ++ [n]) (hhits : s'.hits = s.hits)
      (hmiss : s'.miss = s.miss + 1)

lemma access_accessed (hcache : 1 ≤ cachesize) (hs : Good cachesize s)
    (h : access policy cachesize random addrList addrIndex n s = some s') :
    Accessed policy cachesize n (replaceIdx policy random addrList addrIndex s) s s' := by
  have hcount := hs.count
  have hle := hs.le
  unfold access at h
  by_cases hn : n ∈ s.memory
  · rw [if_pos hn, Option.some.injEq] at h
    subst h
    exact .hit hn rfl rfl rfl
  · rw [if_neg hn] at h
    by_cases hfull : s.count = cachesize
    · rw [if_pos hfull] at h
      have hne : s.memory ≠ [] := by
        rintro hnil
        rw [hnil, List.length_nil] at hcount
        omega
      obtain ⟨hnonneg, hlt⟩ := replaceIdx_mem policy random addrList addrIndex hs hne
      obtain ⟨i, hi⟩ := Int.eq_ofNat_of_zero_le hnonneg
      have hilt : i < s.memory.length := by omega
      rw [hi, pop_eq hilt] at h
      dsimp only [Option.bind_eq_bind, Option.bind_some] at h
      rw [if_neg (hs.replace hilt hn).1, Option.some.injEq] at h
      subst h
      exact .replace hn (by omega) i hilt hi rfl rfl rfl
    · rw [if_neg hfull, Option.some.injEq] at h
      subst h
      exact .load hn (by omega) rfl rfl rfl

/-- `OPT` replaces a page that is referenced latest. -/
lemma furthest_replaceIdx {rest : List ℕ} {i : ℕ} (hs : Good cachesize s)
    (hrest : addrList.drop addrIndex = n :: rest) (hi : i < s.memory.length)
    (hopt : replaceIdx .OPT random addrList addrIndex s = i) :
    Furthest s.memory.toFinset rest s.memory[i] := by
  have htake : s.memory.take s.count = s.memory := by rw [hs.count, List.take_length]
  have hpage : s.memory[i] ∈ s.memory := List.getElem_mem hi
  simp only [replaceIdx, htake] at hopt
  rcases scan_greatest (whenReferenced addrList addrIndex) s.memory 0 (-1) (-1) with
    ⟨-, hlt⟩ | ⟨j, hj, hscan, -, hle⟩
  · have hnonneg := whenReferenced_nonneg addrList addrIndex s.memory[i]
    have hneg := hlt _ hpage
    omega
  · intro q hq
    have hij : i = j := by omega
    subst hij
    have hq := hle q (List.mem_toFinset.mp hq)
    rw [whenReferenced_eq hrest, whenReferenced_eq hrest] at hq
    omega

/-- The pages that the policy may replace. -/
def MayReplace (policy : Policy) (M : Finset ℕ) (rest : List ℕ) (page : ℕ) : Prop :=
  policy = .OPT → Furthest M rest page

lemma access_serves {rest : List ℕ} (hcache : 1 ≤ cachesize) (hs : Good cachesize s)
    (hrest : addrList.drop addrIndex = n :: rest)
    (h : access policy cachesize random addrList addrIndex n s = some s') :
    ∃ c, Serves cachesize (MayReplace policy s.memory.toFinset rest) s.memory.toFinset n
        s'.memory.toFinset c ∧
      s'.miss = s.miss + c ∧ s'.hits + s'.miss = s.hits + s.miss + 1 := by
  cases access_accessed hcache hs h with
  | hit hn hmemory hhits hmiss =>
    refine ⟨0, ?_, hmiss, by omega⟩
    have hset : s'.memory.toFinset = s.memory.toFinset := by
      rw [hmemory]
      split
      · ext q
        simp only [List.mem_toFinset, List.mem_append, hs.nodup.mem_erase_iff, List.mem_singleton]
        by_cases hq : q = n
        · simp [hq, hn]
        · simp [hq]
      · rfl
    rw [hset]
    exact .hit (List.mem_toFinset.mpr hn)
  | load hn hroom hmemory hhits hmiss =>
    refine ⟨1, ?_, hmiss, by omega⟩
    rw [hmemory]
    exact .concat hs.nodup hn hroom
  | replace hn hfull i hi hreplaced hmemory hhits hmiss =>
    refine ⟨1, ?_, hmiss, by omega⟩
    rw [hmemory]
    apply Serves.eraseIdx_concat hs.nodup hn hfull hi
    rintro rfl
    exact furthest_replaceIdx hs hrest hi hreplaced

/-- `FIFO` and `LRU` replace the first page of the memory. -/
lemma access_queues (hcache : 1 ≤ cachesize) (hs : Good cachesize s)
    (hpolicy : policy = .FIFO ∨ policy = .LRU)
    (h : access policy cachesize random addrList addrIndex n s = some s') :
    ∃ c, Queues cachesize s.memory n s'.memory c ∧ s'.miss = s.miss + c := by
  cases access_accessed hcache hs h with
  | hit hn hmemory hhits hmiss =>
    refine ⟨0, ?_, hmiss⟩
    rw [hmemory]
    split
    · exact .touch hn
    · exact .hit hn
  | load hn hroom hmemory hhits hmiss =>
    exact ⟨1, hmemory ▸ .load hn hroom, hmiss⟩
  | replace hn hfull i hi hreplaced hmemory hhits hmiss =>
    have hfirst : i = 0 := by
      rcases hpolicy with rfl | rfl
      all_goals
        simp only [replaceIdx] at hreplaced
        omega
    subst hfirst
    rw [List.eraseIdx_zero] at hmemory
    refine ⟨1, hmemory ▸ .replace hn hfull ?_, hmiss⟩
    exact List.ne_nil_of_length_pos hi

/-- The rest of the loop is a schedule of the policy. -/
lemma accessLoop_schedule (policy : Policy) (random : RandomStream) (hcache : 1 ≤ cachesize)
    (hs : Good cachesize s) (hpages : addrList.drop addrIndex = pages) :
    ∃ s' misses, accessLoop policy cachesize random addrList pages addrIndex s = some s' ∧
      Good cachesize s' ∧
      Schedule cachesize (MayReplace policy) s.memory.toFinset pages misses ∧
      (policy = .FIFO ∨ policy = .LRU → QueueSchedule cachesize s.memory pages misses) ∧
      s'.miss = s.miss + misses ∧ s'.hits + s'.miss = s.hits + s.miss + pages.length := by
  induction pages generalizing addrIndex s with
  | nil => exact ⟨s, 0, rfl, hs, .nil _, fun _ => .nil _, rfl, rfl⟩
  | cons n rest ih =>
    obtain ⟨t, ht, hgood, -⟩ := exists_access policy random addrList addrIndex n hcache hs
    obtain ⟨c, hserves, hmiss, hhits⟩ := access_serves hcache hs hpages ht
    have hrest : addrList.drop (addrIndex + 1) = rest := by
      rw [← List.tail_drop, hpages, List.tail_cons]
    obtain ⟨s', misses, hs', hgood', hschedule, hqueue, hmiss', hhits'⟩ := ih hgood hrest
    refine ⟨s', c + misses, ?_, hgood', .cons hserves hschedule, ?_, ?_, ?_⟩
    · rw [accessLoop, ht]
      exact hs'
    · intro hpolicy
      obtain ⟨c', hqueues, hmiss''⟩ := access_queues hcache hs hpolicy ht
      have hc : c' = c := by omega
      exact .cons (hc ▸ hqueues) (hqueue hpolicy)
    · omega
    · rw [List.length_cons]
      omega

/-- The simulation does not raise, and its misses are those of a schedule of the policy. -/
structure Simulated (policy : Policy) (cachesize : ℕ) (addrList : List ℕ) (s : Simulation) :
    Prop where
  good : Good cachesize s
  schedule : Schedule cachesize (MayReplace policy) ∅ addrList s.miss
  queue : policy = .FIFO ∨ policy = .LRU → QueueSchedule cachesize [] addrList s.miss
  accesses : s.hits + s.miss = addrList.length

lemma exists_simulate (policy : Policy) (random : RandomStream) (hcache : 1 ≤ cachesize)
    (addrList : List ℕ) :
    ∃ s, simulate policy cachesize random addrList = some s ∧
      Simulated policy cachesize addrList s := by
  obtain ⟨s, misses, hs, hgood, hschedule, hqueue, hmiss, haccesses⟩ :=
    accessLoop_schedule policy random hcache good_start
      (List.drop_zero (l := addrList))
  have hmisses : s.miss = misses := hmiss.trans (Nat.zero_add misses)
  subst hmisses
  exact ⟨s, hs, hgood, hschedule, hqueue, haccesses.trans (Nat.zero_add _)⟩

lemma Simulated.anySchedule (hs : Simulated policy cachesize addrList s) :
    AnySchedule cachesize ∅ addrList s.miss :=
  hs.schedule.imp fun _ _ _ _ => trivial

lemma Simulated.miss_le {h misses : ℕ} (hs : Simulated .OPT cachesize addrList s)
    (hother : AnySchedule h ∅ addrList misses) (hcache : h ≤ cachesize) : s.miss ≤ misses := by
  have hopt : Schedule cachesize Furthest ∅ addrList s.miss :=
    hs.schedule.imp fun _ _ _ h => h rfl
  have hahead : Ahead 0 (∅ : Finset ℕ) ∅ addrList := fun _ => by simp
  exact hopt.furthest_le hother hcache (by simp) hahead

/-! ### Misses of the policies -/

/-- The memory holds no page twice and no more pages than it has room for. Each page accessed is
missed once, and no page is missed again if the memory has room for all of them. -/
theorem simulate_misses (policy : Policy) (random : RandomStream) (hcache : 1 ≤ cachesize)
    (addrList : List ℕ) :
    ∃ s, simulate policy cachesize random addrList = some s ∧
      s.memory.Nodup ∧ s.memory.length ≤ cachesize ∧ s.hits + s.miss = addrList.length ∧
      addrList.toFinset.card ≤ s.miss ∧
      (addrList.toFinset.card ≤ cachesize → s.miss = addrList.toFinset.card) := by
  obtain ⟨s, hs, hsim⟩ := exists_simulate policy random hcache addrList
  have hle := hsim.schedule.card_le
  have heq := hsim.schedule.eq_card
  rw [Finset.sdiff_empty] at hle heq
  rw [Finset.union_empty] at heq
  exact ⟨s, hs, hsim.good.nodup, hsim.good.count ▸ hsim.good.le, hsim.accesses, hle, heq⟩

/-- Three pages in a memory with room for two. -/
theorem simulate_misses_unoptRun :
    ∃ s, simulate .UNOPT 2 firstPages [1, 2, 3, 1] = some s ∧
      s.memory.Nodup ∧ s.memory.length ≤ 2 ∧ s.hits + s.miss = [1, 2, 3, 1].length ∧
      [1, 2, 3, 1].toFinset.card ≤ s.miss ∧
      ([1, 2, 3, 1].toFinset.card ≤ 2 → s.miss = [1, 2, 3, 1].toFinset.card) :=
  simulate_misses .UNOPT firstPages (by decide) [1, 2, 3, 1]

/-- `OPT` misses at most as often as any policy in a memory that is not larger, whatever numbers are
drawn. -/
theorem simulate_OPT_le {h : ℕ} (hh : 1 ≤ h) (hcache : h ≤ cachesize) (policy : Policy)
    (random random' : RandomStream) (addrList : List ℕ) :
    ∃ s s', simulate .OPT cachesize random addrList = some s ∧
      simulate policy h random' addrList = some s' ∧ s.miss ≤ s'.miss := by
  obtain ⟨s, hs, hsim⟩ := exists_simulate .OPT random (hh.trans hcache) addrList
  obtain ⟨s', hs', hsim'⟩ := exists_simulate policy random' hh addrList
  exact ⟨s, s', hs, hs', hsim.miss_le hsim'.anySchedule hcache⟩

theorem simulate_OPT_le_lruRun :
    ∃ s s', simulate .OPT 3 firstPages [1, 2, 3, 4, 1, 2] = some s ∧
      simulate .LRU 2 firstPages [1, 2, 3, 4, 1, 2] = some s' ∧ s.miss ≤ s'.miss :=
  simulate_OPT_le (by decide) (by decide) .LRU firstPages firstPages [1, 2, 3, 4, 1, 2]

/-- `FIFO` may miss more often in a larger memory. -/
example : (simulate .FIFO 3 firstPages [1, 2, 3, 4, 1, 2, 5, 1, 2, 3, 4, 5]).map
      (fun s => s.miss) = some 9 ∧
    (simulate .FIFO 4 firstPages [1, 2, 3, 4, 1, 2, 5, 1, 2, 3, 4, 5]).map
      (fun s => s.miss) = some 10 := by decide

lemma access_useLast (hcache : 1 ≤ cachesize) (hs : Good cachesize s)
    (h : access .LRU cachesize random addrList addrIndex n s = some s') :
    s'.memory = useLast cachesize s.memory n ∧
      s'.miss = s.miss + if n ∈ s.memory then 0 else 1 := by
  unfold useLast
  cases access_accessed hcache hs h with
  | hit hn hmemory hhits hmiss =>
    rw [if_pos hn, if_pos hn]
    exact ⟨hmemory, hmiss⟩
  | load hn hroom hmemory hhits hmiss =>
    rw [if_neg hn, if_neg hn, if_neg (by omega)]
    exact ⟨hmemory, hmiss⟩
  | replace hn hfull i hi hreplaced hmemory hhits hmiss =>
    have hfirst : i = 0 := by
      simp only [replaceIdx] at hreplaced
      omega
    rw [if_neg hn, if_neg hn, if_pos hfull, hmemory, hfirst, List.eraseIdx_zero]
    exact ⟨rfl, hmiss⟩

/-- The loops over the same accesses in a smaller and in a larger memory. -/
lemma accessLoop_LRU {h : ℕ} {seen : List ℕ} {t : Simulation} (random random' : RandomStream)
    (addrList : List ℕ) (addrIndex : ℕ) (pages : List ℕ) (hh : 1 ≤ h) (hcache : h ≤ cachesize)
    (hs : Good h s) (ht : Good cachesize t) (hlast : IsLast h seen.dedup s.memory)
    (hlast' : IsLast cachesize seen.dedup t.memory) :
    ∃ s' t', accessLoop .LRU h random addrList pages addrIndex s = some s' ∧
      accessLoop .LRU cachesize random' addrList pages addrIndex t = some t' ∧
      IsLast h (seen ++ pages).dedup s'.memory ∧
      IsLast cachesize (seen ++ pages).dedup t'.memory ∧ t'.miss + s.miss ≤ s'.miss + t.miss := by
  induction pages generalizing seen s t addrIndex with
  | nil =>
    rw [List.append_nil]
    exact ⟨s, t, rfl, rfl, hlast, hlast', by omega⟩
  | cons n rest ih =>
    obtain ⟨u, hu, hgood, -⟩ := exists_access .LRU random addrList addrIndex n hh hs
    obtain ⟨v, hv, hgood', -⟩ :=
      exists_access .LRU random' addrList addrIndex n (hh.trans hcache) ht
    obtain ⟨hmemory, hmiss⟩ := access_useLast hh hs hu
    obtain ⟨hmemory', hmiss'⟩ := access_useLast (hh.trans hcache) ht hv
    have hfewer : v.miss + s.miss ≤ u.miss + t.miss := by
      have hsub := (hlast.suffix hlast' hcache).subset (a := n)
      by_cases hn : n ∈ s.memory
      · rw [if_pos (hsub hn)] at hmiss'
        omega
      · rw [if_neg hn] at hmiss
        split at hmiss' <;> omega
    obtain ⟨s', t', hs', ht', hend, hend', hle⟩ := ih (addrIndex + 1) hgood hgood'
      (hmemory ▸ hlast.useLast hh n) (hmemory' ▸ hlast'.useLast (hh.trans hcache) n)
    rw [List.append_assoc, List.singleton_append] at hend hend'
    refine ⟨s', t', ?_, ?_, hend, hend', by omega⟩
    · rw [accessLoop, hu]
      exact hs'
    · rw [accessLoop, hv]
      exact ht'

lemma exists_simulate_LRU {h : ℕ} (hh : 1 ≤ h) (hcache : h ≤ cachesize)
    (random random' : RandomStream) (addrList : List ℕ) :
    ∃ s s', simulate .LRU h random addrList = some s ∧
      simulate .LRU cachesize random' addrList = some s' ∧
      IsLast h addrList.dedup s.memory ∧ IsLast cachesize addrList.dedup s'.memory ∧
      s'.miss ≤ s.miss := by
  have hempty (C : ℕ) : IsLast C ([] : List ℕ).dedup start.memory :=
    ⟨List.suffix_rfl, by simp [start]⟩
  exact accessLoop_LRU random random' addrList 0 addrList hh hcache good_start good_start
    (hempty h) (hempty cachesize)

/-- The memory of `LRU` holds the pages accessed last, in this order, so that a larger memory holds
all pages of a smaller one at any time and misses at most as often. -/
theorem simulate_LRU_suffix {h : ℕ} (hh : 1 ≤ h) (hcache : h ≤ cachesize)
    (random random' : RandomStream) (addrList : List ℕ) :
    ∃ s s', simulate .LRU h random addrList = some s ∧
      simulate .LRU cachesize random' addrList = some s' ∧
      s.memory = addrList.dedup.rtake h ∧ s'.memory = addrList.dedup.rtake cachesize ∧
      s.memory <:+ s'.memory ∧ s'.miss ≤ s.miss := by
  obtain ⟨s, s', hs, hs', hlast, hlast', hle⟩ :=
    exists_simulate_LRU hh hcache random random' addrList
  exact ⟨s, s', hs, hs', hlast.eq_rtake, hlast'.eq_rtake, hlast.suffix hlast' hcache, hle⟩

theorem simulate_LRU_suffix_run :
    ∃ s s', simulate .LRU 2 firstPages [1, 2, 3, 1] = some s ∧
      simulate .LRU 3 firstPages [1, 2, 3, 1] = some s' ∧
      s.memory = [1, 2, 3, 1].dedup.rtake 2 ∧ s'.memory = [1, 2, 3, 1].dedup.rtake 3 ∧
      s.memory <:+ s'.memory ∧ s'.miss ≤ s.miss :=
  simulate_LRU_suffix (by decide) (by decide) firstPages firstPages [1, 2, 3, 1]

end StyLinux.PageTrace
