import Mathlib
import StyLinux.PageTrace.Policies

/-!
# The policy `CLOCK` of `paging-policy.py`

The victim is looked for at random: a page that is drawn loses one of its reference bits, and the
first one drawn without any is replaced. The search ends, whatever numbers are drawn, since each
access sets one bit at most.
-/

namespace StyLinux.PageTrace

open Lib Lib.Caching

inductive ClockError
  | outOfFuel
  | IndexError
  | KeyError
  | AssertionError
  deriving DecidableEq, Repr

/-- The variables of the loop, with the dictionary `ref`. -/
structure Clock extends Simulation where
  ref : ℕ → Option ℤ

def startClock : Clock where
  toSimulation := start
  ref := fun _ => none

section Loop

variable (clockbits : ℤ) (cachesize : ℕ) (random : RandomStream)

/-- The loop for the victim, which leaves the memory and the dictionary. -/
def victimLoop : ℕ → Clock → Except ClockError (ℕ × Clock)
  | 0, _ => .error .outOfFuel
  | fuel + 1, s =>
    match s.memory[random.pick s.draws s.count]? with
    | none => .error .IndexError
    | some page =>
      match s.ref page with
      | none => .error .KeyError
      | some bits =>
        if bits ≥ 1 then
          victimLoop fuel { s with
            draws := s.draws + 1
            ref := Function.update s.ref page (some (bits - 1)) }
        else .ok (page, { s with
          draws := s.draws + 1
          memory := s.memory.erase page
          ref := Function.update s.ref page none })

/-- The page `n` is added to the memory, which may have to lose a page first. -/
def loadPage (n fuel : ℕ) (s : Clock) : Except ClockError (ℤ × Clock) :=
  if s.count = cachesize then do
    let (victim, s) ← victimLoop random fuel s
    -- `assert(victim not in memory)`
    if victim ∈ s.memory ++ [n] then .error .AssertionError
    else .ok (victim, { s with memory := s.memory ++ [n] })
  else .ok (-1, { s with count := s.count + 1, memory := s.memory ++ [n] })

/-- The reference bits after an access to the page `n`. -/
def updateRef (n : ℕ) (ref : ℕ → Option ℤ) : ℕ → Option ℤ :=
  match ref n with
  | none => Function.update ref n (some 1)
  | some bits => Function.update ref n (some (if bits + 1 > clockbits then clockbits else bits + 1))

/-- The end of the body of the loop. -/
def endAccess (n : ℕ) (idx victim : ℤ) (s : Clock) : Clock :=
  { s with
    ref := updateRef clockbits n s.ref
    trace := s.trace ++ [⟨n, idx, s.memory, victim, s.hits, s.miss⟩] }

/-- The body of the loop. -/
def accessClock (n fuel : ℕ) (s : Clock) : Except ClockError Clock :=
  if n ∈ s.memory then
    .ok (endAccess clockbits n (s.memory.idxOf n) (-1) { s with hits := s.hits + 1 })
  else do
    let (victim, s) ← loadPage cachesize random n fuel { s with miss := s.miss + 1 }
    .ok (endAccess clockbits n (-1) victim s)

def clockLoop (fuel : ℕ) : List ℕ → Clock → Except ClockError Clock
  | [], s => .ok s
  | n :: rest, s => do
    let s' ← accessClock clockbits cachesize random n fuel s
    clockLoop fuel rest s'

def simulateClock (addrList : List ℕ) (fuel : ℕ) : Except ClockError Clock :=
  clockLoop clockbits cachesize random fuel addrList startClock

end Loop

variable {clockbits : ℤ} {cachesize : ℕ} {random : RandomStream} {s s' : Clock} {n : ℕ}
  {ref : ℕ → Option ℤ} {memory : List ℕ} {page : ℕ}

/-! ### The reference bits -/

/-- How many times a page of the memory may be drawn before it is replaced. -/
def chances (ref : ℕ → Option ℤ) (page : ℕ) : ℕ := ((ref page).getD 0).toNat

def totalChances (ref : ℕ → Option ℤ) (memory : List ℕ) : ℕ := (memory.map (chances ref)).sum

lemma totalChances_erase (ref : ℕ → Option ℤ) (hpage : page ∈ memory) :
    totalChances ref memory = chances ref page + totalChances ref (memory.erase page) := by
  have hperm := (List.perm_cons_erase hpage).map (chances ref)
  exact hperm.sum_eq

lemma totalChances_update_of_notMem (ref : ℕ → Option ℤ) (hpage : page ∉ memory) (bits : Option ℤ) :
    totalChances (Function.update ref page bits) memory = totalChances ref memory := by
  unfold totalChances
  congr 1
  apply List.map_congr_left
  intro q hq
  have hne : q ≠ page := fun h => hpage (h ▸ hq)
  rw [chances, chances, Function.update_of_ne hne]

lemma totalChances_update (ref : ℕ → Option ℤ) (hnodup : memory.Nodup) (hpage : page ∈ memory)
    (bits : Option ℤ) :
    totalChances (Function.update ref page bits) memory + chances ref page =
      totalChances ref memory + (bits.getD 0).toNat := by
  have hbits : chances (Function.update ref page bits) page = (bits.getD 0).toNat := by
    rw [chances, Function.update_self]
  rw [totalChances_erase _ hpage, totalChances_erase ref hpage,
    totalChances_update_of_notMem ref hnodup.not_mem_erase, hbits]
  omega

/-- Exactly the pages of the memory have reference bits, not more than `clockbits` unless this is
less than one. -/
structure Referenced (clockbits : ℤ) (memory : List ℕ) (ref : ℕ → Option ℤ) : Prop where
  keys : ∀ page, (ref page).isSome ↔ page ∈ memory
  le : ∀ page bits, ref page = some bits → bits ≤ max 1 clockbits

lemma Referenced.update {bits : ℤ} (h : Referenced clockbits memory ref) (hpage : page ∈ memory)
    (hbits : bits ≤ max 1 clockbits) :
    Referenced clockbits memory (Function.update ref page (some bits)) := by
  constructor
  · intro q
    by_cases hq : q = page
    · subst hq
      simp [hpage]
    · rw [Function.update_of_ne hq]
      exact h.keys q
  · intro q b hb
    by_cases hq : q = page
    · subst hq
      rw [Function.update_self, Option.some.injEq] at hb
      exact hb ▸ hbits
    · rw [Function.update_of_ne hq] at hb
      exact h.le q b hb

lemma Referenced.erase (h : Referenced clockbits memory ref) (hnodup : memory.Nodup) (page : ℕ) :
    Referenced clockbits (memory.erase page) (Function.update ref page none) := by
  constructor
  · intro q
    rw [hnodup.mem_erase_iff]
    by_cases hq : q = page
    · subst hq
      simp
    · rw [Function.update_of_ne hq]
      simp [hq, h.keys q]
  · intro q b hb
    by_cases hq : q = page
    · subst hq
      rw [Function.update_self] at hb
      cases hb
    · rw [Function.update_of_ne hq] at hb
      exact h.le q b hb

/-! ### The search for the victim -/

/-- What the search for the victim does. -/
structure Searched (clockbits : ℤ) (s : Clock) (victim : ℕ) (s' : Clock) : Prop where
  mem : victim ∈ s.memory
  memory : s'.memory = s.memory.erase victim
  referenced : Referenced clockbits s'.memory s'.ref
  count : s'.count = s.count
  hits : s'.hits = s.hits
  miss : s'.miss = s.miss
  draws : s'.draws + totalChances s'.ref s'.memory ≤ s.draws + totalChances s.ref s.memory + 1

/-- The search ends as soon as the pages have lost their reference bits, if not before. -/
lemma exists_victimLoop (random : RandomStream) (hnodup : s.memory.Nodup)
    (hcount : s.count = s.memory.length) (hne : s.memory ≠ [])
    (href : Referenced clockbits s.memory s.ref) :
    ∃ victim s', (∀ fuel, totalChances s.ref s.memory < fuel →
        victimLoop random fuel s = .ok (victim, s')) ∧ Searched clockbits s victim s' := by
  induction htotal : totalChances s.ref s.memory using Nat.strong_induction_on generalizing s with
  | _ total ih =>
    have hlt : random.pick s.draws s.count < s.memory.length :=
      hcount ▸ random.pick_lt s.draws s.count (hcount ▸ List.length_pos_of_ne_nil hne)
    obtain ⟨page, hdrawn⟩ : ∃ page, s.memory[random.pick s.draws s.count]? = some page :=
      ⟨_, List.getElem?_eq_getElem hlt⟩
    have hpage : page ∈ s.memory := List.mem_of_getElem? hdrawn
    obtain ⟨bits, hbits⟩ := Option.isSome_iff_exists.mp ((href.keys page).mpr hpage)
    have hchances : chances s.ref page = bits.toNat := by rw [chances, hbits, Option.getD_some]
    by_cases hleft : bits ≥ 1
    · have hle := href.le page bits hbits
      have hfewer := totalChances_update s.ref hnodup hpage (some (bits - 1))
      rw [Option.getD_some, hchances, htotal] at hfewer
      let t : Clock := { s with
        draws := s.draws + 1
        ref := Function.update s.ref page (some (bits - 1)) }
      have htotal' : totalChances t.ref t.memory + 1 = total := by
        show totalChances (Function.update s.ref page (some (bits - 1))) s.memory + 1 = total
        omega
      obtain ⟨victim, s', hloop, hsearched⟩ := ih _ (by omega) hnodup hcount hne
        (href.update hpage (by omega)) rfl (s := t)
      have hdraws : s'.draws + totalChances s'.ref s'.memory ≤
          s.draws + 1 + totalChances t.ref t.memory + 1 := hsearched.draws
      refine ⟨victim, s', ?_, hsearched.mem, hsearched.memory, hsearched.referenced,
        hsearched.count, hsearched.hits, hsearched.miss, by omega⟩
      intro fuel hfuel
      cases fuel with
      | zero => omega
      | succ fuel =>
        rw [victimLoop, hdrawn]
        dsimp only
        rw [hbits]
        dsimp only
        rw [if_pos hleft]
        exact hloop fuel (by omega)
    · have hrest := totalChances_erase s.ref hpage
      have hnone := totalChances_update_of_notMem s.ref (hnodup.not_mem_erase (a := page)) none
      refine ⟨page, { s with
        draws := s.draws + 1
        memory := s.memory.erase page
        ref := Function.update s.ref page none }, ?_, hpage, rfl, href.erase hnodup page, rfl, rfl,
        rfl, ?_⟩
      · intro fuel hfuel
        cases fuel with
        | zero => omega
        | succ fuel =>
          rw [victimLoop, hdrawn]
          dsimp only
          rw [hbits]
          dsimp only
          rw [if_neg hleft]
      · dsimp only
        omega

/-! ### An access -/

lemma updateRef_some (clockbits : ℤ) {bits : ℤ} (h : ref n = some bits) :
    ∃ bits', updateRef clockbits n ref = Function.update ref n (some bits') ∧
      bits' ≤ clockbits ∧ bits' ≤ bits + 1 := by
  unfold updateRef
  rw [h]
  refine ⟨_, rfl, ?_⟩
  split <;> omega

lemma Referenced.updateRef_hit (h : Referenced clockbits memory ref) (hnodup : memory.Nodup)
    (hn : n ∈ memory) :
    Referenced clockbits memory (updateRef clockbits n ref) ∧
      totalChances (updateRef clockbits n ref) memory ≤ totalChances ref memory + 1 := by
  obtain ⟨bits, hbits⟩ := Option.isSome_iff_exists.mp ((h.keys n).mpr hn)
  obtain ⟨bits', heq, hle, hnext⟩ := updateRef_some clockbits hbits
  have hchances : chances ref n = bits.toNat := by rw [chances, hbits, Option.getD_some]
  have htotal := totalChances_update ref hnodup hn (some bits')
  rw [Option.getD_some, hchances] at htotal
  rw [heq]
  exact ⟨h.update hn (by omega), by omega⟩

lemma Referenced.updateRef_load (h : Referenced clockbits memory ref) (hn : n ∉ memory) :
    Referenced clockbits (memory ++ [n]) (updateRef clockbits n ref) ∧
      totalChances (updateRef clockbits n ref) (memory ++ [n]) = totalChances ref memory + 1 := by
  have hnone : ref n = none := by
    rw [← Option.not_isSome_iff_eq_none, h.keys n]
    exact hn
  have heq : updateRef clockbits n ref = Function.update ref n (some 1) := by
    unfold updateRef
    rw [hnone]
  rw [heq]
  refine ⟨⟨?_, ?_⟩, ?_⟩
  · intro q
    by_cases hq : q = n
    · simp [hq]
    · simp [hq, h.keys q]
  · intro q bits hbits
    by_cases hq : q = n
    · subst hq
      rw [Function.update_self, Option.some.injEq] at hbits
      omega
    · rw [Function.update_of_ne hq] at hbits
      exact h.le q bits hbits
  · have hrest := totalChances_update_of_notMem ref hn (some 1)
    unfold totalChances at hrest ⊢
    rw [List.map_append, List.sum_append, hrest]
    simp [chances]

lemma Referenced.totalChances_le (h : Referenced clockbits memory ref)
    (hlength : memory.length ≤ cachesize) :
    totalChances ref memory ≤ cachesize * (max 1 clockbits).toNat := by
  have hpage : ∀ x ∈ memory.map (chances ref), x ≤ (max 1 clockbits).toNat := by
    intro x hx
    obtain ⟨page, -, rfl⟩ := List.mem_map.mp hx
    unfold chances
    cases hbits : ref page with
    | none => exact Nat.zero_le _
    | some bits =>
      have hle := h.le page bits hbits
      rw [Option.getD_some]
      omega
  have hsum := List.sum_le_card_nsmul _ _ hpage
  rw [List.length_map, smul_eq_mul] at hsum
  exact hsum.trans (Nat.mul_le_mul_right _ hlength)

/-- What the loop keeps. -/
structure GoodClock (clockbits : ℤ) (cachesize : ℕ) (s : Clock) : Prop where
  good : Good cachesize s.toSimulation
  referenced : Referenced clockbits s.memory s.ref

/-- What an access does, with the numbers it draws. -/
structure AccessedClock (cachesize n c : ℕ) (s s' : Clock) : Prop where
  serves : Serves cachesize (fun _ => True) s.memory.toFinset n s'.memory.toFinset c
  miss : s'.miss = s.miss + c
  accesses : s'.hits + s'.miss = s.hits + s.miss + 1
  draws : s'.draws + s'.count + totalChances s'.ref s'.memory ≤
    s.draws + s.count + totalChances s.ref s.memory + 1 + c

/-- Loading a page keeps the reference bits of the pages that stay. -/
structure Loaded (clockbits : ℤ) (cachesize n : ℕ) (s s' : Clock) : Prop where
  good : Good cachesize s'.toSimulation
  serves : Serves cachesize (fun _ => True) s.memory.toFinset n s'.memory.toFinset 1
  memory : ∃ pages, s'.memory = pages ++ [n] ∧ n ∉ pages ∧ Referenced clockbits pages s'.ref ∧
    s'.draws + s'.count + totalChances s'.ref pages ≤
      s.draws + s.count + totalChances s.ref s.memory + 1
  hits : s'.hits = s.hits
  miss : s'.miss = s.miss

lemma exists_loadPage (random : RandomStream) (hcache : 1 ≤ cachesize)
    (hs : GoodClock clockbits cachesize s) (hn : n ∉ s.memory) :
    ∃ victim s', (∀ fuel, cachesize * (max 1 clockbits).toNat < fuel →
        loadPage cachesize random n fuel s = .ok (victim, s')) ∧
      Loaded clockbits cachesize n s s' := by
  have hnodup := hs.good.nodup
  have hcount := hs.good.count
  have hle := hs.good.le
  unfold loadPage
  by_cases hfull : s.count = cachesize
  · have hlength : 0 < s.memory.length := by omega
    obtain ⟨victim, t, hloop, ht⟩ := exists_victimLoop random hnodup hcount
      (List.ne_nil_of_length_pos hlength) hs.referenced
    obtain ⟨i, hi, hvictim⟩ := List.getElem_of_mem ht.mem
    have hmemory : t.memory = s.memory.eraseIdx i := by
      rw [ht.memory, ← hvictim, hnodup.erase_getElem]
    obtain ⟨hnot, hnodup', hlength'⟩ := Python.nodup_replace hnodup hi hn
    rw [hvictim, ← hmemory] at hnot
    rw [← hmemory] at hnodup' hlength'
    refine ⟨victim, { t with memory := t.memory ++ [n] }, ?_, ⟨?_, ?_, ?_, ht.hits, ht.miss⟩⟩
    · intro fuel hfuel
      have hbound := hs.referenced.totalChances_le (hcount ▸ hle)
      rw [if_pos hfull, hloop fuel (by omega)]
      exact if_neg hnot
    · refine ⟨hnodup', ?_, ?_⟩
      · dsimp only
        rw [ht.count, hcount, hlength']
      · dsimp only
        rw [ht.count]
        exact hle
    · dsimp only
      rw [hmemory]
      exact .eraseIdx_concat hnodup hn (hcount ▸ hfull) hi trivial
    · refine ⟨t.memory, rfl, ?_, ht.referenced, ?_⟩
      · rw [ht.memory]
        exact fun h => hn (List.mem_of_mem_erase h)
      · have hdraws := ht.draws
        have hcount' := ht.count
        dsimp only
        omega
  · refine ⟨-1, { s with count := s.count + 1, memory := s.memory ++ [n] },
      fun fuel _ => if_neg hfull, ⟨?_, ?_, ⟨s.memory, rfl, hn, hs.referenced, ?_⟩, rfl, rfl⟩⟩
    · refine ⟨hnodup.append (List.nodup_singleton n) (by simpa using hn), ?_, ?_⟩
      · simp [hcount]
      · dsimp only
        omega
    · exact .concat hnodup hn (by omega)
    · dsimp only
      omega

lemma exists_accessClock (random : RandomStream) (n : ℕ) (hcache : 1 ≤ cachesize)
    (hs : GoodClock clockbits cachesize s) :
    ∃ s' c, (∀ fuel, cachesize * (max 1 clockbits).toNat < fuel →
        accessClock clockbits cachesize random n fuel s = .ok s') ∧
      GoodClock clockbits cachesize s' ∧ AccessedClock cachesize n c s s' := by
  have hnodup := hs.good.nodup
  have hcount := hs.good.count
  have hle := hs.good.le
  unfold accessClock
  by_cases hn : n ∈ s.memory
  · obtain ⟨href, htotal⟩ := hs.referenced.updateRef_hit hnodup hn
    refine ⟨_, 0, fun fuel _ => if_pos hn, ⟨⟨hnodup, hcount, hle⟩, href⟩, ?_⟩
    refine ⟨.hit (List.mem_toFinset.mpr hn), rfl, ?_, ?_⟩
    · simp only [endAccess]
      omega
    · simp only [endAccess]
      omega
  · obtain ⟨victim, t, hload, ht⟩ := exists_loadPage random hcache (n := n)
      (s := { s with miss := s.miss + 1 }) (⟨⟨hnodup, hcount, hle⟩, hs.referenced⟩ :
        GoodClock clockbits cachesize { s with miss := s.miss + 1 }) hn
    obtain ⟨pages, hmemory, hnot, hreferenced, hdraws⟩ := ht.memory
    obtain ⟨href, htotal⟩ := hreferenced.updateRef_load hnot
    rw [← hmemory] at href htotal
    have hhits := ht.hits
    have hmiss := ht.miss
    refine ⟨endAccess clockbits n (-1) victim t, 1, ?_,
      ⟨⟨ht.good.nodup, ht.good.count, ht.good.le⟩, href⟩, ⟨ht.serves, hmiss, ?_, ?_⟩⟩
    · intro fuel hfuel
      rw [if_neg hn, hload fuel hfuel]
      rfl
    · simp only [endAccess]
      dsimp only at hhits hmiss
      omega
    · simp only [endAccess]
      dsimp only at hdraws
      omega

lemma exists_clockLoop (random : RandomStream) (pages : List ℕ) (hcache : 1 ≤ cachesize)
    (hs : GoodClock clockbits cachesize s) :
    ∃ s' misses, (∀ fuel, cachesize * (max 1 clockbits).toNat < fuel →
        clockLoop clockbits cachesize random fuel pages s = .ok s') ∧
      GoodClock clockbits cachesize s' ∧
      AnySchedule cachesize s.memory.toFinset pages misses ∧ s'.miss = s.miss + misses ∧
      s'.hits + s'.miss = s.hits + s.miss + pages.length ∧
      s'.draws + s'.count + totalChances s'.ref s'.memory ≤
        s.draws + s.count + totalChances s.ref s.memory + pages.length + misses := by
  induction pages generalizing s with
  | nil => exact ⟨s, 0, fun _ _ => rfl, hs, .nil _, rfl, rfl, le_rfl⟩
  | cons n rest ih =>
    obtain ⟨t, c, hloop, hgood, ht⟩ := exists_accessClock random n hcache hs
    obtain ⟨s', misses, hloop', hgood', hschedule, hmiss, haccesses, hdraws⟩ := ih hgood
    have hmiss' := ht.miss
    have haccesses' := ht.accesses
    have hdraws' := ht.draws
    refine ⟨s', c + misses, ?_, hgood', .cons ht.serves hschedule, by omega, ?_, ?_⟩
    · intro fuel hfuel
      rw [clockLoop, hloop fuel hfuel]
      exact hloop' fuel hfuel
    · rw [List.length_cons]
      omega
    · rw [List.length_cons]
      omega

lemma exists_simulateClock (clockbits : ℤ) (hcache : 1 ≤ cachesize) (random : RandomStream)
    (addrList : List ℕ) :
    ∃ s, (∀ fuel, cachesize * (max 1 clockbits).toNat < fuel →
        simulateClock clockbits cachesize random addrList fuel = .ok s) ∧
      GoodClock clockbits cachesize s ∧ AnySchedule cachesize ∅ addrList s.miss ∧
      s.hits + s.miss = addrList.length ∧
      s.draws + s.memory.length ≤ addrList.length + s.miss := by
  have hstart : GoodClock clockbits cachesize startClock :=
    ⟨good_start, ⟨fun _ => by simp [startClock, start], fun _ _ h => by cases h⟩⟩
  obtain ⟨s, misses, hloop, hgood, hschedule, hmiss, haccesses, hdraws⟩ :=
    exists_clockLoop random addrList hcache hstart
  have hcount := hgood.good.count
  simp only [startClock, start, totalChances, List.map_nil, List.sum_nil, List.toFinset_nil]
    at hmiss haccesses hdraws hschedule
  refine ⟨s, hloop, hgood, ?_, by omega, by omega⟩
  rw [show s.miss = misses by omega]
  exact hschedule

/-- Whatever numbers are drawn, the searches for the victims end and nothing is raised. Exactly the
pages of the memory have reference bits, at most `clockbits` of them (one if this is less), and no
more numbers are drawn than there are accesses and replacements. -/
theorem simulateClock_ends (clockbits : ℤ) (hcache : 1 ≤ cachesize) (random : RandomStream)
    (addrList : List ℕ) :
    ∃ s, (∀ fuel, cachesize * (max 1 clockbits).toNat < fuel →
        simulateClock clockbits cachesize random addrList fuel = .ok s) ∧
      s.memory.Nodup ∧ s.memory.length ≤ cachesize ∧
      (∀ page, (s.ref page).isSome ↔ page ∈ s.memory) ∧
      (∀ page bits, s.ref page = some bits → bits ≤ max 1 clockbits) ∧
      s.hits + s.miss = addrList.length ∧
      s.draws + s.memory.length ≤ addrList.length + s.miss := by
  obtain ⟨s, hloop, hgood, hschedule, haccesses, hdraws⟩ :=
    exists_simulateClock clockbits hcache random addrList
  exact ⟨s, hloop, hgood.good.nodup, hgood.good.count ▸ hgood.good.le, hgood.referenced.keys,
    hgood.referenced.le, haccesses, hdraws⟩

/-- Two pages that are accessed twice, and a third one. -/
theorem simulateClock_ends_run :
    ∃ s, (∀ fuel, 2 * (max 1 (2 : ℤ)).toNat < fuel →
        simulateClock 2 2 firstPages [1, 2, 1, 2, 3] fuel = .ok s) ∧
      s.memory.Nodup ∧ s.memory.length ≤ 2 ∧
      (∀ page, (s.ref page).isSome ↔ page ∈ s.memory) ∧
      (∀ page bits, s.ref page = some bits → bits ≤ max 1 2) ∧
      s.hits + s.miss = [1, 2, 1, 2, 3].length ∧
      s.draws + s.memory.length ≤ [1, 2, 1, 2, 3].length + s.miss :=
  simulateClock_ends 2 (by decide) firstPages [1, 2, 1, 2, 3]

/-- `OPT` misses at most as often as `CLOCK` in a memory that is not larger. -/
theorem simulate_OPT_le_clock {h : ℕ} (hh : 1 ≤ h) (hcache : h ≤ cachesize) (clockbits : ℤ)
    (random random' : RandomStream) (addrList : List ℕ) :
    ∃ s s', simulate .OPT cachesize random addrList = some s ∧
      (∀ fuel, h * (max 1 clockbits).toNat < fuel →
        simulateClock clockbits h random' addrList fuel = .ok s') ∧ s.miss ≤ s'.miss := by
  obtain ⟨s, hs, hsim⟩ := exists_simulate .OPT random (hh.trans hcache) addrList
  obtain ⟨s', hloop, -, hschedule, -⟩ := exists_simulateClock clockbits hh random' addrList
  exact ⟨s, s', hs, hloop, hsim.miss_le hschedule hcache⟩

theorem simulate_OPT_le_clock_run :
    ∃ s s', simulate .OPT 3 firstPages [1, 2, 1, 2, 3] = some s ∧
      (∀ fuel, 2 * (max 1 (1 : ℤ)).toNat < fuel →
        simulateClock 1 2 firstPages [1, 2, 1, 2, 3] fuel = .ok s') ∧ s.miss ≤ s'.miss :=
  simulate_OPT_le_clock (by decide) (by decide) 1 firstPages firstPages [1, 2, 1, 2, 3]

end StyLinux.PageTrace
